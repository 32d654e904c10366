import Gloss.Proofs.Language.Script.Table

/-!
Closing tags that a run of an embedded script passes. The run stops in front of a tag that it comes to between two
tokens, and in front of one that a token holds as a whole. So it passes a tag just within a token that begins before
the tag, or was cut there, and that is recorded up to a place inside the tag, or else up to a server's tag, which
counts first.
-/
namespace Gloss

open Text (Spot Source)

namespace Pattern

variable {p : Pattern} {src : Source} {at_ behind pos : Nat} {m : Match}

/-- What the pattern covers stands in the source from one offset to another. -/
def Stands (p : Pattern) (src : Source) (at_ behind : Nat) : Prop :=
  ∃ (u t : Spot) (marks : Regex.Marks), u.In src.chars ∧ u.pos = at_ ∧ t.pos = behind ∧ p.Covers u t marks

theorem Stands.found (h : p.Stands src at_ behind) (low : pos ≤ at_) :
    ∃ f, p.findFrom? src pos = some f ∧ f.start ≤ at_ := by
  obtain ⟨u, t, marks, inside, rfl, rfl, covers⟩ := h
  exact findFrom?_before inside ⟨t, marks, covers⟩ low

/-- What stands within a match is found in its text, or something earlier is. -/
theorem Stands.in_text (h : p.Stands src at_ behind) (placeless : p.parsed.regex.placeless) (spans : m.Spans src)
    (low : m.start ≤ at_) (high : behind ≤ m.stop) : ∃ f, p.find? (m.text src) = some f ∧ m.start + f.start ≤ at_ := by
  obtain ⟨u, t, marks, inside, rfl, rfl, covers⟩ := h
  obtain ⟨s, insideS, start⟩ := Source.isBoundary_iff.mp spans.start
  obtain ⟨z, insideZ, stop⟩ := Source.isBoundary_iff.mp spans.stop
  obtain ⟨w, readsW⟩ := covers.reads
  obtain ⟨v, readsV⟩ := insideS.between inside (by omega)
  obtain ⟨b, readsB⟩ := (inside.reads readsW).between insideZ (by omega)
  have text : (m.text src).toList = v ++ (w ++ b) := by
    rw [spans.text_eq, ← start, ← stop, Source.between_reads insideS (readsV.trans (readsW.trans readsB))]
  obtain ⟨o, front, rest⟩ : ∃ o, Spot.Reads (Spot.start (m.text src).toList) v o ∧ o.rest = w ++ b :=
    ⟨_, Spot.Reads.of_rest text, rfl⟩
  have starts : p.Starts o := by
    obtain ⟨marks', matched⟩ := covers.elsewhere placeless readsW (Spot.Reads.of_rest rest) []
    exact ⟨_, marks', matched⟩
  cases found : p.find? (m.text src) with
  | none =>
    simp only [find?, Option.map_eq_none_iff] at found
    exact absurd starts (findSpot?_none.mp found o v front)
  | some f =>
    obtain ⟨a, _, o', _, _, _, begins, readsO, _, first⟩ := Suspend.find?_some found
    have size := readsV.pos
    have sizeO := readsO.pos
    refine ⟨f, rfl, ?_⟩
    by_cases early : m.start + f.start ≤ u.pos
    · exact early
    · refine absurd starts (first o v front ?_)
      rw [front.pos, sizeO]
      omega

end Pattern

end Gloss

namespace Gloss.Language.Script

open Text (Spot Source)

/-- Steps from an offset on record the part of a token up to an offset. -/
inductive Records (g : Grammar) (e : Embedding) (src : Source) : Nat → Option Kind → Kind → Match → Nat → Prop where
  | here {pos stop : Nat} {cut : Option Kind} {kind : Kind} {m : Match} {on : Bool} {y : Suspension}
      (takes : Takes g src pos cut kind m) (ends : Ends e src kind m on stop y) : Records g e src pos cut kind m stop
  | later {pos mid stop : Nat} {cut : Option Kind} {kind : Kind} {m : Match} {y : Suspension}
      (step : Stepped g e src pos cut true mid y) (more : Records g e src mid y.cut kind m stop) :
      Records g e src pos cut kind m stop

variable {e : Embedding} {src : Source} {pos stop at_ behind : Nat} {cut : Option Kind} {kind : Kind} {m : Match}
  {y : Suspension}

/-- In markup the closing tag has an entry, behind that of the server's tag alone. -/
theorem close_entry (on : e.html) : ∃ (i : Nat) (x : PatternTable.Entry),
    (Script.grammar e).patterns.entries[i]? = some x ∧ x.kind = stopScript ∧ x.pattern = scriptClose ∧
      ∀ j y, j < i → (Script.grammar e).patterns.entries[j]? = some y → y.kind = stopServer := by
  rw [entries_eq, if_pos on]
  cases e.server with
  | false =>
    refine ⟨0, ⟨stopScript, scriptClose, none⟩, rfl, rfl, by simp only, ?_⟩
    intro j y less
    omega
  | true =>
    refine ⟨1, ⟨stopScript, scriptClose, none⟩, rfl, rfl, by simp only, ?_⟩
    intro j y less found
    obtain rfl : j = 0 := by omega
    obtain rfl := Option.some.inj found
    rfl

/-- What is found from an offset on begins before a tag, unless it stops the run. -/
theorem start_of_nearest (tag : scriptClose.Stands src at_ behind) (on : e.html) (low : pos ≤ at_) {next : NextMatch}
    (nearest : (Script.grammar e).patterns.Nearest (fun _ => true) src pos next) :
    next.data.start ≤ at_ ∧ (next.kind ≠ stopServer ∧ next.kind ≠ stopScript → next.data.start < at_) := by
  obtain ⟨i, x, entry, isStop, same, before⟩ := close_entry on
  obtain ⟨f, found, start⟩ := tag.found low
  rw [← same] at found
  have least := nearest.least x (List.mem_of_getElem? entry) rfl f found
  refine ⟨by omega, fun goesOn => ?_⟩
  obtain ⟨x', entry', kind', _, _⟩ := nearest.entry
  rcases Nat.lt_trichotomy next.entry i with less | eq | more
  · exact absurd (kind'.symm.trans (before _ _ less entry')) goesOn.1
  · rw [eq, entry] at entry'
    obtain rfl := Option.some.inj entry'
    exact absurd (kind'.symm.trans isStop) goesOn.2
  · have := nearest.earlier i x f more entry rfl found
    omega

theorem Takes.before (h : Takes (Script.grammar e) src pos cut kind m) (tag : scriptClose.Stands src at_ behind) (on : e.html)
    (low : pos ≤ at_) : m.start < at_ ∨ cut = some kind ∧ m.start = pos := by
  cases h with
  | resumed _ occurs here => exact .inr ⟨rfl, occurs.start.trans here⟩
  | found nearest settles goesOn =>
    rw [settles.start_eq]
    exact .inl ((start_of_nearest tag on low nearest).2 goesOn)

/-- A token that is recorded beyond a tag's beginning ends inside the tag, or at the server's tag. -/
theorem Ends.passes {on : Bool} (h : Ends e src kind m on stop y) (html : e.html) (spans : m.Spans src)
    (tag : scriptClose.Stands src at_ behind) (low : m.start ≤ at_) (past : at_ < stop) :
    stop < behind ∨ e.server ∧ src.At e.serverTag stop := by
  have high := (h.bounds spans).2.1
  by_cases within : behind ≤ m.stop
  · obtain ⟨f, found, early⟩ := tag.in_text scriptClose_placeless spans low within
    cases h with
    | whole _ script =>
      rw [script html] at found
      cases found
    | server server text => exact .inr ⟨server, spans.at_ text⟩
    | script _ _ found' =>
      rw [found'] at found
      obtain rfl := Option.some.inj found
      omega
  · exact .inl (by omega)

/-- A step passes a closing tag just by recording a token. -/
theorem Stepped.passes {on : Bool} (h : Stepped (Script.grammar e) e src pos cut on stop y) (html : e.html)
    (tag : scriptClose.Stands src at_ behind) (low : pos ≤ at_) (past : at_ < stop) :
    ∃ kind m, Takes (Script.grammar e) src pos cut kind m ∧ Ends e src kind m on stop y ∧
      (m.start < at_ ∨ cut = some kind ∧ m.start = pos) ∧ (stop < behind ∨ e.server ∧ src.At e.serverTag stop) := by
  cases h with
  | rest _ absent =>
    obtain ⟨_, x, entry, _, same, _⟩ := close_entry html
    obtain ⟨f, found, _⟩ := tag.found low
    rw [← same, absent x (List.mem_of_getElem? entry)] at found
    cases found
  | stop _ nearest =>
    have := (start_of_nearest tag html low nearest).1
    omega
  | nothing => omega
  | @token kind m _ _ _ takes _ ends =>
    have before := takes.before tag html low
    have start_ : m.start ≤ at_ := by
      rcases before with less | ⟨_, eq⟩ <;> omega
    exact ⟨kind, m, takes, ends, before, ends.passes html takes.spans.1 tag start_ past⟩

/-- A run passes a closing tag just within a token that begins before the tag, or was cut where the run begins. The
token is recorded up to a place inside the tag, or up to a server's tag. -/
theorem Runs.passes (h : Runs (Script.grammar e) e src pos cut stop y) (html : e.html) (tag : scriptClose.Stands src at_ behind)
    (low : pos ≤ at_) (past : at_ < stop) :
    ∃ kind m end_, Records (Script.grammar e) e src pos cut kind m end_ ∧
      (m.start < at_ ∨ cut = some kind ∧ m.start = pos) ∧ at_ < end_ ∧
      (end_ < behind ∨ e.server ∧ src.At e.serverTag end_) := by
  induction h with
  | atEnd => omega
  | last _ step =>
    obtain ⟨kind, m, takes, ends, before, place⟩ := step.passes html tag low past
    exact ⟨kind, m, _, .here takes ends, before, past, place⟩
  | @more pos mid stop cut x y before step runs ih =>
    by_cases here : at_ < mid
    · obtain ⟨kind, m, takes, ends, before, place⟩ := step.passes html tag low here
      exact ⟨kind, m, mid, .here takes ends, before, here, place⟩
    · obtain ⟨kind, m, end_, records, begins, beyond, place⟩ := ih (by omega) past
      have known : x.cut = none := by
        cases step with
        | nothing => rfl
        | token takes any ends => rw [(ends.bounds takes.spans.1).2.2 rfl |>.2]
      refine ⟨kind, m, end_, .later step records, ?_, beyond, place⟩
      rw [known] at begins
      rcases begins with less | ⟨no, _⟩
      · exact .inl less
      · cases no

/-- Every call of the scanner ends well, and passes closing tags in no other way. -/
theorem main_passes (server : e.serverTag = "<?") (html : e.html) {x : ScriptScanner}
    (able : Able (Script.grammar e) e src x) :
    Yields ScriptScanner.main x (fun _ x' => ∀ at_ behind, scriptClose.Stands src at_ behind → x.state.pos ≤ at_ →
      at_ < x'.state.pos → ∃ kind m end_, Records (Script.grammar e) e src x.state.pos x.suspension.cut kind m end_ ∧
        (m.start < at_ ∨ x.suspension.cut = some kind ∧ m.start = x.state.pos) ∧ at_ < end_ ∧
        (end_ < behind ∨ e.server ∧ src.At e.serverTag end_)) (fun _ _ => False) := by
  obtain ⟨grammar, rfl, sane, known⟩ := able
  have recorded := sane.recorded Token.isRaw_raw
  refine yields_zoom.mpr ?_
  rw [grammar]
  refine yields_run (suits _ server) recorded known ?_
  intro s' y runs _ _ at_ behind tag low past
  exact runs.passes html tag low past

end Gloss.Language.Script
