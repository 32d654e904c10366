import Gloss.Proofs.Filter.Lines
import Gloss.Proofs.Scan.Nesting

/-!
What giving up regions records. Each open region, from the innermost outwards, takes its share of the source that is
left and is closed behind it; what no region took is recorded without a kind. The shares follow each other without a
gap, so together they are the source from the cursor to its end.
-/
namespace Gloss

open Text (Spot Source)

/-- The kind under which a region that is given up records its share. -/
def Region.shown (g : Grammar) (r : Region) : Option Kind := r.extra <|> g.displayKind r.name

/-- The share of a region that is given up at an offset, and where it leaves the rest of the source: the match of its
recovery pattern there, nothing if the pattern does not match there, and all that is left if it has no such pattern. -/
inductive Share (g : Grammar) (src : Source) (r : Region) (pos : Nat) : String → Nat → Prop where
  | recovered {p : Pattern} {m : Match} (known : g.recovery.get? r.name = some p)
      (found : p.findFrom? src pos = some m) (here : m.start = pos) : Share g src r pos (m.text src) m.stop
  | missed {p : Pattern} (known : g.recovery.get? r.name = some p) (absent : ¬ p.StartsAt src pos) :
      Share g src r pos "" pos
  | whole (unknown : g.recovery.get? r.name = none) : Share g src r pos (src.slice pos src.size) src.size

/-- The shares of regions, innermost first, from an offset on: a token for each, and where the last one leaves off. -/
inductive Shares (g : Grammar) (src : Source) : List Region → Nat → List Token → Nat → Prop where
  | done {pos : Nat} : Shares g src [] pos [] pos
  | next {r : Region} {outer : List Region} {pos mid stop : Nat} {text : String} {ts : List Token}
      (share : Share g src r pos text mid) (rest : Shares g src outer mid ts stop) :
      Shares g src (r :: outer) pos (.raw (r.shown g) text :: ts) stop

/-- What no region took: the source from an offset on, without a kind. -/
def leftover (src : Source) (stop : Nat) : Token := .raw none (src.slice stop src.size)

section Offsets

variable {g : Grammar} {src : Source} {r : Region} {regions : List Region} {pos mid stop : Nat} {text : String}
  {ts : List Token}

/-- A share is the stretch of the source that it leaves behind. -/
theorem Share.stretch (h : Share g src r pos text mid) (here : src.isBoundary pos) :
    src.isBoundary mid ∧ pos ≤ mid ∧ text.toList = src.between pos mid := by
  cases h with
  | @recovered p m _ found at_ =>
    obtain ⟨a, b, marks, occurs, _⟩ := Pattern.findFrom?_some found
    have spans := occurs.spans
    subst at_
    exact ⟨spans.stop, spans.le, spans.text_eq⟩
  | missed => exact ⟨here, Nat.le_refl _, by rw [Source.between_self here]; rfl⟩
  | whole => exact ⟨src.isBoundary_size, Source.isBoundary_le here, rfl⟩

/-- The shares are the source between where they begin and where they leave off. -/
theorem Shares.stretch (h : Shares g src regions pos ts stop) (here : src.isBoundary pos) :
    src.isBoundary stop ∧ pos ≤ stop ∧ spelling ts = src.between pos stop := by
  induction h with
  | done => exact ⟨here, Nat.le_refl _, (Source.between_self here).symm⟩
  | @next r outer pos mid stop text ts share _ ih =>
    obtain ⟨there, le, text_eq⟩ := share.stretch here
    obtain ⟨last, le', spelled⟩ := ih there
    refine ⟨last, Nat.le_trans le le', ?_⟩
    calc spelling (.raw (r.shown g) text :: ts)
        = text.toList ++ spelling ts := by simp [spelling, Token.raw]
      _ = src.between pos mid ++ src.between mid stop := by rw [text_eq, spelled]
      _ = src.between pos stop := Source.between_append here there last le le'

end Offsets

namespace ScanState

/-- The state in which a token is recorded in each open region, and the region closed behind it. -/
def givenUp (s : ScanState) (ts : List Token) : ScanState := ts.foldl (fun s t => (s.record t).closed) s

variable {s : ScanState} {ts : List Token}

theorem givenUp_withCursor {c : Cursor} :
    ({ s with cursor := c } : ScanState).givenUp ts = { s.givenUp ts with cursor := c } := by
  induction ts generalizing s with
  | nil => rfl
  | cons t ts ih =>
    have first : (({ s with cursor := c } : ScanState).record t).closed = { (s.record t).closed with cursor := c } := by
      rw [record_withCursor]
      rfl
    simp only [givenUp, List.foldl_cons] at ih ⊢
    rw [first, ih]

theorem givenUp_regions : (s.givenUp ts).regions = s.regions.drop ts.length := by
  induction ts generalizing s with
  | nil => rfl
  | cons t ts ih =>
    show ((s.record t).closed.givenUp ts).regions = _
    rw [ih, closed_regions, record_regions, List.length_cons, List.drop_tail]

/-- In a stream the tokens come one behind the other. -/
theorem givenUp_flat (ts : List Token) (flat : s.outline = none) : (s.givenUp ts).outline = none ∧
    (s.givenUp ts).tokens.toList = s.tokens.toList ++ ts.filter (!·.text.isEmpty) := by
  induction ts generalizing s with
  | nil => exact ⟨flat, (List.append_nil _).symm⟩
  | cons t ts ih =>
    have still : (s.record t).closed.outline = none := by simp [flat]
    have tokens : (s.record t).closed.tokens = s.tokens.push t := by
      show (s.record t).tokens = _
      rw [record_of_flat flat]
    obtain ⟨none_, all⟩ := ih still
    refine ⟨none_, all.trans ?_⟩
    rw [tokens, TokenStream.toList_push, List.filter_cons]
    cases t.text.isEmpty <;> simp

/-- In a tree each token is recorded in the innermost node, which is closed then. -/
theorem givenUp_tree (ts : List Token) {o : Outline} (tree : s.outline = some o) : (s.givenUp ts).tokens = s.tokens ∧
    (s.givenUp ts).outline = some (ts.foldl (fun o t => (o.record t).closeNode) o) := by
  induction ts generalizing s o with
  | nil => exact ⟨rfl, tree⟩
  | cons t ts ih =>
    have nodes : (s.record t).closed.outline = some (o.record t).closeNode := by simp [tree]
    have tokens : (s.record t).closed.tokens = s.tokens := by
      show (s.record t).tokens = _
      simp only [record, tree]
    obtain ⟨same, all⟩ := ih nodes
    exact ⟨same.trans tokens, all⟩

end ScanState

section Unwinding

variable {g : Grammar} {src : Source} {s : ScanState} {fail : ScanError → ScanState → Prop}
  {post : Unit → ScanState → Prop}

/-- A region that is given up records its share and is closed. -/
theorem yields_unwindOne (sound : s.cursor.Sound src) {r : Region} {outer : List Region} (open_ : s.regions = r :: outer)
    (next : ∀ text mid (c : Cursor), Share g src r s.pos text mid → c.Sound src → c.pos = mid →
      post () { (s.record (.raw (r.shown g) text)).closed with cursor := c }) :
    Yields (Scan.unwindOne g r) s post fail := by
  -- Whatever the share is, the region is closed behind it.
  have close : ∀ text mid (c : Cursor), Share g src r s.pos text mid → c.Sound src → c.pos = mid →
      Yields (do let _ ← Scan.popRegion; pure ()) { s.record (.raw (r.shown g) text) with cursor := c } post fail := by
    intro text mid c share sound' there
    refine yields_bind.mpr (Nested.yields_popRegion (show _ = r :: outer from ?_) ?_)
    · simpa using open_
    · exact next text mid c share sound' there
  simp only [Scan.unwindOne]
  cases known : g.recovery.get? r.name with
  | none =>
    refine yields_bind.mpr (Nested.yields_rest sound ?_)
    exact fun c sound' ended => close _ _ c (.whole known) sound' ended
  | some p =>
    refine yields_bind.mpr (yields_scanFirst sound p ?_ ?_)
    · intro c sound' here absent
      have missed : ¬ p.StartsAt src s.pos := fun ⟨u, inside, at_, starts⟩ => absent u inside at_ starts
      have share := close "" s.pos c (.missed known missed) sound' here
      rw [ScanState.record_empty] at share
      exact share
    · intro m c a b marks sound' behind occurs here found
      have share := close _ _ c (.recovered known found (occurs.start.trans here)) sound' behind
      refine yields_bind.mpr (yields_bind.mpr (yields_ofCursor.mpr (yields_modify.mpr ?_)))
      rw [sound'.source, ScanState.record_withCursor]
      exact share

theorem yields_unwindEach (sound : s.cursor.Sound src)
    (next : ∀ ts stop (c : Cursor), Shares g src s.regions s.pos ts stop → c.Sound src → c.pos = stop →
      post () { s.givenUp ts with cursor := c }) :
    Yields (Scan.unwindEach g s.regions) s post fail := by
  generalize open_ : s.regions = regions at next
  induction regions generalizing s with
  | nil => exact next [] s.pos s.cursor .done sound rfl
  | cons r outer ih =>
    simp only [Scan.unwindEach]
    refine yields_bind.mpr (yields_unwindOne sound open_ ?_)
    rintro text mid c share sound' rfl
    have inner : (s.record (.raw (r.shown g) text)).closed.regions = outer := by simp [open_]
    refine ih sound' inner ?_
    intro ts stop d shares sound'' there
    have all := next (.raw (r.shown g) text :: ts) stop d (.next share shares) sound'' there
    rw [ScanState.givenUp_withCursor]
    exact all

theorem Shares.length_eq {regions : List Region} {pos stop : Nat} {ts : List Token}
    (h : Shares g src regions pos ts stop) : ts.length = regions.length := by
  induction h with
  | done => rfl
  | next _ _ ih => rw [List.length_cons, List.length_cons, ih]

theorem yields_unwind (sound : s.cursor.Sound src)
    (next : ∀ ts stop (c : Cursor), Shares g src s.regions s.pos ts stop → c.Sound src → c.pos = src.size →
      post () { (s.givenUp ts).record (leftover src stop) with cursor := c }) :
    Yields (Scan.unwind g) s post fail := by
  simp only [Scan.unwind]
  refine yields_bind.mpr (yields_get.mpr (yields_bind.mpr (yields_unwindEach sound ?_)))
  rintro ts stop c shares sound' rfl
  refine Nested.yields_rest sound' ?_
  intro d sound'' ended
  have last := next ts _ d shares sound'' ended
  rw [ScanState.record_withCursor]
  exact last

end Unwinding

/-- One state comes from another by giving up all regions: `ts` are their shares, and behind `stop` no region took
anything. -/
structure Unwound (g : Grammar) (src : Source) (s s' : ScanState) (ts : List Token) (stop : Nat) : Prop where
  shares : Shares g src s.regions s.pos ts stop
  whole : spelling (ts ++ [leftover src stop]) = src.between s.pos src.size
  depth : s'.depth = 0
  sound : s'.cursor.Sound src
  ended : s'.pos = src.size
  stream : s.outline = none → s'.outline = none ∧ s'.tokens.toList = s.tokens.toList ++
    (ts ++ [leftover src stop]).filter (!·.text.isEmpty)
  tree : ∀ o, s.outline = some o → s'.tokens = s.tokens ∧ s'.outline = some
    ((ts.foldl (fun o t => (o.record t).closeNode) o).record (leftover src stop))

/-- Giving up regions never fails, whatever is open and wherever the cursor stands. No region is open then, the cursor is
at the end, and the source from the old position on is recorded in order: the share of each region under the kind that it
is shown under, and what is left without a kind. -/
theorem unwind_records_shares (g : Grammar) {src : Source} {s : ScanState} (sound : s.cursor.Sound src) :
    ∃ s' ts stop, Scan.unwind g s = .ok () s' ∧ Unwound g src s s' ts stop := by
  have run : Yields (Scan.unwind g) s (fun _ s' => ∃ ts stop, Unwound g src s s' ts stop) fun _ _ => False := by
    refine yields_unwind sound ?_
    intro ts stop c shares sound' ended
    obtain ⟨last, le, spelled⟩ := shares.stretch sound.here
    refine ⟨ts, stop, ⟨shares, ?_, ?_, sound', ended, fun flat => ?_, fun o tree => ?_⟩⟩
    · have rest : spelling [leftover src stop] = src.between stop src.size := by
        simp [spelling, leftover, Token.raw, Source.between]
      rw [spelling_append, spelled, rest]
      exact Source.between_append sound.here last src.isBoundary_size le (Source.isBoundary_le last)
    · show ((s.givenUp ts).record _).regions.length = 0
      rw [ScanState.record_regions, ScanState.givenUp_regions, shares.length_eq, List.drop_length, List.length_nil]
    · obtain ⟨still, tokens⟩ := ScanState.givenUp_flat ts flat
      rw [List.filter_append, ← List.append_assoc, ← tokens, ScanState.record_of_flat still, List.filter_cons,
        List.filter_nil]
      refine ⟨still, (TokenStream.toList_push _ _).trans ?_⟩
      cases (leftover src stop).text.isEmpty <;> rfl
    · obtain ⟨tokens, nodes⟩ := ScanState.givenUp_tree ts tree
      simp only [ScanState.record, nodes]
      exact ⟨tokens, trivial⟩
  obtain ⟨_, s', ran, ts, stop, unwound⟩ := run.succeeds
  exact ⟨s', ts, stop, ran, unwound⟩

/-- Words can be taken up again, which other regions cannot. -/
def recoversWords : Grammar := (Grammar.bare "test").recover ⟨"WORD"⟩ (.ofText "\\w+")

/-- A word in a note in a word, somewhere in a text. -/
def openWords : ScanState :=
  { cursor := (Cursor.ofSource (.ofString "an old word")).setPos 3
    regions := [⟨⟨"WORD"⟩, 3, "", none, false, some .value⟩, ⟨⟨"NOTE"⟩, 2, "", none, false, none⟩,
      ⟨⟨"WORD"⟩, 0, "", none, false, none⟩] }

theorem unwind_records_shares_openWords : openWords.cursor.Sound (.ofString "an old word") ∧ ∃ s' ts stop,
    Scan.unwind recoversWords openWords = .ok () s' ∧
    Unwound recoversWords (.ofString "an old word") openWords s' ts stop :=
  have sound := ((Cursor.sound_ofSource (.ofString "an old word")).setFloor 3).1
  ⟨sound, unwind_records_shares recoversWords sound⟩

/-- The inner word takes a word, the note all that is left, and nothing is there for the word around. -/
example : (match Scan.unwind recoversWords openWords with
    | .ok _ s => s.tokens.toList.map fun t => (t.kind.map (·.name), t.text)
    | .error _ _ => []) = [(some Kind.value.name, "old"), (some "NOTE", " word")] := by
  decide +kernel

end Gloss
