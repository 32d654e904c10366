import Gloss.Proofs.Filter.Lines
import Gloss.Proofs.Language.Backus
import Gloss.Proofs.Scan.InStep
import Gloss.Scan.Any

/-!
What a host gets from a child. The host records what the child has rendered as one token and goes on where the child
stopped; all other children, and the host if the child fails, are as they were. A child keeps what it records until it is
rendered, so what it recorded in a run that failed is spliced with what the next run records: the markup shows the
segment of that run alone only if nothing was recorded before. This is asked of a child: that it delivers the source from
where it begins to where it stops, as all do that cover it.
-/
namespace Gloss

open Text (Source)

theorem Text.Source.cut?_some {src : Source} {start stop : Nat} {w : String} (h : src.cut? start stop = some w) :
    start ≤ stop ∧ src.isBoundary stop := by
  simp only [cut?] at h
  split at h
  · cases h
  · split at h
    · next inside =>
      exact (Bool.and_eq_true_iff.mp inside).imp (fun le => of_decide_eq_true le) id
    · cases h

theorem Text.Source.cut?_of_isBoundary {src : Source} {start stop : Nat} (first : src.isBoundary start)
    (last : src.isBoundary stop) (le : start ≤ stop) : src.cut? start stop = some (String.ofList (src.between start stop)) := by
  obtain ⟨a, inside, rfl⟩ := Source.isBoundary_iff.mp first
  obtain ⟨b, inside', rfl⟩ := Source.isBoundary_iff.mp last
  obtain ⟨w, reads⟩ := inside.between inside' le
  rw [Source.cut?_reads inside reads, Source.between_reads inside reads]

namespace ScanState

/-- There is nothing to render: no token, or no node of the tree. -/
def Drained (s : ScanState) : Prop :=
  match s.outline with
  | none => s.tokens.latest = []
  | some o => o.finish = []

/-- Markup is recorded as one token, or as one node of the tree, unless it is empty, and the cursor is elsewhere. -/
structure Spliced (wrap : Option Kind) (out : String) (stop : Nat) (s s' : ScanState) : Prop where
  pos : s'.pos = stop
  source : s'.source = s.source
  stream : s.outline = none → s'.outline = none ∧
    s'.tokens.toList = s.tokens.toList ++ if out.isEmpty then [] else [.markup wrap out]
  tree : ∀ o, s.outline = some o → s'.tokens = s.tokens ∧
    s'.outline = some (if out.isEmpty then o else o.add (Outline.nodeOf (.markup wrap out)))
  regions : s'.regions = s.regions
  userDefs : s'.userDefs = s.userDefs

theorem spliced_record {s : ScanState} {stop : Nat} (boundary : s.source.isBoundary stop) (wrap : Option Kind)
    (out : String) : s.Spliced wrap out stop ((s.record (.markup wrap out)).setPos stop) := by
  refine ⟨?_, by simp [setPos, source, Cursor.setPos], ?_, ?_, by simp [setPos], by simp [setPos]⟩
  · have here : s.source.floor stop = stop := Source.floor_of_isBoundary boundary
    simpa [setPos, pos, source, Cursor.setPos] using here
  · intro flat
    rw [record_of_flat flat]
    exact ⟨flat, TokenStream.toList_push _ _⟩
  · intro o tree
    have recorded : s.record (.markup wrap out) = { s with outline := some (o.record (.markup wrap out)) } := by
      simp only [record, tree]
    rw [recorded, Outline.record_eq]
    exact ⟨rfl, rfl⟩

end ScanState

theorem Grammar.drained_tagged (g : Grammar) (s : ScanState) : (g.tagged s).2.Drained := by
  simp only [tagged]
  cases tree : s.outline with
  | none =>
    simp only [ScanState.Drained]
  | some o => rfl

namespace Scanner

variable {σ : Type} [Scanner σ] {src : Source} {x y : σ} {out : String}

/-- Behind all that was recorded in `x`, what was recorded on the way to `y` renders to the markup by itself. -/
inductive Appends (x y : σ) : String → Prop where
  | tokens {added : List Token} (flat : (state x).outline = none) (flat' : (state y).outline = none)
      (appended : (state y).tokens.toList = (state x).tokens.toList ++ added) :
      Appends x y ((grammar y).renderTokens ((grammar y).context (state y)) added)
  | nodes {o o' : Outline} {added : List Node} (tree : (state x).outline = some o)
      (tree' : (state y).outline = some o') (appended : o'.finish = o.finish ++ added) :
      Appends x y (Node.renderAll ((grammar y).wrapNode ((grammar y).context (state y))) added)

/-- The main loop fails, or what it appends renders to markup that shows the source from an offset on to the boundary
where it stops. -/
structure Delivers (src : Source) (start : Nat) (x : σ) : Prop where
  main : Yields main x (fun _ y => ∃ out, Appends x y out ∧ src.cut? start (pos y) = some (Markup.strip out))
    fun _ _ => True

/-- Behind nothing, rendering gives just what was appended. -/
theorem Appends.tagged_eq (h : Appends x y out) (drained : (state x).Drained) : (tagged y).1 = out := by
  cases h with
  | tokens flat flat' appended =>
    have nothing : (state x).tokens.toList = [] := by
      simp only [ScanState.Drained, flat] at drained
      rw [TokenStream.toList, drained, List.reverse_nil]
    rw [nothing, List.nil_append] at appended
    simp only [Scanner.tagged, Grammar.tagged, flat', appended]
  | nodes tree tree' appended =>
    simp only [ScanState.Drained, tree] at drained
    rw [drained, List.nil_append] at appended
    simp only [Scanner.tagged, Grammar.tagged, tree', Outline.collapse_eq, appended]

/-- A scanner that covers the source delivers it from wherever it is. -/
theorem Covers.delivers {Able : σ → Prop} {Allowed : Token → Prop} {Ends : σ → Nat → Bool → Prop}
    {Fails : σ → ScanError → Prop} (covers : Covers src Able Allowed Ends Fails) (able : Able x) :
    Delivers src (pos x) x := by
  refine ⟨(covers.main able).mono ?_ fun _ _ _ => trivial⟩
  rintro _ y ⟨ableY, recorded, _⟩
  obtain ⟨added, latest, spells⟩ := recorded.spells
  have appended : (state y).tokens.toList = (state x).tokens.toList ++ added.reverse := by
    rw [TokenStream.toList, latest, List.reverse_append]
    rfl
  refine ⟨_, .tokens (covers.sane able).flat recorded.flat appended, ?_⟩
  have shows := (covers.renders ableY).renderTokens (spells.mono (covers.allows ableY))
  rw [Markup.strip, shows.stripChars, Markup.unescapeChars_escapeChars]
  exact Source.cut?_of_isBoundary recorded.first recorded.last recorded.le

/-- Runs a scanner that records a stream, and looks whether it delivers. -/
def deliversTokens (src : Source) (start : Nat) (x : σ) : Bool :=
  (state x).outline.isNone &&
    match main x with
    | .error _ _ => true
    | .ok _ y =>
      let before := (state x).tokens.toList
      let added := (state y).tokens.toList.drop before.length
      (state y).outline.isNone && (state y).tokens.toList == before ++ added &&
        src.cut? start (pos y) == some (Markup.strip ((grammar y).renderTokens ((grammar y).context (state y)) added))

theorem delivers_of_tokens {start : Nat} (looked : deliversTokens src start x) : Delivers src start x := by
  simp only [deliversTokens, Bool.and_eq_true, Option.isNone_iff_eq_none] at looked
  obtain ⟨flat, looked⟩ := looked
  refine ⟨?_⟩
  simp only [Yields]
  split
  · next ran =>
    simp only [ran, Bool.and_eq_true, Option.isNone_iff_eq_none, beq_iff_eq] at looked
    obtain ⟨⟨flat', appended⟩, shown⟩ := looked
    exact ⟨_, .tokens flat flat' appended, shown⟩
  · exact trivial

section Lawful

variable [LawfulScanner σ]

theorem drained_tagged (y : σ) : (state (tagged y).2).Drained := by
  simp only [tagged, LawfulScanner.state_withState]
  exact (grammar y).drained_tagged (state y)

theorem pos_tagged (y : σ) : pos (tagged y).2 = pos y := by
  simp only [tagged, pos, LawfulScanner.state_withState, Grammar.tagged]
  split <;> rfl

theorem interrupted_tagged (y : σ) : interrupted (tagged y).2 = interrupted y :=
  LawfulScanner.interrupted_withState y _

theorem drained_setPos (drained : (state x).Drained) (target : Nat) : (state (setPos x target)).Drained := by
  rw [setPos, LawfulScanner.state_withState]
  exact drained

end Lawful

end Scanner

instance : LawfulScanner AnyScanner where
  state_withState x s := by
    cases x with
    | backus x => exact LawfulScanner.state_withState x s
    | _ => rfl
  grammar_withState x s := by
    cases x with
    | backus x => exact LawfulScanner.grammar_withState x s
    | _ => rfl
  interrupted_withState x s := by cases x <;> rfl

namespace Children

variable {σ : Type} {cs : Children σ} {name other : String} {c d : Child σ}

theorem get?_put_self (known : cs.get? name = some d) : (cs.put name c).get? name = some c := by
  induction cs with
  | nil => cases known
  | cons e cs ih =>
    obtain ⟨n, e⟩ := e
    by_cases same : n = name
    · simp [get?, put, same]
    · simp only [get?, put, List.map_cons, beq_eq_false_iff_ne.mpr same, Bool.false_eq_true, if_false,
        List.find?_cons_of_neg, not_false_eq_true] at known ⊢
      exact ih known

theorem get?_put_of_ne (differs : other ≠ name) : (cs.put name c).get? other = cs.get? other := by
  induction cs with
  | nil => rfl
  | cons e cs ih =>
    obtain ⟨n, e⟩ := e
    simp only [get?, put, List.map_cons, List.find?_cons] at ih ⊢
    by_cases same : n = name
    · subst same
      simp only [beq_self_eq_true, if_true, beq_eq_false_iff_ne.mpr differs.symm]
      exact ih
    · simp only [beq_eq_false_iff_ne.mpr same, Bool.false_eq_true, if_false]
      cases n == other
      · exact ih
      · rfl

theorem names_put : (cs.put name c).map (·.1) = cs.map (·.1) := by
  rw [put, List.map_map]
  refine List.map_congr_left fun e _ => ?_
  simp only [Function.comp_apply]
  split <;> rfl

section

variable [Scanner σ] {src : Source} {wrap : Option Kind} {host : ScanState}

/-- What handing over to a child leads to. All that the child has recorded is rendered as one token of the host, which
goes on where the child stopped; if nothing was recorded in the child before, the token shows the source between. The
child is drained, and marked with the place if it was interrupted. All else is as it was. -/
structure HandedOver (src : Source) (name : String) (wrap : Option Kind) (host : ScanState) (cs : Children σ)
    (stopped : Bool) (host' : ScanState) (cs' : Children σ) : Prop where
  child : ∃ c y, cs.get? name = some c ∧ Scanner.main (Scanner.setPos c.scanner host.pos) = .ok () y ∧
    stopped = Scanner.interrupted y ∧ host.pos ≤ Scanner.pos y ∧
    host.Spliced wrap (Scanner.tagged y).1 (Scanner.pos y) host' ∧
    ((Scanner.state c.scanner).Drained →
      src.cut? host.pos (Scanner.pos y) = some (Markup.strip (Scanner.tagged y).1)) ∧
    cs'.get? name = some ⟨(Scanner.tagged y).2, if stopped then some (Scanner.pos y) else none⟩
  /-- The child is ready for the next time. -/
  ready : ∀ c', cs'.get? name = some c' → (Scanner.state c'.scanner).Drained ∧
    Scanner.pos c'.scanner = host'.pos ∧ Scanner.interrupted c'.scanner = stopped
  others : ∀ other, other ≠ name → cs'.get? other = cs.get? other
  names : cs'.map (·.1) = cs.map (·.1)

/-- What is left when nothing could be handed over: there is no such child, or its main loop fails. The host and all
marks are as they were. -/
structure Kept (name : String) (host : ScanState) (cs : Children σ) (e : ScanError) (host' : ScanState)
    (cs' : Children σ) : Prop where
  reason : cs.get? name = none ∧ e = .unknownChild name ∨
    ∃ c y, cs.get? name = some c ∧ Scanner.main (Scanner.setPos c.scanner host.pos) = .error e y
  host : host' = host
  marks : ∀ other, (cs'.get? other).map (·.resumeAt) = (cs.get? other).map (·.resumeAt)
  others : ∀ other, other ≠ name → cs'.get? other = cs.get? other
  names : cs'.map (·.1) = cs.map (·.1)

theorem yields_delegateTo [LawfulScanner σ] (wrap : Option Kind) (source : host.source = src)
    (delivers : ∀ c, cs.get? name = some c → Scanner.Delivers src host.pos (Scanner.setPos c.scanner host.pos)) :
    Yields (delegateTo name wrap) (host, cs)
      (fun stopped after => HandedOver src name wrap host cs stopped after.1 after.2)
      (fun e after => Kept name host cs e after.1 after.2) := by
  simp only [Yields, delegateTo]
  cases known : cs.get? name with
  | none => exact ⟨.inl ⟨known, rfl⟩, rfl, fun _ => rfl, fun _ _ => rfl, rfl⟩
  | some c =>
    have runs := (delivers c known).main
    simp only [Yields] at runs
    simp only [delegate]
    cases ran : Scanner.main (Scanner.setPos c.scanner host.pos) with
    | error e y =>
      refine ⟨.inr ⟨c, y, known, ran⟩, rfl, ?_, fun _ differs => get?_put_of_ne differs, names_put⟩
      intro other
      by_cases same : other = name
      · subst same
        rw [get?_put_self known, known]
        rfl
      · rw [get?_put_of_ne same]
    | ok _ y =>
      simp only [ran] at runs
      obtain ⟨out, appends, shown⟩ := runs
      obtain ⟨le, boundary⟩ := Source.cut?_some shown
      have spliced : host.Spliced wrap (Scanner.tagged y).1 (Scanner.pos y) _ :=
        ScanState.spliced_record (by rw [source]; exact boundary) wrap _
      simp only [Scanner.pos_tagged, Scanner.interrupted_tagged, Nat.max_eq_left le]
      refine ⟨⟨c, y, known, ran, rfl, le, spliced, ?_, get?_put_self known⟩, ?_,
        fun _ differs => get?_put_of_ne differs, names_put⟩
      · intro drained
        rw [appends.tagged_eq (Scanner.drained_setPos drained host.pos)]
        exact shown
      · intro c' known'
        rw [get?_put_self known] at known'
        cases known'
        exact ⟨Scanner.drained_tagged y, (Scanner.pos_tagged y).trans spliced.pos.symm, Scanner.interrupted_tagged y⟩

/-- A child that delivers the source from the host's position on is spliced. If handing over fails, the host and all
marks are as they were. -/
theorem delegateTo_splices [LawfulScanner σ] (wrap : Option Kind) (source : host.source = src)
    (delivers : ∀ c, cs.get? name = some c → Scanner.Delivers src host.pos (Scanner.setPos c.scanner host.pos)) :
    (∀ stopped host' cs', delegateTo name wrap (host, cs) = .ok stopped (host', cs') →
      HandedOver src name wrap host cs stopped host' cs') ∧
    ∀ e host' cs', delegateTo name wrap (host, cs) = .error e (host', cs') → Kept name host cs e host' cs' := by
  have outcome := yields_delegateTo wrap source delivers
  simp only [Yields] at outcome
  constructor
  · intro stopped host' cs' ran
    rw [ran] at outcome
    exact outcome
  · intro e host' cs' ran
    rw [ran] at outcome
    exact outcome

end

/-- A child that reads two kinds of words, one of which may be empty. -/
def words : AnyScanner :=
  .flat { grammar := Grammar.bare "words" |>.token .keyword (.ofText "a") |>.token .ident (.ofText "b*") }

/-- The source, in which it fails at the second character, and its host. -/
def wordsSource : Source := .ofString "acaa"

def wordsHost (pos : Nat) : ScanState := { cursor := { source := wordsSource, pos } }

def wordsAlone : Children := setSource (add [] "words" words) wordsSource

/-- Behind the place where it fails the child delivers. -/
theorem delegateTo_words :
    (wordsHost 2).source = wordsSource ∧
    (∀ c, wordsAlone.get? "words" = some c → Scanner.Delivers wordsSource 2 (Scanner.setPos c.scanner 2)) ∧
    ∃ stopped host cs, delegateTo "words" none (wordsHost 2, wordsAlone) = .ok stopped (host, cs) ∧
      HandedOver wordsSource "words" none (wordsHost 2) wordsAlone stopped host cs := by
  have delivers : ∀ c, wordsAlone.get? "words" = some c →
      Scanner.Delivers wordsSource 2 (Scanner.setPos c.scanner 2) := by
    intro c known
    have only : wordsAlone.get? "words" = some ⟨Scanner.setSource words wordsSource, none⟩ := rfl
    obtain rfl : _ = c := Option.some.inj (only.symm.trans known)
    exact Scanner.delivers_of_tokens (by decide +kernel)
  have ends : (match delegateTo "words" none (wordsHost 2, wordsAlone) with
      | .ok _ _ => true
      | .error _ _ => false) = true := by decide +kernel
  refine ⟨rfl, delivers, ?_⟩
  split at ends
  · next stopped after ran => exact ⟨stopped, _, _, ran, (delegateTo_splices none rfl delivers).1 _ _ _ ran⟩
  · cases ends

/-- A child keeps what it recorded before it failed. Its next run delivers by itself, but the host gets both. -/
theorem delegateTo_words_left :
    ∃ host cs, delegateTo "words" none (wordsHost 0, wordsAlone) = .error (.noProgress "words" 1) (host, cs) ∧
      (∀ c, cs.get? "words" = some c → Scanner.Delivers wordsSource 2 (Scanner.setPos c.scanner 2)) ∧
      ∃ stopped host' cs', delegateTo "words" none (wordsHost 2, cs) = .ok stopped (host', cs') ∧
        wordsSource.cut? 2 host'.pos = some "aa" ∧
        host'.tokens.toList.map (fun t => (t.kind, t.escaped, Markup.strip t.text)) = [(none, true, "aaa")] := by
  have fails : (match delegateTo "words" none (wordsHost 0, wordsAlone) with
      | .ok _ _ => false
      | .error e (_, cs) => e == .noProgress "words" 1 &&
        (cs.get? "words").all (fun c => Scanner.deliversTokens wordsSource 2 (Scanner.setPos c.scanner 2)) &&
        match delegateTo "words" none (wordsHost 2, cs) with
        | .ok _ (host', _) => wordsSource.cut? 2 host'.pos == some "aa" &&
          host'.tokens.toList.map (fun t => (t.kind, t.escaped, Markup.strip t.text)) == [(none, true, "aaa")]
        | .error _ _ => false) = true := by decide +kernel
  split at fails
  · cases fails
  · next e host cs ran =>
    simp only [Bool.and_eq_true, beq_iff_eq, Option.all_eq_true] at fails
    obtain ⟨⟨rfl, delivers⟩, ends⟩ := fails
    refine ⟨host, cs, ran, fun c known => Scanner.delivers_of_tokens (delivers c known), ?_⟩
    split at ends
    · next stopped host' cs' ran' =>
      simp only [Bool.and_eq_true, beq_iff_eq] at ends
      exact ⟨stopped, host', cs', ran', ends⟩
    · cases ends

end Children

end Gloss
