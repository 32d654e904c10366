import Gloss.Proofs.Scan.Steady
import Gloss.Registry

/-!
Scanners that are used again. What may be called on a scanner changes its state, but not what the scanner was made of;
and a new source leaves nothing else. So after any calls, whether they failed or not, a text is highlighted as on the
scanner before the first call.
-/
namespace Gloss

open Text (Source)

/-- The state that an operation leaves, also one that failed. -/
def leftBy {ε σ α : Type} : EStateM.Result ε σ α → σ
  | .ok _ s => s
  | .error _ s => s

/-- What an operation gives: its result, or the error with which it failed. -/
def givenBy {ε σ α : Type} : EStateM.Result ε σ α → Except ε α
  | .ok a _ => .ok a
  | .error e _ => .error e

theorem Preserves.leftBy {ε σ τ α : Type} {view : σ → τ} {m : EStateM ε σ α} (h : Preserves view m) (s : σ) :
    view (Gloss.leftBy (m s)) = view s := by
  have same := h s
  simp only [Yields] at same
  cases ran : m s <;> simp_all [Gloss.leftBy]

/-- What may be called on a scanner. -/
inductive Call where
  | setSource (text : String)
  | setPos (pos : Nat)
  | main
  | tagged
  | highlight (text : String)

namespace Scanner

variable {σ : Type} [Scanner σ]

/-- A scanner after a call. -/
def after (x : σ) : Call → σ
  | .setSource text => setSource x (.ofString text)
  | .setPos pos => setPos x pos
  | .main => leftBy (main x)
  | .tagged => (tagged x).2
  | .highlight text => leftBy (highlight text x)

/-- What each operation of a scanner keeps is kept by every call, also by one that fails. -/
theorem keeps_after {P : σ → Prop} (source : ∀ x src, P x → P (setSource x src)) (moved : ∀ x pos, P x → P (setPos x pos))
    (rendered : ∀ x, P x → P (tagged x).2) (ran : ∀ x, P x → P (leftBy (main x))) {x : σ} (h : P x) (call : Call) :
    P (after x call) := by
  cases call with
  | setSource text => exact source x _ h
  | setPos pos => exact moved x pos h
  | main => exact ran x h
  | tagged => exact rendered x h
  | highlight text =>
    have scanned := ran _ (source x (.ofString text) h)
    simp only [after, highlight_run, bind, EStateM.bind]
    generalize Scanner.main (Scanner.setSource x (.ofString text)) = outcome at scanned
    cases outcome with
    | ok a y => exact rendered y scanned
    | error e y => exact scanned

/-- A scanner with an empty source. -/
def emptied (x : σ) : σ := setSource x (.ofString "")

/-- What a scanner is made of. It is left by all that may be done with an able scanner, it says whether the scanner is able,
and it decides what comes of another source. -/
structure Renews (made : σ → σ) (Able : σ → Prop) : Prop where
  able : ∀ x y : σ, made x = made y → Able y → Able x
  setSource : ∀ (x : σ) (source : Source), made (setSource x source) = made x
  withState : ∀ (x : σ) (s : ScanState), s.isTree = (state x).isTree → made (withState x s) = made x
  main : ∀ x : σ, Able x → made (leftBy (main x)) = made x
  anew : ∀ (x y : σ) (text : String), made x = made y → givenBy (highlight text x) = givenBy (highlight text y)

variable {made : σ → σ} {Able : σ → Prop}

namespace Renews

theorem tagged (h : Renews made Able) (x : σ) : made (Scanner.tagged x).2 = made x :=
  h.withState x _ (Grammar.isTree_tagged _ _)

theorem highlight (h : Renews made Able) {x : σ} (able : Able x) (text : String) :
    made (leftBy (Scanner.highlight text x)) = made x := by
  have begun := h.setSource x (.ofString text)
  have scanned := h.main _ (h.able _ _ begun able)
  simp only [Scanner.highlight_run, bind, EStateM.bind]
  generalize Scanner.main (Scanner.setSource x (.ofString text)) = ran at scanned
  cases ran with
  | ok a y => exact (h.tagged y).trans (scanned.trans begun)
  | error e y => exact scanned.trans begun

/-- No call changes what the scanner is made of. -/
theorem after (h : Renews made Able) {x : σ} (able : Able x) (call : Call) : made (Scanner.after x call) = made x := by
  cases call with
  | setSource text => exact h.setSource x _
  | setPos pos => exact h.withState x _ (ScanState.isTree_setPos _ _)
  | main => exact h.main x able
  | tagged => exact h.tagged x
  | highlight text => exact h.highlight able text

theorem after_all (h : Renews made Able) {x : σ} (able : Able x) (calls : List Call) :
    made (calls.foldl Scanner.after x) = made x := by
  induction calls generalizing x with
  | nil => rfl
  | cons call calls ih =>
    have same := h.after able call
    exact (ih (h.able _ _ same able)).trans same

/-- After any calls a text is highlighted as before them. -/
theorem highlight_after (h : Renews made Able) {x : σ} (able : Able x) (calls : List Call) (text : String) :
    givenBy (Scanner.highlight text (calls.foldl Scanner.after x)) = givenBy (Scanner.highlight text x) :=
  h.anew _ _ text (h.after_all able calls)

/-- For a scanner on which a source leaves nothing of the source before it, it is enough to look at empty sources. -/
theorem of_emptied (able : ∀ x y : σ, emptied x = emptied y → Able y → Able x)
    (again : ∀ (x : σ) (a b : Source), Scanner.setSource (Scanner.setSource x a) b = Scanner.setSource x b)
    (withState : ∀ (x : σ) (s : ScanState), s.isTree = (state x).isTree → emptied (Scanner.withState x s) = emptied x)
    (main : ∀ x : σ, Able x → emptied (leftBy (Scanner.main x)) = emptied x) : Renews emptied Able where
  able := able
  setSource x source := again x source _
  withState := withState
  main := main
  anew x y text same := by
    have source : Scanner.setSource x (.ofString text) = Scanner.setSource y (.ofString text) := by
      rw [← again x (.ofString "") (.ofString text), ← again y (.ofString "") (.ofString text)]
      exact congrArg (Scanner.setSource · (.ofString text)) same
    rw [Scanner.highlight_run, Scanner.highlight_run, source]

/-- A scanner whose main loop leaves what it is made of in any case. -/
theorem of_preserves
    (again : ∀ (x : σ) (a b : Source), Scanner.setSource (Scanner.setSource x a) b = Scanner.setSource x b)
    (withState : ∀ (x : σ) (s : ScanState), s.isTree = (state x).isTree → emptied (Scanner.withState x s) = emptied x)
    (main : Preserves (emptied (σ := σ)) Scanner.main) : Renews (emptied (σ := σ)) fun _ => True :=
  of_emptied (fun _ _ _ _ => trivial) again withState fun x _ => main.leftBy x

/-- Handing over to a child leaves what the child is made of. -/
theorem preserves_delegate (h : Renews made fun _ => True) (wrap : Option Kind) :
    Preserves (fun x : ScanState × Child σ => (x.1.isTree, made x.2.scanner)) (delegate wrap) := by
  rintro ⟨host, child⟩
  have main := h.main (Scanner.setPos child.scanner host.pos) trivial
  have same : made (Scanner.setPos child.scanner host.pos) = made child.scanner :=
    h.withState _ _ (ScanState.isTree_setPos _ _)
  simp only [Yields, delegate]
  cases ran : Scanner.main (Scanner.setPos child.scanner host.pos) with
  | error e scanner =>
    rw [ran] at main
    exact Prod.ext rfl (main.trans same)
  | ok a scanner =>
    rw [ran] at main
    refine Prod.ext ?_ ((h.tagged scanner).trans (main.trans same))
    simp

end Renews

end Scanner

namespace FlatScanner

theorem renews : Scanner.Renews (Scanner.emptied (σ := FlatScanner)) (·.grammar.Steady) := by
  have put (x : FlatScanner) (s : ScanState) (same : s.isTree = x.state.isTree) :
      Scanner.emptied { x with state := s } = Scanner.emptied x := by
    simp only [Scanner.emptied, Scanner.setSource, ScanState.setSource_congr same]
  refine .of_emptied (fun x y same steady => ?_) (fun x a b => ?_) put fun x steady => ?_
  · have grammars := congrArg FlatScanner.grammar same
    exact (show x.grammar = y.grammar from grammars) ▸ steady
  · simp only [Scanner.setSource, ScanState.setSource_congr (ScanState.isTree_setSource _ a)]
  · have inner : Preserves Scanner.emptied
        (zoom FlatScanner.state (fun y s => { y with state := s }) (Flat.run x.grammar)) :=
      (Flat.preserves_run steady).zoom put
    exact inner.leftBy x

end FlatScanner

namespace NestedScanner

theorem renews : Scanner.Renews (Scanner.emptied (σ := NestedScanner)) (·.grammar.Steady) := by
  have put (x : NestedScanner) (s : ScanState) (same : s.isTree = x.state.isTree) :
      Scanner.emptied { x with state := s } = Scanner.emptied x := by
    simp only [Scanner.emptied, Scanner.setSource, ScanState.setSource_congr same]
  refine .of_emptied (fun x y same steady => ?_) (fun x a b => ?_) put fun x steady => ?_
  · have grammars := congrArg NestedScanner.grammar same
    exact (show x.grammar = y.grammar from grammars) ▸ steady
  · simp only [Scanner.setSource, ScanState.setSource_congr (ScanState.isTree_setSource _ a)]
  · have inner : Preserves Scanner.emptied
        (zoom NestedScanner.state (fun y s => { y with state := s }) (Nested.run x.grammar)) :=
      (Nested.preserves_run steady).zoom put
    exact inner.leftBy x

end NestedScanner

end Gloss
