import Gloss.Proofs.Scan.Effects
import Gloss.Scan.Loops
import Gloss.Scan.Unwind

/-!
What operations leave as it is, whatever comes of them. An operation is put together from others by the rules of its
monad, and none of the operations on the state of a scan changes whether output goes into a tree or into a stream. So
the loops change nothing about that if the handlers do not.
-/
namespace Gloss

/-- Something about the state is the same after the operation, also after one that failed. -/
def Preserves {ε σ τ α : Type} (view : σ → τ) (m : EStateM ε σ α) : Prop :=
  ∀ s, Yields m s (fun _ s' => view s' = view s) fun _ s' => view s' = view s

section

variable {ε σ τ υ ρ α β : Type} {view : σ → τ} {m : EStateM ε σ α} {f : α → EStateM ε σ β}

@[grind ←]
theorem Preserves.bind (first : Preserves view m) (rest : ∀ a, Preserves view (f a)) : Preserves view (m >>= f) := by
  intro s
  refine yields_bind.mpr ((first s).mono ?_ fun _ _ same => same)
  intro a s' same
  have next := rest a s'
  rw [same] at next
  exact next

@[grind ←]
theorem preserves_pure (a : α) : Preserves view (pure a : EStateM ε σ α) := fun _ => rfl

@[grind ←]
theorem preserves_get : Preserves view (get : EStateM ε σ σ) := fun _ => rfl

@[grind ←]
theorem preserves_throw (e : ε) : Preserves view (throw e : EStateM ε σ α) := fun _ => rfl

@[grind ←]
theorem preserves_modify {g : σ → σ} (same : ∀ s, view (g s) = view s) :
    Preserves view (modify g : EStateM ε σ PUnit) := same

@[grind ←]
theorem preserves_modifyGet {g : σ → α × σ} (same : ∀ s, view (g s).2 = view s) :
    Preserves view (modifyGet g : EStateM ε σ α) := same

/-- An operation on a part of a state leaves what depends on the part only by way of what it leaves of the part. -/
theorem Preserves.zoom {part : σ → ρ} {put : σ → ρ → σ} {inner : ρ → υ} {m : EStateM ε ρ α} (h : Preserves inner m)
    (same : ∀ s t, inner t = inner (part s) → view (put s t) = view s) : Preserves view (zoom part put m) := by
  intro s
  exact yields_zoom.mpr ((h (part s)).mono (fun _ t => same s t) fun _ t => same s t)

end

/-- Does output go into a tree? -/
def ScanState.isTree (s : ScanState) : Bool := s.outline.isSome

namespace ScanState

/-- Of a state only this is left by another source. -/
theorem setSource_congr {s s' : ScanState} (same : s.isTree = s'.isTree) (source : Text.Source) :
    s.setSource source = s'.setSource source := by
  simp only [isTree] at same
  cases tree : s.outline <;> cases tree' : s'.outline <;>
    simp_all [setSource, clearOutput, Cursor.setSource]

@[simp] theorem isTree_setSource (s : ScanState) (source : Text.Source) : (s.setSource source).isTree = s.isTree := by
  simp [isTree, setSource, clearOutput]

@[simp] theorem isTree_setPos (s : ScanState) (pos : Nat) : (s.setPos pos).isTree = s.isTree := rfl

@[simp] theorem isTree_record (s : ScanState) (t : Token) : (s.record t).isTree = s.isTree := by
  simp only [record, isTree]
  split <;> simp_all

end ScanState

@[simp] theorem Grammar.isTree_tagged (g : Grammar) (s : ScanState) : (g.tagged s).2.isTree = s.isTree := by
  simp only [tagged, ScanState.isTree]
  split <;> simp_all

namespace Scan

theorem preserves_onCursor {α : Type} (f : Cursor → α × Cursor) : Preserves ScanState.isTree (onCursor f) := fun _ => rfl

theorem preserves_ofCursor {α : Type} (f : Cursor → α) : Preserves ScanState.isTree (ofCursor f) := fun _ => rfl

attribute [grind ←] preserves_onCursor preserves_ofCursor

attribute [grind =] pos atEnd peek? charBefore? rest restChars slice textOf groupOf setPos shift terminate accept unscan
  take search check scan scanUntil index Grammar.nextMatch

@[grind ←]
theorem preserves_compile (text : String) : Preserves ScanState.isTree (compile text) := by
  unfold compile
  split
  · exact preserves_pure _
  · exact preserves_throw _

@[grind ←]
theorem preserves_record (kind : Option Kind) (text : String) : Preserves ScanState.isTree (record kind text) :=
  preserves_modify fun s => s.isTree_record _

@[grind ←]
theorem preserves_recordMarkup (kind : Option Kind) (text : String) : Preserves ScanState.isTree (recordMarkup kind text) :=
  preserves_modify fun s => s.isTree_record _

@[grind ←]
theorem preserves_define (name : String) (kind : Kind) : Preserves ScanState.isTree (define name kind) :=
  preserves_modify fun _ => rfl

@[grind ←]
theorem preserves_clearTokens : Preserves ScanState.isTree clearTokens := preserves_modify fun _ => rfl

@[grind ←]
theorem preserves_pushRegion (r : Region) : Preserves ScanState.isTree (pushRegion r) :=
  preserves_modify fun s => by simp [ScanState.isTree]

@[grind ←]
theorem preserves_popRegion : Preserves ScanState.isTree popRegion := by
  refine preserves_get.bind fun s => ?_
  split
  · exact preserves_throw _
  · exact (preserves_modify fun s => by simp [ScanState.isTree]).bind fun _ => preserves_pure _

@[grind ←]
theorem preserves_setExtra (kind : Option Kind) : Preserves ScanState.isTree (setExtra kind) := by
  refine preserves_modifyGet fun s => ?_
  split <;> rfl

@[grind ←]
theorem preserves_depth : Preserves ScanState.isTree depth := preserves_get.bind fun _ => preserves_pure _

@[grind ←]
theorem preserves_stateName : Preserves ScanState.isTree stateName := preserves_get.bind fun _ => preserves_pure _

@[grind ←]
theorem preserves_region? : Preserves ScanState.isTree region? := preserves_get.bind fun _ => preserves_pure _

@[grind ←]
theorem preserves_ensureProgress (language : String) (start depth : Nat) :
    Preserves ScanState.isTree (ensureProgress language start depth) := by
  unfold ensureProgress
  grind

@[grind ←]
theorem preserves_recordRange (start stop : Nat) (kind : Option Kind) :
    Preserves ScanState.isTree (recordRange start stop kind) := by
  unfold recordRange
  grind

@[grind ←]
theorem preserves_recordMatch (kind : Option Kind) (m : Match) : Preserves ScanState.isTree (recordMatch kind m) := by
  unfold recordMatch
  grind

@[grind ←]
theorem preserves_recordRest (kind : Option Kind) : Preserves ScanState.isTree (recordRest kind) := by
  unfold recordRest
  grind

@[grind ←]
theorem preserves_scanAndRecord (p : Pattern) (kind : Option Kind) : Preserves ScanState.isTree (scanAndRecord p kind) := by
  unfold scanAndRecord
  grind

@[grind ←]
theorem preserves_skipBlank : Preserves ScanState.isTree skipBlank := by
  unfold skipBlank
  grind

@[grind ←]
theorem preserves_nestRounds (opening closing : Pattern) (fuel depth : Nat) :
    Preserves ScanState.isTree (nestRounds opening closing fuel depth) := by
  induction fuel generalizing depth with
  | zero => exact preserves_throw _
  | succ fuel ih =>
    unfold nestRounds nestRound
    grind

@[grind ←]
theorem preserves_nestable (kind : Kind) (opening closing : Pattern) :
    Preserves ScanState.isTree (nestable kind opening closing) := by
  unfold nestable
  grind

@[grind ←]
theorem preserves_unwindOne (g : Grammar) (r : Region) : Preserves ScanState.isTree (unwindOne g r) := by
  unfold unwindOne
  grind

@[grind ←]
theorem preserves_unwind (g : Grammar) : Preserves ScanState.isTree (unwind g) := by
  have each : ∀ regions, Preserves ScanState.isTree (unwindEach g regions) := by
    intro regions
    induction regions with
    | nil => exact preserves_pure _
    | cons r outer ih =>
      unfold unwindEach
      grind
  unfold unwind
  grind

end Scan

/-- A handler that does not change whether output goes into a tree. All that a handler does by means of the operations on
the state is like this. -/
def Handler.Steady (handler : Handler) : Prop := ∀ m, Preserves ScanState.isTree (handler m)

/-- All handlers of the grammar are steady. -/
def Grammar.Steady (g : Grammar) : Prop := ∀ kind handler, g.handlers.get? kind = some handler → handler.Steady

variable {g : Grammar}

@[grind ←]
theorem Flat.preserves_dispatch (steady : g.Steady) (next : NextMatch) (start : Nat) :
    Preserves ScanState.isTree (Flat.dispatch g next start) := by
  unfold Flat.dispatch
  refine (Scan.preserves_recordRange _ _ _).bind fun _ => ?_
  grind [Grammar.Steady, Handler.Steady]

@[grind ←]
theorem Flat.preserves_run (steady : g.Steady) : Preserves ScanState.isTree (Flat.run g) := by
  have loop : ∀ fuel, Preserves ScanState.isTree (Flat.loop g fuel) := by
    intro fuel
    induction fuel with
    | zero => exact preserves_throw _
    | succ fuel ih =>
      unfold Flat.loop Flat.step
      grind
  unfold Flat.run
  grind

@[grind ←]
theorem Nested.preserves_start (steady : g.Steady) (next : NextMatch) (from_ : Nat) :
    Preserves ScanState.isTree (Nested.start g next from_) := by
  have enter (e : PatternTable.Entry) (m : Match) : Preserves ScanState.isTree (Nested.enter e m) := by
    unfold Nested.enter
    grind
  unfold Nested.start
  grind [Grammar.Steady, Handler.Steady]

@[grind ←]
theorem Nested.preserves_finish (m : Match) : Preserves ScanState.isTree (Nested.finish m) := by
  unfold Nested.finish
  grind

@[grind ←]
theorem Nested.preserves_step (steady : g.Steady) : Preserves ScanState.isTree (Nested.step g) := by
  unfold Nested.step
  refine (Scan.preserves_ofCursor _).bind fun from_ => Scan.preserves_depth.bind fun before =>
    Scan.preserves_stateName.bind fun state => (Scan.preserves_onCursor _).bind fun next =>
      Scan.preserves_region?.bind fun inner => ?_
  split
  · refine (Scan.preserves_onCursor _).bind fun close => ?_
    grind
  · refine (preserves_pure _).bind fun close => ?_
    grind

@[grind ←]
theorem Nested.preserves_run (steady : g.Steady) : Preserves ScanState.isTree (Nested.run g) := by
  have loop : ∀ fuel, Preserves ScanState.isTree (Nested.loop g fuel) := by
    intro fuel
    induction fuel with
    | zero => exact preserves_throw _
    | succ fuel ih =>
      unfold Nested.loop
      grind
  have closeAll : ∀ regions, Preserves ScanState.isTree (Nested.closeAll regions) := by
    intro regions
    induction regions with
    | nil => exact preserves_pure _
    | cons r outer ih =>
      unfold Nested.closeAll
      grind
  unfold Nested.run
  grind

namespace Suspend

/-- Does output go into a tree? -/
def isTree (x : ScanState × Suspension) : Bool := x.1.isTree

@[grind ←]
theorem preserves_lift {α : Type} {m : ScanM α} (h : Preserves ScanState.isTree m) :
    Preserves isTree (liftM m : SuspendM α) := fun x => yields_lift.mpr (h x.1)

@[grind ←]
theorem preserves_suspension : Preserves isTree suspension := fun _ => rfl

@[grind ←]
theorem preserves_setSuspension (x : Suspension) : Preserves isTree (setSuspension x) := fun _ => rfl

@[grind ←]
theorem preserves_leave (g : Grammar) (kind : Kind) : Preserves isTree (leave g kind) := by
  unfold leave
  grind

@[grind ←]
theorem preserves_resume (g : Grammar) : Preserves isTree (resume g) := by
  unfold resume
  refine preserves_suspension.bind fun x => ?_
  split
  · exact preserves_pure _
  · refine (preserves_setSuspension {}).bind fun _ => ?_
    grind

@[grind ←]
theorem preserves_recordFront (kind : Kind) (m : Match) (bytes : Nat) :
    Preserves ScanState.isTree (recordFront kind m bytes) := by
  unfold recordFront
  grind

@[grind ←]
theorem preserves_serverBreak (g : Grammar) (e : Embedding) (kind : Kind) (m : Match) :
    Preserves isTree (serverBreak g e kind m) := by
  unfold serverBreak
  grind

@[grind ←]
theorem preserves_scriptBreak (e : Embedding) (close : Pattern) (kind : Kind) (m : Match) :
    Preserves isTree (scriptBreak e close kind m) := by
  unfold scriptBreak
  grind

end Suspend

end Gloss
