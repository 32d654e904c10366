import Gloss.Scan.Suspension
import Gloss.Scan.Scanner

/-!
What an operation leads to. An operation on a state either gives a result and another state, or fails and
leaves a state; one condition is asked of the first outcome and another of the second. The rules follow the
ways in which operations are put together.
-/
namespace Gloss

/-- The operation leads from a state to a result and a state with `post`, or fails with `fail`. -/
def Yields {ε σ α : Type} (m : EStateM ε σ α) (s : σ) (post : α → σ → Prop) (fail : ε → σ → Prop) : Prop :=
  match m s with
  | .ok a s' => post a s'
  | .error e s' => fail e s'

section

variable {ε σ τ α β : Type} {s : σ} {m : EStateM ε σ α} {f : α → EStateM ε σ β}
  {post mid : α → σ → Prop} {last : β → σ → Prop} {fail : ε → σ → Prop}

theorem Yields.mono {post' : α → σ → Prop} {fail' : ε → σ → Prop} (h : Yields m s post fail)
    (ok : ∀ a s', post a s' → post' a s') (error : ∀ e s', fail e s' → fail' e s') :
    Yields m s post' fail' := by
  simp only [Yields] at h ⊢
  split
  · next a s' eq =>
    rw [eq] at h
    exact ok a s' h
  · next e s' eq =>
    rw [eq] at h
    exact error e s' h

/-- Two things that an operation leads to, if it does not fail. -/
theorem Yields.and {post' : α → σ → Prop} {fail' : ε → σ → Prop} (h : Yields m s post fun _ _ => False)
    (h' : Yields m s post' fail') : Yields m s (fun a s' => post a s' ∧ post' a s') fail := by
  simp only [Yields] at h h' ⊢
  split at h
  · next a s' ran =>
    simp only [ran] at h' ⊢
    exact ⟨h, h'⟩
  · exact h.elim

/-- What the operation leads to is what running it gives. -/
theorem Yields.ran {post : α → σ → Prop} {fail : ε → σ → Prop}
    (h : Yields m s (fun a s' => m s = .ok a s' → post a s') (fun e s' => m s = .error e s' → fail e s')) :
    Yields m s post fail := by
  simp only [Yields] at h ⊢
  split
  · next a s' eq =>
    simp only [eq] at h
    exact h trivial
  · next e s' eq =>
    simp only [eq] at h
    exact h trivial

theorem Yields.succeeds (h : Yields m s post fun _ _ => False) : ∃ a s', m s = .ok a s' ∧ post a s' := by
  simp only [Yields] at h
  split at h
  · next a s' ran => exact ⟨a, s', ran, h⟩
  · exact h.elim

theorem Yields.fails (h : Yields m s (fun _ _ => False) fail) : ∃ e s', m s = .error e s' ∧ fail e s' := by
  simp only [Yields] at h
  split at h
  · exact h.elim
  · next e s' ran => exact ⟨e, s', ran, h⟩

theorem yields_bind :
    Yields (m >>= f) s last fail ↔ Yields m s (fun a s' => Yields (f a) s' last fail) fail := by
  simp only [Yields, bind, EStateM.bind]
  cases m s <;> rfl

theorem yields_pure {a : α} : Yields (pure a : EStateM ε σ α) s post fail ↔ post a s := Iff.rfl

theorem yields_get {post : σ → σ → Prop} : Yields (get : EStateM ε σ σ) s post fail ↔ post s s := Iff.rfl

theorem yields_modify {g : σ → σ} {post : PUnit → σ → Prop} :
    Yields (modify g : EStateM ε σ PUnit) s post fail ↔ post ⟨⟩ (g s) := Iff.rfl

theorem yields_modifyGet {g : σ → α × σ} :
    Yields (modifyGet g : EStateM ε σ α) s post fail ↔ post (g s).1 (g s).2 := Iff.rfl

/-- An operation on a part of a state. -/
theorem yields_zoom {view : σ → τ} {put : σ → τ → σ} {m : EStateM ε τ α} :
    Yields (zoom view put m) s post fail ↔
      Yields m (view s) (fun a t => post a (put s t)) (fun e t => fail e (put s t)) := by
  simp only [Yields, zoom]
  cases m (view s) <;> rfl

end

/-- An operation on the state of a scan that can be suspended. -/
theorem yields_lift {α : Type} {m : ScanM α} {s : ScanState} {x : Suspension}
    {post : α → ScanState × Suspension → Prop} {fail : ScanError → ScanState × Suspension → Prop} :
    Yields (liftM m : SuspendM α) (s, x) post fail ↔
      Yields m s (fun a s' => post a (s', x)) (fun e s' => fail e (s', x)) := by
  show Yields (Suspend.lift m) (s, x) post fail ↔ _
  simp only [Yields, Suspend.lift]
  cases m s <;> rfl

/-- An operation of the cursor. -/
theorem yields_onCursor {α : Type} {f : Cursor → α × Cursor} {s : ScanState} {post : α → ScanState → Prop}
    {fail : ScanError → ScanState → Prop} :
    Yields (Scan.onCursor f) s post fail ↔ post (f s.cursor).1 { s with cursor := (f s.cursor).2 } := Iff.rfl

/-- Something read off the cursor. -/
theorem yields_ofCursor {α : Type} {f : Cursor → α} {s : ScanState} {post : α → ScanState → Prop}
    {fail : ScanError → ScanState → Prop} :
    Yields (Scan.ofCursor f) s post fail ↔ post (f s.cursor) s := Iff.rfl

/-- Highlighting is the main loop on the new source, and then its output. -/
theorem Scanner.highlight_run {σ : Type} [Scanner σ] (text : String) (x : σ) :
    highlight text x = (main >>= fun _ => modifyGet tagged : EStateM ScanError σ String) (setSource x (.ofString text)) := rfl

end Gloss
