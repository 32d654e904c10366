import Gloss.Proofs.Scan.Handover

/-!
Regions while a source is recorded. Opening and closing regions records nothing. Giving up the open ones records
the rest of the source: each takes its part, and what then remains has no kind.
-/
namespace Gloss

open Text (Spot Source)
open Markup (WellNamed)

namespace Recorded

variable {src : Source} {Allowed : Token → Prop} {start : Origin} {upTo : Nat} {s : ScanState}
  {fail : ScanError → ScanState → Prop}

theorem pushRegion (h : Recorded src Allowed start upTo s) (r : Region) {post : Unit → ScanState → Prop}
    (next : ∀ s', Recorded src Allowed start upTo s' → s'.cursor = s.cursor → s'.regions = r :: s.regions →
      post () s') :
    Yields (Scan.pushRegion r) s post fail := by
  refine next _ ⟨h.sound, ?_, h.first, h.last, h.le, h.spells, h.defs, h.raw⟩ rfl rfl
  simp [h.flat]

theorem popRegion (h : Recorded src Allowed start upTo s) {r : Region} {outer : List Region}
    (open_ : s.regions = r :: outer) {post : Region → ScanState → Prop}
    (next : ∀ s', Recorded src Allowed start upTo s' → s'.cursor = s.cursor → s'.regions = outer → post r s') :
    Yields Scan.popRegion s post fail := by
  simp only [Scan.popRegion]
  refine yields_bind.mpr (yields_get.mpr ?_)
  rw [open_]
  refine next _ ⟨h.sound, ?_, h.first, h.last, h.le, h.spells, h.defs, h.raw⟩ rfl rfl
  simp [h.flat]

/-- The kinds under which regions that are given up are recorded can stand in tags. -/
def Shown (g : Grammar) (regions : List Region) : Prop :=
  ∀ r ∈ regions, ∀ kind, (r.extra <|> g.displayKind r.name) = some kind → WellNamed kind

variable {g : Grammar} {post : Unit → ScanState → Prop}

theorem unwindOne (h : Recorded src Allowed start s.pos s) {r : Region} {outer : List Region}
    (open_ : s.regions = r :: outer) (named : ∀ kind, (r.extra <|> g.displayKind r.name) = some kind → WellNamed kind)
    (next : ∀ s', Recorded src Allowed start s'.pos s' → s'.regions = outer → s.pos ≤ s'.pos → post () s') :
    Yields (Scan.unwindOne g r) s post fail := by
  simp only [Scan.unwindOne]
  -- Whatever was recorded before, the region is closed in the end.
  have close : ∀ s', Recorded src Allowed start s'.pos s' → s'.regions = s.regions → s.pos ≤ s'.pos →
      Yields (do let _ ← Scan.popRegion; pure ()) s' post fail := by
    intro s' recorded regions le
    refine yields_bind.mpr (recorded.popRegion (regions.trans open_) ?_)
    intro s'' recorded' cursor regions'
    have same : s''.pos = s'.pos := by
      show s''.cursor.pos = s'.cursor.pos
      rw [cursor]
    rw [← same] at recorded' le
    exact next s'' recorded' regions' le
  cases found : g.recovery.get? r.name with
  | none =>
    refine yields_bind.mpr (h.recordRest named ?_)
    intro s' recorded pos regions
    rw [← pos] at recorded
    refine close s' recorded regions ?_
    rw [pos]
    exact h.sound.le_size
  | some p =>
    refine yields_bind.mpr (yields_scan h.sound p ?_ ?_)
    · intro c sound pos _
      have moved := h.withCursor sound
      have same : ({ s with cursor := c } : ScanState).pos = s.pos := pos
      rw [← same] at moved
      exact close _ moved rfl (Nat.le_of_eq same.symm)
    · intro m c a b marks sound pos occurs here
      have start_ : m.start = s.pos := occurs.start.trans here
      refine yields_bind.mpr ((h.withCursor sound).recordMatch occurs.spans start_ named ?_)
      intro s' recorded cursor regions
      have at_ : s'.pos = m.stop := by
        show s'.cursor.pos = m.stop
        rw [cursor]
        exact pos
      have le := occurs.spans.le
      rw [← at_] at recorded
      exact close s' recorded regions (by omega)

theorem unwindEach (h : Recorded src Allowed start s.pos s) (named : Shown g s.regions)
    (next : ∀ s', Recorded src Allowed start s'.pos s' → s'.regions = [] → s.pos ≤ s'.pos → post () s') :
    Yields (Scan.unwindEach g s.regions) s post fail := by
  generalize open_ : s.regions = regions at named
  induction regions generalizing s with
  | nil => exact next s h open_ (Nat.le_refl _)
  | cons r outer ih =>
    simp only [Scan.unwindEach]
    refine yields_bind.mpr (h.unwindOne open_ (named r List.mem_cons_self) ?_)
    intro s' recorded regions le
    refine ih recorded ?_ regions fun r member => named r (List.mem_cons_of_mem _ member)
    intro s'' recorded' regions' le'
    exact next s'' recorded' regions' (Nat.le_trans le le')

/-- Giving up all regions records the source to its end. -/
theorem unwind (h : Recorded src Allowed start s.pos s) (named : Shown g s.regions)
    (next : ∀ s', Recorded src Allowed start src.size s' → s'.pos = src.size → s'.regions = [] → post () s') :
    Yields (Scan.unwind g) s post fail := by
  simp only [Scan.unwind]
  refine yields_bind.mpr (yields_get.mpr ?_)
  refine yields_bind.mpr (h.unwindEach named ?_)
  intro s' recorded regions _
  refine recorded.recordRest (by simp) ?_
  intro s'' recorded' pos regions'
  exact next s'' recorded' pos (regions'.trans regions)

end Recorded

end Gloss
