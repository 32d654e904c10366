import Gloss.Proofs.Scan.Nesting
import Mathlib.Data.List.Nodup
import Mathlib.Data.List.Perm.Subperm
import Mathlib.Logic.Relation
import Mathlib.Tactic.Ring

/-!
When the loop with regions ends. A step that opens or closes a region counts as progress although the cursor stays,
so regions that open and close at one offset can keep the loop busy. They do so for ever just if it comes to a state
from which openings in place lead on and on: to kinds that open in place again, or into regions that are closed in
place at once. From any other state at most as many regions are opened in place as the table has entries, and then
the cursor moves or the loop fails.
-/
namespace Gloss.Nested

open Text (Source)

section

variable {g : Grammar} {src : Source} {pos : Nat}

/-- In a state of this kind, the next start is an empty match at the offset that opens a region. -/
def Opens (g : Grammar) (src : Source) (pos : Nat) (kind : Kind) (e : PatternTable.Entry) : Prop :=
  ∃ next, g.patterns.Nearest (g.allows kind) src pos next ∧ g.patterns.entries[next.entry]? = some e ∧
    next.data.start = pos ∧ next.data.stop = pos ∧ e.close.isSome

/-- A region of the entry is closed by an empty match at the offset, and nothing starts there. -/
def Closes (g : Grammar) (src : Source) (pos : Nat) (e : PatternTable.Entry) : Prop :=
  ∃ p m, e.close = some p ∧ p.findFrom? src pos = some m ∧ m.start = pos ∧ m.stop = pos ∧
    ∀ next, g.patterns.Nearest (g.allows e.kind) src pos next → pos < next.data.start

/-- From a state of this kind, openings in place lead on for ever. -/
def Circles (g : Grammar) (src : Source) (pos : Nat) (kind : Kind) : Prop :=
  ∃ round : Kind → Prop, round kind ∧
    ∀ k, round k → ∃ e, Opens g src pos k e ∧ (round e.kind ∨ Closes g src pos e)

theorem Opens.mem {kind : Kind} {e : PatternTable.Entry} (h : Opens g src pos kind e) : e ∈ g.patterns.entries := by
  obtain ⟨next, _, entry, _⟩ := h
  exact List.mem_of_getElem? entry

/-- The innermost regions are those that were opened in place by these entries, the latest first. -/
inductive Opened (g : Grammar) (src : Source) (pos : Nat) : List Region → List PatternTable.Entry → Prop where
  | none (regions : List Region) : Opened g src pos regions []
  | more {regions : List Region} {es : List PatternTable.Entry} {e : PatternTable.Entry} {r : Region}
      (before : Opened g src pos regions es) (opens : Opens g src pos (kindOf regions) e) (name : r.name = e.kind)
      (close : r.close = e.close) : Opened g src pos (r :: regions) (e :: es)

theorem Opened.subset {regions : List Region} {es : List PatternTable.Entry} (h : Opened g src pos regions es) :
    ∀ e ∈ es, e ∈ g.patterns.entries := by
  induction h with
  | none => simp
  | more _ opens _ _ ih =>
    intro f member
    rcases List.mem_cons.mp member with rfl | member
    · exact opens.mem
    · exact ih f member

/-- Every kind that was opened in place, but the latest, opens the next one. -/
theorem Opened.onward {regions : List Region} {es : List PatternTable.Entry} (h : Opened g src pos regions es)
    {e : PatternTable.Entry} (member : e ∈ es) :
    e.kind = kindOf regions ∨ ∃ f ∈ es, Opens g src pos e.kind f := by
  induction h with
  | none => cases member
  | @more regions es f r before opens name close ih =>
    rcases List.mem_cons.mp member with rfl | member
    · exact .inl name.symm
    · rcases ih member with last | ⟨f', member', opens'⟩
      · rw [← last] at opens
        exact .inr ⟨f, List.mem_cons_self, opens⟩
      · exact .inr ⟨f', List.mem_cons_of_mem _ member', opens'⟩

/-- A kind that is opened in place within itself goes round. -/
theorem Opened.circles {regions : List Region} {es : List PatternTable.Entry} (h : Opened g src pos regions es)
    {e f : PatternTable.Entry} (opens : Opens g src pos (kindOf regions) e) (member : f ∈ es) (again : e.kind = f.kind) :
    Circles g src pos (kindOf regions) := by
  refine ⟨fun k => k = kindOf regions ∨ ∃ e ∈ es, e.kind = k, .inl rfl, ?_⟩
  rintro k (rfl | ⟨e', member', rfl⟩)
  · exact ⟨e, opens, .inl (.inr ⟨f, member, again.symm⟩)⟩
  · rcases h.onward member' with last | ⟨f', memberF, opensF⟩
    · rw [last]
      exact ⟨e, opens, .inl (.inr ⟨f, member, again.symm⟩)⟩
    · exact ⟨f', opensF, .inl (.inr ⟨f', memberF, rfl⟩)⟩

/-- A region that is opened in place and closed there at once goes round. -/
theorem Opens.circles {kind : Kind} {e : PatternTable.Entry} (opens : Opens g src pos kind e)
    (closes : Closes g src pos e) : Circles g src pos kind := by
  refine ⟨fun k => k = kind, rfl, ?_⟩
  rintro k rfl
  exact ⟨e, opens, .inr closes⟩

end

section

variable {g : Grammar} {src : Source} {s : ScanState}

/-- A step that leaves the cursor where it is has opened or closed a region there. -/
theorem Taken.inPlace {s' : ScanState} (h : Taken g src s s') (progress : Progress src s s') (here : s'.pos = s.pos)
    (before : s.pos < src.size) :
    (∃ e r, Opens g src s.pos (kindOf s.regions) e ∧ r.name = e.kind ∧ r.close = e.close ∧
      s'.regions = r :: s.regions) ∨
    ∃ r, s.regions = r :: s'.regions ∧
      ∀ e : PatternTable.Entry, r.name = e.kind → r.close = e.close → Closes g src s.pos e := by
  have deeper : s'.depth ≠ s.depth := by
    rcases progress with moved | deeper | ended
    · omega
    · exact deeper
    · omega
  cases h with
  | @start next e c upcoming entry first sound there =>
    obtain ⟨above, spans⟩ := upcoming.bounds
    have low := spans.le
    have at_ : c.pos = s.pos := here
    simp only [ScanState.depth, entered_regions] at deeper
    have region : ¬ e.close.isNone := by
      intro single
      rw [if_pos single] at deeper
      exact deeper rfl
    refine .inl ⟨e, regionOf src e next.data, ⟨next, ?_, entry, by omega, by omega, ?_⟩, rfl, rfl, ?_⟩
    · rw [← stateName_eq]
      exact upcoming
    · simpa [Option.isSome_iff_ne_none] using region
    · show (entered src s e next.data).regions = _
      rw [entered_regions, if_neg region]
  | @finish m r outer c open_ closing first sound there =>
    obtain ⟨above, spans, _⟩ := closing_bounds closing
    have low := spans.le
    have at_ : c.pos = s.pos := here
    refine .inr ⟨r, by simp [open_], ?_⟩
    intro e name close
    obtain ⟨p, closes, found⟩ := Option.bind_eq_some_iff.mp closing
    have top : r.close = some p := by simpa [open_] using closes
    refine ⟨p, m, close ▸ top, found, by omega, by omega, ?_⟩
    intro next nearest
    have upcoming : Upcoming g src s next := by
      rw [Upcoming, stateName_eq, open_, kindOf, name]
      exact nearest
    have behind := first next upcoming
    omega
  | rest => exact (deeper (by simp [ScanState.depth])).elim

/-- One step of the loop, from a state before the end. -/
def Goes (g : Grammar) (src : Source) (s s' : ScanState) : Prop := s.pos < src.size ∧ step g s = .ok () s'

/-- The loop comes from one state to another. -/
abbrev Reaches (g : Grammar) (src : Source) : ScanState → ScanState → Prop := Relation.ReflTransGen (Goes g src)

/-- The loop comes to a state from which it opens regions in place for ever. -/
def Turns (g : Grammar) (src : Source) (s : ScanState) : Prop :=
  ∃ t, Reaches g src s t ∧ t.pos < src.size ∧ Circles g src t.pos t.stateName

/-- What is left to do: offsets to pass, regions to close and regions that can still be opened in place. Each offset
counts for all the regions that can be opened there. -/
def left (g : Grammar) (src : Source) (s : ScanState) (es : List PatternTable.Entry) : Nat :=
  (2 * g.patterns.size + 2) * (src.size - s.pos) + s.depth + 2 * (g.patterns.size - es.length)

/-- As many regions as there are entries can be opened in place. -/
theorem Opened.length_le {pos : Nat} {regions : List Region} {es : List PatternTable.Entry}
    (h : Opened g src pos regions es) (distinct : (es.map (·.kind)).Nodup) : es.length ≤ g.patterns.size :=
  (List.subperm_of_subset (List.Nodup.of_map _ distinct) h.subset).length_le

/-- A step that moves the cursor leaves less to do, whatever was opened in place before. -/
theorem left_of_moved {s' : ScanState} {es : List PatternTable.Entry} (moved : s.pos < s'.pos) (bound : s'.pos ≤ src.size)
    (depth : s'.depth ≤ s.depth + 1) : left g src s' [] < left g src s es := by
  obtain ⟨n, later⟩ : ∃ n, src.size - s.pos = src.size - s'.pos + 1 + n := ⟨s'.pos - s.pos - 1, by omega⟩
  simp only [left, later, List.length_nil, Nat.mul_add]
  omega

/-- Unless openings in place go round, the loop ends within the steps that are left. -/
theorem yields_loop (plain : ∀ e ∈ g.patterns.entries, g.handlers.get? e.kind = none) {fuel : Nat}
    {es : List PatternTable.Entry} (sound : s.cursor.Sound src) (never : ¬ Turns g src s)
    (opened : Opened g src s.pos s.regions es) (distinct : (es.map (·.kind)).Nodup) (enough : left g src s es < fuel) :
    Yields (loop g fuel) s (fun _ s' => s'.cursor.Sound src ∧ s'.pos = src.size)
      fun e _ => ∃ pos, e = .noProgress g.name pos := by
  induction fuel generalizing s es with
  | zero => omega
  | succ fuel ih =>
    have bound : s.pos ≤ src.size := sound.le_size
    by_cases ended : s.pos = src.size
    · exact yields_loop_ended sound ended ⟨sound, ended⟩
    have before : s.pos < src.size := Nat.lt_of_le_of_ne bound ended
    refine (yields_loop_before sound before).mpr (Yields.ran ((yields_step plain sound).mono ?_ ?_))
    · rintro _ s' ⟨taken, progress⟩ ran
      have goes : Goes g src s s' := ⟨before, ran⟩
      have never' : ¬ Turns g src s' := by
        rintro ⟨t, reaches, circles⟩
        exact never ⟨t, .head goes reaches, circles⟩
      have within : s'.pos ≤ src.size := taken.sound.le_size
      rcases Nat.lt_or_eq_of_le (taken.pos_le sound) with moved | here
      · have less : left g src s' [] < left g src s es := left_of_moved moved within taken.depth_le
        exact ih taken.sound never' (.none _) List.nodup_nil (by omega)
      · rcases taken.inPlace progress here.symm before with ⟨e, r, opens, name, close, regions⟩ | ⟨r, regions, closes⟩
        · have fresh : e.kind ∉ es.map (·.kind) := by
            intro member
            obtain ⟨f, memberF, again⟩ := List.mem_map.mp member
            refine never ⟨s, .refl, before, ?_⟩
            rw [stateName_eq]
            exact opened.circles opens memberF again.symm
          have opened' : Opened g src s'.pos s'.regions (e :: es) := by
            rw [← here, regions]
            exact .more opened opens name close
          have distinct' : ((e :: es).map (·.kind)).Nodup := by
            rw [List.map_cons]
            exact List.nodup_cons.mpr ⟨fresh, distinct⟩
          have room := opened'.length_le distinct'
          refine ih taken.sound never' opened' distinct' ?_
          simp only [left, ← here, ScanState.depth, regions, List.length_cons] at enough room ⊢
          omega
        · generalize outer : s'.regions = rest at regions
          rw [regions] at opened
          cases opened with
          | none =>
            refine ih taken.sound never' (.none _) List.nodup_nil ?_
            simp only [left, ← here, ScanState.depth, regions, outer, List.length_cons] at enough ⊢
            omega
          | more earlier opens name close =>
            -- The region was opened here, so the state it was opened in is back.
            refine (never' ⟨s', .refl, by rwa [← here], ?_⟩).elim
            rw [stateName_eq, outer, ← here]
            exact opens.circles (closes _ name close)
    · rintro e s' ⟨rfl, _⟩ _
      exact ⟨s.pos, rfl⟩

/-- In a round: the state opens a region in place again, or the innermost region is closed in place and the state
around it opens one again. -/
def Turning (g : Grammar) (src : Source) (pos : Nat) (round : Kind → Prop) (regions : List Region) : Prop :=
  round (kindOf regions) ∨
    ∃ r outer e, regions = r :: outer ∧ r.name = e.kind ∧ r.close = e.close ∧ Closes g src pos e ∧ round (kindOf outer)

/-- A step in a round stays in place and in the round. -/
theorem Taken.turning {s' : ScanState} {round : Kind → Prop}
    (circles : ∀ k, round k → ∃ e, Opens g src s.pos k e ∧ (round e.kind ∨ Closes g src s.pos e))
    (turning : Turning g src s.pos round s.regions) (h : Taken g src s s') :
    s'.pos = s.pos ∧ s'.depth ≠ s.depth ∧ Turning g src s.pos round s'.regions := by
  rcases turning with again | ⟨r, outer, e, open_, name, close, ⟨p, m, closes, found, low, high, behind⟩, again⟩
  · obtain ⟨e, ⟨next, nearest, entry, low, high, region⟩, onward⟩ := circles _ again
    rw [← stateName_eq] at nearest
    have single : ¬ e.close.isNone := by simpa [Option.isSome_iff_ne_none] using region
    cases h with
    | @start next' e' c upcoming entry' _ _ there =>
      obtain rfl := upcoming.unique nearest
      rw [entry] at entry'
      cases entry'
      have regions : (entered src s e next'.data).regions = regionOf src e next'.data :: s.regions := by
        rw [entered_regions, if_neg single]
      refine ⟨there.trans high, ?_, ?_⟩
      · simp only [ScanState.depth, regions, List.length_cons]
        omega
      · simp only [regions]
        rcases onward with again' | closes
        · exact .inl again'
        · exact .inr ⟨_, _, e, rfl, rfl, rfl, closes, again⟩
    | finish _ closing first =>
      have := first next nearest
      have := (closing_bounds closing).1
      omega
    | rest absent => exact (absent next nearest).elim
  · have closing : closing? src s = some m := by
      rw [closing?, open_, List.head?_cons, Option.bind_some, close, closes]
      exact found
    cases h with
    | @start next _ _ upcoming _ first =>
      have := first m closing
      have := behind next (by
        rw [Upcoming, stateName_eq, open_, kindOf, name] at upcoming
        exact upcoming)
      omega
    | @finish m' _ _ c _ closing' _ _ there =>
      rw [closing] at closing'
      cases closing'
      refine ⟨there.trans high, ?_, ?_⟩
      · simp [ScanState.depth, open_]
      · left
        simpa [open_] using again
    | rest _ none_ =>
      rw [closing] at none_
      cases none_

/-- In a round the loop never ends. -/
theorem yields_loop_turning (plain : ∀ e ∈ g.patterns.entries, g.handlers.get? e.kind = none)
    (sound : s.cursor.Sound src) (before : s.pos < src.size) {round : Kind → Prop}
    (circles : ∀ k, round k → ∃ e, Opens g src s.pos k e ∧ (round e.kind ∨ Closes g src s.pos e))
    (turning : Turning g src s.pos round s.regions) (fuel : Nat) :
    Yields (loop g fuel) s (fun _ _ => False) fun e _ => e = .outOfSteps g.name := by
  induction fuel generalizing s with
  | zero => rfl
  | succ fuel ih =>
    refine (yields_loop_before sound before).mpr ((yields_step plain sound).mono ?_ ?_)
    · rintro _ s' ⟨taken, _⟩
      obtain ⟨here, _, turning'⟩ := taken.turning circles turning
      rw [← here] at before circles turning'
      exact ih taken.sound before circles turning'
    · rintro e s' ⟨_, taken, still⟩
      obtain ⟨_, deeper, _⟩ := taken.turning circles turning
      exact (still (.inr (.inl deeper))).elim

/-- Nor does it end before it comes to the round. -/
theorem yields_loop_of_turns (plain : ∀ e ∈ g.patterns.entries, g.handlers.get? e.kind = none)
    (sound : s.cursor.Sound src) (turns : Turns g src s) (fuel : Nat) :
    Yields (loop g fuel) s (fun _ _ => False) fun e _ => e = .outOfSteps g.name := by
  obtain ⟨t, reaches, before, round, again, circles⟩ := turns
  induction reaches using Relation.ReflTransGen.head_induction_on generalizing fuel with
  | refl =>
    rw [stateName_eq] at again
    exact yields_loop_turning plain sound before circles (.inl again) fuel
  | @head s u goes _ ih =>
    obtain ⟨ahead, ran⟩ := goes
    have moved : u.cursor.Sound src := by
      have taken := yields_step plain sound
      simp only [Yields, ran] at taken
      exact taken.1.sound
    cases fuel with
    | zero => rfl
    | succ fuel =>
      refine (yields_loop_before sound ahead).mpr ?_
      simp only [Yields, ran]
      exact ih moved fuel

/-- Unless openings in place go round, a scan of a source ends. -/
theorem yields_run (plain : ∀ e ∈ g.patterns.entries, g.handlers.get? e.kind = none)
    (never : ¬ Turns g src (s.setSource src)) :
    Yields (run g) (s.setSource src) (fun _ _ => True) fun e _ => ∃ pos, e = .noProgress g.name pos := by
  have sound : (s.setSource src).cursor.Sound src := Cursor.sound_ofSource src
  have enough : left g src (s.setSource src) [] < budget g (s.setSource src) := by
    have size : (s.setSource src).source.size = src.size := by rw [ScanState.source, sound.source]
    have begin_ : (s.setSource src).pos = 0 := rfl
    have depth : (s.setSource src).depth = 0 := rfl
    have each : (2 * g.patterns.size + 2) * src.size ≤ 2 * (g.patterns.size + g.handlers.length + 2) * src.size :=
      Nat.mul_le_mul_right _ (by omega)
    have whole : 2 * (src.size + 2) * (g.patterns.size + g.handlers.length + 2) =
        2 * (g.patterns.size + g.handlers.length + 2) * src.size + 4 * (g.patterns.size + g.handlers.length + 2) := by
      ring
    simp only [left, budget, size, begin_, depth, List.length_nil, Nat.sub_zero, whole]
    omega
  simp only [run]
  refine yields_bind.mpr (yields_get.mpr (yields_bind.mpr ?_))
  refine (yields_loop plain sound never (.none _) List.nodup_nil enough).mono ?_ fun _ _ stuck => stuck
  rintro _ s' _
  exact yields_bind.mpr (yields_get.mpr (yields_closeAll rfl trivial))

/-- Where every start of a region reads something, openings in place do not go round. -/
theorem not_turns_of_consumes
    (consumes : ∀ e ∈ g.patterns.entries, e.close.isSome → e.pattern.parsed.regex.consumes) : ¬ Turns g src s := by
  rintro ⟨t, _, _, round, again, circles⟩
  obtain ⟨e, ⟨next, nearest, entry, low, high, region⟩, _⟩ := circles _ again
  obtain ⟨f, entry', _, _, found⟩ := nearest.entry
  rw [entry] at entry'
  cases entry'
  obtain ⟨a, b, marks, occurs, _⟩ := Pattern.findFrom?_some found
  have less := Regex.Matches.consumes (consumes e (List.mem_of_getElem? entry) region) occurs.covers
  rw [← occurs.start, ← occurs.stop] at less
  omega

/-- The loop from the start of a source. It never ends if it comes to a state from which openings in place go round;
from any other start it ends, and the scan succeeds or names the offset at which it made no progress. -/
theorem run_ends_unless_turning (g : Grammar) (src : Source) (s : ScanState)
    (plain : ∀ e ∈ g.patterns.entries, g.handlers.get? e.kind = none) :
    (¬ Turns g src (s.setSource src) →
      (∃ s', run g (s.setSource src) = .ok () s') ∨
        ∃ pos s', run g (s.setSource src) = .error (.noProgress g.name pos) s') ∧
    (Turns g src (s.setSource src) →
      ∀ fuel, ∃ s', loop g fuel (s.setSource src) = .error (.outOfSteps g.name) s') := by
  constructor
  · intro never
    have ends := yields_run plain never
    simp only [Yields] at ends
    split at ends
    · next _ s' ran => exact .inl ⟨s', ran⟩
    · next e s' ran =>
      obtain ⟨pos, rfl⟩ := ends
      exact .inr ⟨pos, s', ran⟩
  · intro turns fuel
    obtain ⟨_, s', ran, rfl⟩ := (yields_loop_of_turns plain (Cursor.sound_ofSource src) turns fuel).fails
    exact ⟨s', ran⟩

end

/-- Groups in parentheses, within each other. -/
def grouped : Grammar :=
  Grammar.bare "groups" |>.region ⟨"GROUP"⟩ (.ofText "\\(") (.ofText "\\)") |>.allow .initial ⟨"GROUP"⟩
    |>.allow ⟨"GROUP"⟩ ⟨"GROUP"⟩

theorem run_ends_grouped :
    (∀ e ∈ grouped.patterns.entries, grouped.handlers.get? e.kind = none) ∧
    ¬ Turns grouped (.ofString "(a(b)") (ScanState.emptyTree.setSource (.ofString "(a(b)")) ∧
    ((∃ s', run grouped (ScanState.emptyTree.setSource (.ofString "(a(b)")) = .ok () s') ∨
      ∃ pos s', run grouped (ScanState.emptyTree.setSource (.ofString "(a(b)")) =
        .error (.noProgress grouped.name pos) s') := by
  have plain : ∀ e ∈ grouped.patterns.entries, grouped.handlers.get? e.kind = none := fun _ _ => rfl
  have consumes : ∀ e ∈ grouped.patterns.entries, e.close.isSome → e.pattern.parsed.regex.consumes := by
    decide +kernel
  have never : ¬ Turns grouped (.ofString "(a(b)") (ScanState.emptyTree.setSource (.ofString "(a(b)")) :=
    not_turns_of_consumes consumes
  exact ⟨plain, never, (run_ends_unless_turning grouped _ _ plain).1 never⟩

/-- A region that opens and closes anywhere. -/
def hollow : Grammar := Grammar.bare "hollow" |>.region ⟨"A"⟩ (.ofText "") (.ofText "")

/-- A region with an empty start and an empty end is opened and closed at the same offset for ever. -/
theorem loop_hollow_endless :
    (∀ e ∈ hollow.patterns.entries, hollow.handlers.get? e.kind = none) ∧
    ∀ fuel, ∃ s', loop hollow fuel (ScanState.emptyTree.setSource (.ofString "x")) =
      .error (.outOfSteps hollow.name) s' := by
  have plain : ∀ e ∈ hollow.patterns.entries, hollow.handlers.get? e.kind = none := fun _ _ => rfl
  refine ⟨plain, fun fuel => ?_⟩
  have found : (Pattern.ofText "").findFrom? (.ofString "x") 0 = some (Match.ofRange 0 0) := by decide +kernel
  let e : PatternTable.Entry := { kind := ⟨"A"⟩, pattern := .ofText "", close := some (.ofText "") }
  have opens : Opens hollow (.ofString "x") 0 .initial e := by
    refine ⟨⟨⟨"A"⟩, 0, Match.ofRange 0 0⟩, ⟨⟨e, rfl, rfl, rfl, found⟩, ?_, ?_⟩, rfl, rfl, rfl, rfl⟩
    · intro i _ _ less
      exact absurd less (Nat.not_lt_zero i)
    · intro f _ _ m _
      exact Nat.zero_le _
  have closes : Closes hollow (.ofString "x") 0 e := by
    refine ⟨.ofText "", Match.ofRange 0 0, rfl, found, rfl, rfl, ?_⟩
    intro next nearest
    obtain ⟨f, entry, _, allowed, _⟩ := nearest.entry
    have nothing : hollow.allows e.kind f.kind = false := rfl
    rw [nothing] at allowed
    cases allowed
  have turns : Turns hollow (.ofString "x") (ScanState.emptyTree.setSource (.ofString "x")) :=
    ⟨_, .refl, by decide +kernel, opens.circles closes⟩
  obtain ⟨_, s', ran, rfl⟩ := (yields_loop_of_turns plain (Cursor.sound_ofSource _) turns fuel).fails
  exact ⟨s', ran⟩

end Gloss.Nested
