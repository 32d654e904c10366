import Gloss.Proofs.Regex.Edges
import Gloss.Proofs.Regex.Everywhere

/-!
Picks of whole lines. A greedy repetition of any character but a line feed runs to the end of the line, and so does
one line more behind others. From the form of an expression it is computed that every pick of it ends at a line end.
-/
namespace Gloss.Regex

open Text (Spot)

/-- The spot is in front of a line feed or at the end of the text. -/
def AtLineEnd (s : Spot) : Prop := s.rest = [] ∨ s.rest.head? = some '\n'

/-- Is every character but the line feed in the set that the expression stands for? -/
def holdsLine : Regex → Bool
  | .set members => members.allBut ['\n']
  | _ => false

mutual

/-- Does every pick end at a line end, for all that the expression shows? -/
def fillsLine : Regex → Bool
  | .look a => a == .textEnd || a == .lineEnd
  | .group _ body => body.fillsLine
  | .times _ hi greedy body => hi.isNone && greedy && body.holdsLine
  | .seq a b => b.fillsLine || (a.fillsLine && b.addsLines)
  | .alt a b => a.fillsLine && b.fillsLine
  | _ => false

/-- Does every pick that begins at a line end also end at one, for all that the expression shows? -/
def addsLines : Regex → Bool
  | .times lo _ _ body => lo == 0 && body.fillsLine
  | _ => false

end

theorem skippable_of_addsLines {r : Regex} (adds : r.addsLines) : r.skippable := by
  cases r <;> simp_all [addsLines, skippable]

/-- Rounds that each end at a line end end at one. -/
theorem Cycles.atLineEnd {body : Regex} {greedy : Bool} {after : Spot → Prop} {hi : Option Nat} {s t : Spot}
    {m mt : Marks} (everywhere : ∀ u, after u)
    (each : ∀ (after : Spot → Prop) (s t : Spot) (m mt : Marks), (∀ u, after u) → body.Picks after s m t mt → AtLineEnd t)
    (begins : AtLineEnd s) (h : Cycles body.Matches body.Picks greedy after 0 hi s m t mt) : AtLineEnd t := by
  generalize eq : 0 = lo at h
  induction h with
  | must => omega
  | @more hi s u t m mu mt _ _ first _ ih =>
    refine ih ?_ rfl
    exact each _ s u m mu (fun v => ⟨[], v, [], Repeats.none v [], everywhere v⟩) first
  | leave => exact begins

theorem Picks.atLineEnd_and {r : Regex} {after : Spot → Prop} {s t : Spot} {m mt : Marks} (everywhere : ∀ u, after u)
    (h : r.Picks after s m t mt) :
    (r.fillsLine → AtLineEnd t) ∧ (r.addsLines → AtLineEnd s → AtLineEnd t) := by
  induction r generalizing after s m t mt with
  | empty => exact ⟨fun fills => (by cases fills), fun adds => (by cases adds)⟩
  | text => exact ⟨fun fills => (by cases fills), fun adds => (by cases adds)⟩
  | set => exact ⟨fun fills => (by cases fills), fun adds => (by cases adds)⟩
  | look a =>
    obtain ⟨holds, rfl, _⟩ := h
    refine ⟨fun fills => ?_, fun adds => (by cases adds)⟩
    simp only [fillsLine, Bool.or_eq_true, beq_iff_eq] at fills
    rcases fills with rfl | rfl
    · exact .inl (by simpa [Assertion.holds] using holds)
    · simpa [Assertion.holds, AtLineEnd] using holds
  | group i body ih =>
    obtain ⟨inner, picked, _⟩ := h
    exact ⟨fun fills => (ih everywhere picked).1 fills, fun adds => (by cases adds)⟩
  | times lo hi greedy body ih =>
    constructor
    · intro fills
      simp only [fillsLine, Bool.and_eq_true, Option.isNone_iff_eq_none] at fills
      obtain ⟨⟨rfl, rfl⟩, holds⟩ := fills
      cases body with
      | set members =>
        -- The repetition stops in front of no character of the line.
        cases rest : t.rest with
        | nil => exact .inl rest
        | cons c more =>
          by_cases newline : c = '\n'
          · exact .inr (by rw [rest, newline]; rfl)
          · have mem := CharSet.mem_of_allBut holds (c := c) (by simpa using newline)
            have swallows : (Regex.times lo none true (.set members)).swallows c := mem
            exact absurd (by rw [rest]; rfl) (Picks.swallows swallows everywhere h)
      | _ => cases holds
    · intro adds begins
      simp only [addsLines, Bool.and_eq_true, beq_iff_eq] at adds
      obtain ⟨rfl, fills⟩ := adds
      exact Cycles.atLineEnd everywhere (fun _ _ _ _ _ open_ picked => (ih open_ picked).1 fills) begins h
  | seq a b ihA ihB =>
    obtain ⟨u, mu, first, second⟩ := h
    refine ⟨fun fills => ?_, fun adds => (by cases adds)⟩
    simp only [fillsLine, Bool.or_eq_true, Bool.and_eq_true] at fills
    rcases fills with fills | ⟨fills, adds⟩
    · exact (ihB everywhere second).1 fills
    · have open_ := fun v => leadsTo_of_skippable (skippable_of_addsLines adds) everywhere v
      exact (ihB everywhere second).2 adds ((ihA open_ first).1 fills)
  | alt a b ihA ihB =>
    refine ⟨fun fills => ?_, fun adds => (by cases adds)⟩
    simp only [fillsLine, Bool.and_eq_true] at fills
    rcases h with first | ⟨_, second⟩
    · exact (ihA everywhere first).1 fills.1
    · exact (ihB everywhere second).1 fills.2

theorem Picks.atLineEnd {r : Regex} {after : Spot → Prop} {s t : Spot} {m mt : Marks} (fills : r.fillsLine)
    (everywhere : ∀ u, after u) (h : r.Picks after s m t mt) : AtLineEnd t :=
  (h.atLineEnd_and everywhere).1 fills

end Gloss.Regex
