import Gloss.Proofs.Scan.Nestable

/-!
Requests that are refused. To record a range that ends before it starts, to close a region where none is open, to take a
nestable construct where its opening is not and to leave in the middle of a token that cannot be taken up again are asked
before anything is done, and when they are refused nothing has changed. Leaving at a tag of the server is the exception:
the front of the token is recorded, and the cursor moved, before it is asked whether the rest can be taken up. So it
changes nothing when it is refused only for kinds that have a recovery pattern, for which it is not refused.
-/
namespace Gloss

open Text (Source)

/-- What a scan that can be suspended may refuse. -/
inductive Request where
  | recordRange (start stop : Nat) (kind : Option Kind)
  | pop
  | nestable (kind : Kind) (opening closing : Pattern)
  /-- Leaves in the middle of a token. -/
  | leave (kind : Kind)
  /-- Leaves at the server's tag in a token, if there is one. -/
  | breakOff (e : Embedding) (kind : Kind) (m : Match)

namespace Request

def run (g : Grammar) : Request → SuspendM Unit
  | .recordRange start stop kind => Scan.recordRange start stop kind
  | .pop => do
    let _ ← (Scan.popRegion : ScanM Region)
  | .nestable kind opening closing => Scan.nestable kind opening closing
  | .leave kind => Suspend.leave g kind
  | .breakOff e kind m => do
    let _ ← Suspend.serverBreak g e kind m

/-- Position, output, open regions and suspension are as they were. -/
structure Unchanged (before after : ScanState × Suspension) : Prop where
  pos : after.1.pos = before.1.pos
  tokens : after.1.tokens = before.1.tokens
  outline : after.1.outline = before.1.outline
  regions : after.1.regions = before.1.regions
  suspension : after.2 = before.2

/-- The front of a token is recorded, and the cursor is where it ends. -/
def fronted (s : ScanState) (kind : Kind) (m : Match) (bytes : Nat) : ScanState :=
  (s.record (.raw (some kind) (String.ofList (Text.takeBytes bytes (m.text s.source).toList)))).setPos (m.start + bytes)

/-- What is left of leaving at a tag of the server if the kind of the token has no recovery pattern. -/
inductive BrokenOff (g : Grammar) (s : ScanState) (x : Suspension) : Request → ScanError → ScanState × Suspension → Prop where
  | late {e : Embedding} {kind : Kind} {m : Match} {bytes : Nat} (server : e.server)
      (at_ : Text.indexOf? e.serverTag (m.text s.source) = some bytes) (unknown : g.recovery.get? kind = none) :
      BrokenOff g s x (.breakOff e kind m) (.noRecovery kind) (fronted s kind m bytes, x)

section

variable {g : Grammar} {src : Source} {s : ScanState} {x : Suspension}

theorem Unchanged.self : Unchanged (s, x) (s, x) := ⟨rfl, rfl, rfl, rfl, rfl⟩

theorem yields_leave (kind : Kind) :
    Yields (Suspend.leave g kind) (s, x)
      (fun _ after => after = (s, { interrupted := true, cut := some kind }) ∧ g.recovery.get? kind ≠ none)
      (fun e after => e = .noRecovery kind ∧ g.recovery.get? kind = none ∧ after = (s, x)) := by
  simp only [Suspend.leave, Suspension.leave]
  cases known : g.recovery.get? kind with
  | none => exact ⟨rfl, rfl, rfl⟩
  | some p => exact ⟨rfl, by simp⟩

/-- Leaving at a tag of the server is refused only for kinds that have no recovery pattern, and then too late. -/
theorem yields_breakOff (e : Embedding) (kind : Kind) (m : Match) :
    Yields (Suspend.serverBreak g e kind m) (s, x)
      (fun _ _ => e.server → Text.indexOf? e.serverTag (m.text s.source) ≠ none → g.recovery.get? kind ≠ none)
      (fun error after => BrokenOff g s x (.breakOff e kind m) error after) := by
  simp only [Suspend.serverBreak]
  by_cases server : e.server
  · simp only [server, Bool.not_true, Bool.false_eq_true, if_false]
    refine yields_bind.mpr (yields_lift.mpr (yields_ofCursor.mpr ?_))
    cases at_ : Text.indexOf? e.serverTag (m.text s.cursor.source) with
    | none => exact fun _ missed => absurd at_ missed
    | some bytes =>
      refine yields_bind.mpr (yields_lift.mpr ?_)
      refine yields_bind.mpr (yields_ofCursor.mpr (yields_bind.mpr (yields_modify.mpr (yields_onCursor.mpr ?_))))
      refine yields_bind.mpr ((yields_leave kind).mono ?_ ?_)
      · rintro _ _ ⟨_, known⟩ _ _
        exact known
      · rintro _ _ ⟨rfl, unknown, rfl⟩
        exact .late server at_ unknown
  · simp only [server, Bool.not_false, if_true]
    intro on
    cases on

/-- A request that is refused has changed nothing, unless it broke a token off that cannot be taken up again. A
construct that runs out of steps stands for one whose rounds never end. -/
theorem yields_request (sound : s.cursor.Sound src) (request : Request) :
    Yields (request.run g) (s, x) (fun _ _ => True) fun error after =>
      Unchanged (s, x) after ∨ BrokenOff g s x request error after ∨ error = .outOfSteps "" := by
  cases request with
  | recordRange start stop kind =>
    refine yields_lift.mpr ?_
    simp only [Scan.recordRange]
    split
    · exact .inl .self
    · split <;> exact trivial
  | pop =>
    refine yields_bind.mpr (yields_lift.mpr (yields_bind.mpr (yields_get.mpr ?_)))
    split
    · exact .inl .self
    · exact trivial
  | nestable kind opening closing =>
    refine yields_lift.mpr (yields_nestable sound kind ?_ ?_ ?_)
    · intro c _ _ here
      exact .inl ⟨here, rfl, rfl, rfl, rfl⟩
    · exact fun _ _ _ _ _ _ => trivial
    · exact fun _ _ _ => .inr (.inr rfl)
  | leave kind =>
    refine (yields_leave kind).mono (fun _ _ _ => trivial) ?_
    rintro _ _ ⟨_, _, rfl⟩
    exact .inl .self
  | breakOff e kind m =>
    refine yields_bind.mpr ((yields_breakOff e kind m).mono (fun _ _ _ => trivial) ?_)
    exact fun _ _ broken => .inr (.inl broken)

/-- A request that is refused has changed nothing, if the kind of a token that it breaks off can be taken up again. -/
theorem unchanged_of_refused (sound : s.cursor.Sound src) {request : Request} {error : ScanError}
    {after : ScanState × Suspension} (refused : request.run g (s, x) = .error error after)
    (ends : error ≠ .outOfSteps "")
    (recovers : ∀ e kind m, request = .breakOff e kind m → g.recovery.get? kind ≠ none) : Unchanged (s, x) after := by
  have outcome := yields_request (g := g) (x := x) sound request
  simp only [Yields, refused] at outcome
  rcases outcome with same | broken | endless
  · exact same
  · cases broken with
    | late _ _ unknown => exact absurd unknown (recovers _ _ _ rfl)
  · exact absurd endless ends

/-- For a kind without a recovery pattern the front of the token is recorded, and the cursor moved, when leaving at the
server's tag is refused. -/
theorem breakOff_refused {e : Embedding} {kind : Kind} {m : Match} (server : e.server)
    (holds : Text.indexOf? e.serverTag (m.text s.source) ≠ none) (unknown : g.recovery.get? kind = none) :
    ∃ bytes, Text.indexOf? e.serverTag (m.text s.source) = some bytes ∧
      (breakOff e kind m).run g (s, x) = .error (.noRecovery kind) (fronted s kind m bytes, x) := by
  have outcome := yields_breakOff (g := g) (s := s) (x := x) e kind m
  simp only [Yields] at outcome
  split at outcome
  · exact absurd unknown (outcome server holds)
  · next error after ran =>
    cases outcome with
    | late _ at_ _ =>
      refine ⟨_, at_, ?_⟩
      simp only [run, bind, EStateM.bind, ran]

/-- A string is broken off at a server's tag, in a grammar that cannot take strings up again. -/
example : ∃ after, ((breakOff { server := true } .string (Match.ofRange 0 4)).run (.bare "BARE")
    (({} : ScanState).setSource (Source.ofString "a<?b"), {})) = .error (.noRecovery .string) after ∧
      after.1.pos = 1 ∧ after.1.tokens.toList = [.raw (some .string) "a"] :=
  ⟨_, rfl, rfl, rfl⟩

end

end Request

end Gloss
