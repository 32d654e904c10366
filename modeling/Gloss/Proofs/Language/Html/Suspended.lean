import Gloss.Proofs.Language.Html.Runs
import Gloss.Proofs.Language.Renewed

/-!
What a scanner for HTML leaves in the middle. It remembers in three places what it has to go on with behind the server's
part: a token that was cut, the child for scripts and the child for styles. As long as its host only goes on behind the
place where it was interrupted, at most one of them is left, and it is the first that is taken up.
-/
namespace Gloss.Language.Html

open Scanner (emptied)
open Text (Source)

/-- What can be left in the middle. -/
inductive Construct where
  | token (kind : Kind)
  | script
  | style
  deriving DecidableEq

/-- What is left in the middle: a token that was cut, and the children that are to go on. -/
def HtmlScanner.suspended (x : HtmlScanner) : List Construct :=
  (x.suspension.cut.map .token).toList ++ (x.script.resumeAt.map fun _ => .script).toList ++
    (x.style.resumeAt.map fun _ => .style).toList

/-- Records the rest of a token that was cut, up to the server's next tag. Returns whether the scan goes on. -/
def recordCut (x : HtmlScanner) (kind : Kind) (m : Match) : HtmlM Bool := do
  if ← Suspend.serverBreak x.grammar x.embedding kind m then return false
  if !m.span.isEmpty then Scan.recordMatch (some kind) m
  return true

/-- Takes a construct up. Returns whether the scan goes on. -/
def takeUp : Construct → HtmlM Bool
  | .token kind => do
    let x ← get
    Suspend.setSuspension {}
    match x.grammar.recovery.get? kind with
    | none => throw (.noRecovery kind)
    | some p =>
      match ← (Scan.scan p : ScanM _) with
      | none => throw (.recoveryFailed kind x.state.pos)
      | some m => recordCut x kind m
  | .script => do
    toScript
    return true
  | .style => do
    toStyle
    return true

/-- The offsets at which the children were interrupted. -/
def marks (x : HtmlScanner) : Option Nat × Option Nat := (x.script.resumeAt, x.style.resumeAt)

section Marks

/-- Whatever is done to the state of the scan, the children are not touched. -/
theorem marks_suspended {α : Type} (m : SuspendM α) : Preserves marks (liftM m : HtmlM α) := by
  have any : Preserves (fun _ => ()) m := by
    intro s
    unfold Yields
    split <;> rfl
  exact any.zoom fun _ _ _ => rfl

theorem marks_lift {α : Type} (m : ScanM α) : Preserves marks (liftM m : HtmlM α) := marks_suspended (Suspend.lift m)

/-- Other flags are set. -/
theorem marks_then {α : Type} {f : HtmlScanner → HtmlScanner} {a : α} (same : ∀ x, marks (f x) = marks x) :
    Preserves marks (do modify f; return a : HtmlM α) :=
  Preserves.bind (preserves_modify same) fun _ => preserves_pure a

theorem marks_recordCut (x : HtmlScanner) (kind : Kind) (m : Match) : Preserves marks (recordCut x kind m) := by
  refine (marks_suspended _).bind fun broken => ?_
  split
  · exact preserves_pure _
  · split
    · exact (marks_lift _).bind fun _ => preserves_pure _
    · exact preserves_pure _

theorem marks_atServer : Preserves marks atServer := by
  refine preserves_get.bind fun x => ?_
  split
  · exact (marks_lift _).bind fun _ => preserves_pure _
  · exact preserves_pure _

theorem marks_opening : Preserves marks opening := by
  refine preserves_get.bind fun x => ?_
  split
  · refine (marks_lift _).bind fun found => ?_
    split
    · exact (marks_lift _).bind fun _ => (marks_lift _).bind fun _ => (marks_lift _).bind fun _ =>
        (marks_lift _).bind fun _ => marks_then fun _ => rfl
    · exact marks_lift _
  · exact Preserves.bind (preserves_modify fun _ => rfl) fun _ => (marks_lift _).bind fun _ => preserves_pure _

theorem marks_nameToken : Preserves marks nameToken := by
  refine (marks_lift _).bind fun found => ?_
  split
  · exact (marks_lift _).bind fun _ => preserves_pure _
  · refine preserves_get.bind fun x => ?_
    split
    · exact (marks_lift _).bind fun _ => marks_then fun _ => rfl
    · exact marks_then fun _ => rfl
    · exact preserves_pure _

theorem marks_approach : Preserves marks approach := by
  have leave : Preserves marks (do interrupt; return false : HtmlM Bool) :=
    marks_then fun _ => rfl
  refine preserves_get.bind fun x => ?_
  split
  · refine (marks_lift _).bind fun _ => (marks_lift _).bind fun ended => ?_
    split
    · exact preserves_pure _
    · refine marks_atServer.bind fun server => ?_
      split
      · exact leave
      · exact preserves_pure _
  · refine (marks_lift _).bind fun _ => preserves_get.bind fun _ => (marks_lift _).bind fun found => ?_
    split
    · exact (marks_lift _).bind fun _ => preserves_pure _
    · refine (marks_lift _).bind fun _ => (marks_lift _).bind fun _ => ?_
      split
      · exact leave
      · exact preserves_pure _

end Marks

variable {e : Embedding} {src : Source} {start : Origin} {pos : Nat} {x y : HtmlScanner} {behind : Option Nat}

/-- What an operation leaves of the children: they are as they were, or the body of a script or a style was handed to
its child, and then it says so. -/
def Settled {α : Type} (e : Embedding) (src : Source) (x : HtmlScanner) (said : α) (a : α) (y : HtmlScanner) : Prop :=
  marks y = marks x ∨ a = said ∧ Handed e src x y

theorem settled_of_marks {α : Type} {said : α} {m : HtmlM α} (same : Preserves marks m) :
    Yields m x (Settled e src x said) fun _ _ => True :=
  (same x).mono (fun _ _ => .inl) fun _ _ _ => trivial

theorem Stands.settled_inside (h : Stands e src start pos x) (c : Char) :
    Yields (Html.inside c) x (Settled e src x .done) fun _ _ => True := by
  simp only [Html.inside]
  split
  · refine yields_bind.mpr (h.closing ?_)
    intro y _ handed
    exact .inr ⟨rfl, handed⟩
  · apply settled_of_marks
    refine (marks_lift _).bind fun found => ?_
    split
    · exact marks_then fun _ => rfl
    · split
      · exact Preserves.bind (preserves_modify fun _ => rfl) fun _ => marks_lift _
      · exact Preserves.bind (preserves_modify fun _ => rfl) fun _ => marks_lift _
      · exact Preserves.bind (preserves_modify fun _ => rfl) fun _ => (marks_lift _).bind fun _ => preserves_pure _
      · split
        · exact marks_nameToken
        · refine (marks_lift _).bind fun _ => ?_
          split
          · exact marks_nameToken
          · exact (marks_lift _).bind fun _ => preserves_pure _

theorem Stands.settled (h : Stands e src start pos x) : Yields Html.next x (Settled e src x .done) fun _ _ => True := by
  simp only [Html.next]
  refine yields_bind.mpr (yields_state.mpr (yields_ofCursor.mpr ?_))
  refine yields_bind.mpr (yields_get.mpr ?_)
  split
  · exact h.settled_inside _
  · split
    · exact settled_of_marks (marks_lift _)
    · split
      · exact settled_of_marks marks_opening
      · exact h.settled_inside _

theorem Handed.congr {x' : HtmlScanner} (h : Handed e src x y) (same : marks x = marks x') : Handed e src x' y := by
  obtain ⟨script_, style_⟩ := Prod.mk.inj same
  cases h with
  | neither script style => exact .neither (script.trans script_) (style.trans style_)
  | script halts style => exact .script halts (style.trans style_)
  | style script halts => exact .style (script.trans script_) halts

/-- The next token hands to one child at most, and then the scan goes on. -/
theorem settled_stepToken (keeps : Keeps e src start x.state.pos x) (idle : x.suspension = {}) :
    Yields stepToken x (Settled e src x true) fun _ _ => True := by
  simp only [stepToken]
  have approached : Yields approach x (fun there y => there = true → Stands e src start y.state.pos y)
      fun _ _ => False :=
    yields_approach keeps idle (fun y stands _ _ => stands) fun y _ _ _ no => by cases no
  have both : Yields approach x _ fun _ _ => True := approached.and (marks_approach x)
  refine yields_bind.mpr (both.mono ?_ fun _ _ _ => trivial)
  rintro there y ⟨stands, same⟩
  split
  · exact .inl same
  · next going =>
    refine yields_bind.mpr (yields_state.mpr (yields_ofCursor.mpr ?_))
    refine yields_bind.mpr (yields_state.mpr (yields_bind.mpr (yields_get.mpr (yields_pure.mpr ?_))))
    refine yields_bind.mpr ((stands (by simpa using going)).settled.mono ?_ fun _ _ _ => trivial)
    intro f z settled
    cases f with
    | done =>
      rcases settled with same' | ⟨_, handed⟩
      · exact .inl (same'.trans same)
      · exact .inr ⟨rfl, handed.congr same⟩
    | token kind m =>
      have same' : marks z = marks x := (settled.resolve_right fun no => by cases no.1).trans same
      have record : Preserves marks (do
          Scan.recordMatch kind m
          Scan.ensureProgress z.grammar.name y.state.pos y.state.depth
          return true : HtmlM Bool) := (marks_lift _).bind fun _ => (marks_lift _).bind fun _ => preserves_pure _
      refine yields_bind.mpr (yields_get.mpr ?_)
      cases kind with
      | none => exact (record z).mono (fun _ _ kept => .inl (kept.trans same')) fun _ _ _ => trivial
      | some kind =>
        refine yields_bind.mpr ((marks_suspended _ z).mono ?_ fun _ _ _ => trivial)
        intro broken w kept
        have same'' : marks w = marks x := kept.trans same'
        split
        · exact .inl same''
        · exact (record w).mono (fun _ _ kept => .inl (kept.trans same'')) fun _ _ _ => trivial

/-- What is left in the middle was left here, at the server's tag, and it is one construct at most. -/
structure Halted (e : Embedding) (src : Source) (x : HtmlScanner) : Prop where
  sole : x.suspended.length ≤ 1
  tag : x.suspended ≠ [] → e.server ∧ src.At "<?" x.state.pos
  passed : ∀ at_, x.script.resumeAt = some at_ ∨ x.style.resumeAt = some at_ → at_ ≤ x.state.pos

/-- One construct at most is left in the middle. The scanner stands behind the place where a child was interrupted, or
still there, at the server's tag. -/
structure Ready (e : Embedding) (src : Source) (x : HtmlScanner) : Prop where
  sole : x.suspended.length ≤ 1
  passed : ∀ at_, x.script.resumeAt = some at_ ∨ x.style.resumeAt = some at_ →
    at_ < x.state.pos ∨ at_ = x.state.pos ∧ e.server ∧ src.At "<?" x.state.pos

theorem suspended_eq_nil_iff : x.suspended = [] ↔
    x.suspension.cut = none ∧ x.script.resumeAt = none ∧ x.style.resumeAt = none := by
  cases cut : x.suspension.cut <;> cases script : x.script.resumeAt <;> cases style : x.style.resumeAt <;>
    simp [HtmlScanner.suspended, cut, script, style]

theorem Halted.ready (h : Halted e src x) : Ready e src x := by
  refine ⟨h.sole, fun at_ left => ?_⟩
  rcases Nat.lt_or_eq_of_le (h.passed at_ left) with less | here
  · exact .inl less
  · refine .inr ⟨here, h.tag fun none_ => ?_⟩
    obtain ⟨_, script, style⟩ := suspended_eq_nil_iff.mp none_
    rw [script, style] at left
    rcases left with no | no <;> cases no

/-- A token that was cut is the only one that is left in the middle. -/
theorem Ready.marks_of_cut (h : Ready e src x) {kind : Kind} (cut : x.suspension.cut = some kind) :
    marks x = (none, none) := by
  have sole := h.sole
  unfold HtmlScanner.suspended at sole
  unfold marks
  cases script : x.script.resumeAt <;> cases style : x.style.resumeAt <;> simp_all

theorem Ready.whole_of_marks (h : Ready e src x) (some_ : marks x ≠ (none, none)) : x.suspension.cut = none := by
  cases cut : x.suspension.cut with
  | none => rfl
  | some kind => exact absurd (h.marks_of_cut cut) some_

theorem Ready.script_of_style (h : Ready e src x) {at_ : Nat} (style : x.style.resumeAt = some at_) :
    x.script.resumeAt = none := by
  have sole := h.sole
  unfold HtmlScanner.suspended at sole
  cases script : x.script.resumeAt <;> simp_all

theorem Ready.style_of_script (h : Ready e src x) {at_ : Nat} (script : x.script.resumeAt = some at_) :
    x.style.resumeAt = none := by
  have sole := h.sole
  unfold HtmlScanner.suspended at sole
  cases style : x.style.resumeAt <;> simp_all

/-- Away from the server's tag, a child that was interrupted is due. -/
theorem Ready.due (h : Ready e src x) (away : e.server → ¬ src.At "<?" x.state.pos) {at_ : Nat}
    (left : x.script.resumeAt = some at_ ∨ x.style.resumeAt = some at_) : at_ < x.state.pos :=
  (h.passed at_ left).resolve_right fun no => away no.2.1 no.2.2

/-- One child at most is left to go on, and it was interrupted here. -/
def Lone (e : Embedding) (src : Source) (y : HtmlScanner) : Prop :=
  HaltsAt e src y.state.pos y.script.resumeAt ∧ y.style.resumeAt = none ∨
    y.script.resumeAt = none ∧ HaltsAt e src y.state.pos y.style.resumeAt

theorem haltsAt_none : HaltsAt e src pos none := fun _ no => by cases no

theorem Handed.lone (h : Handed e src x y) (free : marks x = (none, none)) : Lone e src y := by
  obtain ⟨script_, style_⟩ := Prod.mk.inj free
  cases h with
  | neither script style => exact .inl ⟨by rw [script, script_]; exact haltsAt_none, style.trans style_⟩
  | script halts style => exact .inl ⟨halts, style.trans style_⟩
  | style script halts => exact .inr ⟨script.trans script_, halts⟩

theorem isDue_iff {σ : Type} {c : Child σ} : c.isDue pos ↔ ∃ at_, c.resumeAt = some at_ ∧ at_ < pos := by
  simp [Child.isDue, Option.any_eq_true]

/-- Away from the server's tag no child is left to go on, if none is due. -/
theorem Ready.free (h : Ready e src x) (away : e.server → ¬ src.At "<?" x.state.pos)
    (script : ¬ x.script.isDue x.state.pos) (style : ¬ x.style.isDue x.state.pos) : marks x = (none, none) := by
  have noScript : x.script.resumeAt = none := by
    cases left : x.script.resumeAt with
    | none => rfl
    | some at_ => exact absurd (isDue_iff.mpr ⟨at_, left, h.due away (.inl left)⟩) script
  have noStyle : x.style.resumeAt = none := by
    cases left : x.style.resumeAt with
    | none => rfl
    | some at_ => exact absurd (isDue_iff.mpr ⟨at_, left, h.due away (.inr left)⟩) style
  rw [marks, noScript, noStyle]

/-- How a step leaves the children: at the server's tag as they were, and else one is left at most. -/
inductive StepLeaves (e : Embedding) (src : Source) (x : HtmlScanner) : Bool → HtmlScanner → Prop where
  | server {y : HtmlScanner} (on : e.server) (tag : src.At "<?" x.state.pos) (here : y.state.pos = x.state.pos)
      (same : marks y = marks x) (suspension : y.suspension = { x.suspension with interrupted := true }) :
      StepLeaves e src x false y
  | free {r : Bool} {y : HtmlScanner} (none_ : marks y = (none, none)) : StepLeaves e src x r y
  | child {y : HtmlScanner} (lone : Lone e src y) : StepLeaves e src x true y

theorem yields_step_leaves (keeps : Keeps e src start x.state.pos x) (quiet : x.suspension.interrupted = false)
    (known : ∀ k, x.suspension.cut = some k → (recoveries.get? k).isSome) (ready : Ready e src x) :
    Yields step x (StepLeaves e src x) fun _ _ => True := by
  simp only [step]
  refine yields_bind.mpr (keeps.atServer ?_ ?_)
  · intro c _ here on tag
    exact .server on tag here rfl rfl
  · intro c sound here away
    have here' : ({ x.state with cursor := c } : ScanState).pos = x.state.pos := here
    have keepsC : Keeps e src start ({ x.state with cursor := c } : ScanState).pos
        { x with state := { x.state with cursor := c } } := by
      rw [here']
      exact keeps.sameState (keeps.recorded.withCursor sound)
    simp only [Bool.false_eq_true, if_false]
    refine yields_bind.mpr (yields_get.mpr ?_)
    refine yields_bind.mpr (yields_suspended.mpr (Suspend.yields_resume sound (keeps.resumable known) ?_ ?_))
    · intro whole
      have idle : ({ x with state := { x.state with cursor := c } } : HtmlScanner).suspension = {} := by
        cases eq : x.suspension
        simp_all
      refine yields_bind.mpr (yields_state.mpr (yields_ofCursor.mpr ?_))
      split
      · next due =>
        obtain ⟨at_, left, _⟩ := isDue_iff.mp due
        refine yields_bind.mpr (keepsC.toScript ?_)
        intro y _ _ _ others halts
        exact .child (.inl ⟨halts, others.trans (ready.style_of_script left)⟩)
      · next notScript =>
        split
        · next due =>
          obtain ⟨at_, left, _⟩ := isDue_iff.mp due
          refine yields_bind.mpr (keepsC.toStyle ?_)
          intro y _ _ _ others halts
          exact .child (.inr ⟨others.trans (ready.script_of_style left), halts⟩)
        · next notStyle =>
          have free := ready.free away (by rw [← here]; exact notScript) (by rw [← here]; exact notStyle)
          refine (settled_stepToken keepsC idle).mono ?_ fun _ _ _ => trivial
          intro r y settled
          rcases settled with same | ⟨rfl, handed⟩
          · exact .free (same.trans free)
          · exact .child (handed.lone free)
    · intro kind p m d a b _ cut _ _ _ _ _
      -- No child is left beside a token that was cut, and recording the token starts none.
      refine (marks_recordCut x kind m _).mono ?_ fun _ _ _ => trivial
      intro r y same
      exact .free (same.trans (ready.marks_of_cut cut))

theorem Halted.of_free (free : marks y = (none, none))
    (tag : y.suspension.cut ≠ none → e.server ∧ src.At "<?" y.state.pos) : Halted e src y := by
  obtain ⟨script, style⟩ := Prod.mk.inj free
  refine ⟨?_, fun some_ => tag fun none_ => some_ (suspended_eq_nil_iff.mpr ⟨none_, script, style⟩), ?_⟩
  · unfold HtmlScanner.suspended
    cases y.suspension.cut <;> simp [script, style]
  · intro at_ left
    rw [script, style] at left
    rcases left with no | no <;> cases no

theorem Halted.of_lone (lone : Lone e src y) (whole : y.suspension.cut = none) : Halted e src y := by
  have halts : ∀ at_, y.script.resumeAt = some at_ ∨ y.style.resumeAt = some at_ →
      at_ = y.state.pos ∧ e.server ∧ src.At "<?" y.state.pos := by
    intro at_ left
    rcases lone with ⟨halts, other⟩ | ⟨other, halts⟩
    · exact halts at_ (left.resolve_right fun no => by rw [other] at no; cases no)
    · exact halts at_ (left.resolve_left fun no => by rw [other] at no; cases no)
  refine ⟨?_, ?_, fun at_ left => Nat.le_of_eq (halts at_ left).1⟩
  · unfold HtmlScanner.suspended
    rcases lone with ⟨_, other⟩ | ⟨other, _⟩
    · cases y.script.resumeAt <;> simp [whole, other]
    · cases y.style.resumeAt <;> simp [whole, other]
  · intro some_
    cases script : y.script.resumeAt with
    | some at_ => exact (halts at_ (.inl script)).2
    | none =>
      cases style : y.style.resumeAt with
      | some at_ => exact (halts at_ (.inr style)).2
      | none => exact absurd (suspended_eq_nil_iff.mpr ⟨whole, script, style⟩) some_

/-- A step leaves at most one construct in the middle. -/
theorem halted_step (keeps : Keeps e src start x.state.pos x) (quiet : x.suspension.interrupted = false)
    (known : ∀ k, x.suspension.cut = some k → (recoveries.get? k).isSome) (ready : Ready e src x) :
    Yields step x (fun _ y => Halted e src y) fun _ _ => True := by
  have advanced : Yields step x (Advanced e src start x) fun _ _ => False := yields_step keeps quiet known
  have both : Yields step x _ fun _ _ => True := advanced.and (yields_step_leaves keeps quiet known ready)
  refine both.mono ?_ fun _ _ failed => failed
  rintro r y ⟨advanced, leaves⟩
  cases leaves with
  | server on tag here same suspension =>
    obtain ⟨script, style⟩ := Prod.mk.inj same
    have same : y.suspended = x.suspended := by simp only [HtmlScanner.suspended, script, style, suspension]
    refine ⟨by rw [same]; exact ready.sole, fun _ => by rw [here]; exact ⟨on, tag⟩, ?_⟩
    intro at_ left
    rw [script, style] at left
    rw [here]
    rcases ready.passed at_ left with less | ⟨same, _⟩
    · exact Nat.le_of_lt less
    · exact Nat.le_of_eq same
  | free none_ =>
    -- A token is cut only where the scan was interrupted, and that is at the server's tag.
    refine .of_free none_ fun cut => ?_
    cases advanced with
    | more _ idle _ _ => exact absurd (by rw [idle]) cut
    | left leaves _ whole =>
      refine leaves.server ?_
      cases interrupted : y.suspension.interrupted with
      | true => rfl
      | false => exact absurd (whole interrupted) cut
  | child lone =>
    cases advanced with
    | more _ idle _ _ => exact .of_lone lone (by rw [idle])

/-- A run that is begun where nothing is in the way of what was left in the middle leaves one construct at most; a run
that is begun at the end of the source changes nothing. -/
theorem yields_main_ready (able : Able e src x) (ready : Ready e src x) :
    Yields main x (fun _ y => Leaves e src ⟨x.state.pos, x.state.tokens.latest⟩ y ∧
      (y = { x with suspension := { x.suspension with interrupted := false } } ∨ Halted e src y)) fun _ _ => False := by
  refine yields_main able ?_ (.inl rfl)
  intro z keeps quiet known _ kept
  have readyZ : Ready e src z := by
    rcases kept with rfl | halted
    · exact ⟨ready.sole, ready.passed⟩
    · exact halted.ready
  exact (halted_step keeps quiet known readyZ).mono (fun _ _ => .inr) fun _ _ failed => failed

section TakingUp

theorem run_suspended {α : Type} {m : SuspendM α} {a : α} {s : ScanState} {u : Suspension}
    (ran : m (x.state, x.suspension) = .ok a (s, u)) :
    (liftM m : HtmlM α) x = .ok a { x with state := s, suspension := u } := by
  show zoom _ _ m x = _
  simp only [zoom, ran]

theorem run_state {α : Type} {m : ScanM α} {a : α} {s : ScanState} (ran : m x.state = .ok a s) :
    (liftM m : HtmlM α) x = .ok a { x with state := s } := by
  show zoom _ _ (Suspend.lift m) x = _
  simp only [zoom, Suspend.lift, ran]

theorem run_resume {g : Grammar} {s s' : ScanState} {u : Suspension} {kind : Kind} {p : Pattern} {m : Match}
    (cut : u.cut = some kind) (known : g.recovery.get? kind = some p) (scanned : Scan.scan p s = .ok (some m) s') :
    Suspend.resume g (s, u) = .ok (some (kind, m)) (s', {}) := by
  have lifted : (liftM (Scan.scan p) : SuspendM _) (s, {}) = .ok (some m) (s', {}) := by
    show Suspend.lift (Scan.scan p) _ = _
    simp only [Suspend.lift, scanned]
  have here : (liftM Scan.pos : SuspendM _) (s, {}) = .ok s.pos (s, {}) := rfl
  have found : Suspend.suspension (s, u) = .ok u (s, u) := rfl
  have set_ : Suspend.setSuspension {} (s, u) = .ok ⟨⟩ (s, {}) := rfl
  simp only [Suspend.resume, bind, EStateM.bind, found, cut, set_, here, known, lifted]
  rfl

theorem run_resume_none {g : Grammar} {s : ScanState} {u : Suspension} (whole : u.cut = none) :
    Suspend.resume g (s, u) = .ok none (s, u) := by
  have found : Suspend.suspension (s, u) = .ok u (s, u) := rfl
  simp only [Suspend.resume, bind, EStateM.bind, found, whole]
  rfl

/-- What a step does when it finds no tag of the server. -/
theorem step_away {y : HtmlScanner} (asked : atServer x = .ok false y) {r : Option (Kind × Match)}
    {s : ScanState} {u : Suspension} (resumed : Suspend.resume y.grammar (y.state, y.suspension) = .ok r (s, u)) :
    step x = (match r with
      | some (kind, m) => recordCut y kind m
      | none => do
        let pos ← Scan.pos
        if y.script.isDue pos then
          toScript
          return true
        else if y.style.isDue pos then
          toStyle
          return true
        else stepToken : HtmlM Bool) { y with state := s, suspension := u } := by
  have found : (get : HtmlM HtmlScanner) y = .ok y y := rfl
  simp only [step, bind, EStateM.bind, asked, Bool.false_eq_true, if_false, found, run_suspended resumed]
  cases r <;> rfl

/-- A token is taken up as far as the pattern of its kind finds it. -/
theorem takeUp_token {kind : Kind} {p : Pattern} {m : Match} {s : ScanState}
    (known : x.grammar.recovery.get? kind = some p) (scanned : Scan.scan p x.state = .ok (some m) s) :
    takeUp (.token kind) x = recordCut x kind m { x with state := s, suspension := {} } := by
  have found : (get : HtmlM HtmlScanner) x = .ok x x := rfl
  have cleared : (liftM (Suspend.setSuspension {}) : HtmlM PUnit) x = .ok ⟨⟩ { x with suspension := {} } :=
    run_suspended rfl
  have taken : (liftM (Scan.scan p) : HtmlM (Option Match)) { x with suspension := {} } =
      .ok (some m) { x with state := s, suspension := {} } := run_state scanned
  simp only [takeUp, bind, EStateM.bind, found, cleared, known, taken]

/-- What was left in the middle is what a step away from the server's tag takes up. -/
theorem step_takeUp (keeps : Keeps e src start x.state.pos x)
    (known : ∀ k, x.suspension.cut = some k → (recoveries.get? k).isSome) (ready : Ready e src x)
    (away : ¬ src.At "<?" x.state.pos) {c : Construct} (left : c ∈ x.suspended) :
    ∃ cursor : Cursor, cursor.Sound src ∧ cursor.pos = x.state.pos ∧
      step x = takeUp c { x with state := { x.state with cursor } } := by
  have asked : Yields atServer x (fun yes y => yes = false ∧ ∃ cursor : Cursor, cursor.Sound src ∧
      cursor.pos = x.state.pos ∧ y = { x with state := { x.state with cursor } }) fun _ _ => False :=
    keeps.atServer (fun _ _ _ _ tag => absurd tag away) fun cursor sound here _ => ⟨rfl, cursor, sound, here, rfl⟩
  obtain ⟨_, _, ran, rfl, cursor, sound, here, rfl⟩ := asked.succeeds
  refine ⟨cursor, sound, here, ?_⟩
  have due : ∀ at_, x.script.resumeAt = some at_ ∨ x.style.resumeAt = some at_ → at_ < cursor.pos := by
    intro at_ left
    rw [here]
    exact ready.due (fun _ => away) left
  cases c with
  | token kind =>
    have cut : x.suspension.cut = some kind := by simpa [HtmlScanner.suspended] using left
    obtain ⟨p, found, starts⟩ := keeps.resumable known kind cut
    have scans : Yields (Scan.scan p) { x.state with cursor } (fun r _ => r.isSome) fun _ _ => False := by
      refine yields_scan sound p ?_ fun _ _ _ _ _ _ _ _ _ => rfl
      intro c _ _ absent
      obtain ⟨u, inside, pos, _⟩ := sound.spot
      exact absurd (starts u) (absent u inside pos)
    obtain ⟨r, s, scanned, some_⟩ := scans.succeeds
    obtain ⟨m, rfl⟩ := Option.isSome_iff_exists.mp some_
    rw [step_away ran (run_resume cut found scanned)]
    exact (takeUp_token (x := { x with state := { x.state with cursor } }) found scanned).symm
  | script =>
    obtain ⟨at_, left⟩ : ∃ at_, x.script.resumeAt = some at_ := by simpa [HtmlScanner.suspended] using left
    have whole := ready.whole_of_marks (by simp [marks, left])
    have isDue : x.script.isDue cursor.pos := isDue_iff.mpr ⟨at_, left, due at_ (.inl left)⟩
    rw [step_away ran (run_resume_none whole)]
    show (if x.script.isDue cursor.pos then takeUp .script else _ : HtmlM Bool) _ = _
    rw [if_pos isDue]
  | style =>
    obtain ⟨at_, left⟩ : ∃ at_, x.style.resumeAt = some at_ := by simpa [HtmlScanner.suspended] using left
    have whole := ready.whole_of_marks (by simp [marks, left])
    have isDue : x.style.isDue cursor.pos := isDue_iff.mpr ⟨at_, left, due at_ (.inr left)⟩
    have notScript : ¬ x.script.isDue cursor.pos := by
      rw [isDue_iff, ready.script_of_style left]
      rintro ⟨_, no, _⟩
      cases no
    rw [step_away ran (run_resume_none whole)]
    show (if x.script.isDue cursor.pos then _ else
      if x.style.isDue cursor.pos then takeUp .style else _ : HtmlM Bool) _ = _
    rw [if_neg notScript, if_pos isDue]

/-- Before the end of the source, steps begin with a step. -/
theorem loop_step {m : HtmlM Bool} {fuel : Nat} (before : Scan.atEnd x.state = .ok false x.state)
    (stepped : step x = m y) : loop (fuel + 1) x = (do if ← m then loop fuel : HtmlM Unit) y := by
  have asked : (liftM Scan.atEnd : HtmlM Bool) x = .ok false x := run_state before
  simp only [loop, bind, EStateM.bind, asked, Bool.not_false, if_true, stepped]

end TakingUp

/-- The scanner stands before the end of its source and not at the server's tag: its next run reads on from here. -/
def HtmlScanner.ReadsOn (x : HtmlScanner) : Prop :=
  x.state.pos < x.state.source.size ∧ ¬ x.state.source.At "<?" x.state.pos

/-- What a run does with what was left in the middle. It leaves something only at the server's tag; a run that does not
read on keeps what there is, and one that does takes it up before all else. -/
structure Run (x y : HtmlScanner) : Prop where
  tag : y.suspended ≠ [] → y.state.pos ≠ y.state.source.size → y.state.source.At "<?" y.state.pos
  keeps : ¬ x.ReadsOn → y.suspended = x.suspended ∧ y.state.tokens = x.state.tokens ∧ y.state.pos = x.state.pos
  resumes : x.ReadsOn → ∀ c ∈ x.suspended, ∃ (cursor : Cursor) (fuel : Nat),
    cursor.source = x.state.source ∧ cursor.pos = x.state.pos ∧
      main x = (do if ← takeUp c then loop fuel : HtmlM Unit)
        { x with
          state := { x.state with cursor }
          suspension := { x.suspension with interrupted := false } }

theorem budget_pos (s : ScanState) : ∃ fuel, Flat.budget s = fuel + 1 :=
  Nat.exists_eq_add_one.mpr (by simp only [Flat.budget]; omega)

section Runs

variable (able : Able e src x)

include able

theorem Able.source_eq : x.state.source = src := able.sane.sound.source

/-- A run that does not read on keeps what was left in the middle. -/
theorem Able.stays (on : e.server) (stays : ¬ x.ReadsOn) {y : HtmlScanner} (ran : main x = .ok () y) :
    y.suspended = x.suspended ∧ y.state.tokens = x.state.tokens ∧ y.state.pos = x.state.pos := by
  have run : Yields main x (fun _ y => y.suspended = x.suspended ∧ y.state.tokens = x.state.tokens ∧
      y.state.pos = x.state.pos) fun _ _ => True := by
    simp only [Html.main]
    refine yields_bind.mpr (yields_modify.mpr (yields_bind.mpr (yields_get.mpr ?_)))
    obtain ⟨fuel, budget⟩ := budget_pos x.state
    show Yields (loop (Flat.budget x.state)) _ _ _
    rw [budget]
    simp only [loop]
    refine yields_bind.mpr (yields_state.mpr (yields_atEnd able.sane.sound ?_))
    by_cases ended : x.state.pos = src.size
    · simp only [ended, decide_true, Bool.not_true, Bool.false_eq_true, if_false]
      exact ⟨rfl, rfl, ended⟩
    · have before := Nat.lt_of_le_of_ne able.sane.sound.le_size ended
      have tag : src.At "<?" x.state.pos := by
        rw [HtmlScanner.ReadsOn, able.source_eq] at stays
        exact Classical.not_not.mp fun away => stays ⟨before, away⟩
      simp only [ended, decide_false, Bool.not_false, if_true, step]
      refine yields_bind.mpr (yields_bind.mpr (able.begins.atServer ?_ ?_))
      · intro c _ here _ _
        exact ⟨rfl, rfl, here⟩
      · intro c _ _ away
        exact absurd tag (away on)
  rw [Yields, ran] at run
  exact run

/-- A run that reads on takes up what was left in the middle. -/
theorem Able.takesUp (ready : Ready e src x) (reads : x.ReadsOn) {c : Construct} (left : c ∈ x.suspended) :
    ∃ (cursor : Cursor) (fuel : Nat), cursor.source = x.state.source ∧ cursor.pos = x.state.pos ∧
      main x = (do if ← takeUp c then loop fuel : HtmlM Unit)
        { x with
          state := { x.state with cursor }
          suspension := { x.suspension with interrupted := false } } := by
  obtain ⟨before, away⟩ := reads
  rw [able.source_eq] at before away
  obtain ⟨cursor, sound, here, stepped⟩ :=
    step_takeUp (x := { x with suspension := { x.suspension with interrupted := false } }) able.begins able.known
      ⟨ready.sole, ready.passed⟩ away left
  obtain ⟨fuel, budget⟩ := budget_pos x.state
  refine ⟨cursor, fuel, sound.source.trans able.source_eq.symm, here, ?_⟩
  have ended : Scan.atEnd x.state = .ok false x.state := by
    have asked : Yields Scan.atEnd x.state (fun ended s => ended = false ∧ s = x.state) fun _ _ => False :=
      yields_atEnd able.sane.sound ⟨by simpa using Nat.ne_of_lt before, rfl⟩
    obtain ⟨_, _, ran, rfl, rfl⟩ := asked.succeeds
    exact ran
  show loop (Flat.budget x.state) _ = _
  rw [budget]
  exact loop_step ended stepped

/-- A run leaves one construct at most. -/
theorem Able.run (on : e.server) (ready : Ready e src x) : ∃ y, main x = .ok () y ∧ Able e src y ∧ Run x y ∧
    (y = { x with suspension := { x.suspension with interrupted := false } } ∨
      Halted e src y ∧ (y.suspended ≠ [] → y.suspension.interrupted)) := by
  obtain ⟨_, y, ran, leaves, halted⟩ := (yields_main_ready able ready).succeeds
  have stopped : y.state.pos ≠ src.size → y.suspension.interrupted := by
    intro before
    cases interrupted : y.suspension.interrupted with
    | true => rfl
    | false => exact absurd (leaves.ended interrupted) before
  refine ⟨y, ran, leaves.able, ⟨?_, fun stays => able.stays on stays ran, fun reads c => able.takesUp ready reads⟩,
    halted.imp_right fun halted => ⟨halted, fun some_ => stopped ?_⟩⟩
  · intro _ before
    rw [leaves.able.source_eq] at before ⊢
    exact (leaves.server (stopped before)).2
  · intro ended
    have tag := (halted.tag some_).2
    rw [ended] at tag
    exact absurd tag Source.not_at_tag_size

end Runs

section Hosts

open Scanner (after)

/-- Behind which place the next run has to begin. A run that was interrupted sets it, and one that was not removes it,
unless the host remembers it. -/
def bound (remembers : HtmlScanner → Bool) (y : HtmlScanner) (behind : Option Nat) : Option Nat :=
  if y.suspension.interrupted then some y.state.pos else if remembers y then behind else none

/-- A scanner in the hands of a host that goes on behind the place where it was interrupted, with that place. -/
inductive Hosted (e : Embedding) (remembers : HtmlScanner → Bool) : HtmlScanner → Option Nat → Prop where
  | fresh : Hosted e remembers (.ofEmbedding e) none
  | setSource {x : HtmlScanner} {behind : Option Nat} (h : Hosted e remembers x behind) (text : String) :
      Hosted e remembers (after x (.setSource text)) none
  | setPos {x : HtmlScanner} {behind : Option Nat} (h : Hosted e remembers x behind) (pos : Nat) :
      Hosted e remembers (after x (.setPos pos)) behind
  | tagged {x : HtmlScanner} {behind : Option Nat} (h : Hosted e remembers x behind) :
      Hosted e remembers (after x .tagged) behind
  | main {x : HtmlScanner} {behind : Option Nat} (h : Hosted e remembers x behind)
      (beyond : ∀ at_, behind = some at_ → at_ < x.state.pos) :
      Hosted e remembers (after x .main) (bound remembers (after x .main) behind)

/-- Is anything left in the middle? -/
def HtmlScanner.isSuspended (x : HtmlScanner) : Bool := !x.suspended.isEmpty

/-- What holds of a scanner whose host remembers where it was interrupted as long as anything is left in the middle. -/
structure Held (e : Embedding) (x : HtmlScanner) (behind : Option Nat) : Prop where
  made : emptied x = emptied (HtmlScanner.ofEmbedding e)
  able : Able e x.state.source x
  sole : x.suspended.length ≤ 1
  below : x.suspended ≠ [] → ∃ at_, behind = some at_ ∧
    ∀ mark, x.script.resumeAt = some mark ∨ x.style.resumeAt = some mark → mark ≤ at_

variable {remembers : HtmlScanner → Bool}

/-- What was left in the middle can be taken up, if the next run begins behind the place of the last interruption. -/
theorem Held.ready (h : Held e x behind) (beyond : ∀ at_, behind = some at_ → at_ < x.state.pos) :
    Ready e x.state.source x := by
  refine ⟨h.sole, fun mark left => .inl ?_⟩
  have some_ : x.suspended ≠ [] := by
    intro none_
    obtain ⟨_, script, style⟩ := suspended_eq_nil_iff.mp none_
    rw [script, style] at left
    rcases left with no | no <;> cases no
  obtain ⟨at_, eq, le⟩ := h.below some_
  exact Nat.lt_of_le_of_lt (le mark left) (beyond at_ eq)

/-- A new scanner has an empty source. -/
theorem emptied_ofEmbedding (e : Embedding) : emptied (HtmlScanner.ofEmbedding e) = .ofEmbedding e := by
  have blank : ({} : ScanState).setSource (.ofString "") = {} := rfl
  simp only [emptied, Scanner.setSource, HtmlScanner.setSource, HtmlScanner.ofEmbedding, Child.setSource,
    Script.ScriptScanner.ofEmbedding, blank]

theorem held_setSource (tag : e.serverTag = "<?") (made : emptied x = emptied (HtmlScanner.ofEmbedding e))
    (source : Source) : Held e (Scanner.setSource x source) none := by
  have anew : Scanner.setSource x source = Scanner.setSource (HtmlScanner.ofEmbedding e) source := by
    rw [← setSource_again x (.ofString "") source, ← setSource_again (HtmlScanner.ofEmbedding e) (.ofString "") source]
    exact congrArg (Scanner.setSource · source) made
  rw [anew]
  refine ⟨renews.setSource _ source, (waits_setSource tag source).1, Nat.zero_le 1, fun no => absurd rfl no⟩

/-- Nothing but runs and sources changes what is left in the middle. -/
theorem Held.withState (h : Held e x behind) {s : ScanState} (sane : s.Sane x.state.source)
    (made : emptied ({ x with state := s } : HtmlScanner) = emptied x) (regions : s.regions = x.state.regions) :
    Held e { x with state := s } behind := by
  have able : Able e x.state.source { x with state := s } :=
    (covers e x.state.source).withState h.able sane regions
  refine ⟨made.trans h.made, ?_, h.sole, h.below⟩
  rw [able.source_eq]
  exact able

theorem Held.main (on : e.server) (h : Held e x behind) (beyond : ∀ at_, behind = some at_ → at_ < x.state.pos) :
    Held e (after x .main) (bound HtmlScanner.isSuspended (after x .main) behind) := by
  obtain ⟨y, ran, able, _, same⟩ := h.able.run on (h.ready beyond)
  have left : after x .main = y := by
    show leftBy (Html.main x) = y
    rw [ran]
    rfl
  have made : emptied y = emptied (HtmlScanner.ofEmbedding e) := by
    rw [← left]
    exact (renews.after trivial .main).trans h.made
  rw [left]
  rw [← able.source_eq] at able
  rcases same with rfl | ⟨halted, stopped⟩
  -- At the end of the source a run is not interrupted, so it is the host that has to remember the place.
  · refine ⟨made, able, h.sole, fun some_ => ?_⟩
    obtain ⟨at_, eq, le⟩ := h.below some_
    refine ⟨at_, ?_, le⟩
    have remembered : x.isSuspended := by
      rw [HtmlScanner.isSuspended, Bool.not_eq_true', List.isEmpty_eq_false_iff]
      exact some_
    show (if x.isSuspended then behind else none) = some at_
    rw [if_pos remembered, eq]
  · refine ⟨made, able, halted.sole, fun some_ => ⟨y.state.pos, ?_, halted.passed⟩⟩
    rw [bound, if_pos (stopped some_)]

theorem Hosted.held (on : e.server) (tag : e.serverTag = "<?") (h : Hosted e HtmlScanner.isSuspended x behind) :
    Held e x behind := by
  induction h with
  | fresh =>
    rw [← emptied_ofEmbedding]
    exact held_setSource tag rfl (.ofString "")
  | setSource _ text ih => exact held_setSource tag ih.made (.ofString text)
  | setPos _ pos ih =>
    exact ih.withState (ih.able.sane.setPos pos).1 (renews.after trivial (.setPos pos)) rfl
  | @tagged x behind _ ih =>
    have rest : (x.grammar.tagged x.state).2 = { x.state with tokens := {} } := by
      simp only [Grammar.tagged, ih.able.sane.flat]
    have left : after x .tagged = { x with state := { x.state with tokens := {} } } :=
      congrArg (Scanner.withState x) rest
    have made := renews.after (x := x) trivial .tagged
    rw [left] at made ⊢
    exact ih.withState ih.able.sane.drained made rfl
  | main _ beyond ih => exact ih.main on beyond

/-- A run of which it is known how it bounds the next one. -/
theorem Hosted.runs {b : Option Nat} (h : Hosted e remembers x behind) (beyond : behind.all (· < x.state.pos))
    (bounds : bound remembers (after x .main) behind = b) : Hosted e remembers (after x .main) b := by
  rw [← bounds]
  refine h.main ?_
  rintro at_ rfl
  exact of_decide_eq_true beyond

/-- At most one construct is left in the middle of a page, if the host goes on behind the place where the scanner was
interrupted and remembers the place as long as a construct is left. No run fails, and each does with the construct what
it has to do; moving and rendering do nothing with it. -/
theorem one_suspended (e : Embedding) (on : e.server) (tag : e.serverTag = "<?") (x : HtmlScanner) (behind : Option Nat)
    (hosted : Hosted e HtmlScanner.isSuspended x behind) :
    x.suspended.length ≤ 1 ∧
      (∀ pos, (after x (.setPos pos)).suspended = x.suspended) ∧ (after x .tagged).suspended = x.suspended ∧
      ((∀ at_, behind = some at_ → at_ < x.state.pos) → ∃ y, main x = .ok () y ∧ Run x y) := by
  have held := hosted.held on tag
  refine ⟨held.sole, fun _ => rfl, rfl, fun beyond => ?_⟩
  obtain ⟨y, ran, _, run, _⟩ := held.able.run on (held.ready beyond)
  exact ⟨y, ran, run⟩

/-- A script that was interrupted and has the server's part behind it. -/
theorem one_suspended_script :
    let x := [.setSource "<script>a<?b?>c", .main, .setPos 13].foldl after (HtmlScanner.ofEmbedding { server := true })
    Hosted { server := true } HtmlScanner.isSuspended x (some 9) ∧ x.suspended = [.script] ∧
      ∃ y, main x = .ok () y ∧ Run x y := by
  simp only [List.foldl]
  have made : Hosted { server := true } HtmlScanner.isSuspended (.ofEmbedding { server := true }) none := .fresh
  have scanned := (made.setSource "<script>a<?b?>c").runs (b := some 9) rfl (by decide +kernel)
  have hosted := scanned.setPos 13
  refine ⟨hosted, by decide +kernel, (one_suspended { server := true } rfl rfl _ _ hosted).2.2.2 ?_⟩
  intro at_ eq
  cases eq
  decide +kernel

/-- A run at the end of the source is not interrupted. A host that forgets the place there and goes back finds a token
that is cut while the child for scripts is still to go on. -/
theorem two_suspended_behind_end :
    let x := [.setSource "&<?;<script><?", .setPos 4, .main, .setPos 14, .main, .setPos 0, .main].foldl after
      (HtmlScanner.ofEmbedding { server := true })
    Hosted { server := true } (fun _ => false) x (some 1) ∧ x.suspended = [.token .escape, .script] := by
  simp only [List.foldl]
  have made : Hosted { server := true } (fun _ => false) (.ofEmbedding { server := true }) none := .fresh
  have scanned := ((made.setSource "&<?;<script><?").setPos 4).runs (b := some 12) rfl (by decide +kernel)
  have ended := (scanned.setPos 14).runs (b := none) (by decide +kernel) (by decide +kernel)
  exact ⟨(ended.setPos 0).runs (b := some 1) rfl (by decide +kernel), by decide +kernel⟩

end Hosts

end Gloss.Language.Html
