import Gloss.Proofs.Scan.Outlines
import Gloss.Proofs.Scan.Renewal
import Mathlib.Data.List.Induction

/-!
Regions and open nodes. A scan that records a tree keeps two stacks, one of the open regions and one of the open nodes
of the tree. Opening and closing a region changes both, and so does a new source; rendering puts a new tree in the
place of the old one and leaves the regions open. So there is never an open node without its region, and as long as
nothing is rendered within a region, what is recorded within it stands below a node of its kind.
-/
namespace Gloss

open Text (Source)

/-- What may be called on a scanner that records a tree. -/
inductive TreeCall where
  | record (kind : Option Kind) (text : String)
  | recordMarkup (kind : Option Kind) (text : String)
  | push (r : Region)
  | pop
  | unwind
  | nestable (kind : Kind) (opening closing : Pattern)
  | tagged
  | start
  | reset
  | setSource (source : Source)

namespace TreeCall

def run (g : Grammar) : TreeCall → ScanM Unit
  | .record kind text => Scan.record kind text
  | .recordMarkup kind text => Scan.recordMarkup kind text
  | .push r => Scan.pushRegion r
  | .pop => do
    let _ ← Scan.popRegion
  | .unwind => Scan.unwind g
  | .nestable kind opening closing => Scan.nestable kind opening closing
  | .tagged => modify fun s => (g.tagged s).2
  | .start => Scan.clearTokens
  | .reset => modify (·.reset)
  | .setSource source => modify (·.setSource source)

/-- A state after a call, also after one that failed. -/
def after (g : Grammar) (s : ScanState) (call : TreeCall) : ScanState := leftBy (call.run g s)

/-- The token that a call records. -/
def token? : TreeCall → Option Token
  | .record kind text => some (.raw kind text)
  | .recordMarkup kind text => some (.markup kind text)
  | _ => none

/-- The tree is replaced by a new one. -/
def renews : TreeCall → Bool
  | .tagged | .reset | .setSource _ => true
  | _ => false

end TreeCall

/-- From states with a property the operation leads to states with it, also if it fails. -/
def Maintains {α : Type} (P : ScanState → Prop) (m : ScanM α) : Prop := ∀ s, P s → Yields m s (fun _ => P) fun _ => P

/-- A property of a state that lasts, whatever a scan does to its cursor, its output and its regions. -/
structure Lasting (P : ScanState → Prop) : Prop where
  cursor : ∀ s c, P s → P { s with cursor := c }
  record : ∀ s t, P s → P (s.record t)
  cleared : ∀ s, P s → P { s with tokens := {} }
  pushed : ∀ s r, P s → P { s with regions := r :: s.regions, outline := s.outline.map (·.openNode r.name) }
  popped : ∀ s r outer, s.regions = r :: outer → P s →
    P { s with regions := outer, outline := s.outline.map (·.closeNode) }

section Maintains

variable {α β : Type} {P : ScanState → Prop} {m : ScanM α} {f : α → ScanM β}

@[grind ←]
theorem Maintains.bind (first : Maintains P m) (rest : ∀ a, Maintains P (f a)) : Maintains P (m >>= f) := by
  intro s h
  refine yields_bind.mpr ((first s h).mono ?_ fun _ _ failed => failed)
  exact fun a s' h' => rest a s' h'

@[grind ←]
theorem maintains_pure (a : α) : Maintains P (pure a : ScanM α) := fun _ h => h

@[grind ←]
theorem maintains_get : Maintains P (get : ScanM ScanState) := fun _ h => h

@[grind ←]
theorem maintains_throw (e : ScanError) : Maintains P (throw e : ScanM α) := fun _ h => h

@[grind ←]
theorem maintains_ofCursor (f : Cursor → α) : Maintains P (Scan.ofCursor f) := fun _ h => h

theorem Maintains.leftBy (h : Maintains P m) {s : ScanState} (before : P s) : P (leftBy (m s)) := by
  have run := h s before
  simp only [Yields] at run
  cases ran : m s <;> simp_all [Gloss.leftBy]

end Maintains

namespace Lasting

variable {α : Type} {P : ScanState → Prop} (lasting : Lasting P)

include lasting

@[grind ←]
theorem onCursor (f : Cursor → α × Cursor) : Maintains P (Scan.onCursor f) := fun s h => lasting.cursor s _ h

@[grind ←]
theorem recordText (kind : Option Kind) (text : String) : Maintains P (Scan.record kind text) :=
  fun s h => lasting.record s _ h

@[grind ←]
theorem popRegion : Maintains P Scan.popRegion := by
  intro s h
  refine yields_bind.mpr (yields_get.mpr ?_)
  split
  · exact h
  · next r outer open_ => exact lasting.popped s r outer open_ h

@[grind ←]
theorem recordRange (start stop : Nat) (kind : Option Kind) : Maintains P (Scan.recordRange start stop kind) := by
  unfold Scan.recordRange
  grind

@[grind ←]
theorem recordMatch (kind : Option Kind) (m : Match) : Maintains P (Scan.recordMatch kind m) := by
  unfold Scan.recordMatch
  grind

@[grind ←]
theorem recordRest (kind : Option Kind) : Maintains P (Scan.recordRest kind) := by
  unfold Scan.recordRest
  grind

theorem nestRounds (opening closing : Pattern) (fuel depth : Nat) :
    Maintains P (Scan.nestRounds opening closing fuel depth) := by
  induction fuel generalizing depth with
  | zero => exact maintains_throw _
  | succ fuel ih =>
    unfold Scan.nestRounds Scan.nestRound
    grind

theorem nestable (kind : Kind) (opening closing : Pattern) : Maintains P (Scan.nestable kind opening closing) := by
  have rounds := lasting.nestRounds opening closing
  unfold Scan.nestable
  grind

theorem unwindOne (g : Grammar) (r : Region) : Maintains P (Scan.unwindOne g r) := by
  unfold Scan.unwindOne
  grind

theorem unwind (g : Grammar) : Maintains P (Scan.unwind g) := by
  have each : ∀ regions, Maintains P (Scan.unwindEach g regions) := by
    intro regions
    induction regions with
    | nil => exact maintains_pure _
    | cons r outer ih => exact (lasting.unwindOne g r).bind fun _ => ih
  exact maintains_get.bind fun s => (each _).bind fun _ => lasting.recordRest none

/-- What lasts is left by all calls that keep the tree. -/
theorem after {g : Grammar} {call : TreeCall} (keeps : call.renews = false) {s : ScanState} (h : P s) :
    P (call.after g s) := by
  cases call with
  | record kind text => exact (lasting.recordText kind text).leftBy h
  | recordMarkup kind text => exact lasting.record s _ h
  | push r => exact lasting.pushed s r h
  | pop => exact (lasting.popRegion.bind fun _ => maintains_pure _).leftBy h
  | unwind => exact (lasting.unwind g).leftBy h
  | nestable kind opening closing => exact (lasting.nestable kind opening closing).leftBy h
  | start => exact lasting.cleared s h
  | tagged => cases keeps
  | reset => cases keeps
  | setSource source => cases keeps

end Lasting

namespace Outline

variable {o : Outline} {kind : Kind}

/-- The kinds of the open nodes, innermost first. -/
def kinds (o : Outline) : List Kind := o.inner.map (·.kind)

@[simp] theorem kinds_add (n : Node) : (o.add n).kinds = o.kinds := by
  unfold add kinds
  split <;> simp_all

@[simp] theorem kinds_record (t : Token) : (o.record t).kinds = o.kinds := by
  simp only [record]
  split
  · rfl
  · split <;> exact kinds_add _

@[simp] theorem kinds_openNode : (o.openNode kind).kinds = kind :: o.kinds := rfl

@[simp] theorem kinds_closeNode : o.closeNode.kinds = o.kinds.tail := by
  unfold closeNode
  split
  · next none_ => simp [kinds, none_]
  · next top rest open_ => rw [kinds_add, kinds, kinds, open_, List.map_cons, List.tail_cons]

end Outline

/-- The names of the open regions, innermost first. -/
def ScanState.names (s : ScanState) : List Kind := s.regions.map (·.name)

/-- The tree of a scan with its open nodes. -/
def Related (R : List Kind → List Kind → Prop) (s : ScanState) : Prop := ∃ o, s.outline = some o ∧ R o.kinds s.names

/-- What two stacks have to do with each other lasts if it does when both grow and when both shrink. -/
theorem lasting_related {R : List Kind → List Kind → Prop} (grows : ∀ k ks ns, R ks ns → R (k :: ks) (k :: ns))
    (shrinks : ∀ ks ns, R ks ns → R ks.tail ns.tail) : Lasting (Related R) where
  cursor _ _ h := h
  record s t h := by
    obtain ⟨o, tree, related⟩ := h
    refine ⟨o.record t, by simp only [ScanState.record, tree], ?_⟩
    simp only [Outline.kinds_record, ScanState.names, ScanState.record, tree]
    exact related
  cleared _ h := h
  pushed s r h := by
    obtain ⟨o, tree, related⟩ := h
    refine ⟨o.openNode r.name, by simp only [tree, Option.map_some], ?_⟩
    exact grows _ _ _ related
  popped s r outer open_ h := by
    obtain ⟨o, tree, related⟩ := h
    refine ⟨o.closeNode, by simp only [tree, Option.map_some], ?_⟩
    have names : s.names.tail = outer.map (·.name) := by simp [ScanState.names, open_]
    rw [Outline.kinds_closeNode]
    show R _ (outer.map (·.name))
    rw [← names]
    exact shrinks _ _ related

/-- No node is open without its region. -/
def Covered : ScanState → Prop := Related (· <+: ·)

/-- Every region is an open node, and nothing else is. -/
def InStep : ScanState → Prop := Related (· = ·)

theorem lasting_covered : Lasting Covered := by
  refine lasting_related (fun k _ _ covered => (List.prefix_cons_inj k).mpr covered) ?_
  rintro ks _ ⟨rest, rfl⟩
  cases ks with
  | nil => exact List.nil_prefix
  | cons k ks => exact ⟨rest, rfl⟩

theorem lasting_inStep : Lasting InStep :=
  lasting_related (fun _ _ _ same => by rw [same]) fun _ _ same => by rw [same]

namespace Outline

/-- Somewhere in a node, another one is a child of one of a kind. -/
inductive Within (kind : Kind) (leaf : Node) : Node → Prop where
  | child {children : List Node} (member : leaf ∈ children) : Within kind leaf (.branch kind children)
  | deeper {k : Kind} {children : List Node} {n : Node} (member : n ∈ children) (within : Within kind leaf n) :
      Within kind leaf (.branch k children)

/-- In an open node of a kind, or somewhere below one, the leaf stands. -/
def Stands (kind : Kind) (leaf : Node) (top : OpenNode) : Prop :=
  top.kind = kind ∧ leaf ∈ top.latest ∨ ∃ n ∈ top.latest, Within kind leaf n

/-- Somewhere in a tree, open nodes included, the leaf is a child of a node of a kind. -/
def Holds (kind : Kind) (leaf : Node) (o : Outline) : Prop :=
  (∃ n ∈ o.latest, Within kind leaf n) ∨ ∃ top ∈ o.inner, Stands kind leaf top

variable {o : Outline} {kind : Kind} {leaf : Node}

theorem Stands.add {top : OpenNode} (h : Stands kind leaf top) (n : Node) :
    Stands kind leaf { top with latest := n :: top.latest } := by
  rcases h with ⟨same, member⟩ | ⟨m, member, within⟩
  · exact .inl ⟨same, List.mem_cons_of_mem n member⟩
  · exact .inr ⟨m, List.mem_cons_of_mem n member, within⟩

/-- An open node that is closed is a node like any other. -/
theorem Stands.closed {top : OpenNode} (h : Stands kind leaf top) :
    Within kind leaf (.branch top.kind top.latest.reverse) := by
  rcases h with ⟨rfl, member⟩ | ⟨n, member, within⟩
  · exact .child (List.mem_reverse.mpr member)
  · exact .deeper (List.mem_reverse.mpr member) within

theorem Holds.add (h : Holds kind leaf o) (n : Node) : Holds kind leaf (o.add n) := by
  obtain ⟨latest, inner⟩ := o
  cases inner with
  | nil =>
    rcases h with ⟨m, member, within⟩ | ⟨_, no, _⟩
    · exact .inl ⟨m, List.mem_cons_of_mem n member, within⟩
    · cases no
  | cons top rest =>
    rcases h with root | ⟨other, member, stands⟩
    · exact .inl root
    · rcases List.mem_cons.mp member with rfl | member
      · exact .inr ⟨_, List.mem_cons_self, stands.add n⟩
      · exact .inr ⟨other, List.mem_cons_of_mem _ member, stands⟩

theorem holds_add_of_within {n : Node} (within : Within kind leaf n) : Holds kind leaf (o.add n) := by
  obtain ⟨latest, inner⟩ := o
  cases inner with
  | nil => exact .inl ⟨n, List.mem_cons_self, within⟩
  | cons top rest => exact .inr ⟨_, List.mem_cons_self, .inr ⟨n, List.mem_cons_self, within⟩⟩

theorem Holds.record (h : Holds kind leaf o) (t : Token) : Holds kind leaf (o.record t) := by
  simp only [Outline.record]
  split
  · exact h
  · split <;> exact h.add _

theorem Holds.openNode (h : Holds kind leaf o) (k : Kind) : Holds kind leaf (o.openNode k) := by
  rcases h with root | ⟨top, member, stands⟩
  · exact .inl root
  · exact .inr ⟨top, List.mem_cons_of_mem _ member, stands⟩

theorem Holds.closeNode (h : Holds kind leaf o) : Holds kind leaf o.closeNode := by
  obtain ⟨latest, inner⟩ := o
  cases inner with
  | nil => exact h
  | cons top rest =>
    show Holds kind leaf (Outline.add ⟨latest, rest⟩ _)
    rcases h with root | ⟨other, member, stands⟩
    · exact Holds.add (o := ⟨latest, rest⟩) (.inl root) _
    · rcases List.mem_cons.mp member with rfl | member
      · exact holds_add_of_within stands.closed
      · exact Holds.add (o := ⟨latest, rest⟩) (.inr ⟨other, member, stands⟩) _

theorem Holds.closeEach (tops : List OpenNode) (h : Holds kind leaf o) : Holds kind leaf (closeEach tops o) := by
  induction tops generalizing o with
  | nil => exact h
  | cons top tops ih => exact ih h.closeNode

/-- A token is recorded as a child of the innermost open node. -/
theorem holds_record {t : Token} (some_ : t.text ≠ "") {top : OpenNode} {rest : List OpenNode}
    (open_ : o.inner = top :: rest) : Holds top.kind (nodeOf t) (o.record t) := by
  have any : ¬ t.text.isEmpty := by simpa using some_
  rw [record_eq, if_neg any, Outline.add, open_]
  exact .inr ⟨_, List.mem_cons_self, .inl ⟨rfl, List.mem_cons_self⟩⟩

/-- When every node is closed, the leaf is found below the children of the root. -/
theorem Holds.finish (h : Holds kind leaf o) : ∃ n ∈ o.finish, Within kind leaf n := by
  rcases h.closeEach o.inner with ⟨n, member, within⟩ | ⟨_, no, _⟩
  · exact ⟨n, List.mem_reverse.mpr member, within⟩
  · rw [inner_closeEach] at no
    cases no

end Outline

section Calls

variable {g : Grammar} {s : ScanState} {o : Outline} {call : TreeCall}

theorem after_tagged (tree : s.outline = some o) : TreeCall.after g s .tagged = { s with outline := some {} } := by
  show (g.tagged s).2 = _
  simp only [Grammar.tagged, tree]

/-- A call that renews the tree leaves one without open nodes. -/
theorem outline_after (renews : call.renews) (tree : s.outline = some o) : (call.after g s).outline = some {} := by
  cases call with
  | tagged => rw [after_tagged tree]
  | reset => exact congrArg (Option.map fun _ => ({} : Outline)) tree
  | setSource source => exact congrArg (Option.map fun _ => ({} : Outline)) tree
  | _ => cases renews

theorem covered_after (h : Covered s) (call : TreeCall) : Covered (call.after g s) := by
  cases renews : call.renews with
  | false => exact lasting_covered.after renews h
  | true =>
    obtain ⟨o, tree, _⟩ := h
    exact ⟨{}, outline_after renews tree, List.nil_prefix⟩

/-- Only rendering within a region puts regions and open nodes out of step. -/
theorem inStep_after (h : InStep s) (outside : call = .tagged → s.regions = []) : InStep (call.after g s) := by
  cases renews : call.renews with
  | false => exact lasting_inStep.after renews h
  | true =>
    obtain ⟨o, tree, _⟩ := h
    refine ⟨{}, outline_after renews tree, ?_⟩
    cases call with
    | tagged =>
      rw [after_tagged tree, ScanState.names, outside rfl]
      rfl
    | reset => rfl
    | setSource source => rfl
    | _ => cases renews

/-- The state after calls, from a scanner that records a tree and has no source yet. -/
def afterCalls (g : Grammar) (calls : List TreeCall) : ScanState := calls.foldl (TreeCall.after g) .emptyTree

/-- Nothing is rendered within a region. -/
def RendersOutside (g : Grammar) (calls : List TreeCall) : Prop :=
  ∀ before later, calls = before ++ .tagged :: later → (afterCalls g before).regions = []

theorem afterCalls_append (g : Grammar) (calls : List TreeCall) (call : TreeCall) :
    afterCalls g (calls ++ [call]) = call.after g (afterCalls g calls) := by
  rw [afterCalls, List.foldl_append]
  rfl

theorem covered_afterCalls (g : Grammar) (calls : List TreeCall) : Covered (afterCalls g calls) := by
  induction calls using List.reverseRecOn with
  | nil => exact ⟨{}, rfl, List.nil_prefix⟩
  | append_singleton calls call ih =>
    rw [afterCalls_append]
    exact covered_after ih call

theorem inStep_afterCalls {calls : List TreeCall} (outside : RendersOutside g calls) : InStep (afterCalls g calls) := by
  induction calls using List.reverseRecOn with
  | nil => exact ⟨{}, rfl, rfl⟩
  | append_singleton calls call ih =>
    rw [afterCalls_append]
    refine inStep_after (ih fun before later eq => ?_) ?_
    · exact outside before (later ++ [call]) (by rw [eq, List.append_assoc, List.cons_append])
    · rintro rfl
      exact outside calls [] rfl

/-- A leaf that stands below a node of a kind is found there when the tree is rendered, whatever is done until then. -/
theorem lasting_holds (kind : Kind) (leaf : Node) :
    Lasting fun s => ∃ o, s.outline = some o ∧ o.Holds kind leaf where
  cursor _ _ h := h
  record s t h := by
    obtain ⟨o, tree, holds⟩ := h
    exact ⟨o.record t, by simp only [ScanState.record, tree], holds.record t⟩
  cleared _ h := h
  pushed s r h := by
    obtain ⟨o, tree, holds⟩ := h
    exact ⟨o.openNode r.name, by simp only [tree, Option.map_some], holds.openNode r.name⟩
  popped s r outer _ h := by
    obtain ⟨o, tree, holds⟩ := h
    exact ⟨o.closeNode, by simp only [tree, Option.map_some], holds.closeNode⟩

theorem after_records {t : Token} (records : call.token? = some t) : call.after g s = s.record t := by
  cases call with
  | record kind text =>
    cases records
    rfl
  | recordMarkup kind text =>
    cases records
    rfl
  | _ => cases records

/-- As long as nothing is rendered within a region, the open nodes are the open regions; so what is recorded while a
region is open is rendered below a node of its kind, whatever else is done until the tree is rendered. -/
theorem nodes_in_step (g : Grammar) (calls : List TreeCall) (outside : RendersOutside g calls) :
    (∃ o, (afterCalls g calls).outline = some o ∧ o.kinds = (afterCalls g calls).names ∧
      o.inner.length = (afterCalls g calls).depth) ∧
    ∀ r outer, (afterCalls g calls).regions = r :: outer →
      ∀ call t, TreeCall.token? call = some t → t.text ≠ "" →
        ∀ later : List TreeCall, (∀ c ∈ later, c.renews = false) →
          let s := (call :: later).foldl (TreeCall.after g) (afterCalls g calls)
          ∃ o, s.outline = some o ∧ (g.tagged s).1 = Node.renderAll (g.wrapNode (g.context s)) o.finish ∧
            ∃ n ∈ o.finish, Outline.Within r.name (Outline.nodeOf t) n := by
  obtain ⟨o, tree, same⟩ := inStep_afterCalls outside
  refine ⟨⟨o, tree, same, ?_⟩, ?_⟩
  · have lengths := congrArg List.length same
    simpa [Outline.kinds, ScanState.names, ScanState.depth] using lengths
  · intro r outer open_ call t records some_ later keeps s
    obtain ⟨top, rest, inner, kind⟩ : ∃ top rest, o.inner = top :: rest ∧ top.kind = r.name := by
      rw [ScanState.names, open_, Outline.kinds] at same
      cases inner : o.inner with
      | nil => simp [inner] at same
      | cons top rest => exact ⟨top, rest, rfl, by simpa [inner] using (List.cons.inj (inner ▸ same)).1⟩
    have first : ∃ o, (call.after g (afterCalls g calls)).outline = some o ∧ o.Holds r.name (Outline.nodeOf t) := by
      rw [after_records records, ← kind]
      exact ⟨o.record t, by simp only [ScanState.record, tree], Outline.holds_record some_ inner⟩
    have last : ∃ o, s.outline = some o ∧ o.Holds r.name (Outline.nodeOf t) := by
      show ∃ o, (later.foldl (TreeCall.after g) (call.after g (afterCalls g calls))).outline = some o ∧ _
      -- Regions do not matter any more: the leaf stays where it is, even if its region is closed.
      generalize call.after g (afterCalls g calls) = s at first
      induction later generalizing s with
      | nil => exact first
      | cons c later ih =>
        refine ih (fun d member => keeps d (List.mem_cons_of_mem c member)) _ ?_
        exact (lasting_holds _ _).after (keeps c List.mem_cons_self) first
    obtain ⟨o', tree', holds⟩ := last
    refine ⟨o', tree', ?_, holds.finish⟩
    simp only [Grammar.tagged, tree']
    exact Outline.collapse_eq _ _

/-- Rendering within a region leaves the region open and no node for it: what is recorded next stands outside of all
nodes. -/
theorem tagged_leaves_regions (g : Grammar) (calls : List TreeCall) (text : String) (some_ : text ≠ "") :
    let s := afterCalls g (calls ++ [.tagged])
    s.regions = (afterCalls g calls).regions ∧ s.outline = some {} ∧
      (g.tagged (TreeCall.after g s (.record none text))).1 = Markup.escape text := by
  obtain ⟨o, tree, _⟩ := covered_afterCalls g calls
  intro s
  have left : s = { afterCalls g calls with outline := some {} } := by
    show afterCalls g (calls ++ [.tagged]) = _
    rw [afterCalls_append, after_tagged tree]
  have recorded : (TreeCall.after g s (.record none text)).outline = some (({} : Outline).addAll [.text text]) := by
    rw [after_records rfl, ← Outline.record_text some_, left]
    rfl
  refine ⟨by rw [left], by rw [left], ?_⟩
  simp only [Grammar.tagged, recorded, Outline.collapse_eq]
  simp [Outline.finish, Outline.addAll, Outline.closeEach, Node.renderAll, Node.render]

/-- Text that is outside of all nodes, although its region is open. -/
example : let g := Grammar.bare "test"
    let s := afterCalls g [.push { name := ⟨"NOTE"⟩, start := 0 }, .tagged, .record none "x"]
    s.names = [⟨"NOTE"⟩] ∧ (g.tagged s).1 = "x" := by decide +kernel

end Calls

end Gloss
