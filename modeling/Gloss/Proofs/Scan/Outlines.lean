import Gloss.Proofs.Markup.Legible
import Gloss.Scan.Outline

/-!
Trees of recorded output. What is recorded goes behind the children of the innermost open node, and a node that is
opened, filled and closed has become one of them. The renderer that works without recursion gives the markup of the
recursive one: delivering what is rendered to the frames that wait for it, one after another, gives the whole.
-/
namespace Gloss

namespace Outline

/-- Adds finished nodes to the innermost open one. -/
def addAll (o : Outline) (ns : List Node) : Outline :=
  match o.inner with
  | [] => { o with latest := ns.reverse ++ o.latest }
  | top :: rest => { o with inner := { top with latest := ns.reverse ++ top.latest } :: rest }

variable {o : Outline} {kind : Kind} {ns ms : List Node}

@[simp] theorem addAll_nil : o.addAll [] = o := by
  obtain ⟨latest, inner⟩ := o
  cases inner <;> rfl

@[simp] theorem addAll_addAll : (o.addAll ns).addAll ms = o.addAll (ns ++ ms) := by
  obtain ⟨latest, inner⟩ := o
  cases inner <;> simp [addAll]

theorem add_eq (n : Node) : o.add n = o.addAll [n] := by
  obtain ⟨latest, inner⟩ := o
  cases inner <;> rfl

/-- The node that a token becomes. -/
def nodeOf (t : Token) : Node :=
  let leaf : Node := if t.escaped then .markup t.text else .text t.text
  match t.kind with
  | some kind => .branch kind [leaf]
  | none => leaf

theorem record_eq (t : Token) : o.record t = if t.text.isEmpty then o else o.add (nodeOf t) := by
  rw [record]
  split
  · rfl
  · rw [nodeOf]
    cases t.kind <;> rfl

/-- It is rendered as the text or the markup that the token holds, within the kind if there is one. -/
theorem render_nodeOf (wrap : Kind → String → String) (t : Token) : Node.render wrap (nodeOf t) =
    match t.kind with
    | some kind => wrap kind (Markup.escapeToken t).text
    | none => (Markup.escapeToken t).text := by
  cases isMarkup : t.escaped <;> cases isKind : t.kind <;>
    simp [nodeOf, Node.render, Node.renderAll, Markup.escapeToken, isMarkup, isKind]

/-- A node that is opened, filled and closed is a child of the node around it. -/
theorem closeNode_openNode : ((o.openNode kind).addAll ns).closeNode = o.addAll [.branch kind ns] := by
  have inner : ((o.openNode kind).addAll ns).closeNode = o.add (.branch kind ns) := by
    simp [openNode, addAll, closeNode]
  rw [inner, add_eq]

theorem record_text {text : String} (some_ : text ≠ "") : o.record (.raw none text) = o.addAll [.text text] := by
  have any : ¬ text.isEmpty := by simpa using some_
  simp only [record, Token.raw, any, Bool.false_eq_true, if_false]
  exact add_eq _

theorem length_closeNode : o.closeNode.inner.length = o.inner.length - 1 := by
  obtain ⟨latest, inner⟩ := o
  match inner with
  | [] => rfl
  | [_] => rfl
  | _ :: _ :: _ => rfl

theorem length_closeEach (tops : List OpenNode) :
    (closeEach tops o).inner.length = o.inner.length - tops.length := by
  induction tops generalizing o with
  | nil => rfl
  | cons top tops ih =>
    rw [closeEach, ih, length_closeNode, List.length_cons]
    omega

/-- No node is open once as many are closed as there were. -/
theorem inner_closeEach : (closeEach o.inner o).inner = [] := by
  rw [← List.length_eq_zero_iff, length_closeEach, Nat.sub_self]

section Collapse

variable {wrap : Kind → String → String}

@[simp] theorem renderAll_append : Node.renderAll wrap (ns ++ ms) = Node.renderAll wrap ns ++ Node.renderAll wrap ms := by
  induction ns with
  | nil => simp [Node.renderAll]
  | cons n ns ih => simp [Node.renderAll, ih, String.append_assoc]

/-- The markup of the root once `out` is delivered and all frames are finished. -/
def settle (wrap : Kind → String → String) (out : String) : List Frame → String → String
  | [], root => root ++ out
  | f :: frames, root => settle wrap (wrap f.kind (f.done ++ out ++ Node.renderAll wrap f.todo)) frames root

/-- Steps that are left for the frames. -/
def owed : List Frame → Nat
  | [] => 0
  | f :: frames => Node.weightAll f.todo + 1 + owed frames

/-- Delivering markup to the frame that waits for it does not change what comes out. -/
theorem settle_deliver (out : String) (frames : List Frame) (root : String) :
    settle wrap "" (deliver out frames root).1 (deliver out frames root).2 = settle wrap out frames root := by
  cases frames <;> simp [deliver, settle]

/-- Rendering with frames gives the markup of the recursive renderer. -/
theorem collapseFrom_eq {fuel : Nat} {frames : List Frame} {todo : List Node} {root : String}
    (enough : owed frames + Node.weightAll todo ≤ fuel) :
    collapseFrom wrap fuel frames todo root = settle wrap "" frames root ++ Node.renderAll wrap todo := by
  induction fuel generalizing frames todo root with
  | zero =>
    cases frames with
    | nil =>
      cases todo with
      | nil => simp [collapseFrom, settle, Node.renderAll]
      | cons n todo => cases n <;> simp [owed, Node.weightAll, Node.weight] at enough
    | cons f frames => simp [owed] at enough
  | succ fuel ih =>
    cases frames with
    | nil =>
      cases todo with
      | nil => simp [collapseFrom, settle, Node.renderAll]
      | cons n todo =>
        -- The next child of the root is written, or becomes the frame that is rendered first.
        cases n <;>
        · simp only [collapseFrom]
          rw [ih (by simp [owed, Node.weightAll, Node.weight] at enough ⊢; omega)]
          simp [settle, Node.renderAll, Node.render, String.append_assoc]
    | cons f frames =>
      obtain ⟨kind, waiting, done⟩ := f
      cases waiting with
      | nil =>
        have same : owed (deliver (wrap kind done) frames root).1 = owed frames := by cases frames <;> rfl
        simp only [collapseFrom]
        rw [ih (by simp only [same, owed, Node.weightAll] at enough ⊢; omega), settle_deliver]
        simp [settle, Node.renderAll]
      | cons n waiting =>
        cases n <;>
        · simp only [collapseFrom]
          rw [ih (by simp [owed, Node.weightAll, Node.weight] at enough ⊢; omega)]
          simp [settle, Node.renderAll, Node.render, String.append_assoc]

/-- The markup of a tree is that of its nodes, once all of them are closed. -/
theorem collapse_eq (wrap : Kind → String → String) (o : Outline) : o.collapse wrap = Node.renderAll wrap o.finish := by
  rw [collapse, collapseFrom_eq (by simp [owed])]
  simp [settle]

/-- A tree whose nodes are all closed renders as its nodes do. -/
theorem collapse_addAll : (({} : Outline).addAll ns).collapse wrap = Node.renderAll wrap ns := by
  have whole : (({} : Outline).addAll ns).finish = ns := by
    simp [Outline.finish, Outline.closeEach, Outline.addAll]
  rw [Outline.collapse_eq, whole]

end Collapse

end Outline

end Gloss
