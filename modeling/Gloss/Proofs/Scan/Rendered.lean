import Gloss.Grammar.Basic
import Gloss.Proofs.Scan.Outlines

/-!
Rendering a tree. Nodes that are still open are closed first, each into the node around it, and then each node is wrapped
around the markup of its children. The tree is rendered without recursion, by a stack of frames, and this is what the
recursive definition of its markup gives.
-/
namespace Gloss

namespace Outline

/-- What open nodes, innermost first, become when they are closed: each one is the last child of the node around it, and
the outermost one is a child of the root. -/
def enclose : List OpenNode → List Node → List Node
  | [], inside => inside
  | top :: outer, inside => enclose outer [.branch top.kind (top.latest.reverse ++ inside)]

/-- The children of the root, with what becomes of the open nodes behind them. -/
def whole (o : Outline) : List Node := o.latest.reverse ++ enclose o.inner []

variable {o : Outline} {wrap : Kind → String → String}

/-- Closing a node first does not change what becomes of the open ones. -/
theorem whole_closeNode : o.closeNode.whole = o.whole := by
  obtain ⟨latest, inner⟩ := o
  match inner with
  | [] => rfl
  | [top] => simp [closeNode, add, whole, enclose]
  | top :: next :: outer => simp [closeNode, add, whole, enclose]

theorem whole_closeEach (tops : List OpenNode) : (closeEach tops o).whole = o.whole := by
  induction tops generalizing o with
  | nil => rfl
  | cons top tops ih => exact ih.trans whole_closeNode

/-- Closing all nodes one by one makes each the last child of the one around it. -/
theorem finish_eq_whole : o.finish = o.whole := by
  calc o.finish
      = (closeEach o.inner o).whole := by rw [finish, whole, inner_closeEach, enclose, List.append_nil]
    _ = o.whole := whole_closeEach o.inner

end Outline

namespace Node

variable {wrap : Kind → String → String}

theorem renderAll_eq_join (wrap : Kind → String → String) (ns : List Node) :
    renderAll wrap ns = String.join (ns.map (render wrap)) := by
  induction ns with
  | nil => rfl
  | cons n ns ih => rw [renderAll, ih, List.map_cons, String.join_cons]

/-- A renderer that goes down the tree: text is escaped, markup is left as it is, and a node wraps the markup of its
children, one after another. -/
structure GoesDown (wrap : Kind → String → String) (shown : Node → String) : Prop where
  text : ∀ s, shown (.text s) = Markup.escape s
  markup : ∀ s, shown (.markup s) = s
  branch : ∀ kind children, shown (.branch kind children) = wrap kind (String.join (children.map shown))

theorem goesDown_render (wrap : Kind → String → String) : GoesDown wrap (render wrap) where
  text _ := rfl
  markup _ := rfl
  branch kind children := by rw [render, renderAll_eq_join]

end Node

/-- Rendering with frames is rendering by recursion, for every grammar and every tree, whatever nodes are open: these are
closed into the nodes around them. -/
theorem tagged_goes_down (g : Grammar) (s : ScanState) (o : Outline) :
    let shown := Node.render (g.wrapNode (g.context s))
    Node.GoesDown (g.wrapNode (g.context s)) shown ∧
    o.collapse (g.wrapNode (g.context s)) = String.join (o.whole.map shown) ∧
    (g.tagged { s with outline := some o }).1 = String.join (o.whole.map shown) := by
  have collapsed : o.collapse (g.wrapNode (g.context s)) =
      String.join (o.whole.map (Node.render (g.wrapNode (g.context s)))) := by
    rw [Outline.collapse_eq, Outline.finish_eq_whole, Node.renderAll_eq_join]
  exact ⟨Node.goesDown_render _, collapsed, collapsed⟩

end Gloss
