import Gloss.Markup

/-!
Recorded output as a tree. Every open region is an open node, and what is recorded goes into the innermost
one. Rendering goes bottom up: each finished node is wrapped by a given function of its kind and the markup
of its children.
-/
namespace Gloss

/-- A finished part of the tree. -/
inductive Node where
  | text (s : String)
  | markup (s : String)
  | branch (kind : Kind) (children : List Node)

namespace Node

mutual

/-- A node as markup. -/
def render (wrap : Kind → String → String) : Node → String
  | .text s => Markup.escape s
  | .markup s => s
  | .branch kind children => wrap kind (renderAll wrap children)

/-- Nodes one after another as markup. -/
def renderAll (wrap : Kind → String → String) : List Node → String
  | [] => ""
  | n :: rest => render wrap n ++ renderAll wrap rest

end

mutual

/-- Steps that rendering a node takes. -/
def weight : Node → Nat
  | .text _ => 1
  | .markup _ => 1
  | .branch _ children => weightAll children + 2

/-- Steps that rendering nodes takes. -/
def weightAll : List Node → Nat
  | [] => 0
  | n :: rest => weight n + weightAll rest

end

end Node

/-- A node that is still open. -/
structure OpenNode where
  kind : Kind
  /-- Its children so far, latest first. -/
  latest : List Node := []

/-- A tree of recorded output. -/
structure Outline where
  /-- Children of the root, latest first. -/
  latest : List Node := []
  /-- Open nodes, innermost first. -/
  inner : List OpenNode := []

namespace Outline

/-- Adds a finished node to the innermost open one. -/
def add (o : Outline) (n : Node) : Outline :=
  match o.inner with
  | [] => { o with latest := n :: o.latest }
  | top :: rest => { o with inner := { top with latest := n :: top.latest } :: rest }

/-- Opens a node. -/
def openNode (o : Outline) (kind : Kind) : Outline := { o with inner := ⟨kind, []⟩ :: o.inner }

/-- Closes the innermost open node. -/
def closeNode (o : Outline) : Outline :=
  match o.inner with
  | [] => o
  | top :: rest => { o with inner := rest }.add (.branch top.kind top.latest.reverse)

/-- Records a token: text with a kind becomes a node of its own. Empty text is dropped. -/
def record (o : Outline) (t : Token) : Outline :=
  if t.text.isEmpty then o
  else
    let leaf : Node := if t.escaped then .markup t.text else .text t.text
    match t.kind with
    | some kind => o.add (.branch kind [leaf])
    | none => o.add leaf

/-- Closes nodes, innermost first, until as many as in the list are closed. -/
def closeEach : List OpenNode → Outline → Outline
  | [], o => o
  | _ :: rest, o => closeEach rest o.closeNode

/-- The children of the root once every node is closed. -/
def finish (o : Outline) : List Node := (closeEach o.inner o).latest.reverse

/-- A node being rendered: the children still to come and the markup of those before. -/
structure Frame where
  kind : Kind
  todo : List Node
  done : String

/-- Puts finished markup into the frame that waits for it, or into the result. -/
def deliver (out : String) : List Frame → String → List Frame × String
  | [], root => ([], root ++ out)
  | f :: frames, root => ({ f with done := f.done ++ out } :: frames, root)

/-- Renders nodes without recursion: `frames` are the nodes being rendered, innermost first, `todo` the
children of the root still to come and `root` their markup so far. Each node takes at most two steps, which
`fuel` bounds. -/
def collapseFrom (wrap : Kind → String → String) :
    Nat → List Frame → List Node → String → String
  | 0, _, _, root => root
  | _ + 1, [], [], root => root
  | fuel + 1, [], n :: todo, root =>
    match n with
    | .text s => collapseFrom wrap fuel [] todo (root ++ Markup.escape s)
    | .markup s => collapseFrom wrap fuel [] todo (root ++ s)
    | .branch kind children => collapseFrom wrap fuel [⟨kind, children, ""⟩] todo root
  | fuel + 1, f :: frames, todo, root =>
    match f.todo with
    | [] =>
      let (frames, root) := deliver (wrap f.kind f.done) frames root
      collapseFrom wrap fuel frames todo root
    | .text s :: more =>
      collapseFrom wrap fuel (⟨f.kind, more, f.done ++ Markup.escape s⟩ :: frames) todo root
    | .markup s :: more =>
      collapseFrom wrap fuel (⟨f.kind, more, f.done ++ s⟩ :: frames) todo root
    | .branch kind children :: more =>
      collapseFrom wrap fuel (⟨kind, children, ""⟩ :: { f with todo := more } :: frames) todo root

/-- The tree as markup, with open nodes closed first. -/
def collapse (wrap : Kind → String → String) (o : Outline) : String :=
  let nodes := o.finish
  collapseFrom wrap (Node.weightAll nodes + 1) [] nodes ""

end Outline

end Gloss
