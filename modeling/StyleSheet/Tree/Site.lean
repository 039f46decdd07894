import StyleSheet.Tree

/-!
# Nodes at their places

A `Site` is a node of a tree together with where it starts and which nodes enclose it. All questions
about offsets, parents and ancestors are asked of sites.
-/

namespace StyleSheet

/-- A node and the offset at which it starts. -/
structure Place where
  /-- The kind of the node. -/
  kind : NodeKind
  /-- The parts of the node. -/
  children : List Tree
  /-- The offset of its first byte. -/
  start : Nat
deriving DecidableEq, Repr

/-- A node of a tree at its place. -/
structure Site where
  /-- The node itself. -/
  here : Place
  /-- The nodes that enclose it, the innermost one first. -/
  above : List Place
deriving Repr

namespace Place

/-- The node as a tree of its own. -/
def tree (p : Place) : Tree := .node p.kind p.children

/-- The offset behind the last byte. -/
def stop (p : Place) : Nat := p.start + Tree.lengthOf p.children

end Place

namespace Tree

mutual

/-- The sites of a tree that starts at `start` inside of the nodes `above`, an enclosing site
first. -/
def sites (above : List Place) (start : Nat) : Tree → List Site
  | leaf .. => []
  | node k cs => ⟨⟨k, cs, start⟩, above⟩ :: sitesOf (⟨k, cs, start⟩ :: above) start cs

/-- The sites of a row of trees. -/
def sitesOf (above : List Place) (start : Nat) : List Tree → List Site
  | [] => []
  | c :: cs => sites above start c ++ sitesOf above (start + c.length) cs

end

/-- The nodes among a row of trees that starts at `start`, as sites inside of the nodes `above`. -/
def nodesOf (above : List Place) (start : Nat) : List Tree → List Site
  | [] => []
  | leaf _ t :: cs => nodesOf above (start + t.length) cs
  | node k ds :: cs => ⟨⟨k, ds, start⟩, above⟩ :: nodesOf above (start + lengthOf ds) cs

end Tree

namespace Site

/-- A node as the root of a tree. -/
def ofNode (kind : NodeKind) (children : List Tree) : Site := ⟨⟨kind, children, 0⟩, []⟩

/-- The root of a tree; a leaf has none. -/
def ofTree? : Tree → Option Site
  | .leaf .. => none
  | .node k cs => some (ofNode k cs)

/-- The kind of the node. -/
def kind (s : Site) : NodeKind := s.here.kind

/-- The offset of the first byte. -/
def start (s : Site) : Nat := s.here.start

/-- The offset behind the last byte. -/
def stop (s : Site) : Nat := s.here.stop

/-- The node as a tree of its own. -/
def tree (s : Site) : Tree := s.here.tree

/-- The text of the node. -/
def text (s : Site) : Text := s.tree.text

/-- The text of the node without white space around it. -/
def trimmed (s : Site) : Text := s.text.trim

/-- The enclosing node. -/
def parent? (s : Site) : Option Site :=
  match s.above with
  | [] => none
  | p :: rest => some ⟨p, rest⟩

/-- The nodes that are direct parts. -/
def children (s : Site) : List Site := Tree.nodesOf (s.here :: s.above) s.here.start s.here.children

/-- The tokens that are direct parts. -/
def tokens (s : Site) : List Leaf :=
  s.here.children.filterMap fun
    | .leaf k t => some ⟨k, t⟩
    | .node .. => none

/-- The text of the first token of the given kind that is a direct part. -/
def tokenText? (s : Site) (kind : TokenKind) : Option Text :=
  (s.tokens.find? fun l => l.kind == kind).map Leaf.text

/-- The node itself and all nodes inside of it, an enclosing one first. -/
def descendants (s : Site) : List Site := s.tree.sites s.above s.here.start

/-- The node as the root of a tree of its own. -/
def detach (s : Site) : Site := ofNode s.here.kind s.here.children

/-- Whether two sites of a tree are the same node: they start at the same offset and hold the
same. -/
def isSame (s t : Site) : Bool := s.start == t.start && s.kind == t.kind && s.tree == t.tree

/-- The first direct part that is a node of the given kind. -/
def child? (s : Site) (kind : NodeKind) : Option Site := s.children.find? fun c => c.kind == kind

/-- The direct parts that are nodes of the given kind. -/
def childrenOf (s : Site) (kind : NodeKind) : List Site := s.children.filter fun c => c.kind == kind

/-- The direct parts that are nodes and do not mark errors. -/
def items (s : Site) : List Site := s.children.filter fun c => c.kind != .error

/-- The trimmed text of the first direct part of the given kind. -/
def childText? (s : Site) (kind : NodeKind) : Option Text := (s.child? kind).map trimmed

end Site

end StyleSheet
