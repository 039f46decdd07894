import StyleSheet.Tree.Site

/-!
# Forests

A forest is a row of trees whose nodes have labels of their own, so that a node stays the same when
it moves. The only change is adoption: a node is taken from where it is, with all that it holds, and
put behind the last part of another node. A node cannot be adopted by itself or by a node inside of
it, and nodes of frozen trees neither move nor adopt.

Labels are not seen from outside. What a tree was planted with is kept in a store in which equal
small nodes share one place, and a node is known by its place in the store and its offset. So two
nodes may pass for the same one (`Forest.isSame`), and adoption, which asks whether the child is
around the parent, takes one for the other. A node that has lost or gained a part, or holds one that
has, is kept on its own.
-/

namespace StyleSheet

namespace Tree

mutual

/-- Whether each node has at most three parts. Equal nodes of this kind share a place in the
store. -/
def isSmall : Tree → Bool
  | leaf .. => true
  | node _ cs => cs.length ≤ 3 && areSmall cs

/-- Whether each node of a row of trees has at most three parts. -/
def areSmall : List Tree → Bool
  | [] => true
  | c :: cs => c.isSmall && areSmall cs

end

end Tree

/-- A tree whose nodes have labels. -/
inductive LabelledTree where
  /-- A token with its text. -/
  | leaf (kind : TokenKind) (text : Text)
  /-- A construct with its label and its parts in order. -/
  | node (label : Nat) (kind : NodeKind) (children : List LabelledTree)
deriving Repr, Inhabited

namespace LabelledTree

mutual

/-- Labels the nodes of a tree in the order in which they begin, from `next` on. -/
def ofTree (next : Nat) : Tree → LabelledTree
  | .leaf k t => leaf k t
  | .node k cs => node next k (ofTrees (next + 1) cs)

/-- Labels the nodes of a row of trees, from `next` on. -/
def ofTrees (next : Nat) : List Tree → List LabelledTree
  | [] => []
  | c :: cs => ofTree next c :: ofTrees (next + c.size) cs

end

mutual

/-- The tree without its labels. -/
def tree : LabelledTree → Tree
  | leaf k t => .leaf k t
  | node _ k cs => .node k (trees cs)

/-- A row of trees without their labels. -/
def trees : List LabelledTree → List Tree
  | [] => []
  | c :: cs => c.tree :: trees cs

end

mutual

/-- The labels, that of an enclosing node first. -/
def labels : LabelledTree → List Nat
  | leaf .. => []
  | node l _ cs => l :: labelsOf cs

/-- The labels of a row of trees. -/
def labelsOf : List LabelledTree → List Nat
  | [] => []
  | c :: cs => c.labels ++ labelsOf cs

end

/-- Whether the outermost element is the node with the given label. -/
def isAt (label : Nat) : LabelledTree → Bool
  | leaf .. => false
  | node l .. => l == label

mutual

/-- The part that has the given label. -/
def find? (label : Nat) : LabelledTree → Option LabelledTree
  | leaf .. => none
  | node l k cs => if l = label then some (node l k cs) else findIn? label cs

/-- The part of a row of trees that has the given label. -/
def findIn? (label : Nat) : List LabelledTree → Option LabelledTree
  | [] => none
  | c :: cs => (c.find? label).or (findIn? label cs)

end

mutual

/-- The labels of the nodes around the node of the given label, the outermost one first and the node
itself last; none if there is no such node. -/
def around (label : Nat) : LabelledTree → List Nat
  | leaf .. => []
  | node l k cs => if label ∈ (node l k cs).labels then l :: aroundIn label cs else []

/-- The labels of the nodes of a row of trees around the node of the given label. -/
def aroundIn (label : Nat) : List LabelledTree → List Nat
  | [] => []
  | c :: cs => c.around label ++ aroundIn label cs

end

mutual

/-- The tree without the part of the given label, unless that is the whole tree. -/
def erase (label : Nat) : LabelledTree → LabelledTree
  | leaf k t => leaf k t
  | node l k cs => node l k (eraseFrom label cs)

/-- A row of trees without the part of the given label. -/
def eraseFrom (label : Nat) : List LabelledTree → List LabelledTree
  | [] => []
  | c :: cs => if c.isAt label then eraseFrom label cs else c.erase label :: eraseFrom label cs

end

mutual

/-- The tree with a new last part for the node of the given label. -/
def append (label : Nat) (part : LabelledTree) : LabelledTree → LabelledTree
  | leaf k t => leaf k t
  | node l k cs => node l k (appendIn label part cs ++ if l = label then [part] else [])

/-- A row of trees with a new last part for the node of the given label. -/
def appendIn (label : Nat) (part : LabelledTree) : List LabelledTree → List LabelledTree
  | [] => []
  | c :: cs => append label part c :: appendIn label part cs

end

/-- The nodes of the tree at their places, each with its label. -/
def sites (t : LabelledTree) : List (Nat × Site) := t.labels.zip (t.tree.sites [] 0)

end LabelledTree

/-- Why a node cannot be adopted. -/
inductive AdoptionError where
  /-- One of the nodes belongs to a frozen tree. -/
  | immutable
  /-- The new parent lies inside of the node. -/
  | cycle
deriving DecidableEq, Repr

namespace AdoptionError

/-- The name of the error. -/
def name : AdoptionError → String
  | immutable => "Immutable"
  | cycle => "Cycle"

/-- What the error says. -/
def message : AdoptionError → String
  | immutable => "node belongs to an immutable tree; use clone_for_update"
  | cycle => "cannot adopt a node into its own subtree"

end AdoptionError

/-- A tree of a forest. -/
structure Stand where
  /-- The tree. -/
  root : LabelledTree
  /-- Whether its nodes stay where they are. -/
  frozen : Bool
deriving Repr

/-- A row of trees. -/
structure Forest where
  /-- The trees that are not part of another one. -/
  stands : List Stand
  /-- The labels of the roots with which the forest began. They remain when a root is adopted. -/
  roots : List Nat
  /-- The labels of the nodes that have lost or gained a part, or hold one that has. -/
  changed : List Nat
deriving Repr

namespace Forest

/-- The forest without trees. -/
def empty : Forest := ⟨[], [], []⟩

/-- A label that no node of a row of trees has. -/
def nextLabel (stands : List Stand) : Nat := (stands.flatMap fun s => s.root.labels).length

/-- Plants a further tree. -/
def plant (f : Forest) (t : Tree) (frozen : Bool) : Forest :=
  let next := nextLabel f.stands
  ⟨f.stands ++ [⟨.ofTree next t, frozen⟩], f.roots ++ [next], f.changed⟩

/-- The nodes of the forest at their places, each with its label. -/
def sites (f : Forest) : List (Nat × Site) := f.stands.flatMap fun s => s.root.sites

/-- The node of a label at its place. -/
def site? (f : Forest) (label : Nat) : Option Site := f.sites.lookup label

/-- The part of the forest that has the given label. -/
def find? (f : Forest) (label : Nat) : Option LabelledTree :=
  f.stands.findSome? fun s => s.root.find? label

/-- Whether the node of a label belongs to a frozen tree. -/
def isFrozen (f : Forest) (label : Nat) : Bool :=
  f.stands.any fun s => s.frozen && s.root.labels.contains label

/-- The labels of the nodes around the node of a label, the outermost one first and the node itself
last. -/
def around (f : Forest) (label : Nat) : List Nat := f.stands.flatMap fun s => s.root.around label

/-! ## Nodes that pass for the same -/

/-- The number of the tree with which the node of a label was planted. -/
def origin (f : Forest) (label : Nat) : Nat := f.roots.countP fun root => root ≤ label

/-- Whether the node of a label shares its place in the store with the equal nodes of its tree. -/
def isShared (f : Forest) (label : Nat) : Bool :=
  !f.changed.contains label && (f.find? label).any fun t => t.tree.isSmall

/-- Whether the nodes of two labels pass for the same one: they have the same place in the store and
start at the same offset. -/
def isSame (f : Forest) (a b : Nat) : Bool :=
  a == b || (f.origin a == f.origin b && f.isShared a && f.isShared b &&
    (f.site? a).any fun s => (f.site? b).any fun t => s.isSame t)

/-! ## Adoption -/

/-- The forest without the part of the given label. -/
def erase (f : Forest) (label : Nat) : Forest :=
  { f with
    stands := (f.stands.filter fun s => !s.root.isAt label).map fun s =>
      { s with root := s.root.erase label } }

/-- The forest with a new last part for the node of the given label. -/
def append (f : Forest) (label : Nat) (part : LabelledTree) : Forest :=
  { f with stands := f.stands.map fun s => { s with root := .append label part s.root } }

/-- Notes that nodes have lost or gained a part. -/
def touch (f : Forest) (labels : List Nat) : Forest := { f with changed := labels ++ f.changed }

/-- Moves the node `child` behind the last part of the node `parent`. -/
def move (f : Forest) (parent child : Nat) : Forest :=
  match f.find? child with
  | none => f
  | some part =>
    ((f.erase child).append parent part).touch ((f.around child).dropLast ++ f.around parent)

/-- Has the node `parent` adopt the node `child`. -/
def adopt (f : Forest) (parent child : Nat) : Except AdoptionError Forest :=
  if f.isFrozen parent || f.isFrozen child then .error .immutable
  else if (f.around parent).any fun a => f.isSame a child then .error .cycle
  else .ok (f.move parent child)

/-- The labels of the nodes below a root with which the forest began, that of an enclosing node
first. -/
def labelsBelow (f : Forest) (root : Nat) : List Nat :=
  ((f.find? root).map LabelledTree.labels).getD []

end Forest

end StyleSheet
