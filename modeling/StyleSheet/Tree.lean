import StyleSheet.Kind
import StyleSheet.Text

/-!
# Trees

A tree has tokens as leaves and constructs of the grammar as inner nodes. White space and comments
are leaves like all others, so the text of a tree is the text of its leaves in order.
-/

namespace StyleSheet

/-- A tree, or a part of one. -/
inductive Tree where
  /-- A token with its text. -/
  | leaf (kind : TokenKind) (text : Text)
  /-- A construct with its parts in order. -/
  | node (kind : NodeKind) (children : List Tree)
deriving Repr, Inhabited

/-- A leaf of a tree. -/
structure Leaf where
  /-- The kind of the token. -/
  kind : TokenKind
  /-- The text of the token. -/
  text : Text
deriving DecidableEq, Repr

namespace Tree

/-- The kind of the outermost element. -/
def kind : Tree → Kind
  | leaf k _ => .token k
  | node k _ => .node k

/-- The parts of a node; a leaf has none. -/
def children : Tree → List Tree
  | leaf .. => []
  | node _ cs => cs

mutual

/-- Whether two trees are the same. -/
def isEqual : Tree → Tree → Bool
  | leaf k t, leaf l u => k == l && t == u
  | node k cs, node l ds => k == l && areEqual cs ds
  | _, _ => false

/-- Whether two rows of trees are the same. -/
def areEqual : List Tree → List Tree → Bool
  | [], [] => true
  | c :: cs, d :: ds => isEqual c d && areEqual cs ds
  | _, _ => false

end

mutual

theorem isEqual_iff : ∀ t u : Tree, isEqual t u = true ↔ t = u
  | leaf k t, leaf l u => by simp [isEqual]
  | node k cs, node l ds => by simp [isEqual, areEqual_iff cs ds]
  | leaf .., node .. => by simp [isEqual]
  | node .., leaf .. => by simp [isEqual]

theorem areEqual_iff : ∀ cs ds : List Tree, areEqual cs ds = true ↔ cs = ds
  | [], [] => by simp [areEqual]
  | c :: cs, d :: ds => by simp [areEqual, isEqual_iff c d, areEqual_iff cs ds]
  | [], _ :: _ => by simp [areEqual]
  | _ :: _, [] => by simp [areEqual]

end

instance : DecidableEq Tree := fun t u => decidable_of_iff _ (isEqual_iff t u)

mutual

/-- The leaves in order. -/
def leaves : Tree → List Leaf
  | leaf k t => [⟨k, t⟩]
  | node _ cs => leavesOf cs

/-- The leaves of a row of trees in order. -/
def leavesOf : List Tree → List Leaf
  | [] => []
  | c :: cs => c.leaves ++ leavesOf cs

end

/-- The text of the leaves in order. -/
def text (t : Tree) : Text := t.leaves.flatMap Leaf.text

mutual

/-- The number of bytes of the text. -/
def length : Tree → Nat
  | leaf _ t => t.length
  | node _ cs => lengthOf cs

/-- The number of bytes of the text of a row of trees. -/
def lengthOf : List Tree → Nat
  | [] => 0
  | c :: cs => c.length + lengthOf cs

end

mutual

/-- The number of nodes. -/
def size : Tree → Nat
  | leaf .. => 0
  | node _ cs => sizeOfRow cs + 1

/-- The number of nodes of a row of trees. -/
def sizeOfRow : List Tree → Nat
  | [] => 0
  | c :: cs => c.size + sizeOfRow cs

end

/-- An element of a tree as it is met on a walk: how many nodes enclose it, its kind and its
range. -/
structure Element where
  /-- The number of enclosing nodes. -/
  depth : Nat
  /-- The kind of the element. -/
  kind : Kind
  /-- The offset of the first byte. -/
  start : Nat
  /-- The offset behind the last byte. -/
  stop : Nat
deriving DecidableEq, Repr

mutual

/-- All elements in the order in which they begin, an enclosing one first. -/
def elements (depth start : Nat) : Tree → List Element
  | leaf k t => [⟨depth, .token k, start, start + t.length⟩]
  | node k cs =>
    ⟨depth, .node k, start, start + lengthOf cs⟩ :: elementsOf (depth + 1) start cs

/-- All elements of a row of trees. -/
def elementsOf (depth start : Nat) : List Tree → List Element
  | [] => []
  | c :: cs => elements depth start c ++ elementsOf depth (start + c.length) cs

end

end Tree

end StyleSheet
