import StyleSheet.Tree.Site

/-!
# Nodes at an offset, and walks

A node reaches from its first byte to behind its last one, both ends included, so a position
directly behind a node still belongs to it. `Site.path` gives the nodes at an offset from the
outside to the inside; of two neighbours that touch there the later one is taken. `Site.walk` visits
a node and the nodes inside of it, except those inside of nodes that are not entered. `Site.tour`
goes around a node: it says where each node begins and where it ends.
-/

namespace StyleSheet

/-- The greatest offset that a position in a text can have. -/
def maxOffset : Nat := UInt32.size - 1

/-- A step of a tour around a tree. -/
inductive Turn where
  /-- A node begins. -/
  | enter (s : Site)
  /-- A node ends. -/
  | leave (s : Site)
deriving Repr

namespace Tree

/-- Whether a tree that starts at `start` reaches to an offset. -/
def reaches (t : Tree) (start offset : Nat) : Bool := start ≤ offset && offset ≤ start + t.length

mutual

/-- A node and the nodes inside of it that reach to an offset, each one inside of the one before. -/
def path (offset : Nat) (above : List Place) (start : Nat) : Tree → List Site
  | leaf .. => []
  | node k cs => ⟨⟨k, cs, start⟩, above⟩ :: pathOf offset (⟨k, cs, start⟩ :: above) start cs

/-- The path of the last node of a row that reaches to an offset. -/
def pathOf (offset : Nat) (above : List Place) (start : Nat) : List Tree → List Site
  | [] => []
  | c :: cs =>
    match pathOf offset above (start + c.length) cs with
    | [] => if c.reaches start offset then c.path offset above start else []
    | found => found

end

mutual

/-- The sites of a tree, without those inside of nodes that are not entered. -/
def walk (enters : Site → Bool) (above : List Place) (start : Nat) : Tree → List Site
  | leaf .. => []
  | node k cs =>
    let here : Site := ⟨⟨k, cs, start⟩, above⟩
    here :: if enters here then walkOf enters (here.here :: above) start cs else []

/-- The sites of a row of trees, without those inside of nodes that are not entered. -/
def walkOf (enters : Site → Bool) (above : List Place) (start : Nat) : List Tree → List Site
  | [] => []
  | c :: cs => walk enters above start c ++ walkOf enters above (start + c.length) cs

end

mutual

/-- The beginnings and ends of the nodes of a tree, in order. -/
def tour (above : List Place) (start : Nat) : Tree → List Turn
  | leaf .. => []
  | node k cs =>
    let here : Site := ⟨⟨k, cs, start⟩, above⟩
    .enter here :: (tourOf (here.here :: above) start cs ++ [.leave here])

/-- The beginnings and ends of the nodes of a row of trees, in order. -/
def tourOf (above : List Place) (start : Nat) : List Tree → List Turn
  | [] => []
  | c :: cs => tour above start c ++ tourOf above (start + c.length) cs

end

end Tree

namespace Site

/-- The nodes at an offset, from the node itself to the innermost one. -/
def path (s : Site) (offset : Nat) : List Site :=
  if offset ≤ maxOffset then s.tree.path offset s.above s.start else [s]

/-- The innermost node at an offset, the node itself if the offset lies outside of it. -/
def innermostAt (s : Site) (offset : Nat) : Site := (s.path offset).getLastD s

/-- The node and the nodes inside of it, in the order in which they begin, without those inside of
nodes that are not entered. -/
def walk (s : Site) (enters : Site → Bool) : List Site := s.tree.walk enters s.above s.start

/-- The beginnings and ends of the node and of the nodes inside of it, in order. -/
def tour (s : Site) : List Turn := s.tree.tour s.above s.start

/-- The kinds of the node and of all nodes inside of it. -/
def kinds (s : Site) : List NodeKind := s.descendants.map kind

end Site

end StyleSheet
