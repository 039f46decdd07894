import StyleSheet.Symbol
import StyleSheet.Tree.Path

/-!
# Scopes

Each block in braces is a scope inside of the scope around it, and the whole tree is the outermost,
global one. A scope holds the symbols that are declared for it, and a name is looked up from the
innermost scope outwards. `Scopes.ofSite` finds the scopes of a tree on one tour around it.
-/

namespace StyleSheet

/-- A scope. -/
structure Scope where
  /-- The offset of the first byte. -/
  start : Nat
  /-- The offset behind the last byte. -/
  stop : Nat
  /-- The number of the scope around it. -/
  parent? : Option Nat
  /-- The numbers of the scopes directly inside of it, in the order in which they begin. -/
  children : List Nat
  /-- The symbols that are declared for the scope, in their order, each kind and name once. -/
  symbols : List Symbol
deriving Repr

namespace Scope

/-- A scope of a node, with neither scopes in it nor symbols. -/
def ofSite (s : Site) (parent? : Option Nat) : Scope := ⟨s.start, s.stop, parent?, [], []⟩

/-- The number of bytes. -/
def length (s : Scope) : Nat := s.stop - s.start

/-- Whether an offset lies in the scope. The offset behind the last byte does not. -/
def contains (s : Scope) (offset : Nat) : Bool := s.start ≤ offset && offset < s.stop

/-- Adds a scope directly inside, behind those that are already there. -/
def addChild (s : Scope) (child : Nat) : Scope := { s with children := s.children ++ [child] }

/-- Adds a symbol; it takes the place of one of the same kind and name. -/
def declare (s : Scope) (symbol : Symbol) : Scope := { s with symbols := symbol.insert s.symbols }

/-- The symbol that is declared for this scope. -/
def symbol? (s : Scope) (kind : SymbolKind) (name : Text) : Option Symbol :=
  Symbol.find? s.symbols kind name

end Scope

/-- The scopes of a tree, numbered in the order in which they begin. -/
structure Scopes where
  /-- All scopes. Number 0 is the global one. -/
  all : List Scope
deriving Repr

namespace Scopes

/-- The number of the global scope. -/
def global : Nat := 0

/-- The number of scopes. -/
def size (g : Scopes) : Nat := g.all.length

/-- Adds a scope for a block. -/
def push (g : Scopes) (parent : Nat) (block : Site) : Scopes :=
  ⟨(g.all ++ [Scope.ofSite block (some parent)]).modify parent fun s => s.addChild g.size⟩

/-- Declares a symbol for a scope. -/
def declare (g : Scopes) (scope : Nat) (symbol : Symbol) : Scopes :=
  ⟨g.all.modify scope fun s => s.declare symbol⟩

/-! ## Finding the scopes of a tree -/

/-- Scopes on a tour around a tree. -/
structure Builder where
  /-- The scopes found so far. -/
  scopes : Scopes
  /-- The numbers of the scopes that have begun and not yet ended, the innermost one first. -/
  opened : List Nat

namespace Builder

/-- The beginning of a tour around a node. -/
def ofSite (s : Site) : Builder := ⟨⟨[.ofSite s none]⟩, [global]⟩

/-- The innermost scope that has not yet ended. -/
def current (b : Builder) : Nat := b.opened.head?.getD global

/-- The scope that a declaration is for. -/
def target (b : Builder) : Symbol.Reach → Nat
  | .enclosing => b.current
  | .everywhere => global

/-- Begins the scope of a block and declares the symbols that are bound in it. -/
def openBlock (b : Builder) (block : Site) : Builder :=
  let scope := b.scopes.size
  ⟨(Symbol.bound block).foldl (fun g symbol => g.declare scope symbol)
    (b.scopes.push b.current block), scope :: b.opened⟩

/-- Declares the symbols of a node. -/
def declareAll (b : Builder) (s : Site) : Builder :=
  { b with scopes := (Symbol.declared s).foldl (fun g d => g.declare (b.target d.1) d.2) b.scopes }

/-- One step of a tour. -/
def step (b : Builder) : Turn → Builder
  | .enter s => if s.kind = .declarations then b.openBlock s else b.declareAll s
  | .leave s => if s.kind = .declarations then { b with opened := b.opened.tail } else b

end Builder

/-- The scopes of the tree below a node. -/
def ofSite (s : Site) : Scopes := (s.tour.foldl Builder.step (.ofSite s)).scopes

/-! ## Looking up -/

/-- The number of the scope around a scope. -/
def parent? (g : Scopes) (i : Nat) : Option Nat := g.all[i]?.bind Scope.parent?

/-- The numbers of the scopes directly inside of a scope, in order. -/
def children (g : Scopes) (i : Nat) : List Nat := (g.all[i]?.map Scope.children).getD []

/-- Whether an offset lies in a scope. -/
def contains (g : Scopes) (i offset : Nat) : Bool := g.all[i]?.any fun s => s.contains offset

/-- The innermost scope inside of scope `i` that contains an offset, `i` itself if there is none. -/
def locate (g : Scopes) (offset i : Nat) : Nat :=
  match (g.children i).find? fun c => g.contains c offset with
  | some c => if i < c ∧ c < g.size then g.locate offset c else i
  | none => i
termination_by g.size - i

/-- The innermost scope at an offset. -/
def innermostAt (g : Scopes) (offset : Nat) : Nat :=
  if offset ≤ maxOffset then g.locate offset global else global

/-- The symbol that a scope itself declares. -/
def symbol? (g : Scopes) (i : Nat) (kind : SymbolKind) (name : Text) : Option Symbol :=
  g.all[i]?.bind fun s => s.symbol? kind name

/-- The symbol that a name means in a scope: that of the nearest scope around which declares it. -/
def lookup (g : Scopes) (i : Nat) (kind : SymbolKind) (name : Text) : Option Symbol :=
  match g.symbol? i kind name with
  | some symbol => some symbol
  | none =>
    match g.parent? i with
    | some p => if p < i then g.lookup p kind name else none
    | none => none
termination_by i

/-- The symbol that a name means at an offset. -/
def lookupAt (g : Scopes) (offset : Nat) (kind : SymbolKind) (name : Text) : Option Symbol :=
  g.lookup (g.innermostAt offset) kind name

end Scopes

end StyleSheet
