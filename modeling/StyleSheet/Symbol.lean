import StyleSheet.Construct.Callable
import StyleSheet.Construct.Rule

/-!
# Symbols

A symbol is a name together with what it names and the node that declares it. `Symbol.declared` and
`Symbol.bound` say which symbols a node declares: the first are seen in the block around the node,
the second in the block that the node opens.
-/

namespace StyleSheet

/-- What a symbol names. -/
inductive SymbolKind where
  /-- A selector. -/
  | rule
  /-- A value, by a variable or a custom property. -/
  | value
  /-- A mixin. -/
  | mixin
  /-- A function. -/
  | function
  /-- An animation. -/
  | keyframe
deriving DecidableEq, Repr

namespace SymbolKind

/-- The word for the kind. -/
def name : SymbolKind → String
  | rule => "rule"
  | value => "variable"
  | mixin => "mixin"
  | function => "function"
  | keyframe => "keyframe"

/-- The place of the kind in the order of symbols. -/
def rank : SymbolKind → Nat
  | rule => 0
  | value => 1
  | mixin => 2
  | function => 3
  | keyframe => 4

/-- The kind that a word stands for. -/
def ofName? (word : String) : Option SymbolKind :=
  [rule, value, mixin, function, keyframe].find? fun k => k.name == word

end SymbolKind

/-- A name that has been declared. -/
structure Symbol where
  /-- What the symbol names. -/
  kind : SymbolKind
  /-- The name as it is written, with its sign. -/
  name : Text
  /-- The text of the value or of the default. -/
  value? : Option Text
  /-- The node that declares the name. -/
  node : Site
deriving Repr

namespace Symbol

/-- Whether the symbol answers to a kind and a name. -/
def answers (s : Symbol) (kind : SymbolKind) (name : Text) : Bool :=
  s.kind == kind && s.name == name

/-- The order of symbols: by kind, then by the bytes of the name. -/
def precedes (s t : Symbol) : Bool :=
  s.kind.rank < t.kind.rank || (s.kind == t.kind && decide (s.name < t.name))

/-- A symbol at a node; the empty name declares nothing. -/
def at? (node : Site) (kind : SymbolKind) (name : Text) (value? : Option Site) : Option Symbol :=
  if name.isEmpty then none else some ⟨kind, name, value?.map Site.trimmed, node⟩

/-! ## Tables -/

/-- Adds a symbol to a table in order. It takes the place of one of the same kind and name. -/
def insert (s : Symbol) : List Symbol → List Symbol
  | [] => [s]
  | t :: rest =>
    if t.answers s.kind s.name then s :: rest
    else if s.precedes t then s :: t :: rest
    else t :: insert s rest

/-- The symbol of a table that answers to a kind and a name. -/
def find? (table : List Symbol) (kind : SymbolKind) (name : Text) : Option Symbol :=
  List.find? (fun s => s.answers kind name) table

/-! ## Declarations -/

/-- How far a declaration reaches. -/
inductive Reach where
  /-- The block around it. -/
  | enclosing
  /-- The whole sheet. -/
  | everywhere
deriving DecidableEq, Repr

/-- The symbol of a selector that consists of one simple selector. -/
def ofSelector? (s : Site) : Option Symbol :=
  match s.children with
  | [only] => if only.kind == .simpleSelector then at? only .rule s.trimmed none else none
  | _ => none

/-- Whether a custom property reaches everywhere: it stands at the top level, or in a rule set for
the root element alone. -/
def isRootLevel (s : Site) : Bool :=
  match s.parent? with
  | none => true
  | some p =>
    p.kind == .stylesheet ||
      (p.kind == .declarations && p.parent?.any fun owner =>
        owner.kind == .ruleset &&
          let selectors := (Ruleset.ofSite owner).selectors
          !selectors.isEmpty && selectors.all fun l => l.trimmed == Text.ofString ":root")

/-- How far the declaration of a variable reaches. -/
def variableReach (d : VariableDeclaration) : Reach :=
  if d.flags.any fun f => f == Text.ofString "global" then .everywhere else .enclosing

/-- The symbols that a node declares for the block around it or for the whole sheet. -/
def declared (s : Site) : List (Reach × Symbol) :=
  match s.kind with
  | .ruleset => ((Ruleset.ofSite s).selectors.filterMap ofSelector?).map fun symbol =>
      (.enclosing, symbol)
  | .variableDeclaration =>
    let d := VariableDeclaration.ofSite s
    ((at? s .value (d.name?.getD []) d.value?).map fun symbol => (variableReach d, symbol)).toList
  | .customProperty =>
    let d := CustomProperty.ofSite s
    let reach := if isRootLevel s then Reach.everywhere else .enclosing
    ((at? s .value (d.name?.getD []) d.value?).map fun symbol => (reach, symbol)).toList
  | .mixinDeclaration => named .mixin (Callable.ofSite s).name?
  | .functionDeclaration => named .function (Callable.ofSite s).name?
  | .keyframes => named .keyframe (animationName? s)
  | _ => []
where
  /-- A name without a value. -/
  named (kind : SymbolKind) (name? : Option Text) : List (Reach × Symbol) :=
    ((at? s kind (name?.getD []) none).map fun symbol => (.enclosing, symbol)).toList

/-- The symbol of a parameter. -/
def ofParameter? (s : Site) : Option Symbol :=
  let p := Parameter.ofSite s
  at? s .value (p.name?.getD []) p.default?

/-- The symbol of a variable of a loop. -/
def ofLoopVariable? (s : Site) : Option Symbol := at? s .value s.trimmed none

/-- The symbols that the owner of a block declares for the block: parameters, and variables of
loops. -/
def bound (block : Site) : List Symbol :=
  match block.parent? with
  | none => []
  | some owner =>
    match owner.kind with
    | .mixinDeclaration | .functionDeclaration | .contentDeclaration =>
      ((owner.childrenOf .parameterList).flatMap fun l => l.childrenOf .parameter).filterMap
        ofParameter?
    | .forStatement => (countVariable? owner).toList.filterMap ofLoopVariable?
    | .eachStatement => (entryVariables owner).filterMap ofLoopVariable?
    | _ => []

end Symbol

end StyleSheet
