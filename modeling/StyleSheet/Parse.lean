import StyleSheet.Grammar
import StyleSheet.Tree.Builder
import StyleSheet.Tree.Site

/-!
# Parsing

`parse` reads a source as a whole style sheet or as a single construct. It always gives a tree; what
is wrong with the source is said by the diagnostics, and marked in the tree by empty error nodes.
-/

namespace StyleSheet

/-- What a source is read as. -/
inductive Entry where
  /-- A whole style sheet. -/
  | stylesheet
  /-- One rule set. -/
  | ruleset
  /-- One declaration, perhaps with a semicolon. -/
  | declaration
  /-- One expression. -/
  | expression
  /-- One at-rule, perhaps with a semicolon. -/
  | atRule
  /-- One selector. -/
  | selector
deriving DecidableEq, Repr

namespace Entry

open Rule

/-- The kind of the root of the tree. -/
def rootKind : Entry → NodeKind
  | stylesheet => .stylesheet
  | _ => .fragment

/-- The rule that reads the source. What is left over behind a single construct goes to the root. -/
def rule : Entry → Rule
  | stylesheet => call .stylesheet
  | ruleset => group .fragment (call (.ruleset false))
  | declaration =>
    group .fragment ((call .variableDeclaration ||| call .declaration) >> token .semicolon)
  | expression => group .fragment (call (.expression false))
  | atRule => group .fragment (call (.atRule false) >> token .semicolon)
  | selector => group .fragment (call .selector)

end Entry

/-- The result of parsing. -/
structure Parsed where
  /-- The root of the tree. -/
  root : Site
  /-- What is wrong with the source, in the order of the tree. -/
  diagnostics : List Diagnostic
  /-- Whether all significant tokens have been read. -/
  complete : Bool
deriving Repr

/-- The state of the parser after a source has been read. Were the bound of the grammar too small,
all tokens would be left to the root. -/
def readSource (d : Dialect) (entry : Entry) (source : Text) : Parser :=
  let p := Parser.ofSource d source
  match Grammar.exec d (Grammar.bound source.length) entry.rule p with
  | some outcome => outcome.parser
  | none => p.openNode.closeNode 0 entry.rootKind

/-- The root of a tree that has been built, an empty one of the given kind if nothing was. -/
def builtRoot (kind : NodeKind) (b : Tree.Builder) : Site :=
  (b.root?.bind Site.ofTree?).getD (.ofNode kind [])

/-- The result of parsing, from the state after a source of `length` bytes has been read. -/
def Parsed.ofParser (kind : NodeKind) (length : Nat) (p : Parser) : Parsed :=
  let built := Tree.Builder.run length p.tokens.toList (Event.steps p.events)
  { root := builtRoot kind built
    diagnostics := built.diagnostics.reverse
    complete := p.stream.isExhausted }

/-- Parses a source. -/
def parse (d : Dialect) (entry : Entry) (source : Text) : Parsed :=
  Parsed.ofParser entry.rootKind source.length (readSource d entry source)

namespace Parsed

/-- The construct that was read, if the source begins one: the first part of the root that is a node
and not an error. -/
def construct? (p : Parsed) : Option Site := p.root.items.head?

/-- The error nodes of the tree, each with its diagnostic. -/
def marks (p : Parsed) : List (Site × Diagnostic) :=
  (p.root.descendants.filter fun s => s.kind == .error).zip p.diagnostics

/-- The diagnostics whose error nodes are direct parts of a node, out of all marks of its tree. -/
def issuesAmong (marks : List (Site × Diagnostic)) (s : Site) : List Diagnostic :=
  (marks.filter fun m => m.1.parent?.any (·.isSame s)).map Prod.snd

/-- The diagnostics whose error nodes are direct parts of a node. -/
def issues (p : Parsed) (s : Site) : List Diagnostic := issuesAmong p.marks s

/-- Adds a node to a list unless it is there already. -/
def insertNode (found : List Site) (s : Site) : List Site :=
  if found.any (·.isSame s) then found else found ++ [s]

/-- The nodes that have error nodes as direct parts, each of them once and with its diagnostics. -/
def issueTable (p : Parsed) : List (Site × List Diagnostic) :=
  let marks := p.marks
  let nodes := (marks.filterMap fun m => m.1.parent?).foldl insertNode []
  nodes.map fun s => (s, issuesAmong marks s)

end Parsed

end StyleSheet
