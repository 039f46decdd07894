import StyleSheet.Event
import StyleSheet.Token
import StyleSheet.Tree

/-!
# Building a tree

The steps of reading name only significant tokens. The builder puts the white space and the comments
back: those before a node or a token go to the node that is open there, and what is left at the end
goes to the root. Each fault becomes an empty error node and a diagnostic at the token that stands
there.
-/

namespace StyleSheet.Tree

/-- An open node with the parts it has so far, the latest one first. -/
structure Frame where
  /-- The kind of the node. -/
  kind : NodeKind
  /-- Its parts so far, the latest one first. -/
  parts : List Tree
deriving Repr

/-- A tree that is being built. -/
structure Builder where
  /-- The open nodes, the innermost one first. -/
  frames : List Frame
  /-- The tokens that have no place yet. -/
  pending : List Token
  /-- The closed outermost nodes, the latest one first. -/
  roots : List Tree
  /-- The diagnostics so far, the latest one first. -/
  diagnostics : List Diagnostic
deriving Repr

namespace Builder

/-- The builder before the first step. -/
def ofTokens (tokens : List Token) : Builder := ⟨[], tokens, [], []⟩

/-- Adds a part to the innermost open node. -/
def add (b : Builder) (part : Tree) : Builder :=
  match b.frames with
  | [] => { b with roots := part :: b.roots }
  | f :: rest => { b with frames := { f with parts := part :: f.parts } :: rest }

/-- Adds tokens as leaves. -/
def addTokens (b : Builder) (tokens : List Token) : Builder :=
  tokens.foldl (fun b t => b.add (.leaf t.kind t.text)) b

/-- Adds the white space and the comments that come next. -/
def addTrivia (b : Builder) : Builder :=
  let trivia := b.pending.takeWhile Token.isTrivia
  { b with pending := b.pending.drop trivia.length }.addTokens trivia

/-- Adds all tokens that are left. -/
def addRest (b : Builder) : Builder := { b with pending := [] }.addTokens b.pending

/-- Opens a node. -/
def openNode (b : Builder) (kind : NodeKind) : Builder :=
  let b := if b.frames.isEmpty then b else b.addTrivia
  { b with frames := ⟨kind, []⟩ :: b.frames }

/-- Takes the next significant token. -/
def token (b : Builder) : Builder :=
  let b := b.addTrivia
  match b.pending with
  | [] => b
  | t :: rest => { b with pending := rest }.add (.leaf t.kind t.text)

/-- Records a fault in a source of `length` bytes. -/
def report (b : Builder) (length : Nat) (fault : Fault) : Builder :=
  let b := b.addTrivia
  let diagnostic : Diagnostic := match b.pending with
    | [] => ⟨fault, length, length⟩
    | t :: _ => ⟨fault, t.start, t.stop⟩
  { b with diagnostics := diagnostic :: b.diagnostics }.add (.node .error [])

/-- Closes the innermost open node; the outermost one first takes all tokens that are left. -/
def closeNode (b : Builder) : Builder :=
  let b := if b.frames.length = 1 then b.addRest else b
  match b.frames with
  | [] => b
  | f :: rest => { b with frames := rest }.add (.node f.kind f.parts.reverse)

/-- Carries out one step in a source of `length` bytes. -/
def step (length : Nat) (b : Builder) : Step → Builder
  | .opening kind => b.openNode kind
  | .token => b.token
  | .closing => b.closeNode
  | .fault fault => b.report length fault

/-- Carries out steps over the tokens of a source of `length` bytes. -/
def run (length : Nat) (tokens : List Token) (steps : List Step) : Builder :=
  steps.foldl (step length) (ofTokens tokens)

/-- The first closed outermost node. -/
def root? (b : Builder) : Option Tree := b.roots.getLast?

end Builder

end StyleSheet.Tree
