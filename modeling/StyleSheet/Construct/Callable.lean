import StyleSheet.Tree.Site

/-!
# What definitions, calls and loops say

Records of what the nodes of mixins, functions, animations and loops hold.
-/

namespace StyleSheet

/-- A parameter of a mixin or a function. -/
structure Parameter where
  /-- The name with its sign; a pattern has none. -/
  name? : Option Text
  /-- The default value. -/
  default? : Option Site
  /-- Whether the parameter takes all further arguments. -/
  isRest : Bool
deriving Repr

/-- Reads a node as a parameter. -/
def Parameter.ofSite (s : Site) : Parameter where
  name? := s.childText? .variableName
  default? := s.child? .expression
  isRest := (s.tokenText? .ellipsis).isSome

/-- A definition of a mixin or a function. -/
structure Callable where
  /-- The name. -/
  name? : Option Text
  /-- The parameters. -/
  parameters : List Site
deriving Repr

/-- Reads a node as a definition of a mixin or a function. -/
def Callable.ofSite (s : Site) : Callable where
  name? := s.childText? .identifier
  parameters := ((s.child? .parameterList).map fun l => l.childrenOf .parameter).getD []

/-- The name of the mixin that a node refers to: the last part of its path. -/
def mixinName? (s : Site) : Option Text := (s.childrenOf .identifier).getLast?.map Site.trimmed

/-- A call of a function in a value. -/
structure Call where
  /-- The name of the function. -/
  name? : Option Text
  /-- The arguments. -/
  arguments : List Site
deriving Repr

/-- Reads a node as a call. -/
def Call.ofSite (s : Site) : Call where
  name? := s.childText? .identifier
  arguments := ((s.child? .argumentList).map fun l => l.childrenOf .argument).getD []

/-- The name of an animation, without quotes. -/
def animationName? (s : Site) : Option Text :=
  (s.children.find? fun c => c.kind == .identifier || c.kind == .stringLiteral).map fun c =>
    c.trimmed.trimBytes Byte.isQuote

/-- The variable of a loop that counts. -/
def countVariable? (s : Site) : Option Site := s.child? .variableName

/-- The variables of a loop over the entries of a list. -/
def entryVariables (s : Site) : List Site :=
  ((s.child? .variableList).map fun l => l.childrenOf .variableName).getD []

end StyleSheet
