import StyleSheet.Tree.Site

/-!
# What references to other files say

Records of what the nodes of rules that load other files hold, and the addresses that they name.
-/

namespace StyleSheet

namespace Address

/-- What stands between `url(` and `)`; any other text as it is. -/
def body (t : Text) : Text :=
  let inner := t.drop 4
  if t.startsWith "url(" && inner.getLast? == some (byte ')') then inner.dropLast else t

/-- An address without `url(` and `)`, white space and quotes around it. -/
def unquote (t : Text) : Text := (body t).trim.trimBytes Byte.isQuote

/-- The address in the first string or URL inside of a node. -/
def ofSite? (s : Site) : Option Text :=
  (s.tree.leaves.find? fun l => l.kind == .string || l.kind == .url).map fun l => unquote l.text

end Address

/-- The addresses of a rule that imports other sheets. -/
def importAddresses (s : Site) : List Text :=
  (s.children.filter fun c =>
    c.kind == .stringLiteral || c.kind == .uriLiteral || c.kind == .term).map fun c =>
      (Address.ofSite? c).getD (Address.unquote c.trimmed)

/-- A rule that loads a module for use. -/
structure ModuleUse where
  /-- The address of the module. -/
  address? : Option Text
  /-- The name under which its members are found, `*` if they need none. -/
  alias? : Option Text
deriving DecidableEq, Repr

/-- Reads a node as a rule that loads a module for use. -/
def ModuleUse.ofSite (s : Site) : ModuleUse where
  address? := Address.ofSite? s
  alias? := if (s.tokenText? .star).isSome then some [byte '*'] else s.childText? .identifier

/-- A rule that hands the members of a module on. -/
structure ModuleForward where
  /-- The address of the module. -/
  address? : Option Text
  /-- The members that are listed to be shown or hidden. -/
  members : List Text
deriving DecidableEq, Repr

/-- Reads a node as a rule that hands the members of a module on. -/
def ModuleForward.ofSite (s : Site) : ModuleForward where
  address? := Address.ofSite? s
  members := ((s.child? .forwardVisibility).map fun l => l.children.map Site.trimmed).getD []

end StyleSheet
