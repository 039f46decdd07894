import StyleSheet.Text

/-!
# Known names

The units, properties and at-rules that the library knows, and vocabularies that add names of the
caller to them.
-/

namespace StyleSheet

/-- The known units, in lower case. -/
def knownUnits : List Text := List.map Text.ofString [
  "px", "cm", "mm", "q", "in", "pt", "pc", "em", "rem", "ex", "rex", "ch", "rch", "cap", "rcap",
  "ic", "ric", "lh", "rlh", "vw", "vh", "vi", "vb", "vmin", "vmax", "svw", "svh", "svi", "svb",
  "svmin", "svmax", "lvw", "lvh", "lvi", "lvb", "lvmin", "lvmax", "dvw", "dvh", "dvi", "dvb",
  "dvmin", "dvmax", "cqw", "cqh", "cqi", "cqb", "cqmin", "cqmax", "fr", "deg", "grad", "rad",
  "turn", "s", "ms", "hz", "khz", "dpi", "dpcm", "dppx", "x"]

/-- The known at-rules, in lower case and with their at sign. -/
def knownAtRules : List Text := List.map Text.ofString [
  "@charset", "@import", "@namespace", "@media", "@supports", "@page", "@font-face", "@keyframes",
  "@-webkit-keyframes", "@-moz-keyframes", "@-o-keyframes", "@layer", "@container", "@property",
  "@counter-style", "@font-feature-values", "@font-palette-values", "@viewport", "@-ms-viewport",
  "@document", "@-moz-document", "@scope", "@starting-style", "@top-left-corner", "@top-left",
  "@top-center", "@top-right", "@top-right-corner", "@bottom-left-corner", "@bottom-left",
  "@bottom-center", "@bottom-right", "@bottom-right-corner", "@left-top", "@left-middle",
  "@left-bottom", "@right-top", "@right-middle", "@right-bottom"]

/-- The known properties, in lower case and without vendor marks. -/
def knownProperties : List Text := List.map Text.ofString [
  "align-content", "align-items", "align-self", "all", "animation", "animation-delay",
  "animation-direction", "animation-duration", "animation-fill-mode", "animation-iteration-count",
  "animation-name", "animation-play-state", "animation-timing-function", "appearance",
  "aspect-ratio", "backdrop-filter", "backface-visibility", "background", "background-attachment",
  "background-blend-mode", "background-clip", "background-color", "background-image",
  "background-origin", "background-position", "background-repeat", "background-size", "block-size",
  "border", "border-block", "border-bottom", "border-bottom-color", "border-bottom-left-radius",
  "border-bottom-right-radius", "border-bottom-style", "border-bottom-width", "border-collapse",
  "border-color", "border-image", "border-inline", "border-left", "border-left-color",
  "border-left-style", "border-left-width", "border-radius", "border-right", "border-right-color",
  "border-right-style", "border-right-width", "border-spacing", "border-style", "border-top",
  "border-top-color", "border-top-left-radius", "border-top-right-radius", "border-top-style",
  "border-top-width", "border-width", "bottom", "box-shadow", "box-sizing", "break-after",
  "break-before", "break-inside", "caption-side", "caret-color", "clear", "clip", "clip-path",
  "color", "column-count", "column-gap", "column-rule", "column-span", "column-width", "columns",
  "contain", "container", "container-name", "container-type", "content", "counter-increment",
  "counter-reset", "cursor", "direction", "display", "empty-cells", "fill", "filter", "flex",
  "flex-basis", "flex-direction", "flex-flow", "flex-grow", "flex-shrink", "flex-wrap", "float",
  "font", "font-display", "font-family", "font-feature-settings", "font-size", "font-stretch",
  "font-style", "font-variant", "font-weight", "gap", "grid", "grid-area", "grid-auto-columns",
  "grid-auto-flow", "grid-auto-rows", "grid-column", "grid-column-end", "grid-column-start",
  "grid-row", "grid-row-end", "grid-row-start", "grid-template", "grid-template-areas",
  "grid-template-columns", "grid-template-rows", "height", "hyphens", "inherits", "initial-value",
  "inline-size", "inset", "isolation", "justify-content", "justify-items", "justify-self", "left",
  "letter-spacing", "line-height", "list-style", "list-style-image", "list-style-position",
  "list-style-type", "margin", "margin-block", "margin-bottom", "margin-inline", "margin-left",
  "margin-right", "margin-top", "mask", "max-height", "max-width", "min-height", "min-width",
  "mix-blend-mode", "object-fit", "object-position", "opacity", "order", "orphans", "outline",
  "outline-color", "outline-offset", "outline-style", "outline-width", "overflow", "overflow-wrap",
  "overflow-x", "overflow-y", "padding", "padding-block", "padding-bottom", "padding-inline",
  "padding-left", "padding-right", "padding-top", "page-break-after", "page-break-before",
  "page-break-inside", "perspective", "perspective-origin", "place-content", "place-items",
  "place-self", "pointer-events", "position", "quotes", "resize", "right", "rotate", "row-gap",
  "scale", "scroll-behavior", "scroll-snap-type", "size", "src", "stroke", "stroke-width",
  "syntax", "tab-size", "table-layout", "text-align", "text-decoration", "text-decoration-color",
  "text-decoration-line", "text-decoration-style", "text-indent", "text-overflow", "text-shadow",
  "text-transform", "top", "transform", "transform-origin", "transform-style", "transition",
  "transition-delay", "transition-duration", "transition-property", "transition-timing-function",
  "translate", "unicode-bidi", "unicode-range", "user-select", "vertical-align", "visibility",
  "white-space", "widows", "width", "will-change", "word-break", "word-spacing", "word-wrap",
  "writing-mode", "z-index", "zoom"]

/-- Whether a text is a known unit, up to ASCII case. -/
def isUnit (unit : Text) : Bool := knownUnits.contains unit.lower

/-- What follows the vendor mark of a name such as `-x-name`, if the name has such a mark. -/
def withoutVendor? : Text → Option Text
  | [] => none
  | b :: rest => if b == byte '-' then Text.after? (byte '-') rest else none

/-- The lower-case form of the name of an at-rule, with its at sign. -/
def atRuleName (name : Text) : Text :=
  let name := name.lower
  if name.head? == some (byte '@') then name else byte '@' :: name

/-- The known names together with names of the caller. -/
structure Vocabulary where
  /-- Further properties, in lower case. -/
  properties : List Text
  /-- Further at-rules, in lower case and with their at sign. -/
  atRules : List Text
deriving DecidableEq, Repr

namespace Vocabulary

/-- The known names only. -/
def standard : Vocabulary := ⟨[], []⟩

/-- The known names together with the given properties and at-rules. -/
def withNames (properties atRules : List Text) : Vocabulary :=
  ⟨properties.map Text.lower, atRules.map atRuleName⟩

/-- Whether a property is known. Custom properties always are, and a vendor mark does not count
for the names that the library knows itself. -/
def knowsProperty (v : Vocabulary) (name : Text) : Bool :=
  if name.startsWith "--" then true
  else
    let name := name.lower
    knownProperties.contains name || v.properties.contains name ||
      (withoutVendor? name).any knownProperties.contains

/-- Whether an at-rule is known, written with or without its at sign. -/
def knowsAtRule (v : Vocabulary) (name : Text) : Bool :=
  knownAtRules.contains (atRuleName name) || v.atRules.contains (atRuleName name)

end Vocabulary

end StyleSheet
