import Mathlib
import StyleSheet.Proofs.Boundary
import StyleSheet.Proofs.Termination

/-!
# The tree keeps the source

The leaves of a parsed tree are the tokens that the parser has in the end, whether the source has
faults or not and whatever ranges have been cut. They spell the source unless a token ends inside of
a character: such a token has no text of its own, and no cut brings it back.
-/

namespace StyleSheet

open Token

variable (d : Dialect) (entry : Entry) (source : Text)

lemma leaves_parse : (parse d entry source).root.tree.leaves =
    (readSource d entry source).tokens.toList.map Token.leaf := by
  obtain ⟨kind, inner, hsteps, hbalanced⟩ := Entry.steps_readSource d entry source
  obtain ⟨kind', cs, hroot, hleaves⟩ := Tree.Builder.run_node source.length
    (readSource d entry source).tokens.toList kind hbalanced
  rw [parse, Parsed.ofParser, builtRoot, hsteps, hroot]
  exact hleaves

lemma text_parse : (parse d entry source).root.text =
    texts (readSource d entry source).tokens.toList := by
  rw [Site.text, Tree.text, leaves_parse, List.flatMap_map]
  rfl

/-- The tree has the text of the source if and only if every token of the source has its text. -/
lemma text_parse_eq_iff : (parse d entry source).root.text = source ↔
    ∀ t ∈ read d source, t.isWhole = true := by
  have hhistory := (Entry.consistent_readSource d entry source).history
  have hrow := read_row d source
  rw [text_parse]
  constructor
  · intro htext
    by_contra hwhole
    push Not at hwhole
    obtain ⟨t, ht, hlacks⟩ := hwhole
    have hlt := hrow.ordered.length_texts_lt hrow.regular ⟨t, ht, by simpa using hlacks⟩
    -- A cut never adds bytes, so what is missing at first is missing in the end.
    have hle := hhistory.length_texts_le hrow
    rw [htext] at hle
    omega
  · intro hwhole
    rw [(hhistory.texts_eq hrow hwhole).2]
    exact texts_readFrom d 0 source hwhole

/-- The leaves of the tree are the final tokens of the parser, each of them once and in order. The
text of the root is the source if and only if no token of the source ends strictly inside of a
character. -/
theorem parse_lossless (s : String) :
    (parse d entry (Text.ofString s)).root.tree.leaves =
        (readSource d entry (Text.ofString s)).tokens.toList.map Token.leaf ∧
      ((parse d entry (Text.ofString s)).root.text = Text.ofString s ↔
        ∀ t ∈ read d (Text.ofString s), ¬ InsideCharacter s.toList t.stop) :=
  ⟨leaves_parse d entry _, (text_parse_eq_iff d entry _).trans (whole_iff d s)⟩

-- A backslash and the first byte of a character make up a token.
example : (parse .css .selector (Text.ofString "\\é")).root.text = [] := by decide +kernel

end StyleSheet
