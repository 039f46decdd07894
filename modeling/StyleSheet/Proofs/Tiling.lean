import Mathlib
import StyleSheet.Proofs.Tokens

/-!
# Tokens fill their source

Reading a source leaves no byte out and takes none twice: the first token starts at the first byte,
each further one starts where the token before it ends, and the last one ends with the source.
Whatever a lexeme takes, also behind a raw url, a broken string or half of a character, it takes at
least one byte and stays inside of what is left.
-/

namespace StyleSheet.Token

namespace Tiles

variable {lo hi : Nat} {l : List Token}

lemma eq_of_nil (h : Tiles lo [] hi) : lo = hi := h

/-- The first token starts at the lower bound. -/
lemma start_head (h : Tiles lo l hi) {t : Token} (ht : l.head? = some t) : t.start = lo := by
  cases l with
  | nil => cases ht
  | cons u rest =>
      obtain rfl : u = t := by simpa using ht
      exact h.1

/-- Each token starts where the one before it ends. -/
lemma isChain (h : Tiles lo l hi) : l.IsChain fun a b => a.stop = b.start := by
  induction l generalizing lo with
  | nil => exact .nil
  | cons t rest ih =>
      cases rest with
      | nil => exact .singleton t
      | cons u rest => exact .cons_cons h.2.2.1.symm (ih h.2.2)

/-- The last token ends at the upper bound. -/
lemma stop_getLast (h : Tiles lo l hi) {t : Token} (ht : l.getLast? = some t) : t.stop = hi := by
  induction l generalizing lo with
  | nil => cases ht
  | cons u rest ih =>
      cases rest with
      | nil =>
          obtain rfl : u = t := by simpa using ht
          exact h.2.2
      | cons v rest =>
          rw [List.getLast?_cons_cons] at ht
          exact ih h.2.2 ht

end Tiles

/-- The tokens of a source are not empty. The first one starts at offset zero, each further one
starts where the token before it ends, and the last one ends with the source. Only an empty source
has no tokens. -/
theorem read_fills_source (d : Dialect) (source : Text) :
    (∀ t ∈ read d source, t.start < t.stop) ∧
      (∀ t, (read d source).head? = some t → t.start = 0) ∧
      ((read d source).IsChain fun a b => a.stop = b.start) ∧
      (∀ t, (read d source).getLast? = some t → t.stop = source.length) ∧
      (read d source = [] ↔ source = []) := by
  have htiles : Tiles 0 (read d source) source.length := by
    simpa [read] using readFrom_tiles d 0 source
  refine ⟨fun t ht => (htiles.ordered.mem ht).2.1, fun t => htiles.start_head, htiles.isChain,
    fun t => htiles.stop_getLast, ?_⟩
  constructor
  · intro hnil
    rw [hnil] at htiles
    exact List.length_eq_zero_iff.1 htiles.eq_of_nil.symm
  · rintro rfl
    simp [read, readFrom]

-- A raw url, a number with an exponent and a unit, an escape that takes half of a character, the
-- other half, and a string without its end.
example :
    (read .css (Text.ofString "url( a )1e3px \\é'x")).map (fun t => (t.kind, t.start, t.stop)) =
    [(.url, 0, 8), (.dimension, 8, 13), (.whitespace, 13, 14), (.ident, 14, 16), (.unknown, 16, 17),
      (.badString, 17, 19)] := by
  decide +kernel

end StyleSheet.Token
