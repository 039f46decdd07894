import Mathlib
import StyleSheet.Proofs.Isolation
import StyleSheet.Proofs.LeafTexts
import StyleSheet.Proofs.Numerals

/-!
# Numbers and their units

A number, a percentage and a number with a unit are single tokens. Where the number ends is found
twice, once where the source is read and once where the text of the token is split. Both find the
same end: what the second one sees is the text that the first one has measured, cut off behind the
unit, and no longer numeral begins there (`Numeral.Measures.take`). So all of these tokens can be
split, and so can the tokens of all numeric values of a tree, also where a range of code points has
been cut and read anew.
-/

namespace StyleSheet

open Token

/-- What stands behind the number in the tokens of a kind. -/
def IsUnitOf (kind : TokenKind) (unit : Text) : Prop :=
  match kind with
  | .number => unit = []
  | .percentage => unit = [byte '%']
  | .dimension => isUnit unit = true
  | _ => False

/-- The text of a token is split into a number and a unit of its kind. -/
def Splits (kind : TokenKind) (text : Text) : Prop :=
  ∃ n unit, Numeral.split? text = some (n, unit) ∧ IsUnitOf kind unit

lemma isUnit_nil : isUnit [] = false := by decide +kernel

/-- Only numbers alone have nothing behind them. -/
lemma IsUnitOf.eq_nil_iff {kind : TokenKind} {unit : Text} (h : IsUnitOf kind unit) :
    unit = [] ↔ kind = .number := by
  unfold IsUnitOf at h
  split at h
  · simp [h]
  · simp [h]
  · simp only [reduceCtorEq, iff_false]
    rintro rfl
    cases isUnit_nil.symm.trans h
  · exact h.elim

lemma IsUnitOf.ascii {kind : TokenKind} {unit : Text} (h : IsUnitOf kind unit) :
    ∀ b ∈ unit, b < 0x80 := by
  have hall : knownUnits.all (·.all (· < 0x80)) = true := by decide +kernel
  have hunits : ∀ u ∈ knownUnits, ∀ b ∈ u, b < 0x80 := by
    simpa only [List.all_eq_true, decide_eq_true_eq] using hall
  have hlower : ∀ b, Byte.lower b < 0x80 → b < 0x80 := by decide +kernel
  intro b hb
  unfold IsUnitOf at h
  split at h
  · rw [h] at hb
    cases hb
  · rw [h, List.mem_singleton] at hb
    rw [hb]
    decide
  · exact hlower b (hunits _ (List.contains_iff_mem.1 h) _ (List.mem_map_of_mem hb))
  · exact h.elim

namespace Lexeme

variable {d : Dialect} {t : Text}

/-! ## What numeric lexemes are made of -/

lemma number_of_simple (h : (simple d t).kind = .number) :
    Numeral.numberLength t ≠ 0 ∧ simple d t = ⟨.number, Numeral.numberLength t⟩ := by
  have hreader := reader_simple d t
  rw [h] at hreader
  refine ⟨fun hzero => ?_, eq_of_ofLength? hreader⟩
  rw [reader, number?, hzero] at hreader
  cases hreader

/-- A numeric lexeme is a number and a unit of its kind. -/
lemma numeric_spec (h : Quantity.isNumeric (read d t).kind = true) :
    Numeral.numberLength t ≠ 0 ∧ ∃ unit behind, t.drop (Numeral.numberLength t) = unit ++ behind ∧
      (read d t).length = Numeral.numberLength t + unit.length ∧ IsUnitOf (read d t).kind unit := by
  rcases read_cases d t with hread | ⟨-, hread⟩ | ⟨hsimple, hread⟩
  · have hkind : (simple d t).kind = .number := by
      have hne := kind_simple_notMem d t
      simp only [hread, Quantity.isNumeric, Bool.or_eq_true, beq_iff_eq] at h
      simp only [joinedKinds, List.mem_cons, List.not_mem_nil, not_or] at hne
      tauto
    obtain ⟨hpos, hsimple⟩ := number_of_simple hkind
    refine ⟨hpos, [], _, rfl, ?_, ?_⟩
    · rw [hread, hsimple]
      rfl
    · rw [hread, hkind]
      rfl
  · rw [(url?_le hread).2] at h
    cases h
  · obtain ⟨hpos, hsimple⟩ := number_of_simple hsimple
    refine ⟨hpos, ?_⟩
    rw [hsimple] at hread
    rcases measure?_cases hread with ⟨hkind, hread⟩ | ⟨hkind, hunit, hread⟩
    · obtain ⟨rest, hrest, hlength⟩ := mark_of_simple [byte '%'] (by decide) rfl hkind
      refine ⟨[byte '%'], rest, hrest, ?_, ?_⟩
      · rw [hread, hlength, List.length_singleton]
      · rw [hread]
        rfl
    · have hne : t.drop (Numeral.numberLength t) ≠ [] := by
        intro hnil
        rw [hnil, kind_simple_nil] at hkind
        cases hkind
      refine ⟨_, _,
        (List.take_append_drop (simple d (t.drop (Numeral.numberLength t))).length _).symm, ?_, ?_⟩
      · rw [hread, List.length_take, min_eq_left (length_simple_le d hne)]
      · rw [hread]
        exact hunit

/-- What a numeric lexeme takes is split as its kind says. -/
lemma splits_take_read (h : Quantity.isNumeric (read d t).kind = true) :
    Splits (read d t).kind (t.take (read d t).length) := by
  obtain ⟨hpos, unit, behind, hdrop, hlength, hunit⟩ := numeric_spec h
  refine ⟨_, _, Numeral.split?_take hpos (by omega), ?_⟩
  rwa [hlength, List.drop_take, Nat.add_sub_cancel_left, hdrop, List.take_left]

/-- The bytes of numbers and units are ASCII. -/
lemma ascii_of_numeric (h : Quantity.isNumeric (read d t).kind = true) :
    ∀ b ∈ t.take (read d t).length, b < 0x80 := by
  obtain ⟨hpos, unit, behind, hdrop, hlength, hunit⟩ := numeric_spec h
  rw [hlength, List.take_add, hdrop, List.take_left]
  intro b hb
  rcases List.mem_append.1 hb with hb | hb
  · have hword := Numeral.measures_length.found t (by rwa [Numeral.length_eq_numberLength hpos])
    rw [Numeral.length_eq_numberLength hpos] at hword
    exact Numeral.ascii_of_mem_numerals hword b hb
  · exact hunit.ascii b hb

/-! ## What stands behind a number -/

lemma measure?_of_number (h : (read d t).kind = .number) :
    measure? d t (read d t).length = none := by
  have hread : read d t = simple d t := read_eq_simple (by rw [h]; decide)
  rw [hread] at h ⊢
  cases hmeasure : measure? d t (simple d t).length with
  | none => rfl
  | some l =>
      have hl : read d t = l := by simp [read, h, hmeasure]
      rw [← hread, hl] at h
      rcases measure?_cases hmeasure with ⟨-, rfl⟩ | ⟨-, -, rfl⟩
      all_goals cases h

/-- Neither a percent sign nor a unit is left behind a number. -/
lemma read_behind_number (h : (read d t).kind = .number) {behind : Text}
    (hbehind : t.drop (read d t).length = behind) :
    (read d behind).kind ≠ .percent ∧
      ((read d behind).kind = .ident → isUnit (behind.take (read d behind).length) = false) := by
  have hnone := measure?_of_number h
  rw [measure?, hbehind] at hnone
  constructor
  · intro hkind
    have hread : read d behind = simple d behind := read_eq_simple (by rw [hkind]; decide)
    rw [hread] at hkind
    simp [hkind] at hnone
  · intro hkind
    have hread : read d behind = simple d behind := read_eq_simple (by rw [hkind]; decide)
    rw [hread] at hkind ⊢
    simpa [hkind] using hnone

end Lexeme

namespace Token

variable {d : Dialect}

/-- If the first token is a number, then the second one is not what could be joined with it. -/
def Separate (a b : Token) : Prop :=
  a.kind = .number → b.kind ≠ .percent ∧ ¬ (b.kind = .ident ∧ isUnit b.text = true)

lemma isChain_readFrom (d : Dialect) (offset : Nat) (t : Text) :
    (readFrom d offset t).IsChain Separate := by
  fun_induction readFrom d offset t with
  | case1 offset => exact .nil
  | case2 offset b rest l ih =>
      refine List.isChain_cons.2 ⟨fun u hu hnumber => ?_, ih⟩
      cases hbehind : (b :: rest).drop l.length with
      | nil =>
          rw [hbehind, readFrom] at hu
          cases hu
      | cons b' rest' =>
          rw [hbehind, readFrom] at hu
          obtain rfl := Option.some.inj hu
          obtain ⟨hpercent, hident⟩ := Lexeme.read_behind_number hnumber hbehind
          refine ⟨hpercent, ?_⟩
          rintro ⟨hkind, hunit⟩
          have htext := hident hkind
          simp only [cut] at hunit
          split at hunit
          · rw [htext] at hunit
            cases hunit
          · rw [isUnit_nil] at hunit
            cases hunit

/-! ## Numeric tokens -/

/-- A numeric token that has its text can be split. -/
lemma splits_cut {offset : Nat} {t : Text}
    (hwhole : (cut offset t (Lexeme.read d t)).isWhole = true)
    (hnumeric : Quantity.isNumeric (Lexeme.read d t).kind = true) :
    Splits (Lexeme.read d t).kind (cut offset t (Lexeme.read d t)).text := by
  rw [text_cut_of_isWhole (Lexeme.length_read_pos d t) hwhole]
  exact Lexeme.splits_take_read hnumeric

/-- The numeric tokens of a source have their texts, since these are ASCII. -/
lemma splits_read {s : String} {t : Token} (ht : t ∈ read d (Text.ofString s))
    (hnumeric : Quantity.isNumeric t.kind = true) : Splits t.kind t.text := by
  obtain ⟨front, rest, hsource, hne, rfl⟩ := exists_cut_of_mem ht
  have hascii := Lexeme.ascii_of_numeric hnumeric
  exact splits_cut (isWhole_of_ascii hsource hne (fun b hb => hascii b (List.mem_of_mem_head? hb))
    (fun b hb => hascii b (List.mem_of_mem_getLast? hb)) _) hnumeric

/-- Cutting ranges of code points keeps the numeric tokens, and those that it adds can be split as
well. -/
lemma splits_history {a b : List Token} {cuts : List Cut} {hi : Nat}
    (h : Parser.CutHistory d a cuts b) (ha : Row hi a)
    (hsplits : ∀ t ∈ a, Quantity.isNumeric t.kind = true → Splits t.kind t.text) :
    ∀ t ∈ b, Quantity.isNumeric t.kind = true → Splits t.kind t.text :=
  h.forall_texts (P := fun kind t => Quantity.isNumeric kind = true → Splits kind t)
    (fun _ => ⟨nofun, nofun⟩) (fun _ => Lexeme.splits_take_read) ha hsplits

end Token

/-! ## Numeric values of a tree -/

/-- A numeric value is made of one numeric token. -/
lemma exists_leaf_of_numericValue {d : Dialect} {entry : Entry} {source : Text} {v : Site}
    (hv : v ∈ (parse d entry source).root.descendants) (hkind : v.kind = .numericValue) :
    ∃ t ∈ (readSource d entry source).tokens.toList, v.tree.leaves = [t.leaf] ∧
      Quantity.isNumeric t.kind = true := by
  obtain ⟨y, hbare, hform⟩ := exists_formed d entry source v hv
  rw [hkind] at hform
  obtain ⟨t, rfl, hnumeric⟩ := hform
  have habove := above_ne_nil hv (by rw [hkind]; cases entry <;> decide)
  obtain ⟨hfirst, hlast⟩ := isTrivia_ends hv habove
  have hchildren := Tree.eq_singleton_of_bareOf (Site.bareOf_children hbare) hfirst hlast
  have hleaves : v.tree.leaves = [t.leaf] := by
    rw [Site.tree, Place.tree, hchildren]
    rfl
  have hmem : t.leaf ∈ (parse d entry source).root.tree.leaves :=
    (Tree.leaves_of_sites hv).subset (hleaves ▸ List.mem_cons_self)
  rw [leaves_parse] at hmem
  obtain ⟨u, hu, hleaf⟩ := List.mem_map.1 hmem
  have hkind : u.kind = t.kind := congrArg Leaf.kind hleaf
  exact ⟨u, hu, by rw [hleaves, hleaf], by rwa [hkind]⟩

/-- A numeric value with a text that can be split. -/
lemma parts?_of_splits {v : Site} {leaf : Leaf} (hleaves : v.tree.leaves = [leaf])
    (hnumeric : Quantity.isNumeric leaf.kind = true) (h : Splits leaf.kind leaf.text) :
    ∃ n unit?, (Quantity.ofSite v).parts? = some (n, unit?) ∧ IsUnitOf leaf.kind (unit?.getD []) ∧
      (unit? = none ↔ leaf.kind = .number) := by
  obtain ⟨n, unit, hsplit, hunit⟩ := h
  have hquantity : Quantity.ofSite v = Quantity.ofText leaf.text := by
    simp [Quantity.ofSite, hleaves, Option.filter, hnumeric]
  rw [hquantity, Quantity.ofText, hsplit]
  cases unit with
  | nil => exact ⟨n, none, rfl, hunit, by simp [hunit.eq_nil_iff.1 rfl]⟩
  | cons b unit => exact ⟨n, some (b :: unit), rfl, hunit, by simp [← hunit.eq_nil_iff]⟩

/-- The lexer and the splitter agree on where numbers end. The text of each numeric token of a
source is split into a number and a unit of its kind. Where the source is read as a number alone, no
percent sign and no unit follows. And in every tree, each numeric value is one token, which is split
in the same way. -/
theorem numbers_end_alike (d : Dialect) (s : String) :
    (∀ t ∈ read d (Text.ofString s), Quantity.isNumeric t.kind = true → Splits t.kind t.text) ∧
      (read d (Text.ofString s)).IsChain Separate ∧
      ∀ entry, ∀ v ∈ (parse d entry (Text.ofString s)).root.descendants, v.kind = .numericValue →
        ∃ leaf n unit?, v.tree.leaves = [leaf] ∧ (Quantity.ofSite v).parts? = some (n, unit?) ∧
          IsUnitOf leaf.kind (unit?.getD []) ∧ (unit? = none ↔ leaf.kind = .number) := by
  have hread : ∀ t ∈ read d (Text.ofString s), Quantity.isNumeric t.kind = true →
      Splits t.kind t.text :=
    fun t ht => splits_read ht
  refine ⟨hread, isChain_readFrom d 0 _, fun entry v hv hkind => ?_⟩
  obtain ⟨t, ht, hleaves, hnumeric⟩ := exists_leaf_of_numericValue hv hkind
  have hhistory := (Entry.consistent_readSource d entry (Text.ofString s)).history
  have hsplits := splits_history hhistory (read_row d _) hread t ht hnumeric
  obtain ⟨n, unit?, hparts, hunit⟩ := parts?_of_splits hleaves hnumeric hsplits
  exact ⟨t.leaf, n, unit?, hleaves, hparts, hunit⟩

-- The letter behind a number may belong to its exponent, to its unit, or to neither.
example : (read .css (Text.ofString "1e3em 1ex 1e+%")).map Token.kind =
    [.dimension, .whitespace, .dimension, .whitespace, .number, .ident, .plus, .percent] := by
  decide +kernel

end StyleSheet
