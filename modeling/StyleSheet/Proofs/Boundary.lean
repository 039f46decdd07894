import Mathlib
import StyleSheet.Proofs.Tokens

/-!
# Character boundaries

A text is read byte by byte, so a token may end inside of a character. `InsideCharacter` says so of
an offset in terms of the characters of a string alone; that a text sees it by its bytes is
`atBoundary_drop_iff`. A token lacks its text if and only if it starts or ends inside of a
character, and since each token starts where the one before it ends, all tokens have their texts if
and only if none of them ends inside of a character (`whole_iff`).
-/

namespace StyleSheet

/-- The number of bytes of characters in UTF-8. -/
def utf8Length (l : List Char) : Nat := (l.map Char.utf8Size).sum

/-- Strictly between the first byte of one of the characters and the byte behind its last one. -/
def InsideCharacter (l : List Char) (n : Nat) : Prop :=
  ∃ before c behind, l = before ++ c :: behind ∧
    utf8Length before < n ∧ n < utf8Length before + c.utf8Size

lemma insideCharacter_cons {c : Char} {l : List Char} {n : Nat} :
    InsideCharacter (c :: l) n ↔
      (0 < n ∧ n < c.utf8Size) ∨ (c.utf8Size ≤ n ∧ InsideCharacter l (n - c.utf8Size)) := by
  constructor
  · rintro ⟨before, c', behind, hl, hlt, hlt'⟩
    cases before with
    | nil =>
        obtain ⟨rfl, rfl⟩ := List.cons.inj hl
        rw [utf8Length, List.map_nil, List.sum_nil] at hlt hlt'
        exact .inl ⟨hlt, by omega⟩
    | cons first before =>
        obtain ⟨rfl, rfl⟩ := List.cons.inj hl
        simp only [utf8Length, List.map_cons, List.sum_cons] at hlt hlt'
        refine .inr ⟨by omega, before, c', behind, rfl, ?_, ?_⟩
        all_goals
          rw [utf8Length]
          omega
  · rintro (⟨hpos, hlt⟩ | ⟨hle, before, c', behind, rfl, hlt, hlt'⟩)
    · exact ⟨[], c, l, rfl, hpos, by simpa [utf8Length] using hlt⟩
    · refine ⟨c :: before, c', behind, rfl, ?_, ?_⟩
      all_goals
        simp only [utf8Length, List.map_cons, List.sum_cons] at hlt hlt' ⊢
        omega

/-! ## The bytes of a character -/

lemma isContinuation_ofNat {n : Nat} (h : n < 256) :
    Byte.isContinuation (UInt8.ofNat n) = decide (128 ≤ n ∧ n < 192) := by
  have hmod : n % 256 = n := Nat.mod_eq_of_lt h
  simp [Byte.isContinuation, UInt8.le_iff_toNat_le, UInt8.lt_iff_toNat_lt, hmod]

/-- All bytes of a character but the first one continue it. -/
lemma utf8EncodeChar_eq_cons (c : Char) :
    ∃ b rest, String.utf8EncodeChar c = b :: rest ∧ Byte.isContinuation b = false ∧
      ∀ b' ∈ rest, Byte.isContinuation b' = true := by
  have htail : ∀ n, Byte.isContinuation (UInt8.ofNat (n % 64 + 128)) = true := by
    intro n
    rw [isContinuation_ofNat (by omega), decide_eq_true_eq]
    omega
  have hlead : ∀ n, n < 128 ∨ 192 ≤ n → n < 256 → Byte.isContinuation (UInt8.ofNat n) = false := by
    intro n hn hlt
    rw [isContinuation_ofNat hlt, decide_eq_false_iff_not]
    omega
  rw [String.utf8EncodeChar]
  split_ifs
  · exact ⟨_, _, rfl, hlead _ (by omega) (by omega), List.forall_mem_nil _⟩
  all_goals
    refine ⟨_, _, rfl, hlead _ (by omega) (by omega), ?_⟩
    simp only [List.forall_mem_cons, htail, true_and]
    exact List.forall_mem_nil _

/-! ## Boundaries of a text -/

/-- Inside of a character no character begins. -/
lemma atBoundary_drop_utf8EncodeChar (c : Char) {n : Nat} (hn : n < c.utf8Size) (u : Text) :
    Text.atBoundary ((String.utf8EncodeChar c ++ u).drop n) = decide (n = 0) := by
  obtain ⟨b, rest, hbytes, hlead, htail⟩ := utf8EncodeChar_eq_cons c
  have hlen := String.length_utf8EncodeChar c
  rw [hbytes, List.length_cons] at hlen
  rw [hbytes]
  cases n with
  | zero => simp [Text.atBoundary, hlead]
  | succ n =>
      have hlt : n < rest.length := by omega
      have hbyte := htail _ (List.getElem_mem hlt)
      rw [List.cons_append, List.drop_succ_cons, List.drop_append_of_le_length hlt.le,
        List.drop_eq_getElem_cons hlt, List.cons_append, Text.atBoundary, hbyte]
      rfl

lemma atBoundary_drop_flatMap (l : List Char) (n : Nat) :
    Text.atBoundary ((l.flatMap String.utf8EncodeChar).drop n) = true ↔ ¬ InsideCharacter l n := by
  induction l generalizing n with
  | nil => simp [Text.atBoundary, InsideCharacter]
  | cons c l ih =>
      rw [List.flatMap_cons, insideCharacter_cons]
      by_cases hlt : n < c.utf8Size
      · rw [atBoundary_drop_utf8EncodeChar c hlt, decide_eq_true_eq]
        omega
      · have hlen := String.length_utf8EncodeChar c
        rw [List.drop_append, List.drop_eq_nil_of_le (by omega), List.nil_append, hlen, ih]
        constructor
        · rintro hn (⟨-, hlt'⟩ | ⟨-, hin⟩)
          · exact hlt hlt'
          · exact hn hin
        · exact fun hn hin => hn (.inr ⟨by omega, hin⟩)

lemma ofString_eq (s : String) : Text.ofString s = s.toList.flatMap String.utf8EncodeChar := by
  rw [Text.ofString, String.toUTF8, ← String.utf8Encode_toList, List.utf8Encode]
  simp

theorem atBoundary_drop_iff (s : String) (n : Nat) :
    Text.atBoundary ((Text.ofString s).drop n) = true ↔ ¬ InsideCharacter s.toList n := by
  rw [ofString_eq]
  exact atBoundary_drop_flatMap s.toList n

/-! ## Boundaries and tokens -/

namespace Token

lemma isWhole_cut (d : Dialect) (offset : Nat) {t : Text} (ht : t ≠ []) :
    (cut offset t (Lexeme.read d t)).isWhole =
      (t.atBoundary && Text.atBoundary (t.drop (Lexeme.read d t).length)) := by
  have hle := Lexeme.length_read_le d ht
  have hpos := Lexeme.length_read_pos d t
  cases hb : t.atBoundary && Text.atBoundary (t.drop (Lexeme.read d t).length) with
  | true =>
      simp only [isWhole, cut, hb, if_true, List.length_take, beq_iff_eq]
      omega
  | false =>
      simp only [isWhole, cut, hb, Bool.false_eq_true, if_false, List.length_nil,
        beq_eq_false_iff_ne]
      omega

/-- All tokens have their texts if and only if each of them ends where a character begins. -/
lemma whole_readFrom_iff (d : Dialect) (offset : Nat) {t : Text} (ht : t.atBoundary = true) :
    (∀ u ∈ readFrom d offset t, u.isWhole = true) ↔
      ∀ u ∈ readFrom d offset t, Text.atBoundary (t.drop (u.stop - offset)) = true := by
  fun_induction readFrom d offset t with
  | case1 offset => simp
  | case2 offset b rest l ih =>
      have hcut := isWhole_cut d offset (List.cons_ne_nil b rest)
      rw [ht, Bool.true_and] at hcut
      have hstop : (cut offset (b :: rest) l).stop - offset = l.length := Nat.add_sub_cancel_left ..
      rw [List.forall_mem_cons, List.forall_mem_cons, hstop, hcut]
      refine and_congr_right fun hb => (ih hb).trans ?_
      refine forall₂_congr fun u hu => ?_
      -- The token stands behind the first one, so its end can be counted from there.
      have hu := (readFrom_ordered d _ _).mem hu
      have hoffset : u.stop - offset = l.length + (u.stop - (offset + l.length)) := by omega
      rw [hoffset, List.drop_drop]

theorem whole_iff (d : Dialect) (s : String) :
    (∀ t ∈ read d (Text.ofString s), t.isWhole = true) ↔
      ∀ t ∈ read d (Text.ofString s), ¬ InsideCharacter s.toList t.stop := by
  have hstart : (Text.ofString s).atBoundary = true := by
    have h := atBoundary_drop_iff s 0
    rw [List.drop_zero] at h
    rw [h]
    rintro ⟨before, c, behind, -, hlt, -⟩
    exact Nat.not_lt_zero _ hlt
  rw [read, whole_readFrom_iff d 0 hstart]
  simp only [Nat.sub_zero, atBoundary_drop_iff]

end Token

end StyleSheet
