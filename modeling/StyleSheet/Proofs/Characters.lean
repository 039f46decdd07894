import Mathlib
import StyleSheet.Proofs.Boundary

/-!
# Characters and their bytes

The bytes of a text can be cut between its characters only, and every cut at a character boundary is
such a cut (`exists_append_of_encode`). The characters that delimit tokens are ASCII: they take one
byte, and this byte is part of no other character. So a text that is cut at such a byte is cut at
this character (`exists_cons_of_encode`), and what is said of these bytes in a text carries over to
its characters.
-/

namespace StyleSheet

/-- The bytes of characters in UTF-8. -/
def encode (l : List Char) : Text := l.flatMap String.utf8EncodeChar

@[simp] lemma encode_nil : encode [] = [] := rfl

lemma encode_cons (c : Char) (l : List Char) :
    encode (c :: l) = String.utf8EncodeChar c ++ encode l := rfl

@[simp] lemma encode_append (l m : List Char) : encode (l ++ m) = encode l ++ encode m :=
  List.flatMap_append

lemma encode_infix {l m : List Char} (h : l <:+: m) : encode l <:+: encode m := by
  obtain ⟨before, behind, rfl⟩ := h
  exact ⟨encode before, encode behind, by rw [encode_append, encode_append]⟩

lemma encode_toList (s : String) : encode s.toList = Text.ofString s := (ofString_eq s).symm

lemma encode_eq_nil {l : List Char} (h : encode l = []) : l = [] := by
  cases l with
  | nil => rfl
  | cons c l =>
      obtain ⟨b, more, hbytes, -⟩ := utf8EncodeChar_eq_cons c
      rw [encode_cons, hbytes] at h
      cases h

lemma length_encode (l : List Char) : (encode l).length = utf8Length l := by
  rw [encode, List.length_flatMap, utf8Length]
  simp only [String.length_utf8EncodeChar]

lemma atBoundary_encode (l : List Char) : (encode l).atBoundary = true := by
  have h := atBoundary_drop_flatMap l 0
  rw [List.drop_zero] at h
  refine h.2 ?_
  rintro ⟨before, c, behind, -, hlt, -⟩
  exact Nat.not_lt_zero _ hlt

/-! ## ASCII characters -/

lemma utf8EncodeChar_ascii {c : Char} (hc : c.utf8Size = 1) : String.utf8EncodeChar c = [byte c] :=
  String.utf8EncodeChar_eq_singleton hc

lemma encode_cons_ascii {c : Char} (hc : c.utf8Size = 1) (l : List Char) :
    encode (c :: l) = byte c :: encode l := by
  rw [encode_cons, utf8EncodeChar_ascii hc, List.singleton_append]

/-- An ASCII character is determined by its byte. -/
lemma eq_of_byte_eq {c c' : Char} (hc : c.utf8Size = 1) (hc' : c'.utf8Size = 1)
    (h : byte c = byte c') : c = c' := by
  rw [Char.utf8Size_eq_one_iff, UInt32.le_iff_toNat_le] at hc hc'
  have hmod := congrArg UInt8.toNat h
  simp only [byte, Char.toUInt8, UInt32.toNat_toUInt8, UInt32.reduceToNat] at hmod hc hc'
  refine Char.ext (UInt32.toNat_inj.1 ?_)
  omega

lemma byte_lt {c : Char} (hc : c.utf8Size = 1) : byte c < 0x80 := by
  rw [Char.utf8Size_eq_one_iff, UInt32.le_iff_toNat_le] at hc
  simp only [byte, Char.toUInt8, UInt8.lt_iff_toNat_lt, UInt32.toNat_toUInt8, UInt32.reduceToNat,
    UInt8.reduceToNat] at hc ⊢
  omega

/-- The bytes of all other characters are not ASCII. -/
lemma le_of_mem_utf8EncodeChar {c : Char} (hc : c.utf8Size ≠ 1) :
    ∀ b ∈ String.utf8EncodeChar c, 0x80 ≤ b := by
  have hbyte : ∀ n, 128 ≤ n → n < 256 → (0x80 : UInt8) ≤ UInt8.ofNat n := by
    intro n hn hlt
    have hmod : n % 256 = n := Nat.mod_eq_of_lt hlt
    simpa [UInt8.le_iff_toNat_le, hmod] using hn
  rw [Ne, Char.utf8Size_eq_one_iff, UInt32.le_iff_toNat_le] at hc
  rw [String.utf8EncodeChar]
  split_ifs with h
  · exact absurd h hc
  all_goals
    repeat' refine List.forall_mem_cons.2 ⟨hbyte _ (by omega) (by omega), ?_⟩
    exact List.forall_mem_nil _

lemma ascii_of_mem {b : UInt8} {c : Char} (hb : b ∈ String.utf8EncodeChar c) (hlt : b < 0x80) :
    c.utf8Size = 1 := by
  by_contra hc
  exact absurd hlt (UInt8.not_lt.2 (le_of_mem_utf8EncodeChar hc b hb))

/-! ## Cutting a text -/

/-- A text that is cut at a boundary is cut between two characters. -/
theorem exists_append_of_encode {l : List Char} {x y : Text} (h : encode l = x ++ y)
    (hy : y.atBoundary = true) : ∃ l₁ l₂, l = l₁ ++ l₂ ∧ encode l₁ = x ∧ encode l₂ = y := by
  induction l generalizing x with
  | nil =>
      obtain ⟨rfl, rfl⟩ := List.append_eq_nil_iff.1 h.symm
      exact ⟨[], [], rfl, rfl, rfl⟩
  | cons a l ih =>
      cases x with
      | nil => exact ⟨[], a :: l, rfl, rfl, h⟩
      | cons b x =>
          obtain ⟨b', more, ha, -, hmore⟩ := utf8EncodeChar_eq_cons a
          rw [encode_cons, ha, List.cons_append, List.cons_append] at h
          obtain ⟨rfl, htail⟩ := List.cons.inj h
          rcases List.append_eq_append_iff.1 htail with ⟨x', rfl, hl⟩ | ⟨z, rfl, rfl⟩
          · obtain ⟨l₁, l₂, rfl, rfl, rfl⟩ := ih hl
            exact ⟨a :: l₁, l₂, rfl, by rw [encode_cons, ha, List.cons_append], rfl⟩
          · cases z with
            | nil =>
                exact ⟨[a], l, rfl,
                  by rw [encode_cons, ha, encode_nil, List.append_nil, List.append_nil], rfl⟩
            | cons b z =>
                -- The cut would be inside of `a`.
                rw [List.cons_append, Text.atBoundary,
                  hmore b (List.mem_append_right _ List.mem_cons_self)] at hy
                cases hy

/-- A text that begins with an ASCII byte begins with an ASCII character. -/
lemma exists_cons_of_lt {b : UInt8} (hb : b < 0x80) {l : List Char} {y : Text}
    (h : encode l = b :: y) :
    ∃ c l', c.utf8Size = 1 ∧ byte c = b ∧ l = c :: l' ∧ encode l' = y := by
  cases l with
  | nil => cases h
  | cons c l =>
      obtain ⟨b', more, hbytes, -⟩ := utf8EncodeChar_eq_cons c
      have hfirst := h
      rw [encode_cons, hbytes, List.cons_append] at hfirst
      obtain ⟨rfl, -⟩ := List.cons.inj hfirst
      have hc : c.utf8Size = 1 := ascii_of_mem (hbytes ▸ List.mem_cons_self) hb
      rw [encode_cons_ascii hc] at h
      exact ⟨c, l, hc, (List.cons.inj h).1, rfl, (List.cons.inj h).2⟩

/-- A text that begins with the byte of an ASCII character begins with this character. -/
theorem exists_cons_of_encode {c : Char} (hc : c.utf8Size = 1) {l : List Char} {y : Text}
    (h : encode l = byte c :: y) : ∃ l', l = c :: l' ∧ encode l' = y := by
  obtain ⟨c', l, hc', hbyte, rfl, rfl⟩ := exists_cons_of_lt (byte_lt hc) h
  exact ⟨l, by rw [eq_of_byte_eq hc' hc hbyte], rfl⟩

lemma atBoundary_byte {c : Char} (hc : c.utf8Size = 1) (t : Text) :
    Text.atBoundary (byte c :: t) = true := by
  have hlt := UInt8.not_le.2 (byte_lt hc)
  simp [Text.atBoundary, Byte.isContinuation, hlt]

/-- A text that is cut at the byte of an ASCII character is cut at this character. -/
lemma exists_append_cons_of_encode {c : Char} (hc : c.utf8Size = 1) {l : List Char} {x y : Text}
    (h : encode l = x ++ byte c :: y) :
    ∃ l₁ l₂, l = l₁ ++ c :: l₂ ∧ encode l₁ = x ∧ encode l₂ = y := by
  obtain ⟨l₁, l₂, rfl, rfl, hl₂⟩ := exists_append_of_encode h (atBoundary_byte hc y)
  obtain ⟨l₂, rfl, rfl⟩ := exists_cons_of_encode hc hl₂
  exact ⟨l₁, l₂, rfl, rfl, rfl⟩

/-- Behind an ASCII byte there is a boundary. -/
lemma atBoundary_of_lt {b : UInt8} (hb : b < 0x80) {l : List Char} {x y : Text}
    (h : encode l = x ++ b :: y) : Text.atBoundary (b :: y) = true ∧ y.atBoundary = true := by
  have hfirst : Text.atBoundary (b :: y) = true := by
    simp [Text.atBoundary, Byte.isContinuation, UInt8.not_le.2 hb]
  refine ⟨hfirst, ?_⟩
  obtain ⟨l₁, l₂, rfl, rfl, hl₂⟩ := exists_append_of_encode h hfirst
  obtain ⟨c, l₂, -, -, rfl, rfl⟩ := exists_cons_of_lt hb hl₂
  exact atBoundary_encode l₂

/-! ## Classes of ASCII characters -/

section Classes

variable {cs : List Char} (hcs : ∀ c ∈ cs, c.utf8Size = 1) {l : List Char}
include hcs

lemma mem_of_byte_mem {c : Char} (hc : c.utf8Size = 1) (h : byte c ∈ cs.map byte) : c ∈ cs := by
  obtain ⟨c', hc', hbyte⟩ := List.mem_map.1 h
  rwa [eq_of_byte_eq hc (hcs c' hc') hbyte.symm]

lemma lt_of_mem_map_byte {b : UInt8} (h : b ∈ cs.map byte) : b < 0x80 := by
  obtain ⟨c, hc, rfl⟩ := List.mem_map.1 h
  exact byte_lt (hcs c hc)

/-- A character with a byte of a class is in the class. -/
lemma mem_of_mem_utf8EncodeChar {b : UInt8} {c : Char} (hb : b ∈ String.utf8EncodeChar c)
    (h : b ∈ cs.map byte) : c ∈ cs := by
  have hc := ascii_of_mem hb (lt_of_mem_map_byte hcs h)
  rw [utf8EncodeChar_ascii hc, List.mem_singleton] at hb
  exact mem_of_byte_mem hcs hc (hb ▸ h)

/-- A text that begins with bytes of a class begins with characters of the class. -/
lemma exists_append_of_mem {x y : Text} (hx : ∀ b ∈ x, b ∈ cs.map byte) (h : encode l = x ++ y) :
    ∃ l₁ l₂, l = l₁ ++ l₂ ∧ encode l₁ = x ∧ encode l₂ = y := by
  induction x generalizing l with
  | nil => exact ⟨[], l, rfl, rfl, h⟩
  | cons b x ih =>
      rw [List.forall_mem_cons] at hx
      obtain ⟨c, hc, rfl⟩ := List.mem_map.1 hx.1
      obtain ⟨l, rfl, hl⟩ := exists_cons_of_encode (hcs c hc) h
      obtain ⟨l₁, l₂, rfl, rfl, rfl⟩ := ih hx.2 hl
      exact ⟨c :: l₁, l₂, rfl, encode_cons_ascii (hcs c hc) l₁, rfl⟩

lemma atBoundary_of_mem {t : Text} (h : ∀ b ∈ t.head?, b ∈ cs.map byte) : t.atBoundary = true := by
  cases t with
  | nil => rfl
  | cons b t =>
      obtain ⟨c, hc, rfl⟩ := List.mem_map.1 (h b rfl)
      exact atBoundary_byte (hcs c hc) t

lemma mem_of_encode (h : ∀ b ∈ encode l, b ∈ cs.map byte) : ∀ c ∈ l, c ∈ cs := by
  intro c hc
  obtain ⟨b, more, hbytes, -⟩ := utf8EncodeChar_eq_cons c
  have hb : b ∈ String.utf8EncodeChar c := hbytes ▸ List.mem_cons_self
  exact mem_of_mem_utf8EncodeChar hcs hb (h b (List.mem_flatMap.2 ⟨c, hc, hb⟩))

lemma notMem_of_encode (h : ∀ b ∈ encode l, b ∉ cs.map byte) : ∀ c ∈ l, c ∉ cs := by
  intro c hc hmem
  have hb : byte c ∈ String.utf8EncodeChar c :=
    utf8EncodeChar_ascii (hcs c hmem) ▸ List.mem_cons_self
  exact h (byte c) (List.mem_flatMap.2 ⟨c, hc, hb⟩) (List.mem_map_of_mem hmem)

lemma mem_head?_of_encode (h : ∀ b ∈ (encode l).head?, b ∈ cs.map byte) :
    ∀ c ∈ l.head?, c ∈ cs := by
  cases l with
  | nil => simp
  | cons c l =>
      obtain ⟨b, more, hbytes, -⟩ := utf8EncodeChar_eq_cons c
      rw [encode_cons, hbytes] at h
      rintro c' ⟨⟩
      exact mem_of_mem_utf8EncodeChar hcs (hbytes ▸ List.mem_cons_self) (h b rfl)

end Classes

end StyleSheet
