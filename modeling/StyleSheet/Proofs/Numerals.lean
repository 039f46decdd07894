import Mathlib
import StyleSheet.Proofs.Lexeme

/-!
# The longest numeral

A numeral is given by a grammar (`numerals`): an optional sign, digits with an optional fraction or
a fraction alone, and an optional exponent. The measures of the library take the parts one after the
other, each as far as it goes, and give up a part that is not complete. That this finds the longest
numeral (`measures_length`) is put together from the parts: one that goes as far as it can leaves a
byte ahead that the next part cannot begin with, unless it has ended, so nothing is gained by
stopping earlier.
-/

namespace StyleSheet.Numeral

/-! ## The grammar -/

/-- Whether a byte is a sign. -/
def isSign (b : UInt8) : Bool := b == byte '+' || b == byte '-'

/-- Whether a byte begins an exponent. -/
def isExponentMark (b : UInt8) : Bool := b == byte 'e' || b == byte 'E'

/-- The texts of one byte of a class. -/
def oneOf (p : UInt8 → Bool) : Language UInt8 := {w | ∃ b, p b = true ∧ w = [b]}

/-- One digit or more. -/
def digits : Language UInt8 := {w | w ≠ [] ∧ ∀ b ∈ w, Byte.isDigit b = true}

/-- A point and digits. -/
def fraction : Language UInt8 := oneOf (· == byte '.') * digits

/-- Digits with an optional fraction, or a fraction. -/
def mantissas : Language UInt8 := digits * (1 + fraction) + fraction

/-- The letter of an exponent, an optional sign and digits. -/
def exponents : Language UInt8 := oneOf isExponentMark * ((1 + oneOf isSign) * digits)

/-- The numerals. -/
def numerals : Language UInt8 := (1 + oneOf isSign) * (mantissas * (1 + exponents))

/-- The bytes of numerals. -/
def isNumeralByte (b : UInt8) : Bool :=
  isSign b || Byte.isDigit b || b == byte '.' || isExponentMark b

/-! ## Words of a language -/

/-- All bytes of the words of a language belong to a class. -/
def Consists (L : Language UInt8) (p : UInt8 → Bool) : Prop := ∀ w ∈ L, ∀ b ∈ w, p b = true

/-- The words of a language begin with a byte of a class. -/
def Opens (L : Language UInt8) (p : UInt8 → Bool) : Prop :=
  ∀ w ∈ L, ∃ b rest, w = b :: rest ∧ p b = true

section

variable {L M : Language UInt8} {p q : UInt8 → Bool}

lemma Consists.mono (h : Consists L p) (hpq : ∀ b, p b = true → q b = true) : Consists L q :=
  fun w hw b hb => hpq b (h w hw b hb)

lemma mem_optional {w : Text} : w ∈ 1 + L ↔ w = [] ∨ w ∈ L := by
  rw [Language.mem_add, Language.mem_one]

lemma Consists.mul (hL : Consists L p) (hM : Consists M p) : Consists (L * M) p := by
  intro w hw b hb
  obtain ⟨l, hl, m, hm, rfl⟩ := Language.mem_mul.1 hw
  rcases List.mem_append.1 hb with hb | hb
  · exact hL l hl b hb
  · exact hM m hm b hb

lemma Consists.add (hL : Consists L p) (hM : Consists M p) : Consists (L + M) p := by
  rintro w (hw | hw)
  · exact hL w hw
  · exact hM w hw

lemma Consists.optional (hL : Consists L p) : Consists (1 + L) p := by
  intro w hw
  rcases mem_optional.1 hw with rfl | hw
  · exact List.forall_mem_nil _
  · exact hL w hw

lemma consists_oneOf (p : UInt8 → Bool) : Consists (oneOf p) p := by
  rintro _ ⟨b, hb, rfl⟩
  simpa using hb

lemma consists_digits : Consists digits Byte.isDigit := fun _ hw => hw.2

lemma Opens.mono (h : Opens L p) (hpq : ∀ b, p b = true → q b = true) : Opens L q := by
  intro w hw
  obtain ⟨b, rest, rfl, hb⟩ := h w hw
  exact ⟨b, rest, rfl, hpq b hb⟩

lemma Opens.nil_notMem (h : Opens L p) : [] ∉ L := by
  intro hnil
  obtain ⟨b, rest, heq, -⟩ := h [] hnil
  cases heq

lemma Opens.nil_notMem_mul (h : Opens M p) : [] ∉ L * M := by
  intro hnil
  obtain ⟨l, -, m, hm, heq⟩ := Language.mem_mul.1 hnil
  exact h.nil_notMem ((List.append_eq_nil_iff.1 heq).2 ▸ hm)

lemma Opens.mul (h : Opens L p) (M : Language UInt8) : Opens (L * M) p := by
  intro w hw
  obtain ⟨l, hl, m, -, rfl⟩ := Language.mem_mul.1 hw
  obtain ⟨b, rest, rfl, hb⟩ := h l hl
  exact ⟨b, rest ++ m, rfl, hb⟩

lemma Opens.add (hL : Opens L p) (hM : Opens M p) : Opens (L + M) p := by
  rintro w (hw | hw)
  · exact hL w hw
  · exact hM w hw

lemma opens_oneOf (p : UInt8 → Bool) : Opens (oneOf p) p := by
  rintro _ ⟨b, hb, rfl⟩
  exact ⟨b, [], rfl, hb⟩

lemma opens_digits : Opens digits Byte.isDigit := by
  rintro w ⟨hne, hw⟩
  obtain ⟨b, rest, rfl⟩ := List.exists_cons_of_ne_nil hne
  exact ⟨b, rest, rfl, hw b (by simp)⟩

end

/-! ## Measures -/

/-- `f` is the length of the longest word of a language at the start of a text, zero if there is
none. -/
structure Measures (L : Language UInt8) (f : Text → Nat) : Prop where
  /-- The word lies in the text. -/
  le : ∀ t, f t ≤ t.length
  /-- What is measured is a word. -/
  found : ∀ t, f t ≠ 0 → t.take (f t) ∈ L
  /-- No other word at the start of the text is longer. -/
  longest : ∀ t, ∀ w ∈ L, w <+: t → w.length ≤ f t

namespace Measures

variable {L M : Language UInt8} {f g h : Text → Nat} {p : UInt8 → Bool}

/-- A byte of a class and a word behind it. -/
lemma cons (hL : Measures L f) (hnil : [] ∉ L) (hzero : h [] = 0)
    (hcons : ∀ b rest, h (b :: rest) = if p b = true ∧ f rest ≠ 0 then f rest + 1 else 0) :
    Measures (oneOf p * L) h where
  le t := by
    cases t with
    | nil => exact hzero.le
    | cons b rest =>
        have hle := hL.le rest
        rw [hcons, List.length_cons]
        split <;> omega
  found t ht := by
    cases t with
    | nil => exact absurd hzero ht
    | cons b rest =>
        have hb : p b = true ∧ f rest ≠ 0 := by
          by_contra hb
          exact ht (by rw [hcons, if_neg hb])
        rw [hcons, if_pos hb]
        exact Language.mem_mul.2 ⟨[b], ⟨b, hb.1, rfl⟩, _, hL.found rest hb.2, rfl⟩
  longest := by
    rintro t w hw ⟨rest, rfl⟩
    obtain ⟨_, ⟨b, hb, rfl⟩, m, hm, rfl⟩ := Language.mem_mul.1 hw
    have hle := hL.longest (m ++ rest) m hm (List.prefix_append m rest)
    have hpos : 0 < m.length := List.length_pos_iff.2 fun heq => hnil (heq ▸ hm)
    have hmeasure : h ([b] ++ m ++ rest) = f (m ++ rest) + 1 := by
      rw [List.append_assoc, List.singleton_append, hcons, if_pos ⟨hb, by omega⟩]
    simp only [hmeasure, List.length_append, List.length_singleton]
    omega

/-- A word of one language, and perhaps one of another language behind it. Where a longer word of
the first one could have been taken, no word of the second one begins. -/
lemma append (hL : Measures L f) (hM : Measures M g) (hnil : [] ∉ L) (hword : Consists L (!p ·))
    (hopen : Opens M p) (hsum : ∀ t, h t = if f t = 0 then 0 else f t + g (t.drop (f t))) :
    Measures (L * (1 + M)) h where
  le t := by
    have hle := hL.le t
    have hle' := hM.le (t.drop (f t))
    rw [List.length_drop] at hle'
    rw [hsum]
    split <;> omega
  found t ht := by
    have hf : f t ≠ 0 := fun hf => ht (by rw [hsum, if_pos hf])
    rw [hsum, if_neg hf, List.take_add]
    refine Language.mem_mul.2 ⟨_, hL.found t hf, _, mem_optional.2 ?_, rfl⟩
    by_cases hg : g (t.drop (f t)) = 0
    · exact .inl (by rw [hg, List.take_zero])
    · exact .inr (hM.found _ hg)
  longest := by
    rintro t w hw ⟨rest, rfl⟩
    obtain ⟨l, hl, m, hm, rfl⟩ := Language.mem_mul.1 hw
    have hle := hL.longest (l ++ m ++ rest) l hl ⟨m ++ rest, (List.append_assoc ..).symm⟩
    have hpos : 0 < l.length := List.length_pos_iff.2 fun heq => hnil (heq ▸ hl)
    have hf : f (l ++ m ++ rest) ≠ 0 := by omega
    rw [hsum, if_neg hf, List.length_append]
    rcases mem_optional.1 hm with rfl | hm
    · rw [List.length_nil]
      omega
    · rcases hle.eq_or_lt with heq | hlt
      · rw [← heq, List.append_assoc, List.drop_left]
        have := hM.longest (m ++ rest) m hm (List.prefix_append m rest)
        omega
      · -- The longer word goes on with the first byte of `m`.
        obtain ⟨b, k, rfl, hb⟩ := hopen m hm
        have hmem : b ∈ (l ++ b :: k ++ rest).take (f (l ++ b :: k ++ rest)) := by
          rw [List.append_assoc, List.take_append]
          refine List.mem_append_right _ ?_
          obtain ⟨n, hn⟩ : ∃ n, f (l ++ (b :: k ++ rest)) - l.length = n + 1 :=
            ⟨f (l ++ (b :: k ++ rest)) - l.length - 1, by rw [List.append_assoc] at hlt; omega⟩
          rw [hn, List.cons_append, List.take_succ_cons]
          exact List.mem_cons_self
        have := hword _ (hL.found _ hf) b hmem
        simp [hb] at this

/-- A word with an optional sign in front, which no word begins with. -/
lemma signed (hL : Measures L g) (hopen : Opens L (!isSign ·))
    (hsum : ∀ t, h t =
      if g (t.drop (signLength t)) = 0 then 0 else signLength t + g (t.drop (signLength t))) :
    Measures ((1 + oneOf isSign) * L) h where
  le t := by
    have hle := Lexeme.signLength_le t
    have hle' := hL.le (t.drop (signLength t))
    rw [List.length_drop] at hle'
    rw [hsum]
    split <;> omega
  found t ht := by
    have hg : g (t.drop (signLength t)) ≠ 0 := fun hg => ht (by rw [hsum, if_pos hg])
    rw [hsum, if_neg hg, List.take_add]
    refine Language.mem_mul.2 ⟨_, mem_optional.2 ?_, _, hL.found _ hg, rfl⟩
    cases t with
    | nil => exact .inl rfl
    | cons b rest =>
        rw [signLength]
        split
        · rename_i hb
          exact .inr ⟨b, hb, rfl⟩
        · exact .inl rfl
  longest := by
    rintro t w hw ⟨rest, rfl⟩
    obtain ⟨s, hs, l, hl, rfl⟩ := Language.mem_mul.1 hw
    have hle := hL.longest (l ++ rest) l hl (List.prefix_append l rest)
    have hdrop : signLength (s ++ l ++ rest) = s.length := by
      rcases mem_optional.1 hs with rfl | ⟨b, hb, rfl⟩
      · obtain ⟨b, k, rfl, hb⟩ := hopen l hl
        exact if_neg (by simpa [isSign] using hb)
      · exact if_pos hb
    have hpos : 0 < l.length := List.length_pos_iff.2 fun heq => hopen.nil_notMem (heq ▸ hl)
    rw [hsum, hdrop, List.append_assoc, List.drop_left, if_neg (by omega), List.length_append]
    omega

/-- What follows the word and does not make it longer may be cut off. -/
lemma take (hL : Measures L f) {t : Text} {n : Nat} (hn : f t ≤ n) : f (t.take n) = f t := by
  apply le_antisymm
  · by_cases hzero : f (t.take n) = 0
    · omega
    · have hle :=
        hL.longest t _ (hL.found _ hzero) ((List.take_prefix _ _).trans (List.take_prefix n t))
      rwa [List.length_take, min_eq_left (hL.le _)] at hle
  · by_cases hzero : f t = 0
    · omega
    · have hle := hL.longest (t.take n) _ (hL.found t hzero) (List.take_prefix_take_left hn)
      rwa [List.length_take, min_eq_left (hL.le t)] at hle

end Measures

/-! ## The parts of a numeral -/

lemma measures_digits : Measures digits digitsLength where
  le := Lexeme.digitsLength_le
  found t ht := by
    rw [digitsLength] at ht ⊢
    rw [← List.prefix_iff_eq_take.1 (List.takeWhile_prefix Byte.isDigit)]
    exact ⟨List.length_pos_iff.1 (Nat.pos_of_ne_zero ht), fun b hb => List.mem_takeWhile_imp hb⟩
  longest := by
    rintro t w hw ⟨rest, rfl⟩
    rw [digitsLength, List.takeWhile_append_of_pos hw.2, List.length_append]
    omega

lemma opens_fraction : Opens fraction (· == byte '.') := (opens_oneOf _).mul _

lemma measures_fraction : Measures fraction fractionLength := by
  refine measures_digits.cons opens_digits.nil_notMem rfl fun b rest => ?_
  rw [fractionLength]
  cases digitsLength rest <;> simp

lemma consists_mantissas : Consists mantissas fun b => Byte.isDigit b || b == byte '.' := by
  have hdigits : Consists digits fun b => Byte.isDigit b || b == byte '.' :=
    consists_digits.mono fun b hb => by simp [hb]
  have hfraction : Consists fraction fun b => Byte.isDigit b || b == byte '.' :=
    ((consists_oneOf _).mono fun b hb => by simp [hb]).mul hdigits
  exact (hdigits.mul hfraction.optional).add hfraction

lemma opens_mantissas : Opens mantissas fun b => Byte.isDigit b || b == byte '.' :=
  ((opens_digits.mul _).mono fun b hb => by simp [hb]).add
    (opens_fraction.mono fun b hb => by simp [hb])

lemma point_ne_of_digit (b : UInt8) (h : Byte.isDigit b = true) : (!(b == byte '.')) = true := by
  rw [Bool.not_eq_true', beq_eq_false_iff_ne]
  rintro rfl
  exact absurd h (by decide)

/-- No byte of a mantissa is a sign or begins an exponent. -/
lemma mantissa_byte : ∀ b, (Byte.isDigit b || b == byte '.') = true →
    isSign b = false ∧ isExponentMark b = false := by
  decide +kernel

lemma measures_mantissas : Measures mantissas unsignedLength := by
  have hsum : ∀ t, unsignedLength t = if digitsLength t = 0 then fractionLength t else
      digitsLength t + fractionLength (t.drop (digitsLength t)) := by
    intro t
    rw [unsignedLength]
    split <;> simp_all
  have hdigits : Measures (digits * (1 + fraction)) fun t =>
      if digitsLength t = 0 then 0 else digitsLength t + fractionLength (t.drop (digitsLength t)) :=
    measures_digits.append measures_fraction opens_digits.nil_notMem
      (consists_digits.mono point_ne_of_digit) opens_fraction fun t => rfl
  refine ⟨Lexeme.unsignedLength_le, fun t ht => ?_, ?_⟩
  · refine (Language.mem_add _ _ _).2 ?_
    rw [hsum] at ht ⊢
    by_cases hzero : digitsLength t = 0
    · rw [if_pos hzero] at ht ⊢
      exact .inr (measures_fraction.found t ht)
    · have hfound := hdigits.found t (by simp [hzero])
      rw [if_neg hzero] at hfound ⊢
      exact .inl hfound
  · intro t w hw ht
    rcases (Language.mem_add _ _ _).1 hw with hw | hw
    · have hle := hdigits.longest t w hw ht
      rw [hsum]
      split_ifs at hle ⊢ <;> omega
    · have hle := measures_fraction.longest t w hw ht
      -- A text cannot begin with a point and with a digit.
      have hzero : digitsLength t = 0 := by
        obtain ⟨b, k, rfl, hb⟩ := opens_fraction w hw
        obtain ⟨rest, rfl⟩ := ht
        have hdigit : Byte.isDigit b = false := by
          rw [beq_iff_eq.1 hb]
          decide
        simp [digitsLength, hdigit]
      rwa [hsum, if_pos hzero]

lemma opens_exponents : Opens exponents isExponentMark := (opens_oneOf _).mul _

lemma measures_exponents : Measures exponents exponentLength := by
  have hsigned : Measures ((1 + oneOf isSign) * digits) fun t =>
      if digitsLength (t.drop (signLength t)) = 0 then 0
      else signLength t + digitsLength (t.drop (signLength t)) :=
    measures_digits.signed
      (opens_digits.mono fun b hb => by simp [mantissa_byte b (by simp [hb])]) fun t => rfl
  refine hsigned.cons opens_digits.nil_notMem_mul rfl fun b rest => ?_
  rw [exponentLength]
  dsimp only [isExponentMark]
  generalize digitsLength (rest.drop (signLength rest)) = n
  cases n with
  | zero => simp
  | succ n =>
      split <;> simp_all
      omega

/-! ## Whole numerals -/

/-- A numeral without its sign. -/
lemma measures_number : Measures (mantissas * (1 + exponents)) numberLength := by
  refine Measures.append measures_mantissas measures_exponents opens_mantissas.nil_notMem
    (consists_mantissas.mono fun b hb => by simp [mantissa_byte b hb]) opens_exponents fun t => ?_
  rw [numberLength]
  cases unsignedLength t <;> simp

lemma opens_number : Opens (mantissas * (1 + exponents)) fun b => Byte.isDigit b || b == byte '.' :=
  opens_mantissas.mul _

/-- The measure of numerals finds the longest one. -/
theorem measures_length : Measures numerals length := by
  refine Measures.signed measures_number
    (opens_number.mono fun b hb => by simp [mantissa_byte b hb]) fun t => ?_
  rw [length]
  cases numberLength (t.drop (signLength t)) with
  | zero => rfl
  | succ n => simp [Nat.add_comm]

/-- A number has no sign. -/
lemma length_eq_numberLength {t : Text} (h : numberLength t ≠ 0) : length t = numberLength t := by
  cases t with
  | nil => exact absurd rfl h
  | cons b rest =>
      have hfound := measures_number.found _ h
      obtain ⟨n, hn⟩ := Nat.exists_eq_succ_of_ne_zero h
      rw [hn, List.take_succ_cons] at hfound
      obtain ⟨b', rest', hword, hb⟩ := opens_number _ hfound
      obtain ⟨rfl, -⟩ := List.cons.inj hword
      have hsign : ¬ (b == byte '+' || b == byte '-') = true :=
        Bool.not_eq_true _ ▸ (mantissa_byte b hb).1
      rw [length, signLength, if_neg hsign, List.drop_zero, hn]

/-- A number is found again in every text that begins with it and goes on as the source does. -/
lemma split?_take {t : Text} {n : Nat} (h : numberLength t ≠ 0) (hn : numberLength t ≤ n) :
    split? (t.take n) =
        some (ofText (t.take (numberLength t)), (t.take n).drop (numberLength t)) := by
  have hlength := measures_length.take ((length_eq_numberLength h).trans_le hn)
  rw [length_eq_numberLength h] at hlength
  obtain ⟨k, hk⟩ := Nat.exists_eq_succ_of_ne_zero h
  rw [split?, hlength, hk]
  dsimp only
  rw [List.take_take, min_eq_left (by omega)]

lemma consists_numerals : Consists numerals isNumeralByte := by
  have hsign : Consists (oneOf isSign) isNumeralByte :=
    (consists_oneOf _).mono fun b hb => by simp [isNumeralByte, hb]
  have hdigits : Consists digits isNumeralByte :=
    consists_digits.mono fun b hb => by simp [isNumeralByte, hb]
  have hmark : Consists (oneOf isExponentMark) isNumeralByte :=
    (consists_oneOf _).mono fun b hb => by simp [isNumeralByte, hb]
  have hmantissas : Consists mantissas isNumeralByte :=
    consists_mantissas.mono fun b hb => by
      rcases Bool.or_eq_true_iff.1 hb with hb | hb <;> simp [isNumeralByte, hb]
  exact hsign.optional.mul (hmantissas.mul (hmark.mul (hsign.optional.mul hdigits)).optional)

lemma ascii_of_mem_numerals {w : Text} (hw : w ∈ numerals) : ∀ b ∈ w, b < 0x80 := by
  have hbytes : ∀ b, isNumeralByte b = true → b < 0x80 := by decide +kernel
  exact fun b hb => hbytes b (consists_numerals w hw b hb)

/-- A text is split exactly if it begins with a numeral. What is taken is the longest numeral at its
start, which has as many bytes as characters, and the unit is all the rest. -/
theorem split?_takes_longest (t : Text) :
    ((split? t).isSome = true ↔ ∃ w ∈ numerals, w <+: t) ∧
      ∀ value unit, split? t = some (value, unit) →
      ∃ w ∈ numerals, w ++ unit = t ∧ value = ofText w ∧
        (∀ w' ∈ numerals, w' <+: t → w'.length ≤ w.length) ∧ ∀ b ∈ w, b < 0x80 := by
  cases hlength : length t with
  | zero =>
      have hnone : split? t = none := by rw [split?, hlength]
      refine ⟨?_, by simp [hnone]⟩
      simp only [hnone, Option.isSome_none, Bool.false_eq_true, false_iff]
      rintro ⟨w, hw, ht⟩
      have hle := measures_length.longest t w hw ht
      have hpos : 0 < w.length :=
        List.length_pos_iff.2 fun heq => opens_number.nil_notMem_mul (heq ▸ hw)
      omega
  | succ n =>
      have hsome : split? t = some (ofText (t.take (n + 1)), t.drop (n + 1)) := by
        rw [split?, hlength]
      have hword : t.take (n + 1) ∈ numerals := by
        have hfound := measures_length.found t (by omega)
        rwa [hlength] at hfound
      refine ⟨by simpa [hsome] using ⟨_, hword, List.take_prefix _ t⟩, ?_⟩
      intro value unit heq
      rw [hsome] at heq
      cases heq
      refine ⟨_, hword, List.take_append_drop _ t, rfl, fun w hw ht => ?_,
        ascii_of_mem_numerals hword⟩
      have hle := measures_length.longest t w hw ht
      have hlt := measures_length.le t
      rw [List.length_take]
      omega

-- What is not complete stays behind: a point, a letter, and a letter with a sign.
example :
    ["1.e5", "-.5e", "1e+x", "+1E-2.5"].map (fun s => (split? (Text.ofString s)).map Prod.snd) =
    [".e5", "e", "e+x", ".5"].map fun s => some (Text.ofString s) := by
  decide +kernel

end StyleSheet.Numeral
