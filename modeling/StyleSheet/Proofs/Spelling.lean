import Mathlib
import StyleSheet.Proofs.Lexeme

/-!
# Spelled texts

The lexemes that can be glued to a range of code points are *spelled*: they consist of plain bytes,
of escapes and of whole characters (`spelled_take_read`). A spelled text begins neither white space
nor a comment, and what a lexeme leaves of it is spelled again (`spelled_drop_read`). Reading such a
text anew therefore never finds white space or comments in it, however the first reading had divided
it.
-/

namespace StyleSheet.Lexeme

/-! ## Spelled texts -/

/-- Whether a byte can stand in a name, in a number or in a range of code points by itself. -/
def isPlainByte (b : UInt8) : Bool :=
  isNameByte b || b == byte '?' || b == byte '.' || b == byte '+'

/-- A text that consists of plain bytes. -/
def Plain (t : Text) : Prop := ∀ b ∈ t, isPlainByte b = true

/-- A text that consists of plain bytes, of escapes and of whole characters. -/
inductive Spelled : Text → Prop
  | nil : Spelled []
  | plain {b : UInt8} {rest : Text} : isPlainByte b = true → Spelled rest → Spelled (b :: rest)
  | escape {c : UInt8} {rest : Text} : Byte.isLineBreak c = false → Spelled rest →
      Spelled (byte '\\' :: c :: rest)
  | character {b : UInt8} {more rest : Text} : Byte.isLead b = true →
      (∀ c ∈ more, Byte.isContinuation c = true) → Spelled rest → Spelled (b :: (more ++ rest))

/-- What a plain byte is not. -/
lemma plain_facts : ∀ b : UInt8, isPlainByte b = true →
    Byte.isBlank b = false ∧ Byte.isQuote b = false ∧ (b == byte '/') = false ∧
      (b == byte '\\') = false ∧ Byte.isLead b = false ∧ Byte.isContinuation b = false ∧
      (b == byte '>') = false ∧ (b == byte '(') = false ∧ sigilKind? b = none ∧
      (b == byte '#') = false := by
  decide +kernel

/-- What the first byte of a character of several bytes is not. -/
lemma lead_facts : ∀ b : UInt8, Byte.isLead b = true →
    Byte.isBlank b = false ∧ Byte.isQuote b = false ∧ (b == byte '/') = false ∧
      (b == byte '\\') = false ∧ isPlainByte b = false ∧ Byte.isContinuation b = false ∧
      (b == byte '>') = false ∧ (b == byte '(') = false ∧ sigilKind? b = none ∧
      (b == byte '#') = false := by
  decide +kernel

namespace Plain

lemma nil : Plain [] := by simp [Plain]

lemma cons {b : UInt8} {rest : Text} (hb : isPlainByte b = true) (h : Plain rest) :
    Plain (b :: rest) := by
  simpa [Plain, hb] using h

lemma append {a b : Text} (ha : Plain a) (hb : Plain b) : Plain (a ++ b) := fun c hc =>
  (List.mem_append.1 hc).elim (ha c) (hb c)

/-- A plain text is spelled. -/
lemma spelled {t : Text} (h : Plain t) : Spelled t := by
  induction t with
  | nil => exact .nil
  | cons b rest ih => exact .plain (h b (by simp)) (ih fun c hc => h c (by simp [hc]))

end Plain

namespace Spelled

lemma append {a b : Text} (ha : Spelled a) (hb : Spelled b) : Spelled (a ++ b) := by
  induction ha with
  | nil => simpa
  | plain h _ ih => exact .plain h ih
  | escape h _ ih => exact .escape h ih
  | @character b more rest h hmore _ ih =>
      rw [List.cons_append, List.append_assoc]
      exact .character h hmore ih

lemma flatMap {α : Type} {l : List α} {f : α → Text} (h : ∀ a ∈ l, Spelled (f a)) :
    Spelled (l.flatMap f) := by
  induction l with
  | nil => exact .nil
  | cons a rest ih =>
      rw [List.flatMap_cons]
      exact (h a (by simp)).append (ih fun b hb => h b (by simp [hb]))

/-- A spelled text begins with a whole character. -/
lemma atBoundary {t : Text} (h : Spelled t) : t.atBoundary = true := by
  cases h with
  | nil => rfl
  | plain h _ => simp [Text.atBoundary, (plain_facts _ h).2.2.2.2.2.1]
  | escape => exact rfl
  | character h _ _ => simp [Text.atBoundary, (lead_facts _ h).2.2.2.2.2.1]

lemma tail {b : UInt8} {rest : Text} (hb : isPlainByte b = true) (h : Spelled (b :: rest)) :
    Spelled rest := by
  cases h with
  | plain _ h => exact h
  | escape => exact absurd hb (by decide)
  | character hl _ _ => exact absurd hb (by simp [(lead_facts _ hl).2.2.2.2.1])

/-- Plain bytes can be taken away from the start of a spelled text. -/
lemma drop_plain {t : Text} {n : Nat} (h : Spelled t) (hn : Plain (t.take n)) :
    Spelled (t.drop n) := by
  induction n generalizing t with
  | zero => exact h
  | succ n ih =>
      cases t with
      | nil => exact h
      | cons b rest =>
          rw [List.take_succ_cons] at hn
          exact ih (h.tail (hn b (by simp))) fun c hc => hn c (by simp [hc])

end Spelled

/-! ## Which lexemes are spelled -/

lemma plain_take_add {t : Text} {m n : Nat} (hm : Plain (t.take m))
    (hn : Plain ((t.drop m).take n)) : Plain (t.take (m + n)) := by
  rw [List.take_add]
  exact hm.append hn

lemma plain_take_runLength {p : UInt8 → Bool} (hp : ∀ b, p b = true → isPlainByte b = true)
    (t : Text) : Plain (t.take (runLength p t)) := by
  rw [runLength, ← List.prefix_iff_eq_take.1 (List.takeWhile_prefix p)]
  exact fun b hb => hp b (List.mem_takeWhile_imp hb)

lemma plain_of_rangeByte :
    ∀ b, (Byte.isHexDigit b || b == byte '?') = true → isPlainByte b = true := by
  decide +kernel

lemma plain_of_hexDigit (b : UInt8) (h : Byte.isHexDigit b = true) : isPlainByte b = true :=
  plain_of_rangeByte b (by rw [h, Bool.true_or])

lemma plain_of_digit (b : UInt8) (h : Byte.isDigit b = true) : isPlainByte b = true :=
  plain_of_hexDigit b (by simp [Byte.isHexDigit, h])

lemma plain_of_eq_or {c d : UInt8} (hc : isPlainByte c = true) (hd : isPlainByte d = true)
    (b : UInt8) (h : (b == c || b == d) = true) : isPlainByte b = true := by
  rcases Bool.or_eq_true_iff.1 h with h | h <;> rwa [beq_iff_eq.1 h]

/-- The run of name characters and escapes at the start of a text. Where a character that was begun
before goes on, `inside`, its remaining bytes come first. -/
lemma spelled_take_nameLength (inside : Bool) (t : Text) :
    ∃ more rest, t.take (nameLength inside t) = more ++ rest ∧ Spelled rest ∧
      (∀ c ∈ more, Byte.isContinuation c = true) ∧ (inside = false → more = []) := by
  fun_induction nameLength inside t with
  | case1 => exact ⟨[], [], rfl, .nil, by simp, fun _ => rfl⟩
  | case2 inside b h =>
      simp only [Bool.or_eq_true, Bool.and_eq_true] at h
      rcases h with (⟨hc, hi⟩ | hl) | hn
      · exact ⟨[b], [], rfl, .nil, by simpa using hc, by simp [hi]⟩
      · exact ⟨[], [b], rfl, @Spelled.character b [] [] hl (by simp) .nil, by simp, fun _ => rfl⟩
      · exact ⟨[], [b], rfl, .plain (by simp [isPlainByte, hn]) .nil, by simp, fun _ => rfl⟩
  | case3 => exact ⟨[], [], rfl, .nil, by simp, fun _ => rfl⟩
  | case4 inside b c rest h ih =>
      obtain ⟨more, tail, heq, htail, hmore, -⟩ := ih
      simp only [Nat.add_comm 1, List.take_succ_cons, heq]
      simp only [Bool.or_eq_true, Bool.and_eq_true] at h
      by_cases hl : Byte.isLead b = true
      · exact ⟨[], b :: (more ++ tail), rfl, .character hl hmore htail, by simp, fun _ => rfl⟩
      · have hc : Byte.isContinuation b = true ∧ inside = true := by tauto
        exact ⟨b :: more, tail, rfl, htail, by simpa [hc.1] using hmore, by simp [hc.2]⟩
  | case5 inside b c rest h hn ih =>
      obtain ⟨more, tail, heq, htail, -, hnil⟩ := ih
      obtain rfl := hnil rfl
      simp only [Nat.add_comm 1, List.take_succ_cons, heq]
      exact ⟨[], b :: tail, rfl, .plain (by simp [isPlainByte, hn]) htail, by simp, fun _ => rfl⟩
  | case6 inside b c rest h hn he ih =>
      obtain ⟨more, tail, heq, htail, -, hnil⟩ := ih
      obtain rfl := hnil rfl
      simp only [Bool.and_eq_true, beq_iff_eq, Bool.not_eq_true'] at he
      obtain ⟨rfl, hc⟩ := he
      simp only [Nat.add_comm 2, List.take_succ_cons, heq]
      exact ⟨[], byte '\\' :: c :: tail, rfl, .escape hc htail, by simp, fun _ => rfl⟩
  | case7 => exact ⟨[], [], rfl, .nil, by simp, fun _ => rfl⟩

lemma spelled_take_identLength (t : Text) : Spelled (t.take (identLength t)) := by
  unfold identLength
  split
  · obtain ⟨more, rest, heq, hrest, -, hnil⟩ := spelled_take_nameLength false t
    obtain rfl := hnil rfl
    rw [heq]
    exact hrest
  · exact .nil

lemma plain_take_signLength (t : Text) : Plain (t.take (Numeral.signLength t)) := by
  cases t with
  | nil => exact .nil
  | cons b rest =>
      simp only [Numeral.signLength]
      split
      · rename_i h
        exact .cons (plain_of_eq_or (by decide) (by decide) b h) .nil
      · exact .nil

lemma plain_take_digitsLength (t : Text) : Plain (t.take (Numeral.digitsLength t)) :=
  plain_take_runLength plain_of_digit t

lemma plain_take_fractionLength (t : Text) : Plain (t.take (Numeral.fractionLength t)) := by
  cases t with
  | nil => exact .nil
  | cons b rest =>
      have hdigits := plain_take_digitsLength rest
      simp only [Numeral.fractionLength]
      split
      · rename_i h
        obtain rfl : b = byte '.' := by simpa using h
        split
        · exact .nil
        · rename_i n hn
          rw [hn] at hdigits
          exact .cons (by decide) hdigits
      · exact .nil

lemma plain_take_exponentLength (t : Text) : Plain (t.take (Numeral.exponentLength t)) := by
  cases t with
  | nil => exact .nil
  | cons b rest =>
      have hsign := plain_take_signLength rest
      have hdigits := plain_take_digitsLength (rest.drop (Numeral.signLength rest))
      simp only [Numeral.exponentLength]
      split
      · rename_i h
        split
        · exact .nil
        · rename_i n hn
          rw [hn] at hdigits
          rw [show n + 2 + Numeral.signLength rest = Numeral.signLength rest + (n + 1) + 1 by omega]
          exact .cons (plain_of_eq_or (by decide) (by decide) b h) (plain_take_add hsign hdigits)
      · exact .nil

lemma plain_take_numberLength (t : Text) : Plain (t.take (Numeral.numberLength t)) := by
  have hunsigned : Plain (t.take (Numeral.unsignedLength t)) :=
    plain_take_add (plain_take_digitsLength t) (plain_take_fractionLength _)
  unfold Numeral.numberLength
  split
  · exact .nil
  · rename_i n hn
    rw [hn] at hunsigned
    exact plain_take_add hunsigned (plain_take_exponentLength _)

lemma plain_take_rangeEndLength (t : Text) : Plain (t.take (rangeEndLength t)) := by
  cases t with
  | nil => exact .nil
  | cons b rest =>
      have hdigits := plain_take_runLength plain_of_hexDigit (rest.take 6)
      simp only [rangeEndLength]
      split
      · rename_i h
        obtain rfl : b = byte '-' := by simpa using h
        split
        · exact .nil
        · rename_i n hn
          rw [hn, List.take_take] at hdigits
          have hle := runLength_le Byte.isHexDigit (rest.take 6)
          rw [hn, List.length_take] at hle
          rw [min_eq_left (by omega)] at hdigits
          exact .cons (by decide) hdigits
      · exact .nil

lemma plain_of_lower : ∀ b, (Byte.lower b == byte 'u') = true → isPlainByte b = true := by
  decide +kernel

/-- What a range of code points, or what looks like one, is made of. -/
lemma range?_cases {t : Text} {l : Lexeme} (h : range? t = some l) :
    (l.kind = .ident ∨ l.kind = .unicodeRange) ∧ 3 ≤ l.length ∧ Plain (t.take l.length) ∧
      ∃ u rest, t = u :: byte '+' :: rest ∧ isPlainByte u = true := by
  match t with
  | [] | [_] => simp [range?] at h
  | u :: plus :: rest =>
      have hstart := plain_take_runLength plain_of_rangeByte (rest.take 6)
      have hle := runLength_le (fun b => Byte.isHexDigit b || b == byte '?') (rest.take 6)
      rw [List.length_take] at hle
      rw [List.take_take, min_eq_left (by omega)] at hstart
      have hend := plain_take_rangeEndLength (rest.drop
        (runLength (fun b => Byte.isHexDigit b || b == byte '?') (rest.take 6)))
      simp only [range?] at h
      split at h
      · rename_i hu
        simp only [Bool.and_eq_true, beq_iff_eq (b := byte '+')] at hu
        obtain ⟨hu, rfl⟩ := hu
        have hplain := plain_of_lower u hu
        split at h
        · simp at h
        · split at h
          · simp only [Option.some.injEq] at h
            subst h
            exact ⟨Or.inl rfl, by dsimp only; omega, .cons hplain (.cons (by decide) hstart),
              u, rest, rfl, hplain⟩
          · simp only [Option.some.injEq] at h
            subst h
            exact ⟨Or.inr rfl, by dsimp only; omega,
              .cons hplain (.cons (by decide) (plain_take_add hstart hend)), u, rest, rfl, hplain⟩
      · simp at h

/-- The kinds of lexemes that are spelled. -/
def isSpelledKind : TokenKind → Bool
  | .ident | .number | .dimension | .minus | .unicodeRange => true
  | _ => false

lemma spelled_mark : ∀ m ∈ marks, isSpelledKind m.2 = true → m.1 = [byte '-'] := by decide

lemma kind_of_sigil?_not_spelled {t : Text} {l : Lexeme} (h : sigil? t = some l) :
    isSpelledKind l.kind = false := by
  cases t with
  | nil => simp [sigil?] at h
  | cons b rest =>
      simp only [sigil?] at h
      split at h
      · obtain ⟨m, hm, rfl⟩ := Option.map_eq_some_iff.1 h
        rw [eq_of_ofLength? hm]
        rfl
      · obtain ⟨kind, hkind, hk⟩ := Option.bind_eq_some_iff.1 h
        obtain ⟨m, hm, rfl⟩ := Option.map_eq_some_iff.1 hk
        rw [eq_of_ofLength? hm]
        unfold sigilKind? at hkind
        split_ifs at hkind <;> cases hkind <;> rfl

lemma spelled_take_simple (d : Dialect) (t : Text) (hk : isSpelledKind (simple d t).kind = true) :
    Spelled (t.take (simple d t).length) := by
  rcases simple_cases d t with h | h | h | h | h | h | h | h | h | ⟨-, h⟩
  · rw [eq_of_ofLength? h] at hk
    simp [isSpelledKind] at hk
  · grind [comment?, isSpelledKind]
  · cases t with
    | nil => simp [string?] at h
    | cons q rest => grind [string?, isSpelledKind]
  · unfold dashes? at h
    split_ifs at h with hs hs
    · rw [← Option.some.inj h] at hk
      simp [isSpelledKind] at hk
    · rw [← Option.some.inj h]
      obtain ⟨rest, rfl⟩ := List.isPrefixOf_iff_prefix.1 (Bool.and_eq_true_iff.1 hs).1
      rw [show Text.ofString "--\\" = [byte '-', byte '-', byte '\\'] by decide]
      exact .plain (by decide) (.plain (by decide) .nil)
  · exact (range?_cases h).2.2.1.spelled
  · rw [eq_of_ofLength? h]
    exact spelled_take_identLength t
  · rw [eq_of_ofLength? h]
    exact (plain_take_numberLength t).spelled
  · rw [kind_of_sigil?_not_spelled h] at hk
    simp at hk
  · obtain ⟨m, hm, hl⟩ := Option.map_eq_some_iff.1 h
    rw [← hl] at hk ⊢
    have hdash := spelled_mark m (List.mem_of_find?_eq_some hm) hk
    have hstart : m.1 <+: t := by simpa using List.find?_some hm
    dsimp only
    rw [← List.prefix_iff_eq_take.1 hstart, hdash]
    exact .plain (by decide) .nil
  · rw [h] at hk
    simp [unknown, isSpelledKind] at hk

lemma spelled_take_read (d : Dialect) (t : Text) (hk : isSpelledKind (read d t).kind = true) :
    Spelled (t.take (read d t).length) := by
  rcases read_cases d t with hr | ⟨-, hr⟩ | ⟨hnumber, hr⟩
  · rw [hr] at hk ⊢
    exact spelled_take_simple d t hk
  · rw [(url?_le hr).2] at hk
    cases hk
  · rcases measure?_cases hr with ⟨-, hl⟩ | ⟨hident, -, hl⟩
    · rw [hl] at hk
      cases hk
    · rw [hl, List.take_add]
      exact (spelled_take_simple d t (by rw [hnumber]; rfl)).append
        (spelled_take_simple d _ (by rw [hident]; rfl))

lemma range?_of_read {d : Dialect} {t : Text} (hk : (read d t).kind = .unicodeRange) :
    range? t = some (read d t) :=
  reader_read hk (by decide)

/-! ## Reading a spelled text anew -/

namespace Spelled

/-- What the first byte of a spelled text is not. -/
lemma head {b : UInt8} {rest : Text} (h : Spelled (b :: rest)) :
    Byte.isBlank b = false ∧ Byte.isQuote b = false ∧ (b == byte '/') = false ∧
      Byte.isContinuation b = false ∧ (b == byte '>') = false ∧ (b == byte '(') = false ∧
      sigilKind? b = none ∧ (b == byte '#') = false := by
  cases h with
  | plain h _ =>
      obtain ⟨h1, h2, h3, -, -, h6, h7, h8, h9, h10⟩ := plain_facts _ h
      exact ⟨h1, h2, h3, h6, h7, h8, h9, h10⟩
  | escape => decide
  | character h _ _ =>
      obtain ⟨h1, h2, h3, -, -, h6, h7, h8, h9, h10⟩ := lead_facts _ h
      exact ⟨h1, h2, h3, h6, h7, h8, h9, h10⟩

/-- A backslash in a spelled text begins an escape. -/
lemma startsEscape {rest : Text} (h : Spelled (byte '\\' :: rest)) :
    Lexeme.startsEscape (byte '\\' :: rest) = true := by
  cases h with
  | plain h _ => exact absurd h (by decide)
  | escape h _ => simp [Lexeme.startsEscape, h]
  | character h _ _ => exact absurd h (by decide)

/-- Where no character goes on, it does not matter whether one might. -/
lemma nameLength_inside {t : Text} (h : t.atBoundary = true) (inside : Bool) :
    nameLength inside t = nameLength false t := by
  match t with
  | [] => rfl
  | [b] =>
      have hb : Byte.isContinuation b = false := by simpa [Text.atBoundary] using h
      simp [nameLength, hb]
  | b :: c :: rest =>
      have hb : Byte.isContinuation b = false := by simpa [Text.atBoundary] using h
      simp [nameLength, hb]

lemma nameLength_continuation {more rest : Text}
    (h : ∀ c ∈ more, Byte.isContinuation c = true) (hrest : rest.atBoundary = true) :
    nameLength true (more ++ rest) = more.length + nameLength false rest := by
  induction more with
  | nil => simpa using nameLength_inside hrest true
  | cons b more ih =>
      have hb : Byte.isContinuation b = true := h b (by simp)
      have ih := ih fun c hc => h c (by simp [hc])
      cases hcase : more ++ rest with
      | nil =>
          obtain ⟨rfl, rfl⟩ := List.append_eq_nil_iff.1 hcase
          simp [nameLength, hb]
      | cons c tail =>
          rw [List.cons_append, hcase, nameLength]
          simp only [hb, Bool.and_true, Bool.true_or, if_true]
          rw [← hcase, ih, List.length_cons]
          omega

lemma nameLength_character {b : UInt8} {more rest : Text} (hb : Byte.isLead b = true)
    (h : ∀ c ∈ more, Byte.isContinuation c = true) (hrest : rest.atBoundary = true) :
    nameLength false (b :: (more ++ rest)) = 1 + (more.length + nameLength false rest) := by
  rw [← nameLength_continuation h hrest]
  cases more ++ rest with
  | nil => simp [nameLength, hb]
  | cons c tail => simp [nameLength, hb]

/-- A name takes whole parts of a spelled text. -/
lemma drop_nameLength {t : Text} (h : Spelled t) : Spelled (t.drop (nameLength false t)) := by
  induction h with
  | nil => exact .nil
  | @plain b rest hb hrest ih =>
      obtain ⟨-, -, -, hslash, hlead, hcont, -⟩ := plain_facts b hb
      cases rest with
      | nil =>
          simp only [nameLength]
          split
          · exact .nil
          · exact .plain hb .nil
      | cons c tail =>
          simp only [nameLength, hcont, hlead, Bool.false_and, Bool.false_or, Bool.false_eq_true,
            if_false, hslash]
          split
          · rw [Nat.add_comm, List.drop_succ_cons]
            exact ih
          · exact .plain hb hrest
  | @escape c rest hc hrest ih =>
      have hname : nameLength false (byte '\\' :: c :: rest) = nameLength false rest + 2 := by
        rw [nameLength, if_neg (by decide), if_neg (by decide), if_pos (by simp [hc]), Nat.add_comm]
      rw [hname, List.drop_succ_cons, List.drop_succ_cons]
      exact ih
  | @character b more rest hb hmore hrest ih =>
      rw [nameLength_character hb hmore hrest.atBoundary, Nat.add_comm, List.drop_succ_cons,
        List.drop_length_add_append]
      exact ih

end Spelled

lemma mark_facts : ∀ m ∈ marks,
    ((∀ b ∈ m.1, isPlainByte b = true) ∧ m.2 ≠ .percent) ∨
      m.1.head?.any (fun b => !isPlainByte b && !Byte.isLead b && b != byte '\\') = true := by
  -- Computed as a Boolean: for bounded quantifiers the kernel reads each mark many times.
  have hall : marks.all (fun m => m.1.all isPlainByte && m.2 != .percent ||
      m.1.head?.any fun b => !isPlainByte b && !Byte.isLead b && b != byte '\\') = true := by
    decide +kernel
  simpa only [List.all_eq_true, Bool.or_eq_true, Bool.and_eq_true, bne_iff_ne] using hall

namespace Spelled

lemma comment?_eq_none (d : Dialect) {t : Text} (h : Spelled t) : comment? d t = none := by
  have hfirst : ∀ c, ¬ [byte '/', c] <+: t := by
    rintro c ⟨rest, rfl⟩
    exact absurd h.head.2.2.1 (by decide)
  have hblock : t.startsWith "/*" = false := by
    rw [Bool.eq_false_iff, Text.startsWith,
      show Text.ofString "/*" = [byte '/', byte '*'] by decide]
    exact fun hs => hfirst _ (List.isPrefixOf_iff_prefix.1 hs)
  have hline : t.startsWith "//" = false := by
    rw [Bool.eq_false_iff, Text.startsWith,
      show Text.ofString "//" = [byte '/', byte '/'] by decide]
    exact fun hs => hfirst _ (List.isPrefixOf_iff_prefix.1 hs)
  simp [comment?, hblock, hline]

lemma dashes?_eq_none {t : Text} (h : Spelled t) : dashes? t = none := by
  have hrest : ∀ {rest : Text}, Spelled (byte '-' :: byte '-' :: rest) → Spelled rest :=
    fun h => (h.tail (by decide)).tail (by decide)
  have hclose : t.startsWith "-->" = false := by
    rw [Bool.eq_false_iff]
    intro hs
    obtain ⟨rest, rfl⟩ := List.isPrefixOf_iff_prefix.1 hs
    rw [show Text.ofString "-->" = [byte '-', byte '-', byte '>'] by decide] at h
    exact absurd (hrest h).head.2.2.2.2.1 (by decide)
  have hminus : (t.startsWith "--\\" && !Lexeme.startsEscape (t.drop 2)) = false := by
    rw [Bool.eq_false_iff]
    intro hs
    rw [Bool.and_eq_true, Bool.not_eq_true'] at hs
    obtain ⟨rest, rfl⟩ := List.isPrefixOf_iff_prefix.1 hs.1
    rw [show Text.ofString "--\\" = [byte '-', byte '-', byte '\\'] by decide] at h hs
    exact absurd (hrest h).startsEscape (by simpa using hs.2)
  simp only [dashes?, hclose, hminus, Bool.false_eq_true, if_false]

/-- A spelled text that begins no identifier begins with a plain byte. -/
lemma plain_of_ident? {b : UInt8} {rest : Text} (h : Spelled (b :: rest))
    (hnone : ident? (b :: rest) = none) : isPlainByte b = true := by
  have hzero : identLength (b :: rest) = 0 := by
    by_contra hne
    simp [ident?, ofLength?, hne] at hnone
  cases h with
  | plain hb _ => exact hb
  | @escape c rest hc _ =>
      rw [identLength, if_pos (by simp [startsIdent, startsName, Lexeme.startsEscape, hc]),
        nameLength, if_neg (by decide), if_neg (by decide), if_pos (by simp [hc])] at hzero
      omega
  | @character b more rest hb hmore hrest =>
      rw [identLength, if_pos (by simp [startsIdent, startsName, hb]),
        nameLength_character hb hmore hrest.atBoundary] at hzero
      omega

lemma starts {t : Text} {b : UInt8} {rest : Text} (h : Spelled t) (ht : t = b :: rest) :
    isPlainByte b = true ∨ Byte.isLead b = true ∨ b = byte '\\' := by
  cases h with
  | nil => cases ht
  | plain hb _ => cases ht; exact Or.inl hb
  | escape _ _ => cases ht; exact Or.inr (Or.inr rfl)
  | character hb _ _ => cases ht; exact Or.inr (Or.inl hb)

/-- A mark at the start of a spelled text is plain. -/
lemma plain_of_mark {t : Text} (h : Spelled t) {m : Text × TokenKind} (hm : m ∈ marks)
    (hstart : m.1 <+: t) : Plain m.1 ∧ m.2 ≠ .percent := by
  rcases mark_facts m hm with hplain | hhead
  · exact hplain
  · exfalso
    obtain ⟨rest, rfl⟩ := hstart
    obtain ⟨_ | ⟨b, more⟩, kind⟩ := m
    · simp at hhead
    · have hb : isPlainByte b = false ∧ Byte.isLead b = false ∧ b ≠ byte '\\' := by
        simpa [and_assoc] using hhead
      rcases h.starts (List.cons_append) with hplain | hlead | hslash
      · simp [hplain] at hb
      · simp [hlead] at hb
      · exact hb.2.2 hslash

end Spelled

/-- What a simple lexeme leaves of a spelled text. -/
lemma spelled_drop_simple (d : Dialect) {t : Text} (h : Spelled t) (ht : t ≠ []) :
    (simple d t).kind.isTrivia = false ∧ (simple d t).kind ≠ .percent ∧
      Spelled (t.drop (simple d t).length) := by
  obtain ⟨b, rest, rfl⟩ := List.exists_cons_of_ne_nil ht
  obtain ⟨hblank, hquote, -, -, -, -, hsigil, hhash⟩ := h.head
  rcases simple_cases d (b :: rest) with hs | hs | hs | hs | hs | hs | hs | hs | hs | ⟨hnone, hs⟩
  · simp [blank?, ofLength?, runLength, hblank] at hs
  · simp [h.comment?_eq_none] at hs
  · simp [string?, hquote] at hs
  · simp [h.dashes?_eq_none] at hs
  · obtain ⟨hk, -, hplain, -⟩ := range?_cases hs
    exact ⟨by rcases hk with hk | hk <;> rw [hk] <;> rfl, by rcases hk with hk | hk <;> simp [hk],
      h.drop_plain hplain⟩
  · rw [eq_of_ofLength? hs]
    refine ⟨rfl, by simp, ?_⟩
    simp only [identLength]
    split
    · exact h.drop_nameLength
    · exact h
  · rw [eq_of_ofLength? hs]
    exact ⟨rfl, by simp, h.drop_plain (plain_take_numberLength _)⟩
  · simp [sigil?, hsigil, hhash] at hs
  · obtain ⟨m, hm, hl⟩ := Option.map_eq_some_iff.1 hs
    have hmem := List.mem_of_find?_eq_some hm
    have hstart : m.1 <+: b :: rest := by simpa using List.find?_some hm
    obtain ⟨hplain, hpercent⟩ := h.plain_of_mark hmem hstart
    rw [← hl]
    refine ⟨(kind_mark_ne m hmem).2, hpercent, h.drop_plain ?_⟩
    rw [← List.prefix_iff_eq_take.1 hstart]
    exact hplain
  · -- An unknown byte takes the bytes that continue it along, but here none follow.
    have hb := h.plain_of_ident? hnone
    have hrest := h.tail hb
    have hrun : runLength Byte.isContinuation rest = 0 := by
      cases rest with
      | nil => rfl
      | cons c tail => simp [runLength, hrest.head.2.2.2.1]
    rw [hs]
    exact ⟨rfl, by simp [unknown], by simpa [unknown, hrun] using hrest⟩

/-- Reading a spelled text gives no white space and no comment, and leaves a spelled text. -/
theorem spelled_drop_read (d : Dialect) {t : Text} (h : Spelled t) (ht : t ≠ []) :
    (read d t).kind.isTrivia = false ∧ Spelled (t.drop (read d t).length) := by
  obtain ⟨hk, -, hdrop⟩ := spelled_drop_simple d h ht
  rcases read_cases d t with hr | ⟨-, hr⟩ | ⟨-, hr⟩
  · rw [hr]
    exact ⟨hk, hdrop⟩
  · -- A raw url goes on with a parenthesis, which is not spelled.
    exfalso
    unfold url? at hr
    split at hr
    · split at hr
      · cases hr
      · rename_i b rest hbehind
        rw [hbehind] at hdrop
        rw [if_neg (by simp [hdrop.head.2.2.2.2.2.1])] at hr
        cases hr
    · cases hr
  · -- A number goes on with a unit only; a percent sign is not spelled either.
    rcases measure?_cases hr with ⟨hpercent, -⟩ | ⟨hident, -, hl⟩
    · by_cases hne : t.drop (simple d t).length = []
      · rw [hne, kind_simple_nil] at hpercent
        cases hpercent
      · exact absurd hpercent (spelled_drop_simple d hdrop hne).2.1
    · by_cases hne : t.drop (simple d t).length = []
      · rw [hne, kind_simple_nil] at hident
        cases hident
      · rw [hl]
        refine ⟨rfl, ?_⟩
        dsimp only
        rw [← List.drop_drop]
        exact (spelled_drop_simple d hdrop hne).2.2

end StyleSheet.Lexeme
