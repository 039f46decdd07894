import Mathlib
import StyleSheet.Token.Lexeme

/-!
# What a lexeme takes

The lexeme at the start of a text comes from one reader of a fixed list (`simple_cases`,
`read_cases`), and its kind tells from which one (`reader_simple`). Whichever it is, the lexeme
stays inside the text (`length_read_le`), so that reading lexeme by lexeme covers a text exactly,
and it is never taken for the end of the input (`kind_read_ne`).
-/

namespace StyleSheet.Lexeme

/-! ## The readers of a lexeme -/

/-- The lexeme at the start of a text comes from one of the readers, in their order. -/
lemma simple_cases (d : Dialect) (t : Text) :
    blank? t = some (simple d t) ∨ comment? d t = some (simple d t) ∨
      string? t = some (simple d t) ∨ dashes? t = some (simple d t) ∨
      range? t = some (simple d t) ∨ ident? t = some (simple d t) ∨
      number? t = some (simple d t) ∨ sigil? t = some (simple d t) ∨
      mark? t = some (simple d t) ∨ (ident? t = none ∧ simple d t = unknown t) := by
  unfold simple
  cases h : (blank? t).or <| (comment? d t).or <| (string? t).or <| (dashes? t).or <|
    (range? t).or <| (ident? t).or <| (number? t).or <| (sigil? t).or <| mark? t with
  | none =>
      simp only [Option.or_eq_none_iff] at h
      simp [h]
  | some l =>
      simp only [Option.or_eq_some_iff] at h
      simp only [Option.getD_some]
      tauto

/-- A lexeme is the simple one, or one that an identifier or a number begins. -/
lemma read_cases (d : Dialect) (t : Text) :
    read d t = simple d t ∨
      ((simple d t).kind = .ident ∧ url? t (simple d t).length = some (read d t)) ∨
      ((simple d t).kind = .number ∧ measure? d t (simple d t).length = some (read d t)) := by
  unfold read
  dsimp only
  split
  · rename_i hk
    cases h : url? t (simple d t).length with
    | none => simp
    | some l => exact Or.inr (Or.inl ⟨hk, by simp⟩)
  · rename_i hk
    cases h : measure? d t (simple d t).length with
    | none => simp
    | some l => exact Or.inr (Or.inr ⟨hk, by simp⟩)
  · exact Or.inl rfl

lemma eq_of_ofLength? {kind : TokenKind} {n : Nat} {l : Lexeme} (h : ofLength? kind n = some l) :
    l = ⟨kind, n⟩ := by
  grind [ofLength?]

/-! ## A lexeme stays inside its text -/

lemma runLength_le (p : UInt8 → Bool) (t : Text) : runLength p t ≤ t.length :=
  (List.takeWhile_prefix p).length_le

lemma commentLength_le (t : Text) : commentLength t ≤ t.length := by
  induction t with
  | nil => simp [commentLength]
  | cons b rest ih =>
      rw [commentLength, List.length_cons]
      split
      · rename_i h
        cases rest with
        | nil => simp at h
        | cons c rest => simp
      · omega

lemma stringLength_le (q : UInt8) (t : Text) : stringLength q t ≤ t.length := by
  fun_induction stringLength q t <;> simp_all <;> omega

lemma nameLength_le (inside : Bool) (t : Text) : nameLength inside t ≤ t.length := by
  fun_induction nameLength inside t <;> simp_all <;> omega

lemma identLength_le (t : Text) : identLength t ≤ t.length := by
  unfold identLength
  split
  · exact nameLength_le false t
  · simp

lemma startsWith_length {t : Text} {s : String} (h : t.startsWith s = true) :
    (Text.ofString s).length ≤ t.length :=
  (List.isPrefixOf_iff_prefix.1 h).length_le

lemma comment?_le {d : Dialect} {t : Text} {l : Lexeme} (h : comment? d t = some l) :
    l.length ≤ t.length := by
  unfold comment? at h
  split at h
  · rename_i hs
    have hlen : 2 ≤ t.length := startsWith_length hs
    have hrest := commentLength_le (t.drop 2)
    rw [List.length_drop] at hrest
    simp only [Option.some.injEq] at h
    subst h
    dsimp only
    omega
  · split at h
    · rename_i hs
      have hlen : 2 ≤ t.length := startsWith_length (Bool.and_eq_true_iff.1 hs).2
      have hrest := runLength_le (fun b => !Byte.isLineBreak b) (t.drop 2)
      rw [List.length_drop] at hrest
      simp only [Option.some.injEq] at h
      subst h
      dsimp only
      omega
    · simp at h

lemma string?_le {t : Text} {l : Lexeme} (h : string? t = some l) : l.length ≤ t.length := by
  cases t with
  | nil => simp [string?] at h
  | cons q rest =>
      have hle := stringLength_le q rest
      simp only [string?] at h
      split at h
      · split at h
        · rename_i hq
          have hlt : stringLength q rest < rest.length := by
            by_contra hge
            rw [List.drop_eq_nil_of_le (by omega)] at hq
            simp at hq
          simp only [Option.some.injEq] at h
          subst h
          simp only [List.length_cons]
          omega
        · simp only [Option.some.injEq] at h
          subst h
          simp only [List.length_cons]
          omega
      · simp at h

lemma dashes?_le {t : Text} {l : Lexeme} (h : dashes? t = some l) : l.length ≤ t.length := by
  unfold dashes? at h
  split at h
  · rename_i hs
    have hlen : 3 ≤ t.length := startsWith_length hs
    simp only [Option.some.injEq] at h
    subst h
    exact hlen
  · split at h
    · rename_i hs
      have hlen : 3 ≤ t.length := startsWith_length (Bool.and_eq_true_iff.1 hs).1
      simp only [Option.some.injEq] at h
      subst h
      dsimp only
      omega
    · simp at h

lemma rangeEndLength_le (t : Text) : rangeEndLength t ≤ t.length := by
  cases t with
  | nil => simp [rangeEndLength]
  | cons b rest =>
      have hle := runLength_le Byte.isHexDigit (rest.take 6)
      rw [List.length_take] at hle
      simp only [rangeEndLength, List.length_cons]
      split
      · split <;> omega
      · omega

lemma range?_le {t : Text} {l : Lexeme} (h : range? t = some l) : l.length ≤ t.length := by
  match t with
  | [] | [_] => simp [range?] at h
  | u :: plus :: rest =>
      have hle := runLength_le (fun b => Byte.isHexDigit b || b == byte '?') (rest.take 6)
      have hend := rangeEndLength_le (rest.drop
        (runLength (fun b => Byte.isHexDigit b || b == byte '?') (rest.take 6)))
      rw [List.length_take] at hle
      rw [List.length_drop] at hend
      simp only [range?] at h
      split at h
      · split at h
        · simp at h
        · split at h <;>
          · simp only [Option.some.injEq] at h
            subst h
            simp only [List.length_cons]
            omega
      · simp at h

lemma digitsLength_le (t : Text) : Numeral.digitsLength t ≤ t.length := runLength_le _ t

lemma signLength_le (t : Text) : Numeral.signLength t ≤ t.length := by
  cases t with
  | nil => simp [Numeral.signLength]
  | cons b rest =>
      simp only [Numeral.signLength, List.length_cons]
      split <;> omega

lemma fractionLength_le (t : Text) : Numeral.fractionLength t ≤ t.length := by
  cases t with
  | nil => simp [Numeral.fractionLength]
  | cons b rest =>
      have hle := digitsLength_le rest
      simp only [Numeral.fractionLength, List.length_cons]
      split
      · split <;> omega
      · omega

lemma exponentLength_le (t : Text) : Numeral.exponentLength t ≤ t.length := by
  cases t with
  | nil => simp [Numeral.exponentLength]
  | cons b rest =>
      have hsign := signLength_le rest
      have hle := digitsLength_le (rest.drop (Numeral.signLength rest))
      rw [List.length_drop] at hle
      simp only [Numeral.exponentLength, List.length_cons]
      split
      · split <;> omega
      · omega

lemma unsignedLength_le (t : Text) : Numeral.unsignedLength t ≤ t.length := by
  have hle := digitsLength_le t
  have hfraction := fractionLength_le (t.drop (Numeral.digitsLength t))
  rw [List.length_drop] at hfraction
  unfold Numeral.unsignedLength
  dsimp only
  omega

lemma numberLength_le (t : Text) : Numeral.numberLength t ≤ t.length := by
  have hle := unsignedLength_le t
  unfold Numeral.numberLength
  split
  · omega
  · rename_i n hn
    have hexponent := exponentLength_le (t.drop (n + 1))
    rw [List.length_drop] at hexponent
    omega

lemma sigil?_le {t : Text} {l : Lexeme} (h : sigil? t = some l) : l.length ≤ t.length := by
  cases t with
  | nil => simp [sigil?] at h
  | cons b rest =>
      simp only [sigil?] at h
      split at h
      · obtain ⟨m, hm, rfl⟩ := Option.map_eq_some_iff.1 h
        rw [eq_of_ofLength? hm]
        have hle := nameLength_le false rest
        simpa using hle
      · obtain ⟨kind, -, hk⟩ := Option.bind_eq_some_iff.1 h
        obtain ⟨m, hm, rfl⟩ := Option.map_eq_some_iff.1 hk
        rw [eq_of_ofLength? hm]
        have hle := identLength_le rest
        simpa using hle

lemma mark?_le {t : Text} {l : Lexeme} (h : mark? t = some l) : l.length ≤ t.length := by
  obtain ⟨m, hm, rfl⟩ := Option.map_eq_some_iff.1 h
  exact (List.isPrefixOf_iff_prefix.1 (by simpa using List.find?_some hm)).length_le

lemma unknown_le {t : Text} (h : t ≠ []) : (unknown t).length ≤ t.length := by
  have hle := runLength_le Byte.isContinuation (t.drop 1)
  have hpos : 0 < t.length := List.length_pos_iff.2 h
  rw [List.length_drop] at hle
  simp only [unknown]
  omega

lemma length_simple_le (d : Dialect) {t : Text} (ht : t ≠ []) : (simple d t).length ≤ t.length := by
  rcases simple_cases d t with h | h | h | h | h | h | h | h | h | ⟨-, h⟩
  · rw [eq_of_ofLength? h]
    exact runLength_le _ t
  · exact comment?_le h
  · exact string?_le h
  · exact dashes?_le h
  · exact range?_le h
  · rw [eq_of_ofLength? h]
    exact identLength_le t
  · rw [eq_of_ofLength? h]
    exact numberLength_le t
  · exact sigil?_le h
  · exact mark?_le h
  · rw [h]
    exact unknown_le ht

lemma urlBodyLength?_le (ended : Bool) (t : Text) :
    ∀ n, urlBodyLength? ended t = some n → n ≤ t.length := by
  fun_induction urlBodyLength? ended t <;> intro m hm <;>
    grind [Option.map_eq_some_iff]

lemma urlLength?_le {t : Text} {n : Nat} (h : urlLength? t = some n) : n ≤ t.length := by
  unfold urlLength? at h
  dsimp only at h
  split at h
  · simp at h
  · rename_i b rest hdrop
    split at h
    · simp at h
    · obtain ⟨m, hm, rfl⟩ := Option.map_eq_some_iff.1 h
      have hle := urlBodyLength?_le false _ m hm
      have hlen := congrArg List.length hdrop
      rw [List.length_drop] at hlen
      have hpos : 0 < (b :: rest).length := by simp
      omega

lemma url?_le {t : Text} {n : Nat} {l : Lexeme} (h : url? t n = some l) :
    l.length ≤ t.length ∧ l.kind = .url := by
  unfold url? at h
  split at h
  · split at h
    · simp at h
    · rename_i b rest hdrop
      split at h
      · obtain ⟨m, hm, rfl⟩ := Option.map_eq_some_iff.1 h
        have hle := urlLength?_le hm
        have hlen := congrArg List.length hdrop
        simp only [List.length_drop, List.length_cons] at hlen
        exact ⟨by dsimp only; omega, rfl⟩
      · simp at h
  · simp at h

/-- What a number with a measure is made of. -/
lemma measure?_cases {d : Dialect} {t : Text} {n : Nat} {l : Lexeme} (h : measure? d t n = some l) :
    ((simple d (t.drop n)).kind = .percent ∧ l = ⟨.percentage, n + (simple d (t.drop n)).length⟩) ∨
      ((simple d (t.drop n)).kind = .ident ∧
        isUnit ((t.drop n).take (simple d (t.drop n)).length) = true ∧
        l = ⟨.dimension, n + (simple d (t.drop n)).length⟩) := by
  unfold measure? at h
  dsimp only at h
  split at h
  · rename_i hk
    exact Or.inl ⟨hk, (Option.some.inj h).symm⟩
  · rename_i hk
    split at h
    · rename_i hu
      exact Or.inr ⟨hk, hu, (Option.some.inj h).symm⟩
    · simp at h
  · simp at h

lemma kind_simple_nil (d : Dialect) : (simple d []).kind = .unknown := by
  cases d <;> decide

/-- A lexeme stays inside the text. -/
theorem length_read_le (d : Dialect) {t : Text} (ht : t ≠ []) : (read d t).length ≤ t.length := by
  have hsimple := length_simple_le d ht
  rcases read_cases d t with h | ⟨-, h⟩ | ⟨-, h⟩
  · rw [h]
    exact hsimple
  · exact (url?_le h).1
  · have hle : (simple d (t.drop (simple d t).length)).kind ≠ .unknown →
        (simple d (t.drop (simple d t).length)).length ≤ t.length - (simple d t).length := by
      intro hk
      rw [← List.length_drop]
      refine length_simple_le d fun hnil => hk ?_
      rw [hnil, kind_simple_nil]
    rcases measure?_cases h with ⟨hk, hl⟩ | ⟨hk, -, hl⟩
    · rw [hl]
      have := hle (by simp [hk])
      dsimp only
      omega
    · rw [hl]
      have := hle (by simp [hk])
      dsimp only
      omega

/-! ## The reader of a kind -/

/-- The reader that gives the lexemes of a kind. -/
def reader (d : Dialect) (kind : TokenKind) (t : Text) : Option Lexeme :=
  match kind with
  | .whitespace => blank? t
  | .comment => comment? d t
  | .string | .badString => string? t
  | .markupClose => dashes? t
  | .minus => (dashes? t).or (mark? t)
  | .unicodeRange => range? t
  | .ident => (range? t).or (ident? t)
  | .number => number? t
  | .hash | .atKeyword | .dollarName | .placeholder => sigil? t
  | .unknown => some (unknown t)
  | _ => mark? t

lemma reader_of_comment? {d : Dialect} {t : Text} {l : Lexeme} (h : comment? d t = some l) :
    reader d l.kind t = comment? d t := by
  have hkind : l.kind = .comment := by grind [comment?]
  rw [hkind, reader]

lemma reader_of_string? (d : Dialect) {t : Text} {l : Lexeme} (h : string? t = some l) :
    reader d l.kind t = string? t := by
  cases t with
  | nil => cases h
  | cons q rest =>
      have hkind : l.kind = .string ∨ l.kind = .badString := by grind [string?]
      rcases hkind with hkind | hkind <;> rw [hkind, reader]

lemma reader_of_dashes? (d : Dialect) {t : Text} {l : Lexeme} (h : dashes? t = some l) :
    reader d l.kind t = some l := by
  have hkind : l.kind = .markupClose ∨ l.kind = .minus := by grind [dashes?]
  rcases hkind with hkind | hkind <;> rw [hkind, reader, h]
  rfl

lemma reader_of_range? (d : Dialect) {t : Text} {l : Lexeme} (h : range? t = some l) :
    reader d l.kind t = some l := by
  have hkind : l.kind = .ident ∨ l.kind = .unicodeRange := by
    rcases t with _ | ⟨u, _ | ⟨plus, rest⟩⟩
    · cases h
    · cases h
    · grind [range?]
  rcases hkind with hkind | hkind <;> rw [hkind, reader, h]
  rfl

lemma reader_of_sigil? (d : Dialect) {t : Text} {l : Lexeme} (h : sigil? t = some l) :
    reader d l.kind t = sigil? t := by
  cases t with
  | nil => cases h
  | cons b rest =>
      have hkind : l.kind = .hash ∨ l.kind = .atKeyword ∨ l.kind = .dollarName ∨
          l.kind = .placeholder := by
        grind [sigil?, sigilKind?, ofLength?, Option.map_eq_some_iff, Option.bind_eq_some_iff]
      rcases hkind with hkind | hkind | hkind | hkind <;> rw [hkind, reader]

/-- A mark stands at the start of its text. -/
lemma exists_of_mark? {t : Text} {l : Lexeme} (h : mark? t = some l) :
    ∃ m ∈ marks, m.1 <+: t ∧ l = ⟨m.2, m.1.length⟩ := by
  obtain ⟨m, hm, rfl⟩ := Option.map_eq_some_iff.1 h
  exact ⟨m, List.mem_of_find?_eq_some hm, by simpa using List.find?_some hm, rfl⟩

lemma reader_of_mark? (d : Dialect) {t : Text} {l : Lexeme} (hdashes : dashes? t = none)
    (h : mark? t = some l) : reader d l.kind t = mark? t := by
  have hmarks : ∀ m ∈ marks, reader d m.2 t = mark? t := by simp [marks, reader, hdashes]
  obtain ⟨m, hm, -, rfl⟩ := exists_of_mark? h
  exact hmarks m hm

/-- The kind of a lexeme tells the reader that gave it. -/
theorem reader_simple (d : Dialect) (t : Text) :
    reader d (simple d t).kind t = some (simple d t) := by
  unfold simple
  cases h : (blank? t).or <| (comment? d t).or <| (string? t).or <| (dashes? t).or <|
    (range? t).or <| (ident? t).or <| (number? t).or <| (sigil? t).or <| mark? t with
  | none => rfl
  | some l =>
      simp only [Option.or_eq_some_iff] at h
      rw [Option.getD_some]
      rcases h with h |
        ⟨-, h | ⟨-, h | ⟨-, h | ⟨hdashes, h | ⟨hrange, h | ⟨-, h | ⟨-, h | ⟨-, h⟩⟩⟩⟩⟩⟩⟩⟩
      · rw [← h, eq_of_ofLength? h, reader]
      · rw [reader_of_comment? h, h]
      · rw [reader_of_string? d h, h]
      · exact reader_of_dashes? d h
      · exact reader_of_range? d h
      · rw [← h, eq_of_ofLength? h, reader, hrange, Option.none_or]
      · rw [← h, eq_of_ofLength? h, reader]
      · rw [reader_of_sigil? d h, h]
      · rw [reader_of_mark? d hdashes h, h]

/-- A lexeme of a kind that belongs to one mark has the bytes of this mark. -/
lemma mark_of_simple {d : Dialect} {t : Text} {k : TokenKind} (word : Text)
    (hmarks : ∀ m ∈ marks, m.2 = k → m.1 = word) (hreader : reader d k t = mark? t)
    (h : (simple d t).kind = k) : ∃ rest, t = word ++ rest ∧ (simple d t).length = word.length := by
  subst h
  rw [reader_simple] at hreader
  obtain ⟨m, hm, ⟨rest, hrest⟩, hl⟩ := exists_of_mark? hreader.symm
  have hword := hmarks m hm (by rw [hl])
  exact ⟨rest, by rw [← hword, hrest], by rw [hl, hword]⟩

/-- The kinds of lexemes that reach over their neighbours. -/
def joinedKinds : List TokenKind := [.url, .percentage, .dimension]

/-- A simple lexeme is not of such a kind. -/
lemma kind_simple_notMem (d : Dialect) (t : Text) : (simple d t).kind ∉ joinedKinds := by
  intro h
  have hmarks : ∀ m ∈ marks, m.2 ∉ joinedKinds := by decide
  have hreader := reader_simple d t
  have hmark : mark? t = some (simple d t) := by
    simp only [joinedKinds, List.mem_cons, List.not_mem_nil, or_false] at h
    rcases h with h | h | h
    all_goals rwa [h] at hreader
  obtain ⟨m, hm, -, hl⟩ := exists_of_mark? hmark
  rw [hl] at h
  exact hmarks m hm h

/-- A lexeme of another kind is a simple one. -/
lemma read_eq_simple {d : Dialect} {t : Text} (h : (read d t).kind ∉ joinedKinds) :
    read d t = simple d t := by
  rcases read_cases d t with hread | ⟨-, hread⟩ | ⟨-, hread⟩
  · exact hread
  · exact absurd (by simp [(url?_le hread).2, joinedKinds]) h
  · rcases measure?_cases hread with ⟨-, hl⟩ | ⟨-, -, hl⟩
    all_goals exact absurd (by simp [hl, joinedKinds]) h

/-- A lexeme that does not reach over its neighbours comes from the reader of its kind. -/
lemma reader_read {d : Dialect} {t : Text} {k : TokenKind} (hk : (read d t).kind = k)
    (hjoined : k ∉ joinedKinds) : reader d k t = some (read d t) := by
  subst hk
  rw [read_eq_simple hjoined]
  exact reader_simple d t

/-! ## The end of the input -/

lemma kind_mark_ne : ∀ m ∈ marks, m.2 ≠ .endOfInput ∧ m.2.isTrivia = false := by decide

/-- The end of the input is not a lexeme. -/
theorem kind_read_ne (d : Dialect) (t : Text) : (read d t).kind ≠ .endOfInput := by
  intro hk
  obtain ⟨m, hm, -, hl⟩ := exists_of_mark? (reader_read hk (by decide))
  rw [hl] at hk
  exact (kind_mark_ne m hm).1 hk

end StyleSheet.Lexeme
