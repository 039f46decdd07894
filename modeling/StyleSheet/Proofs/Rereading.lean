import Mathlib
import StyleSheet.Proofs.Shift

/-!
# Reading again from a token on

The lexeme at the start of a text depends on nothing but the text from there on. So reading may
start again at any token, and it finds the same tokens (`readFrom_of_append`).

Where a source is read in passes, this is less plain. The first pass finds the raw urls by a look
back: if a parenthesis directly follows the identifier `url`, this token is taken back and the url
is put in its place. The second pass joins a number and the token behind it. Both passes together
find the tokens that are read lexeme by lexeme (`readInPasses_eq`), so what they find depends on the
text from a token on as well.
-/

namespace StyleSheet

namespace Lexeme

/-- The lexeme at the start of a text as the first pass finds it: a raw url, or a simple lexeme. -/
def raw (d : Dialect) (t : Text) : Lexeme :=
  let first := simple d t
  if first.kind = .ident then (url? t first.length).getD first else first

lemma length_raw_pos (d : Dialect) (t : Text) : 0 < (raw d t).length := by
  have hpos := length_simple_pos d t
  rw [raw]
  split
  · cases h : url? t (simple d t).length with
    | none => exact hpos
    | some l => exact length_of_url? h
  · exact hpos

/-- A raw url has a parenthesis behind its name. -/
lemma url?_cases {t : Text} {n : Nat} {l : Lexeme} (h : url? t n = some l) :
    ∃ rest m, t.drop n = byte '(' :: rest ∧ l = ⟨.url, n + 1 + m⟩ := by
  rw [url?] at h
  split at h
  · split at h
    · cases h
    · rename_i b rest hbehind
      split at h
      · rename_i hb
        obtain ⟨m, -, rfl⟩ := Option.map_eq_some_iff.1 h
        exact ⟨rest, m, by rw [hbehind, beq_iff_eq.1 hb], rfl⟩
      · cases h
  · cases h

/-- The name of a raw url is not a unit. -/
lemma isUnit_of_url? {t : Text} {n : Nat} {l : Lexeme} (h : url? t n = some l) :
    isUnit (t.take n) = false := by
  rw [url?] at h
  split at h
  · rename_i hword
    rw [isUnit, beq_iff_eq.1 hword]
    decide
  · cases h

/-- A raw lexeme is the simple one, unless the name of a url is found there. -/
lemma raw_cases (d : Dialect) (t : Text) :
    raw d t = simple d t ∨
      (raw d t).kind = .url ∧ (simple d t).kind = .ident ∧
      isUnit (t.take (simple d t).length) = false := by
  rw [raw]
  split
  · rename_i hident
    cases hurl : url? t (simple d t).length with
    | none => exact .inl rfl
    | some u =>
        obtain ⟨rest, m, -, rfl⟩ := url?_cases hurl
        exact .inr ⟨rfl, hident, isUnit_of_url? hurl⟩
  · exact .inl rfl

lemma kind_raw (d : Dialect) (t : Text) (h : (simple d t).kind ≠ .number) :
    (raw d t).kind ≠ .number := by
  rcases raw_cases d t with hraw | ⟨hurl, -⟩
  · rwa [hraw]
  · simp [hurl]

/-- Only a number may reach further than a raw lexeme. -/
lemma read_eq_raw {d : Dialect} {t : Text} (h : (simple d t).kind ≠ .number) :
    read d t = raw d t := by
  rw [read, raw]
  by_cases hident : (simple d t).kind = .ident
  · simp [hident]
  · rw [if_neg hident]
    split <;> first | rfl | contradiction

lemma raw_of_number {d : Dialect} {t : Text} (h : (simple d t).kind = .number) :
    raw d t = simple d t := by
  simp [raw, h]

lemma read_of_number {d : Dialect} {t : Text} (h : (simple d t).kind = .number) :
    read d t = (measure? d t (simple d t).length).getD (simple d t) := by
  simp [read, h]

/-- A measure reaches over the raw lexeme behind its number. -/
lemma length_of_measure?_eq {d : Dialect} {t : Text} {n : Nat} {l : Lexeme}
    (h : measure? d t n = some l) : l.length = n + (raw d (t.drop n)).length := by
  rcases measure?_cases h with ⟨hpercent, rfl⟩ | ⟨-, hunit, rfl⟩
  · rcases raw_cases d (t.drop n) with hraw | ⟨-, hident, -⟩
    · rw [hraw]
    · rw [hident] at hpercent
      cases hpercent
  · rcases raw_cases d (t.drop n) with hraw | ⟨-, -, hunit'⟩
    · rw [hraw]
    · rw [hunit] at hunit'
      cases hunit'

lemma simple_paren (d : Dialect) (t : Text) : simple d (byte '(' :: t) = ⟨.leftParen, 1⟩ := by
  cases t <;> cases d <;> rfl

/-- Only a parenthesis is read as one. -/
lemma head?_of_simple {d : Dialect} {t : Text} (h : (simple d t).kind = .leftParen) :
    t.head? = some (byte '(') := by
  obtain ⟨rest, rfl, -⟩ := mark_of_simple [byte '('] (by decide) rfl h
  rfl

end Lexeme

namespace Token

open Lexeme

section

variable (d : Dialect) (source : Text)

/-! ## Passes -/

/-- The bytes of a source between two offsets. -/
def bytes (start stop : Nat) : Text := (source.drop start).take (stop - start)

/-- The token of the given kind that a source has between two offsets. -/
def slice (kind : TokenKind) (start stop : Nat) : Token :=
  cut start (source.drop start) ⟨kind, stop - start⟩

/-- What becomes of the tokens `out`, the latest first, if the last one is the name of a raw url
whose parenthesis is the lexeme `l` at `offset`: the url takes its place. It has so many bytes
behind `l`. -/
def closeUrl? (out : List Token) (offset : Nat) (l : Lexeme) : Option (List Token × Nat) :=
  match out with
  | [] => none
  | name :: rest =>
    if l.kind = .leftParen && name.kind = .ident && name.stop = offset &&
        Text.isWord (bytes source name.start name.stop) "url" then
      (urlLength? (source.drop (offset + l.length))).map fun n =>
        (slice source .url name.start (offset + l.length + n) :: rest, n)
    else none

/-- The first pass: the tokens from `offset` on, behind those of `out`. -/
def rawFrom (out : List Token) (offset : Nat) : List Token :=
  if offset < source.length then
    let l := simple d (source.drop offset)
    match closeUrl? source out offset l with
    | some (out', n) => rawFrom out' (offset + l.length + n)
    | none => rawFrom (slice source l.kind offset (offset + l.length) :: out) (offset + l.length)
  else out.reverse
termination_by source.length - offset
decreasing_by all_goals
  have hpos := length_simple_pos d (source.drop offset)
  omega

/-- A number joined with a percent sign or a unit directly behind it. -/
def joined? (number next : Token) : Option Token :=
  if number.kind = .number && next.start = number.stop then
    if next.kind = .percent then some (slice source .percentage number.start next.stop)
    else if next.kind = .ident && isUnit (bytes source next.start next.stop) then
      some (slice source .dimension number.start next.stop)
    else none
  else none

/-- The second pass. -/
def joinMeasures : List Token → List Token
  | number :: next :: rest =>
    match joined? source number next with
    | some t => t :: joinMeasures rest
    | none => number :: joinMeasures (next :: rest)
  | l => l

/-- The tokens of a source, read in two passes. -/
def readInPasses : List Token := joinMeasures source (rawFrom d source [] 0)

end

/-! ## The first pass -/

section

variable {d : Dialect} {source : Text} {out : List Token} {offset : Nat}

@[simp] lemma kind_cut (offset : Nat) (t : Text) (l : Lexeme) : (cut offset t l).kind = l.kind :=
  rfl

@[simp] lemma start_cut (offset : Nat) (t : Text) (l : Lexeme) : (cut offset t l).start = offset :=
  rfl

@[simp] lemma stop_cut (offset : Nat) (t : Text) (l : Lexeme) :
    (cut offset t l).stop = offset + l.length := rfl

lemma slice_add (kind : TokenKind) (offset n : Nat) :
    slice source kind offset (offset + n) = cut offset (source.drop offset) ⟨kind, n⟩ := by
  rw [slice, Nat.add_sub_cancel_left]

lemma closeUrl?_of_ne {t : Token} {l : Lexeme} (h : t.kind ≠ .ident) :
    closeUrl? source (t :: out) offset l = none := by
  simp [closeUrl?, h]

/-- Behind an identifier, the look back finds the url that the identifier begins. -/
lemma closeUrl?_ident (d : Dialect) (source : Text) (out : List Token) (offset n : Nat) :
    closeUrl? source (cut offset (source.drop offset) ⟨.ident, n⟩ :: out) (offset + n)
        (simple d (source.drop (offset + n))) =
      (url? (source.drop offset) n).map fun u =>
        (cut offset (source.drop offset) u :: out, u.length - (n + 1)) := by
  have hdrop : source.drop (offset + n) = (source.drop offset).drop n := by rw [List.drop_drop]
  simp only [closeUrl?, url?, bytes, kind_cut, start_cut, stop_cut, Nat.add_sub_cancel_left, hdrop]
  by_cases hurl : Text.isWord ((source.drop offset).take n) "url" = true
  · cases hbehind : (source.drop offset).drop n with
    | nil => simp [kind_simple_nil]
    | cons b rest =>
        by_cases hb : b = byte '('
        · subst hb
          have hrest : source.drop (offset + n + 1) = rest := by
            rw [← List.drop_drop, hdrop, hbehind, List.drop_one, List.tail_cons]
          have hslice : ∀ m, slice source .url offset (offset + n + 1 + m) =
              cut offset (source.drop offset) ⟨.url, n + 1 + m⟩ := by
            intro m
            rw [← slice_add, Nat.add_assoc offset, Nat.add_assoc offset]
          simp [hurl, simple_paren, hrest, hslice, Function.comp_def]
        · have hparen : (simple d (b :: rest)).kind ≠ .leftParen := fun h => hb (by
            simpa using head?_of_simple h)
          simp [hb, hparen]
  · simp [hurl]

lemma rawFrom_of_some {out' : List Token} {n : Nat} (hlt : offset < source.length)
    (h : closeUrl? source out offset (simple d (source.drop offset)) = some (out', n)) :
    rawFrom d source out offset =
      rawFrom d source out' (offset + (simple d (source.drop offset)).length + n) := by
  rw [rawFrom, if_pos hlt]
  simp only [h]

lemma rawFrom_of_none (hlt : offset < source.length)
    (h : closeUrl? source out offset (simple d (source.drop offset)) = none) :
    rawFrom d source out offset =
      rawFrom d source (cut offset (source.drop offset) (simple d (source.drop offset)) :: out)
        (offset + (simple d (source.drop offset)).length) := by
  rw [rawFrom, if_pos hlt]
  simp only [h, slice_add]

/-- If the look back finds nothing, the first pass goes on behind a raw lexeme, where it finds
nothing either. -/
lemma rawFrom_step (out : List Token) {l : Lexeme} (hlt : offset < source.length)
    (hl : raw d (source.drop offset) = l)
    (hback : closeUrl? source out offset (simple d (source.drop offset)) = none) :
    rawFrom d source out offset =
        rawFrom d source (cut offset (source.drop offset) l :: out) (offset + l.length) ∧
      closeUrl? source (cut offset (source.drop offset) l :: out) (offset + l.length)
        (simple d (source.drop (offset + l.length))) = none := by
  rw [rawFrom_of_none hlt hback]
  rw [raw] at hl
  split at hl
  · rename_i hident
    obtain ⟨n, hn⟩ : ∃ n, simple d (source.drop offset) = ⟨.ident, n⟩ := ⟨_, by rw [← hident]⟩
    have hback := closeUrl?_ident d source out offset n
    rw [hn] at hl ⊢
    cases hurl : url? (source.drop offset) n with
    | none =>
        rw [hurl, Option.getD_none] at hl
        rw [hurl] at hback
        subst hl
        exact ⟨rfl, hback⟩
    | some u =>
        rw [hurl, Option.getD_some] at hl
        subst hl
        rw [hurl, Option.map_some] at hback
        obtain ⟨rest, m, hbehind, rfl⟩ := url?_cases hurl
        rw [List.drop_drop] at hbehind
        have hlt' : offset + n < source.length := by
          have hlength := congrArg List.length hbehind
          simp only [List.length_drop, List.length_cons] at hlength
          omega
        refine ⟨?_, closeUrl?_of_ne (by simp)⟩
        rw [rawFrom_of_some hlt' hback, hbehind, simple_paren]
        congr 1
        simp
        omega
  · rename_i hident
    subst hl
    exact ⟨rfl, closeUrl?_of_ne hident⟩

/-- The first pass leaves the tokens alone that it stands behind. -/
lemma rawFrom_eq (hback : closeUrl? source out offset (simple d (source.drop offset)) = none) :
    rawFrom d source out offset = out.reverse ++ rawFrom d source [] offset := by
  induction hk : source.length - offset using Nat.strong_induction_on generalizing out offset with
  | _ k ih =>
      by_cases hlt : offset < source.length
      · obtain ⟨l, hl⟩ : ∃ l, raw d (source.drop offset) = l := ⟨_, rfl⟩
        have hpos : 0 < l.length := hl ▸ length_raw_pos d _
        obtain ⟨hstep, hnext⟩ := rawFrom_step out hlt hl hback
        obtain ⟨hstep', hnext'⟩ := rawFrom_step [] hlt hl rfl
        rw [hstep, hstep', ih _ (by omega) hnext rfl, ih _ (by omega) hnext' rfl]
        simp
      · rw [rawFrom, if_neg hlt, rawFrom, if_neg hlt, List.reverse_nil, List.append_nil]

/-- The first pass finds the raw lexemes one after the other. -/
lemma rawFrom_nil (hlt : offset < source.length) :
    rawFrom d source [] offset = cut offset (source.drop offset) (raw d (source.drop offset)) ::
      rawFrom d source [] (offset + (raw d (source.drop offset)).length) := by
  obtain ⟨hstep, hnext⟩ := rawFrom_step [] hlt rfl rfl
  rw [hstep, rawFrom_eq hnext]
  rfl

lemma rawFrom_of_le (hle : source.length ≤ offset) : rawFrom d source [] offset = [] := by
  rw [rawFrom, if_neg (Nat.not_lt.2 hle), List.reverse_nil]

/-! ## The second pass -/

/-- A number is joined with the raw lexeme behind it, if they are a measure. -/
lemma joined?_raw (d : Dialect) (source : Text) (offset n : Nat) :
    joined? source (cut offset (source.drop offset) ⟨.number, n⟩)
        (cut (offset + n) (source.drop (offset + n)) (raw d (source.drop (offset + n)))) =
      (measure? d (source.drop offset) n).map (cut offset (source.drop offset)) := by
  have hslice : ∀ kind m, slice source kind offset (offset + n + m) =
      cut offset (source.drop offset) ⟨kind, n + m⟩ := by
    intro kind m
    rw [← slice_add, Nat.add_assoc offset]
  rw [measure?, List.drop_drop]
  simp only [joined?, bytes, kind_cut, start_cut, stop_cut, Nat.add_sub_cancel_left, hslice]
  generalize source.drop (offset + n) = behind
  rcases raw_cases d behind with hraw | ⟨hurl, hident, hunit⟩
  · rw [hraw]
    by_cases hident : (simple d behind).kind = .ident
    · simp [hident]
    · by_cases hpercent : (simple d behind).kind = .percent <;> simp [hident, hpercent]
  · simp [hurl, hident, hunit]

@[simp] lemma joinMeasures_nil : joinMeasures source [] = [] := by
  simp [joinMeasures]

@[simp] lemma joinMeasures_singleton (t : Token) : joinMeasures source [t] = [t] := by
  simp [joinMeasures]

lemma joinMeasures_cons_of_ne {t : Token} (h : t.kind ≠ .number) (l : List Token) :
    joinMeasures source (t :: l) = t :: joinMeasures source l := by
  cases l with
  | nil => simp
  | cons next rest => simp [joinMeasures, joined?, h]

lemma readFrom_drop (d : Dialect) {l : Lexeme} (hlt : offset < source.length)
    (hl : Lexeme.read d (source.drop offset) = l) :
    readFrom d offset (source.drop offset) =
      cut offset (source.drop offset) l :: readFrom d (offset + l.length)
        (source.drop (offset + l.length)) := by
  rw [← List.drop_drop]
  cases hdrop : source.drop offset with
  | nil =>
      rw [List.drop_eq_nil_iff] at hdrop
      omega
  | cons b rest =>
      subst hl
      rw [readFrom, hdrop]

/-- The second pass over a number and what the first pass has found behind it. -/
lemma joinMeasures_of_number {n : Nat} (hlt : offset < source.length)
    (hn : simple d (source.drop offset) = ⟨.number, n⟩)
    (hrest : ∀ m, 0 < m → joinMeasures source (rawFrom d source [] (offset + m)) =
      readFrom d (offset + m) (source.drop (offset + m))) :
    joinMeasures source (rawFrom d source [] offset) = readFrom d offset (source.drop offset) := by
  have hnumber : (simple d (source.drop offset)).kind = .number := by rw [hn]
  have hpos : 0 < n := by simpa [hn] using length_simple_pos d (source.drop offset)
  have hraw := raw_of_number hnumber
  have hread := read_of_number hnumber
  rw [hn] at hraw hread
  rw [rawFrom_nil hlt, hraw]
  by_cases hlt' : offset + n < source.length
  · rw [rawFrom_nil hlt', joinMeasures, joined?_raw]
    cases hmeasure : measure? d (source.drop offset) n with
    | none =>
        rw [hmeasure, Option.getD_none] at hread
        rw [readFrom_drop d hlt hread, ← hrest n hpos, rawFrom_nil hlt', Option.map_none]
    | some l =>
        rw [hmeasure, Option.getD_some] at hread
        have hlength := length_of_measure?_eq hmeasure
        rw [List.drop_drop] at hlength
        rw [readFrom_drop d hlt hread, ← hrest _ (length_of_measure? hpos hmeasure), hlength,
          Nat.add_assoc, Option.map_some]
  · -- Nothing stands behind the number.
    have hnil : source.drop (offset + n) = [] := List.drop_eq_nil_iff.2 (by omega)
    have hmeasure : measure? d (source.drop offset) n = none := by
      rw [measure?, List.drop_drop, hnil, kind_simple_nil]
    rw [hmeasure, Option.getD_none] at hread
    rw [readFrom_drop d hlt hread, rawFrom_of_le (Nat.not_lt.1 hlt'), joinMeasures_singleton,
      hnil, readFrom]

/-- From any offset on, both passes find what is read there lexeme by lexeme. -/
theorem joinMeasures_rawFrom (d : Dialect) (source : Text) (offset : Nat) :
    joinMeasures source (rawFrom d source [] offset) = readFrom d offset (source.drop offset) := by
  induction hk : source.length - offset using Nat.strong_induction_on generalizing offset with
  | _ k ih =>
      by_cases hlt : offset < source.length
      · have hrest : ∀ m, 0 < m → joinMeasures source (rawFrom d source [] (offset + m)) =
            readFrom d (offset + m) (source.drop (offset + m)) := fun m hm => ih _ (by omega) _ rfl
        by_cases hnumber : (simple d (source.drop offset)).kind = .number
        · exact joinMeasures_of_number hlt (by rw [← hnumber]) hrest
        · rw [rawFrom_nil hlt, joinMeasures_cons_of_ne (kind_raw d _ hnumber),
            readFrom_drop d hlt (read_eq_raw hnumber), hrest _ (length_raw_pos d _)]
      · rw [rawFrom_of_le (Nat.not_lt.1 hlt), List.drop_eq_nil_iff.2 (Nat.not_lt.1 hlt), readFrom,
          joinMeasures_nil]

/-- Reading in passes and reading lexeme by lexeme find the same tokens. -/
theorem readInPasses_eq (d : Dialect) (source : Text) : readInPasses d source = read d source :=
  joinMeasures_rawFrom d source 0

/-! ## Starting again -/

lemma lt_length_of_readFrom {t : Token} {l : List Token}
    (h : readFrom d offset (source.drop offset) = t :: l) : offset < source.length := by
  by_contra hlt
  rw [List.drop_eq_nil_iff.2 (Nat.not_lt.1 hlt), readFrom] at h
  cases h

/-- Reading from a token on finds this token and those behind it. -/
theorem readFrom_of_append {before after : List Token} {t : Token}
    (h : readFrom d offset (source.drop offset) = before ++ t :: after) :
    readFrom d t.start (source.drop t.start) = t :: after := by
  induction before generalizing offset with
  | nil =>
      have hstart : offset = t.start := by
        have hcut := h
        rw [readFrom_drop d (lt_length_of_readFrom h) rfl] at hcut
        rw [← List.head_eq_of_cons_eq hcut, start_cut]
      rwa [hstart] at h
  | cons u before ih =>
      rw [readFrom_drop d (lt_length_of_readFrom h) rfl] at h
      exact ih (List.tail_eq_of_cons_eq h)

/-- Reading may start again at any token of a source, in passes or not: it finds this token and
those behind it, at offsets that count from there. -/
theorem reading_restarts_at_tokens {before after : List Token} {t : Token}
    (h : read d source = before ++ t :: after) :
    (read d (source.drop t.start)).map (shift t.start) = t :: after ∧
      (readInPasses d (source.drop t.start)).map (shift t.start) = t :: after := by
  have hread : (read d (source.drop t.start)).map (shift t.start) = t :: after := by
    rw [read, ← readFrom_shift, Nat.zero_add]
    exact readFrom_of_append h
  exact ⟨hread, by rwa [readInPasses_eq]⟩

/-- A url directly behind a number and a number directly behind a url. -/
theorem reading_restarts_at_tokens_url :
    read .css (Text.ofString "1url(a)2px") =
        [⟨.number, 0, 1, Text.ofString "1"⟩] ++ ⟨.url, 1, 7, Text.ofString "url(a)"⟩ ::
          [⟨.dimension, 7, 10, Text.ofString "2px"⟩] ∧
      (read .css (Text.ofString "url(a)2px")).map (shift 1) =
        [⟨.url, 1, 7, Text.ofString "url(a)"⟩, ⟨.dimension, 7, 10, Text.ofString "2px"⟩] := by
  have hread : read .css (Text.ofString "1url(a)2px") =
      [⟨.number, 0, 1, Text.ofString "1"⟩] ++ ⟨.url, 1, 7, Text.ofString "url(a)"⟩ ::
        [⟨.dimension, 7, 10, Text.ofString "2px"⟩] := by
    decide +kernel
  exact ⟨hread, (reading_restarts_at_tokens hread).1⟩

end

end Token

end StyleSheet
