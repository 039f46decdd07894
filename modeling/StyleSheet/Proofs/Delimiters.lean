import Mathlib
import StyleSheet.Proofs.Characters

/-!
# Delimited tokens

Strings, comments and raw urls are found by their delimiters. The scans go by bytes, and a backslash
takes the one byte behind it along; what they find is said here of the characters of a source.
`IsDelimited` gives the form of these tokens, in terms of their characters and of the characters
behind them, and all of them have it (`delimited_tokens`).
-/

namespace StyleSheet

/-- The characters that end a line. -/
def lineBreaks : List Char := ['\n', '\r', '\x0c']

/-- The characters of white space. -/
def blanks : List Char := [' ', '\t'] ++ lineBreaks

/-- The quotation marks. -/
def quotes : List Char := ['"', '\'']

/-- What has a meaning of its own in the body of a raw url. -/
def urlStops : List Char := blanks ++ quotes ++ ['(', ')']

/-- A text in which each escape takes the next item along, and in which the stops are found only
where an escape takes them along. -/
inductive Guarded {α : Type} (escape : α) (stops : List α) : List α → Prop
  | nil : Guarded escape stops []
  | plain {a : α} {rest : List α} (ha : a ≠ escape) (hstop : a ∉ stops)
      (h : Guarded escape stops rest) :
      Guarded escape stops (a :: rest)
  | escaped (a : α) {rest : List α} (h : Guarded escape stops rest) :
      Guarded escape stops (escape :: a :: rest)

/-- A guarded text before one of the `ends` or before the end of all. There, a last escape may have
nothing to take along. -/
def GuardedBefore {α : Type} (escape : α) (stops ends body behind : List α) : Prop :=
  (Guarded escape stops body ∧ ∀ a ∈ behind.head?, a ∈ ends) ∨
    (behind = [] ∧ ∃ inner, body = inner ++ [escape] ∧ Guarded escape stops inner)

/-- A text through the first `a` with a `b` behind it, or through the end of all if there is
none. -/
def ThroughFirst {α : Type} (a b : α) (body behind : List α) : Prop :=
  (∃ inner, body = inner ++ [a, b] ∧ ¬ [a, b] <:+: inner ++ [a]) ∨
    (behind = [] ∧ ¬ [a, b] <:+: body)

/-- A quotation mark, a body without this mark and without line breaks, and the mark again. -/
def IsClosedString (word : List Char) : Prop :=
  ∃ q ∈ quotes, ∃ body, word = q :: (body ++ [q]) ∧ Guarded '\\' (q :: lineBreaks) body

/-- A quotation mark and such a body before a line break or before the end. -/
def IsOpenString (word behind : List Char) : Prop :=
  ∃ q ∈ quotes, ∃ body, word = q :: body ∧
    GuardedBefore '\\' (q :: lineBreaks) lineBreaks body behind

/-- An opening and a body through its first closing, or through the end if there is none. -/
def IsBlockComment (word behind : List Char) : Prop :=
  ∃ body, word = '/' :: '*' :: body ∧ ThroughFirst '*' '/' body behind

/-- Two slashes and the rest of the line. -/
def IsLineComment (word behind : List Char) : Prop :=
  ∃ body, word = '/' :: '/' :: body ∧ (∀ c ∈ body, c ∉ lineBreaks) ∧
    ∀ c ∈ behind.head?, c ∈ lineBreaks

/-- The name in any case and, in parentheses, a body that is not empty, perhaps with white space
around it. -/
def IsRawUrl (word : List Char) : Prop :=
  ∃ name before body after, word = name ++ '(' :: (before ++ body ++ after ++ [')']) ∧
    name.map Char.toLower = ['u', 'r', 'l'] ∧ (∀ c ∈ before, c ∈ blanks) ∧
    body ≠ [] ∧ Guarded '\\' urlStops body ∧ ∀ c ∈ after, c ∈ blanks

/-- The kinds of delimited tokens. -/
def delimitedKinds : List TokenKind := [.string, .badString, .comment, .url]

/-- What the characters of a delimited token are, with those behind it. -/
def IsDelimited (d : Dialect) : TokenKind → List Char → List Char → Prop
  | .string, word, _ => IsClosedString word
  | .badString, word, behind => IsOpenString word behind
  | .comment, word, behind => IsBlockComment word behind ∨ (d ≠ .css ∧ IsLineComment word behind)
  | .url, word, _ => IsRawUrl word
  | _, _, _ => False

/-- A text that begins with the opening of a string or of a comment. -/
def OpensDelimited (d : Dialect) (l : List Char) : Prop :=
  (∃ q ∈ quotes, [q] <+: l) ∨ ['/', '*'] <+: l ∨ (d ≠ .css ∧ ['/', '/'] <+: l)

/-! ## Classes of characters -/

lemma ascii_backslash : '\\'.utf8Size = 1 := by simp [Char.utf8Size]

lemma ascii_slash : '/'.utf8Size = 1 := by simp [Char.utf8Size]

lemma ascii_star : '*'.utf8Size = 1 := by simp [Char.utf8Size]

lemma ascii_lineBreaks : ∀ c ∈ lineBreaks, c.utf8Size = 1 := by simp [lineBreaks, Char.utf8Size]

lemma ascii_blanks : ∀ c ∈ blanks, c.utf8Size = 1 := by simp [blanks, lineBreaks, Char.utf8Size]

lemma ascii_quotes : ∀ c ∈ quotes, c.utf8Size = 1 := by simp [quotes, Char.utf8Size]

lemma ascii_urlStops : ∀ c ∈ urlStops, c.utf8Size = 1 := by
  simp [urlStops, blanks, lineBreaks, quotes, Char.utf8Size]

lemma byte_formFeed : byte '\x0c' = 0x0C := rfl

lemma isLineBreak_iff (b : UInt8) : Byte.isLineBreak b = true ↔ b ∈ lineBreaks.map byte := by
  simp [Byte.isLineBreak, lineBreaks, byte_formFeed, or_assoc]

lemma isBlank_iff (b : UInt8) : Byte.isBlank b = true ↔ b ∈ blanks.map byte := by
  simp [Byte.isBlank, blanks, lineBreaks, byte_formFeed, or_assoc, or_left_comm]

lemma lt_of_isBlank {b : UInt8} (h : Byte.isBlank b = true) : b < 0x80 :=
  lt_of_mem_map_byte ascii_blanks ((isBlank_iff b).1 h)

lemma isQuote_iff (b : UInt8) : Byte.isQuote b = true ↔ b ∈ quotes.map byte := by
  simp [Byte.isQuote, quotes]

lemma mem_urlStops_iff (b : UInt8) : b ∈ urlStops.map byte ↔
    Byte.isBlank b = true ∨ Byte.isQuote b = true ∨ b = byte '(' ∨ b = byte ')' := by
  simp [isBlank_iff, isQuote_iff, urlStops]

/-! ## Guarded texts -/

namespace Guarded

lemma cons_iff {α : Type} {escape a : α} {stops l : List α} :
    Guarded escape stops (a :: l) ↔
      (a ≠ escape ∧ a ∉ stops ∧ Guarded escape stops l) ∨
        (a = escape ∧ ∃ b rest, l = b :: rest ∧ Guarded escape stops rest) := by
  constructor
  · intro h
    cases h with
    | plain ha hstop h => exact .inl ⟨ha, hstop, h⟩
    | escaped b h => exact .inr ⟨rfl, b, _, rfl, h⟩
  · rintro (⟨ha, hstop, h⟩ | ⟨rfl, b, rest, rfl, h⟩)
    · exact .plain ha hstop h
    · exact .escaped b h

lemma of_append {α : Type} {escape : α} {stops x y : List α} (hx : ∀ a ∈ x, a ≠ escape)
    (h : Guarded escape stops (x ++ y)) : Guarded escape stops y := by
  induction x with
  | nil => exact h
  | cons a x ih =>
      obtain ⟨ha, hx⟩ := List.forall_mem_cons.1 hx
      rcases cons_iff.1 h with ⟨-, -, h⟩ | ⟨rfl, -⟩
      · exact ih hx h
      · exact absurd rfl ha

section

variable {escape : Char} {stops : List Char} (hescape : escape.utf8Size = 1)
include hescape

/-- Bytes that are not ASCII are not escapes. -/
lemma of_append_bytes {x y : Text} (hx : ∀ b ∈ x, 0x80 ≤ b)
    (h : Guarded (byte escape) (stops.map byte) (x ++ y)) :
    Guarded (byte escape) (stops.map byte) y := by
  refine of_append (fun b hb hbyte => ?_) h
  have hlt := byte_lt hescape
  rw [← hbyte] at hlt
  exact UInt8.not_lt.2 (hx b hb) hlt

/-- A text is guarded if its bytes are: the further bytes of a character that an escape takes along
are neither escapes nor stops. -/
lemma of_encode (hstops : ∀ c ∈ stops, c.utf8Size = 1) {l : List Char}
    (h : Guarded (byte escape) (stops.map byte) (encode l)) : Guarded escape stops l := by
  induction hn : l.length using Nat.strong_induction_on generalizing l with
  | _ n ih =>
      subst hn
      rcases l with _ | ⟨c, l⟩
      · exact .nil
      · by_cases hc : c.utf8Size = 1
        · rw [encode_cons_ascii hc, cons_iff] at h
          rcases h with ⟨hne, hstop, h⟩ | ⟨heq, b, rest, hl, h⟩
          · refine .plain (fun hc => hne (congrArg byte hc))
              (fun hc => hstop (List.mem_map_of_mem hc)) ?_
            exact ih l.length (by simp) h rfl
          · obtain rfl := eq_of_byte_eq hc hescape heq
            rcases l with _ | ⟨a, l⟩
            · cases hl
            · obtain ⟨b', more, ha, -, hmore⟩ := utf8EncodeChar_eq_cons a
              rw [encode_cons, ha, List.cons_append] at hl
              obtain ⟨rfl, rfl⟩ := List.cons.inj hl
              have hle : ∀ b ∈ more, 0x80 ≤ b := fun b hb => by
                have hb := hmore b hb
                rw [Byte.isContinuation, Bool.and_eq_true, decide_eq_true_eq] at hb
                exact hb.1
              exact .escaped a (ih l.length (by simp) (of_append_bytes hescape hle h) rfl)
        · rw [encode_cons] at h
          have hl := of_append_bytes hescape (le_of_mem_utf8EncodeChar hc) h
          refine .plain ?_ (fun hmem => hc (hstops c hmem)) (ih l.length (by simp) hl rfl)
          rintro rfl
          exact hc hescape

end

end Guarded

lemma GuardedBefore.of_encode {escape : Char} {stops ends body behind : List Char}
    (hescape : escape.utf8Size = 1) (hstops : ∀ c ∈ stops, c.utf8Size = 1)
    (hends : ∀ c ∈ ends, c.utf8Size = 1)
    (h : GuardedBefore (byte escape) (stops.map byte) (ends.map byte) (encode body)
      (encode behind)) :
    GuardedBefore escape stops ends body behind := by
  rcases h with ⟨hbody, hbehind⟩ | ⟨hbehind, inner, hinner, hguard⟩
  · exact .inl ⟨hbody.of_encode hescape hstops, mem_head?_of_encode hends hbehind⟩
  · obtain ⟨inner, rest, rfl, rfl, hrest⟩ := exists_append_cons_of_encode hescape hinner
    obtain rfl := encode_eq_nil hrest
    exact .inr ⟨encode_eq_nil hbehind, inner, rfl, hguard.of_encode hescape hstops⟩

lemma ThroughFirst.of_encode {c c' : Char} {body behind : List Char} (hc : c.utf8Size = 1)
    (hc' : c'.utf8Size = 1) (h : ThroughFirst (byte c) (byte c') (encode body) (encode behind)) :
    ThroughFirst c c' body behind := by
  have hpair : encode [c, c'] = [byte c, byte c'] := by
    rw [encode_cons_ascii hc, encode_cons_ascii hc', encode_nil]
  rcases h with ⟨inner, hinner, hfirst⟩ | ⟨hbehind, hnone⟩
  · obtain ⟨inner, rest, rfl, rfl, hrest⟩ := exists_append_cons_of_encode hc hinner
    obtain ⟨rest, rfl, hnil⟩ := exists_cons_of_encode hc' hrest
    obtain rfl := encode_eq_nil hnil
    refine .inl ⟨inner, rfl, fun hinfix => hfirst ?_⟩
    have hbytes := encode_infix hinfix
    rwa [hpair, encode_append, encode_cons_ascii hc, encode_nil] at hbytes
  · refine .inr ⟨encode_eq_nil hbehind, fun hinfix => hnone ?_⟩
    rw [← hpair]
    exact encode_infix hinfix

/-! ## The scans -/

namespace Lexeme

/-- The body of a string is guarded, and it goes up to a stop or up to the end. -/
lemma stringLength_spec (q : Char) (t : Text) :
    ∃ body behind, t = body ++ behind ∧ body.length = stringLength (byte q) t ∧
      GuardedBefore (byte '\\') ((q :: lineBreaks).map byte)
        ((q :: lineBreaks).map byte) body behind := by
  have hstop : ∀ b, (b == byte q || Byte.isLineBreak b) = true ↔ b ∈ (q :: lineBreaks).map byte :=
    fun b => by
    rw [Bool.or_eq_true, beq_iff_eq, isLineBreak_iff, List.map_cons, List.mem_cons]
  fun_induction stringLength (byte q) t with
  | case1 => exact ⟨[], [], rfl, rfl, .inl ⟨.nil, by simp⟩⟩
  | case2 b hb => exact ⟨[], [b], rfl, rfl, .inl ⟨.nil, by simpa using (hstop b).1 hb⟩⟩
  | case3 b hb =>
      rw [hstop] at hb
      by_cases hescape : b = byte '\\'
      · exact ⟨[b], [], rfl, rfl, .inr ⟨rfl, [], by rw [hescape, List.nil_append], .nil⟩⟩
      · exact ⟨[b], [], rfl, rfl, .inl ⟨.plain hescape hb .nil, by simp⟩⟩
  | case4 b c rest hb =>
      exact ⟨[], b :: c :: rest, rfl, rfl, .inl ⟨.nil, by simpa using (hstop b).1 hb⟩⟩
  | case5 b c rest hb hescape ih =>
      obtain ⟨body, behind, rfl, hlen, h⟩ := ih
      rw [beq_iff_eq.1 hescape]
      refine ⟨byte '\\' :: c :: body, behind, rfl, by simp only [List.length_cons]; omega, ?_⟩
      rcases h with ⟨h, hbehind⟩ | ⟨rfl, inner, rfl, h⟩
      · exact .inl ⟨.escaped c h, hbehind⟩
      · exact .inr ⟨rfl, byte '\\' :: c :: inner, rfl, .escaped c h⟩
  | case6 b c rest hb hescape ih =>
      obtain ⟨body, behind, hrest, hlen, h⟩ := ih
      rw [hstop] at hb
      have hescape : b ≠ byte '\\' := fun h => hescape (beq_iff_eq.2 h)
      refine ⟨b :: body, behind, congrArg (b :: ·) hrest,
        by simp only [List.length_cons]; omega, ?_⟩
      rcases h with ⟨h, hbehind⟩ | ⟨rfl, inner, rfl, h⟩
      · exact .inl ⟨.plain hescape hb h, hbehind⟩
      · exact .inr ⟨rfl, b :: inner, rfl, .plain hescape hb h⟩

/-- The body of a comment goes through its first closing. -/
lemma commentLength_spec (t : Text) :
    ∃ body behind, t = body ++ behind ∧ body.length = commentLength t ∧
      ThroughFirst (byte '*') (byte '/') body behind := by
  induction t with
  | nil => exact ⟨[], [], rfl, rfl, .inr ⟨rfl, by simp⟩⟩
  | cons b rest ih =>
      rw [commentLength]
      split
      · rename_i hclose
        rw [Bool.and_eq_true, beq_iff_eq, beq_iff_eq] at hclose
        obtain ⟨rfl, hhead⟩ := hclose
        obtain ⟨behind, rfl⟩ := List.head?_eq_some_iff.1 hhead
        exact ⟨[byte '*', byte '/'], behind, rfl, rfl,
          .inl ⟨[], rfl, fun h => absurd h.length_le (by simp)⟩⟩
      · rename_i hclose
        -- No closing begins with the first byte, so the first one is that of the rest.
        have hopen : ∀ x, x <+: rest → ¬ [byte '*', byte '/'] <:+: x →
            ¬ [byte '*', byte '/'] <:+: b :: x := by
          intro x hx hnot hinfix
          rcases List.infix_cons_iff.1 hinfix with hprefix | hinfix
          · obtain ⟨y, hy⟩ := hprefix.trans (List.prefix_cons_inj b |>.2 hx)
            obtain ⟨rfl, rfl⟩ := List.cons.inj hy
            simp at hclose
          · exact hnot hinfix
        obtain ⟨body, behind, rfl, hlen, h⟩ := ih
        refine ⟨b :: body, behind, rfl, by simp only [List.length_cons]; omega, ?_⟩
        rcases h with ⟨inner, rfl, h⟩ | ⟨rfl, h⟩
        · refine .inl ⟨b :: inner, rfl, hopen _ ?_ h⟩
          exact ⟨byte '/' :: behind, by simp⟩
        · exact .inr ⟨rfl, hopen _ (List.prefix_append body []) h⟩

/-- The body of a raw url is guarded, and only white space stands between it and the closing
parenthesis. -/
lemma urlBodyLength?_spec (ended : Bool) (t : Text) {n : Nat}
    (h : urlBodyLength? ended t = some n) :
    ∃ body after behind, t = body ++ after ++ byte ')' :: behind ∧
      n = body.length + after.length + 1 ∧
      (ended = true → body = []) ∧ Guarded (byte '\\') (urlStops.map byte) body ∧
      ∀ b ∈ after, b ∈ blanks.map byte := by
  fun_induction urlBodyLength? ended t generalizing n with
  | case1 | case3 | case5 | case8 => cases h
  | case2 ended b hb =>
      obtain rfl := Option.some.inj h
      exact ⟨[], [], [], by rw [beq_iff_eq.1 hb]; rfl, rfl, fun _ => rfl, .nil, by simp⟩
  | case4 ended b c rest hb =>
      obtain rfl := Option.some.inj h
      exact ⟨[], [], c :: rest, by rw [beq_iff_eq.1 hb]; rfl, rfl, fun _ => rfl, .nil, by simp⟩
  | case6 ended b c rest _ hescape hended ih =>
      obtain ⟨m, hm, rfl⟩ := Option.map_eq_some_iff.1 h
      obtain ⟨body, after, behind, rfl, rfl, -, hbody, hafter⟩ := ih hm
      have hended : ended = false := by
        cases ended with
        | false => rfl
        | true => exact absurd rfl hended
      refine ⟨b :: c :: body, after, behind, rfl,
        by simp only [List.length_cons]; omega, by simp [hended], ?_, hafter⟩
      rw [beq_iff_eq.1 hescape]
      exact .escaped c hbody
  | case7 ended b c rest _ _ hblank ih =>
      -- From here on the body has ended.
      obtain ⟨m, hm, rfl⟩ := Option.map_eq_some_iff.1 h
      obtain ⟨body, after, behind, hrest, rfl, hbody, -, hafter⟩ := ih hm
      obtain rfl := hbody rfl
      refine ⟨[], b :: after, behind, congrArg (b :: ·) hrest,
        by simp only [List.length_cons]; omega, fun _ => rfl, .nil, ?_⟩
      exact List.forall_mem_cons.2 ⟨(isBlank_iff b).1 hblank, hafter⟩
  | case9 ended b c rest hclose hescape hblank hstop ih =>
      obtain ⟨m, hm, rfl⟩ := Option.map_eq_some_iff.1 h
      obtain ⟨body, after, behind, hrest, rfl, -, hbody, hafter⟩ := ih hm
      simp only [beq_iff_eq, Bool.or_eq_true, not_or] at hclose hescape hstop
      obtain ⟨⟨hquote, hopen⟩, hended⟩ := hstop
      refine ⟨b :: body, after, behind, congrArg (b :: ·) hrest,
        by simp only [List.length_cons]; omega,
        fun h => absurd h hended, .plain hescape ?_ hbody, hafter⟩
      rw [mem_urlStops_iff]
      tauto

/-! ## What the readers find -/

lemma string?_spec {t : Text} {l : Lexeme} (h : string? t = some l) :
    ∃ q ∈ quotes, ∃ body behind, t = byte q :: (body ++ behind) ∧
      ((l = ⟨.string, body.length + 2⟩ ∧ behind.head? = some (byte q) ∧
          Guarded (byte '\\') ((q :: lineBreaks).map byte) body) ∨
        (l = ⟨.badString, body.length + 1⟩ ∧
          GuardedBefore (byte '\\') ((q :: lineBreaks).map byte)
            (lineBreaks.map byte) body behind)) := by
  cases t with
  | nil => cases h
  | cons b rest =>
      rw [string?] at h
      split at h
      · rename_i hquote
        obtain ⟨q, hq, rfl⟩ := List.mem_map.1 ((isQuote_iff b).1 hquote)
        obtain ⟨body, behind, rfl, hlen, hspec⟩ := stringLength_spec q rest
        dsimp only at h
        rw [← hlen, List.drop_left] at h
        refine ⟨q, hq, body, behind, rfl, ?_⟩
        split at h
        · rename_i hclose
          rw [beq_iff_eq] at hclose
          rcases hspec with ⟨hbody, -⟩ | ⟨rfl, -⟩
          · exact .inl ⟨(Option.some.inj h).symm, hclose, hbody⟩
          · cases hclose
        · rename_i hclose
          refine .inr
            ⟨(Option.some.inj h).symm, hspec.imp_left fun hbody => ⟨hbody.1, fun b hb => ?_⟩⟩
          refine List.mem_of_ne_of_mem (fun hq => hclose ?_) (hbody.2 b hb)
          rw [← hq, beq_iff_eq]
          exact hb
      · cases h

lemma comment?_spec {d : Dialect} {t : Text} {l : Lexeme} (h : comment? d t = some l) :
    (∃ body behind, t = byte '/' :: byte '*' :: (body ++ behind) ∧ l.length = body.length + 2 ∧
        ThroughFirst (byte '*') (byte '/') body behind) ∨
      (d ≠ .css ∧ ∃ body behind, t = byte '/' :: byte '/' :: (body ++ behind) ∧
        l.length = body.length + 2 ∧
        (∀ b ∈ body, b ∉ lineBreaks.map byte) ∧ ∀ b ∈ behind.head?, b ∈ lineBreaks.map byte) := by
  rw [comment?] at h
  split at h
  · rename_i hopen
    obtain ⟨rest, rfl⟩ := List.isPrefixOf_iff_prefix.1 hopen
    obtain ⟨body, behind, hrest, hlen, hspec⟩ := commentLength_spec rest
    obtain rfl := Option.some.inj h
    refine .inl ⟨body, behind, ?_, ?_, hspec⟩
    · rw [← hrest]
      rfl
    · rw [hlen, Nat.add_comm]
      rfl
  · split at h
    · rename_i hopen
      obtain ⟨hline, hopen⟩ := Bool.and_eq_true_iff.1 hopen
      obtain ⟨rest, rfl⟩ := List.isPrefixOf_iff_prefix.1 hopen
      obtain rfl := Option.some.inj h
      have hcss : d ≠ .css := by
        rintro rfl
        cases hline
      refine .inr ⟨hcss, rest.takeWhile (!Byte.isLineBreak ·), rest.dropWhile (!Byte.isLineBreak ·),
        ?_, ?_, ?_, ?_⟩
      · rw [List.takeWhile_append_dropWhile]
        rfl
      · exact Nat.add_comm _ _
      · intro b hb
        have hb := List.mem_takeWhile_imp hb
        rw [← isLineBreak_iff]
        simpa using hb
      · intro b hb
        have hhead := List.head?_dropWhile_not (!Byte.isLineBreak ·) rest
        rw [hb] at hhead
        rw [← isLineBreak_iff]
        simpa using hhead
    · cases h

lemma urlLength?_spec {t : Text} {n : Nat} (h : urlLength? t = some n) :
    ∃ before body after behind, t = before ++ (body ++ after ++ byte ')' :: behind) ∧
      n = before.length + body.length + after.length + 1 ∧ (∀ b ∈ before, b ∈ blanks.map byte) ∧
      body ≠ [] ∧ Guarded (byte '\\') (urlStops.map byte) body ∧
      ∀ b ∈ after, b ∈ blanks.map byte := by
  have hsplit : t = t.takeWhile Byte.isBlank ++ t.dropWhile Byte.isBlank :=
    List.takeWhile_append_dropWhile.symm
  have hdrop : t.drop (runLength Byte.isBlank t) = t.dropWhile Byte.isBlank := by
    rw [runLength]
    nth_rewrite 2 [hsplit]
    rw [List.drop_left]
  rw [urlLength?, hdrop] at h
  have hhead := List.head?_dropWhile_not Byte.isBlank t
  split at h
  · cases h
  · rename_i b rest hrest
    rw [hrest] at hsplit hhead
    split at h
    · cases h
    · rename_i hfirst
      obtain ⟨m, hm, rfl⟩ := Option.map_eq_some_iff.1 h
      obtain ⟨body, after, behind, hbody, rfl, -, hguard, hafter⟩ := urlBodyLength?_spec false _ hm
      rw [hbody] at hsplit
      refine ⟨t.takeWhile Byte.isBlank, body, after, behind, hsplit, ?_, ?_, ?_, hguard, hafter⟩
      · rw [runLength]
        omega
      · exact fun b hb => (isBlank_iff b).1 (List.mem_takeWhile_imp hb)
      · -- The first byte behind the white space is neither white space nor a closing parenthesis.
        rintro rfl
        cases after with
        | nil =>
            obtain ⟨rfl, -⟩ := List.cons.inj hbody
            simp at hfirst
        | cons a after =>
            obtain ⟨rfl, -⟩ := List.cons.inj hbody
            rw [List.forall_mem_cons, ← isBlank_iff] at hafter
            rw [List.head?_cons] at hhead
            exact Bool.false_ne_true (hhead.symm.trans hafter.1)

lemma url?_spec {t : Text} {n : Nat} {l : Lexeme} (h : url? t n = some l) :
    ∃ name before body after behind,
      t = name ++ byte '(' :: (before ++ (body ++ after ++ byte ')' :: behind)) ∧
      l.length = name.length + before.length + body.length + after.length + 2 ∧
      Text.isWord name "url" = true ∧
      (∀ b ∈ before, b ∈ blanks.map byte) ∧ body ≠ [] ∧
      Guarded (byte '\\') (urlStops.map byte) body ∧
      ∀ b ∈ after, b ∈ blanks.map byte := by
  rw [url?] at h
  split at h
  · rename_i hword
    split at h
    · cases h
    · rename_i b rest hbehind
      split at h
      · rename_i hparen
        obtain ⟨m, hm, rfl⟩ := Option.map_eq_some_iff.1 h
        obtain ⟨before, body, after, behind, rfl, rfl, hbefore, hne, hbody, hafter⟩ :=
          urlLength?_spec hm
        have hlen : (t.take n).length = n := by
          have hlt := congrArg List.length hbehind
          rw [List.length_drop, List.length_cons] at hlt
          rw [List.length_take]
          omega
        refine ⟨t.take n, before, body, after, behind, ?_, ?_, hword, hbefore, hne, hbody, hafter⟩
        · rw [← beq_iff_eq.1 hparen, ← hbehind, List.take_append_drop]
        · rw [hlen]
          dsimp only
          omega
      · cases h
  · cases h

/-! ## The characters of a lexeme -/

/-- The lexeme takes whole characters, and these have the form of a delimited token. -/
def TakesDelimited (d : Dialect) (l : List Char) : Prop :=
  ∃ word behind, l = word ++ behind ∧ (read d (encode l)).length = (encode word).length ∧
    IsDelimited d (read d (encode l)).kind word behind

variable {d : Dialect} {l : List Char}

lemma takesDelimited_string (h : string? (encode l) = some (read d (encode l))) :
    TakesDelimited d l := by
  obtain ⟨q, hq, body, behind, hl, hspec⟩ := string?_spec h
  have hsize := ascii_quotes q hq
  have hstops : ∀ c ∈ q :: lineBreaks, c.utf8Size = 1 :=
    List.forall_mem_cons.2 ⟨hsize, ascii_lineBreaks⟩
  obtain ⟨l, rfl, hrest⟩ := exists_cons_of_encode hsize hl
  rcases hspec with ⟨hread, hclose, hbody⟩ | ⟨hread, hbody⟩
  · obtain ⟨behind, rfl⟩ := List.head?_eq_some_iff.1 hclose
    obtain ⟨body, behind, rfl, rfl, rfl⟩ := exists_append_cons_of_encode hsize hrest
    refine ⟨q :: (body ++ [q]), behind, by simp, ?_, ?_⟩
    · rw [hread, encode_cons_ascii hsize, encode_append, encode_cons_ascii hsize]
      simp
    · rw [hread]
      exact ⟨q, hq, body, rfl, hbody.of_encode ascii_backslash hstops⟩
  · have hboundary : Text.atBoundary behind = true := by
      rcases hbody with ⟨-, hbehind⟩ | ⟨rfl, -⟩
      · exact atBoundary_of_mem ascii_lineBreaks hbehind
      · rfl
    obtain ⟨body, behind, rfl, rfl, rfl⟩ := exists_append_of_encode hrest hboundary
    refine ⟨q :: body, behind, rfl, ?_, ?_⟩
    · rw [hread, encode_cons_ascii hsize, List.length_cons]
    · rw [hread]
      exact ⟨q, hq, body, rfl, hbody.of_encode ascii_backslash hstops ascii_lineBreaks⟩

lemma takesDelimited_comment (hkind : (read d (encode l)).kind = .comment)
    (h : comment? d (encode l) = some (read d (encode l))) : TakesDelimited d l := by
  rcases comment?_spec h with ⟨body, behind, hl, hlen, hbody⟩ |
    ⟨hcss, body, behind, hl, hlen, hbody, hbehind⟩
  · obtain ⟨l, rfl, hopen⟩ := exists_cons_of_encode ascii_slash hl
    obtain ⟨l, rfl, hrest⟩ := exists_cons_of_encode ascii_star hopen
    obtain ⟨body, behind, rfl, rfl, rfl⟩ : ∃ m n, l = m ++ n ∧ encode m = body ∧
        encode n = behind := by
      rcases hbody with ⟨inner, rfl, -⟩ | ⟨rfl, -⟩
      · have hcut : encode l = (inner ++ [byte '*']) ++ byte '/' :: behind := by
          rw [hrest]
          simp
        obtain ⟨m, n, rfl, hm, hn⟩ := exists_append_cons_of_encode ascii_slash hcut
        exact ⟨m ++ ['/'], n, by simp, by simp [hm, encode_cons_ascii ascii_slash], hn⟩
      · exact ⟨l, [], (List.append_nil l).symm, by rw [hrest, List.append_nil], rfl⟩
    refine ⟨'/' :: '*' :: body, behind, rfl, ?_, ?_⟩
    · rw [hlen, encode_cons_ascii ascii_slash, encode_cons_ascii ascii_star, List.length_cons,
        List.length_cons]
    · rw [hkind]
      exact .inl ⟨body, rfl, hbody.of_encode ascii_star ascii_slash⟩
  · obtain ⟨l, rfl, hopen⟩ := exists_cons_of_encode ascii_slash hl
    obtain ⟨l, rfl, hrest⟩ := exists_cons_of_encode ascii_slash hopen
    obtain ⟨body, behind, rfl, rfl, rfl⟩ :=
      exists_append_of_encode hrest (atBoundary_of_mem ascii_lineBreaks hbehind)
    refine ⟨'/' :: '/' :: body, behind, rfl, ?_, ?_⟩
    · rw [hlen, encode_cons_ascii ascii_slash, encode_cons_ascii ascii_slash, List.length_cons,
        List.length_cons]
    · rw [hkind]
      exact .inr ⟨hcss, body, rfl, notMem_of_encode ascii_lineBreaks hbody,
        mem_head?_of_encode ascii_lineBreaks hbehind⟩

/-- The letters of the name of a url. -/
lemma exists_letter : ∀ c ∈ ['u', 'r', 'l'], ∀ b, Byte.lower b = byte c →
    ∃ c', c'.utf8Size = 1 ∧ c'.toLower = c ∧ byte c' = b := by
  have hu : ∀ b, Byte.lower b = byte 'u' → byte 'u' = b ∨ byte 'U' = b := by decide +kernel
  have hr : ∀ b, Byte.lower b = byte 'r' → byte 'r' = b ∨ byte 'R' = b := by decide +kernel
  have hl : ∀ b, Byte.lower b = byte 'l' → byte 'l' = b ∨ byte 'L' = b := by decide +kernel
  have hascii : ∀ c ∈ ['u', 'U', 'r', 'R', 'l', 'L'], c.utf8Size = 1 := by simp [Char.utf8Size]
  simp only [List.forall_mem_cons] at hascii ⊢
  refine ⟨fun b hb => ?_, fun b hb => ?_, fun b hb => ?_, List.forall_mem_nil _⟩
  · rcases hu b hb with h | h
    · exact ⟨'u', hascii.1, rfl, h⟩
    · exact ⟨'U', hascii.2.1, rfl, h⟩
  · rcases hr b hb with h | h
    · exact ⟨'r', hascii.2.2.1, rfl, h⟩
    · exact ⟨'R', hascii.2.2.2.1, rfl, h⟩
  · rcases hl b hb with h | h
    · exact ⟨'l', hascii.2.2.2.2.1, rfl, h⟩
    · exact ⟨'L', hascii.2.2.2.2.2.1, rfl, h⟩

lemma exists_append_of_lower {word : List Char} (hword : ∀ c ∈ word, c ∈ ['u', 'r', 'l'])
    {l : List Char} {name rest : Text} (hname : name.lower = word.map byte)
    (h : encode l = name ++ rest) :
    ∃ m n, l = m ++ n ∧ encode m = name ∧ encode n = rest ∧ m.map Char.toLower = word := by
  induction word generalizing name l with
  | nil =>
      obtain rfl := List.map_eq_nil_iff.1 hname
      exact ⟨[], l, rfl, rfl, h, rfl⟩
  | cons c word ih =>
      obtain ⟨b, name, rfl, hb, hlower⟩ := List.map_eq_cons_iff.1 hname
      rw [List.forall_mem_cons] at hword
      obtain ⟨c', hc', rfl, rfl⟩ := exists_letter c hword.1 b hb
      obtain ⟨l, rfl, hl⟩ := exists_cons_of_encode hc' h
      obtain ⟨m, n, rfl, rfl, rfl, rfl⟩ := ih hword.2 hlower hl
      exact ⟨c' :: m, n, rfl, encode_cons_ascii hc' m, rfl, rfl⟩

lemma takesDelimited_url {n : Nat} (hkind : (read d (encode l)).kind = .url)
    (h : url? (encode l) n = some (read d (encode l))) : TakesDelimited d l := by
  have hopen : '('.utf8Size = 1 := by simp [Char.utf8Size]
  have hclose : ')'.utf8Size = 1 := by simp [Char.utf8Size]
  obtain ⟨name, before, body, after, behind, hl, hlen, hname, hbefore, hne, hbody, hafter⟩ :=
    url?_spec h
  -- Cut the text at the parentheses and around the white space.
  obtain ⟨name, l₁, rfl, rfl, hl₁, hlower⟩ :=
    exists_append_of_lower (fun c hc => hc) (beq_iff_eq.1 hname) hl
  obtain ⟨l₂, rfl, hl₂⟩ := exists_cons_of_encode hopen hl₁
  obtain ⟨before, l₃, rfl, rfl, hl₃⟩ := exists_append_of_mem ascii_blanks hbefore hl₂
  obtain ⟨l₄, behind, rfl, hl₄, rfl⟩ := exists_append_cons_of_encode hclose hl₃
  have hboundary : Text.atBoundary after = true :=
    atBoundary_of_mem ascii_blanks fun b hb => hafter b (List.mem_of_mem_head? hb)
  obtain ⟨body, after, rfl, rfl, rfl⟩ := exists_append_of_encode hl₄ hboundary
  refine ⟨name ++ '(' :: (before ++ body ++ after ++ [')']), behind, by simp, ?_, ?_⟩
  · rw [hlen, encode_append, encode_cons_ascii hopen]
    simp only [encode_append, encode_cons_ascii hclose, encode_nil, List.length_append,
      List.length_cons, List.length_nil]
    omega
  · rw [hkind]
    refine ⟨name, before, body, after, rfl, hlower, mem_of_encode ascii_blanks hbefore, ?_,
      hbody.of_encode ascii_backslash ascii_urlStops, mem_of_encode ascii_blanks hafter⟩
    rintro rfl
    exact hne rfl

/-- The readers of delimited lexemes. -/
lemma delimited_cases {t : Text} (hk : (read d t).kind ∈ delimitedKinds) :
    string? t = some (read d t) ∨ ((read d t).kind = .comment ∧ comment? d t = some (read d t)) ∨
      ((read d t).kind = .url ∧ ∃ n, url? t n = some (read d t)) := by
  simp only [delimitedKinds, List.mem_cons, List.not_mem_nil, or_false] at hk
  rcases hk with hk | hk | hk | hk
  · exact .inl (reader_read hk (by decide))
  · exact .inl (reader_read hk (by decide))
  · exact .inr (.inl ⟨hk, reader_read hk (by decide)⟩)
  · refine .inr (.inr ⟨hk, ?_⟩)
    rcases read_cases d t with h | ⟨-, h⟩ | ⟨-, h⟩
    · exact absurd (by rw [← h, hk]; decide) (kind_simple_notMem d t)
    · exact ⟨_, h⟩
    · rcases measure?_cases h with ⟨-, hread⟩ | ⟨-, -, hread⟩
      all_goals
        rw [hread] at hk
        cases hk

/-- A delimited lexeme begins with a character. -/
lemma atBoundary_of_delimited {t : Text} (hk : (read d t).kind ∈ delimitedKinds) :
    t.atBoundary = true := by
  rcases delimited_cases hk with h | ⟨-, h⟩ | ⟨-, n, h⟩
  · obtain ⟨q, hq, body, behind, rfl, -⟩ := string?_spec h
    exact atBoundary_byte (ascii_quotes q hq) _
  · rcases comment?_spec h with ⟨body, behind, rfl, -⟩ | ⟨-, body, behind, rfl, -⟩ <;> rfl
  · obtain ⟨name, before, body, after, behind, rfl, -, hname, -⟩ := url?_spec h
    obtain ⟨b, name, rfl, hb, -⟩ := List.map_eq_cons_iff.1 (beq_iff_eq.1 hname)
    obtain ⟨c, hc, -, rfl⟩ := exists_letter 'u' List.mem_cons_self b hb
    exact atBoundary_byte hc _

lemma takesDelimited (hk : (read d (encode l)).kind ∈ delimitedKinds) : TakesDelimited d l := by
  rcases delimited_cases hk with h | ⟨hkind, h⟩ | ⟨hkind, n, h⟩
  · exact takesDelimited_string h
  · exact takesDelimited_comment hkind h
  · exact takesDelimited_url hkind h

/-- A quotation mark at the start of a lexeme opens a string. -/
lemma kind_read_quote (d : Dialect) {q : Char} (hq : q ∈ quotes) (rest : Text) :
    (read d (byte q :: rest)).kind ∈ delimitedKinds := by
  have hearlier : blank? (byte q :: rest) = none ∧ comment? d (byte q :: rest) = none := by
    simp only [quotes, List.mem_cons, List.not_mem_nil, or_false] at hq
    rcases hq with rfl | rfl <;> cases d <;> exact ⟨rfl, rfl⟩
  obtain ⟨x, hx⟩ : ∃ x, string? (byte q :: rest) = some x := by
    rw [string?, if_pos ((isQuote_iff _).2 (List.mem_map_of_mem hq))]
    dsimp only
    split <;> exact ⟨_, rfl⟩
  have hsimple : simple d (byte q :: rest) = x := by
    rw [simple, hearlier.1, hearlier.2, Option.none_or, Option.none_or, hx, Option.some_or,
      Option.getD_some]
  obtain ⟨q, -, body, behind, -, ⟨rfl, -⟩ | ⟨rfl, -⟩⟩ := string?_spec hx
  all_goals
    rw [read, hsimple]
    simp [delimitedKinds]

/-- An opening at the start of a lexeme is not overlooked. -/
lemma kind_read_of_opens (h : OpensDelimited d l) : (read d (encode l)).kind ∈ delimitedKinds := by
  rcases h with ⟨q, hq, rest, rfl⟩ | ⟨rest, rfl⟩ | ⟨hcss, rest, rfl⟩
  · rw [List.singleton_append, encode_cons_ascii (ascii_quotes q hq)]
    exact kind_read_quote d hq _
  · rw [List.cons_append, List.singleton_append, encode_cons_ascii ascii_slash,
      encode_cons_ascii ascii_star]
    have hkind : (read d (byte '/' :: byte '*' :: encode rest)).kind = .comment := by rfl
    rw [hkind]
    decide
  · rw [List.cons_append, List.singleton_append, encode_cons_ascii ascii_slash,
      encode_cons_ascii ascii_slash]
    have hkind : (read d (byte '/' :: byte '/' :: encode rest)).kind = .comment := by
      cases d with
      | css => exact absurd rfl hcss
      | scss => rfl
      | less => rfl
    rw [hkind]
    decide

end Lexeme

namespace Token

lemma text_cut_encode (offset : Nat) (kind : TokenKind) (word behind : List Char) :
    (cut offset (encode (word ++ behind)) ⟨kind, (encode word).length⟩).text = encode word := by
  have hboundary := atBoundary_encode (word ++ behind)
  simp only [cut, encode_append, List.drop_left, List.take_left]
  rw [← encode_append, hboundary, atBoundary_encode behind]
  rfl

/-- Strings, comments and raw urls are made of whole characters, and they begin and end with their
delimiters. The openings of strings and comments at the start of a token always make one. -/
theorem delimited_tokens (d : Dialect) (s : String) {t : Token}
    (ht : t ∈ read d (Text.ofString s)) :
    (t.kind ∈ delimitedKinds → ∃ before word behind, s.toList = before ++ word ++ behind ∧
        t.start = utf8Length before ∧ t.stop = utf8Length (before ++ word) ∧ t.text = encode word ∧
        IsDelimited d t.kind word behind) ∧
      ∀ before rest, s.toList = before ++ rest → t.start = utf8Length before →
      OpensDelimited d rest →
        t.kind ∈ delimitedKinds := by
  obtain ⟨front, rest, hsource, -, rfl⟩ := exists_cut_of_mem ht
  rw [← encode_toList] at hsource
  constructor
  · intro hk
    obtain ⟨before, l, hl, rfl, rfl⟩ :=
      exists_append_of_encode hsource (Lexeme.atBoundary_of_delimited hk)
    obtain ⟨word, behind, rfl, hlen, hform⟩ := Lexeme.takesDelimited hk
    refine ⟨before, word, behind, by rw [hl, List.append_assoc], ?_, ?_, ?_, hform⟩
    · simp only [cut, length_encode, Nat.zero_add]
    · simp only [cut, hlen, Nat.zero_add]
      rw [← List.length_append, ← encode_append, length_encode]
    · rw [← text_cut_encode (0 + (encode before).length)
        (Lexeme.read d (encode (word ++ behind))).kind word behind, ← hlen]
  · intro before rest' hl hstart hopens
    have hfront : front.length = (encode before).length := by
      rw [length_encode, ← hstart]
      simp only [cut, Nat.zero_add]
    rw [hl, encode_append] at hsource
    obtain ⟨-, rfl⟩ := List.append_inj hsource hfront.symm
    exact Lexeme.kind_read_of_opens hopens

/-- A string in which a character of two bytes and its own quotation mark are escaped. -/
theorem delimited_tokens_escapes :
    ⟨.string, 1, 8, Text.ofString "'\\é\\''"⟩ ∈ read .css (Text.ofString "a'\\é\\''") ∧
      ∃ before word behind, "a'\\é\\''".toList = before ++ word ++ behind ∧ 1 = utf8Length before ∧
        8 = utf8Length (before ++ word) ∧ Text.ofString "'\\é\\''" = encode word ∧
        IsDelimited .css .string word behind := by
  have hmem : ⟨.string, 1, 8, Text.ofString "'\\é\\''"⟩ ∈
      read .css (Text.ofString "a'\\é\\''") := by decide +kernel
  exact ⟨hmem, (delimited_tokens .css _ hmem).1 (by decide)⟩

end Token

end StyleSheet
