import Mathlib
import StyleSheet.Proofs.Tokens

/-!
# Line comments

The lexer asks for the dialect in one place only: two slashes begin a comment or they do not.
Everywhere else the dialects have the same lexemes (`read_eq_of_startsWith`). So two readings of a
source agree up to the first place where two slashes stand at the start of a token. There one of
them has a slash and the other one a comment, and whatever comes behind, the tokens differ
(`readFrom_eq_iff`).
-/

namespace StyleSheet

namespace Lexeme

variable {d d' : Dialect} {t : Text}

/-! ## Lexemes of different dialects -/

lemma startsWith_slashes_iff :
    t.startsWith "//" = true ↔ ∃ rest, t = byte '/' :: byte '/' :: rest := by
  rw [Text.startsWith, List.isPrefixOf_iff_prefix,
    show Text.ofString "//" = [byte '/', byte '/'] by decide]
  exact exists_congr fun rest => eq_comm

/-- The lexemes depend on nothing of the dialect but whether it has line comments. -/
lemma read_congr (h : d.hasLineComments = d'.hasLineComments) : read d = read d' := by
  have hsimple : simple d = simple d' := by
    funext t
    simp only [simple, comment?, h]
  funext t
  simp only [read, measure?, hsimple]

/-- Without two slashes ahead, the dialects have the same simple lexemes. -/
lemma simple_eq_of_startsWith (d d' : Dialect) (h : t.startsWith "//" = false) :
    simple d t = simple d' t := by
  simp only [simple, comment?, h, Bool.and_false]

/-- Two slashes make a slash, or a comment. -/
lemma simple_slashes (d : Dialect) (rest : Text) :
    if d.hasLineComments then (simple d (byte '/' :: byte '/' :: rest)).kind = .comment
      else simple d (byte '/' :: byte '/' :: rest) = ⟨.slash, 1⟩ := by
  cases d <;> cases rest <;> rfl

/-- What is joined with a number is the same in all dialects, also where two slashes follow it. -/
lemma measure?_eq (d d' : Dialect) (t : Text) (n : Nat) : measure? d t n = measure? d' t n := by
  have hnone : ∀ d, Text.startsWith (t.drop n) "//" = true → measure? d t n = none := by
    intro d hstart
    obtain ⟨rest, hrest⟩ := startsWith_slashes_iff.1 hstart
    have hkind := simple_slashes d rest
    rw [measure?, hrest]
    split at hkind
    · simp [hkind]
    · simp [hkind]
  cases hstart : Text.startsWith (t.drop n) "//" with
  | true => rw [hnone d hstart, hnone d' hstart]
  | false => simp only [measure?, simple_eq_of_startsWith d d' hstart]

/-- Without two slashes ahead, the dialects have the same lexemes. -/
lemma read_eq_of_startsWith (d d' : Dialect) (h : t.startsWith "//" = false) :
    read d t = read d' t := by
  simp only [read, simple_eq_of_startsWith d d' h, measure?_eq d d']

lemma read_slashes (d : Dialect) (rest : Text) :
    (read d (byte '/' :: byte '/' :: rest)).kind =
      if d.hasLineComments then .comment else .slash := by
  have hkind := simple_slashes d rest
  split at hkind
  · simp [read, *]
  · simp [read, *]

/-- A slash is a lexeme of one byte. -/
lemma slash_of_read (h : (read d t).kind = .slash) :
    ∃ rest, t = byte '/' :: rest ∧ (read d t).length = 1 := by
  have hread : read d t = simple d t := read_eq_simple (by rw [h]; decide)
  rw [hread] at h ⊢
  exact mark_of_simple [byte '/'] (by decide) rfl h

end Lexeme

namespace Token

/-! ## Tokens of different dialects -/

lemma readFrom_congr (d d' : Dialect) (h : d.hasLineComments = d'.hasLineComments) (offset : Nat)
    (t : Text) : readFrom d offset t = readFrom d' offset t := by
  fun_induction readFrom d offset t with
  | case1 offset => rw [readFrom]
  | case2 offset b rest l ih => rw [ih, readFrom, ← Lexeme.read_congr h]

/-- Reading with line comments and reading without them find the same tokens if and only if no slash
that is found without them has another one directly behind it. -/
theorem readFrom_eq_iff {d d' : Dialect} (hd : d.hasLineComments = false)
    (hd' : d'.hasLineComments = true) (offset : Nat) (t : Text) :
    readFrom d offset t = readFrom d' offset t ↔
      ∀ u ∈ readFrom d offset t, u.kind = .slash →
      (t.drop (u.stop - offset)).head? ≠ some (byte '/') := by
  fun_induction readFrom d offset t with
  | case1 offset => simp [readFrom]
  | case2 offset b rest l ih =>
      have hstop : (cut offset (b :: rest) l).stop - offset = l.length := Nat.add_sub_cancel_left ..
      rw [List.forall_mem_cons, hstop, readFrom]
      cases hstart : Text.startsWith (b :: rest) "//" with
      | true =>
          -- Here the readings part: there is a slash, and there is a comment.
          obtain ⟨behind, hbehind⟩ := Lexeme.startsWith_slashes_iff.1 hstart
          have hslash := Lexeme.read_slashes d behind
          have hcomment := Lexeme.read_slashes d' behind
          rw [← hbehind, hd] at hslash
          rw [← hbehind, hd'] at hcomment
          obtain ⟨-, -, hlength⟩ := Lexeme.slash_of_read hslash
          constructor
          · intro heq
            have hkind := congrArg Token.kind (List.head_eq_of_cons_eq heq)
            rw [cut, cut, hslash, hcomment] at hkind
            cases hkind
          · intro hfree
            refine absurd ?_ (hfree.1 hslash)
            rw [hlength, hbehind]
            rfl
      | false =>
          have hread := Lexeme.read_eq_of_startsWith d d' hstart
          have hhead : (cut offset (b :: rest) l).kind = .slash →
              ((b :: rest).drop l.length).head? ≠ some (byte '/') := by
            intro hkind hhead
            obtain ⟨behind, hbehind, hlength⟩ := Lexeme.slash_of_read hkind
            rw [hlength, hbehind, List.drop_one, List.tail_cons] at hhead
            obtain ⟨tail, rfl⟩ := List.head?_eq_some_iff.1 hhead
            rw [hbehind, Lexeme.startsWith_slashes_iff.2 ⟨tail, rfl⟩] at hstart
            cases hstart
          rw [← hread, List.cons_eq_cons, ih, and_iff_right rfl, and_iff_right hhead]
          refine forall₂_congr fun u hu => ?_
          -- The token stands behind the first one, so its end can be counted from there.
          have hu := (readFrom_ordered d _ _).mem hu
          rw [List.drop_drop,
            show l.length + (u.stop - (offset + l.length)) = u.stop - offset by omega]

/-- SCSS and LESS have the same tokens. CSS has the same tokens as they have if and only if none of
its slashes is directly followed by another slash. -/
theorem dialects_differ_by_line_comments (source : Text) :
    read .scss source = read .less source ∧
      (read .css source = read .scss source ↔
        ∀ t ∈ read .css source, t.kind = .slash → (source.drop t.stop).head? ≠ some (byte '/')) :=
  ⟨readFrom_congr .scss .less rfl 0 source, readFrom_eq_iff rfl rfl 0 source⟩

-- Two slashes inside of a url, of a string and of a comment do not matter.
example : read .css (Text.ofString "url(a//b)'//'/*//*/c / /d") =
    read .scss (Text.ofString "url(a//b)'//'/*//*/c / /d") := by
  decide +kernel

end Token

end StyleSheet
