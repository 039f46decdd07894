import Mathlib
import StyleSheet.Proofs.Delimiters
import StyleSheet.Proofs.Layout
import StyleSheet.Proofs.Lossless
import StyleSheet.Proofs.NodeParts
import StyleSheet.Proofs.Numbering

/-!
# The texts of leaves

What the lexer finds at the start of a text says what the token is made of, if the token has its
text. Where a token begins and ends with ASCII it has (`isWhole_of_ascii`), and the tokens that are
read anew where a range of code points is cut have it in any case, so that a property of the texts
of lexemes goes over to the leaves of all trees (`Parser.CutHistory.forall_texts`). `IsTextOf` is
such a property, for the kinds of tokens whose texts are taken apart later on.
-/

namespace StyleSheet

open Token

/-- What is known of the text of a token from its kind. -/
def IsTextOf (kind : TokenKind) (t : Text) : Prop :=
  match kind with
  | .bang => t = [byte '!']
  | .whitespace => ∀ b ∈ t, Byte.isBlank b = true
  | .comment => t.head? = some (byte '/')
  | .string => ∃ q body, Byte.isQuote q = true ∧ t = q :: (body ++ [q])
  | .url =>
      ∃ name body, Text.isWord name "url" = true ∧ t = name ++ byte '(' :: (body ++ [byte ')'])
  | _ => True

/-! ## Lexemes -/

namespace Lexeme

variable {d : Dialect} {t : Text}

lemma isTextOf_bang (h : (read d t).kind = .bang) : t.take (read d t).length = [byte '!'] := by
  have hread : read d t = simple d t := read_eq_simple (by rw [h]; decide)
  rw [hread] at h ⊢
  obtain ⟨rest, rfl, hlength⟩ := mark_of_simple [byte '!'] (by decide) rfl h
  rw [hlength, List.take_left]

lemma isTextOf_whitespace (h : (read d t).kind = .whitespace) :
    ∀ b ∈ t.take (read d t).length, Byte.isBlank b = true := by
  have hblank : blank? t = some (read d t) := reader_read h (by decide)
  have htake : t.take (runLength Byte.isBlank t) = t.takeWhile Byte.isBlank :=
    (List.prefix_iff_eq_take.1 (List.takeWhile_prefix _)).symm
  rw [eq_of_ofLength? hblank]
  intro b hb
  exact List.mem_takeWhile_imp (htake ▸ hb)

lemma isTextOf_comment (h : (read d t).kind = .comment) :
    (t.take (read d t).length).head? = some (byte '/') := by
  have hcomment : comment? d t = some (read d t) := reader_read h (by decide)
  rcases comment?_spec hcomment with ⟨body, behind, rfl, hlength, -⟩ |
    ⟨-, body, behind, rfl, hlength, -⟩
  all_goals
    rw [hlength]
    rfl

lemma isTextOf_string (h : (read d t).kind = .string) :
    ∃ q body, Byte.isQuote q = true ∧ t.take (read d t).length = q :: (body ++ [q]) := by
  have hstring : string? t = some (read d t) := reader_read h (by decide)
  obtain ⟨q, hq, body, behind, rfl, ⟨hread, hclose, -⟩ | ⟨hread, -⟩⟩ := string?_spec hstring
  · obtain ⟨behind, rfl⟩ := List.head?_eq_some_iff.1 hclose
    refine ⟨byte q, body, (isQuote_iff _).2 (List.mem_map_of_mem hq), ?_⟩
    have hsplit : byte q :: (body ++ byte q :: behind) =
        byte q :: (body ++ [byte q]) ++ behind := by simp
    rw [hread, hsplit, List.take_left' (by simp)]
  · rw [hread] at h
    cases h

lemma isTextOf_url (h : (read d t).kind = .url) :
    ∃ name body, Text.isWord name "url" = true ∧
      t.take (read d t).length = name ++ byte '(' :: (body ++ [byte ')']) := by
  rcases delimited_cases (by rw [h]; decide) with hread | ⟨hkind, -⟩ | ⟨-, n, hread⟩
  · obtain ⟨_, _, _, _, _, ⟨hstring, -⟩ | ⟨hstring, -⟩⟩ := string?_spec hread
    all_goals
      rw [hstring] at h
      cases h
  · cases h.symm.trans hkind
  · obtain ⟨name, before, body, after, behind, ht, hlength, hname, -⟩ := url?_spec hread
    refine ⟨name, before ++ body ++ after, hname, ?_⟩
    have hsplit : t = name ++ byte '(' :: (before ++ body ++ after ++ [byte ')']) ++ behind := by
      simp [ht]
    rw [hlength, hsplit, List.take_left']
    simp only [List.length_append, List.length_cons, List.length_nil]
    omega

/-- What a lexeme takes is a text of its kind. -/
lemma isTextOf_take_read (d : Dialect) (t : Text) :
    IsTextOf (read d t).kind (t.take (read d t).length) := by
  unfold IsTextOf
  split
  case h_1 h => exact isTextOf_bang h
  case h_2 h => exact isTextOf_whitespace h
  case h_3 h => exact isTextOf_comment h
  case h_4 h => exact isTextOf_string h
  case h_5 h => exact isTextOf_url h
  case h_6 => trivial

end Lexeme

/-! ## Tokens -/

namespace Token

variable {d : Dialect}

/-- A token of a source has its text if it begins and ends with ASCII. -/
lemma isWhole_of_ascii {s : String} {front rest : Text} (hsource : Text.ofString s = front ++ rest)
    (hne : rest ≠ []) (hfirst : ∀ b ∈ (rest.take (Lexeme.read d rest).length).head?, b < 0x80)
    (hlast : ∀ b ∈ (rest.take (Lexeme.read d rest).length).getLast?, b < 0x80) (offset : Nat) :
    (cut offset rest (Lexeme.read d rest)).isWhole = true := by
  have hpos := Lexeme.length_read_pos d rest
  rw [← encode_toList] at hsource
  rw [isWhole_cut d offset hne, Bool.and_eq_true]
  constructor
  · obtain ⟨b, more, rfl⟩ := List.exists_cons_of_ne_nil hne
    exact (atBoundary_of_lt (hfirst b (by simp [List.head?_take, hpos.ne'])) hsource).1
  · have htake : rest.take (Lexeme.read d rest).length ≠ [] := by simp [hne, hpos.ne']
    obtain ⟨init, b, hinit⟩ := (List.eq_nil_or_concat _).resolve_left htake
    rw [List.concat_eq_append] at hinit
    have hsplit := List.take_append_drop (Lexeme.read d rest).length rest
    rw [hinit, List.append_assoc, List.singleton_append] at hsplit
    refine (atBoundary_of_lt (hlast b (by simp [hinit])) (l := s.toList) (x := front ++ init) ?_).2
    rw [hsource, List.append_assoc, hsplit]

/-- Delimited tokens have their texts. -/
lemma isWhole_of_delimited {s : String} {front rest : Text}
    (hsource : Text.ofString s = front ++ rest) (hne : rest ≠ [])
    (hk : (Lexeme.read d rest).kind ∈ delimitedKinds) (offset : Nat) :
    (cut offset rest (Lexeme.read d rest)).isWhole = true := by
  have hfirst := Lexeme.atBoundary_of_delimited hk
  rw [← encode_toList] at hsource
  obtain ⟨before, l, -, rfl, rfl⟩ := exists_append_of_encode hsource hfirst
  obtain ⟨word, behind, rfl, hlength, -⟩ := Lexeme.takesDelimited hk
  rw [isWhole_cut d offset hne, hfirst, hlength, encode_append, List.drop_left, atBoundary_encode]
  rfl

/-- The text of each token of a source is one of its kind. -/
lemma isTextOf_read {s : String} {t : Token} (ht : t ∈ read d (Text.ofString s)) :
    IsTextOf t.kind t.text := by
  obtain ⟨front, rest, hsource, hne, rfl⟩ := exists_cut_of_mem ht
  have htext : (cut (0 + front.length) rest (Lexeme.read d rest)).isWhole = true →
      IsTextOf (Lexeme.read d rest).kind
      (cut (0 + front.length) rest (Lexeme.read d rest)).text := by
    intro hwhole
    rw [text_cut_of_isWhole (Lexeme.length_read_pos d rest) hwhole]
    exact Lexeme.isTextOf_take_read d rest
  by_cases hdelimited : (Lexeme.read d rest).kind ∈ delimitedKinds
  · exact htext (isWhole_of_delimited hsource hne hdelimited _)
  · by_cases hplain : (Lexeme.read d rest).kind = .bang ∨ (Lexeme.read d rest).kind = .whitespace
    · have hascii : ∀ b ∈ rest.take (Lexeme.read d rest).length, b < 0x80 := by
        rcases hplain with hkind | hkind
        · rw [Lexeme.isTextOf_bang hkind]
          exact List.forall_mem_singleton.2 (by decide)
        · exact fun b hb => lt_of_isBlank (Lexeme.isTextOf_whitespace hkind b hb)
      exact htext (isWhole_of_ascii hsource hne (fun b hb => hascii b (List.mem_of_mem_head? hb))
        (fun b hb => hascii b (List.mem_of_mem_getLast? hb)) _)
    · -- Nothing is said of the texts of other kinds.
      change IsTextOf (Lexeme.read d rest).kind _
      unfold IsTextOf
      split
      case h_6 => trivial
      all_goals simp_all [delimitedKinds]

end Token

/-- What holds of the texts of all lexemes, and of the tokens of a row, holds behind all cuts of the
row. -/
lemma Parser.CutHistory.forall_texts {d : Dialect} {a b : List Token} {cuts : List Cut} {hi : Nat}
    {P : TokenKind → Text → Prop} (hrange : ∀ t, P .ident t ∧ P .plus t)
    (hread : ∀ t, P (Lexeme.read d t).kind (t.take (Lexeme.read d t).length))
    (h : Parser.CutHistory d a cuts b) (ha : Row hi a) (hP : ∀ t ∈ a, P t.kind t.text) :
    ∀ t ∈ b, P t.kind t.text := by
  induction h with
  | nil => exact hP
  | cons hrest hstep ih =>
      have hrow := hrest.row ha
      obtain ⟨before, range, glued, behind, hrun⟩ := hstep
      have hspelled := hrun.spelled_behind fun t ht => hrow.regular t (Parser.mem_run ht)
      intro t ht
      simp only [List.mem_append, Parser.rangePieces, List.mem_cons] at ht
      rcases ht with (ht | rfl | rfl | ht) | ht
      · exact ih t (by simp [ht])
      · exact (hrange _).1
      · exact (hrange _).2
      · have hwhole := (readFrom_spelled d _ hspelled t ht).2
        obtain ⟨front, rest, -, -, rfl⟩ := exists_cut_of_mem ht
        rw [text_cut_of_isWhole (Lexeme.length_read_pos d rest) hwhole]
        exact hread rest
      · exact ih t (by simp [ht])

/-! ## Leaves -/

mutual

/-- The leaves of a node of a tree stand side by side in the tree. -/
lemma Tree.leaves_of_sites {above : List Place} {start : Nat} {s : Site} :
    ∀ {t : Tree}, s ∈ t.sites above start → s.tree.leaves <:+: t.leaves
  | .leaf _ _, h => nomatch h
  | .node k cs, h => by
      rcases List.mem_cons.1 h with rfl | h
      · exact List.infix_rfl
      · exact Tree.leaves_of_sitesOf h

lemma Tree.leaves_of_sitesOf {above : List Place} {start : Nat} {s : Site} :
    ∀ {cs : List Tree}, s ∈ Tree.sitesOf above start cs → s.tree.leaves <:+: Tree.leavesOf cs
  | [], h => nomatch h
  | _ :: _, h => by
      rcases List.mem_append.1 h with h | h
      · exact (Tree.leaves_of_sites h).trans List.infix_append_left
      · exact (Tree.leaves_of_sitesOf h).trans List.infix_append_right

end

/-- Only the root of a tree is not inside of another node. -/
lemma above_ne_nil {d : Dialect} {entry : Entry} {source : Text} {s : Site}
    (hs : s ∈ (parse d entry source).root.descendants) (hkind : s.kind ≠ entry.rootKind) :
    s.above ≠ [] := by
  obtain ⟨kind, y, s₀, hreads, -, hparse, -⟩ := exists_layout_parse d entry source
  rw [hparse, Site.descendants, Site.tree, Place.tree, Tree.sites, List.mem_cons] at hs
  intro hnil
  rcases hs with rfl | hs
  · exact hkind (Entry.kind_eq_rootKind (hreads _ (le_refl _)))
  · rcases Tree.parent_of_sitesOf hs with habove | ⟨s', -, hparent⟩
    · rw [hnil] at habove
      cases habove
    · rw [Site.parent?, hnil] at hparent
      cases hparent

/-- The text of each leaf of a tree is one of its kind. -/
lemma isTextOf_of_descendants {d : Dialect} {entry : Entry} {source : String} {s : Site} {l : Leaf}
    (hs : s ∈ (parse d entry (Text.ofString source)).root.descendants) (hl : l ∈ s.tree.leaves) :
    IsTextOf l.kind l.text := by
  have hmem := (Tree.leaves_of_sites hs).subset hl
  rw [leaves_parse] at hmem
  obtain ⟨t, ht, rfl⟩ := List.mem_map.1 hmem
  have hhistory := (Entry.consistent_readSource d entry (Text.ofString source)).history
  exact hhistory.forall_texts (fun _ => ⟨trivial, trivial⟩) (Lexeme.isTextOf_take_read d)
    (read_row d _) (fun t ht => isTextOf_read ht) t ht

end StyleSheet
