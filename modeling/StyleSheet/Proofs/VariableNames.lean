import Mathlib
import StyleSheet.Proofs.LexicalNodes

/-!
# The names of variables

A token that ends inside of a character has no text. In the declaration of a variable the name is
followed by a colon, perhaps with white space or comments before it, so that it ends where a
character ends: it has its text, and the variable has a name (`exists_name_of_variableDeclaration`).
-/

namespace StyleSheet

open Token

/-! ## Lexemes -/

namespace Lexeme

variable {d : Dialect} {t : Text}

lemma head_of_dollarName (h : (read d t).kind = .dollarName) : t.head? = some (byte '$') := by
  have hsigil : sigil? t = some (read d t) := reader_read h (by decide)
  cases t with
  | nil => cases hsigil
  | cons b rest =>
      rw [sigil?] at hsigil
      grind [sigilKind?, ofLength?]

/-- What follows a name in a declaration begins with ASCII. -/
lemma head_lt_of_kind (hne : t ≠ [])
    (h : (read d t).kind = .colon ∨ (read d t).kind.isTrivia = true) : ∃ b ∈ t.head?, b < 0x80 := by
  have htake : (t.take (read d t).length).head? = t.head? := by
    rw [List.head?_take, if_neg (length_read_pos d t).ne']
  obtain ⟨b, rest, rfl⟩ := List.exists_cons_of_ne_nil hne
  have hcases : (read d (b :: rest)).kind = .colon ∨ (read d (b :: rest)).kind = .whitespace ∨
      (read d (b :: rest)).kind = .comment := by
    refine h.imp_right fun h => ?_
    revert h
    cases (read d (b :: rest)).kind <;> decide
  refine ⟨b, rfl, ?_⟩
  rcases hcases with h | h | h
  · have hread : read d (b :: rest) = simple d (b :: rest) := read_eq_simple (by rw [h]; decide)
    rw [hread] at h
    obtain ⟨more, hcolon, -⟩ := mark_of_simple [byte ':'] (by decide) rfl h
    rw [(List.cons.inj hcolon).1]
    decide
  · exact lt_of_isBlank (isTextOf_whitespace h b (List.mem_of_mem_head? htake))
  · rw [Option.some.inj (htake.symm.trans (isTextOf_comment h))]
    decide

end Lexeme

/-! ## Tokens side by side -/

/-- If the first token is a name with a dollar sign and something that may stand before a colon
follows it, then it has its text. -/
def Leaf.Named (a b : Leaf) : Prop :=
  a.kind = .dollarName → b.kind = .colon ∨ b.kind.isTrivia = true → a.text.head? = some (byte '$')

namespace Token

variable {d : Dialect}

lemma head_of_isWhole {offset : Nat} {t : Text}
    (hwhole : (cut offset t (Lexeme.read d t)).isWhole = true)
    (hkind : (Lexeme.read d t).kind = .dollarName) :
    (cut offset t (Lexeme.read d t)).text.head? = some (byte '$') := by
  rw [text_cut_of_isWhole (Lexeme.length_read_pos d t) hwhole, List.head?_take,
    if_neg (Lexeme.length_read_pos d t).ne', Lexeme.head_of_dollarName hkind]

lemma isChain_named_readFrom (d : Dialect) (offset : Nat) (t : Text) :
    ((readFrom d offset t).map leaf).IsChain Leaf.Named := by
  have hascii : ∀ b : UInt8, b < 0x80 → Byte.isContinuation b = false := fun b hb => by
    simp [Byte.isContinuation, UInt8.not_le.2 hb]
  fun_induction readFrom d offset t with
  | case1 offset => exact .nil
  | case2 offset b rest l ih =>
      refine List.isChain_cons.2 ⟨fun u hu hname hnext => ?_, ih⟩
      cases hbehind : (b :: rest).drop l.length with
      | nil =>
          rw [hbehind, readFrom] at hu
          cases hu
      | cons b' rest' =>
          rw [hbehind, readFrom] at hu
          obtain rfl := Option.some.inj hu
          obtain ⟨_, ⟨⟩, hlt⟩ := Lexeme.head_lt_of_kind (List.cons_ne_nil b' rest') hnext
          have hdollar : b = byte '$' := Option.some.inj (Lexeme.head_of_dollarName hname)
          have hwhole : (cut offset (b :: rest) (Lexeme.read d (b :: rest))).isWhole = true := by
            rw [isWhole_cut d offset (List.cons_ne_nil b rest), hbehind, hdollar]
            simp only [Text.atBoundary, hascii b' hlt]
            rfl
          exact head_of_isWhole hwhole hname

end Token

/-- Cutting ranges of code points keeps what is known of tokens side by side. -/
lemma Parser.CutHistory.isChain_named {d : Dialect} {a b : List Token} {cuts : List Cut} {hi : Nat}
    (h : Parser.CutHistory d a cuts b) (ha : Row hi a) (hchain : (a.map leaf).IsChain Leaf.Named) :
    (b.map leaf).IsChain Leaf.Named := by
  induction h with
  | nil => exact hchain
  | cons hrest hstep ih =>
      have hrow := hrest.row ha
      obtain ⟨before, range, glued, behind, hrun⟩ := hstep
      have hspelled := hrun.spelled_behind fun t ht => hrow.regular t (Parser.mem_run ht)
      have hne : (Parser.rangePieces d range glued).map leaf ≠ [] := List.cons_ne_nil _ _
      simp only [List.map_append, List.isChain_append] at ih ⊢
      obtain ⟨⟨hbefore, -, -⟩, hbehind, -⟩ := ih
      refine ⟨⟨hbefore, ?_, ?_⟩, hbehind, ?_⟩
      · exact List.isChain_cons.2 ⟨(fun _ _ hkind => nomatch hkind),
          List.isChain_cons.2 ⟨(fun _ _ hkind => nomatch hkind), isChain_named_readFrom d _ _⟩⟩
      · rintro x - _ ⟨⟩ - hnext
        rcases hnext with h | h <;> cases h
      · intro x hx y _ hdollar _
        rw [List.getLast?_append_of_ne_nil _ hne] at hx
        obtain ⟨t, ht, rfl⟩ := List.mem_map.1 (List.mem_of_mem_getLast? hx)
        simp only [Parser.rangePieces, List.mem_cons] at ht
        rcases ht with rfl | rfl | ht
        · cases hdollar
        · cases hdollar
        · have hwhole := (readFrom_spelled d _ hspelled t ht).2
          obtain ⟨front, rest, -, -, rfl⟩ := exists_cut_of_mem ht
          exact head_of_isWhole hwhole hdollar

/-! ## Declarations of variables -/

/-- Each variable of SCSS has a name. -/
lemma exists_name_of_variableDeclaration {entry : Entry} {source : Text} {s : Site}
    (hs : s ∈ (parse .scss entry source).root.descendants) (hkind : s.kind = .variableDeclaration) :
    ∃ name, (VariableDeclaration.ofSite s).name? = some name ∧ name ≠ [] := by
  obtain ⟨y, hbare, hlexical⟩ := exists_lexical .scss entry source s hs
  rw [hkind] at hlexical
  obtain ⟨t, u, rest, rfl, hdollar, hcolon⟩ := hlexical rfl
  have hchain : s.tree.leaves.IsChain Leaf.Named := by
    have hroot : (parse .scss entry source).root.tree.leaves.IsChain Leaf.Named := by
      rw [leaves_parse]
      exact (Entry.consistent_readSource .scss entry source).history.isChain_named
        (read_row .scss _) (isChain_named_readFrom .scss 0 source)
    exact hroot.infix (Tree.leaves_of_sites hs)
  have htext : t.text.head? = some (byte '$') := by
    obtain ⟨before, behind, hleaves, -, -, hbehind⟩ :=
      List.filter_eq_cons_iff.1 (Site.leaves_of_bare hbare)
    obtain ⟨gap, more, rfl, hgap, -, -⟩ := List.filter_eq_cons_iff.1 hbehind
    rw [hleaves] at hchain
    have hnext := (List.isChain_cons.1 (List.isChain_append.1 hchain).2.1).1
    cases gap with
    | nil => exact hnext _ rfl hdollar (.inl hcolon)
    | cons l gap => exact hnext l rfl hdollar (.inr (by simpa using hgap l List.mem_cons_self))
  obtain ⟨more, hmore⟩ := List.head?_eq_some_iff.1 htext
  refine ⟨t.text.trim, childText?_of_bare hs hbare, ?_⟩
  rw [hmore]
  exact (Text.prefix_trim (x := [byte '$']) (List.forall_mem_singleton.2 rfl) (by decide)
    more).ne_nil (by decide)

end StyleSheet
