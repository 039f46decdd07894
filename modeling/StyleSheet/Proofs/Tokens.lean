import Mathlib
import StyleSheet.Parser
import StyleSheet.Proofs.Spelling

/-!
# Rows of tokens

The tokens of a source fill it without a gap (`readFrom_tiles`). After a cut there may be gaps, but
the tokens still follow one another without overlapping (`Ordered`), and each of them is `Regular`:
its text is that of its span or empty, and where a range of code points can be cut the text is
spelled. These two facts are what survives every later change of the row, so everything else is
derived from them: how many bytes the texts of a row have, and which tokens are glued to a range.
-/

namespace StyleSheet

namespace Token

/-! ## Order -/

/-- The tokens lie between the offsets `lo` and `hi`, none of them is empty, and none starts before
the one in front of it has ended. -/
def Ordered : Nat → List Token → Nat → Prop
  | lo, [], hi => lo ≤ hi
  | lo, t :: rest, hi => lo ≤ t.start ∧ t.start < t.stop ∧ Ordered t.stop rest hi

namespace Ordered

lemma le {lo hi : Nat} {l : List Token} (h : Ordered lo l hi) : lo ≤ hi := by
  induction l generalizing lo with
  | nil => exact h
  | cons t rest ih =>
      have := ih h.2.2
      have := h.1
      have := h.2.1
      omega

lemma lower {lo lo' hi : Nat} {l : List Token} (h : Ordered lo l hi) (hlo : lo' ≤ lo) :
    Ordered lo' l hi := by
  cases l with
  | nil => exact hlo.trans h
  | cons t rest => exact ⟨hlo.trans h.1, h.2⟩

lemma upper {lo hi hi' : Nat} {l : List Token} (h : Ordered lo l hi) (hhi : hi ≤ hi') :
    Ordered lo l hi' := by
  induction l generalizing lo with
  | nil => exact Nat.le_trans h hhi
  | cons t rest ih => exact ⟨h.1, h.2.1, ih h.2.2⟩

/-- The span of each token is not empty and lies between the bounds. -/
lemma mem {lo hi : Nat} {l : List Token} (h : Ordered lo l hi) {t : Token} (ht : t ∈ l) :
    lo ≤ t.start ∧ t.start < t.stop ∧ t.stop ≤ hi := by
  induction l generalizing lo with
  | nil => cases ht
  | cons u rest ih =>
      rcases List.mem_cons.1 ht with rfl | ht
      · exact ⟨h.1, h.2.1, h.2.2.le⟩
      · have := ih h.2.2 ht
        have := h.1
        have := h.2.1
        omega

/-- Of two tokens the earlier one ends before the later one starts. -/
lemma pairwise {lo hi : Nat} {l : List Token} (h : Ordered lo l hi) :
    l.Pairwise fun a b => a.stop ≤ b.start := by
  induction l generalizing lo with
  | nil => exact .nil
  | cons t rest ih => exact .cons (fun u hu => (h.2.2.mem hu).1) (ih h.2.2)

end Ordered

lemma ordered_append {lo hi : Nat} {a b : List Token} :
    Ordered lo (a ++ b) hi ↔ ∃ mid, Ordered lo a mid ∧ Ordered mid b hi := by
  induction a generalizing lo with
  | nil =>
      constructor
      · exact fun h => ⟨lo, le_refl lo, h⟩
      · exact fun ⟨_, hlo, h⟩ => h.lower hlo
  | cons t rest ih =>
      constructor
      · rintro ⟨h₁, h₂, h⟩
        obtain ⟨mid, h₃, h₄⟩ := ih.1 h
        exact ⟨mid, ⟨h₁, h₂, h₃⟩, h₄⟩
      · rintro ⟨mid, ⟨h₁, h₂, h₃⟩, h₄⟩
        exact ⟨h₁, h₂, ih.2 ⟨mid, h₃, h₄⟩⟩

/-- The tokens fill the space between the offsets `lo` and `hi`: none of them is empty, and each of
them starts where the one in front of it has ended. -/
def Tiles : Nat → List Token → Nat → Prop
  | lo, [], hi => lo = hi
  | lo, t :: rest, hi => t.start = lo ∧ t.start < t.stop ∧ Tiles t.stop rest hi

lemma Tiles.ordered {lo hi : Nat} {l : List Token} (h : Tiles lo l hi) : Ordered lo l hi := by
  induction l generalizing lo with
  | nil => exact h.le
  | cons t rest ih => exact ⟨h.1.ge, h.2.1, ih h.2.2⟩

/-! ## Single tokens -/

/-- What holds of a token by itself, however the row around it has been cut. -/
structure Regular (t : Token) : Prop where
  /-- It is not the end of the input. -/
  kind_ne : t.kind ≠ .endOfInput
  /-- Its text is all of its span or nothing. -/
  text_or : t.text = [] ∨ t.text.length = t.stop - t.start
  /-- If it can be cut or glued to what is cut, it is spelled. -/
  spelled : Lexeme.isSpelledKind t.kind = true → Lexeme.Spelled t.text
  /-- A range has room for the three tokens that it is cut into at least, and it is plain. -/
  range : t.kind = .unicodeRange → t.start + 3 ≤ t.stop ∧ Lexeme.Plain t.text

lemma Regular.length_text_le {t : Token} (h : t.Regular) : t.text.length ≤ t.stop - t.start := by
  rcases h.text_or with htext | htext
  · simp [htext]
  · omega

/-- A token without its whole text has none. -/
lemma Regular.text_eq_nil {t : Token} (h : t.Regular) (hw : t.isWhole = false) : t.text = [] := by
  rcases h.text_or with htext | htext
  · exact htext
  · simp [isWhole, htext] at hw

lemma cut_regular (d : Dialect) (offset : Nat) (t : Text) (ht : t ≠ []) :
    (cut offset t (Lexeme.read d t)).Regular where
  kind_ne := Lexeme.kind_read_ne d t
  text_or := by
    have hle := Lexeme.length_read_le d ht
    simp only [cut]
    split
    · right
      simp only [List.length_take]
      omega
    · exact Or.inl rfl
  spelled := by
    intro hk
    simp only [cut]
    split
    · exact Lexeme.spelled_take_read d t hk
    · exact .nil
  range := by
    intro hk
    obtain ⟨-, hlen, hplain, -⟩ := Lexeme.range?_cases (Lexeme.range?_of_read hk)
    refine ⟨Nat.add_le_add_left hlen offset, ?_⟩
    simp only [cut]
    split
    · exact hplain
    · exact .nil

/-! ## The texts of a row -/

/-- The texts of a row of tokens, one behind the other. -/
def texts (l : List Token) : Text := l.flatMap Token.text

@[simp] lemma texts_nil : texts [] = [] := rfl

@[simp] lemma texts_cons (t : Token) (l : List Token) : texts (t :: l) = t.text ++ texts l := rfl

@[simp] lemma texts_append (a b : List Token) : texts (a ++ b) = texts a ++ texts b :=
  List.flatMap_append

/-- The texts of a row have no more bytes than there are between its bounds. -/
lemma Ordered.length_texts_le {lo hi : Nat} {l : List Token} (h : Ordered lo l hi)
    (hr : ∀ t ∈ l, t.Regular) : lo + (texts l).length ≤ hi := by
  induction l generalizing lo with
  | nil => simpa using h.le
  | cons t rest ih =>
      obtain ⟨h₁, h₂, h₃⟩ := h
      have := ih h₃ fun u hu => hr u (by simp [hu])
      have := (hr t (by simp)).length_text_le
      simp only [texts_cons, List.length_append]
      omega

/-- They have fewer if one of the tokens lacks its text. -/
lemma Ordered.length_texts_lt {lo hi : Nat} {l : List Token} (h : Ordered lo l hi)
    (hr : ∀ t ∈ l, t.Regular) (hw : ∃ t ∈ l, t.isWhole = false) : lo + (texts l).length < hi := by
  induction l generalizing lo with
  | nil => simp at hw
  | cons t rest ih =>
      obtain ⟨h₁, h₂, h₃⟩ := h
      have hrest : ∀ u ∈ rest, u.Regular := fun u hu => hr u (by simp [hu])
      simp only [texts_cons, List.length_append]
      by_cases ht : t.isWhole = true
      · have := ih h₃ hrest (by simpa [ht] using hw)
        have := (hr t (by simp)).length_text_le
        omega
      · have := h₃.length_texts_le hrest
        rw [(hr t (by simp)).text_eq_nil (by simpa using ht), List.length_nil]
        omega

/-! ## Reading -/

/-- The tokens of a text that stands at `offset` fill the text. -/
theorem readFrom_tiles (d : Dialect) (offset : Nat) (t : Text) :
    Tiles offset (readFrom d offset t) (offset + t.length) := by
  fun_induction readFrom d offset t with
  | case1 offset => rfl
  | case2 offset b rest l ih =>
      have hle : l.length ≤ (b :: rest).length := Lexeme.length_read_le d (List.cons_ne_nil b rest)
      have hpos := Lexeme.length_read_pos d (b :: rest)
      have hend : offset + l.length + ((b :: rest).drop l.length).length =
          offset + (b :: rest).length := by
        rw [List.length_drop]
        omega
      rw [hend] at ih
      exact ⟨rfl, Nat.lt_add_of_pos_right hpos, ih⟩

theorem readFrom_ordered (d : Dialect) (offset : Nat) (t : Text) :
    Ordered offset (readFrom d offset t) (offset + t.length) :=
  (readFrom_tiles d offset t).ordered

/-- A token is the lexeme at the start of what has not been read before it. -/
lemma exists_cut_of_mem {d : Dialect} {offset : Nat} {t : Text} {u : Token}
    (h : u ∈ readFrom d offset t) :
    ∃ before rest, t = before ++ rest ∧ rest ≠ [] ∧
      u = cut (offset + before.length) rest (Lexeme.read d rest) := by
  fun_induction readFrom d offset t with
  | case1 offset => cases h
  | case2 offset b rest l ih =>
      rcases List.mem_cons.1 h with rfl | h
      · exact ⟨[], b :: rest, rfl, List.cons_ne_nil b rest, rfl⟩
      · obtain ⟨before, behind, hdrop, hne, hu⟩ := ih h
        have hle : l.length ≤ (b :: rest).length :=
          Lexeme.length_read_le d (List.cons_ne_nil b rest)
        refine ⟨(b :: rest).take l.length ++ before, behind, ?_, hne, ?_⟩
        · rw [List.append_assoc, ← hdrop, List.take_append_drop]
        · rw [hu, List.length_append, List.length_take, min_eq_left hle, Nat.add_assoc]

theorem readFrom_regular (d : Dialect) (offset : Nat) (t : Text) :
    ∀ u ∈ readFrom d offset t, u.Regular := by
  intro u hu
  obtain ⟨before, rest, -, hne, rfl⟩ := exists_cut_of_mem hu
  exact cut_regular d _ rest hne

/-- A token that has its text has all of it. -/
lemma text_cut_of_isWhole {offset : Nat} {t : Text} {l : Lexeme} (hl : 0 < l.length)
    (h : (cut offset t l).isWhole = true) : (cut offset t l).text = t.take l.length := by
  simp only [isWhole, cut] at h ⊢
  split at h
  · rename_i hb
    rw [if_pos hb]
  · simp at h
    omega

/-- If every token has its text, the texts make up the text that was read. -/
lemma texts_readFrom (d : Dialect) (offset : Nat) (t : Text)
    (hw : ∀ u ∈ readFrom d offset t, u.isWhole = true) : texts (readFrom d offset t) = t := by
  fun_induction readFrom d offset t with
  | case1 offset => rfl
  | case2 offset b rest l ih =>
      have hl : 0 < l.length := Lexeme.length_read_pos d (b :: rest)
      have hcut := hw _ (List.mem_cons_self ..)
      rw [texts_cons, ih fun u hu => hw u (List.mem_cons_of_mem _ hu), text_cut_of_isWhole hl hcut,
        List.take_append_drop]

/-- A spelled text is read without white space and comments, and every token has its text. -/
lemma readFrom_spelled (d : Dialect) (offset : Nat) {t : Text} (h : Lexeme.Spelled t) :
    ∀ u ∈ readFrom d offset t, u.isTrivia = false ∧ u.isWhole = true := by
  fun_induction readFrom d offset t with
  | case1 offset => simp
  | case2 offset b rest l ih =>
      have hle : l.length ≤ (b :: rest).length := Lexeme.length_read_le d (List.cons_ne_nil b rest)
      obtain ⟨hk, hdrop⟩ := Lexeme.spelled_drop_read d h (List.cons_ne_nil b rest)
      intro u hu
      rcases List.mem_cons.1 hu with rfl | hu
      · refine ⟨hk, ?_⟩
        have hboth : (Text.atBoundary (b :: rest) && Text.atBoundary ((b :: rest).drop l.length))
            = true := by
          rw [h.atBoundary, hdrop.atBoundary, Bool.and_self]
        simp only [isWhole, cut, if_pos hboth, List.length_take, beq_iff_eq]
        omega
      · exact ih hdrop u hu

/-! ## Significant tokens -/

lemma significant_append (a b : List Token) :
    significant (a ++ b) = significant a ++ significant b := by
  simp [significant]

lemma significant_cons {t : Token} (h : t.isTrivia = false) (l : List Token) :
    significant (t :: l) = t :: significant l :=
  List.filter_cons_of_pos (by simp [h])

lemma significant_cons_trivia {t : Token} (h : t.isTrivia = true) (l : List Token) :
    significant (t :: l) = significant l :=
  List.filter_cons_of_neg (by simp [h])

/-- White space and comments in front are not significant. -/
lemma significant_dropWhile (l : List Token) :
    significant (l.dropWhile Token.isTrivia) = significant l := by
  induction l with
  | nil => rfl
  | cons t l ih =>
      cases ht : t.isTrivia with
      | true => rw [List.dropWhile_cons_of_pos ht, ih, significant_cons_trivia ht]
      | false => rw [List.dropWhile_cons_of_neg (by simp [ht])]

lemma significant_eq_self {l : List Token} (h : ∀ t ∈ l, t.isTrivia = false) :
    significant l = l := by
  simpa [significant] using h

end Token

namespace Parser

open Token

/-! ## The tokens glued to a range -/

lemma gluedTo_isPrefix (stop : Nat) (l : List Token) : gluedTo stop l <+: l := by
  fun_induction gluedTo stop l with
  | case1 => exact List.nil_prefix
  | case2 stop t rest _ ih => exact (List.prefix_cons_inj t).2 ih
  | case3 => exact List.nil_prefix

lemma gluesToRange_of_mem {stop : Nat} {l : List Token} :
    ∀ t ∈ gluedTo stop l, gluesToRange t.kind = true := by
  fun_induction gluedTo stop l with
  | case1 => simp
  | case2 stop t rest h ih =>
      intro u hu
      rcases List.mem_cons.1 hu with rfl | hu
      · exact (Bool.and_eq_true_iff.1 h).1
      · exact ih u hu
  | case3 => simp

lemma isTrivia_of_gluesToRange {kind : TokenKind} (h : gluesToRange kind = true) :
    kind.isTrivia = false := by
  revert h
  cases kind <;> decide

lemma isSpelledKind_of_gluesToRange {kind : TokenKind} (h : gluesToRange kind = true) :
    Lexeme.isSpelledKind kind = true := by
  revert h
  cases kind <;> decide

lemma gluedTo_of_lt {stop lo hi : Nat} {l : List Token} (h : Ordered lo l hi) (hlt : stop < lo) :
    gluedTo stop (significant l) = [] := by
  induction l generalizing lo with
  | nil => rfl
  | cons t rest ih =>
      obtain ⟨h₁, h₂, h₃⟩ := h
      cases ht : t.isTrivia with
      | true =>
          rw [significant_cons_trivia ht]
          exact ih h₃ (by omega)
      | false =>
          rw [significant_cons ht, gluedTo, if_neg]
          simp only [Bool.and_eq_true, decide_eq_true_eq]
          omega

/-- Nothing is lost by looking at the significant tokens only: white space and comments leave a gap
behind them, so that what follows them is not glued. -/
lemma gluedTo_significant {stop hi : Nat} {l : List Token} (h : Ordered stop l hi) :
    gluedTo stop (significant l) = gluedTo stop l := by
  induction l generalizing stop with
  | nil => rfl
  | cons t rest ih =>
      obtain ⟨h₁, h₂, h₃⟩ := h
      cases ht : t.isTrivia with
      | true =>
          rw [significant_cons_trivia ht, gluedTo, if_neg]
          · exact gluedTo_of_lt h₃ (by omega)
          · intro hg
            rw [Token.isTrivia, isTrivia_of_gluesToRange (Bool.and_eq_true_iff.1 hg).1] at ht
            cases ht
      | false => rw [significant_cons ht, gluedTo, gluedTo, ih h₃]

end Parser

end StyleSheet
