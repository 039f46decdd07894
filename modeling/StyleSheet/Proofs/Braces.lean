import Mathlib
import StyleSheet.Proofs.Cuts
import StyleSheet.Proofs.Reading

/-!
# Braces

Three kinds of tokens open a group in braces, and one kind closes it. `Braces.climb` follows the
number of open groups along a row of kinds; it has a value exactly if no prefix of the row closes
more groups than are open (`climb_eq_some_iff`).

Whatever a rule reads, it passes braces on: those it yields and those still ahead are together the
ones that were ahead before (`Grammar.passes_of_yields`). Cutting a range of code points changes
nothing about that, because its pieces come from a spelled text and no brace is spelled.
-/

namespace StyleSheet

/-! ## Rows of braces -/

namespace TokenKind

/-- Whether a token of this kind opens a group in braces. -/
def opensBrace : TokenKind → Bool
  | .leftBrace | .hashBrace | .atBrace => true
  | _ => false

/-- Whether a token of this kind opens or closes a group in braces. -/
def isBrace (kind : TokenKind) : Bool := kind.opensBrace || kind == .rightBrace

end TokenKind

namespace Braces

open TokenKind

/-- The number of groups that are open behind a row of tokens, if `level` of them are open before
it. There is none if a brace closes a group that is not open. -/
def climb : Nat → List TokenKind → Option Nat
  | level, [] => some level
  | level, kind :: rest =>
    if kind.opensBrace then climb (level + 1) rest
    else if kind = .rightBrace then if level = 0 then none else climb (level - 1) rest
    else climb level rest

variable {level level' : Nat} {kind : TokenKind} {row row' : List TokenKind}

@[simp] lemma climb_nil : climb level [] = some level := rfl

lemma climb_cons_of_opens (h : kind.opensBrace = true) :
    climb level (kind :: row) = climb (level + 1) row := by
  rw [climb, if_pos h]

@[simp] lemma climb_zero_rightBrace : climb 0 (.rightBrace :: row) = none := rfl

@[simp] lemma climb_succ_rightBrace : climb (level + 1) (.rightBrace :: row) = climb level row :=
  rfl

lemma climb_cons_of_not_isBrace (h : kind.isBrace = false) :
    climb level (kind :: row) = climb level row := by
  simp only [isBrace, Bool.or_eq_false_iff, beq_eq_false_iff_ne] at h
  rw [climb, if_neg (by simp [h.1]), if_neg h.2]

/-- Whatever a kind does, it does so alone first. -/
lemma climb_cons (level : Nat) (kind : TokenKind) (row : List TokenKind) :
    climb level (kind :: row) = (climb level [kind]).bind (climb · row) := by
  simp only [climb]
  split
  · rfl
  · split
    · cases level <;> rfl
    · rfl

lemma climb_append (level : Nat) (row row' : List TokenKind) :
    climb level (row ++ row') = (climb level row).bind (climb · row') := by
  induction row generalizing level with
  | nil => rfl
  | cons kind row ih =>
      rw [List.cons_append, climb_cons, climb_cons level kind row, Option.bind_assoc]
      simp only [ih]

lemma climb_append_of_eq {level'' : Nat} (h : climb level row = some level')
    (h' : climb level' row' = some level'') : climb level (row ++ row') = some level'' := by
  rw [climb_append, h]
  exact h'

/-- Groups that are open around a row stay open. -/
lemma climb_add (h : climb level row = some level') (n : Nat) :
    climb (level + n) row = some (level' + n) := by
  induction row generalizing level with
  | nil =>
      obtain rfl : level = level' := by simpa using h
      rfl
  | cons kind row ih =>
      simp only [climb] at h ⊢
      split at h
      · rename_i hopens
        rw [if_pos hopens, Nat.add_right_comm]
        exact ih h
      · rename_i hopens
        rw [if_neg hopens]
        split at h
        · rename_i hcloses
          rw [if_pos hcloses]
          cases level with
          | zero => cases h
          | succ level =>
              rw [Nat.add_right_comm]
              exact ih h
        · rename_i hcloses
          rw [if_neg hcloses]
          exact ih h

/-- Only braces count. -/
lemma climb_filter (level : Nat) (row : List TokenKind) :
    climb level (row.filter isBrace) = climb level row := by
  induction row generalizing level with
  | nil => rfl
  | cons kind row ih =>
      cases h : kind.isBrace with
      | true =>
          rw [List.filter_cons_of_pos h, climb_cons, climb_cons level kind row]
          simp only [ih]
      | false => rw [List.filter_cons_of_neg (by simp [h]), climb_cons_of_not_isBrace h, ih]

/-- The number of open groups, counted: no prefix closes more groups than are open, and in the end
the openers are as many as the closers and the groups left open. -/
theorem climb_eq_some_iff : climb level row = some level' ↔
    (∀ front, front <+: row →
      front.count .rightBrace ≤ level + front.countP opensBrace) ∧
      level + row.countP opensBrace = level' + row.count .rightBrace := by
  induction row generalizing level with
  | nil => simp [eq_comm]
  | cons kind row ih =>
      have hfronts : ∀ P : List TokenKind → Prop, (∀ front, front <+: kind :: row → P front) ↔
          P [] ∧ ∀ front, front <+: row → P (kind :: front) := by
        intro P
        simp only [List.prefix_cons_iff]
        grind
      rw [hfronts, climb]
      split
      · rename_i hopens
        have hne : kind ≠ .rightBrace := by rintro rfl; cases hopens
        simp only [ih, List.count_nil, List.countP_nil, Nat.zero_le, true_and,
          List.count_cons_of_ne hne, List.countP_cons_of_pos hopens, Nat.add_right_comm,
          Nat.add_assoc]
      · rename_i hopens
        split
        · rename_i hcloses
          subst hcloses
          simp only [List.count_nil, List.countP_nil, Nat.zero_le, true_and, List.count_cons_self,
            List.countP_cons_of_neg hopens]
          cases level with
          | zero =>
              refine iff_of_false (by simp) fun h => ?_
              exact absurd (h.1 [] List.nil_prefix) (by simp)
          | succ level =>
              rw [if_neg (Nat.succ_ne_zero level), Nat.add_sub_cancel, ih]
              constructor <;> rintro ⟨hfront, hall⟩ <;> refine ⟨fun front h => ?_, by omega⟩ <;>
                have := hfront front h <;> omega
        · rename_i hcloses
          simp only [ih, List.count_nil, List.countP_nil, Nat.zero_le, true_and,
            List.count_cons_of_ne hcloses, List.countP_cons_of_neg hopens]

end Braces

/-! ## Pieces of ranges -/

namespace Lexeme

/-- Whether a token of this kind can be read from a spelled text. -/
def isPieceKind : TokenKind → Bool
  | .ident | .unicodeRange | .number | .dimension | .dot | .ellipsis | .plus | .minus | .unknown =>
      true
  | _ => false

lemma isPieceKind_of_mark : ∀ m ∈ marks, (∀ b ∈ m.1, isPlainByte b = true) →
    isPieceKind m.2 = true := by
  have hall : marks.all (fun m => !m.1.all isPlainByte || isPieceKind m.2) = true := by
    decide +kernel
  simpa only [List.all_eq_true, Bool.or_eq_true, Bool.not_eq_true', ← Bool.not_eq_true,
    ← imp_iff_not_or] using hall

lemma isPieceKind_simple (d : Dialect) {t : Text} (h : Spelled t) (ht : t ≠ []) :
    isPieceKind (simple d t).kind = true := by
  obtain ⟨b, rest, rfl⟩ := List.exists_cons_of_ne_nil ht
  obtain ⟨hblank, hquote, -, -, -, -, hsigil, hhash⟩ := h.head
  rcases simple_cases d (b :: rest) with hs | hs | hs | hs | hs | hs | hs | hs | hs | ⟨-, hs⟩
  · simp [blank?, ofLength?, runLength, hblank] at hs
  · simp [h.comment?_eq_none] at hs
  · simp [string?, hquote] at hs
  · simp [h.dashes?_eq_none] at hs
  · obtain ⟨hk, -⟩ := range?_cases hs
    rcases hk with hk | hk <;> rw [hk] <;> rfl
  · rw [eq_of_ofLength? hs]
    rfl
  · rw [eq_of_ofLength? hs]
    rfl
  · simp [sigil?, hsigil, hhash] at hs
  · obtain ⟨m, hm, hl⟩ := Option.map_eq_some_iff.1 hs
    have hmem := List.mem_of_find?_eq_some hm
    rw [← hl]
    exact isPieceKind_of_mark m hmem
      (h.plain_of_mark hmem (by simpa using List.find?_some hm)).1
  · rw [hs]
    rfl

lemma isPieceKind_read (d : Dialect) {t : Text} (h : Spelled t) (ht : t ≠ []) :
    isPieceKind (read d t).kind = true := by
  have hsimple := isPieceKind_simple d h ht
  obtain ⟨-, -, hdrop⟩ := spelled_drop_simple d h ht
  rcases read_cases d t with hr | ⟨-, hr⟩ | ⟨-, hr⟩
  · rw [hr]
    exact hsimple
  · -- A raw url goes on with a parenthesis, which is not spelled.
    exfalso
    unfold url? at hr
    split at hr
    · split at hr
      · cases hr
      · rename_i b rest hbehind
        rw [hbehind] at hdrop
        rw [if_neg (by simp [hdrop.head.2.2.2.2.2.1])] at hr
        cases hr
    · cases hr
  · rcases measure?_cases hr with ⟨hpercent, -⟩ | ⟨-, -, hl⟩
    · by_cases hne : t.drop (simple d t).length = []
      · rw [hne, kind_simple_nil] at hpercent
        cases hpercent
      · exact absurd hpercent (spelled_drop_simple d hdrop hne).2.1
    · rw [hl]
      rfl

end Lexeme

namespace Token

lemma isPieceKind_readFrom (d : Dialect) (offset : Nat) {t : Text} (h : Lexeme.Spelled t) :
    ∀ u ∈ readFrom d offset t, Lexeme.isPieceKind u.kind = true := by
  fun_induction readFrom d offset t with
  | case1 offset => simp
  | case2 offset b rest l ih =>
      intro u hu
      rcases List.mem_cons.1 hu with rfl | hu
      · exact Lexeme.isPieceKind_read d h (List.cons_ne_nil b rest)
      · exact ih (Lexeme.spelled_drop_read d h (List.cons_ne_nil b rest)).2 u hu

/-- The braces in a row of tokens. -/
def braces (tokens : List Token) : List TokenKind := (tokens.map kind).filter TokenKind.isBrace

@[simp] lemma braces_nil : braces [] = [] := rfl

@[simp] lemma braces_append (a b : List Token) : braces (a ++ b) = braces a ++ braces b := by
  simp [braces]

lemma braces_eq_nil {tokens : List Token} (h : ∀ t ∈ tokens, t.kind.isBrace = false) :
    braces tokens = [] := by
  simpa [braces, List.filter_eq_nil_iff] using h

end Token

lemma Lexeme.isBrace_of_isPieceKind {kind : TokenKind} (h : isPieceKind kind = true) :
    kind.isBrace = false := by
  revert h
  cases kind <;> decide

namespace Parser

open Token

variable {range : Token} {glued : List Token}

lemma Run.isPieceKind_pieces (d : Dialect) (h : Run range glued)
    (hr : ∀ t ∈ range :: glued, t.Regular) :
    ∀ t ∈ rangePieces d range glued, Lexeme.isPieceKind t.kind = true := by
  intro t ht
  simp only [rangePieces, List.mem_cons] at ht
  rcases ht with rfl | rfl | ht
  · rfl
  · rfl
  · exact isPieceKind_readFrom d _ (h.spelled_behind hr) t ht

lemma Run.isPieceKind_run (h : Run range glued) :
    ∀ t ∈ range :: glued, Lexeme.isPieceKind t.kind = true := by
  intro t ht
  rcases List.mem_cons.1 ht with rfl | ht
  · rw [h.kind]
    rfl
  · have hglues := h.glues t ht
    revert hglues
    cases t.kind <;> decide

end Parser

/-! ## Spots -/

namespace Yield

/-- The braces in order. -/
def braces (y : Yield) : List TokenKind := Token.braces y.tokens

@[simp] lemma braces_append (y z : Yield) : (y ++ z).braces = y.braces ++ z.braces := by
  simp [braces]

end Yield

namespace Spot

open Token

/-- A spot whose tokens ahead may be those of a source. -/
def Sound (s : Spot) : Prop := ∀ t ∈ s.ahead, t.Regular

lemma sound_ofTokens {hi : Nat} {tokens : List Token} (h : Row hi tokens) (last : Option Token)
    (length : Nat) : Sound ⟨last, significant tokens, length⟩ :=
  fun t ht => h.regular t (List.mem_of_mem_filter ht)

lemma Sound.kind_eq_end {s : Spot} (h : s.Sound) : s.view.kind 0 = .endOfInput ↔ s.ahead = [] := by
  rw [kind_view]
  cases hahead : s.ahead with
  | nil => simp
  | cons t rest => simpa using (h t (by simp [hahead])).kind_ne

lemma Sound.next {s : Spot} (h : s.Sound) : s.next.Sound := by
  cases hahead : s.ahead with
  | nil =>
      rw [next_of_nil hahead]
      exact h
  | cons t rest =>
      rw [next_of_cons hahead]
      exact fun u hu => h u (by simp [hahead, hu])

lemma cutAhead_cases (d : Dialect) (ahead : List Token) :
    cutAhead d ahead = ahead ∨
      ∃ range glued behind, ahead = range :: (glued ++ behind) ∧ Parser.Run range glued ∧
        cutAhead d ahead = Parser.rangePieces d range glued ++ behind := by
  cases ahead with
  | nil => exact .inl rfl
  | cons range rest =>
      by_cases hkind : range.kind = .unicodeRange
      · obtain ⟨behind, hrest⟩ := Parser.gluedTo_isPrefix range.stop rest
        refine .inr ⟨range, Parser.gluedTo range.stop rest, behind, by rw [hrest],
          ⟨hkind, Parser.gluesToRange_of_mem⟩, ?_⟩
        rw [cutAhead, if_pos hkind]
        exact congrArg (_ ++ ·) ((congrArg (List.drop _) hrest).symm.trans List.drop_left)
      · rw [cutAhead, if_neg hkind]
        exact .inl rfl

/-- What reading from one spot to another does with the tokens ahead. -/
structure Passes (s : Spot) (y : Yield) (s' : Spot) : Prop where
  /-- The tokens ahead stay those of a source. -/
  sound : s'.Sound
  /-- The source stays the same. -/
  length : s'.length = s.length
  /-- Braces are passed on. -/
  braces : Token.braces s.ahead = y.braces ++ Token.braces s'.ahead
  /-- At the end of the source nothing happens. -/
  idle : s.ahead = [] → s' = s ∧ y.tokens = []

lemma passes_cut (d : Dialect) {s : Spot} (h : s.Sound) : s.Passes .nil (s.cut d) := by
  rcases cutAhead_cases d s.ahead with hsame | ⟨range, glued, behind, hahead, hrun, hcut⟩
  · have hself : s.cut d = s := by rw [cut, hsame]
    rw [hself]
    exact ⟨h, rfl, rfl, fun _ => ⟨rfl, rfl⟩⟩
  · have hregular : ∀ t ∈ range :: glued, t.Regular := fun t ht => h t (by
      rw [hahead, ← List.cons_append]
      exact List.mem_append_left _ ht)
    refine ⟨?_, rfl, ?_, ?_⟩
    · intro t ht
      rw [cut, hcut] at ht
      rcases List.mem_append.1 ht with ht | ht
      · exact hrun.pieces_regular d hregular t ht
      · exact h t (by simp [hahead, ht])
    · have hold : Token.braces (range :: glued) = [] := braces_eq_nil fun t ht =>
        Lexeme.isBrace_of_isPieceKind (hrun.isPieceKind_run t ht)
      have hnew : Token.braces (Parser.rangePieces d range glued) = [] := braces_eq_nil fun t ht =>
        Lexeme.isBrace_of_isPieceKind (hrun.isPieceKind_pieces d hregular t ht)
      rw [cut, hcut, hahead, ← List.cons_append, braces_append, braces_append, hold, hnew]
      rfl
    · intro hnil
      simp [hahead] at hnil

lemma tracks_passes (d : Dialect) : Rule.Tracks d fun s y s' => s.Sound → s.Passes y s' where
  nil s h := ⟨h, rfl, rfl, fun _ => ⟨rfl, rfl⟩⟩
  append s s' s'' y z hy hz h := by
    have hy := hy h
    have hz := hz hy.sound
    refine ⟨hz.sound, hz.length.trans hy.length, ?_, ?_⟩
    · rw [hy.braces, hz.braces, Yield.braces_append, List.append_assoc]
    · intro hnil
      obtain ⟨rfl, hnone⟩ := hy.idle hnil
      obtain ⟨rfl, hnone'⟩ := hz.idle hnil
      exact ⟨rfl, by simp [hnone, hnone']⟩
  take s h := by
    cases hahead : s.ahead with
    | nil =>
        rw [taken_of_nil hahead, next_of_nil hahead]
        exact ⟨h, rfl, rfl, fun _ => ⟨rfl, rfl⟩⟩
    | cons t rest =>
        refine ⟨h.next, ?_, ?_, by simp [hahead]⟩
        · rw [next_of_cons hahead]
        · rw [taken_of_cons hahead, next_of_cons hahead, hahead]
          exact braces_append [t] rest
  fault s f h := ⟨h, rfl, rfl, fun _ => ⟨rfl, rfl⟩⟩
  cut s h := passes_cut d h
  node s s' kind y hy h := by
    have hy := hy h
    refine ⟨hy.sound, hy.length, ?_, ?_⟩
    · rw [hy.braces]
      simp [Yield.braces, Yield.tokens]
    · simpa [Yield.tokens] using hy.idle

end Spot

namespace Grammar

variable {d : Dialect} {depth : Nat} {s s' : Spot} {m : Bool} {y : Yield}

/-- Whatever a nonterminal reads, it passes braces on. -/
theorem passes_of_yields {name : Nonterminal} (hs : s.Sound) (h : Yields d depth name s m y s') :
    s.Passes y s' :=
  yields_reaches (Spot.tracks_passes d) h hs

lemma passes_of_reads {r : Rule} (hs : s.Sound)
    (h : Rule.Reads d (Yields d depth) (.rule r) s m y s') : s.Passes y s' :=
  h.reaches (Spot.tracks_passes d) (fun _ _ _ _ _ h hs => passes_of_yields hs h) hs

end Grammar

end StyleSheet
