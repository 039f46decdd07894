import Mathlib
import StyleSheet.Proofs.Tokens

/-!
# Cutting ranges of code points

A cut replaces a run of tokens, a range with what is glued to it, by the pieces that the run reads
as. The pieces are significant tokens and lie where the run lay, so a cut keeps a row of tokens in
order (`CutStep.row`), and on the significant tokens it is the same replacement at another index.
What `Parser.cutRange` does to the two lists by searching them is one such step (`cutRange_cases`).

The log of a parser is a `CutHistory`. Undoing the latest cuts of it one by one leads back to the
rows before them (`CutHistory.undo`), although the indices of each cut were only right at its
moment.
-/

namespace StyleSheet

open Token

namespace Token

/-- A row of tokens of a source with `hi` bytes. -/
structure Row (hi : Nat) (l : List Token) : Prop where
  /-- The tokens follow one another. -/
  ordered : Ordered 0 l hi
  /-- Each token is regular. -/
  regular : ∀ t ∈ l, t.Regular

theorem read_row (d : Dialect) (source : Text) : Row source.length (read d source) where
  ordered := by simpa [read] using readFrom_ordered d 0 source
  regular := readFrom_regular d 0 source

end Token

namespace Parser

/-! ## The pieces of a run -/

/-- A range of code points, and tokens that are cut together with it. -/
structure Run (range : Token) (glued : List Token) : Prop where
  /-- The first token is a range. -/
  kind : range.kind = .unicodeRange
  /-- The others can be glued to it. -/
  glues : ∀ t ∈ glued, gluesToRange t.kind = true

namespace Run

variable {range : Token} {glued : List Token}

lemma significant (h : Run range glued) : significant (range :: glued) = range :: glued := by
  apply significant_eq_self
  intro t ht
  rcases List.mem_cons.1 ht with rfl | ht
  · rw [isTrivia, h.kind]
    rfl
  · exact isTrivia_of_gluesToRange (h.glues t ht)

lemma spelled_texts (h : Run range glued) (hr : ∀ t ∈ range :: glued, t.Regular) :
    Lexeme.Spelled (texts (range :: glued)) := by
  apply Lexeme.Spelled.flatMap
  intro t ht
  apply (hr t ht).spelled
  rcases List.mem_cons.1 ht with rfl | ht
  · rw [h.kind]
    rfl
  · exact isSpelledKind_of_gluesToRange (h.glues t ht)

/-- If every token of the run has its text, the range has three bytes of it at least. -/
lemma length_text (h : Run range glued) (hr : range.Regular) (hw : range.isWhole = true) :
    3 ≤ range.text.length := by
  have := (hr.range h.kind).1
  simp only [isWhole, beq_iff_eq] at hw
  omega

/-- What is read anew is spelled. -/
lemma spelled_behind (h : Run range glued) (hr : ∀ t ∈ range :: glued, t.Regular) :
    Lexeme.Spelled ((runText (range :: glued)).drop 2) := by
  unfold runText
  split
  · rename_i hw
    have hrange := hr range (by simp)
    have hlen := h.length_text hrange (List.all_eq_true.1 hw range (by simp))
    refine (h.spelled_texts hr).drop_plain ?_
    rw [texts_cons, List.take_append_of_le_length (by omega)]
    exact fun b hb => (hrange.range h.kind).2 b (List.mem_of_mem_take hb)
  · exact .nil

/-- No piece is white space or a comment. -/
theorem pieces_significant (d : Dialect) (h : Run range glued)
    (hr : ∀ t ∈ range :: glued, t.Regular) :
    ∀ t ∈ rangePieces d range glued, t.isTrivia = false := by
  intro t ht
  simp only [rangePieces, List.mem_cons] at ht
  rcases ht with rfl | rfl | ht
  · rfl
  · rfl
  · exact (readFrom_spelled d _ (h.spelled_behind hr) t ht).1

lemma pieces_regular (d : Dialect) (h : Run range glued) (hr : ∀ t ∈ range :: glued, t.Regular) :
    ∀ t ∈ rangePieces d range glued, t.Regular := by
  have hrange := hr range (by simp)
  intro t ht
  simp only [rangePieces, List.mem_cons] at ht
  rcases ht with rfl | rfl | ht
  · refine ⟨by simp, ?_, fun _ => ?_, by simp⟩
    · cases range.text <;> simp
    · exact Lexeme.Plain.spelled fun b hb => (hrange.range h.kind).2 b (List.mem_of_mem_take hb)
  · refine ⟨by simp, ?_, by simp [Lexeme.isSpelledKind], by simp⟩
    rcases hrange.text_or with htext | htext
    · simp [htext]
    · have := (hrange.range h.kind).1
      right
      simp only [List.length_take, List.length_drop]
      omega
  · exact readFrom_regular d _ _ t ht

/-- The pieces lie where the run lay. -/
lemma pieces_ordered (d : Dialect) {lo hi : Nat} (h : Run range glued)
    (hr : ∀ t ∈ range :: glued, t.Regular) (ho : Ordered lo (range :: glued) hi) :
    Ordered lo (rangePieces d range glued) hi := by
  have hrange := (hr range (by simp)).range h.kind
  have hlen := Ordered.length_texts_le (l := range :: glued) ⟨le_refl _, ho.2⟩ hr
  have hhi := (ho.mem (List.mem_cons_self ..)).2.2
  refine ⟨ho.1, Nat.lt_succ_self _, le_refl _, Nat.lt_succ_self _, ?_⟩
  refine (readFrom_ordered d _ _).upper ?_
  dsimp only
  unfold runText
  split
  · rw [List.length_drop, ← texts]
    omega
  · simp only [List.drop_nil, List.length_nil]
    omega

/-- If every token of the run has its text, so has every piece, and the texts are the same. -/
lemma texts_pieces (d : Dialect) (h : Run range glued) (hr : ∀ t ∈ range :: glued, t.Regular)
    (hw : ∀ t ∈ range :: glued, t.isWhole = true) :
    (∀ t ∈ rangePieces d range glued, t.isWhole = true) ∧
      texts (rangePieces d range glued) = texts (range :: glued) := by
  have hlen := h.length_text (hr range (by simp)) (hw range (by simp))
  have hbehind := readFrom_spelled d (range.start + 2) (h.spelled_behind hr)
  constructor
  · intro t ht
    simp only [rangePieces, List.mem_cons] at ht
    rcases ht with rfl | rfl | ht
    · simp only [isWhole, List.length_take, beq_iff_eq]
      omega
    · simp only [isWhole, List.length_take, List.length_drop, beq_iff_eq]
      omega
    · exact (hbehind t ht).2
  · have hrun : runText (range :: glued) = texts (range :: glued) := by
      rw [runText, if_pos (List.all_eq_true.2 hw)]
      rfl
    simp only [rangePieces, texts_cons]
    rw [texts_readFrom d _ _ fun t ht => (hbehind t ht).2, hrun, texts_cons, ← List.append_assoc,
      ← List.take_add, List.drop_append_of_le_length (by omega), ← List.append_assoc,
      List.take_append_drop]

/-- The pieces never have more text than the run. -/
lemma length_texts_pieces (d : Dialect) (h : Run range glued)
    (hr : ∀ t ∈ range :: glued, t.Regular) :
    (texts (rangePieces d range glued)).length ≤ (texts (range :: glued)).length := by
  by_cases hw : ∀ t ∈ range :: glued, t.isWhole = true
  · rw [(h.texts_pieces d hr hw).2]
  · -- A token of the run lacks its text, and then nothing is read behind the first two pieces.
    have hrun : runText (range :: glued) = [] := by
      rw [runText, if_neg]
      rwa [List.all_eq_true]
    simp only [rangePieces, hrun, texts_cons, List.drop_nil, readFrom, texts_nil,
      List.length_append, List.length_take, List.length_drop, List.length_nil]
    omega

end Run

lemma mem_run {before run behind : List Token} {t : Token} (ht : t ∈ run) :
    t ∈ before ++ run ++ behind :=
  List.mem_append_left _ (List.mem_append_right _ ht)

/-! ## One cut -/

/-- One cut of a row, with the entry of the log that describes it. -/
inductive CutStep (d : Dialect) : List Token → Cut → List Token → Prop
  | mk (before : List Token) (range : Token) (glued behind : List Token) (h : Run range glued) :
      CutStep d (before ++ (range :: glued) ++ behind)
        ⟨(significant before).length, before.length, (rangePieces d range glued).length,
          range :: glued⟩
        (before ++ rangePieces d range glued ++ behind)

namespace CutStep

variable {d : Dialect} {hi : Nat} {a b : List Token} {c : Cut}

/-- A cut keeps a row a row. -/
theorem row (h : CutStep d a c b) (ha : Row hi a) : Row hi b := by
  obtain ⟨before, range, glued, behind, hrun⟩ := h
  have hr : ∀ t ∈ range :: glued, t.Regular := fun t ht => ha.regular t (mem_run ht)
  constructor
  · obtain ⟨m₂, h₁₂, h₃⟩ := ordered_append.1 ha.ordered
    obtain ⟨m₁, h₁, h₂⟩ := ordered_append.1 h₁₂
    exact ordered_append.2 ⟨m₂, ordered_append.2 ⟨m₁, h₁, hrun.pieces_ordered d hr h₂⟩, h₃⟩
  · intro t ht
    simp only [List.mem_append] at ht
    rcases ht with (ht | ht) | ht
    · exact ha.regular t (by simp [ht])
    · exact hrun.pieces_regular d hr t ht
    · exact ha.regular t (by simp [ht])

/-- A cut of a row whose tokens all have their texts keeps the texts. -/
lemma texts_eq (h : CutStep d a c b) (ha : Row hi a) (hw : ∀ t ∈ a, t.isWhole = true) :
    (∀ t ∈ b, t.isWhole = true) ∧ texts b = texts a := by
  obtain ⟨before, range, glued, behind, hrun⟩ := h
  obtain ⟨hpieces, htexts⟩ := hrun.texts_pieces d
    (fun t ht => ha.regular t (mem_run ht))
    (fun t ht => hw t (mem_run ht))
  constructor
  · intro t ht
    simp only [List.mem_append] at ht
    rcases ht with (ht | ht) | ht
    · exact hw t (by simp [ht])
    · exact hpieces t ht
    · exact hw t (by simp [ht])
  · simp only [texts_append, htexts]

/-- A cut never adds text. -/
lemma length_texts_le (h : CutStep d a c b) (ha : Row hi a) :
    (texts b).length ≤ (texts a).length := by
  obtain ⟨before, range, glued, behind, hrun⟩ := h
  have := hrun.length_texts_pieces d fun t ht => ha.regular t (mem_run ht)
  simp only [texts_append, List.length_append]
  omega

/-- The entry of the log determines the cut. -/
lemma unique {b' : List Token} (h : CutStep d a c b) (h' : CutStep d a c b') : b = b' := by
  obtain ⟨before, range, glued, behind, -⟩ := h
  generalize hrow : before ++ range :: glued ++ behind = row at h'
  generalize hcut : Cut.mk _ _ _ _ = cut at h'
  obtain ⟨before', range', glued', behind', -⟩ := h'
  obtain ⟨-, hlength, -, hrun⟩ := Cut.mk.inj hcut
  obtain ⟨rfl, rfl⟩ := List.cons.inj hrun
  obtain ⟨hfront, rfl⟩ := List.append_inj hrow (by simp [hlength])
  obtain ⟨rfl, -⟩ := List.append_inj hfront hlength
  rfl

/-- The tokens before the cursor stay where they are. -/
lemma cursor_le (h : CutStep d a c b) : c.cursor ≤ (significant b).length := by
  obtain ⟨before, range, glued, behind, -⟩ := h
  simp only [significant_append, List.length_append]
  omega

end CutStep

/-! ## Histories of cuts -/

/-- The cuts, the latest one first, lead from the first row to the second one. -/
inductive CutHistory (d : Dialect) : List Token → List Cut → List Token → Prop
  | nil (a : List Token) : CutHistory d a [] a
  | cons {a b e : List Token} {c : Cut} {cuts : List Cut} :
      CutHistory d a cuts b → CutStep d b c e → CutHistory d a (c :: cuts) e

namespace CutHistory

variable {d : Dialect} {hi : Nat} {a b e : List Token} {cuts new : List Cut}

lemma trans (h : CutHistory d a cuts b) (hnew : CutHistory d b new e) :
    CutHistory d a (new ++ cuts) e := by
  induction hnew with
  | nil => exact h
  | cons _ hstep ih => exact .cons ih hstep

/-- A history can be divided at any of its cuts. -/
lemma split (h : CutHistory d a (new ++ cuts) e) :
    ∃ b, CutHistory d a cuts b ∧ CutHistory d b new e := by
  induction new generalizing e with
  | nil => exact ⟨e, h, .nil e⟩
  | cons c new ih =>
      cases h with
      | cons hrest hstep =>
          obtain ⟨b, hb, hnew⟩ := ih hrest
          exact ⟨b, hb, .cons hnew hstep⟩

lemma unique (h : CutHistory d a cuts b) (h' : CutHistory d a cuts e) : b = e := by
  induction h generalizing e with
  | nil =>
      cases h'
      rfl
  | cons _ hstep ih =>
      cases h' with
      | cons hrest' hstep' =>
          rw [← ih hrest'] at hstep'
          exact hstep.unique hstep'

theorem row (h : CutHistory d a cuts b) (ha : Row hi a) : Row hi b := by
  induction h with
  | nil => exact ha
  | cons _ hstep ih => exact hstep.row ih

theorem texts_eq (h : CutHistory d a cuts b) (ha : Row hi a) (hw : ∀ t ∈ a, t.isWhole = true) :
    (∀ t ∈ b, t.isWhole = true) ∧ texts b = texts a := by
  induction h with
  | nil => exact ⟨hw, rfl⟩
  | cons hrest hstep ih =>
      obtain ⟨hb, htexts⟩ := ih
      obtain ⟨he, htexts'⟩ := hstep.texts_eq (hrest.row ha) hb
      exact ⟨he, htexts'.trans htexts⟩

theorem length_texts_le (h : CutHistory d a cuts b) (ha : Row hi a) :
    (texts b).length ≤ (texts a).length := by
  induction h with
  | nil => exact le_refl _
  | cons hrest hstep ih => exact (hstep.length_texts_le (hrest.row ha)).trans ih

end CutHistory

/-! ## The two lists of a parser -/

lemma splice_eq {α : Type} {xs : Array α} {a b c : List α} (h : xs.toList = a ++ b ++ c)
    (parts : List α) : splice xs a.length b.length parts = (a ++ parts ++ c).toArray := by
  apply Array.ext'
  have hlen : xs.size = a.length + b.length + c.length := by
    rw [← Array.length_toList, h, List.length_append, List.length_append]
  rw [List.append_assoc] at h
  have hdrop : a.drop (a.length + b.length) = [] := List.drop_eq_nil_of_le (by omega)
  simp [splice, h, hlen, List.extract_eq_take_drop, List.drop_append, hdrop]

/-- The parser with another row of tokens. -/
def withRow (p : Parser) (tokens : List Token) : Parser :=
  { p with
    tokens := tokens.toArray
    stream := { p.stream with tokens := (significant tokens).toArray } }

/-- The stream of a parser holds the significant tokens of its row. -/
structure Aligned (hi : Nat) (p : Parser) : Prop where
  /-- All tokens. -/
  row : Row hi p.tokens.toList
  /-- The significant ones. -/
  stream : p.stream.tokens.toList = significant p.tokens.toList

/-- Undoing a cut restores both lists. -/
lemma CutStep.undo {d : Dialect} {hi : Nat} {a b : List Token} {c : Cut} (h : CutStep d a c b)
    (ha : Row hi a) {p : Parser} (hp : p.tokens.toList = b)
    (hs : p.stream.tokens.toList = significant b) :
    p.undoCut c = { p.withRow a with cuts := p.cuts.drop 1 } := by
  obtain ⟨before, range, glued, behind, hrun⟩ := h
  have hpieces := significant_eq_self
    (hrun.pieces_significant d fun t ht => ha.regular t (mem_run ht))
  rw [significant_append, significant_append, hpieces] at hs
  simp only [undoCut, withRow, splice_eq hp, splice_eq hs, significant_append, hrun.significant]

/-- Undoing the cuts of a history, the latest one first, leads back to its first row. -/
theorem CutHistory.undo {d : Dialect} {hi : Nat} {a b : List Token} {new : List Cut}
    (h : CutHistory d a new b) (ha : Row hi a) {p : Parser} {old : List Cut}
    (hcuts : p.cuts = new ++ old) (hp : p.tokens.toList = b)
    (hs : p.stream.tokens.toList = significant b) :
    new.foldl undoCut p = { p.withRow a with cuts := old } := by
  induction h generalizing p with
  | nil =>
      have htokens : a.toArray = p.tokens := by rw [← hp]
      have hstream : (significant a).toArray = p.stream.tokens := by rw [← hs]
      rw [List.nil_append] at hcuts
      rw [List.foldl_nil, withRow, htokens, hstream, ← hcuts]
  | cons hrest hstep ih =>
      rw [List.foldl_cons, hstep.undo (hrest.row ha) hp hs, ih (by simp [hcuts]) rfl rfl]
      rfl

/-- The token at the cursor, seen in both lists. -/
lemma Aligned.peek? {hi : Nat} {p : Parser} (h : Aligned hi p) {t : Token}
    (ht : p.stream.peek? 0 = some t) :
    ∃ before behind, p.tokens.toList = before ++ t :: behind ∧ t.isTrivia = false ∧
      (significant before).length = p.stream.cursor ∧
      p.stream.tokens.toList.drop (p.stream.cursor + 1) = significant behind := by
  have hget : p.stream.tokens.toList[p.stream.cursor]? = some t := by
    simpa [Stream.peek?] using ht
  obtain ⟨hlt, hget⟩ := List.getElem?_eq_some_iff.1 hget
  have hsplit : significant p.tokens.toList =
      p.stream.tokens.toList.take p.stream.cursor ++
        t :: p.stream.tokens.toList.drop (p.stream.cursor + 1) := by
    rw [← h.stream, ← hget, ← List.drop_eq_getElem_cons hlt, List.take_append_drop]
  -- White space and comments may stand between the tokens taken and the next one.
  obtain ⟨before, rest, hrow, hbefore, hrest⟩ := List.filter_eq_append_iff.1 hsplit
  obtain ⟨trivia, behind, rfl, htrivia, hkind, hbehind⟩ := List.filter_eq_cons_iff.1 hrest
  refine ⟨before ++ trivia, behind, by simp [hrow], by simpa using hkind, ?_, hbehind.symm⟩
  rw [significant_append, significant, hbefore, significant, List.filter_eq_nil_iff.2 htrivia,
    List.append_nil, List.length_take]
  omega

/-- Searching a row for an offset finds the place where the tokens behind that offset begin. -/
lemma size_takeWhile {hi offset : Nat} {xs : Array Token} {a b : List Token}
    (h : xs.toList = a ++ b) (ha : ∀ t ∈ a, t.start < offset) (hb : Ordered offset b hi) :
    (xs.takeWhile fun t => t.start < offset).size = a.length := by
  rw [← Array.length_toList, Array.toList_takeWhile, h,
    List.takeWhile_append_of_pos (by simpa using ha)]
  cases b with
  | nil => simp
  | cons t rest =>
      have := hb.1
      rw [List.takeWhile_cons_of_neg (by simpa using this), List.append_nil]

/-- A row can be divided where the last token of its first part ends. -/
lemma ordered_stop {hi : Nat} {t : Token} {a b : List Token} (h : Ordered t.stop (a ++ b) hi) :
    let stop := (a.getLast?.map Token.stop).getD t.stop
    Ordered t.stop a stop ∧ Ordered stop b hi := by
  induction a generalizing t with
  | nil => exact ⟨le_refl t.stop, h⟩
  | cons u rest ih =>
      have hlast : ((u :: rest).getLast?.map Token.stop).getD t.stop =
          (rest.getLast?.map Token.stop).getD u.stop := by
        cases h : rest.getLast? <;> simp [List.getLast?_cons, h]
      obtain ⟨h₁, h₂, h₃⟩ := h
      rw [hlast]
      exact ⟨⟨h₁, h₂, (ih h₃).1⟩, (ih h₃).2⟩

/-- The run at the cursor, and the ends of it that are found by searching the row. -/
lemma Aligned.run {hi : Nat} {p : Parser} (h : Aligned hi p) {range : Token}
    (hpeek : p.stream.peek? 0 = some range) (hkind : range.kind = .unicodeRange) :
    let glued := gluedTo range.stop (p.stream.tokens.toList.drop (p.stream.cursor + 1))
    let stop := (glued.getLast?.map Token.stop).getD range.stop
    ∃ before behind, Run range glued ∧ p.tokens.toList = before ++ (range :: glued) ++ behind ∧
      (significant before).length = p.stream.cursor ∧
      (p.tokens.takeWhile fun t => t.start < range.start).size = before.length ∧
      (p.tokens.takeWhile fun t => t.start < stop).size = (before ++ range :: glued).length := by
  intro glued stop
  obtain ⟨before, rest, hrow, -, hcursor, hdrop⟩ := h.peek? hpeek
  obtain ⟨m, hbefore, hstart, hlt, hrest⟩ := ordered_append.1 (hrow ▸ h.row.ordered)
  -- The glued tokens touch each other, so they also stand side by side in the row of all tokens.
  obtain ⟨behind, rfl⟩ : glued <+: rest := by
    simp only [glued, hdrop, gluedTo_significant hrest]
    exact gluedTo_isPrefix range.stop rest
  obtain ⟨hinside, hbehind⟩ := ordered_stop hrest
  refine ⟨before, behind, ⟨hkind, gluesToRange_of_mem⟩, by simpa using hrow, hcursor, ?_, ?_⟩
  · refine size_takeWhile hrow (fun t ht => ?_) ⟨le_refl _, hlt, hrest⟩
    have := hbefore.mem ht
    omega
  · refine size_takeWhile (b := behind) (by simpa using hrow) (fun t ht => ?_) hbehind
    have hle : range.stop ≤ stop := hinside.le
    simp only [List.mem_append, List.mem_cons] at ht
    rcases ht with ht | rfl | ht
    · have := hbefore.mem ht
      omega
    · omega
    · have : t.start < t.stop ∧ t.stop ≤ stop := (hinside.mem ht).2
      omega

/-- What is cut is the run at the cursor, and both lists change by the same step. Without a range at
the cursor nothing changes. -/
theorem cutRange_cases {hi : Nat} {p : Parser} (h : Aligned hi p) :
    (p.cutRange = p ∧ p.stream.kindAt 0 ≠ .unicodeRange) ∨
      ∃ c row, CutStep p.dialect p.tokens.toList c row ∧
      c.cursor = p.stream.cursor ∧ p.cutRange = { p.withRow row with cuts := c :: p.cuts } := by
  unfold cutRange
  split
  · rename_i hpeek
    exact Or.inl ⟨rfl, by simp [Stream.kindAt, hpeek]⟩
  · rename_i range hpeek
    split
    · rename_i hkind
      obtain ⟨before, behind, hrun, hrow, hcursor, hfirst, hlast⟩ := h.run hpeek hkind
      set glued := gluedTo range.stop (p.stream.tokens.toList.drop (p.stream.cursor + 1))
      have hpieces := significant_eq_self (hrun.pieces_significant p.dialect fun t ht =>
        h.row.regular t (by rw [hrow]; exact mem_run ht))
      have hstream : p.stream.tokens.toList =
          significant before ++ (range :: glued) ++ significant behind := by
        rw [h.stream, hrow, significant_append, significant_append, hrun.significant]
      -- The number of tokens to replace is the difference of the two places found.
      have hlength : (before ++ range :: glued).length - before.length =
          (range :: glued).length := by
        simp
      refine Or.inr ⟨_, _, hrow ▸ CutStep.mk before range glued behind hrun, hcursor, ?_⟩
      dsimp only
      rw [hfirst, hlast, hlength, splice_eq hrow, ← hcursor, ← List.length_cons (a := range),
        splice_eq hstream]
      simp only [withRow, significant_append, hpieces, hcursor]
    · rename_i hkind
      exact Or.inl ⟨rfl, by simpa [Stream.kindAt, hpeek] using hkind⟩

end Parser

end StyleSheet
