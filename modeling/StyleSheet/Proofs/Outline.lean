import Mathlib
import StyleSheet.Proofs.Building
import StyleSheet.Proofs.Tiling

/-!
# The outline of a row of tokens

The grammar sees the significant tokens by their kinds and texts, and whether there is a gap between
two of them. This is their `outline`; what white space and comments make up a gap, and at which
offsets the tokens stand, is not a part of it. A gap is a difference of two offsets; in a row that
fills its source it means that white space or a comment stands there (`outline_significant`).

A cut computes new tokens from the texts of old ones. Where all tokens have their texts the outline
before a cut determines the outline after it (`outline_cut`).
-/

namespace StyleSheet

namespace Token

/-! ## Outlines -/

/-- Where the first token of a row starts; the end of the source if there is none. -/
def startOf (hi : Nat) : List Token → Nat
  | [] => hi
  | t :: _ => t.start

/-- Each token of a row as a leaf, and whether there is a gap behind it. -/
def outline (hi : Nat) : List Token → List (Leaf × Bool)
  | [] => []
  | t :: rest => (t.leaf, decide (t.stop < startOf hi rest)) :: outline hi rest

variable {hi hi' : Nat} {l l' : List Token}

lemma startOf_append (hi : Nat) (a b : List Token) :
    startOf hi (a ++ b) = startOf (startOf hi b) a := by
  cases a with
  | nil => rfl
  | cons t rest => rfl

lemma outline_append (hi : Nat) (a b : List Token) :
    outline hi (a ++ b) = outline (startOf hi b) a ++ outline hi b := by
  induction a with
  | nil => rfl
  | cons t rest ih => rw [List.cons_append, outline, ih, startOf_append, outline, List.cons_append]

@[simp] lemma length_outline (hi : Nat) (l : List Token) : (outline hi l).length = l.length := by
  induction l with
  | nil => rfl
  | cons t rest ih => rw [outline, List.length_cons, ih, List.length_cons]

lemma map_fst_outline (hi : Nat) (l : List Token) :
    (outline hi l).map Prod.fst = l.map Token.leaf := by
  induction l with
  | nil => rfl
  | cons t rest ih => rw [outline, List.map_cons, ih, List.map_cons]

lemma getElem?_outline (hi : Nat) (l : List Token) (i : Nat) :
    (outline hi l)[i]? =
      l[i]?.map fun t => (t.leaf, decide (t.stop < startOf hi (l.drop (i + 1)))) := by
  induction l generalizing i with
  | nil => rfl
  | cons t rest ih =>
      cases i with
      | zero => rfl
      | succ i => simpa [outline] using ih i

lemma leaves_eq (h : outline hi l = outline hi' l') : l.map Token.leaf = l'.map Token.leaf := by
  rw [← map_fst_outline hi, h, map_fst_outline]

lemma length_eq (h : outline hi l = outline hi' l') : l.length = l'.length := by
  rw [← length_outline hi, h, length_outline]

/-- Two rows with the same outline can be divided at the same place. -/
lemma outline_split {a a' b b' : List Token} (hlength : a.length = a'.length)
    (h : outline hi (a ++ b) = outline hi' (a' ++ b')) :
    outline (startOf hi b) a = outline (startOf hi' b') a' ∧ outline hi b = outline hi' b' := by
  rw [outline_append, outline_append] at h
  exact List.append_inj h (by simpa using hlength)

lemma texts_eq_flatMap (l : List Token) : texts l = (l.map Token.leaf).flatMap Leaf.text := by
  rw [List.flatMap_map]
  rfl

/-! ## Gaps in a row that fills its source -/

/-- For each significant token of a row, whether white space or a comment follows it. -/
def gaps : List Token → List Bool
  | [] => []
  | t :: rest => if t.isTrivia then gaps rest else rest.head?.any isTrivia :: gaps rest

lemma Ordered.le_startOf {lo : Nat} (h : Ordered lo l hi) : lo ≤ startOf hi l := by
  cases l with
  | nil => exact h
  | cons t rest => exact h.1

/-- In a row that fills its source, there is a gap where white space or a comment follows. -/
lemma lt_startOf_iff {lo : Nat} (h : Tiles lo l hi) :
    lo < startOf hi (significant l) ↔ l.head?.any isTrivia = true := by
  cases l with
  | nil =>
      have heq : lo = hi := h
      simp [significant, startOf, heq]
  | cons t rest =>
      obtain ⟨hstart, hlt, hrest⟩ := h
      cases ht : t.isTrivia with
      | true =>
          have hle := (Parser.ordered_significant hrest.ordered).le_startOf
          rw [significant_cons_trivia ht]
          simp only [List.head?_cons, Option.any_some, ht, iff_true]
          omega
      | false =>
          rw [significant_cons ht]
          simp [startOf, hstart, ht]

/-- The outline of the significant tokens of a row that fills its source. -/
lemma outline_significant {lo : Nat} (h : Tiles lo l hi) :
    outline hi (significant l) = ((significant l).map Token.leaf).zip (gaps l) := by
  induction l generalizing lo with
  | nil => rfl
  | cons t rest ih =>
      have hrest := ih h.2.2
      cases ht : t.isTrivia with
      | true =>
          rw [significant_cons_trivia ht, gaps, if_pos ht]
          exact hrest
      | false =>
          have hgap : decide (t.stop < startOf hi (significant rest)) =
              rest.head?.any isTrivia := by
            rw [Bool.eq_iff_iff, decide_eq_true_iff]
            exact lt_startOf_iff h.2.2
          rw [significant_cons ht, gaps, if_neg (by simp [ht]), outline, hgap, hrest]
          rfl

/-! ## Runs without gaps -/

namespace Tiles

variable {lo lo' stop stop' : Nat}

/-- If all tokens have their texts, the texts fill the space. -/
lemma length_texts (h : Tiles lo l hi) (hw : ∀ t ∈ l, t.isWhole = true) :
    lo + (texts l).length = hi := by
  induction l generalizing lo with
  | nil => exact h
  | cons t rest ih =>
      obtain ⟨hstart, hlt, hrest⟩ := h
      have hlength : t.text.length = t.stop - t.start := by simpa [isWhole] using hw t (by simp)
      have := ih hrest fun u hu => hw u (by simp [hu])
      rw [texts_cons, List.length_append]
      omega

/-- The outline of a run without gaps says whether there is a gap behind the run. -/
lemma lt_iff {t t' : Token} (h : Tiles lo (t :: l) stop) (h' : Tiles lo' (t' :: l') stop')
    (heq : outline hi (t :: l) = outline hi' (t' :: l')) : stop < hi ↔ stop' < hi' := by
  obtain ⟨hhead, htail⟩ := List.cons.inj heq
  induction l generalizing lo lo' t t' l' with
  | nil =>
      obtain rfl : l' = [] := List.length_eq_zero_iff.1 (length_eq htail).symm
      have hstop : t.stop = stop := h.2.2
      have hstop' : t'.stop = stop' := h'.2.2
      simpa [startOf, hstop, hstop'] using (Prod.mk.inj hhead).2
  | cons u l ih =>
      rcases l' with _ | ⟨u', l'⟩
      · exact absurd (length_eq htail) (by simp)
      · obtain ⟨hhead', htail'⟩ := List.cons.inj htail
        exact ih h.2.2 h'.2.2 htail hhead' htail'

/-- The outline of a run without gaps is given by its leaves and by whether there is a gap behind
it. -/
lemma outline_eq (h : Tiles lo l stop) (h' : Tiles lo' l' stop')
    (hleaves : l.map Token.leaf = l'.map Token.leaf) (hgap : stop < hi ↔ stop' < hi') :
    outline hi l = outline hi' l' := by
  induction l generalizing lo lo' l' with
  | nil =>
      obtain rfl : l' = [] := by simpa using hleaves.symm
      rfl
  | cons t l ih =>
      rcases l' with _ | ⟨t', l'⟩
      · cases hleaves
      obtain ⟨hleaf, hrest⟩ := List.cons.inj hleaves
      rw [outline, outline, ih h.2.2 h'.2.2 hrest, hleaf]
      congr 2
      rw [decide_eq_decide]
      cases l with
      | nil =>
          obtain rfl : l' = [] := by simpa using hrest.symm
          have hstop : t.stop = stop := h.2.2
          have hstop' : t'.stop = stop' := h'.2.2
          simpa [startOf, hstop, hstop'] using hgap
      | cons u l =>
          rcases l' with _ | ⟨u', l'⟩
          · cases hrest
          have hstart : u.start = t.stop := h.2.2.1
          have hstart' : u'.start = t'.stop := h'.2.2.1
          simp [startOf, hstart, hstart']

end Tiles

/-- What a text reads as does not depend on where it stands. -/
lemma leaves_readFrom (d : Dialect) (offset offset' : Nat) (t : Text) :
    (readFrom d offset t).map Token.leaf = (readFrom d offset' t).map Token.leaf := by
  fun_induction readFrom d offset t generalizing offset' with
  | case1 offset => simp [readFrom]
  | case2 offset b rest l ih =>
      rw [readFrom, List.map_cons, List.map_cons, ih (offset' + l.length)]
      rfl

end Token

open Token

namespace Parser

variable {hi hi' : Nat}

/-! ## Outlines and cuts -/

/-- The tokens glued to a range stand side by side. -/
lemma gluedTo_tiles {stop : Nat} {l : List Token} (h : Ordered stop l hi) :
    ∃ stop', Tiles stop (gluedTo stop l) stop' := by
  fun_induction gluedTo stop l with
  | case1 stop => exact ⟨stop, rfl⟩
  | case2 stop t rest hglued ih =>
      obtain ⟨stop', hrest⟩ := ih h.2.2
      have hle : t.start ≤ stop := by
        simpa using (Bool.and_eq_true_iff.1 hglued).2
      exact ⟨stop', Nat.le_antisymm hle h.1, h.2.1, hrest⟩
  | case3 stop => exact ⟨stop, rfl⟩

/-- The outline determines how many tokens are glued to a range. -/
lemma length_gluedTo {t t' : Token} {l l' : List Token}
    (h : outline hi (t :: l) = outline hi' (t' :: l')) :
    (gluedTo t.stop l).length = (gluedTo t'.stop l').length := by
  obtain ⟨hhead, htail⟩ := List.cons.inj h
  induction l generalizing t t' l' with
  | nil =>
      obtain rfl : l' = [] := List.length_eq_zero_iff.1 (length_eq htail).symm
      rfl
  | cons u l ih =>
      rcases l' with _ | ⟨u', l'⟩
      · exact absurd (length_eq htail) (by simp)
      obtain ⟨hhead', htail'⟩ := List.cons.inj htail
      have hkind : u.kind = u'.kind := congrArg Leaf.kind (Prod.mk.inj hhead').1
      have hgap : t.stop < u.start ↔ t'.stop < u'.start := by
        exact decide_eq_decide.1 (Prod.mk.inj hhead).2
      have hglued : (gluesToRange u.kind && decide (u.start ≤ t.stop)) =
          (gluesToRange u'.kind && decide (u'.start ≤ t'.stop)) := by
        rw [hkind, decide_eq_decide.2 (by omega : u.start ≤ t.stop ↔ u'.start ≤ t'.stop)]
      rw [gluedTo, gluedTo, hglued]
      split
      · rw [List.length_cons, List.length_cons, ih htail hhead' htail']
      · rfl

section

variable {range range' : Token} {glued glued' : List Token}

/-- If all tokens of a run have their texts, the pieces fill the space of the run. -/
lemma Run.pieces_tiles (d : Dialect) (h : Run range glued) (hr : range.Regular)
    (hw : ∀ t ∈ range :: glued, t.isWhole = true) {lo stop : Nat}
    (htiles : Tiles lo (range :: glued) stop) : Tiles lo (rangePieces d range glued) stop := by
  have hlength := htiles.length_texts hw
  have hrange := h.length_text hr (hw range (by simp))
  have hrun : runText (range :: glued) = texts (range :: glued) := by
    rw [runText, if_pos (List.all_eq_true.2 hw)]
    rfl
  have hrest := readFrom_tiles d (range.start + 2) ((runText (range :: glued)).drop 2)
  have hstop : range.start + 2 + ((runText (range :: glued)).drop 2).length = stop := by
    rw [hrun, List.length_drop, htiles.1]
    rw [texts_cons, List.length_append] at hlength ⊢
    omega
  rw [hstop] at hrest
  exact ⟨htiles.1, Nat.lt_succ_self _, rfl, Nat.lt_succ_self _, hrest⟩

/-- The outline of a run determines the leaves that it is cut into. -/
lemma leaves_rangePieces (d : Dialect) (hw : ∀ t ∈ range :: glued, t.isWhole = true)
    (hw' : ∀ t ∈ range' :: glued', t.isWhole = true)
    (h : (range :: glued).map Token.leaf = (range' :: glued').map Token.leaf) :
    (rangePieces d range glued).map Token.leaf = (rangePieces d range' glued').map Token.leaf := by
  have htext : range.text = range'.text := congrArg Leaf.text (List.cons.inj h).1
  have hrun : runText (range :: glued) = runText (range' :: glued') := by
    rw [runText, runText, if_pos (List.all_eq_true.2 hw), if_pos (List.all_eq_true.2 hw')]
    show texts (range :: glued) = texts (range' :: glued')
    rw [texts_eq_flatMap, h, texts_eq_flatMap]
  rw [rangePieces, rangePieces, htext, hrun]
  simp only [List.map_cons, leaf]
  rw [leaves_readFrom d (range.start + 2) (range'.start + 2)]

/-- The outline of a run determines the outline of its pieces. -/
lemma outline_rangePieces (d : Dialect) (hrun : Run range glued) (hrun' : Run range' glued')
    (hr : range.Regular) (hr' : range'.Regular) (hw : ∀ t ∈ range :: glued, t.isWhole = true)
    (hw' : ∀ t ∈ range' :: glued', t.isWhole = true) {lo lo' stop stop' : Nat}
    (htiles : Tiles lo (range :: glued) stop) (htiles' : Tiles lo' (range' :: glued') stop')
    (h : outline hi (range :: glued) = outline hi' (range' :: glued')) :
    outline hi (rangePieces d range glued) = outline hi' (rangePieces d range' glued') :=
  (hrun.pieces_tiles d hr hw htiles).outline_eq (hrun'.pieces_tiles d hr' hw' htiles')
    (leaves_rangePieces d hw hw' (leaves_eq h)) (htiles.lt_iff htiles' h)

end

/-- A row of tokens that have their texts. -/
structure WholeRow (hi : Nat) (l : List Token) : Prop extends Row hi l where
  /-- Each token has its text. -/
  whole : ∀ t ∈ l, t.isWhole = true

/-- The run that begins with a range of a row. -/
lemma WholeRow.run {before behind : List Token} {range : Token}
    (h : WholeRow hi (before ++ range :: behind)) (hkind : range.kind = .unicodeRange) :
    Run range (gluedTo range.stop behind) ∧ range.Regular ∧
      (∀ t ∈ range :: gluedTo range.stop behind, t.isWhole = true) ∧
      ∃ stop, Tiles range.start (range :: gluedTo range.stop behind) stop := by
  have hmem : ∀ t ∈ range :: gluedTo range.stop behind, t ∈ before ++ range :: behind := by
    intro t ht
    refine List.mem_append_right _ ?_
    rcases List.mem_cons.1 ht with rfl | ht
    · exact List.mem_cons_self
    · exact List.mem_cons_of_mem _ ((gluedTo_isPrefix _ _).subset ht)
  obtain ⟨mid, -, hstart, hlt, hbehind⟩ := ordered_append.1 h.ordered
  obtain ⟨stop, hglued⟩ := gluedTo_tiles hbehind
  exact ⟨⟨hkind, gluesToRange_of_mem⟩, h.regular _ (hmem _ List.mem_cons_self),
    fun t ht => h.whole t (hmem t ht), stop, rfl, hlt, hglued⟩

/-- The outline before a cut determines the outline after it. -/
lemma outline_cut (d : Dialect) {before before' glued glued' behind behind' : List Token}
    {range range' : Token} (hrow : WholeRow hi (before ++ range :: (glued ++ behind)))
    (hrow' : WholeRow hi' (before' ++ range' :: (glued' ++ behind')))
    (hkind : range.kind = .unicodeRange) (hkind' : range'.kind = .unicodeRange)
    (hglued : gluedTo range.stop (glued ++ behind) = glued)
    (hglued' : gluedTo range'.stop (glued' ++ behind') = glued')
    (hlength : before.length = before'.length)
    (h : outline hi (before ++ range :: (glued ++ behind)) =
      outline hi' (before' ++ range' :: (glued' ++ behind'))) :
    outline hi (before ++ (rangePieces d range glued ++ behind)) =
      outline hi' (before' ++ (rangePieces d range' glued' ++ behind')) := by
  obtain ⟨hbefore, hrest⟩ := outline_split hlength h
  have hnumber := length_gluedTo hrest
  rw [hglued, hglued'] at hnumber
  obtain ⟨hrun, hregular, hwhole, stop, htiles⟩ := hrow.run hkind
  obtain ⟨hrun', hregular', hwhole', stop', htiles'⟩ := hrow'.run hkind'
  rw [hglued] at hrun hwhole htiles
  rw [hglued'] at hrun' hwhole' htiles'
  have hnumber' : (range :: glued).length = (range' :: glued').length := congrArg (· + 1) hnumber
  obtain ⟨hcut, hbehind⟩ := outline_split hnumber' hrest
  -- The first piece starts where the range does, so nothing changes for the tokens before.
  rw [outline_append, outline_append hi' before', outline_append hi, outline_append hi', hbehind,
    outline_rangePieces d hrun hrun' hregular hregular' hwhole hwhole' htiles htiles' hcut]
  congr 1

/-- Without a range at the cursor nothing is cut. -/
lemma cutRange_eq_self {p : Parser} (h : p.stream.kindAt 0 ≠ .unicodeRange) : p.cutRange = p := by
  rw [Stream.kindAt] at h
  unfold cutRange
  split
  · rfl
  · rename_i range hpeek
    rw [hpeek] at h
    exact if_neg h

/-- What a cut does to the significant tokens. -/
lemma stream_cutRange {p : Parser} (h : p.stream.kindAt 0 = .unicodeRange) :
    ∃ before range glued behind,
      p.stream.tokens.toList = before ++ range :: (glued ++ behind) ∧
      before.length = p.stream.cursor ∧ range.kind = .unicodeRange ∧
      gluedTo range.stop (glued ++ behind) = glued ∧
      p.cutRange.stream.tokens.toList =
        before ++ (rangePieces p.dialect range glued ++ behind) := by
  rw [Stream.kindAt] at h
  split at h
  · rename_i range hpeek
    have hget : p.stream.tokens.toList[p.stream.cursor]? = some range := by
      simpa [Stream.peek?] using hpeek
    obtain ⟨hlt, hget⟩ := List.getElem?_eq_some_iff.1 hget
    have hlength : (p.stream.tokens.toList.take p.stream.cursor).length = p.stream.cursor := by
      rw [List.length_take]
      omega
    have hsplit : p.stream.tokens.toList = p.stream.tokens.toList.take p.stream.cursor ++
        range :: p.stream.tokens.toList.drop (p.stream.cursor + 1) := by
      rw [← hget, ← List.drop_eq_getElem_cons hlt, List.take_append_drop]
    obtain ⟨rest, hrest⟩ :=
      gluedTo_isPrefix range.stop (p.stream.tokens.toList.drop (p.stream.cursor + 1))
    rw [cutRange, hpeek]
    dsimp only
    rw [if_pos h]
    set glued := gluedTo range.stop (p.stream.tokens.toList.drop (p.stream.cursor + 1)) with hglued
    rw [← hrest] at hsplit hglued
    refine ⟨_, range, glued, rest, hsplit, hlength, h, hglued.symm, ?_⟩
    have hparts : p.stream.tokens.toList = p.stream.tokens.toList.take p.stream.cursor ++
        (range :: glued) ++ rest := by
      rw [List.append_assoc]
      exact hsplit
    rw [← List.length_cons (a := range), ← hlength, splice_eq hparts, hlength, List.append_assoc]
  · cases h

end Parser

end StyleSheet
