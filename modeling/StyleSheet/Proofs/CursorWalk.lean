import Mathlib
import StyleSheet.Token.Cursor
import StyleSheet.Proofs.Tiling

/-!
# Walks over tokens

Whatever a cursor has been asked for, it stands before a token of its source or at the end
(`Stands`). Since the tokens fill the source and none of them is empty, the offset of this place
says which token is next, and it is the offset at which the token before it ends. All that can be
asked of a cursor is said in these terms (`Cursor.Follows`), and holds after any moves
(`walk_follows_tokens`).
-/

namespace StyleSheet.Token

/-! ## Offsets in a row of tokens -/

section

variable {lo hi offset i j : Nat} {l : List Token} {t u : Token}

/-- Behind a token of a row without gaps, the next one starts where it ends. -/
lemma Tiles.start_succ (h : Tiles lo l hi) (ht : l[i]? = some t) :
    (l[i + 1]?.map Token.start).getD hi = t.stop := by
  induction l generalizing lo i with
  | nil => cases ht
  | cons u rest ih =>
      cases i with
      | zero =>
          obtain rfl : u = t := by simpa using ht
          cases rest with
          | nil => exact h.2.2.symm
          | cons v rest => exact h.2.2.1
      | succ i => exact ih h.2.2 ht

/-- The order of tokens is that of their starts. -/
lemma Ordered.start_lt_iff (h : Ordered lo l hi) (ht : l[i]? = some t) (hu : l[j]? = some u) :
    t.start < u.start ↔ i < j := by
  obtain ⟨hi, rfl⟩ := List.getElem?_eq_some_iff.1 ht
  obtain ⟨hj, rfl⟩ := List.getElem?_eq_some_iff.1 hu
  have hlt : ∀ {i j : Nat} (hi : i < l.length) (hj : j < l.length), i < j →
      l[i].start < l[j].start := by
    intro i j hi hj hij
    have hstop := List.pairwise_iff_getElem.1 h.pairwise i j hi hj hij
    have := (h.mem (List.getElem_mem hi)).2.1
    omega
  rcases Nat.lt_trichotomy i j with hij | rfl | hij
  · exact ⟨fun _ => hij, fun _ => hlt hi hj hij⟩
  · omega
  · have := hlt hj hi hij
    omega

/-- The tokens that start before an offset are the first ones of the row. -/
lemma Ordered.lt_length_takeWhile_iff (h : Ordered lo l hi) (ht : l[i]? = some t) :
    i < (l.takeWhile fun t => t.start < offset).length ↔ t.start < offset := by
  induction l generalizing lo i with
  | nil => cases ht
  | cons u rest ih =>
      by_cases hu : u.start < offset
      · rw [List.takeWhile_cons_of_pos (by simpa using hu), List.length_cons]
        cases i with
        | zero =>
            obtain rfl : u = t := by simpa using ht
            exact ⟨fun _ => hu, fun _ => Nat.succ_pos _⟩
        | succ i => rw [Nat.succ_lt_succ_iff, ih h.2.2 ht]
      · rw [List.takeWhile_cons_of_neg (by simpa using hu), List.length_nil]
        have hle : ¬ t.start < u.start := by
          rw [h.start_lt_iff ht (j := 0) rfl]
          omega
        omega

end

namespace Cursor

variable {d : Dialect} {source : Text} {c : Cursor} {offset i : Nat} {t : Token}

/-! ## Places -/

/-- The cursor stands before a token of the source or at its end. -/
structure Stands (d : Dialect) (source : Text) (c : Cursor) : Prop where
  tokens : c.tokens = read d source
  length : c.length = source.length
  index : c.index ≤ c.tokens.length

lemma position_eq (c : Cursor) :
    c.position = (c.tokens[c.index]?.map Token.start).getD c.length := by
  rw [position]
  cases c.tokens[c.index]? <;> rfl

lemma next_of_some (h : c.tokens[c.index]? = some t) :
    c.next = (t, { c with index := c.index + 1 }) := by
  rw [next, h]

lemma next_of_none (h : c.tokens[c.index]? = none) : c.next = (c.endToken, c) := by
  rw [next, h]

namespace Stands

lemma tiles (h : Stands d source c) : Tiles 0 c.tokens c.length := by
  rw [h.tokens, h.length]
  simpa [read] using readFrom_tiles d 0 source

/-- The tokens before the cursor are those that start before its place. -/
lemma start_lt_position_iff (h : Stands d source c) (ht : c.tokens[i]? = some t) :
    t.start < c.position ↔ i < c.index := by
  rw [position_eq]
  cases hnext : c.tokens[c.index]? with
  | some u => exact h.tiles.ordered.start_lt_iff ht hnext
  | none =>
      have hbounds := h.tiles.ordered.mem (List.mem_of_getElem? ht)
      have hlt := (List.getElem?_eq_some_iff.1 ht).1
      have hle := List.getElem?_eq_none_iff.1 hnext
      simp only [Option.map_none, Option.getD_none]
      omega

/-- The place of the cursor says which token is next. -/
lemma index_of_start (h : Stands d source c) (ht : c.tokens[i]? = some t)
    (hstart : t.start = c.position) : i = c.index := by
  have hle : ¬ i < c.index := by
    rw [← h.start_lt_position_iff ht]
    omega
  cases hnext : c.tokens[c.index]? with
  | none =>
      have hlt := (List.getElem?_eq_some_iff.1 ht).1
      have hge := List.getElem?_eq_none_iff.1 hnext
      omega
  | some u =>
      have hu : ¬ c.index < i := by
        rw [← h.tiles.ordered.start_lt_iff hnext ht, hstart, position_eq, hnext]
        exact Nat.lt_irrefl _
      omega

/-- At the end no token is next. -/
lemma getElem?_of_position (h : Stands d source c) (hend : c.position = c.length) :
    c.tokens[c.index]? = none := by
  cases hnext : c.tokens[c.index]? with
  | none => rfl
  | some t =>
      have hbounds := h.tiles.ordered.mem (List.mem_of_getElem? hnext)
      rw [position_eq, hnext, Option.map_some, Option.getD_some] at hend
      omega

lemma position_next (h : Stands d source c) (ht : c.tokens[c.index]? = some t) :
    c.next.2.position = t.stop := by
  rw [next_of_some ht, position_eq]
  exact h.tiles.start_succ ht

/-! ## Moves -/

lemma ofSource (d : Dialect) (source : Text) : Stands d source (.ofSource d source) :=
  ⟨rfl, rfl, Nat.zero_le _⟩

lemma next (h : Stands d source c) : Stands d source c.next.2 := by
  cases hnext : c.tokens[c.index]? with
  | none =>
      rw [next_of_none hnext]
      exact h
  | some t =>
      rw [next_of_some hnext]
      exact ⟨h.tokens, h.length, (List.getElem?_eq_some_iff.1 hnext).1⟩

end Stands

/-- The cursor behind the white space and the comments that are next. -/
def skipTrivia (c : Cursor) : Cursor :=
  { c with index := c.index + ((c.tokens.drop c.index).takeWhile isTrivia).length }

lemma nextSignificant_eq (c : Cursor) : c.nextSignificant = c.skipTrivia.next := rfl

lemma drop_skipTrivia (c : Cursor) :
    c.tokens.drop c.skipTrivia.index = (c.tokens.drop c.index).dropWhile isTrivia := by
  have hsplit :
      (c.tokens.drop c.index).takeWhile isTrivia ++ (c.tokens.drop c.index).dropWhile isTrivia =
      c.tokens.drop c.index := List.takeWhile_append_dropWhile
  rw [skipTrivia, ← List.drop_drop]
  nth_rewrite 2 [← hsplit]
  exact List.drop_left

lemma getElem?_skipTrivia (c : Cursor) :
    c.tokens[c.skipTrivia.index]? = (c.tokens.drop c.index).find? fun t => !t.isTrivia := by
  rw [← List.head?_drop, drop_skipTrivia, List.find?_eq_head?_dropWhile_not]
  simp

namespace Stands

lemma skipTrivia (h : Stands d source c) : Stands d source c.skipTrivia := by
  refine ⟨h.tokens, h.length, ?_⟩
  have hle : ((c.tokens.drop c.index).takeWhile isTrivia).length ≤ (c.tokens.drop c.index).length :=
    (List.takeWhile_sublist isTrivia).length_le
  have hindex := h.index
  rw [List.length_drop] at hle
  change c.index + _ ≤ c.tokens.length
  omega

lemma nextSignificant (h : Stands d source c) : Stands d source c.nextSignificant.2 :=
  h.skipTrivia.next

lemma seek (h : Stands d source c) (offset : Nat) : Stands d source (c.seek offset) :=
  ⟨h.tokens, h.length, (List.takeWhile_sublist _).length_le⟩

end Stands

/-- What can be asked of a cursor. -/
inductive Move where
  /-- The next token. -/
  | next
  /-- The next token that is neither white space nor a comment. -/
  | nextSignificant
  /-- The first token at or after an offset. -/
  | seek (offset : Nat)

/-- The cursor after a move. -/
def move (c : Cursor) : Move → Cursor
  | .next => c.next.2
  | .nextSignificant => c.nextSignificant.2
  | .seek offset => c.seek offset

/-- The cursor of a source after some moves. -/
def walk (d : Dialect) (source : Text) (moves : List Move) : Cursor :=
  moves.foldl move (.ofSource d source)

lemma Stands.move (h : Stands d source c) (m : Move) : Stands d source (c.move m) := by
  cases m with
  | next => exact h.next
  | nextSignificant => exact h.nextSignificant
  | seek offset => exact h.seek offset

lemma Stands.foldl_move (h : Stands d source c) (moves : List Move) :
    Stands d source (moves.foldl Cursor.move c) := by
  induction moves generalizing c with
  | nil => exact h
  | cons m moves ih => exact ih (h.move m)

/-! ## What the moves do -/

/-- The significant tokens that are left, after the first of them has been given out. -/
lemma significant_drop_nextSignificant (c : Cursor) :
    c.nextSignificant.1 = (significant (c.tokens.drop c.index)).head?.getD c.endToken ∧
      significant (c.tokens.drop c.nextSignificant.2.index) =
        (significant (c.tokens.drop c.index)).tail := by
  have hskip : significant (c.tokens.drop c.skipTrivia.index) =
      significant (c.tokens.drop c.index) := by
    rw [drop_skipTrivia, significant_dropWhile]
  rw [nextSignificant_eq, ← hskip]
  cases hnext : c.tokens[c.skipTrivia.index]? with
  | none =>
      rw [next_of_none hnext, List.drop_eq_nil_of_le (List.getElem?_eq_none_iff.1 hnext)]
      exact ⟨rfl, rfl⟩
  | some t =>
      have ht : t.isTrivia = false := by
        rw [getElem?_skipTrivia] at hnext
        simpa using List.find?_some hnext
      obtain ⟨hlt, rfl⟩ := List.getElem?_eq_some_iff.1 hnext
      rw [next_of_some hnext, List.drop_eq_getElem_cons hlt, significant_cons ht]
      exact ⟨rfl, rfl⟩

namespace Stands

/-- The first significant token at or after the place of the cursor. -/
lemma find?_significant (h : Stands d source c) :
    (c.tokens.find? fun t => !t.isTrivia && c.position ≤ t.start) =
      c.tokens[c.skipTrivia.index]? := by
  rw [getElem?_skipTrivia]
  nth_rewrite 1 [← List.take_append_drop c.index c.tokens]
  have hbefore : (c.tokens.take c.index).find? (fun t => !t.isTrivia && c.position ≤ t.start) =
      none := by
    refine List.find?_eq_none.2 fun t ht => ?_
    obtain ⟨i, hi, rfl⟩ := List.mem_take_iff_getElem.1 ht
    have hlt :=
      (h.start_lt_position_iff (List.getElem?_eq_getElem (by omega))).2 (lt_min_iff.1 hi).1
    simp only [Bool.and_eq_true, decide_eq_true_eq, not_and]
    omega
  rw [List.find?_append, hbefore, Option.none_or]
  refine List.find?_congr fun t ht => ?_
  obtain ⟨i, hi, rfl⟩ := List.mem_drop_iff_getElem.1 ht
  have hle :=
    (h.start_lt_position_iff (i := c.index + i) (List.getElem?_eq_getElem (by omega))).not.2
      (by omega)
  rw [decide_eq_true (Nat.le_of_not_lt hle), Bool.and_true]

/-- The tokens before the place that is sought are those that start before the offset. -/
lemma start_lt_iff_lt_index_seek (h : Stands d source c) (ht : c.tokens[i]? = some t) :
    t.start < offset ↔ i < (c.seek offset).index :=
  (h.tiles.ordered.lt_length_takeWhile_iff ht).symm

/-- The tokens that are given out one after the other are the significant ones that are left, and
then the end. -/
lemma nextSignificant_iterate (h : Stands d source c) (n : Nat) :
    ((fun c => c.nextSignificant.2)^[n] c).nextSignificant.1 =
      (significant (c.tokens.drop c.index))[n]?.getD c.endToken := by
  induction n generalizing c with
  | zero =>
      rw [Function.iterate_zero, id, (significant_drop_nextSignificant c).1, List.head?_eq_getElem?]
  | succ n ih =>
      have htokens : c.nextSignificant.2.tokens = c.tokens :=
        h.nextSignificant.tokens.trans h.tokens.symm
      have hend : c.nextSignificant.2.endToken = c.endToken := by
        rw [endToken, endToken, h.nextSignificant.length, h.length]
      rw [Function.iterate_succ_apply, ih h.nextSignificant, htokens, hend,
        (significant_drop_nextSignificant c).2, List.getElem?_tail]

end Stands

/-- What a cursor does, in terms of the tokens of its source and of the offset at which it
stands. -/
structure Follows (d : Dialect) (source : Text) (c : Cursor) : Prop where
  /-- It stands where a token starts or where the source ends. -/
  position : c.position = source.length ∨ ∃ t ∈ read d source, t.start = c.position
  /-- It gives out the token that starts there, and goes to where this token ends. -/
  next : ∀ t ∈ read d source, t.start = c.position → c.next.1 = t ∧ c.next.2.position = t.stop
  /-- At the end it gives out an empty token and stays. -/
  next_end : c.position = source.length →
    c.next = (⟨.endOfInput, source.length, source.length, []⟩, c)
  /-- It gives out the first significant token that starts there or behind, and goes to where this
  token ends. -/
  nextSignificant : ∀ t,
    ((read d source).find? fun t => !t.isTrivia && c.position ≤ t.start) = some t →
    c.nextSignificant.1 = t ∧ c.nextSignificant.2.position = t.stop
  /-- If there is none it gives out an empty token and goes to the end. -/
  nextSignificant_end : (∀ t ∈ read d source, c.position ≤ t.start → t.isTrivia = true) →
    c.nextSignificant.1 = ⟨.endOfInput, source.length, source.length, []⟩ ∧
      c.nextSignificant.2.position = source.length
  /-- It goes to the least start of a token that is not less than an offset, to the end if there is
  none. -/
  seek : ∀ offset,
    IsLeast { n | offset ≤ n ∧ ∃ t ∈ read d source, t.start = n } (c.seek offset).position ∨
    (∀ t ∈ read d source, t.start < offset) ∧ (c.seek offset).position = source.length
  /-- This place divides the tokens that start before the offset from the other ones. -/
  seek_index : ∀ offset i t, (read d source)[i]? = some t →
    (t.start < offset ↔ i < (c.seek offset).index)
  /-- From the start it gives out all significant tokens, one after the other, and then the end for
  ever. -/
  replay : ∀ n, ((fun c => c.nextSignificant.2)^[n] (c.seek 0)).nextSignificant.1 =
    (readSignificant d source)[n]?.getD ⟨.endOfInput, source.length, source.length, []⟩

lemma Stands.seek_cases (h : Stands d source c) (offset : Nat) :
    IsLeast { n | offset ≤ n ∧ ∃ t ∈ read d source, t.start = n } (c.seek offset).position ∨
      (∀ t ∈ read d source, t.start < offset) ∧ (c.seek offset).position = source.length := by
  rw [position_eq, ← h.tokens, ← h.length]
  change IsLeast _ ((c.tokens[(c.seek offset).index]?.map Token.start).getD c.length) ∨
    _ ∧ (c.tokens[(c.seek offset).index]?.map Token.start).getD c.length = c.length
  cases hnext : c.tokens[(c.seek offset).index]? with
  | none =>
      refine .inr ⟨fun t ht => ?_, rfl⟩
      obtain ⟨i, hi⟩ := List.mem_iff_getElem?.1 ht
      have hlt := (List.getElem?_eq_some_iff.1 hi).1
      have hle := List.getElem?_eq_none_iff.1 hnext
      exact (h.start_lt_iff_lt_index_seek hi).2 (by omega)
  | some u =>
      refine .inl ⟨⟨?_, u, List.mem_of_getElem? hnext, rfl⟩, ?_⟩
      · exact Nat.le_of_not_lt ((h.start_lt_iff_lt_index_seek hnext).not.2 (Nat.lt_irrefl _))
      · rintro n ⟨hn, t, ht, rfl⟩
        obtain ⟨i, hi⟩ := List.mem_iff_getElem?.1 ht
        have hge : ¬ i < (c.seek offset).index :=
          (h.start_lt_iff_lt_index_seek hi).not.1 (Nat.not_lt.2 hn)
        exact Nat.le_of_not_lt ((h.tiles.ordered.start_lt_iff hi hnext).not.2 hge)

lemma Stands.follows (h : Stands d source c) : Follows d source c where
  position := by
    rw [position_eq, ← h.tokens, ← h.length]
    cases hnext : c.tokens[c.index]? with
    | none => exact .inl rfl
    | some t => exact .inr ⟨t, List.mem_of_getElem? hnext, rfl⟩
  next t ht hstart := by
    rw [← h.tokens] at ht
    obtain ⟨i, hi⟩ := List.mem_iff_getElem?.1 ht
    obtain rfl := h.index_of_start hi hstart
    exact ⟨by rw [next_of_some hi], h.position_next hi⟩
  next_end hend := by
    rw [next_of_none (h.getElem?_of_position (hend.trans h.length.symm)), endToken, h.length]
  nextSignificant t ht := by
    rw [← h.tokens, h.find?_significant] at ht
    rw [nextSignificant_eq]
    exact ⟨by rw [next_of_some ht], h.skipTrivia.position_next ht⟩
  nextSignificant_end hnone := by
    have hnext : c.skipTrivia.tokens[c.skipTrivia.index]? = none := by
      refine h.find?_significant.symm.trans (List.find?_eq_none.2 fun t ht => ?_)
      rw [h.tokens] at ht
      have := hnone t ht
      simp only [Bool.and_eq_true, Bool.not_eq_true', decide_eq_true_eq, not_and]
      intro htrivia hle
      rw [this hle] at htrivia
      cases htrivia
    rw [nextSignificant_eq, next_of_none hnext, position_eq, hnext, endToken, h.skipTrivia.length]
    exact ⟨rfl, rfl⟩
  seek := h.seek_cases
  seek_index offset i t ht := h.start_lt_iff_lt_index_seek (by rwa [h.tokens])
  replay n := by
    have hstart : (c.seek 0).index = 0 := by
      change (c.tokens.takeWhile fun t => t.start < 0).length = 0
      cases c.tokens <;> simp
    rw [(h.seek 0).nextSignificant_iterate, hstart, (h.seek 0).tokens, endToken, (h.seek 0).length]
    rfl

/-- Whatever a cursor has been asked for before, it follows the tokens of its source. -/
theorem walk_follows_tokens (d : Dialect) (source : Text) (moves : List Move) :
    Follows d source (walk d source moves) :=
  ((Stands.ofSource d source).foldl_move moves).follows

-- An offset inside of a character, and then one inside of the comment behind it.
example :
    [[], [.seek 1], [.seek 1, .seek 4], [.seek 4, .nextSignificant], [.nextSignificant, .next]].map
    (fun moves => (walk .css (Text.ofString "é/**/ b") moves).position) = [0, 2, 6, 8, 6] := by
  decide +kernel

end Cursor

end StyleSheet.Token
