import Mathlib
import StyleSheet.Parse
import StyleSheet.Proofs.ScopeTree

/-!
# Looking up names

The search for the scope at an offset goes down from the global scope and takes the first child that
contains the offset. As children do not overlap and lie within the scope around them, no other child
matters, and the scopes that contain the offset are exactly those on the way (`Nested.locate_spec`).
A name is looked up on the way back, so it means what the nearest of these scopes declares.
-/

namespace StyleSheet

namespace Scopes

/-- Scope `i` is scope `j` or around it. -/
def Around (g : Scopes) (i j : Nat) : Prop :=
  Relation.ReflTransGen (fun p c => g.parent? c = some p) i j

variable {g : Scopes} {offset i j p : Nat}

lemma contains_iff : g.contains i offset = true ↔
    ∃ f, g.frames[i]? = some f ∧ f.start ≤ offset ∧ offset < f.stop := by
  rw [contains, frames, List.getElem?_map, Option.any_eq_true]
  simp only [Option.map_eq_some_iff, Scope.contains, Bool.and_eq_true, decide_eq_true_eq]
  constructor
  · rintro ⟨s, hs, hrange⟩
    exact ⟨s.bare, ⟨s, hs, rfl⟩, hrange⟩
  · rintro ⟨f, ⟨s, hs, rfl⟩, hrange⟩
    exact ⟨s, hs, hrange⟩

lemma lt_size_of_contains (h : g.contains i offset = true) : i < g.size := by
  obtain ⟨f, hf, -⟩ := contains_iff.1 h
  rw [size_eq]
  exact (List.getElem?_eq_some_iff.1 hf).1

namespace Nested

variable (h : g.Nested)
include h

lemma le_of_around (haround : g.Around i j) : i ≤ j := by
  induction haround with
  | refl => exact le_refl i
  | tail _ hparent ih => exact ih.trans (h.parent_lt hparent).le

lemma around_global (hi : i < g.size) : g.Around global i := by
  induction i using Nat.strong_induction_on with
  | _ i ih =>
      rcases Nat.eq_zero_or_pos i with rfl | hpos
      · exact .refl
      · obtain ⟨p, hp⟩ := h.exists_parent hpos hi
        have hlt := h.parent_lt hp
        exact (ih p hlt (hlt.trans hi)).tail hp

lemma contains_parent (hp : g.parent? i = some p) (hi : g.contains i offset = true) :
    g.contains p offset = true := by
  obtain ⟨f, hf, hstart, hstop⟩ := contains_iff.1 hi
  obtain ⟨f', hf'⟩ := exists_frame ((h.parent_lt hp).trans (lt_size_of_contains hi))
  have hwithin := h.within hp hf hf'
  exact contains_iff.2 ⟨f', hf', hwithin.1.trans hstart, hstop.trans_le hwithin.2⟩

/-- What lies in a scope lies in all scopes around it. -/
lemma contains_of_around (haround : g.Around i j) (hj : g.contains j offset = true) :
    g.contains i offset = true := by
  induction haround with
  | refl => exact hj
  | tail _ hparent ih => exact ih (h.contains_parent hparent hj)

/-- Of the children of a scope at most one contains an offset. -/
lemma eq_of_contains (hi : g.parent? i = some p) (hj : g.parent? j = some p)
    (hcontains : g.contains i offset = true) (hcontains' : g.contains j offset = true) : i = j := by
  obtain ⟨f, hf, hstart, hstop⟩ := contains_iff.1 hcontains
  obtain ⟨f', hf', hstart', hstop'⟩ := contains_iff.1 hcontains'
  rcases Nat.lt_trichotomy i j with hlt | heq | hlt
  · have hapart := h.apart hi hj hlt hf hf'
    omega
  · exact heq
  · have hapart := h.apart hj hi hlt hf' hf
    omega

/-- The search inside of scope `i` ends in `i` or in a scope that contains the offset, and all
scopes inside of `i` that contain the offset are around the one that is found. -/
lemma locate_spec (offset i : Nat) :
    g.Around i (g.locate offset i) ∧
      (g.locate offset i = i ∨ g.contains (g.locate offset i) offset = true) ∧
      ∀ j, g.Around i j → j ≠ i → g.contains j offset = true → g.Around j (g.locate offset i) := by
  fun_induction g.locate offset i with
  | case1 i c hfind hguard ih =>
      have hparent := h.mem_children.1 (List.mem_of_find?_eq_some hfind)
      have hcontains := List.find?_some hfind
      obtain ⟨hbelow, hfound, hinside⟩ := ih
      refine ⟨.head hparent hbelow, .inr ?_, fun j hj hne hj' => ?_⟩
      · rcases hfound with heq | hfound
        · rwa [heq]
        · exact hfound
      · -- The way down to `j` begins with a child of `i`, and this child is `c`.
        obtain heq | ⟨d, hd, hdj⟩ := hj.cases_head
        · exact absurd heq.symm hne
        · obtain rfl := h.eq_of_contains hd hparent (h.contains_of_around hdj hj') hcontains
          by_cases hjd : j = d
          · exact hjd ▸ hbelow
          · exact hinside j hdj hjd hj'
  | case2 i c hfind hguard =>
      have hparent := h.mem_children.1 (List.mem_of_find?_eq_some hfind)
      exact absurd ⟨h.parent_lt hparent, lt_size_of_parent hparent⟩ hguard
  | case3 i hfind =>
      refine ⟨.refl, .inl rfl, fun j hj hne hj' => ?_⟩
      obtain heq | ⟨d, hd, hdj⟩ := hj.cases_head
      · exact absurd heq.symm hne
      · have hnone := List.find?_eq_none.1 hfind d (h.mem_children.2 hd)
        exact absurd (h.contains_of_around hdj hj') hnone

/-- From each scope a way leads outwards to the global one, and a name means what the first scope on
it that declares the name says. -/
lemma exists_path (hi : i < g.size) : ∃ path : List Nat,
    path.head? = some i ∧ path.getLast? = some global ∧
      path.IsChain (fun c p => g.parent? c = some p) ∧ (∀ j, j ∈ path ↔ g.Around j i) ∧
      ∀ kind name, g.lookup i kind name = path.findSome? fun j => g.symbol? j kind name := by
  induction i using Nat.strong_induction_on with
  | _ i ih =>
      cases hparent : g.parent? i with
      | none =>
          have hzero : i = 0 := by
            by_contra hne
            obtain ⟨p, hp⟩ := h.exists_parent (Nat.pos_of_ne_zero hne) hi
            cases hparent.symm.trans hp
          subst hzero
          refine ⟨[0], rfl, rfl, .singleton 0, fun j => ?_, fun kind name => ?_⟩
          · rw [List.mem_singleton]
            refine ⟨fun heq => heq ▸ .refl, fun haround => ?_⟩
            exact Nat.le_zero.1 (h.le_of_around haround)
          · rw [lookup, hparent, List.findSome?_cons, List.findSome?_nil]
            cases g.symbol? 0 kind name <;> rfl
      | some p =>
          have hlt := h.parent_lt hparent
          obtain ⟨path, hhead, hlast, hchain, hmem, hlookup⟩ := ih p hlt (hlt.trans hi)
          refine ⟨i :: path, rfl, ?_, ?_, fun j => ?_, fun kind name => ?_⟩
          · rw [List.getLast?_cons, hlast]
            rfl
          · refine List.isChain_cons.2 ⟨fun q hq => ?_, hchain⟩
            cases hhead.symm.trans hq
            exact hparent
          · rw [List.mem_cons, hmem]
            constructor
            · rintro (rfl | haround)
              · exact .refl
              · exact haround.tail hparent
            · intro haround
              obtain heq | ⟨q, haround, hq⟩ := haround.cases_tail
              · exact .inl heq.symm
              · cases hparent.symm.trans hq
                exact .inr haround
          · rw [lookup, hparent, List.findSome?_cons]
            cases g.symbol? i kind name with
            | none => simp [hlt, hlookup]
            | some symbol => rfl

end Nested

/-! ## Lookup at an offset -/

/-- The scopes but the global one that contain an offset, in preorder. -/
def containing (g : Scopes) (offset : Nat) : List Nat :=
  (List.range' 1 (g.size - 1)).filter fun i => g.contains i offset

lemma mem_containing : i ∈ g.containing offset ↔ 0 < i ∧ g.contains i offset = true := by
  rw [containing, List.mem_filter, List.mem_range'_1]
  refine and_congr_left fun hcontains => ?_
  have := lt_size_of_contains hcontains
  omega

/-- What the scopes of a tree say at an offset follows from where the offset is: the search finds
the innermost of the scopes that contain it, and a name means what the nearest of them declares. -/
structure IsLexicalAt (g : Scopes) (offset : Nat) : Prop where
  /-- The scope that is found is the last one in preorder that contains the offset, the global one
  if there is none. -/
  innermost : offset ≤ maxOffset →
    g.innermostAt offset = (g.containing offset).getLast?.getD global
  /-- An offset that no text can have is in the global scope. -/
  beyond : maxOffset < offset → g.innermostAt offset = global
  /-- All scopes that contain the offset are around the one that is found. -/
  around : ∀ i ∈ g.containing offset, g.Around i (g.innermostAt offset)
  /-- A name means what the first scope that declares it says, on the way from the scope that is
  found to the global one. -/
  nearest : ∃ path : List Nat, path.head? = some (g.innermostAt offset) ∧
    path.getLast? = some global ∧ path.IsChain (fun c p => g.parent? c = some p) ∧
    ∀ kind name, g.lookupAt offset kind name = path.findSome? fun i => g.symbol? i kind name
  /-- A name means nothing exactly if neither a scope that contains the offset nor the global one
  declares it. -/
  unresolved : ∀ kind name, g.lookupAt offset kind name = none ↔
    g.symbol? global kind name = none ∧ ∀ i ∈ g.containing offset, g.symbol? i kind name = none

namespace Nested

variable (h : g.Nested)
include h

/-- The scope that is found is the global one or contains the offset. -/
lemma innermostAt_cases (offset : Nat) :
    g.innermostAt offset = global ∨ g.innermostAt offset ∈ g.containing offset := by
  rw [innermostAt]
  split
  · obtain ⟨-, hfound, -⟩ := h.locate_spec offset global
    by_cases hzero : g.locate offset global = global
    · exact .inl hzero
    · refine .inr (mem_containing.2 ⟨Nat.pos_of_ne_zero hzero, ?_⟩)
      exact hfound.resolve_left hzero
  · exact .inl rfl

lemma around_innermostAt (hoffset : offset ≤ maxOffset) (hi : i ∈ g.containing offset) :
    g.Around i (g.innermostAt offset) := by
  obtain ⟨hpos, hcontains⟩ := mem_containing.1 hi
  rw [innermostAt, if_pos hoffset]
  obtain ⟨-, -, hinside⟩ := h.locate_spec offset global
  exact hinside i (h.around_global (lt_size_of_contains hcontains)) hpos.ne' hcontains

/-- No scope that contains the offset begins behind the one that is found. -/
lemma innermostAt_eq (hoffset : offset ≤ maxOffset) :
    g.innermostAt offset = (g.containing offset).getLast?.getD global := by
  cases hlast : (g.containing offset).getLast? with
  | none =>
      refine (h.innermostAt_cases offset).resolve_right fun hmem => ?_
      rw [List.getLast?_eq_none_iff.1 hlast] at hmem
      cases hmem
  | some i =>
      have hi := List.mem_of_getLast? hlast
      have hle := h.le_of_around (h.around_innermostAt hoffset hi)
      have hmem := (h.innermostAt_cases offset).resolve_left
        ((mem_containing.1 hi).1.trans_le hle).ne'
      have hsorted : (g.containing offset).Pairwise (· < ·) := (List.pairwise_lt_range' _).filter _
      exact (le_of_getLast? hsorted hlast hmem).antisymm hle

lemma innermostAt_lt (offset : Nat) : g.innermostAt offset < g.size := by
  rcases h.innermostAt_cases offset with heq | hmem
  · rw [heq]
    exact h.pos
  · exact lt_size_of_contains (mem_containing.1 hmem).2

/-- The scopes around the one that is found are the global one and those that contain the offset. -/
lemma around_innermostAt_iff
    (haround : ∀ i ∈ g.containing offset, g.Around i (g.innermostAt offset)) :
    g.Around i (g.innermostAt offset) ↔ i = global ∨ i ∈ g.containing offset := by
  constructor
  · intro hi
    by_cases hzero : i = global
    · exact .inl hzero
    · have hpos := Nat.pos_of_ne_zero hzero
      have hmem := (h.innermostAt_cases offset).resolve_left (hpos.trans_le (h.le_of_around hi)).ne'
      exact .inr (mem_containing.2 ⟨hpos, h.contains_of_around hi (mem_containing.1 hmem).2⟩)
  · rintro (rfl | hi)
    · exact h.around_global (h.innermostAt_lt offset)
    · exact haround i hi

end Nested

/-- No scope of a tree contains an offset behind the tree. -/
lemma containing_ofSite {root : Site} (hstop : root.stop ≤ offset) :
    (ofSite root).containing offset = [] := by
  refine List.eq_nil_iff_forall_not_mem.2 fun i hi => ?_
  have hnested := nested_ofSite root
  obtain ⟨-, hcontains⟩ := mem_containing.1 hi
  have hglobal :=
    hnested.contains_of_around (hnested.around_global (lt_size_of_contains hcontains)) hcontains
  obtain ⟨f, hf, -, hlt⟩ := contains_iff.1 hglobal
  rw [frames_ofSite] at hf
  cases hf
  exact absurd hlt hstop.not_gt

/-- Lookup at an offset is lexical, whichever node is taken for the root. Either the offset or the
end of the tree is an offset that a text can have. -/
theorem lookup_is_lexical (root : Site) (offset : Nat)
    (hfits : offset ≤ maxOffset ∨ root.stop ≤ maxOffset) : (ofSite root).IsLexicalAt offset := by
  have hnested := nested_ofSite root
  have haround : ∀ i ∈ (ofSite root).containing offset,
      (ofSite root).Around i ((ofSite root).innermostAt offset) := by
    intro i hi
    by_cases hoffset : offset ≤ maxOffset
    · exact hnested.around_innermostAt hoffset hi
    · rw [containing_ofSite
        ((hfits.resolve_left hoffset).trans (Nat.lt_of_not_le hoffset).le)] at hi
      cases hi
  obtain ⟨path, hhead, hlast, hchain, hmem, hlookup⟩ :=
    hnested.exists_path (hnested.innermostAt_lt offset)
  refine ⟨hnested.innermostAt_eq, fun h => if_neg h.not_ge, haround,
    ⟨path, hhead, hlast, hchain, hlookup⟩, fun kind name => ?_⟩
  rw [lookupAt, hlookup, List.findSome?_eq_none_iff]
  simp only [hmem, hnested.around_innermostAt_iff haround]
  exact ⟨fun h => ⟨h _ (.inl rfl), fun i hi => h i (.inr hi)⟩,
    fun ⟨hglobal, hinside⟩ i hi => hi.elim (fun heq => heq ▸ hglobal) (hinside i)⟩

/-- At the closing brace of the inner one of two blocks that end together the inner scope is found,
and behind it the outer one. -/
theorem lookup_is_lexical_at_brace :
    (4 ≤ maxOffset ∧
      (ofSite (parse .css .stylesheet (Text.ofString "a{b{}}")).root).innermostAt 4 = 2) ∧
      5 ≤ maxOffset ∧
      (ofSite (parse .css .stylesheet (Text.ofString "a{b{}}")).root).innermostAt 5 = 1 := by
  refine ⟨⟨by decide, ?_⟩, by decide, ?_⟩
  · rw [(lookup_is_lexical _ 4 (.inl (by decide))).innermost (by decide)]
    decide +kernel
  · rw [(lookup_is_lexical _ 5 (.inl (by decide))).innermost (by decide)]
    decide +kernel

end Scopes

end StyleSheet
