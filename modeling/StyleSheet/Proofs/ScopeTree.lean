import Mathlib
import StyleSheet.Proofs.Scoping

/-!
# The tree of scopes

Each block of a tree has a scope, and the scopes are inside of each other as the blocks are. The
ranges of scopes and the scopes around them depend only on the blocks in preorder (`Scopes.frames`);
the lists of children are the other direction of the same links (`Scopes.Linked`).
-/

namespace StyleSheet

section

variable {α : Type} {p : α → Bool} {l : List α}

/-- The `k`-th place of a list at which a property holds has `k` such places before it. -/
lemma getElem?_findIdxs {k b : Nat} : (l.findIdxs p)[k]? = some b ↔
    (∃ a, l[b]? = some a ∧ p a = true) ∧ (l.take b).countP p = k := by
  induction l generalizing k b with
  | nil => simp
  | cons a l ih =>
      rw [List.findIdxs_cons, List.findIdxs_start]
      cases b with
      | zero => cases hp : p a <;> cases k <;> simp [hp]
      | succ b =>
          cases hp : p a
          · simp [hp, List.getElem?_map, ih]
          · cases k <;> simp [hp, List.getElem?_map, ih]

lemma getElem?_filter_of_findIdxs {k b : Nat} (h : (l.findIdxs p)[k]? = some b) :
    (l.filter p)[k]? = l[b]? := by
  obtain ⟨hk, rfl⟩ := List.getElem?_eq_some_iff.1 h
  have hlt : k < (l.filter p).length := by simpa [List.countP_eq_length_filter] using hk
  rw [List.getElem?_eq_getElem hlt, List.getElem_filter_eq_getElem_getElem_findIdxs hlt,
    List.getElem?_eq_getElem]

lemma countP_take_lt {a : α} {b j : Nat} (ha : l[b]? = some a) (hp : p a = true) (hj : b < j) :
    (l.take b).countP p < (l.take j).countP p := by
  have hle : (l.take (b + 1)).countP p ≤ (l.take j).countP p :=
    (List.take_prefix_take_left hj).sublist.countP_le
  rw [List.take_add_one, ha, List.countP_append] at hle
  simp only [Option.toList_some, List.countP_singleton, hp, if_true] at hle
  omega

/-- The last number of a list in order is the greatest one. -/
lemma le_of_getLast? {l : List Nat} (h : l.Pairwise (· < ·)) {b c : Nat} (hb : l.getLast? = some b)
    (hc : c ∈ l) : c ≤ b := by
  obtain ⟨rest, rfl⟩ := List.getLast?_eq_some_iff.1 hb
  rcases List.mem_append.1 hc with hc | hc
  · exact ((List.pairwise_append.1 h).2.2 c hc b (List.mem_singleton_self b)).le
  · exact (List.mem_singleton.1 hc).le

end

/-! ## Ranges and the scopes around -/

/-- A scope without what is in it. -/
def Scope.bare (s : Scope) : Scope := { s with children := [], symbols := [] }

namespace Scopes

/-- The scopes without what is in them. -/
def frames (g : Scopes) : List Scope := g.all.map Scope.bare

lemma parent?_eq (g : Scopes) (i : Nat) : g.parent? i = g.frames[i]?.bind Scope.parent? := by
  rw [parent?, frames, List.getElem?_map]
  cases g.all[i]? <;> rfl

lemma size_eq (g : Scopes) : g.size = g.frames.length := (List.length_map _).symm

lemma frames_modify (all : List Scope) (i : Nat) {f : Scope → Scope}
    (hf : ∀ s, (f s).bare = s.bare) : frames ⟨all.modify i f⟩ = frames ⟨all⟩ := by
  refine List.ext_getElem? fun j => ?_
  rw [frames, frames, List.getElem?_map, List.getElem?_map, List.getElem?_modify]
  cases all[j]? with
  | none => rfl
  | some s =>
      by_cases h : i = j
      · simp [h, hf]
      · simp [h]

lemma frames_declare (g : Scopes) (scope : Nat) (symbol : Symbol) :
    (g.declare scope symbol).frames = g.frames := frames_modify g.all scope fun _ => rfl

lemma frames_push (g : Scopes) (parent : Nat) (block : Site) :
    (g.push parent block).frames = g.frames ++ [.ofSite block (some parent)] := by
  have hchild : ∀ s : Scope, (s.addChild g.size).bare = s.bare := fun _ => rfl
  rw [push, frames_modify _ parent hchild, frames, frames, List.map_append]
  rfl

lemma frames_foldl_declare {α : Type} (g : Scopes) (l : List α) (scope : α → Nat)
    (symbol : α → Symbol) :
    (l.foldl (fun h a => h.declare (scope a) (symbol a)) g).frames = g.frames := by
  induction l generalizing g with
  | nil => rfl
  | cons a l ih => rw [List.foldl_cons, ih, frames_declare]

lemma frames_enter (g : Scopes) (s : Site) (current : Nat) : (g.enter s current).frames =
    g.frames ++ if s.isBlock then [.ofSite s (some current)] else [] := by
  rw [enter]
  split
  · rw [frames_foldl_declare, frames_push]
  · rw [frames_foldl_declare, List.append_nil]

lemma frames_enterAll (g : Scopes) (row : List (Site × Nat)) : (g.enterAll row).frames =
    g.frames ++ (row.filter fun p => p.1.isBlock).map fun p => .ofSite p.1 (some p.2) := by
  induction row generalizing g with
  | nil => exact (List.append_nil _).symm
  | cons p row ih =>
      rw [enterAll, List.foldl_cons, ← enterAll, ih, frames_enter, List.append_assoc,
        List.filter_cons]
      split <;> simp

/-! ## Links in both directions -/

/-- The children of a scope are the scopes that it is around, in order. -/
def Linked (g : Scopes) : Prop :=
  ∀ i, g.children i = (List.range g.size).filter fun c => g.parent? c == some i

lemma children_declare (g : Scopes) (scope : Nat) (symbol : Symbol) (i : Nat) :
    (g.declare scope symbol).children i = g.children i := by
  rw [children, declare, List.getElem?_modify, children]
  cases g.all[i]? with
  | none => rfl
  | some s => by_cases h : scope = i <;> simp [h, Scope.declare]

lemma parent?_declare (g : Scopes) (scope : Nat) (symbol : Symbol) (i : Nat) :
    (g.declare scope symbol).parent? i = g.parent? i := by
  rw [parent?_eq, frames_declare, parent?_eq]

lemma children_push (g : Scopes) {parent : Nat} (hparent : parent < g.size) (block : Site)
    (i : Nat) :
    (g.push parent block).children i = g.children i ++ if i = parent then [g.size] else [] := by
  rw [children, push, List.getElem?_modify, children]
  rcases Nat.lt_trichotomy i g.all.length with hi | rfl | hi
  · rw [List.getElem?_append_left hi, List.getElem?_eq_getElem hi]
    by_cases h : parent = i
    · simp [h, Scope.addChild]
    · simp [h, Ne.symm h]
  · have hne : g.all.length ≠ parent := fun h => by simp [size, h] at hparent
    simp [hne, hne.symm, Scope.ofSite]
  · have hne : i ≠ parent := fun h => by rw [size, ← h] at hparent; omega
    rw [List.getElem?_eq_none (by simpa using hi), List.getElem?_eq_none (by omega)]
    simp [hne]

lemma parent?_push (g : Scopes) (parent : Nat) (block : Site) (i : Nat) :
    (g.push parent block).parent? i = if i = g.size then some parent else g.parent? i := by
  rw [parent?_eq, frames_push, parent?_eq, size_eq]
  rcases Nat.lt_trichotomy i g.frames.length with hi | rfl | hi
  · rw [List.getElem?_append_left hi, if_neg hi.ne]
  · simp [Scope.ofSite]
  · rw [List.getElem?_eq_none (by simpa using hi), if_neg hi.ne', List.getElem?_eq_none hi.le]

lemma Linked.declare {g : Scopes} (h : g.Linked) (scope : Nat) (symbol : Symbol) :
    (g.declare scope symbol).Linked := by
  intro i
  simp only [children_declare, size_declare, parent?_declare]
  exact h i

lemma Linked.push {g : Scopes} (h : g.Linked) {parent : Nat} (hparent : parent < g.size)
    (block : Site) : (g.push parent block).Linked := by
  intro i
  have hold : (List.range g.size).filter (fun c => (g.push parent block).parent? c == some i) =
      g.children i := by
    rw [h i]
    refine List.filter_congr fun c hc => ?_
    rw [parent?_push, if_neg (List.mem_range.1 hc).ne]
  rw [children_push g hparent, size_push, List.range_succ, List.filter_append, hold]
  refine congrArg _ ?_
  by_cases hi : i = parent
  · simp [hi, parent?_push]
  · simp [hi, Ne.symm hi, parent?_push]

end Scopes

/-! ## The blocks of a tree -/

namespace Site

/-- The numbers of the blocks at or below a node, in preorder. -/
def blocks (root : Site) : List Nat := root.descendants.findIdxs isBlock

/-- The node of number `i` encloses the node of number `j`. -/
def Encloses (root : Site) (i j : Nat) : Prop := i ∈ Tree.enclosing root.descendants j

/-- The block of number `b` is the innermost one around the node of number `j`. -/
structure IsNearestBlock (root : Site) (j b : Nat) : Prop where
  mem_blocks : b ∈ root.blocks
  encloses : root.Encloses b j
  nearest : ∀ c ∈ root.blocks, root.Encloses c j → c = b ∨ root.Encloses c b

variable {root : Site} {b c i j : Nat} {s t : Site}

lemma mem_blocks : b ∈ root.blocks ↔ ∃ s, root.descendants[b]? = some s ∧ s.isBlock = true := by
  rw [List.mem_iff_getElem?]
  simp only [blocks, getElem?_findIdxs]
  exact ⟨fun ⟨k, h, _⟩ => h, fun h => ⟨_, h, rfl⟩⟩

/-- Blocks are listed in the order of their numbers. -/
lemma blocks_lt (hb : root.blocks[i]? = some b) (hc : root.blocks[j]? = some c) (h : i < j) :
    b < c := by
  obtain ⟨hi, rfl⟩ := List.getElem?_eq_some_iff.1 hb
  obtain ⟨hj, rfl⟩ := List.getElem?_eq_some_iff.1 hc
  exact List.pairwise_iff_getElem.1 List.pairwise_findIdxs i j hi hj h

lemma mem_blocksAround :
    b ∈ Tree.blocksAround root.descendants j ↔ b ∈ root.blocks ∧ root.Encloses b j := by
  rw [Tree.blocksAround, List.mem_filter, Option.any_eq_true, mem_blocks, Encloses, and_comm]

/-- A node lies within the nodes around it. -/
lemma Encloses.bounds (h : root.Encloses i j) (hs : root.descendants[i]? = some s)
    (ht : root.descendants[j]? = some t) : s.start ≤ t.start ∧ t.stop ≤ s.stop := by
  obtain ⟨hlt, s', hs', hsize⟩ := Tree.mem_enclosing.1 h
  cases hs.symm.trans hs'
  have hslice := Tree.slice_sites root.above root.start root.tree hs
  have hmem : t ∈ s.descendants := by
    rw [← hslice]
    refine List.mem_of_getElem? (i := j - i) ?_
    rw [List.getElem?_take_of_lt (by omega), List.getElem?_drop, Nat.add_sub_cancel' hlt.le]
    exact ht
  exact Tree.bounds_sites hmem

/-- The blocks around a node are inside of each other, so the one with the greatest number is the
innermost one. -/
lemma isNearestBlock_of_getLast? (h : (Tree.blocksAround root.descendants j).getLast? = some b) :
    root.IsNearestBlock j b := by
  have hmem := mem_blocksAround.1 (List.mem_of_getLast? h)
  refine ⟨hmem.1, hmem.2, fun c hc hcj => ?_⟩
  have hsorted : (Tree.blocksAround root.descendants j).Pairwise (· < ·) :=
    (List.pairwise_lt_range.filter _).filter _
  rcases (le_of_getLast? hsorted h (mem_blocksAround.2 ⟨hc, hcj⟩)).eq_or_lt with heq | hlt
  · exact .inl heq
  · obtain ⟨-, s, hs, hsize⟩ := Tree.mem_enclosing.1 hcj
    have hbj := (Tree.mem_enclosing.1 hmem.2).1
    exact .inr (Tree.mem_enclosing.2 ⟨hlt, s, hs, hbj.trans hsize⟩)

end Site

namespace Scopes

variable {root : Site} {b i j k p : Nat} {s t : Site}

/-- The scope that is open at a node is that of the innermost block around it, or the global one. -/
lemma scopeAround_cases (root : Site) (j : Nat) :
    (∃ m b, root.blocks[m]? = some b ∧ root.IsNearestBlock j b ∧
      Tree.scopeAround root.descendants global 1 j = m + 1) ∨
    (∀ b ∈ root.blocks, ¬ root.Encloses b j) ∧
    Tree.scopeAround root.descendants global 1 j = global := by
  rw [Tree.scopeAround]
  cases hlast : (Tree.blocksAround root.descendants j).getLast? with
  | none =>
      refine .inr ⟨fun b hb hbj => ?_, rfl⟩
      have hmem := Site.mem_blocksAround.2 ⟨hb, hbj⟩
      rw [List.getLast?_eq_none_iff.1 hlast] at hmem
      cases hmem
  | some b =>
      have hnearest := Site.isNearestBlock_of_getLast? hlast
      refine .inl
        ⟨_, b, getElem?_findIdxs.2 ⟨Site.mem_blocks.1 hnearest.mem_blocks, rfl⟩, hnearest, ?_⟩
      exact Nat.add_comm 1 _

/-- A scope that is open at a node belongs to a block that begins before the node. -/
lemma scopeAround_lt (root : Site) (j : Nat) : Tree.scopeAround root.descendants global 1 j <
    1 + (root.descendants.take j).countP Site.isBlock := by
  rcases scopeAround_cases root j with ⟨m, b, hb, hnearest, heq⟩ | ⟨-, heq⟩
  · obtain ⟨⟨s, hs, hblock⟩, rfl⟩ := getElem?_findIdxs.1 hb
    have hlt := countP_take_lt hs hblock (Tree.mem_enclosing.1 hnearest.encloses).1
    omega
  · rw [heq, global]
    omega

lemma size_ofSite (root : Site) : (ofSite root).size = root.blocks.length + 1 := by
  rw [ofSite_eq, size_enterAll_withScopes, Site.blocks, List.length_findIdxs, Nat.add_comm]
  rfl

lemma frames_ofSite (root : Site) : (ofSite root).frames = .ofSite root none ::
    ((Tree.withScopes root.descendants global 1).filter fun p => p.1.isBlock).map
      fun p => .ofSite p.1 (some p.2) := by
  rw [ofSite_eq, frames_enterAll]
  rfl

section

variable {P : Scopes → Prop} (hdeclare : ∀ g scope symbol, P g → P (g.declare scope symbol))
  (hpush : ∀ g parent block, parent < g.size → P g → P (g.push parent block))

include hdeclare

lemma foldl_declare_induction {α : Type} (l : List α) (scope : α → Nat) (symbol : α → Symbol)
    {g : Scopes} (h : P g) : P (l.foldl (fun h a => h.declare (scope a) (symbol a)) g) := by
  induction l generalizing g with
  | nil => exact h
  | cons a l ih => exact ih (hdeclare g _ _ h)

include hpush

lemma enter_induction (s : Site) {current : Nat} {g : Scopes} (hcurrent : current < g.size)
    (h : P g) : P (g.enter s current) := by
  rw [enter]
  split
  · exact foldl_declare_induction hdeclare _ _ _ (hpush g current s hcurrent h)
  · exact foldl_declare_induction hdeclare _ _ _ h

/-- What declaring and beginning a scope keep, a row of nodes keeps, if the scope in which each of
them stands is there when it begins. -/
lemma enterAll_induction (row : List (Site × Nat)) {g : Scopes}
    (hrow : ∀ j p, row[j]? = some p → p.2 < g.size + (row.take j).countP fun p => p.1.isBlock)
    (h : P g) : P (g.enterAll row) := by
  induction row generalizing g with
  | nil => exact h
  | cons p row ih =>
      refine ih (fun j q hq => ?_) (enter_induction hdeclare hpush p.1 (hrow 0 p rfl) h)
      have hlt := hrow (j + 1) q hq
      rw [List.take_succ_cons, List.countP_cons] at hlt
      rw [size_enter]
      omega

end

lemma countP_take_withScopes (l : List Site) (current first j : Nat) :
    ((Tree.withScopes l current first).take j).countP (fun p => p.1.isBlock) =
      (l.take j).countP Site.isBlock := by
  have hfst := congrArg (fun l => (l.take j).countP Site.isBlock)
    (Tree.map_fst_withScopes (l := l) current first)
  simpa [← List.map_take, List.countP_map, Function.comp_def] using hfst

/-- On a tour around a tree each node stands in a scope that is already there. -/
lemma snd_lt_of_withScopes {q : Site × Nat}
    (hq : (Tree.withScopes root.descendants global 1)[j]? = some q) :
    q.2 < 1 + ((Tree.withScopes root.descendants global 1).take j).countP fun p => p.1.isBlock := by
  rw [countP_take_withScopes]
  rw [Tree.withScopes, List.getElem?_mapIdx] at hq
  obtain ⟨s, -, rfl⟩ := Option.map_eq_some_iff.1 hq
  exact scopeAround_lt root j

/-- What holds of the global scope alone, and is kept by declaring and by beginning a scope, holds
of the scopes of a tree. -/
lemma ofSite_induction {P : Scopes → Prop} (root : Site) (hstart : P ⟨[.ofSite root none]⟩)
    (hdeclare : ∀ g scope symbol, P g → P (g.declare scope symbol))
    (hpush : ∀ g parent block, parent < g.size → P g → P (g.push parent block)) :
    P (ofSite root) := by
  rw [ofSite_eq]
  exact enterAll_induction hdeclare hpush _ (fun _ _ hq => snd_lt_of_withScopes hq) hstart

lemma linked_ofSite (root : Site) : (ofSite root).Linked := by
  refine ofSite_induction root (fun i => ?_) (fun g scope symbol h => h.declare scope symbol)
    (fun g parent block hparent h => h.push hparent block)
  cases i <;> rfl

/-- The scope of a block has the range of the block, and around it is the scope that is open
there. -/
lemma frames_block (hb : root.blocks[k]? = some b) (hs : root.descendants[b]? = some s) :
    (ofSite root).frames[k + 1]? =
      some (.ofSite s (some (Tree.scopeAround root.descendants global 1 b))) := by
  have hidx : ((Tree.withScopes root.descendants global 1).findIdxs fun p => p.1.isBlock)[k]? =
      some b := by
    rw [Site.blocks, ← Tree.map_fst_withScopes (l := root.descendants) global 1,
      List.findIdxs_map] at hb
    exact hb
  rw [frames_ofSite, List.getElem?_cons_succ, List.getElem?_map, getElem?_filter_of_findIdxs hidx,
    Tree.withScopes, List.getElem?_mapIdx, hs]
  rfl

/-! ## Nesting -/

/-- The ranges of scopes are nested as the scopes are: a scope lies within the one around it, and
scopes with the same scope around them follow each other. -/
structure Nested (g : Scopes) : Prop where
  linked : g.Linked
  pos : 0 < g.size
  parent_lt : ∀ {i p}, g.parent? i = some p → p < i
  exists_parent : ∀ {i}, 0 < i → i < g.size → ∃ p, g.parent? i = some p
  within : ∀ {i p s t}, g.parent? i = some p → g.frames[i]? = some s → g.frames[p]? = some t →
    t.start ≤ s.start ∧ s.stop ≤ t.stop
  apart : ∀ {i j p s t}, g.parent? i = some p → g.parent? j = some p → i < j →
    g.frames[i]? = some s → g.frames[j]? = some t → s.stop ≤ t.start

lemma parent?_block (hb : root.blocks[k]? = some b) (hs : root.descendants[b]? = some s) :
    (ofSite root).parent? (k + 1) = some (Tree.scopeAround root.descendants global 1 b) := by
  rw [parent?_eq, frames_block hb hs]
  rfl

/-- A scope with a scope around it is that of a block. -/
lemma exists_block (h : (ofSite root).parent? i = some p) :
    ∃ k b s, i = k + 1 ∧ root.blocks[k]? = some b ∧ root.descendants[b]? = some s ∧
      (ofSite root).frames[i]? = some (.ofSite s (some p)) ∧
      p = Tree.scopeAround root.descendants global 1 b := by
  cases i with
  | zero =>
      rw [parent?_eq, frames_ofSite] at h
      cases h
  | succ k =>
      have hlt : k < root.blocks.length := by
        have hsome : ((ofSite root).frames[k + 1]?.bind Scope.parent?).isSome := by
          rw [← parent?_eq, h]
          rfl
        have hsize := size_ofSite root
        by_contra hge
        rw [size_eq] at hsize
        rw [List.getElem?_eq_none (by omega)] at hsome
        cases hsome
      have hb := List.getElem?_eq_getElem hlt
      obtain ⟨⟨s, hs, hblock⟩, -⟩ := getElem?_findIdxs.1 hb
      have hp := (parent?_block hb hs).symm.trans h
      have hframe := frames_block hb hs
      rw [hp] at hframe
      exact ⟨k, _, s, rfl, hb, hs, hframe, (Option.some.inj hp).symm⟩

lemma parent_lt_ofSite (h : (ofSite root).parent? i = some p) : p < i := by
  obtain ⟨k, b, s, rfl, hb, -, -, rfl⟩ := exists_block h
  obtain ⟨-, rfl⟩ := getElem?_findIdxs.1 hb
  exact (scopeAround_lt root b).trans_eq (Nat.add_comm 1 _)

lemma start_le_stop {f : Scope} (h : (ofSite root).parent? i = some p)
    (hf : (ofSite root).frames[i]? = some f) : f.start ≤ f.stop := by
  obtain ⟨k, b, s, -, -, -, hframe, -⟩ := exists_block h
  cases hf.symm.trans hframe
  exact Nat.le_add_right _ _

/-- A block does not enclose a later one with the same scope around it: the scope around the later
one would be that of the first block or one inside of it. -/
lemma not_encloses_of_parent {m c : Nat} (hb : root.blocks[k]? = some b)
    (hc : root.blocks[m]? = some c) (h : (ofSite root).parent? (k + 1) = some p)
    (h' : (ofSite root).parent? (m + 1) = some p) : ¬ root.Encloses b c := by
  intro hencloses
  obtain ⟨⟨s, hs, -⟩, -⟩ := getElem?_findIdxs.1 hc
  have hp := Option.some.inj ((parent?_block hc hs).symm.trans h')
  have hlt := parent_lt_ofSite h
  have hbmem := List.mem_of_getElem? hb
  rcases scopeAround_cases root c with ⟨n, d, hd, hnearest, heq⟩ | ⟨hnone, -⟩
  · have hdb : d < b := Site.blocks_lt hd hb (by omega)
    rcases hnearest.nearest b hbmem hencloses with rfl | hbd
    · exact Nat.lt_irrefl _ hdb
    · exact Nat.lt_asymm hdb (Tree.mem_enclosing.1 hbd).1
  · exact hnone b hbmem hencloses

lemma nested_ofSite (root : Site) : (ofSite root).Nested where
  linked := linked_ofSite root
  pos := by
    rw [size_ofSite]
    exact Nat.succ_pos _
  parent_lt := parent_lt_ofSite
  exists_parent := by
    intro i hpos hlt
    obtain ⟨k, rfl⟩ := Nat.exists_eq_succ_of_ne_zero hpos.ne'
    rw [size_ofSite] at hlt
    have hb := List.getElem?_eq_getElem (Nat.lt_of_succ_lt_succ hlt)
    obtain ⟨⟨s, hs, -⟩, -⟩ := getElem?_findIdxs.1 hb
    exact ⟨_, parent?_block hb hs⟩
  within := by
    intro i p s t h hs ht
    obtain ⟨k, b, site, rfl, hb, hsite, hframe, rfl⟩ := exists_block h
    cases hs.symm.trans hframe
    rcases scopeAround_cases root b with ⟨m, c, hc, hnearest, heq⟩ | ⟨-, heq⟩
    · obtain ⟨⟨outer, houter, -⟩, -⟩ := getElem?_findIdxs.1 hc
      rw [heq, frames_block hc houter] at ht
      cases ht
      exact hnearest.encloses.bounds houter hsite
    · rw [heq, frames_ofSite] at ht
      cases ht
      exact Tree.bounds_sites (List.mem_of_getElem? hsite)
  apart := by
    intro i j p s t hi hj hlt hs ht
    obtain ⟨k, b, site, rfl, hb, hsite, hframe, -⟩ := exists_block hi
    obtain ⟨m, c, site', rfl, hc, hsite', hframe', -⟩ := exists_block hj
    cases hs.symm.trans hframe
    cases ht.symm.trans hframe'
    have hbc : b < c := Site.blocks_lt hb hc (Nat.lt_of_succ_lt_succ hlt)
    refine Tree.ordered_sites root.above root.start root.tree hsite hsite' ?_
    by_contra hle
    exact not_encloses_of_parent hb hc hi hj
      (Tree.mem_enclosing.2 ⟨hbc, site, hsite, Nat.lt_of_not_le hle⟩)

/-! ## Scopes and blocks -/

/-- The scopes are those of the blocks at or below a node: their numbers are those of the blocks in
preorder, and number 0 is the scope of the whole tree. -/
structure Mirrors (g : Scopes) (root : Site) : Prop where
  /-- There is one scope for each block, and the global one. -/
  size_eq_blocks : g.size = root.blocks.length + 1
  /-- The global scope has the range of the whole tree and no scope around it. -/
  global_scope : ∃ s, g.all[global]? = some s ∧
    s.start = root.start ∧ s.stop = root.stop ∧ s.parent? = none
  /-- The scope of a block has its range. -/
  range : ∀ k b t, root.blocks[k]? = some b → root.descendants[b]? = some t →
    ∃ s, g.all[k + 1]? = some s ∧ s.start = t.start ∧ s.stop = t.stop
  /-- Around the scope of a block is that of the innermost block around it, the global one if there
  is no block around it. -/
  parent : ∀ k b, root.blocks[k]? = some b →
    (∃ m c, root.blocks[m]? = some c ∧ root.IsNearestBlock b c ∧ g.parent? (k + 1) = some (m + 1)) ∨
      (∀ c ∈ root.blocks, ¬ root.Encloses c b) ∧ g.parent? (k + 1) = some global
  /-- The links to scopes around and to scopes inside agree. -/
  links : ∀ i c, c ∈ g.children i ↔ g.parent? c = some i
  /-- Each scope but the global one is in one list of children, and once. -/
  unique : ∀ c, 0 < c → c < g.size →
    ∃ i, (g.children i).count c = 1 ∧ ∀ j, j ≠ i → c ∉ g.children j
  /-- A scope lies within the one around it. -/
  within : ∀ i p, g.parent? i = some p → ∃ s t, g.all[i]? = some s ∧ g.all[p]? = some t ∧
    t.start ≤ s.start ∧ s.stop ≤ t.stop
  /-- The children of a scope are in the order of their offsets and do not overlap. -/
  ordered : ∀ i, (g.children i).Pairwise fun c d => ∃ s t, g.all[c]? = some s ∧ g.all[d]? = some t ∧
    s.start ≤ t.start ∧ s.stop ≤ t.start

lemma exists_of_frames {g : Scopes} {f : Scope} (h : g.frames[i]? = some f) :
    ∃ s, g.all[i]? = some s ∧ s.bare = f := by
  rw [frames, List.getElem?_map] at h
  exact Option.map_eq_some_iff.1 h

lemma exists_frame {g : Scopes} (hi : i < g.size) : ∃ f, g.frames[i]? = some f := by
  rw [size_eq] at hi
  exact ⟨_, List.getElem?_eq_getElem hi⟩

lemma lt_size_of_parent {g : Scopes} (h : g.parent? i = some p) : i < g.size := by
  by_contra hge
  rw [parent?, List.getElem?_eq_none (Nat.le_of_not_lt hge)] at h
  cases h

namespace Nested

variable {g : Scopes} {c : Nat}

lemma mem_children (h : g.Nested) : c ∈ g.children i ↔ g.parent? c = some i := by
  rw [h.linked i, List.mem_filter, beq_iff_eq, List.mem_range]
  exact and_iff_right_of_imp lt_size_of_parent

lemma sorted_children (h : g.Nested) (i : Nat) : (g.children i).Pairwise (· < ·) := by
  rw [h.linked i]
  exact List.pairwise_lt_range.filter _

end Nested

/-- The scopes of a tree mirror its blocks, whichever node is taken for its root. -/
theorem mirrors_blocks (root : Site) : (ofSite root).Mirrors root := by
  have hnested := nested_ofSite root
  refine ⟨size_ofSite root, ?_, ?_, ?_, fun i c => hnested.mem_children, ?_, ?_, ?_⟩
  · obtain ⟨s, hs, hbare⟩ :=
      exists_of_frames (i := global) (congrArg (·[global]?) (frames_ofSite root))
    exact ⟨s, hs, congrArg Scope.start hbare, congrArg Scope.stop hbare,
      congrArg Scope.parent? hbare⟩
  · intro k b t hb ht
    obtain ⟨s, hs, hbare⟩ := exists_of_frames (frames_block hb ht)
    exact ⟨s, hs, congrArg Scope.start hbare, congrArg Scope.stop hbare⟩
  · intro k b hb
    obtain ⟨⟨s, hs, -⟩, -⟩ := getElem?_findIdxs.1 hb
    rw [parent?_block hb hs]
    rcases scopeAround_cases root b with ⟨m, c, hc, hnearest, heq⟩ | ⟨hnone, heq⟩
    · exact .inl ⟨m, c, hc, hnearest, congrArg some heq⟩
    · exact .inr ⟨hnone, congrArg some heq⟩
  · intro c hpos hlt
    obtain ⟨p, hp⟩ := hnested.exists_parent hpos hlt
    refine ⟨p, ?_, fun j hj hmem => hj ?_⟩
    · have hnodup := (hnested.sorted_children p).imp fun h => Nat.ne_of_lt h
      exact List.count_eq_one_of_mem hnodup (hnested.mem_children.2 hp)
    · exact Option.some.inj ((hnested.mem_children.1 hmem).symm.trans hp)
  · intro i p hp
    have hi := lt_size_of_parent hp
    obtain ⟨f, hf⟩ := exists_frame hi
    obtain ⟨f', hf'⟩ := exists_frame ((hnested.parent_lt hp).trans hi)
    have hwithin := hnested.within hp hf hf'
    obtain ⟨s, hs, rfl⟩ := exists_of_frames hf
    obtain ⟨t, ht, rfl⟩ := exists_of_frames hf'
    exact ⟨s, t, hs, ht, hwithin⟩
  · intro i
    refine (hnested.sorted_children i).imp_of_mem fun {c d} hc hd hlt => ?_
    have hpc := hnested.mem_children.1 hc
    have hpd := hnested.mem_children.1 hd
    obtain ⟨f, hf⟩ := exists_frame (lt_size_of_parent hpc)
    obtain ⟨f', hf'⟩ := exists_frame (lt_size_of_parent hpd)
    have hstop := hnested.apart hpc hpd hlt hf hf'
    have hstart := start_le_stop hpc hf
    obtain ⟨s, hs, rfl⟩ := exists_of_frames hf
    obtain ⟨t, ht, rfl⟩ := exists_of_frames hf'
    exact ⟨s, t, hs, ht, hstart.trans hstop, hstop⟩

end Scopes

end StyleSheet
