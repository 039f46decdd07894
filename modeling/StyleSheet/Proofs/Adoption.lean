import Mathlib
import StyleSheet.Parse
import StyleSheet.Proofs.Families
import StyleSheet.Proofs.Numbering

/-!
# Adoption

A forest is looked at through the lists of parts of its nodes (`Forest.partsOf`). As long as the
labels differ, each node stands in one of these lists or is a root, and no node is inside of itself
(`Forest.IsOwned`). An adoption that succeeds takes the child out of the list it stands in and puts
it last in that of the parent (`Forest.Moved`); it fails for frozen trees and for a parent that has
the child, or a twin of it, around itself (`Forest.AdoptionLaws`). So neither labels nor tokens come
or go in a run of adoptions.
-/

namespace StyleSheet

namespace LabelledTree

variable {label : Nat} {x : LabelledTree}

lemma aroundIn_eq (cs : List LabelledTree) : aroundIn label cs = cs.flatMap (around label) := by
  induction cs with
  | nil => rfl
  | cons c cs ih => rw [aroundIn, ih, List.flatMap_cons]

lemma findIn?_eq (cs : List LabelledTree) : findIn? label cs = cs.findSome? (find? label) := by
  induction cs with
  | nil => rfl
  | cons c cs ih =>
      rw [findIn?, ih, List.findSome?_cons]
      cases c.find? label <;> rfl

lemma eraseFrom_eq (cs : List LabelledTree) :
    eraseFrom label cs = (cs.filter fun c => !c.isAt label).map (erase label) := by
  induction cs with
  | nil => rfl
  | cons c cs ih =>
      rw [eraseFrom, List.filter_cons, ih]
      cases c.isAt label <;> rfl

lemma appendIn_eq (cs : List LabelledTree) : appendIn label x cs = cs.map (append label x) := by
  induction cs with
  | nil => rfl
  | cons c cs ih => rw [appendIn, ih, List.map_cons]

mutual

lemma labels_ofTree : ∀ (next : Nat) (t : Tree), (ofTree next t).labels = List.range' next t.size
  | _, .leaf _ _ => rfl
  | next, .node k cs => by
      rw [ofTree, labels, labelsOf_ofTrees (next + 1) cs, Tree.size, List.range'_succ]

/-- The labels of a tree that is planted are consecutive. -/
lemma labelsOf_ofTrees : ∀ (next : Nat) (cs : List Tree),
    labelsOf (ofTrees next cs) = List.range' next (Tree.sizeOfRow cs)
  | _, [] => rfl
  | next, c :: cs => by
      rw [ofTrees, labelsOf, labels_ofTree next c, labelsOf_ofTrees (next + c.size) cs,
        Tree.sizeOfRow, ← List.range'_append_1]

end

mutual

lemma tree_ofTree : ∀ (next : Nat) (t : Tree), (ofTree next t).tree = t
  | _, .leaf _ _ => rfl
  | next, .node k cs => by rw [ofTree, tree, trees_ofTrees (next + 1) cs]

/-- Labels change nothing else. -/
lemma trees_ofTrees : ∀ (next : Nat) (cs : List Tree), trees (ofTrees next cs) = cs
  | _, [] => rfl
  | next, c :: cs => by rw [ofTrees, trees, tree_ofTree next c, trees_ofTrees (next + c.size) cs]

end

/-- The kind of a node. -/
def kind? : LabelledTree → Option NodeKind
  | leaf .. => none
  | node _ k _ => some k

end LabelledTree

namespace Forest

open LabelledTree Relation

/-! ## The lists of parts -/

/-- The trees of the forest as a row. -/
def trees (f : Forest) : List LabelledTree := f.stands.map Stand.root

/-- The labels of the nodes. -/
def labels (f : Forest) : List Nat := labelsOf f.trees

/-- The tokens of the forest in order. -/
def leaves (f : Forest) : List Leaf := Tree.leavesOf (LabelledTree.trees f.trees)

/-- The roots as a list of parts. -/
def tops (f : Forest) : List Part := f.trees.map part

/-- The list of parts of the node of a label. -/
def partsOf (f : Forest) (n : Nat) : List Part := (f.find? n).elim [] fun t => t.children.map part

/-- The kind of the node of a label. -/
def kind? (f : Forest) (n : Nat) : Option NodeKind := (f.find? n).bind LabelledTree.kind?

/-- The node `b` is a part of the node `a`. -/
def IsParent (f : Forest) (a b : Nat) : Prop := .node b ∈ f.partsOf a

section

variable {f g : Forest} {parent child n : Nat} {x : LabelledTree}

lemma find?_eq (f : Forest) (n : Nat) : f.find? n = findIn? n f.trees := by
  rw [find?, findIn?_eq, trees, List.findSome?_map]
  rfl

lemma around_eq (f : Forest) (n : Nat) : f.around n = aroundIn n f.trees := by
  rw [around, aroundIn_eq, trees, List.flatMap_map]

lemma find?_eq_none : f.find? n = none ↔ n ∉ f.labels := by
  rw [find?_eq, findIn?_eq_none, labels]

lemma exists_find? (h : n ∈ f.labels) : ∃ x, f.find? n = some x :=
  Option.ne_none_iff_exists'.1 fun hnone => find?_eq_none.1 hnone h

lemma exists_family (h : n ∈ f.labels) : ∃ y ∈ familiesOf f.trees, y.label = n := by
  rw [labels, ← map_label_familiesOf] at h
  exact List.mem_map.1 h

lemma mem_labels_of_family {y : Family} (h : y ∈ familiesOf f.trees) : y.label ∈ f.labels := by
  rw [labels, ← map_label_familiesOf]
  exact List.mem_map_of_mem h

lemma trees_move (hfind : f.find? child = some x) :
    (f.move parent child).trees = appendIn parent x (eraseFrom child f.trees) := by
  rw [move, hfind, appendIn_eq, eraseFrom_eq]
  simp only [touch, append, erase, trees, List.map_map, List.filter_map]
  rfl

lemma partsOf_of_notMem (h : n ∉ f.labels) : f.partsOf n = [] := by
  rw [partsOf, find?_eq_none.2 h]
  rfl

lemma kind?_of_notMem (h : n ∉ f.labels) : f.kind? n = none := by
  rw [kind?, find?_eq_none.2 h]
  rfl

lemma partsOf_family (hnodup : f.labels.Nodup) {y : Family} (hy : y ∈ familiesOf f.trees) :
    f.partsOf y.label = y.parts := by
  obtain ⟨cs, hfind, hparts⟩ := findIn?_of_families hnodup hy
  rw [partsOf, find?_eq, hfind]
  exact hparts

lemma kind?_family (hnodup : f.labels.Nodup) {y : Family} (hy : y ∈ familiesOf f.trees) :
    f.kind? y.label = some y.kind := by
  obtain ⟨cs, hfind, -⟩ := findIn?_of_families hnodup hy
  rw [kind?, find?_eq, hfind]
  rfl

lemma flatMap_partsOf (hnodup : f.labels.Nodup) :
    f.labels.flatMap f.partsOf = (familiesOf f.trees).flatMap Family.parts := by
  rw [labels, ← map_label_familiesOf, List.flatMap_map]
  exact List.flatMap_congr fun y hy => partsOf_family hnodup hy

lemma elementsOf_perm_partsOf (hnodup : f.labels.Nodup) :
    (elementsOf f.trees).Perm (f.tops ++ f.labels.flatMap f.partsOf) := by
  rw [flatMap_partsOf hnodup]
  exact elementsOf_perm f.trees

lemma IsParent.exists_family {a b : Nat} (hnodup : f.labels.Nodup) (h : f.IsParent a b) :
    ∃ y ∈ familiesOf f.trees, y.label = a ∧ .node b ∈ y.parts := by
  by_cases ha : a ∈ f.labels
  · obtain ⟨y, hy, rfl⟩ := Forest.exists_family ha
    exact ⟨y, hy, rfl, partsOf_family hnodup hy ▸ h⟩
  · rw [IsParent, partsOf_of_notMem ha] at h
    cases h

/-- The nodes around a node are those from which it is reached by going from a node to its parts. -/
lemma mem_around_iff {a p : Nat} (hnodup : f.labels.Nodup) (hp : p ∈ f.labels) :
    a ∈ f.around p ↔ ReflTransGen f.IsParent a p := by
  rw [around_eq]
  constructor
  · refine reaches_of_mem_aroundIn fun y hy b hb => ?_
    rw [IsParent, partsOf_family hnodup hy]
    exact hb
  · intro hpath
    induction hpath using ReflTransGen.head_induction_on with
    | refl =>
        obtain ⟨x, hx⟩ := exists_find? hp
        rw [find?_eq] at hx
        exact mem_aroundIn_of_find? (mem_labels_of_part (part_of_findIn? hx)) hx
    | head hparent _ ih =>
        obtain ⟨y, hy, rfl, hb⟩ := hparent.exists_family hnodup
        exact aroundIn_parent hb hnodup hy ih

end

/-! ## Ownership -/

/-- Each node is at one place. -/
structure IsOwned (f : Forest) : Prop where
  /-- The labels differ. -/
  nodup : f.labels.Nodup
  /-- A node is once among the roots and in the lists of parts of all nodes. -/
  once : ∀ n ∈ f.labels, (f.tops ++ f.labels.flatMap f.partsOf).count (.node n) = 1
  /-- A node has one parent at most. -/
  parent_unique : ∀ a b n, f.IsParent a n → f.IsParent b n → a = b
  /-- No node is inside of itself. -/
  acyclic : ∀ n, ¬ TransGen f.IsParent n n

section

variable {f : Forest}

lemma count_node (n : Nat) (l : List Part) :
    l.count (.node n) = (l.filterMap Part.label?).count n := by
  rw [List.count_filterMap, List.count_eq_countP]
  refine List.countP_congr fun part _ => ?_
  cases part <;> simp [Part.label?]

lemma count_partsOf (hnodup : f.labels.Nodup) {n : Nat} (hn : n ∈ f.labels) :
    (f.tops ++ f.labels.flatMap f.partsOf).count (.node n) = 1 := by
  rw [← (elementsOf_perm_partsOf hnodup).count_eq, count_node, ← labelsOf_eq]
  exact List.count_eq_one_of_mem hnodup hn

lemma nodup_parts (hnodup : f.labels.Nodup) :
    (f.labels.flatMap fun n => (f.partsOf n).filterMap Part.label?).Nodup := by
  have hperm := (elementsOf_perm_partsOf hnodup).filterMap Part.label?
  rw [← labelsOf_eq, List.filterMap_append, List.filterMap_flatMap] at hperm
  exact (List.nodup_append.1 (hperm.nodup_iff.1 hnodup)).2.1

lemma IsParent.unique {a b n : Nat} (hnodup : f.labels.Nodup) (ha : f.IsParent a n)
    (hb : f.IsParent b n) : a = b := by
  obtain ⟨y, hy, rfl, -⟩ := ha.exists_family hnodup
  obtain ⟨z, hz, rfl, -⟩ := hb.exists_family hnodup
  by_contra hne
  -- The lists of two nodes are disjoint, since all lists together have each label once.
  have hsymm :
      Std.Symm (Function.onFun List.Disjoint fun n => (f.partsOf n).filterMap Part.label?) :=
    ⟨fun _ _ h => List.Disjoint.symm h⟩
  have hdisjoint := (List.nodup_flatMap.1 (nodup_parts hnodup)).2.forall (mem_labels_of_family hy)
    (mem_labels_of_family hz) hne
  exact hdisjoint (List.mem_filterMap.2 ⟨_, ha, rfl⟩) (List.mem_filterMap.2 ⟨_, hb, rfl⟩)

lemma idxOf_lt_of_sublist {a b : Nat} {l : List Nat} (hnodup : l.Nodup) (h : [a, b].Sublist l) :
    l.idxOf a < l.idxOf b := by
  induction l with
  | nil => cases h
  | cons c l ih =>
      obtain ⟨hc, hl⟩ := List.nodup_cons.1 hnodup
      cases h with
      | cons _ h =>
          have hne : ∀ m ∈ [a, b], c ≠ m := fun m hm heq => hc (heq ▸ h.subset hm)
          rw [List.idxOf_cons_ne _ (hne a (by simp)), List.idxOf_cons_ne _ (hne b (by simp))]
          exact Nat.succ_lt_succ (ih hl h)
      | cons_cons _ h =>
          have hne : a ≠ b := fun heq => hc (heq ▸ List.singleton_sublist.1 h)
          rw [List.idxOf_cons_self, List.idxOf_cons_ne _ hne]
          exact Nat.succ_pos _

/-- A node begins before the nodes inside of it. -/
lemma idxOf_lt_of_transGen {a b : Nat} (hnodup : f.labels.Nodup) (h : TransGen f.IsParent a b) :
    f.labels.idxOf a < f.labels.idxOf b := by
  have hstep : ∀ {a b}, f.IsParent a b → f.labels.idxOf a < f.labels.idxOf b := by
    intro a b hparent
    obtain ⟨y, hy, rfl, hb⟩ := hparent.exists_family hnodup
    exact idxOf_lt_of_sublist hnodup (pair_sublist_labelsOf hb hy)
  induction h with
  | single h => exact hstep h
  | tail _ h ih => exact ih.trans (hstep h)

lemma isOwned_of_nodup (hnodup : f.labels.Nodup) : f.IsOwned where
  nodup := hnodup
  once := fun _ hn => count_partsOf hnodup hn
  parent_unique := fun _ _ _ ha hb => ha.unique hnodup hb
  acyclic := fun _ h => Nat.lt_irrefl _ (idxOf_lt_of_transGen hnodup h)

end

/-! ## Twins -/

/-- Two nodes of one tree, both as they were planted, that have the same kind and parts, begin at
the same offset and have at most three parts at each node. They share a place in the store. -/
structure IsTwin (f : Forest) (a b : Nat) : Prop where
  origin : f.origin a = f.origin b
  shared : ∀ n ∈ [a, b], n ∉ f.changed ∧ ∃ t, f.find? n = some t ∧ t.tree.isSmall = true
  alike : ∃ s t, f.site? a = some s ∧ f.site? b = some t ∧ s.here = t.here

lemma isShared_iff {f : Forest} {n : Nat} :
    f.isShared n = true ↔ n ∉ f.changed ∧ ∃ t, f.find? n = some t ∧ t.tree.isSmall = true := by
  simp [isShared, Option.any_eq_true]

/-- A node passes for another one only if they are twins. -/
lemma isSame_iff_isTwin {f : Forest} {a b : Nat} : f.isSame a b = true ↔ a = b ∨ f.IsTwin a b := by
  rw [isSame, Bool.or_eq_true, beq_iff_eq]
  simp only [Bool.and_eq_true, beq_iff_eq, isShared_iff, Option.any_eq_true, Site.isSame_iff]
  refine or_congr_right ⟨?_, ?_⟩
  · rintro ⟨⟨⟨horigin, ha⟩, hb⟩, s, hs, t, ht, hhere⟩
    exact ⟨horigin, List.forall_mem_cons.2 ⟨ha, List.forall_mem_singleton.2 hb⟩, s, t, hs,
      ht, hhere⟩
  · rintro ⟨horigin, hshared, s, t, hs, ht, hhere⟩
    exact ⟨⟨⟨horigin, hshared a (by simp)⟩, hshared b (by simp)⟩, s, hs, t, ht, hhere⟩

/-! ## One step -/

/-- Neither labels nor kinds, tokens or frozen trees differ between two forests. -/
structure Keeps (f g : Forest) : Prop where
  labels : g.labels.Perm f.labels
  leaves : g.leaves.Perm f.leaves
  kinds : ∀ n, g.kind? n = f.kind? n
  frozen : ∀ n, g.isFrozen n = f.isFrozen n

namespace Keeps

variable {f g h : Forest}

lemma refl (f : Forest) : f.Keeps f := ⟨.refl _, .refl _, fun _ => rfl, fun _ => rfl⟩

lemma trans (hfg : f.Keeps g) (hgh : g.Keeps h) : f.Keeps h where
  labels := hgh.labels.trans hfg.labels
  leaves := hgh.leaves.trans hfg.leaves
  kinds := fun n => (hgh.kinds n).trans (hfg.kinds n)
  frozen := fun n => (hgh.frozen n).trans (hfg.frozen n)

end Keeps

/-- The forest `g` is the forest `f` with the node `child` as the last part of the node `parent`. -/
structure Moved (f g : Forest) (parent child : Nat) : Prop extends f.Keeps g where
  /-- The child is last among the parts of its new parent. The other parts keep their order. -/
  gained : g.partsOf parent = (f.partsOf parent).filter (· ≠ .node child) ++ [.node child]
  /-- It is there once. -/
  once : (g.partsOf parent).count (.node child) = 1
  /-- No other node has it. The other parts keep their order. -/
  lost : ∀ n, n ≠ parent → g.partsOf n = (f.partsOf n).filter (· ≠ .node child)
  /-- The other lists of parts are as they were. -/
  kept : ∀ n, n ≠ parent → ¬ f.IsParent n child → g.partsOf n = f.partsOf n
  /-- It is not a root. The other roots keep their order. -/
  tops : g.tops = f.tops.filter (· ≠ .node child)
  /-- What it holds is as it was. -/
  subtree : g.find? child = f.find? child

section

variable {f g : Forest} {parent child : Nat} {x : LabelledTree}

lemma filterMap_leaf_filter (l : List Part) :
    (l.filter (· ≠ .node child)).filterMap Part.leaf? = l.filterMap Part.leaf? := by
  rw [List.filterMap_filter]
  refine List.filterMap_congr fun part _ => ?_
  cases part with
  | token leaf => rfl
  | node n => exact ite_self _

lemma filterMap_leaf_gain (y : Family) :
    ((y.drop child).gain parent child).parts.filterMap Part.leaf? =
      y.parts.filterMap Part.leaf? := by
  rw [Family.gain, Family.drop, List.filterMap_append, filterMap_leaf_filter]
  split <;> exact List.append_nil _

/-- The tokens are those among the roots and among the parts of the nodes. -/
lemma leaves_perm (f : Forest) : f.leaves.Perm (f.tops.filterMap Part.leaf? ++
    (familiesOf f.trees).flatMap fun y => y.parts.filterMap Part.leaf?) := by
  have hperm := (elementsOf_perm f.trees).filterMap Part.leaf?
  rw [List.filterMap_append, List.filterMap_flatMap, ← leavesOf_eq] at hperm
  exact hperm

lemma tops_move (hfind : f.find? child = some x) :
    (f.move parent child).tops = f.tops.filter (· ≠ .node child) := by
  rw [tops, trees_move hfind, map_part_appendIn, map_part_eraseFrom, tops]

lemma notMem_of_frozen {s : Stand} {n : Nat} (hs : s ∈ f.stands) (hfrozen : s.frozen = true)
    (hn : ¬ f.isFrozen n = true) : n ∉ s.root.labels := by
  intro hmem
  refine hn (List.any_eq_true.2 ⟨s, hs, ?_⟩)
  rw [hfrozen, Bool.true_and, List.contains_iff_mem]
  exact hmem

/-- A frozen tree has neither the parent nor the child, so it stays as it is. -/
lemma isFrozen_move (hparent : ¬ f.isFrozen parent = true) (hchild : ¬ f.isFrozen child = true)
    (n : Nat) : (f.move parent child).isFrozen n = f.isFrozen n := by
  rw [move]
  split
  · rfl
  · rename_i part _
    simp only [touch, append, erase, isFrozen, List.any_map, List.any_filter]
    rw [Bool.eq_iff_iff, List.any_eq_true, List.any_eq_true]
    -- Trees that are not frozen count for neither side.
    refine exists_congr fun s => and_congr_right fun hs => ?_
    cases hfrozen : s.frozen with
    | false => simp [hfrozen]
    | true =>
        have hp := notMem_of_frozen hs hfrozen hparent
        have hc := notMem_of_frozen hs hfrozen hchild
        have hat : s.root.isAt child = false :=
          Bool.eq_false_iff.2 fun h => hc (mem_labels_of_part (isAt_iff.1 h))
        simp only [Function.comp_apply, hat, erase_of_notMem hc, append_of_notMem hp, hfrozen,
          Bool.not_false, Bool.true_and]

variable (hnodup : f.labels.Nodup) (hfind : f.find? child = some x) (hparent : parent ∈ f.labels)
  (hinside : parent ∉ x.labels)
include hnodup hfind hparent hinside

lemma families_move : (familiesOf (f.move parent child).trees).Perm
    ((familiesOf f.trees).map fun y => (y.drop child).gain parent child) := by
  rw [trees_move hfind]
  exact familiesOf_move hnodup (find?_eq f child ▸ hfind) hparent hinside

lemma labels_move : (f.move parent child).labels.Perm f.labels := by
  have hperm := (families_move hnodup hfind hparent hinside).map Family.label
  rw [map_label_familiesOf, List.map_map] at hperm
  rw [labels, labels, ← map_label_familiesOf f.trees]
  exact hperm

lemma leaves_move : (f.move parent child).leaves.Perm f.leaves := by
  -- Roots and lists of parts only lose and gain labels, so each of them has the tokens it had.
  refine (leaves_perm _).trans (.trans ?_ (leaves_perm f).symm)
  rw [tops_move hfind, filterMap_leaf_filter]
  refine (((families_move hnodup hfind hparent hinside).flatMap_right _).trans ?_).append_left _
  rw [List.flatMap_map]
  simp only [filterMap_leaf_gain]
  rfl

lemma family_move {n : Nat} (hn : n ∈ f.labels) : ∃ y ∈ familiesOf f.trees, y.label = n ∧
    (y.drop child).gain parent child ∈ familiesOf (f.move parent child).trees := by
  obtain ⟨y, hy, rfl⟩ := exists_family hn
  exact ⟨y, hy, rfl,
    (families_move hnodup hfind hparent hinside).mem_iff.2 (List.mem_map_of_mem hy)⟩

lemma kind?_move (n : Nat) : (f.move parent child).kind? n = f.kind? n := by
  have hlabels := labels_move hnodup hfind hparent hinside
  by_cases hn : n ∈ f.labels
  · obtain ⟨y, hy, rfl, hmoved⟩ := family_move hnodup hfind hparent hinside hn
    exact (kind?_family (hlabels.nodup_iff.2 hnodup) hmoved).trans (kind?_family hnodup hy).symm
  · rw [kind?_of_notMem hn, kind?_of_notMem (mt hlabels.mem_iff.1 hn)]

lemma partsOf_move (n : Nat) : (f.move parent child).partsOf n =
    (f.partsOf n).filter (· ≠ .node child) ++ if n = parent then [.node child] else [] := by
  have hlabels := labels_move hnodup hfind hparent hinside
  by_cases hn : n ∈ f.labels
  · obtain ⟨y, hy, rfl, hmoved⟩ := family_move hnodup hfind hparent hinside hn
    rw [partsOf_family hnodup hy]
    exact partsOf_family (hlabels.nodup_iff.2 hnodup) hmoved
  · have hne : n ≠ parent := fun heq => hn (heq ▸ hparent)
    rw [partsOf_of_notMem hn, partsOf_of_notMem (mt hlabels.mem_iff.1 hn), if_neg hne]
    rfl

lemma find?_move : (f.move parent child).find? child = some x := by
  rw [find?_eq] at hfind
  have hperm := labelsOf_eraseFrom hnodup hfind
  have hmem := (List.mem_append.1 (hperm.mem_iff.1 hparent)).resolve_left hinside
  have hpart := part_of_findIn? hfind
  have hchild : child ∉ labelsOf (eraseFrom child f.trees) := fun hrest =>
    (List.nodup_append.1 (hperm.nodup_iff.1 hnodup)).2.2 _ (mem_labels_of_part hpart) _ hrest rfl
  rw [find?_eq, trees_move (find?_eq f child ▸ hfind)]
  exact findIn?_appendIn hpart hmem hchild

end

section

variable {f g : Forest} {parent child : Nat}

lemma adopt_eq_immutable : f.adopt parent child = .error .immutable ↔
    f.isFrozen parent = true ∨ f.isFrozen child = true := by
  rw [adopt, ← Bool.or_eq_true]
  split
  · simp [*]
  · split <;> simp [*]

lemma adopt_eq_cycle : f.adopt parent child = .error .cycle ↔
    ¬ (f.isFrozen parent = true ∨ f.isFrozen child = true) ∧
      ∃ a ∈ f.around parent, f.isSame a child = true := by
  rw [adopt, ← Bool.or_eq_true, ← List.any_eq_true]
  split
  · simp [*]
  · split <;> simp [*]

lemma adopt_eq_ok : f.adopt parent child = .ok g ↔
    ¬ (f.isFrozen parent = true ∨ f.isFrozen child = true) ∧
      (¬ ∃ a ∈ f.around parent, f.isSame a child = true) ∧ f.move parent child = g := by
  rw [adopt, ← Bool.or_eq_true, ← List.any_eq_true]
  split
  · simp [*]
  · split <;> simp [*]

lemma moved_of_adopt (hnodup : f.labels.Nodup) (hparent : parent ∈ f.labels)
    (hchild : child ∈ f.labels) (hok : f.adopt parent child = .ok g) : f.Moved g parent child := by
  obtain ⟨hfrozen, hcycle, rfl⟩ := adopt_eq_ok.1 hok
  obtain ⟨hp, hc⟩ := not_or.1 hfrozen
  obtain ⟨x, hfind⟩ := exists_find? hchild
  -- The child itself is not around the parent, so the parent is not inside of the child.
  have hinside : parent ∉ x.labels := by
    intro hmem
    refine hcycle ⟨child, ?_, isSame_iff_isTwin.2 (.inl rfl)⟩
    rw [around_eq]
    exact mem_aroundIn_of_find? hmem (find?_eq f child ▸ hfind)
  have hparts := partsOf_move hnodup hfind hparent hinside
  have hgained := (hparts parent).trans (by rw [if_pos rfl])
  have hlost : ∀ n, n ≠ parent →
      (f.move parent child).partsOf n = (f.partsOf n).filter (· ≠ .node child) := by
    intro n hn
    rw [hparts, if_neg hn, List.append_nil]
  exact {
    labels := labels_move hnodup hfind hparent hinside
    leaves := leaves_move hnodup hfind hparent hinside
    kinds := kind?_move hnodup hfind hparent hinside
    frozen := isFrozen_move hp hc
    gained := hgained
    once := by
      rw [hgained, List.count_append, List.count_eq_zero.2 (by simp), List.count_singleton_self]
    lost := hlost
    kept := by
      intro n hn hnot
      refine (hlost n hn).trans (List.filter_eq_self.2 fun part hpart => decide_eq_true ?_)
      rintro rfl
      exact hnot hpart
    tops := tops_move hfind
    subtree := (find?_move hnodup hfind hparent hinside).trans hfind.symm }

end

/-- When an adoption fails, and what it does when it does not. -/
structure AdoptionLaws (f : Forest) (parent child : Nat) : Prop where
  /-- It fails at frozen trees. -/
  immutable_iff : f.adopt parent child = .error .immutable ↔
    f.isFrozen parent = true ∨ f.isFrozen child = true
  /-- Elsewhere it fails if the child or a twin of it is the parent or around the parent. -/
  cycle_iff : f.adopt parent child = .error .cycle ↔
    ¬ (f.isFrozen parent = true ∨ f.isFrozen child = true) ∧
      ∃ a, ReflTransGen f.IsParent a parent ∧ (a = child ∨ f.IsTwin a child)
  /-- Otherwise it moves the child. -/
  moved : ∀ g, f.adopt parent child = .ok g → f.Moved g parent child

lemma adoptionLaws {f : Forest} {parent child : Nat} (hnodup : f.labels.Nodup)
    (hparent : parent ∈ f.labels) (hchild : child ∈ f.labels) : f.AdoptionLaws parent child where
  immutable_iff := adopt_eq_immutable
  cycle_iff := by
    rw [adopt_eq_cycle]
    simp only [mem_around_iff hnodup hparent, isSame_iff_isTwin]
  moved := fun _ hok => moved_of_adopt hnodup hparent hchild hok

/-! ## Runs -/

/-- The forest after a step, in which a parent is to adopt a child. A step that fails changes
nothing. -/
def attempt (f : Forest) (step : Nat × Nat) : Forest :=
  match f.adopt step.1 step.2 with
  | .ok g => g
  | .error _ => f

/-- The forest after some steps. -/
def run (f : Forest) (steps : List (Nat × Nat)) : Forest := steps.foldl attempt f

/-- Two trees. -/
def pair (first second : Tree) (frozen₁ frozen₂ : Bool) : Forest :=
  (empty.plant first frozen₁).plant second frozen₂

lemma labels_pair (first second : Tree) (frozen₁ frozen₂ : Bool) :
    (pair first second frozen₁ frozen₂).labels = List.range (first.size + second.size) := by
  simp only [pair, plant, empty, labels, trees, nextLabel, labelsOf, labels_ofTree, List.nil_append,
    List.cons_append, List.map_cons, List.map_nil, List.flatMap_cons, List.flatMap_nil,
    List.append_nil, List.length_nil, List.length_range']
  rw [List.range_eq_range', ← List.range'_append_1, Nat.zero_add]

lemma leaves_pair (first second : Tree) (frozen₁ frozen₂ : Bool) :
    (pair first second frozen₁ frozen₂).leaves = first.leaves ++ second.leaves := by
  simp only [pair, plant, empty, leaves, trees, LabelledTree.trees, tree_ofTree, Tree.leavesOf,
    List.nil_append, List.cons_append, List.map_cons, List.map_nil, List.append_nil]

lemma keeps_attempt {f : Forest} {step : Nat × Nat} (hnodup : f.labels.Nodup)
    (hstep : step.1 ∈ f.labels ∧ step.2 ∈ f.labels) : f.Keeps (f.attempt step) := by
  rw [attempt]
  split
  · rename_i g hok
    exact (moved_of_adopt hnodup hstep.1 hstep.2 hok).toKeeps
  · exact .refl f

lemma keeps_run {f : Forest} {steps : List (Nat × Nat)} (hnodup : f.labels.Nodup)
    (hsteps : ∀ step ∈ steps, step.1 ∈ f.labels ∧ step.2 ∈ f.labels) : f.Keeps (f.run steps) := by
  induction steps generalizing f with
  | nil => exact .refl f
  | cons step steps ih =>
      -- The labels stay the same, so the further steps are about nodes of the new forest.
      have hkeeps := keeps_attempt hnodup (hsteps step List.mem_cons_self)
      refine hkeeps.trans (ih (hkeeps.labels.nodup_iff.2 hnodup) fun next hnext => ?_)
      have hnext := hsteps next (List.mem_cons_of_mem _ hnext)
      exact hnext.imp hkeeps.labels.mem_iff.2 hkeeps.labels.mem_iff.2

/-- In a run of adoptions among the nodes of two trees, each of them frozen or not, each node stays
at one place, no node gets inside of itself, and the tokens stay the same up to order. Each further
step fails at frozen trees, or with a parent that has the child or a twin of the child around it,
and otherwise moves the child alone. -/
theorem adoption_keeps_forest (first second : Tree) (frozen₁ frozen₂ : Bool)
    (steps : List (Nat × Nat))
    (hsteps : ∀ step ∈ steps, step.1 < first.size + second.size ∧
      step.2 < first.size + second.size) :
    ((pair first second frozen₁ frozen₂).run steps).IsOwned ∧
      ((pair first second frozen₁ frozen₂).run steps).leaves.Perm (first.leaves ++ second.leaves) ∧
      (pair first second frozen₁ frozen₂).Keeps ((pair first second frozen₁ frozen₂).run steps) ∧
      ∀ parent < first.size + second.size, ∀ child < first.size + second.size,
        ((pair first second frozen₁ frozen₂).run steps).AdoptionLaws parent child := by
  have hmem : ∀ n, n ∈ (pair first second frozen₁ frozen₂).labels ↔
      n < first.size + second.size := by
    intro n
    rw [labels_pair, List.mem_range]
  have hnodup : (pair first second frozen₁ frozen₂).labels.Nodup := by
    rw [labels_pair]
    exact List.nodup_range
  have hkeeps := keeps_run hnodup fun step hstep => (hsteps step hstep).imp (hmem _).2 (hmem _).2
  have hrun := hkeeps.labels.nodup_iff.2 hnodup
  refine ⟨isOwned_of_nodup hrun, ?_, hkeeps, fun parent hparent child hchild => ?_⟩
  · rw [← leaves_pair first second frozen₁ frozen₂]
    exact hkeeps.leaves
  · exact adoptionLaws hrun (hkeeps.labels.mem_iff.2 ((hmem parent).2 hparent))
      (hkeeps.labels.mem_iff.2 ((hmem child).2 hchild))

/-- A sheet as it is parsed. -/
def sheet (source : String) : Tree := (parse .css .stylesheet (Text.ofString source)).root.tree

/-- A block adopts the whole other sheet, whose rule then moves out of it. The sheet around it
cannot be adopted in turn. -/
theorem adoption_keeps_forest_across_sheets :
    (∀ step ∈ [(6, 7), (0, 8), (7, 0)], step.1 < (sheet "a{}").size + (sheet "b{}").size ∧
      step.2 < (sheet "a{}").size + (sheet "b{}").size) ∧
    ((pair (sheet "a{}") (sheet "b{}") false false).run [(6, 7), (0, 8), (7, 0)]).IsOwned ∧
    ((pair (sheet "a{}") (sheet "b{}") false false).run [(6, 7), (0, 8), (7, 0)]).tops = [.node 0] ∧
    ((pair (sheet "a{}") (sheet "b{}") false false).run [(6, 7), (0, 8), (7, 0)]).partsOf 0 =
      [.node 1, .node 8] := by
  have hsize : (sheet "a{}").size + (sheet "b{}").size = 14 := by decide +kernel
  have hsteps : ∀ step ∈ [(6, 7), (0, 8), (7, 0)],
      step.1 < (sheet "a{}").size + (sheet "b{}").size ∧
      step.2 < (sheet "a{}").size + (sheet "b{}").size := by
    rw [hsize]
    decide
  exact ⟨hsteps, (adoption_keeps_forest _ _ false false _ hsteps).1, by decide +kernel⟩

/-- Two blocks that are not closed leave two empty nodes at the end of the text. One of them is
refused by the other as if it were around it. -/
theorem adopt_refuses_twin :
    (pair (sheet "a\x7bb\x7b") (sheet "") false false).adopt 13 14 = .error .cycle ∧
      ¬ ReflTransGen (pair (sheet "a\x7bb\x7b") (sheet "") false false).IsParent 14 13 := by
  constructor
  · exact adopt_eq_cycle.2 ⟨by decide +kernel, 13, by decide +kernel, by decide +kernel⟩
  · have hlabels := labels_pair (sheet "a\x7bb\x7b") (sheet "") false false
    have hparent : 13 ∈ (pair (sheet "a\x7bb\x7b") (sheet "") false false).labels := by
      decide +kernel
    rw [← mem_around_iff (hlabels ▸ List.nodup_range) hparent]
    decide +kernel

end Forest

end StyleSheet
