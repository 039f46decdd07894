import Mathlib
import StyleSheet.Tree.Site

/-!
# Nodes by their numbers

The nodes of a tree are numbered in preorder: the node itself has number 0, and the nodes inside of
a node directly follow it. So a node of `n` nodes that has number `i` holds the numbers from `i` up
to `i + n`, and one node encloses another one exactly if the number of the second is in that range.
Numbers tell nodes apart where offsets and contents do not.

What is inside of a node of a tree is inside of the tree (`Site.mem_descendants_of_children`).
-/

namespace StyleSheet

/-- Two nodes are the same if they have the same place. -/
lemma Site.isSame_iff {s t : Site} : s.isSame t = true ↔ s.here = t.here := by
  obtain ⟨⟨k, cs, start⟩, above⟩ := s
  obtain ⟨⟨k', cs', start'⟩, above'⟩ := t
  simp only [isSame, Site.start, Site.kind, Site.tree, Place.tree, Bool.and_eq_true, beq_iff_eq,
    Tree.node.injEq, Place.mk.injEq]
  tauto

namespace Tree

/-! ## Bounds of nodes -/

mutual

lemma bounds_sites {above : List Place} {start : Nat} {s : Site} :
    ∀ {t : Tree}, s ∈ sites above start t → start ≤ s.start ∧ s.stop ≤ start + t.length
  | .leaf _ _, h => nomatch h
  | .node k cs, h => by
      rw [Tree.length]
      rcases List.mem_cons.1 h with rfl | h
      · exact ⟨le_refl _, le_refl _⟩
      · exact bounds_sitesOf h

/-- The nodes of a row lie between its bounds. -/
lemma bounds_sitesOf {above : List Place} {start : Nat} {s : Site} :
    ∀ {cs : List Tree}, s ∈ sitesOf above start cs → start ≤ s.start ∧ s.stop ≤ start + lengthOf cs
  | [], h => nomatch h
  | c :: cs, h => by
      rw [lengthOf]
      rcases List.mem_append.1 h with h | h
      · have := bounds_sites h
        omega
      · have := bounds_sitesOf h
        omega

end

mutual

lemma size_sites {above : List Place} {start : Nat} {s : Site} :
    ∀ {t : Tree}, s ∈ sites above start t → s.tree.size ≤ t.size
  | .leaf _ _, h => nomatch h
  | .node k cs, h => by
      rcases List.mem_cons.1 h with rfl | h
      · exact le_refl _
      · exact (size_sitesOf h).trans (Nat.le_succ _)

/-- The nodes of a row are not larger than the row. -/
lemma size_sitesOf {above : List Place} {start : Nat} {s : Site} :
    ∀ {cs : List Tree}, s ∈ sitesOf above start cs → s.tree.size ≤ sizeOfRow cs
  | [], h => nomatch h
  | c :: cs, h => by
      rw [sizeOfRow]
      rcases List.mem_append.1 h with h | h
      · have := size_sites h
        omega
      · have := size_sitesOf h
        omega

end

mutual

lemma parent_of_sites {above : List Place} {start : Nat} {s : Site} : ∀ {t : Tree},
    s ∈ sites above start t → s.above = above ∨ ∃ s' ∈ sites above start t, s.parent? = some s'
  | .leaf _ _, h => nomatch h
  | .node k cs, h => by
      rcases List.mem_cons.1 h with rfl | h
      · exact .inl rfl
      · refine .inr ?_
        rcases parent_of_sitesOf h with habove | ⟨s', hs', hparent⟩
        · exact ⟨_, List.mem_cons_self, by rw [Site.parent?, habove]⟩
        · exact ⟨s', List.mem_cons_of_mem _ hs', hparent⟩

/-- A node of a row is a part of what is around the row, or of another node of the row. -/
lemma parent_of_sitesOf {above : List Place} {start : Nat} {s : Site} : ∀ {cs : List Tree},
    s ∈ sitesOf above start cs →
      s.above = above ∨ ∃ s' ∈ sitesOf above start cs, s.parent? = some s'
  | [], h => nomatch h
  | c :: cs, h => by
      rcases List.mem_append.1 h with h | h
      · refine (parent_of_sites h).imp_right ?_
        rintro ⟨s', hs', hparent⟩
        exact ⟨s', List.mem_append_left _ hs', hparent⟩
      · refine (parent_of_sitesOf h).imp_right ?_
        rintro ⟨s', hs', hparent⟩
        exact ⟨s', List.mem_append_right _ hs', hparent⟩

end

/-! ## Nodes inside of nodes -/

lemma mem_sitesOf_of_nodesOf {above : List Place} {start : Nat} {cs : List Tree} {s : Site}
    (h : s ∈ nodesOf above start cs) : s ∈ sitesOf above start cs := by
  induction cs generalizing start with
  | nil => cases h
  | cons c cs ih =>
      refine List.mem_append.2 ?_
      cases c with
      | leaf k t => exact .inr (ih h)
      | node k ds =>
          rcases List.mem_cons.1 h with rfl | h
          · exact .inl List.mem_cons_self
          · exact .inr (ih h)

mutual

lemma mem_sites_of_inner {above : List Place} {start : Nat} {s c : Site} (hc : c ∈ s.descendants) :
    ∀ {t : Tree}, s ∈ sites above start t → c ∈ sites above start t
  | .leaf _ _, h => nomatch h
  | .node k cs, h => by
      rcases List.mem_cons.1 h with rfl | h
      · exact hc
      · exact List.mem_cons_of_mem _ (mem_sitesOf_of_inner hc h)

/-- What is inside of a node of a row is inside of the row. -/
lemma mem_sitesOf_of_inner {above : List Place} {start : Nat} {s c : Site}
    (hc : c ∈ s.descendants) :
    ∀ {cs : List Tree}, s ∈ sitesOf above start cs → c ∈ sitesOf above start cs
  | [], h => nomatch h
  | _ :: _, h =>
      List.mem_append.2
        ((List.mem_append.1 h).imp (mem_sites_of_inner hc) (mem_sitesOf_of_inner hc))

end

/-! ## Numbers -/

mutual

@[simp] lemma length_sites (above : List Place) (start : Nat) :
    ∀ t : Tree, (sites above start t).length = t.size
  | .leaf _ _ => rfl
  | .node k cs => by rw [sites, List.length_cons, length_sitesOf, size]

/-- There is one site for each node. -/
@[simp] lemma length_sitesOf (above : List Place) (start : Nat) :
    ∀ cs : List Tree, (sitesOf above start cs).length = sizeOfRow cs
  | [] => rfl
  | c :: cs => by rw [sitesOf, List.length_append, length_sites, length_sitesOf, sizeOfRow]

end

/-- A row of nodes has, behind each of its nodes, as many nodes as are inside of that one. -/
def Closed (l : List Site) : Prop := ∀ i s, l[i]? = some s → i + s.tree.size ≤ l.length

/-- The numbers of the nodes that enclose the node of number `j`, the outermost one first. -/
def enclosing (l : List Site) (j : Nat) : List Nat :=
  (List.range j).filter fun i => l[i]?.any fun s => j < i + s.tree.size

section

variable {l l' : List Site} {s : Site} {i j : Nat}

lemma mem_enclosing : i ∈ enclosing l j ↔ i < j ∧ ∃ s, l[i]? = some s ∧ j < i + s.tree.size := by
  simp [enclosing, Option.any_eq_true]

/-! ## Nodes around nodes -/

lemma Closed.append (h : Closed l) (h' : Closed l') : Closed (l ++ l') := by
  intro i s hs
  rw [List.length_append]
  rcases Nat.lt_or_ge i l.length with hi | hi
  · rw [List.getElem?_append_left hi] at hs
    exact (h i s hs).trans (Nat.le_add_right _ _)
  · rw [List.getElem?_append_right hi] at hs
    have := h' _ s hs
    omega

lemma Closed.cons (h : Closed l) (hs : s.tree.size = l.length + 1) : Closed (s :: l) := by
  intro i t ht
  rw [List.length_cons]
  cases i with
  | zero =>
      cases ht
      omega
  | succ i =>
      have := h i t ht
      omega

lemma enclosing_append_left (hj : j < l.length) : enclosing (l ++ l') j = enclosing l j := by
  refine List.filter_congr fun i hi => ?_
  rw [List.getElem?_append_left ((List.mem_range.1 hi).trans hj)]

/-- The nodes of a closed row do not enclose what is behind it. -/
lemma enclosing_append_right (h : Closed l) (j : Nat) :
    enclosing (l ++ l') (l.length + j) = (enclosing l' j).map (l.length + ·) := by
  have hfront : (List.range l.length).filter
      (fun i => (l ++ l')[i]?.any fun s => l.length + j < i + s.tree.size) = [] := by
    refine List.filter_eq_nil_iff.2 fun i hi => ?_
    rw [List.getElem?_append_left (List.mem_range.1 hi), Option.any_eq_true]
    rintro ⟨s, hs, hlt⟩
    have := h i s hs
    have := of_decide_eq_true hlt
    omega
  rw [enclosing, List.range_add, List.filter_append, hfront, List.nil_append, List.filter_map]
  refine congrArg _ (List.filter_congr fun i _ => ?_)
  rw [Function.comp_apply, List.getElem?_append_right (Nat.le_add_right _ _),
    Nat.add_sub_cancel_left]
  simp only [Nat.add_assoc, Nat.add_lt_add_iff_left]

/-- A node encloses all nodes that are inside of it. -/
lemma enclosing_cons (hs : s.tree.size = l.length + 1) (hj : j < l.length) :
    enclosing (s :: l) (j + 1) = 0 :: (enclosing l j).map (· + 1) := by
  rw [enclosing, List.range_succ_eq_map, List.filter_cons_of_pos, List.filter_map]
  · refine congrArg _ (congrArg _ (List.filter_congr fun i _ => ?_))
    simp only [Function.comp_apply, Nat.succ_eq_add_one, List.getElem?_cons_succ]
    congr 1
    funext t
    exact decide_eq_decide.2 (by omega)
  · simp only [List.getElem?_cons_zero, Option.any_some, decide_eq_true_eq]
    omega

end

mutual

lemma closed_sites (above : List Place) (start : Nat) : ∀ t : Tree, Closed (sites above start t)
  | .leaf _ _ => fun i s hs => by cases hs
  | .node k cs => (closed_sitesOf _ start cs).cons (by simp [Site.tree, Place.tree, size])

/-- The nodes inside of the nodes of a row are in the row. -/
lemma closed_sitesOf (above : List Place) (start : Nat) :
    ∀ cs : List Tree, Closed (sitesOf above start cs)
  | [] => fun i s hs => by cases hs
  | c :: cs => (closed_sites above start c).append (closed_sitesOf above _ cs)

end

mutual

lemma slice_sites (above : List Place) (start : Nat) : ∀ (t : Tree) {i : Nat} {s : Site},
    (sites above start t)[i]? = some s →
      ((sites above start t).drop i).take s.tree.size = s.descendants
  | .leaf _ _, i, s, hs => by cases hs
  | .node k cs, 0, s, hs => by
      cases hs
      rw [List.drop_zero, List.take_of_length_le (by rw [length_sites]; exact le_refl _)]
      rfl
  | .node k cs, i + 1, s, hs => by
      rw [sites, List.drop_succ_cons]
      exact slice_sitesOf _ start cs hs

/-- The nodes inside of a node follow it directly. -/
lemma slice_sitesOf (above : List Place) (start : Nat) : ∀ (cs : List Tree) {i : Nat} {s : Site},
    (sitesOf above start cs)[i]? = some s →
      ((sitesOf above start cs).drop i).take s.tree.size = s.descendants
  | [], i, s, hs => by cases hs
  | c :: cs, i, s, hs => by
      rw [sitesOf] at hs ⊢
      rcases Nat.lt_or_ge i (sites above start c).length with hi | hi
      · rw [List.getElem?_append_left hi] at hs
        have hclosed := closed_sites above start c i s hs
        rw [List.drop_append_of_le_length hi.le, List.take_append_of_le_length]
        · exact slice_sites above start c hs
        · rw [List.length_drop]
          omega
      · rw [List.getElem?_append_right hi] at hs
        rw [List.drop_append, List.drop_eq_nil_of_le hi, List.nil_append]
        exact slice_sitesOf above _ cs hs

end

mutual

lemma ordered_sites (above : List Place) (start : Nat) : ∀ (t : Tree) {i j : Nat} {s s' : Site},
    (sites above start t)[i]? = some s → (sites above start t)[j]? = some s' →
      i + s.tree.size ≤ j → s.stop ≤ s'.start
  | .leaf _ _, i, j, s, s', hs, hs', hle => by cases hs
  | .node k cs, 0, j, s, s', hs, hs', hle => by
      cases hs
      have hlt := (List.getElem?_eq_some_iff.1 hs').1
      rw [length_sites] at hlt
      exact absurd hlt (by simpa [Site.tree, Place.tree] using hle)
  | .node k cs, i + 1, 0, s, s', hs, hs', hle => by omega
  | .node k cs, i + 1, j + 1, s, s', hs, hs', hle =>
      ordered_sitesOf _ start cs hs hs' (by omega)

/-- A node that neither encloses another one nor begins behind it ends before it. -/
lemma ordered_sitesOf (above : List Place) (start : Nat) :
    ∀ (cs : List Tree) {i j : Nat} {s s' : Site},
    (sitesOf above start cs)[i]? = some s → (sitesOf above start cs)[j]? = some s' →
      i + s.tree.size ≤ j → s.stop ≤ s'.start
  | [], i, j, s, s', hs, hs', hle => by cases hs
  | c :: cs, i, j, s, s', hs, hs', hle => by
      rw [sitesOf] at hs hs'
      rcases Nat.lt_or_ge i (sites above start c).length with hi | hi
      · rw [List.getElem?_append_left hi] at hs
        rcases Nat.lt_or_ge j (sites above start c).length with hj | hj
        · rw [List.getElem?_append_left hj] at hs'
          exact ordered_sites above start c hs hs' hle
        · rw [List.getElem?_append_right hj] at hs'
          have hbounds := bounds_sites (List.mem_of_getElem? hs)
          have hbounds' := bounds_sitesOf (List.mem_of_getElem? hs')
          omega
      · rw [List.getElem?_append_right hi] at hs
        rw [List.getElem?_append_right (hi.trans (by omega))] at hs'
        exact ordered_sitesOf above _ cs hs hs' (by omega)

end

end Tree

/-- The parts of a node of a tree are nodes of the tree. -/
lemma Site.mem_descendants_of_children {s c root : Site} (hs : s ∈ root.descendants)
    (hc : c ∈ s.children) : c ∈ root.descendants :=
  Tree.mem_sites_of_inner (List.mem_cons_of_mem _ (Tree.mem_sitesOf_of_nodesOf hc)) hs

end StyleSheet
