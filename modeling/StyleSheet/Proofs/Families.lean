import Mathlib
import StyleSheet.Forest

/-!
# Nodes and their parts

A row of labelled trees is read as a flat list: each node with the list of its parts, in which a
node stands by its label (`LabelledTree.families`). Taking a node out of a row drops its label from
one of these lists and takes its own families out; appending a node does the reverse. So moving a
node changes, up to the order of families, nothing but the lists of its old and its new parent.
-/

namespace StyleSheet

/-- A part of a node as it stands in the list of parts: a token, or the label of a node. -/
inductive Part where
  /-- A token with its text. -/
  | token (leaf : Leaf)
  /-- A node, by its label. -/
  | node (label : Nat)
deriving DecidableEq, Repr

namespace Part

/-- The token, if the part is one. -/
def leaf? : Part → Option Leaf
  | token l => some l
  | node _ => none

/-- The label, if the part is a node. -/
def label? : Part → Option Nat
  | token _ => none
  | node l => some l

end Part

/-- A node with the list of its parts. -/
structure Family where
  label : Nat
  kind : NodeKind
  parts : List Part
deriving DecidableEq, Repr

namespace Family

/-- The family without a node among its parts. -/
def drop (child : Nat) (x : Family) : Family := { x with parts := x.parts.filter (· ≠ .node child) }

/-- The family with a new last part, if it is that of `parent`. -/
def gain (parent child : Nat) (x : Family) : Family :=
  { x with parts := x.parts ++ if x.label = parent then [.node child] else [] }

lemma drop_of_notMem {child : Nat} {x : Family} (h : .node child ∉ x.parts) : x.drop child = x := by
  have hparts : x.parts.filter (· ≠ .node child) = x.parts := by
    refine List.filter_eq_self.2 fun part hpart => decide_eq_true ?_
    rintro rfl
    exact h hpart
  rw [drop, hparts]

lemma gain_of_ne {parent child : Nat} {x : Family} (h : x.label ≠ parent) :
    x.gain parent child = x := by
  rw [gain, if_neg h, List.append_nil]

end Family

namespace LabelledTree

/-- The tree as a part of a node. -/
def part : LabelledTree → Part
  | leaf k t => .token ⟨k, t⟩
  | node l _ _ => .node l

/-- The parts of a node; a leaf has none. -/
def children : LabelledTree → List LabelledTree
  | leaf .. => []
  | node _ _ cs => cs

mutual

/-- The nodes of a tree, an enclosing one first, each with the list of its parts. -/
def families : LabelledTree → List Family
  | leaf .. => []
  | node l k cs => ⟨l, k, cs.map part⟩ :: familiesOf cs

/-- The nodes of a row of trees, each with the list of its parts. -/
def familiesOf : List LabelledTree → List Family
  | [] => []
  | c :: cs => c.families ++ familiesOf cs

end

mutual

lemma map_label_families : ∀ t : LabelledTree, t.families.map Family.label = t.labels
  | leaf _ _ => rfl
  | node l k cs => by rw [families, List.map_cons, map_label_familiesOf cs, labels]

/-- There is one family for each label. -/
lemma map_label_familiesOf :
    ∀ cs : List LabelledTree, (familiesOf cs).map Family.label = labelsOf cs
  | [] => rfl
  | c :: cs => by
      rw [familiesOf, List.map_append, map_label_families c, map_label_familiesOf cs, labelsOf]

end

lemma familiesOf_append (cs ds : List LabelledTree) :
    familiesOf (cs ++ ds) = familiesOf cs ++ familiesOf ds := by
  induction cs with
  | nil => rfl
  | cons c cs ih => rw [List.cons_append, familiesOf, familiesOf, ih, List.append_assoc]

lemma findIn?_append (label : Nat) (cs ds : List LabelledTree) :
    findIn? label (cs ++ ds) = (findIn? label cs).or (findIn? label ds) := by
  induction cs with
  | nil => rfl
  | cons c cs ih => rw [List.cons_append, findIn?, findIn?, ih, Option.or_assoc]

lemma nodup_labelsOf_cons {c : LabelledTree} {cs : List LabelledTree}
    (h : (labelsOf (c :: cs)).Nodup) :
    c.labels.Nodup ∧ (labelsOf cs).Nodup ∧ c.labels.Disjoint (labelsOf cs) :=
  List.nodup_append'.1 h

variable {label : Nat}

/-! ## Parts and labels -/

lemma isAt_iff {t : LabelledTree} : t.isAt label = true ↔ t.part = .node label := by
  cases t <;> simp [isAt, part]

lemma mem_labels_of_part {t : LabelledTree} (h : t.part = .node label) : label ∈ t.labels := by
  cases t with
  | leaf k u => cases h
  | node l k cs =>
      cases h
      exact List.mem_cons_self

/-- A node of a row has its label among the labels of the row. -/
lemma mem_labelsOf_of_part {cs : List LabelledTree} (h : .node label ∈ cs.map part) :
    label ∈ labelsOf cs := by
  induction cs with
  | nil => cases h
  | cons c cs ih =>
      rcases List.mem_cons.1 h with h | h
      · exact List.mem_append_left _ (mem_labels_of_part h.symm)
      · exact List.mem_append_right _ (ih h)

lemma labelsOf_children_subset (t : LabelledTree) : labelsOf t.children ⊆ t.labels := by
  cases t with
  | leaf k u => exact List.nil_subset _
  | node l k cs => exact List.subset_cons_self _ _

mutual

lemma mem_labels_of_families {x : Family} : ∀ {t : LabelledTree}, x ∈ t.families →
    .node label ∈ x.parts → label ∈ labelsOf t.children
  | leaf _ _, hx, _ => by cases hx
  | node l k cs, hx, h => by
      rcases List.mem_cons.1 hx with rfl | hx
      · exact mem_labelsOf_of_part h
      · exact mem_labelsOf_of_families hx h

/-- A node that is listed as a part of a node of a row has its label among the labels of the row. -/
lemma mem_labelsOf_of_families {x : Family} : ∀ {cs : List LabelledTree}, x ∈ familiesOf cs →
    .node label ∈ x.parts → label ∈ labelsOf cs
  | [], hx, _ => by cases hx
  | c :: cs, hx, h => by
      rcases List.mem_append.1 hx with hx | hx
      · exact List.mem_append_left _ (labelsOf_children_subset c (mem_labels_of_families hx h))
      · exact List.mem_append_right _ (mem_labelsOf_of_families hx h)

end

lemma map_drop_families {t : LabelledTree} (h : label ∉ labelsOf t.children) :
    t.families.map (Family.drop label) = t.families := by
  conv_rhs => rw [← List.map_id t.families]
  exact List.map_congr_left fun x hx =>
    Family.drop_of_notMem fun hlabel => h (mem_labels_of_families hx hlabel)

lemma map_drop_familiesOf {cs : List LabelledTree} (h : label ∉ labelsOf cs) :
    (familiesOf cs).map (Family.drop label) = familiesOf cs := by
  conv_rhs => rw [← List.map_id (familiesOf cs)]
  exact List.map_congr_left fun x hx =>
    Family.drop_of_notMem fun hlabel => h (mem_labelsOf_of_families hx hlabel)

lemma map_gain_families {t : LabelledTree} (h : label ∉ t.labels) (child : Nat) :
    t.families.map (Family.gain label child) = t.families := by
  conv_rhs => rw [← List.map_id t.families]
  refine List.map_congr_left fun x hx => Family.gain_of_ne fun hlabel => h ?_
  rw [← map_label_families, ← hlabel]
  exact List.mem_map_of_mem hx

lemma map_gain_familiesOf {cs : List LabelledTree} (h : label ∉ labelsOf cs) (child : Nat) :
    (familiesOf cs).map (Family.gain label child) = familiesOf cs := by
  conv_rhs => rw [← List.map_id (familiesOf cs)]
  refine List.map_congr_left fun x hx => Family.gain_of_ne fun hlabel => h ?_
  rw [← map_label_familiesOf, ← hlabel]
  exact List.mem_map_of_mem hx

/-! ## Finding a node -/

mutual

lemma find?_eq_none : ∀ {t : LabelledTree}, t.find? label = none ↔ label ∉ t.labels
  | leaf _ _ => by simp [find?, labels]
  | node l k cs => by
      rw [find?, labels, List.mem_cons, not_or]
      split
      · rename_i h
        simp [h]
      · rename_i h
        rw [findIn?_eq_none]
        exact (and_iff_right (Ne.symm h)).symm

/-- A node is found exactly if its label is there. -/
lemma findIn?_eq_none : ∀ {cs : List LabelledTree}, findIn? label cs = none ↔ label ∉ labelsOf cs
  | [] => by simp [findIn?, labelsOf]
  | c :: cs => by
      rw [findIn?, Option.or_eq_none_iff, find?_eq_none, findIn?_eq_none, labelsOf, List.mem_append,
        not_or]

end

mutual

lemma part_of_find? {x : LabelledTree} :
    ∀ {t : LabelledTree}, t.find? label = some x → x.part = .node label
  | leaf _ _, h => by cases h
  | node l k cs, h => by
      rw [find?] at h
      split at h
      · rename_i hl
        cases h
        exact congrArg Part.node hl
      · exact part_of_findIn? h

/-- The node that is found for a label has the label. -/
lemma part_of_findIn? {x : LabelledTree} :
    ∀ {cs : List LabelledTree}, findIn? label cs = some x → x.part = .node label
  | [], h => by cases h
  | c :: cs, h => by
      rw [findIn?, Option.or_eq_some_iff] at h
      rcases h with h | ⟨-, h⟩
      · exact part_of_find? h
      · exact part_of_findIn? h

end

lemma find?_of_isAt {t : LabelledTree} (h : t.isAt label = true) : t.find? label = some t := by
  cases t with
  | leaf k u => cases h
  | node l k cs =>
      rw [isAt, beq_iff_eq] at h
      rw [find?, if_pos h]

/-! ## Taking a node out -/

@[simp] lemma part_erase (t : LabelledTree) : (t.erase label).part = t.part := by
  cases t <;> rfl

lemma map_part_eraseFrom (cs : List LabelledTree) :
    (eraseFrom label cs).map part = (cs.map part).filter (· ≠ .node label) := by
  induction cs with
  | nil => rfl
  | cons c cs ih =>
      rw [eraseFrom, List.map_cons]
      by_cases h : c.part = .node label
      · rw [if_pos (isAt_iff.2 h), ih, List.filter_cons_of_neg (by simpa using h)]
      · rw [if_neg (mt isAt_iff.1 h), List.map_cons, part_erase, ih,
          List.filter_cons_of_pos (by simpa using h)]

mutual

lemma erase_of_notMem : ∀ {t : LabelledTree}, label ∉ t.labels → t.erase label = t
  | leaf _ _, _ => rfl
  | node l k cs, h => by rw [erase, eraseFrom_of_notMem fun hmem => h (List.mem_cons_of_mem _ hmem)]

/-- A row without a node of the label stays as it is. -/
lemma eraseFrom_of_notMem :
    ∀ {cs : List LabelledTree}, label ∉ labelsOf cs → eraseFrom label cs = cs
  | [], _ => rfl
  | c :: cs, h => by
      rw [labelsOf, List.mem_append, not_or] at h
      rw [eraseFrom, if_neg fun hat => h.1 (mem_labels_of_part (isAt_iff.1 hat)),
        erase_of_notMem h.1, eraseFrom_of_notMem h.2]

end

mutual

lemma families_erase {x : LabelledTree} : ∀ {t : LabelledTree}, t.labels.Nodup →
    ¬ t.isAt label = true → t.find? label = some x →
      (t.families.map (Family.drop label)).Perm (x.families ++ (t.erase label).families)
  | leaf _ _, _, _, h => by cases h
  | node l k cs, hnodup, hat, h => by
      have hl : ¬ l = label := fun hl => hat (beq_iff_eq.2 hl)
      rw [find?, if_neg hl] at h
      have hrow := familiesOf_eraseFrom (List.nodup_cons.1 hnodup).2 h
      rw [families, List.map_cons, erase, families, map_part_eraseFrom]
      exact (hrow.cons _).trans List.perm_middle.symm

/-- The families of a row are those of the node that is taken out and those of what remains, but for
the label of the node in the list of its parent. -/
lemma familiesOf_eraseFrom {x : LabelledTree} : ∀ {cs : List LabelledTree}, (labelsOf cs).Nodup →
    findIn? label cs = some x →
      ((familiesOf cs).map (Family.drop label)).Perm (x.families ++ familiesOf (eraseFrom label cs))
  | [], _, h => by cases h
  | c :: cs, hnodup, h => by
      obtain ⟨hc, hcs, hdisjoint⟩ := nodup_labelsOf_cons hnodup
      rw [findIn?] at h
      rw [familiesOf, List.map_append, eraseFrom]
      by_cases hat : c.isAt label = true
      · -- The node is `c` itself, so its label is neither inside of it nor behind it.
        have hmem := mem_labels_of_part (isAt_iff.1 hat)
        have hrest : label ∉ labelsOf cs := hdisjoint hmem
        rw [find?_of_isAt hat, Option.some_or] at h
        cases h
        rw [if_pos hat, map_drop_familiesOf hrest, eraseFrom_of_notMem hrest, map_drop_families]
        cases x with
        | leaf k u => exact List.not_mem_nil
        | node l k ds =>
            rw [isAt, beq_iff_eq] at hat
            exact hat ▸ (List.nodup_cons.1 hc).1
      · rw [if_neg hat, familiesOf]
        cases hfind : c.find? label with
        | some y =>
            rw [hfind, Option.some_or] at h
            cases h
            have hmem : label ∈ c.labels := by
              by_contra hnone
              cases hfind.symm.trans (find?_eq_none.2 hnone)
            have hrest : label ∉ labelsOf cs := hdisjoint hmem
            rw [map_drop_familiesOf hrest, eraseFrom_of_notMem hrest, ← List.append_assoc]
            exact (families_erase hc hat hfind).append_right _
        | none =>
            rw [hfind, Option.none_or] at h
            have hnone := find?_eq_none.1 hfind
            have hchildren : label ∉ labelsOf c.children :=
              fun hmem => hnone (labelsOf_children_subset c hmem)
            rw [map_drop_families hchildren, erase_of_notMem hnone]
            refine ((familiesOf_eraseFrom hcs h).append_left _).trans ?_
            rw [← List.append_assoc, ← List.append_assoc]
            exact List.perm_append_comm.append_right _

end

/-! ## Appending a node -/

section

variable {child : Nat} {x : LabelledTree}

@[simp] lemma part_append (t : LabelledTree) : (append label x t).part = t.part := by
  cases t <;> rfl

lemma map_part_appendIn (cs : List LabelledTree) :
    (appendIn label x cs).map part = cs.map part := by
  induction cs with
  | nil => rfl
  | cons c cs ih => rw [appendIn, List.map_cons, part_append, ih, List.map_cons]

mutual

lemma append_of_notMem : ∀ {t : LabelledTree}, label ∉ t.labels → append label x t = t
  | leaf _ _, _ => rfl
  | node l k cs, h => by
      rw [labels, List.mem_cons, not_or] at h
      rw [append, appendIn_of_notMem h.2, if_neg (Ne.symm h.1), List.append_nil]

/-- A row without a node of the label stays as it is. -/
lemma appendIn_of_notMem :
    ∀ {cs : List LabelledTree}, label ∉ labelsOf cs → appendIn label x cs = cs
  | [], _ => rfl
  | c :: cs, h => by
      rw [labelsOf, List.mem_append, not_or] at h
      rw [appendIn, append_of_notMem h.1, appendIn_of_notMem h.2]

end

mutual

lemma families_append (hx : x.part = .node child) : ∀ {t : LabelledTree}, t.labels.Nodup →
    label ∈ t.labels → (append label x t).families.Perm
      (t.families.map (Family.gain label child) ++ x.families)
  | leaf _ _, _, h => by cases h
  | node l k cs, hnodup, h => by
      obtain ⟨hl, hcs⟩ := List.nodup_cons.1 hnodup
      rw [append, families, List.map_append, map_part_appendIn, familiesOf_append, families,
        List.map_cons, List.cons_append]
      by_cases hlabel : l = label
      · -- The node itself gets the new part, and nothing inside of it does.
        subst hlabel
        rw [appendIn_of_notMem hl, map_gain_familiesOf hl, if_pos rfl, List.map_singleton, hx,
          familiesOf, familiesOf, List.append_nil, Family.gain, if_pos rfl]
      · have hmem := (List.mem_cons.1 h).resolve_left (Ne.symm hlabel)
        rw [if_neg hlabel, List.map_nil, List.append_nil, familiesOf, List.append_nil,
          Family.gain_of_ne hlabel]
        exact (familiesOf_appendIn hx hcs hmem).cons _

/-- Appending a node adds its families, and its label to the list of its parent. -/
lemma familiesOf_appendIn (hx : x.part = .node child) : ∀ {cs : List LabelledTree},
    (labelsOf cs).Nodup → label ∈ labelsOf cs → (familiesOf (appendIn label x cs)).Perm
      ((familiesOf cs).map (Family.gain label child) ++ x.families)
  | [], _, h => by cases h
  | c :: cs, hnodup, h => by
      obtain ⟨hc, hcs, hdisjoint⟩ := nodup_labelsOf_cons hnodup
      rw [appendIn, familiesOf, familiesOf, List.map_append]
      by_cases hmem : label ∈ c.labels
      · have hrest : label ∉ labelsOf cs := hdisjoint hmem
        rw [appendIn_of_notMem hrest, map_gain_familiesOf hrest]
        refine ((families_append hx hc hmem).append_right _).trans ?_
        rw [List.append_assoc, List.append_assoc]
        exact List.perm_append_comm.append_left _
      · rw [append_of_notMem hmem, map_gain_families hmem, List.append_assoc]
        exact (familiesOf_appendIn hx hcs ((List.mem_append.1 h).resolve_left hmem)).append_left _

end

end

/-! ## Moving a node -/

section

variable {parent child : Nat} {x : LabelledTree} {ts : List LabelledTree}

lemma labelsOf_eraseFrom (hnodup : (labelsOf ts).Nodup) (hfind : findIn? child ts = some x) :
    (labelsOf ts).Perm (x.labels ++ labelsOf (eraseFrom child ts)) := by
  have hlabels := (familiesOf_eraseFrom hnodup hfind).map Family.label
  rw [List.map_map, List.map_append, map_label_families, map_label_familiesOf] at hlabels
  rw [← map_label_familiesOf ts]
  exact hlabels

/-- Moving a node drops its label from all lists and adds it to that of the new parent. No other
list changes. -/
lemma familiesOf_move (hnodup : (labelsOf ts).Nodup) (hfind : findIn? child ts = some x)
    (hparent : parent ∈ labelsOf ts) (hinside : parent ∉ x.labels) :
    (familiesOf (appendIn parent x (eraseFrom child ts))).Perm
      ((familiesOf ts).map fun y => (y.drop child).gain parent child) := by
  have hlabels := labelsOf_eraseFrom hnodup hfind
  have hrest := (List.nodup_append.1 (hlabels.nodup_iff.1 hnodup)).2.1
  have hmem := (List.mem_append.1 (hlabels.mem_iff.1 hparent)).resolve_left hinside
  calc familiesOf (appendIn parent x (eraseFrom child ts))
      |>.Perm ((familiesOf (eraseFrom child ts)).map (Family.gain parent child) ++ x.families) :=
        familiesOf_appendIn (part_of_findIn? hfind) hrest hmem
    _ |>.Perm (x.families ++ (familiesOf (eraseFrom child ts)).map (Family.gain parent child)) :=
        List.perm_append_comm
    _ = (x.families ++ familiesOf (eraseFrom child ts)).map (Family.gain parent child) := by
        rw [List.map_append, map_gain_families hinside]
    _ |>.Perm (((familiesOf ts).map (Family.drop child)).map (Family.gain parent child)) :=
        ((familiesOf_eraseFrom hnodup hfind).map _).symm
    _ = (familiesOf ts).map fun y => (y.drop child).gain parent child := List.map_map

mutual

lemma find?_append (hx : x.part = .node child) : ∀ {t : LabelledTree}, parent ∈ t.labels →
    child ∉ t.labels → (append parent x t).find? child = some x
  | leaf _ _, h, _ => by cases h
  | node l k cs, h, hchild => by
      rw [labels, List.mem_cons, not_or] at hchild
      rw [append, find?, if_neg (Ne.symm hchild.1), findIn?_append]
      by_cases hmem : parent ∈ labelsOf cs
      · rw [findIn?_appendIn hx hmem hchild.2, Option.some_or]
      · have hl : l = parent := ((List.mem_cons.1 h).resolve_right hmem).symm
        rw [appendIn_of_notMem hmem, findIn?_eq_none.2 hchild.2, Option.none_or, if_pos hl, findIn?,
          find?_of_isAt (isAt_iff.2 hx), Option.some_or]

/-- A node that is appended is found as it was. -/
lemma findIn?_appendIn (hx : x.part = .node child) :
    ∀ {cs : List LabelledTree}, parent ∈ labelsOf cs →
    child ∉ labelsOf cs → findIn? child (appendIn parent x cs) = some x
  | [], h, _ => by cases h
  | c :: cs, h, hchild => by
      rw [labelsOf, List.mem_append, not_or] at hchild
      rw [appendIn, findIn?]
      by_cases hmem : parent ∈ c.labels
      · rw [find?_append hx hmem hchild.1, Option.some_or]
      · rw [append_of_notMem hmem, find?_eq_none.2 hchild.1, Option.none_or]
        exact findIn?_appendIn hx ((List.mem_append.1 h).resolve_left hmem) hchild.2

end

end

/-! ## Each element stands in one list -/

mutual

/-- The tokens and nodes of a tree in order, the tree itself first. -/
def elements : LabelledTree → List Part
  | leaf k t => [.token ⟨k, t⟩]
  | node l _ cs => .node l :: elementsOf cs

/-- The tokens and nodes of a row of trees in order. -/
def elementsOf : List LabelledTree → List Part
  | [] => []
  | c :: cs => c.elements ++ elementsOf cs

end

mutual

lemma labels_eq : ∀ t : LabelledTree, t.labels = t.elements.filterMap Part.label?
  | leaf _ _ => rfl
  | node l k cs => by
      rw [labels, elements, labelsOf_eq cs]
      rfl

lemma labelsOf_eq : ∀ cs : List LabelledTree, labelsOf cs = (elementsOf cs).filterMap Part.label?
  | [] => rfl
  | c :: cs => by rw [labelsOf, elementsOf, List.filterMap_append, labels_eq c, labelsOf_eq cs]

end

mutual

lemma leaves_eq : ∀ t : LabelledTree, t.tree.leaves = t.elements.filterMap Part.leaf?
  | leaf _ _ => rfl
  | node l k cs => by
      rw [tree, Tree.leaves, elements, leavesOf_eq cs]
      rfl

lemma leavesOf_eq : ∀ cs : List LabelledTree,
    Tree.leavesOf (trees cs) = (elementsOf cs).filterMap Part.leaf?
  | [] => rfl
  | c :: cs =>
      by rw [trees, Tree.leavesOf, elementsOf, List.filterMap_append, leaves_eq c, leavesOf_eq cs]

end

mutual

lemma elements_perm :
    ∀ t : LabelledTree, t.elements.Perm (t.part :: t.families.flatMap Family.parts)
  | leaf _ _ => .refl _
  | node l k cs => by
      rw [elements, families, List.flatMap_cons]
      exact (elementsOf_perm cs).cons _

/-- The elements of a row of trees are the trees themselves and the parts of the nodes. -/
lemma elementsOf_perm : ∀ cs : List LabelledTree,
    (elementsOf cs).Perm (cs.map part ++ (familiesOf cs).flatMap Family.parts)
  | [] => .refl _
  | c :: cs => by
      rw [elementsOf, familiesOf, List.map_cons, List.flatMap_append, List.cons_append]
      refine ((elements_perm c).append (elementsOf_perm cs)).trans ?_
      rw [List.cons_append, List.perm_cons, ← List.append_assoc, ← List.append_assoc]
      exact List.perm_append_comm.append_right _

end

/-! ## A node by its label -/

mutual

lemma find?_of_families {x : Family} : ∀ {t : LabelledTree}, t.labels.Nodup → x ∈ t.families →
    ∃ cs, t.find? x.label = some (node x.label x.kind cs) ∧ cs.map part = x.parts
  | leaf _ _, _, hx => by cases hx
  | node l k cs, hnodup, hx => by
      obtain ⟨hl, hcs⟩ := List.nodup_cons.1 hnodup
      rcases List.mem_cons.1 hx with rfl | hrow
      · exact ⟨cs, if_pos rfl, rfl⟩
      · have hne : l ≠ x.label := by
          rintro rfl
          exact hl (map_label_familiesOf cs ▸ List.mem_map_of_mem hrow)
        rw [find?, if_neg hne]
        exact findIn?_of_families hcs hrow

/-- A family is found by its label. -/
lemma findIn?_of_families {x : Family} : ∀ {cs : List LabelledTree}, (labelsOf cs).Nodup →
    x ∈ familiesOf cs →
    ∃ ds, findIn? x.label cs = some (node x.label x.kind ds) ∧ ds.map part = x.parts
  | [], _, hx => by cases hx
  | c :: cs, hnodup, hx => by
      obtain ⟨hc, hcs, hdisjoint⟩ := nodup_labelsOf_cons hnodup
      rw [findIn?]
      rcases List.mem_append.1 hx with hx | hx
      · obtain ⟨ds, hfind, hparts⟩ := find?_of_families hc hx
        exact ⟨ds, by rw [hfind, Option.some_or], hparts⟩
      · have hlabel : x.label ∈ labelsOf cs := map_label_familiesOf cs ▸ List.mem_map_of_mem hx
        have hnone : x.label ∉ c.labels := fun hmem => hdisjoint hmem hlabel
        rw [find?_eq_none.2 hnone, Option.none_or]
        exact findIn?_of_families hcs hx

end

/-! ## The nodes around a node -/

section

variable {a b p : Nat}

mutual

lemma mem_labels_of_around : ∀ {t : LabelledTree}, a ∈ t.around p → a ∈ t.labels ∧ p ∈ t.labels
  | leaf _ _, h => by cases h
  | node l k cs, h => by
      rw [around] at h
      split at h
      · rename_i hp
        refine ⟨?_, hp⟩
        rcases List.mem_cons.1 h with rfl | h
        · exact List.mem_cons_self
        · exact List.mem_cons_of_mem _ (mem_labelsOf_of_around h).1
      · cases h

/-- A node around another one is in the row, as is the other one. -/
lemma mem_labelsOf_of_around : ∀ {cs : List LabelledTree}, a ∈ aroundIn p cs →
    a ∈ labelsOf cs ∧ p ∈ labelsOf cs
  | [], h => by cases h
  | c :: cs, h => by
      rcases List.mem_append.1 h with h | h
      · exact (mem_labels_of_around h).imp (List.mem_append_left _) (List.mem_append_left _)
      · exact (mem_labelsOf_of_around h).imp (List.mem_append_right _) (List.mem_append_right _)

end

mutual

lemma mem_around_of_find? {x : LabelledTree} (hp : p ∈ x.labels) :
    ∀ {t : LabelledTree}, t.find? a = some x → a ∈ t.around p
  | leaf _ _, h => by cases h
  | node l k cs, h => by
      rw [find?] at h
      split at h
      · rename_i hl
        cases h
        rw [around, if_pos hp, hl]
        exact List.mem_cons_self
      · have hmem := mem_aroundIn_of_find? hp h
        have hinside : p ∈ (node l k cs).labels :=
          List.mem_cons_of_mem _ (mem_labelsOf_of_around hmem).2
        rw [around, if_pos hinside]
        exact List.mem_cons_of_mem _ hmem

/-- A node is around what it holds, and around itself. -/
lemma mem_aroundIn_of_find? {x : LabelledTree} (hp : p ∈ x.labels) :
    ∀ {cs : List LabelledTree}, findIn? a cs = some x → a ∈ aroundIn p cs
  | [], h => by cases h
  | c :: cs, h => by
      rw [findIn?, Option.or_eq_some_iff] at h
      rcases h with h | ⟨-, h⟩
      · exact List.mem_append_left _ (mem_around_of_find? hp h)
      · exact List.mem_append_right _ (mem_aroundIn_of_find? hp h)

end

mutual

lemma around_parent {x : Family} (hb : .node b ∈ x.parts) : ∀ {t : LabelledTree}, t.labels.Nodup →
    x ∈ t.families → b ∈ t.around p → x.label ∈ t.around p
  | leaf _ _, _, hx, _ => by cases hx
  | node l k cs, hnodup, hx, h => by
      obtain ⟨hl, hcs⟩ := List.nodup_cons.1 hnodup
      have hp := (mem_labels_of_around h).2
      rw [around, if_pos hp] at h ⊢
      rcases List.mem_cons.1 hx with rfl | hrow
      · exact List.mem_cons_self
      · rcases List.mem_cons.1 h with rfl | h
        · exact absurd (mem_labelsOf_of_families hrow hb) hl
        · exact List.mem_cons_of_mem _ (aroundIn_parent hb hcs hrow h)

/-- The parent of a node around another one is around that one too. -/
lemma aroundIn_parent {x : Family} (hb : .node b ∈ x.parts) : ∀ {cs : List LabelledTree},
    (labelsOf cs).Nodup → x ∈ familiesOf cs → b ∈ aroundIn p cs → x.label ∈ aroundIn p cs
  | [], _, hx, _ => by cases hx
  | c :: cs, hnodup, hx, h => by
      obtain ⟨hc, hcs, hdisjoint⟩ := nodup_labelsOf_cons hnodup
      rcases List.mem_append.1 hx with hx | hx
      · have hmem := labelsOf_children_subset c (mem_labels_of_families hx hb)
        rcases List.mem_append.1 h with h | h
        · exact List.mem_append_left _ (around_parent hb hc hx h)
        · exact absurd (mem_labelsOf_of_around h).1 (hdisjoint hmem)
      · have hmem := mem_labelsOf_of_families hx hb
        rcases List.mem_append.1 h with h | h
        · exact absurd hmem (hdisjoint (mem_labels_of_around h).1)
        · exact List.mem_append_right _ (aroundIn_parent hb hcs hx h)

end

variable {R : Nat → Nat → Prop}

mutual

lemma reaches_of_mem_labels : ∀ {t : LabelledTree},
    (∀ x ∈ t.families, ∀ b, .node b ∈ x.parts → R x.label b) → p ∈ t.labels →
      ∃ m, t.part = .node m ∧ Relation.ReflTransGen R m p
  | leaf _ _, _, h => by cases h
  | node l k cs, hR, h => by
      refine ⟨l, rfl, ?_⟩
      rcases List.mem_cons.1 h with rfl | h
      · exact .refl
      · obtain ⟨m, hm, hpath⟩ :=
          reaches_of_mem_labelsOf (fun x hx => hR x (List.mem_cons_of_mem _ hx)) h
        exact .head (hR _ List.mem_cons_self m hm) hpath

/-- Each node is reached from a tree of the row by a relation that holds of each node and its
parts. -/
lemma reaches_of_mem_labelsOf : ∀ {cs : List LabelledTree},
    (∀ x ∈ familiesOf cs, ∀ b, .node b ∈ x.parts → R x.label b) → p ∈ labelsOf cs →
      ∃ m, .node m ∈ cs.map part ∧ Relation.ReflTransGen R m p
  | [], _, h => by cases h
  | c :: cs, hR, h => by
      rcases List.mem_append.1 h with h | h
      · obtain ⟨m, hm, hpath⟩ :=
          reaches_of_mem_labels (fun x hx => hR x (List.mem_append_left _ hx)) h
        exact ⟨m, hm ▸ List.mem_cons_self, hpath⟩
      · obtain ⟨m, hm, hpath⟩ :=
          reaches_of_mem_labelsOf (fun x hx => hR x (List.mem_append_right _ hx)) h
        exact ⟨m, List.mem_cons_of_mem _ hm, hpath⟩

end

mutual

lemma reaches_of_mem_around : ∀ {t : LabelledTree},
    (∀ x ∈ t.families, ∀ b, .node b ∈ x.parts → R x.label b) → a ∈ t.around p →
      Relation.ReflTransGen R a p
  | leaf _ _, _, h => by cases h
  | node l k cs, hR, h => by
      have hp := (mem_labels_of_around h).2
      rw [around, if_pos hp] at h
      rcases List.mem_cons.1 h with rfl | h
      · obtain ⟨m, hm, hpath⟩ := reaches_of_mem_labels hR hp
        cases hm
        exact hpath
      · exact reaches_of_mem_aroundIn (fun x hx => hR x (List.mem_cons_of_mem _ hx)) h

/-- A node is reached from those around it by a relation that holds of each node and its parts. -/
lemma reaches_of_mem_aroundIn : ∀ {cs : List LabelledTree},
    (∀ x ∈ familiesOf cs, ∀ b, .node b ∈ x.parts → R x.label b) → a ∈ aroundIn p cs →
      Relation.ReflTransGen R a p
  | [], _, h => by cases h
  | c :: cs, hR, h => by
      rcases List.mem_append.1 h with h | h
      · exact reaches_of_mem_around (fun x hx => hR x (List.mem_append_left _ hx)) h
      · exact reaches_of_mem_aroundIn (fun x hx => hR x (List.mem_append_right _ hx)) h

end

mutual

lemma pair_sublist_labels {x : Family} (hb : .node b ∈ x.parts) :
    ∀ {t : LabelledTree}, x ∈ t.families → [x.label, b].Sublist t.labels
  | leaf _ _, hx => by cases hx
  | node l k cs, hx => by
      rcases List.mem_cons.1 hx with rfl | hrow
      · exact (List.singleton_sublist.2 (mem_labelsOf_of_part hb)).cons_cons _
      · exact (pair_sublist_labelsOf hb hrow).cons _

/-- A parent begins before its parts. -/
lemma pair_sublist_labelsOf {x : Family} (hb : .node b ∈ x.parts) :
    ∀ {cs : List LabelledTree}, x ∈ familiesOf cs → [x.label, b].Sublist (labelsOf cs)
  | [], hx => by cases hx
  | c :: cs, hx => by
      rcases List.mem_append.1 hx with hx | hx
      · exact (pair_sublist_labels hb hx).trans (List.sublist_append_left _ _)
      · exact (pair_sublist_labelsOf hb hx).trans (List.sublist_append_right _ _)

end

end

end LabelledTree

end StyleSheet
