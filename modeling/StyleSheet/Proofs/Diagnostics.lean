import Mathlib
import StyleSheet.Proofs.Lossless
import StyleSheet.Proofs.Marks
import StyleSheet.Proofs.Numbering

/-!
# Errors and their diagnostics

The error nodes of a tree and the diagnostics correspond, in order and in number. A node is known by
its offset and what it holds, so the diagnostics whose error nodes are its parts are found by
comparing nodes. Two nodes of a tree may be the same in this sense only if they are empty; whichever
nodes are taken to stand for all of them, each diagnostic is found once.
-/

namespace StyleSheet

open Token

namespace Tree

/-! ## The sites of a tree -/

mutual

lemma pairwise_sites (above : List Place) (start : Nat) :
    ∀ t : Tree, (sites above start t).Pairwise fun s s' => s.isSame s' = true → s.start = s.stop
  | .leaf _ _ => .nil
  | .node k cs => by
      rw [sites]
      refine .cons (fun s hs hsame => ?_) (pairwise_sitesOf _ start cs)
      -- A node is larger than all nodes inside of it.
      have hsize := size_sitesOf hs
      rw [Site.tree, ← Site.isSame_iff.1 hsame] at hsize
      exact absurd hsize (Nat.not_succ_le_self _)

/-- Of two nodes that are the same, neither is inside of the other one, so they are empty. -/
lemma pairwise_sitesOf (above : List Place) (start : Nat) :
    ∀ cs : List Tree,
      (sitesOf above start cs).Pairwise fun s s' => s.isSame s' = true → s.start = s.stop
  | [] => .nil
  | c :: cs => by
      rw [sitesOf]
      refine List.pairwise_append.2 ⟨pairwise_sites _ _ c, pairwise_sitesOf _ _ cs, ?_⟩
      intro s hs s' hs' hsame
      have hbounds := bounds_sites hs
      have hbounds' := bounds_sitesOf hs'
      have hstart : s.start = s'.start := congrArg Place.start (Site.isSame_iff.1 hsame)
      have hle : s.start ≤ s.stop := Nat.le_add_right _ _
      omega

end

end Tree

/-! ## Finding diagnostics -/

section

variable {α β : Type} (l : List α) (r : α → β → Bool)

lemma flatMap_filter_singleton (m : β) :
    (l.flatMap fun a => [m].filter (r a)) = List.replicate (l.countP (r · m)) m := by
  induction l with
  | nil => rfl
  | cons a l ih =>
      by_cases ha : r a m = true
      · simp [List.replicate_succ, ha, ih]
      · simp [ha, ih]

/-- If each of the `ms` is found for exactly one element of a list, then each of them is found
once. -/
lemma flatMap_filter_perm {ms : List β} (h : ∀ m ∈ ms, l.countP (r · m) = 1) :
    (l.flatMap fun a => ms.filter (r a)).Perm ms := by
  induction ms with
  | nil => simp
  | cons m ms ih =>
      obtain ⟨hm, hms⟩ := List.forall_mem_cons.1 h
      have hsplit : ∀ a, (m :: ms).filter (r a) = [m].filter (r a) ++ ms.filter (r a) := by
        intro a
        rw [← List.filter_append]
        rfl
      simp only [hsplit]
      refine (List.flatMap_append_perm l _ _).symm.trans ?_
      rw [flatMap_filter_singleton, hm]
      exact (ih hms).cons m

end

namespace Parsed

/-- The error nodes of a tree, in preorder. -/
def errors (p : Parsed) : List Site := p.root.descendants.filter fun s => s.kind == .error

/-- The list has each node of a tree once, up to nodes that are the same. -/
structure ListsNodes (p : Parsed) (nodes : List Site) : Prop where
  distinct : nodes.Pairwise fun s t => s.isSame t = false
  covers : ∀ s ∈ p.root.descendants, ∃ t ∈ nodes, s.isSame t = true

lemma countP_of_distinct {nodes : List Site}
    (hdistinct : nodes.Pairwise fun s t => s.isSame t = false) {s t : Site} (ht : t ∈ nodes)
    (hsame : s.isSame t = true) : nodes.countP (s.isSame ·) = 1 := by
  have hnodup : (nodes.map Site.here).Nodup := by
    refine List.pairwise_map.2 (hdistinct.imp fun hne heq => ?_)
    rw [Site.isSame_iff.2 heq] at hne
    cases hne
  have hcount : nodes.countP (s.isSame ·) = (nodes.map Site.here).count s.here := by
    rw [List.count, List.countP_map]
    refine List.countP_congr fun u _ => ?_
    rw [Site.isSame_iff, Function.comp_apply, beq_iff_eq, eq_comm]
  rw [hcount]
  refine List.count_eq_one_of_mem hnodup (List.mem_map.2 ⟨t, ht, ?_⟩)
  exact (Site.isSame_iff.1 hsame).symm

lemma mem_marks {p : Parsed} {i : Nat} {e : Site} {m : Diagnostic} (he : p.errors[i]? = some e)
    (hm : p.diagnostics[i]? = some m) : (e, m) ∈ p.marks :=
  List.mem_of_getElem? (List.getElem?_zip_eq_some.2 ⟨he, hm⟩)

/-- The diagnostic of an error node is found for the node that has the error node as a part. -/
lemma mem_issues {p : Parsed} {i : Nat} {e s : Site} {m : Diagnostic} (he : p.errors[i]? = some e)
    (hm : p.diagnostics[i]? = some m) (hparent : e.parent? = some s) : m ∈ p.issues s := by
  refine List.mem_map.2 ⟨(e, m), List.mem_filter.2 ⟨mem_marks he hm, ?_⟩, rfl⟩
  rw [hparent, Option.any_some, Site.isSame_iff]

/-- If the nodes that have error nodes as parts are all there, and once, each diagnostic is found
once. -/
lemma issues_perm {p : Parsed} (hlength : p.errors.length = p.diagnostics.length)
    {nodes : List Site} (hdistinct : nodes.Pairwise fun s t => s.isSame t = false)
    (hcovers : ∀ e ∈ p.errors, ∃ s, e.parent? = some s ∧ ∃ t ∈ nodes, s.isSame t = true) :
    (nodes.flatMap p.issues).Perm p.diagnostics := by
  have hmarks : p.marks.map Prod.snd = p.diagnostics := List.map_snd_zip hlength.ge
  have hcount : ∀ m ∈ p.marks, nodes.countP (fun s => m.1.parent?.any (·.isSame s)) = 1 := by
    intro m hm
    obtain ⟨s, hparent, t, ht, hsame⟩ := hcovers m.1 (List.of_mem_zip hm).1
    simp only [hparent, Option.any_some]
    exact countP_of_distinct hdistinct ht hsame
  rw [← hmarks]
  refine .trans (.of_eq ?_) ((flatMap_filter_perm nodes _ hcount).map Prod.snd)
  rw [List.map_flatMap]
  rfl

/-- Nodes that are added one after the other are all there, and once. -/
lemma foldl_insertNode (l : List Site) {found : List Site}
    (hfound : found.Pairwise fun s t => s.isSame t = false) :
    (l.foldl insertNode found).Pairwise (fun s t => s.isSame t = false) ∧
      ∀ s ∈ found ++ l, ∃ t ∈ l.foldl insertNode found, s.isSame t = true := by
  induction l generalizing found with
  | nil => exact ⟨hfound, fun s hs => ⟨s, by simpa using hs, Site.isSame_iff.2 rfl⟩⟩
  | cons u l ih =>
      rw [List.foldl_cons, insertNode]
      split
      · rename_i hany
        obtain ⟨t, ht, hsame⟩ := List.any_eq_true.1 hany
        obtain ⟨hdistinct, hcovers⟩ := ih hfound
        refine ⟨hdistinct, fun s hs => ?_⟩
        rcases List.mem_append.1 hs with hs | hs
        · exact hcovers s (List.mem_append_left _ hs)
        · rcases List.mem_cons.1 hs with rfl | hs
          · obtain ⟨t', ht', hsame'⟩ := hcovers t (List.mem_append_left _ ht)
            rw [Site.isSame_iff] at hsame hsame'
            exact ⟨t', ht', Site.isSame_iff.2 (hsame.symm.trans hsame')⟩
          · exact hcovers s (List.mem_append_right _ hs)
      · rename_i hany
        have hnew : (found ++ [u]).Pairwise fun s t => s.isSame t = false := by
          refine List.pairwise_append.2 ⟨hfound, List.pairwise_singleton _ _, fun s hs t ht => ?_⟩
          rw [List.mem_singleton.1 ht]
          rw [Bool.not_eq_true, List.any_eq_false] at hany
          exact Bool.eq_false_iff.2 (hany s hs)
        obtain ⟨hdistinct, hcovers⟩ := ih hnew
        rw [List.append_assoc, List.singleton_append] at hcovers
        exact ⟨hdistinct, hcovers⟩

/-- The nodes of a tree in preorder, each of them only where it comes first. -/
lemma listsNodes_descendants (p : Parsed) :
    p.ListsNodes (p.root.descendants.foldl insertNode []) := by
  obtain ⟨hdistinct, hcovers⟩ := foldl_insertNode p.root.descendants List.Pairwise.nil
  exact ⟨hdistinct, hcovers⟩

/-- If each error node is a part of a node, the table has each diagnostic once. -/
lemma issueTable_perm {p : Parsed} (hlength : p.errors.length = p.diagnostics.length)
    (hparent : ∀ e ∈ p.errors, ∃ s, e.parent? = some s) :
    (p.issueTable.flatMap Prod.snd).Perm p.diagnostics := by
  obtain ⟨hdistinct, hcovers⟩ :=
    foldl_insertNode (p.marks.filterMap fun m => m.1.parent?) List.Pairwise.nil
  have hperm := issues_perm hlength hdistinct <| by
    intro e he
    obtain ⟨s, hs⟩ := hparent e he
    obtain ⟨i, hi⟩ := List.mem_iff_getElem?.1 he
    have hlt : i < p.diagnostics.length := hlength ▸ (List.getElem?_eq_some_iff.1 hi).1
    have hmark := mem_marks hi (List.getElem?_eq_getElem hlt)
    exact ⟨s, hs, hcovers s (List.mem_filterMap.2 ⟨_, hmark, hs⟩)⟩
  rw [issueTable, List.flatMap_map]
  exact hperm

end Parsed

section

variable (d : Dialect) (entry : Entry) (source : Text)

lemma map_here_errors : (parse d entry source).errors.map Site.here =
    Tree.errorsOf 0 (built d entry source).row := by
  obtain ⟨hframes, -, kind, cs, hroots, hroot⟩ := built_root d entry source
  rw [Parsed.errors, hroot, Tree.Builder.row, hroots, hframes, Tree.errorsOf, Tree.placesOf,
    List.filter_map]
  simp [Site.descendants, Site.ofNode, Site.tree, Place.tree, Tree.sitesOf]
  rfl

/-- The error nodes of a source are empty, and they correspond to the diagnostics. -/
lemma forall₂_errors : List.Forall₂
    (fun e m => e.here.children = [] ∧
      ((texts (readSource d entry source).tokens.toList).length = source.length →
        e.start = m.start))
    (parse d entry source).errors (parse d entry source).diagnostics := by
  have hmarks := (marked_built d entry source).marks
  rw [← map_here_errors] at hmarks
  exact List.forall₂_map_left_iff.1 hmarks

/-- The root of a source is no error node. -/
lemma root_ne_error : (parse d entry source).root.kind ≠ .error := by
  have hrow := (Entry.consistent_readSource d entry source).row
  obtain ⟨-, -, kind, cs, hroots, hroot⟩ := built_root d entry source
  obtain ⟨kind', inner, hsteps, hbalanced⟩ := Entry.steps_readSource d entry source
  obtain ⟨-, -, f, hf, hroots'⟩ := Tree.Builder.run_root source.length
    (readSource d entry source).tokens.toList kind' hbalanced
  have hopen : .opening .error ∉ .opening kind' :: inner := by
    have hnone := not_opening_error d entry source
    rw [hsteps, ← List.cons_append] at hnone
    exact fun hmem => hnone (List.mem_append_left _ hmem)
  -- Until it is closed, the root is an open node.
  have hkinds := (((Tree.Builder.Marked.ofTokens _ _).run hrow hopen).addRest hrow).kinds
  rw [built, hsteps, hroots'] at hroots
  have hf' : f ∈ Tree.Builder.frames _ := hf ▸ List.mem_singleton_self f
  have hkind : f.kind = kind := by
    have := List.singleton_injective hroots
    exact (Tree.node.inj this).1
  rw [hroot]
  rintro rfl
  exact hkinds (List.mem_map.2 ⟨f, hf', hkind⟩)

/-- An error node is a part of a node of the tree. -/
lemma parent_of_error {e : Site} (he : e ∈ (parse d entry source).errors) :
    ∃ s ∈ (parse d entry source).root.descendants, e.parent? = some s := by
  obtain ⟨hmem, hkind⟩ := List.mem_filter.1 he
  obtain ⟨-, -, kind, cs, -, hroot⟩ := built_root d entry source
  have hne := root_ne_error d entry source
  rw [hroot] at hmem hne ⊢
  rcases List.mem_cons.1 hmem with rfl | hinner
  · exact absurd (beq_iff_eq.1 hkind) hne
  · rcases Tree.parent_of_sitesOf hinner with habove | ⟨s, hs, hparent⟩
    · exact ⟨_, List.mem_cons_self, by rw [Site.parent?, habove]⟩
    · exact ⟨s, List.mem_cons_of_mem _ hs, hparent⟩

end

/-- The error nodes of a tree, in preorder, and the diagnostics are equal in number. Error nodes
have no parts and no text. The diagnostics are ordered by where their ranges start, and each range
is the span of a significant token of the parser in the end, or empty and at the end of the source.
If no token of the source ends inside of a character, each error node stands where the range of its
diagnostic starts.

Each error node is a part of a node of the tree, for which its diagnostic is found. Two nodes in
different places of the tree are taken for the same one only if they are empty. Over all nodes of
the tree, however they are listed, each diagnostic is found once, and it is once in the table of the
nodes that have any. -/
theorem errors_match_diagnostics (d : Dialect) (entry : Entry) (s : String) :
    let source := Text.ofString s
    let p := parse d entry source
    p.errors.length = p.diagnostics.length ∧
      (∀ e ∈ p.errors, e.here.children = [] ∧ e.stop = e.start) ∧
      p.diagnostics.Pairwise (fun m m' => m.start ≤ m'.start) ∧
      (∀ m ∈ p.diagnostics,
        (∃ t ∈ significant (readSource d entry source).tokens.toList,
          m.start = t.start ∧ m.stop = t.stop) ∨ m.start = source.length ∧ m.stop = source.length) ∧
      ((∀ t ∈ read d source, ¬ InsideCharacter s.toList t.stop) →
        p.errors.map Site.start = p.diagnostics.map Diagnostic.start) ∧
      (∀ (i : Nat) (e : Site) (m : Diagnostic), p.errors[i]? = some e → p.diagnostics[i]? = some m →
        ∃ parent ∈ p.root.descendants, e.parent? = some parent ∧ m ∈ p.issues parent) ∧
      p.root.descendants.Pairwise (fun s t => s.isSame t = true → s.start = s.stop) ∧
      p.ListsNodes (p.root.descendants.foldl Parsed.insertNode []) ∧
      (∀ nodes, p.ListsNodes nodes → (nodes.flatMap p.issues).Perm p.diagnostics) ∧
      (p.issueTable.flatMap Prod.snd).Perm p.diagnostics := by
  intro source p
  have hmatch := forall₂_errors d entry source
  obtain ⟨hempty, hplaces⟩ := (List.forall₂_and_left _ _).1 hmatch
  have hmarked := marked_built d entry source
  have hparent : ∀ e ∈ p.errors, ∃ s ∈ p.root.descendants, e.parent? = some s :=
    fun e he => parent_of_error d entry source he
  refine ⟨hmatch.length_eq, ?_, ?_, ?_, ?_, ?_, ?_, p.listsNodes_descendants, ?_, ?_⟩
  · intro e he
    have hchildren := hempty e he
    exact ⟨hchildren, by rw [Site.stop, Place.stop, hchildren]; rfl⟩
  · exact List.pairwise_reverse.2 hmarked.sorted
  · exact fun m hm => hmarked.ranges m (List.mem_reverse.1 hm)
  · intro hinside
    have hwhole := (text_parse_eq_iff d entry source).2 ((whole_iff d s).2 hinside)
    rw [text_parse] at hwhole
    have hstarts := hplaces.imp fun e m h => h (congrArg List.length hwhole)
    rw [← List.forall₂_eq_eq_eq, List.forall₂_map_left_iff, List.forall₂_map_right_iff]
    exact hstarts
  · intro i e m he hm
    obtain ⟨parent, hmem, hparent⟩ := hparent e (List.mem_of_getElem? he)
    exact ⟨parent, hmem, hparent, Parsed.mem_issues he hm hparent⟩
  · exact Tree.pairwise_sites _ _ _
  · intro nodes hnodes
    refine Parsed.issues_perm hmatch.length_eq hnodes.distinct fun e he => ?_
    obtain ⟨parent, hmem, hparent⟩ := hparent e he
    exact ⟨parent, hparent, hnodes.covers parent hmem⟩
  · refine Parsed.issueTable_perm hmatch.length_eq fun e he => ?_
    obtain ⟨parent, -, hparent⟩ := hparent e he
    exact ⟨parent, hparent⟩

end StyleSheet
