import Mathlib
import StyleSheet.Proofs.Layout
import StyleSheet.Proofs.NodeForms
import StyleSheet.Proofs.SymbolTable
import StyleSheet.Proofs.Trimming

/-!
# Dialects stay apart

The three dialects are read by one grammar, but no tree has nodes of kinds that belong to another
dialect. Hence the scopes of plain CSS have no variables but custom properties, and neither mixins
nor functions.
-/

namespace StyleSheet

namespace Grammar

open Rule

variable {d : Dialect} {depth : Nat} {s s' : Spot} {m : Bool} {y : Yield}

lemma not_foreign_of_uses {r : Rule} {former general : Bool}
    (hcalls : ∀ name s m y s', isReached d name = true → Yields d depth name s m y s' →
      ∀ n ∈ y.nodes, n.1 ∉ NodeKind.foreign d)
    (hr : r.Uses (MayBuild d former) (MayCall d general))
    (h : Reads d (Yields d depth) (.rule r) s m y s') : ∀ n ∈ y.nodes, n.1 ∉ NodeKind.foreign d :=
  Reads.nodes_ensure (E := fun kind _ => kind ∉ NodeKind.foreign d) (by cases d <;> decide) hcalls h
    (hr.mono (fun _ hkind _ => hkind.1) fun _ hname => hname.1)

/-- The rules that a dialect reaches build no foreign nodes, also not by what they call. -/
theorem not_foreign_of_yields {name : Nonterminal} (hname : isReached d name = true)
    (h : Yields d depth name s m y s') : ∀ n ∈ y.nodes, n.1 ∉ NodeKind.foreign d := by
  induction depth generalizing name s m y s' with
  | zero => cases h
  | succ depth ih =>
      exact not_foreign_of_uses (fun _ _ _ _ _ hname h => ih hname h) (uses_reached hname) h

end Grammar

lemma not_foreign_of_descendants {d : Dialect} {entry : Entry} {source : Text} {s : Site}
    (hs : s ∈ (parse d entry source).root.descendants) : s.kind ∉ NodeKind.foreign d := by
  obtain ⟨kind, y, s₀, hreads, hbare, -⟩ := exists_yield_parse d entry source
  have hentry := hreads _ (le_refl _)
  have hnodes := Grammar.not_foreign_of_uses (fun _ _ _ _ _ => Grammar.not_foreign_of_yields)
    (Grammar.uses_entry d entry) hentry
  have hall := Site.forall_descendants (E := fun kind _ => kind ∉ NodeKind.foreign d) hbare ?_ ?_
  · obtain ⟨-, -, hkind⟩ := hall s hs
    exact hkind
  · rw [Entry.kind_eq_rootKind hentry]
    cases d <;> cases entry <;> decide
  · rw [Yield.nodes_append, Yield.nodes_row, List.append_nil]
    intro n hn
    exact hnodes n (by simp [Yield.nodes, hn])

/-! ## The names of custom properties -/

/-- A name with two dashes at its start keeps them. -/
lemma Text.startsWith_trim {t : Text} (h : t.startsWith "--" = true) :
    t.trim.startsWith "--" = true := by
  obtain ⟨rest, rfl⟩ := List.isPrefixOf_iff_prefix.1 h
  exact List.isPrefixOf_iff_prefix.2
    (prefix_trim (List.all_eq_true.1 rfl) (List.cons_ne_nil _ _) rest)

namespace Tree

/-- The first child node, if no other significant part stands before it. -/
lemma exists_head_nodesOf (above : List Place) (start : Nat) {cs ds rest : List Tree}
    {kind : NodeKind} (h : bareOf cs = node kind ds :: rest) :
    ∃ s l, nodesOf above start cs = s :: l ∧ s.above = above ∧ s.kind = kind ∧
      bareOf s.here.children = ds := by
  induction cs generalizing start with
  | nil => cases h
  | cons c cs ih =>
      cases hc : c.isTrivia with
      | true =>
          rw [bareOf_cons_trivia hc] at h
          cases c with
          | leaf k t => exact ih _ h
          | node k cs => cases hc
      | false =>
          rw [bareOf_cons hc] at h
          cases c with
          | leaf k t => cases (List.cons.inj h).1
          | node k cs =>
              obtain ⟨rfl, rfl⟩ := Tree.node.inj (List.cons.inj h).1
              exact ⟨_, _, rfl, rfl, rfl, rfl⟩

/-- A node with a single token, and no white space or comment at its ends, has nothing else. -/
lemma eq_singleton_of_bareOf {cs : List Tree} {kind : TokenKind} {text : Text}
    (h : bareOf cs = [leaf kind text]) (hfirst : ∀ t ∈ cs.head?, t.isTrivia = false)
    (hlast : ∀ t ∈ cs.getLast?, t.isTrivia = false) : cs = [leaf kind text] := by
  cases cs with
  | nil => cases h
  | cons c cs =>
      rw [bareOf_cons (hfirst c rfl), List.cons.injEq] at h
      obtain rfl : cs = [] := by
        by_contra hne
        -- The last part would be a second significant one.
        obtain ⟨front, t, rfl⟩ := List.eq_nil_or_concat cs |>.resolve_left hne
        have ht : t.isTrivia = false := hlast t (by
          rw [List.concat_eq_append, ← List.cons_append, List.getLast?_concat, Option.mem_some])
        rw [List.concat_eq_append, bareOf_eq, List.filter_append] at h
        simp [ht] at h
      cases c with
      | leaf k t => rw [← h.1, bare]
      | node k ds => cases h.1

end Tree

/-- The node around a node of a tree is a node of the tree. -/
lemma mem_descendants_of_parent? {d : Dialect} {entry : Entry} {source : Text} {s owner : Site}
    (hs : s ∈ (parse d entry source).root.descendants) (h : s.parent? = some owner) :
    owner ∈ (parse d entry source).root.descendants := by
  obtain ⟨-, -, kind, cs, -, hroot⟩ := built_root d entry source
  rcases Tree.parent_of_sites hs with habove | ⟨s', hs', hparent⟩
  · rw [Site.parent?, habove, hroot] at h
    cases h
  · obtain rfl := Option.some.inj (h.symm.trans hparent)
    exact hs'

/-- The text of a first part that is one token. -/
lemma childText?_of_bare {d : Dialect} {entry : Entry} {source : Text} {s : Site} {kind : NodeKind}
    {t : Token} {rest : Yield} (hs : s ∈ (parse d entry source).root.descendants)
    (hbare : s.tree.bare = .node s.kind (Yield.node kind (.token t .nil) rest).trees) :
    s.childText? kind = some t.text.trim := by
  obtain ⟨c, l, hchildren, habove, hc, htoken⟩ :=
    Tree.exists_head_nodesOf (s.here :: s.above) s.start (Site.bareOf_children hbare)
  have hchildren : s.children = c :: l := hchildren
  have hmem : c ∈ (parse d entry source).root.descendants :=
    Site.mem_descendants_of_children hs (hchildren ▸ List.mem_cons_self)
  obtain ⟨hfirst, hlast⟩ := isTrivia_ends hmem (habove ▸ List.cons_ne_nil _ _)
  have hparts := Tree.eq_singleton_of_bareOf htoken hfirst hlast
  simp only [Site.childText?, Site.child?, hchildren, List.find?_cons, hc]
  simp [Site.trimmed, Site.text, Site.tree, Place.tree, hparts, Tree.text, Tree.leaves,
    Tree.leavesOf]

/-- The name of a custom property is one token with two dashes at its start. -/
lemma startsWith_customProperty {d : Dialect} {entry : Entry} {source : Text} {s : Site}
    (hs : s ∈ (parse d entry source).root.descendants) (hkind : s.kind = .customProperty) :
    ∃ name, (CustomProperty.ofSite s).name? = some name ∧ name.startsWith "--" = true := by
  obtain ⟨y, hbare, hform⟩ := exists_formed d entry source s hs
  rw [hkind] at hform
  obtain ⟨-, t, rest, rfl, hdashes⟩ := hform
  exact ⟨t.text.trim, childText?_of_bare hs hbare, Text.startsWith_trim hdashes⟩

/-! ## The symbols of plain CSS -/

namespace Symbol

variable {entry : Entry} {source : Text} {s : Site}

/-- What a symbol of plain CSS may be. -/
def IsPlain (y : Symbol) : Prop :=
  y.kind = .rule ∨ y.kind = .keyframe ∨ y.kind = .value ∧ y.name.startsWith "--" = true

lemma eq_of_at? {node : Site} {kind : SymbolKind} {name : Text} {value? : Option Site} {y : Symbol}
    (h : at? node kind name value? = some y) : y.kind = kind ∧ y.name = name := by
  rw [at?] at h
  split at h
  · cases h
  · obtain rfl := Option.some.inj h
    exact ⟨rfl, rfl⟩

/-- The nodes whose blocks have parameters or variables of loops are foreign. -/
lemma bound_eq_nil (hs : s ∈ (parse .css entry source).root.descendants) : bound s = [] := by
  rw [bound]
  cases hparent : s.parent? with
  | none => rfl
  | some owner =>
      have hkind := not_foreign_of_descendants (mem_descendants_of_parent? hs hparent)
      dsimp only
      split
      case h_6 => rfl
      all_goals
        rename_i howner
        exact absurd (howner ▸ hkind) (by decide)

lemma isPlain_of_declared (hs : s ∈ (parse .css entry source).root.descendants) {p : Reach × Symbol}
    (hp : p ∈ declared s) : p.2.IsPlain := by
  have hforeign := not_foreign_of_descendants hs
  rw [declared] at hp
  split at hp
  case h_1 =>
    obtain ⟨symbol, hsymbol, rfl⟩ := List.mem_map.1 hp
    obtain ⟨selector, -, hselector⟩ := List.mem_filterMap.1 hsymbol
    rw [ofSelector?] at hselector
    split at hselector
    · split at hselector
      · exact .inl (eq_of_at? hselector).1
      · cases hselector
    · cases hselector
  case h_3 hkind =>
    obtain ⟨symbol, hsymbol, rfl⟩ := Option.map_eq_some_iff.1 (Option.mem_toList.1 hp)
    obtain ⟨name, hname, hdashes⟩ := startsWith_customProperty hs hkind
    obtain ⟨hsort, hsame⟩ := eq_of_at? hsymbol
    rw [hname, Option.getD_some] at hsame
    exact .inr (.inr ⟨hsort, hsame ▸ hdashes⟩)
  case h_6 =>
    obtain ⟨symbol, hsymbol, rfl⟩ := Option.map_eq_some_iff.1 (Option.mem_toList.1 hp)
    exact .inr (.inl (eq_of_at? hsymbol).1)
  case h_7 => cases hp
  all_goals
    rename_i hkind
    exact absurd (hkind ▸ hforeign) (by decide)

end Symbol

lemma isPlain_of_bindings {entry : Entry} {source : Text} {b : Binding}
    (hb : b ∈ (parse .css entry source).root.bindings) : b.symbol.IsPlain := by
  obtain ⟨l, hl, hb⟩ := List.mem_flatten.1 hb
  obtain ⟨j, hj, rfl⟩ := List.mem_mapIdx.1 hl
  have hs := List.getElem_mem hj
  rw [Site.bindingsIn] at hb
  split at hb
  · rw [Symbol.bound_eq_nil hs] at hb
    cases hb
  · obtain ⟨p, hp, rfl⟩ := List.mem_map.1 hb
    exact Symbol.isPlain_of_declared hs hp

/-- A tree has no nodes of kinds that belong to another dialect, whatever the source and the entry
are. The scopes of plain CSS have selectors, animations and custom properties only. -/
theorem dialects_stay_apart (entry : Entry) (source : Text) :
    (∀ d, ∀ s ∈ (parse d entry source).root.descendants, s.kind ∉ NodeKind.foreign d) ∧
      ∀ scope ∈ (Scopes.ofSite (parse .css entry source).root).all, ∀ y ∈ scope.symbols,
        y.kind = .rule ∨ y.kind = .keyframe ∨ y.kind = .value ∧ y.name.startsWith "--" = true := by
  refine ⟨fun d s hs => not_foreign_of_descendants hs, ?_⟩
  intro scope hscope y hy
  obtain ⟨i, hi⟩ := List.mem_iff_getElem?.1 hscope
  have hlast := (Scopes.tablesSorted_ofSite _ _ hscope).mem_iff.1 hy
  have hfind : Scopes.lastFor? (parse .css entry source).root.bindings i y.kind y.name =
      some y := by
    rw [← Scopes.symbol?_ofSite, Scopes.symbol?, hi]
    exact hlast
  obtain ⟨b, hb, rfl⟩ := Option.map_eq_some_iff.1 hfind
  exact isPlain_of_bindings (List.mem_filter.1 (List.mem_of_getLast? hb)).1

/-- A mixin and a variable of SCSS, read as plain CSS. -/
theorem dialects_stay_apart_mixin :
    ∃ source, source = Text.ofString "@mixin f($x)\x7b\x7da\x7b--c:$x\x7d" ∧
      (∃ s ∈ (parse .css .stylesheet source).root.descendants,
        s.kind = .unknownAtRule ∧ s.kind ∉ NodeKind.foreign .css) ∧
      ∃ scope ∈ (Scopes.ofSite (parse .css .stylesheet source).root).all, ∃ y ∈ scope.symbols,
        y.name = Text.ofString "--c" ∧
          (y.kind = .rule ∨ y.kind = .keyframe ∨ y.kind = .value ∧
            y.name.startsWith "--" = true) := by
  obtain ⟨hnodes, hsymbols⟩ :=
    dialects_stay_apart .stylesheet (Text.ofString "@mixin f($x)\x7b\x7da\x7b--c:$x\x7d")
  have hkinds : NodeKind.unknownAtRule ∈ (parse .css .stylesheet
      (Text.ofString "@mixin f($x)\x7b\x7da\x7b--c:$x\x7d")).root.descendants.map Site.kind := by
    decide +kernel
  have hnames : Text.ofString "--c" ∈ (Scopes.ofSite (parse .css .stylesheet
      (Text.ofString "@mixin f($x)\x7b\x7da\x7b--c:$x\x7d")).root).all.flatMap fun scope =>
        scope.symbols.map Symbol.name := by
    decide +kernel
  obtain ⟨s, hs, hkind⟩ := List.mem_map.1 hkinds
  obtain ⟨scope, hscope, hname⟩ := List.mem_flatMap.1 hnames
  obtain ⟨y, hy, hname⟩ := List.mem_map.1 hname
  exact ⟨_, rfl, ⟨s, hs, hkind, hnodes .css s hs⟩, scope, hscope, y, hy, hname,
    hsymbols scope hscope y hy⟩

end StyleSheet
