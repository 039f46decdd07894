import Mathlib
import StyleSheet.Proofs.VariableNames

/-!
# Variables for the whole sheet

The grammar takes a flag by its tokens: a bang, and a word in any case with white space and comments
before it. How far a variable reaches is found by the text of its flags, which is compared with
`global` byte by byte after white space has been removed at its ends. The two agree on a flag in
lower case without a comment in it (`flagWord_eq_global_iff`), and a variable with any other flag
stays in its block.
-/

namespace StyleSheet

open Token

/-! ## Flags -/

namespace Site

/-- The node is a bang and a word in any case. -/
def IsFlag (f : Site) (word : String) : Prop :=
  ∃ t, f.tree.leaves.filter (!·.kind.isTrivia) = [⟨.bang, [byte '!']⟩, ⟨.ident, t⟩] ∧
    t.isWord word = true

/-- The node is a bang and a word in lower case, with nothing but white space between them. -/
def IsPlainFlag (f : Site) (word : String) : Prop :=
  f.tree.leaves.filter (·.kind != .whitespace) = [⟨.bang, [byte '!']⟩, ⟨.ident, Text.ofString word⟩]

instance (f : Site) (word : String) : Decidable (f.IsPlainFlag word) :=
  inferInstanceAs (Decidable (_ = _))

lemma isFlag_iff {f : Site} {word : String} :
    f.IsFlag word ↔
      ∃ l ∈ f.tree.leaves, f.tree.leaves.filter (!·.kind.isTrivia) = [⟨.bang, [byte '!']⟩, l] ∧
      l.kind = .ident ∧ l.text.isWord word = true := by
  constructor
  · rintro ⟨t, hleaves, ht⟩
    have hmem : (⟨.ident, t⟩ : Leaf) ∈ f.tree.leaves.filter (!·.kind.isTrivia) := by simp [hleaves]
    exact ⟨⟨.ident, t⟩, (List.mem_filter.1 hmem).1, hleaves, rfl, ht⟩
  · rintro ⟨⟨_, t⟩, -, hleaves, rfl, ht⟩
    exact ⟨t, hleaves, ht⟩

instance (f : Site) (word : String) : Decidable (f.IsFlag word) := decidable_of_iff' _ isFlag_iff

end Site

namespace VariableDeclaration

/-- The word of a flag is what follows the white space behind the bang. -/
lemma flagWord_bang {gap t : Text} (hgap : ∀ b ∈ gap, Byte.isBlank b = true)
    (hfirst : ∃ b ∈ t.head?, Byte.isSolid b = true ∧ b ≠ byte '!')
    (hlast : ∀ b ∈ t.getLast?, Byte.isSolid b = true) : flagWord (byte '!' :: (gap ++ t)) = t := by
  obtain ⟨b, hb, hsolid, hbang⟩ := hfirst
  obtain ⟨rest, rfl⟩ := List.head?_eq_some_iff.1 hb
  have htrim : Text.trim (byte '!' :: (gap ++ b :: rest)) = byte '!' :: (gap ++ b :: rest) := by
    refine Text.trim_eq_self (by rintro _ ⟨⟩; decide) ?_
    rw [← List.cons_append, List.getLast?_append_of_ne_nil _ (List.cons_ne_nil _ _)]
    exact hlast
  have hdrop : Text.dropByte (byte '!') (byte '!' :: (gap ++ b :: rest)) = gap ++ b :: rest := by
    rw [Text.dropByte, List.dropWhile_cons_of_pos (by simp)]
    cases gap with
    | nil => exact List.dropWhile_cons_of_neg (by simpa using hbang)
    | cons c gap =>
        refine List.dropWhile_cons_of_neg fun hc => ?_
        rw [beq_iff_eq.1 hc] at hgap
        exact absurd (hgap _ List.mem_cons_self) (by decide)
  rw [flagWord, htrim, hdrop]
  refine Text.trim_blank_append hgap ?_ hlast
  rintro _ ⟨⟩
  exact hsolid

lemma blank_of_leaves {gap : List Leaf} (htexts : ∀ l ∈ gap, IsTextOf l.kind l.text)
    (hkinds : ∀ l ∈ gap, l.kind = .whitespace) :
    ∀ b ∈ gap.flatMap Leaf.text, Byte.isBlank b = true := by
  intro b hb
  obtain ⟨l, hl, hb⟩ := List.mem_flatMap.1 hb
  have htext := htexts l hl
  rw [hkinds l hl] at htext
  exact htext b hb

/-- With a comment in the flag, the word begins with the slash of the first one. -/
lemma head?_flagWord_of_comment {gap : List Leaf} {t : Text}
    (hgap : ∀ l ∈ gap, l.kind.isTrivia = true ∧ IsTextOf l.kind l.text)
    (hcomment : ¬ ∀ l ∈ gap, l.kind = .whitespace) (hne : t ≠ [])
    (hlast : ∀ b ∈ t.getLast?, Byte.isSolid b = true) :
    (flagWord (byte '!' :: (gap.flatMap Leaf.text ++ t))).head? = some (byte '/') := by
  obtain ⟨c, hfind⟩ : ∃ c, gap.find? (·.kind != .whitespace) = some c := by
    rw [← Option.isSome_iff_exists, List.find?_isSome]
    simpa using hcomment
  obtain ⟨hc, front, behind, rfl, hfront⟩ := List.find?_eq_some_iff_append.1 hfind
  have hmem : c ∈ front ++ c :: behind := List.mem_append_right _ List.mem_cons_self
  have hkind : c.kind = .comment := by
    have htrivia := (hgap c hmem).1
    revert hc htrivia
    cases c.kind <;> decide
  have hslash := (hgap c hmem).2
  rw [hkind] at hslash
  obtain ⟨body, hbody⟩ := List.head?_eq_some_iff.1 hslash
  have hsplit : (front ++ c :: behind).flatMap Leaf.text ++ t =
      front.flatMap Leaf.text ++ ((byte '/' :: (body ++ behind.flatMap Leaf.text)) ++ t) := by
    simp [hbody]
  have hblank := blank_of_leaves (fun l hl => (hgap l (List.mem_append_left _ hl)).2) fun l hl => by
    simpa using hfront l hl
  rw [hsplit, flagWord_bang hblank ⟨byte '/', rfl, by decide⟩
    ((List.getLast?_append_of_ne_nil _ hne).symm ▸ hlast)]
  rfl

end VariableDeclaration

/-- The words of flags are letters. -/
lemma letters_of_flag {t : Text} (h : t.isWord "default" = true ∨ t.isWord "global" = true) :
    t ≠ [] ∧ ∀ b ∈ t, Byte.isSolid b = true ∧ b ≠ byte '!' := by
  have hletters : ∀ b : UInt8, Byte.lower b ∈ Text.ofString "default" ++ Text.ofString "global" →
      Byte.isSolid b = true ∧ b ≠ byte '!' := by
    decide +kernel
  constructor
  · rintro rfl
    exact absurd h (by decide)
  · intro b hb
    have hlower : Byte.lower b ∈ t.lower := List.mem_map_of_mem hb
    refine hletters b (List.mem_append.2 ?_)
    rcases h with h | h
    · exact .inl (beq_iff_eq.1 h ▸ hlower)
    · exact .inr (beq_iff_eq.1 h ▸ hlower)

section

variable {d : Dialect} {entry : Entry} {source : String} {s f : Site}

lemma exists_leaves_of_flag (hf : f ∈ (parse d entry (Text.ofString source)).root.descendants)
    (hkind : f.kind = .variableFlag) :
    ∃ gap word, f.tree.leaves = ⟨.bang, [byte '!']⟩ :: (gap ++ [⟨.ident, word⟩]) ∧
      (∀ l ∈ gap, l.kind.isTrivia = true ∧ IsTextOf l.kind l.text) ∧
      (word.isWord "default" = true ∨ word.isWord "global" = true) := by
  obtain ⟨⟨_, bang⟩, gap, ⟨_, word⟩, hleaves, rfl, hgap, rfl, hword⟩ :=
    leaves_of_variableFlag hf hkind
  obtain rfl : bang = [byte '!'] :=
    isTextOf_of_descendants hf (l := ⟨.bang, bang⟩) (by simp [hleaves])
  exact ⟨gap, word, hleaves,
    fun l hl => ⟨hgap l hl, isTextOf_of_descendants hf (by simp [hleaves, hl])⟩, hword⟩

lemma isFlag_of_variableFlag (hf : f ∈ (parse d entry (Text.ofString source)).root.descendants)
    (hkind : f.kind = .variableFlag) : f.IsFlag "default" ∨ f.IsFlag "global" := by
  obtain ⟨gap, word, hleaves, hgap, hword⟩ := exists_leaves_of_flag hf hkind
  have hfilter : f.tree.leaves.filter (!·.kind.isTrivia) =
      [⟨.bang, [byte '!']⟩, ⟨.ident, word⟩] := by
    have hnone : gap.filter (!·.kind.isTrivia) = [] :=
      List.filter_eq_nil_iff.2 fun l hl => by simp [(hgap l hl).1]
    rw [hleaves, List.filter_cons_of_pos rfl, List.filter_append, hnone]
    rfl
  exact hword.imp (fun h => ⟨word, hfilter, h⟩) fun h => ⟨word, hfilter, h⟩

/-- A flag counts as `global` if and only if it is written plainly. -/
lemma flagWord_eq_global_iff (hf : f ∈ (parse d entry (Text.ofString source)).root.descendants)
    (hkind : f.kind = .variableFlag) :
    VariableDeclaration.flagWord f.text = Text.ofString "global" ↔ f.IsPlainFlag "global" := by
  obtain ⟨gap, word, hleaves, hgap, hword⟩ := exists_leaves_of_flag hf hkind
  obtain ⟨hne, hletters⟩ := letters_of_flag hword
  have hlast : ∀ b ∈ word.getLast?, Byte.isSolid b = true :=
    fun b hb => (hletters b (List.mem_of_mem_getLast? hb)).1
  have htext : f.text = byte '!' :: (gap.flatMap Leaf.text ++ word) := by
    rw [Site.text, Tree.text, hleaves]
    simp
  rw [htext, Site.IsPlainFlag, hleaves]
  by_cases hblank : ∀ l ∈ gap, l.kind = .whitespace
  · have hfirst : ∃ b ∈ word.head?, Byte.isSolid b = true ∧ b ≠ byte '!' :=
      ⟨word.head hne, List.head?_eq_some_head hne, hletters _ (List.head_mem hne)⟩
    have hnone : gap.filter (·.kind != .whitespace) = [] :=
      List.filter_eq_nil_iff.2 fun l hl => by simp [hblank l hl]
    have hblanks := VariableDeclaration.blank_of_leaves (fun l hl => (hgap l hl).2) hblank
    rw [VariableDeclaration.flagWord_bang hblanks hfirst hlast, List.filter_cons_of_pos rfl,
      List.filter_append, hnone]
    simp
  · -- Neither side holds: the word begins with a slash, and a comment is left among the leaves.
    have hslash := VariableDeclaration.head?_flagWord_of_comment hgap hblank hne hlast
    push Not at hblank
    obtain ⟨c, hc, hkind⟩ := hblank
    constructor
    · intro h
      rw [h] at hslash
      exact absurd hslash (by decide)
    · intro h
      have hin : c ∈ ([⟨.bang, [byte '!']⟩, ⟨.ident, Text.ofString "global"⟩] : List Leaf) := by
        rw [← h]
        simp [hc, hkind]
      have htrivia := (hgap c hc).1
      simp only [List.mem_cons, List.not_mem_nil, or_false] at hin
      rcases hin with rfl | rfl <;> exact absurd htrivia (by decide)

lemma isGlobalVariable_iff (hs : s ∈ (parse d entry (Text.ofString source)).root.descendants)
    (hkind : s.kind = .variableDeclaration) :
    s.IsGlobalVariable ↔ ∃ f ∈ s.childrenOf .variableFlag, f.IsPlainFlag "global" := by
  have hflags : ∀ f ∈ s.childrenOf .variableFlag,
      VariableDeclaration.flagWord f.text = Text.ofString "global" ↔ f.IsPlainFlag "global" := by
    intro f hf
    obtain ⟨hchild, hflag⟩ := List.mem_filter.1 hf
    exact flagWord_eq_global_iff (Site.mem_descendants_of_children hs hchild) (beq_iff_eq.1 hflag)
  rw [Site.IsGlobalVariable, VariableDeclaration.ofSite, List.mem_map]
  constructor
  · rintro ⟨-, f, hf, hword⟩
    exact ⟨f, hf, (hflags f hf).1 hword⟩
  · rintro ⟨f, hf, hplain⟩
    exact ⟨hkind, f, hf, (hflags f hf).2 hplain⟩

end

/-! ## Scopes -/

namespace Site

/-- The symbols that are declared where a tour meets the node, for whatever scope. -/
def symbols (s : Site) : List Symbol :=
  if s.isBlock then Symbol.bound s else (Symbol.declared s).map Prod.snd

/-- The symbol is declared at the `i`-th node below `root`. -/
def DeclaresAt (root : Site) (i : Nat) (y : Symbol) : Prop :=
  ∃ s, root.descendants[i]? = some s ∧ y ∈ s.symbols

/-- The scope for a variable, the `j`-th node below `root`: the global one if it has a plain flag,
and otherwise the innermost one that is open there. -/
def flaggedScope (root : Site) (j : Nat) (s : Site) : Nat :=
  if ∃ f ∈ s.childrenOf .variableFlag, f.IsPlainFlag "global" then Scopes.global
  else Tree.scopeAround root.descendants Scopes.global 1 j

lemma map_symbol_bindingsIn (s : Site) (current inner : Nat) :
    (s.bindingsIn current inner).map Binding.symbol = s.symbols := by
  rw [bindingsIn, symbols]
  split
  · rw [List.map_map]
    exact List.map_id _
  · simp

end Site

namespace Scopes

variable {root s : Site} {j k : Nat} {kind : SymbolKind} {name : Text} {y : Symbol}

/-- The declarations that are met at the `j`-th node below a node. -/
def bindingsAt (root : Site) (j : Nat) (s : Site) : List Binding :=
  s.bindingsIn (Tree.scopeAround root.descendants global 1 j) (Tree.scopeOf root.descendants 1 j)

lemma exists_bindingsAt {l : List Binding} {n : Nat}
    (hl : l ∈ (root.descendants.mapIdx fun j s => bindingsAt root j s).drop n) :
    ∃ i s, n ≤ i ∧ root.descendants[i]? = some s ∧ l = bindingsAt root i s := by
  obtain ⟨m, hm⟩ := List.mem_iff_getElem?.1 hl
  rw [List.getElem?_drop, List.getElem?_mapIdx] at hm
  obtain ⟨s, hs, rfl⟩ := Option.map_eq_some_iff.1 hm
  exact ⟨n + m, s, Nat.le_add_right n m, hs, rfl⟩

/-- A symbol of a table comes from a declaration for its scope. -/
lemma exists_binding_of_symbol? (h : (ofSite root).symbol? k kind name = some y) :
    ∃ i s, root.descendants[i]? = some s ∧ ∃ b ∈ bindingsAt root i s, b.scope = k ∧
      b.symbol = y := by
  rw [symbol?_ofSite] at h
  obtain ⟨b, hb, rfl⟩ := Option.map_eq_some_iff.1 h
  obtain ⟨hmem, hfor⟩ := List.mem_filter.1 (List.mem_of_getLast? hb)
  obtain ⟨l, hl, hb⟩ := List.mem_flatten.1 hmem
  obtain ⟨i, s, -, hs, rfl⟩ := exists_bindingsAt (n := 0) hl
  exact ⟨i, s, hs, b, hb, (of_decide_eq_true hfor).1, rfl⟩

/-- Behind a declaration its scope has a symbol from there or from a later declaration. -/
lemma exists_later_binding (hs : root.descendants[j]? = some s) {b : Binding}
    (hb : b ∈ bindingsAt root j s) :
    ∃ y, (ofSite root).symbol? b.scope b.symbol.kind b.symbol.name = some y ∧
      ∃ i s', j ≤ i ∧ root.descendants[i]? = some s' ∧
      ∃ b' ∈ bindingsAt root i s', b'.symbol = y := by
  have hsplit : root.bindings =
      ((root.descendants.mapIdx fun j s => bindingsAt root j s).take j).flatten ++
      ((root.descendants.mapIdx fun j s => bindingsAt root j s).drop j).flatten := by
    rw [← List.flatten_append, List.take_append_drop]
    rfl
  have hrow : bindingsAt root j s ∈
      (root.descendants.mapIdx fun j s => bindingsAt root j s).drop j := by
    refine List.mem_iff_getElem?.2 ⟨0, ?_⟩
    rw [List.getElem?_drop, List.getElem?_mapIdx, Nat.add_zero, hs, Option.map_some]
  obtain ⟨y, hy⟩ := exists_lastFor? (List.mem_flatten_of_mem hrow hb)
    (decide_eq_true ⟨rfl, rfl, rfl⟩ : b.isFor b.scope b.symbol.kind b.symbol.name = true)
  refine ⟨y, by rw [symbol?_ofSite, hsplit, lastFor?_append, hy, Option.some_or], ?_⟩
  obtain ⟨b', hb', rfl⟩ := Option.map_eq_some_iff.1 hy
  obtain ⟨l, hl, hmem⟩ := List.mem_flatten.1 (List.mem_filter.1 (List.mem_of_getLast? hb')).1
  obtain ⟨i, s', hle, hs', rfl⟩ := exists_bindingsAt hl
  exact ⟨i, s', hle, hs', b', hmem, rfl⟩

end Scopes

/-- A variable of SCSS declares one symbol, for the scope that its flags call for. -/
lemma bindingsAt_variableDeclaration {entry : Entry} {source : String} {s : Site} (j : Nat)
    (hs : s ∈ (parse .scss entry (Text.ofString source)).root.descendants)
    (hkind : s.kind = .variableDeclaration) :
    ∃ symbol, s.symbols = [symbol] ∧ symbol.kind = .value ∧
      (VariableDeclaration.ofSite s).name? = some symbol.name ∧
      Scopes.bindingsAt (parse .scss entry (Text.ofString source)).root j s =
        [⟨(parse .scss entry (Text.ofString source)).root.flaggedScope j s, symbol⟩] := by
  obtain ⟨name, hname, hne⟩ := exists_name_of_variableDeclaration hs hkind
  have hdeclared : Symbol.declared s = [(Symbol.variableReach (VariableDeclaration.ofSite s),
      ⟨.value, name, (VariableDeclaration.ofSite s).value?.map Site.trimmed, s⟩)] := by
    rw [Symbol.declared, hkind]
    simp [hname, Symbol.at?, hne]
  have hblock : s.isBlock = false := by simp [Site.isBlock, hkind]
  have hproperty : ¬ s.IsRootProperty := fun h => by simp [Site.IsRootProperty, hkind] at h
  refine ⟨⟨.value, name, (VariableDeclaration.ofSite s).value?.map Site.trimmed, s⟩, ?_, rfl,
    hname, ?_⟩
  · simp [Site.symbols, hblock, hdeclared]
  · rw [Scopes.bindingsAt, Site.bindingsIn, Site.flaggedScope, hdeclared]
    simp [hblock, hproperty, isGlobalVariable_iff hs hkind]

/-- Each flag of a variable is a bang and one of two words in any case. The variable is in the table
of one scope, until a later declaration of the same name takes its place: in that of the whole sheet
if a flag is written plainly, however deep the blocks around it are, and otherwise in that of the
block around it. What the other scopes have under its name comes from other nodes. -/
theorem variables_reach_as_spelled (entry : Entry) (source : String) {root s : Site} {j : Nat}
    (hroot : root = (parse .scss entry (Text.ofString source)).root)
    (hs : root.descendants[j]? = some s) (hkind : s.kind = .variableDeclaration) :
    (∀ f ∈ s.childrenOf .variableFlag, f.IsFlag "default" ∨ f.IsFlag "global") ∧
      ∃ symbol, s.symbols = [symbol] ∧ symbol.kind = .value ∧
        (VariableDeclaration.ofSite s).name? = some symbol.name ∧
        (∃ y, (Scopes.ofSite root).symbol? (root.flaggedScope j s) .value symbol.name = some y ∧
          (y = symbol ∨ ∃ i, j < i ∧ root.DeclaresAt i y)) ∧
        ∀ k y, k ≠ root.flaggedScope j s →
        (Scopes.ofSite root).symbol? k .value symbol.name = some y →
          ∃ i, i ≠ j ∧ root.DeclaresAt i y := by
  subst hroot
  have hmem := List.mem_of_getElem? hs
  obtain ⟨symbol, hsymbols, hvalue, hname, hbindings⟩ := bindingsAt_variableDeclaration j hmem hkind
  have hdeclares : ∀ {i s' b},
      (parse .scss entry (Text.ofString source)).root.descendants[i]? = some s' →
      b ∈ Scopes.bindingsAt (parse .scss entry (Text.ofString source)).root i s' →
      (parse .scss entry (Text.ofString source)).root.DeclaresAt i b.symbol := by
    intro i s' b hs' hb
    exact ⟨s', hs', Site.map_symbol_bindingsIn s' _ _ ▸ List.mem_map_of_mem hb⟩
  refine ⟨fun f hf => ?_, symbol, hsymbols, hvalue, hname, ?_, fun k y hk hy => ?_⟩
  · obtain ⟨hchild, hflag⟩ := List.mem_filter.1 hf
    exact isFlag_of_variableFlag (Site.mem_descendants_of_children hmem hchild) (beq_iff_eq.1 hflag)
  · obtain ⟨y, hy, i, s', hle, hs', b', hb', rfl⟩ :=
      Scopes.exists_later_binding hs (hbindings ▸ List.mem_singleton_self _)
    rw [hvalue] at hy
    refine ⟨b'.symbol, hy, ?_⟩
    rcases Nat.eq_or_lt_of_le hle with rfl | hlt
    · obtain rfl := Option.some.inj (hs.symm.trans hs')
      rw [hbindings, List.mem_singleton] at hb'
      exact .inl (congrArg Binding.symbol hb')
    · exact .inr ⟨i, hlt, hdeclares hs' hb'⟩
  · obtain ⟨i, s', hs', b, hb, hscope, rfl⟩ := Scopes.exists_binding_of_symbol? hy
    refine ⟨i, ?_, hdeclares hs' hb⟩
    rintro rfl
    obtain rfl := Option.some.inj (hs.symm.trans hs')
    rw [hbindings, List.mem_singleton] at hb
    exact hk (hscope.symm.trans (congrArg Binding.scope hb))

/-- A plain flag in two blocks, with white space behind the bang. -/
theorem variables_reach_as_spelled_nested :
    ∃ root s j,
      root = (parse .scss .stylesheet (Text.ofString "b\x7bc\x7b$x:1 ! global\x7d\x7d")).root ∧
      root.descendants[j]? = some s ∧ s.kind = .variableDeclaration ∧
      root.flaggedScope j s = Scopes.global ∧
      ∃ symbol, s.symbols = [symbol] ∧
        ∃ y, (Scopes.ofSite root).symbol? Scopes.global .value symbol.name = some y := by
  obtain ⟨root, hroot⟩ : ∃ root, root =
      (parse .scss .stylesheet (Text.ofString "b\x7bc\x7b$x:1 ! global\x7d\x7d")).root := ⟨_, rfl⟩
  obtain ⟨s, hs, hkind, hscope⟩ : ∃ s ∈ root.descendants[13]?, s.kind = .variableDeclaration ∧
      root.flaggedScope 13 s = Scopes.global := by
    rw [hroot]
    decide +kernel
  obtain ⟨-, symbol, hsymbols, -, -, ⟨y, hy, -⟩, -⟩ :=
    variables_reach_as_spelled .stylesheet _ hroot hs hkind
  exact ⟨root, s, 13, hroot, hs, hkind, hscope, symbol, hsymbols, y, hscope ▸ hy⟩

/-- A variable `$x` of the first block has the flag `!global`, and is found in the block alone. -/
def Site.IgnoresFlag (root : Site) : Prop :=
  (∃ s ∈ root.descendants, s.kind = .variableDeclaration ∧
    ∃ f ∈ s.childrenOf .variableFlag, f.IsFlag "global") ∧
    (Scopes.ofSite root).symbol? Scopes.global .value (Text.ofString "$x") = none ∧
    ((Scopes.ofSite root).symbol? 1 .value (Text.ofString "$x")).isSome = true

instance (root : Site) : Decidable root.IgnoresFlag := inferInstanceAs (Decidable (_ ∧ _))

/-- A flag in capitals and a flag with a comment in it are taken for flags, and leave the variable
in its block. -/
theorem other_flags_stay_local :
    (parse .scss .stylesheet (Text.ofString "b\x7b$x:1 !GLOBAL\x7d")).root.IgnoresFlag ∧
      (parse .scss .stylesheet (Text.ofString "b\x7b$x:1 !/**/global\x7d")).root.IgnoresFlag := by
  decide +kernel

end StyleSheet
