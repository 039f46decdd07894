import Mathlib
import StyleSheet.Parse
import StyleSheet.Proofs.ScopeTree

/-!
# The symbols of scopes

A scope holds, for each kind and name, the last symbol that has been declared for it. The
declarations of a tree are listed in the order in which a tour meets them, each with the scope that
it is for (`Site.bindings`); this list says what the tables of all scopes are.
-/

namespace StyleSheet

namespace Symbol

/-! ## Tables -/

variable {s t u : Symbol} {table : List Symbol} {kind : SymbolKind} {name : Text}

@[simp] lemma answers_iff : s.answers kind name = true ↔ s.kind = kind ∧ s.name = name := by
  simp [answers]

lemma find?_cons (t : Symbol) (rest : List Symbol) (kind : SymbolKind) (name : Text) :
    find? (t :: rest) kind name = if t.answers kind name then some t else find? rest kind name := by
  rw [find?, List.find?_cons]
  cases t.answers kind name <;> rfl

lemma insert_cons (s t : Symbol) (rest : List Symbol) : s.insert (t :: rest) =
    if t.answers s.kind s.name then s :: rest
    else if s.precedes t then s :: t :: rest else t :: s.insert rest := rfl

lemma find?_insert (s : Symbol) (table : List Symbol) (kind : SymbolKind) (name : Text) :
    find? (s.insert table) kind name =
      if s.answers kind name then some s else find? table kind name := by
  induction table with
  | nil => exact find?_cons s [] kind name
  | cons t rest ih =>
      rw [insert_cons]
      split
      · -- The symbol takes the place of `t`, which answers to nothing that it does not answer to.
        rename_i ht
        obtain ⟨hkind, hname⟩ := answers_iff.1 ht
        have hsame : t.answers kind name = s.answers kind name := by
          rw [answers, answers, hkind, hname]
        rw [find?_cons, find?_cons, hsame]
        cases s.answers kind name <;> rfl
      · rename_i ht
        split
        · exact find?_cons s (t :: rest) kind name
        · rw [find?_cons, find?_cons, ih]
          cases hs : s.answers kind name with
          | false => rfl
          | true =>
              -- What `t` answers to is not what `s` answers to.
              obtain ⟨rfl, rfl⟩ := answers_iff.1 hs
              rw [if_neg ht, if_pos rfl, if_pos rfl]

lemma rank_injective : Function.Injective SymbolKind.rank := by
  intro k l h
  cases k <;> cases l <;> first | rfl | cases h

lemma precedes_iff : s.precedes t = true ↔
    s.kind.rank < t.kind.rank ∨ s.kind = t.kind ∧ s.name < t.name := by
  simp [precedes]

lemma precedes_trans (h : s.precedes t = true) (h' : t.precedes u = true) :
    s.precedes u = true := by
  rw [precedes_iff] at h h' ⊢
  rcases h with h | ⟨hkind, hname⟩
  · rcases h' with h' | ⟨hkind', -⟩
    · exact .inl (h.trans h')
    · exact .inl (hkind' ▸ h)
  · rcases h' with h' | ⟨hkind', hname'⟩
    · exact .inl (hkind ▸ h')
    · exact .inr ⟨hkind.trans hkind', List.lt_trans hname hname'⟩

/-- Of two symbols that do not answer to the same, one precedes the other. -/
lemma precedes_of_not (hanswers : ¬ t.answers s.kind s.name = true) (h : ¬ s.precedes t = true) :
    t.precedes s = true := by
  rw [precedes_iff] at h ⊢
  rw [answers_iff] at hanswers
  rcases Nat.lt_trichotomy s.kind.rank t.kind.rank with hlt | heq | hlt
  · exact absurd (.inl hlt) h
  · have hkind := rank_injective heq
    refine .inr ⟨hkind.symm, ?_⟩
    by_contra hname
    exact hanswers ⟨hkind.symm, List.le_antisymm (fun hlt => h (.inr ⟨hkind, hlt⟩)) hname⟩
  · exact .inl hlt

/-- The symbols of a table are in order, so no two of them have the same kind and name. -/
def Sorted (table : List Symbol) : Prop := table.Pairwise fun s t => s.precedes t = true

lemma mem_insert (h : t ∈ s.insert table) : t = s ∨ t ∈ table := by
  induction table with
  | nil => exact .inl (List.mem_singleton.1 h)
  | cons u rest ih =>
      rw [insert_cons] at h
      split at h
      · rcases List.mem_cons.1 h with rfl | h
        · exact .inl rfl
        · exact .inr (List.mem_cons_of_mem _ h)
      · split at h
        · exact List.mem_cons.1 h
        · rcases List.mem_cons.1 h with rfl | h
          · exact .inr List.mem_cons_self
          · exact (ih h).imp_right (List.mem_cons_of_mem _)

lemma Sorted.insert (h : Sorted table) (s : Symbol) : Sorted (s.insert table) := by
  induction table with
  | nil => exact List.pairwise_singleton _ _
  | cons t rest ih =>
      obtain ⟨hfirst, hrest⟩ := List.pairwise_cons.1 h
      rw [insert_cons]
      split
      · rename_i hanswers
        obtain ⟨hkind, hname⟩ := answers_iff.1 hanswers
        refine List.pairwise_cons.2 ⟨fun u hu => ?_, hrest⟩
        have hprecedes := hfirst u hu
        rw [precedes_iff, hkind, hname] at hprecedes
        exact precedes_iff.2 hprecedes
      · rename_i hanswers
        split
        · rename_i hprecedes
          refine List.pairwise_cons.2 ⟨fun u hu => ?_, h⟩
          rcases List.mem_cons.1 hu with rfl | hu
          · exact hprecedes
          · exact precedes_trans hprecedes (hfirst u hu)
        · rename_i hprecedes
          refine List.pairwise_cons.2 ⟨fun u hu => ?_, ih hrest⟩
          rcases mem_insert hu with rfl | hu
          · exact precedes_of_not hanswers hprecedes
          · exact hfirst u hu

/-- A symbol does not answer to what a symbol behind it answers to. -/
lemma not_answers_of_precedes (h : t.precedes s = true) : ¬ t.answers s.kind s.name = true := by
  rw [answers_iff]
  rintro ⟨hkind, hname⟩
  rw [precedes_iff, hkind, hname] at h
  exact h.elim (Nat.lt_irrefl _) fun hlt => List.lt_irrefl _ hlt.2

lemma Sorted.nodup (h : Sorted table) : (table.map fun s => (s.kind, s.name)).Nodup := by
  refine List.pairwise_map.2 (h.imp ?_)
  intro s t hprecedes heq
  exact not_answers_of_precedes hprecedes (answers_iff.2 (Prod.mk.inj heq))

/-- A symbol of a table is found under its own kind and name. -/
lemma Sorted.mem_iff (h : Sorted table) : s ∈ table ↔ find? table s.kind s.name = some s := by
  refine ⟨fun hs => ?_, fun hs => List.mem_of_find?_eq_some hs⟩
  induction table with
  | nil => cases hs
  | cons t rest ih =>
      obtain ⟨hfirst, hrest⟩ := List.pairwise_cons.1 h
      rw [find?_cons]
      rcases List.mem_cons.1 hs with rfl | hs
      · simp
      · rw [if_neg (not_answers_of_precedes (hfirst s hs))]
        exact ih hrest hs

end Symbol

/-! ## Declarations and their scopes -/

/-- A symbol and the scope that it is declared for. -/
structure Binding where
  scope : Nat
  symbol : Symbol

/-- Whether a declaration is for a scope, a kind and a name. -/
def Binding.isFor (b : Binding) (scope : Nat) (kind : SymbolKind) (name : Text) : Bool :=
  b.scope = scope ∧ b.symbol.kind = kind ∧ b.symbol.name = name

namespace Site

/-- The node is the declaration of a variable with the flag `global`. -/
def IsGlobalVariable (s : Site) : Prop :=
  s.kind = .variableDeclaration ∧ Text.ofString "global" ∈ (VariableDeclaration.ofSite s).flags

/-- The node is a custom property that is a part of the sheet, or of the block of a rule set that
has selectors and all of them are `:root`. -/
def IsRootProperty (s : Site) : Prop :=
  s.kind = .customProperty ∧ ∃ p ∈ s.parent?, p.kind = .stylesheet ∨
    p.kind = .declarations ∧ ∃ r ∈ p.parent?, r.kind = .ruleset ∧
    (Ruleset.ofSite r).selectors ≠ [] ∧
      ∀ l ∈ (Ruleset.ofSite r).selectors, l.trimmed = Text.ofString ":root"

instance (s : Site) : Decidable s.IsGlobalVariable := inferInstanceAs (Decidable (_ ∧ _))

instance (s : Site) : Decidable s.IsRootProperty := inferInstanceAs (Decidable (_ ∧ _))

/-- The declarations that are met at a node. At a block these are the parameters and the variables
of loops that its owner binds, for the scope `inner` of the block. At any other node they are for
the innermost scope `current` that is open there, unless the node declares for the whole sheet. -/
def bindingsIn (s : Site) (current inner : Nat) : List Binding :=
  if s.isBlock then (Symbol.bound s).map fun symbol => ⟨inner, symbol⟩
  else
    (Symbol.declared s).map fun d =>
      ⟨if s.IsGlobalVariable ∨ s.IsRootProperty then Scopes.global else current, d.2⟩

/-- The declarations at or below a node, in the order in which they are met. -/
def bindings (root : Site) : List Binding :=
  (root.descendants.mapIdx fun j s =>
    s.bindingsIn (Tree.scopeAround root.descendants Scopes.global 1 j)
      (Tree.scopeOf root.descendants 1 j)).flatten

end Site

namespace Symbol

variable {s : Site} {current : Nat}

lemma isRootLevel_iff (hkind : s.kind = .customProperty) :
    isRootLevel s = true ↔ s.parent? = none ∨ s.IsRootProperty := by
  rw [isRootLevel, Site.IsRootProperty]
  cases s.parent? with
  | none => simp
  | some p =>
      simp only [hkind, Option.some.injEq, exists_eq_left', true_and, reduceCtorEq, false_or,
        Bool.or_eq_true, Bool.and_eq_true, beq_iff_eq, Option.any_eq_true, Bool.not_eq_true',
        List.all_eq_true, List.isEmpty_eq_false_iff, Option.mem_def]

/-- How far a declaration reaches is a matter of the node alone. -/
lemma reach_eq_everywhere {d : Reach × Symbol} (hd : d ∈ declared s) : d.1 = .everywhere ↔
    s.IsGlobalVariable ∨ s.kind = .customProperty ∧ isRootLevel s = true := by
  rw [declared] at hd
  split at hd
  case h_1 hkind =>
    obtain ⟨symbol, -, rfl⟩ := List.mem_map.1 hd
    simp [Site.IsGlobalVariable, hkind]
  case h_7 => cases hd
  all_goals
    rename_i hkind
    obtain ⟨symbol, -, rfl⟩ := Option.map_eq_some_iff.1 (Option.mem_toList.1 hd)
    simp [Site.IsGlobalVariable, hkind, variableReach]

/-- A node without a node around it is the whole tree, so that a custom property there is for the
global scope in any case. -/
lemma target_eq (hroot : s.parent? = none → current = Scopes.global) {d : Reach × Symbol}
    (hd : d ∈ declared s) : (if d.1 = .everywhere then Scopes.global else current) =
      if s.IsGlobalVariable ∨ s.IsRootProperty then Scopes.global else current := by
  by_cases hnone : s.parent? = none
  · rw [hroot hnone, ite_self, ite_self]
  · refine if_congr ((reach_eq_everywhere hd).trans (or_congr_right ?_)) rfl rfl
    constructor
    · rintro ⟨hkind, hlevel⟩
      exact ((isRootLevel_iff hkind).1 hlevel).resolve_left hnone
    · intro hproperty
      exact ⟨hproperty.1, (isRootLevel_iff hproperty.1).2 (.inr hproperty)⟩

/-! ## Names -/

end Symbol

namespace Scopes

variable {g : Scopes} {i : Nat} {kind : SymbolKind} {name : Text}

/-! ## What declarations do to tables -/

/-- The scopes with further declarations. -/
def bind (g : Scopes) (l : List Binding) : Scopes :=
  l.foldl (fun h b => h.declare b.scope b.symbol) g

/-- The symbol of the last of some declarations that is for a scope, a kind and a name. -/
def lastFor? (l : List Binding) (i : Nat) (kind : SymbolKind) (name : Text) : Option Symbol :=
  ((l.filter fun b => b.isFor i kind name).getLast?).map Binding.symbol

lemma lastFor?_append (l l' : List Binding) (i : Nat) (kind : SymbolKind) (name : Text) :
    lastFor? (l ++ l') i kind name = (lastFor? l' i kind name).or (lastFor? l i kind name) := by
  rw [lastFor?, List.filter_append, List.getLast?_append, Option.map_or]
  rfl

lemma exists_lastFor? {l : List Binding} {b : Binding} (hb : b ∈ l)
    (hfor : b.isFor i kind name = true) : ∃ y, lastFor? l i kind name = some y := by
  rw [lastFor?]
  cases hlast : (l.filter fun b => b.isFor i kind name).getLast? with
  | none =>
      have hmem : b ∈ l.filter fun b => b.isFor i kind name := List.mem_filter.2 ⟨hb, hfor⟩
      rw [List.getLast?_eq_none_iff.1 hlast] at hmem
      cases hmem
  | some c => exact ⟨c.symbol, rfl⟩

lemma enter_eq (g : Scopes) {s : Site} {current : Nat}
    (hroot : s.parent? = none → current = global) :
    g.enter s current =
      (if s.isBlock then g.push current s else g).bind (s.bindingsIn current g.size) := by
  rw [enter, Site.bindingsIn, bind]
  by_cases hblock : s.isBlock = true
  · simp only [hblock, if_true, List.foldl_map]
  · simp only [hblock, if_false, List.foldl_map, Bool.false_eq_true]
    refine List.foldl_ext _ _ _ fun h d hd => ?_
    rw [Symbol.target_eq hroot hd]

lemma symbol?_declare (g : Scopes) {scope : Nat} (hscope : scope < g.size) (symbol : Symbol) :
    (g.declare scope symbol).symbol? i kind name =
      if scope = i ∧ symbol.answers kind name then some symbol else g.symbol? i kind name := by
  rw [symbol?, declare, List.getElem?_modify, symbol?]
  by_cases h : scope = i
  · subst h
    rw [List.getElem?_eq_getElem hscope]
    simp [Scope.declare, Scope.symbol?, Symbol.find?_insert]
  · cases g.all[i]? <;> simp [h]

lemma symbol?_push (g : Scopes) (parent : Nat) (block : Site) :
    (g.push parent block).symbol? i kind name = g.symbol? i kind name := by
  rw [symbol?, push, List.getElem?_modify, symbol?]
  rcases Nat.lt_trichotomy i g.all.length with hi | rfl | hi
  · rw [List.getElem?_append_left hi, List.getElem?_eq_getElem hi]
    by_cases h : parent = i <;> simp [h, Scope.addChild, Scope.symbol?]
  · by_cases h : parent = g.all.length <;>
      simp [h, Scope.ofSite, Scope.addChild, Scope.symbol?, Symbol.find?]
  · rw [List.getElem?_eq_none (by simpa using hi), List.getElem?_eq_none hi.le]
    rfl

lemma symbol?_bind {l : List Binding} (hl : ∀ b ∈ l, b.scope < g.size) :
    (g.bind l).symbol? i kind name = (lastFor? l i kind name).or (g.symbol? i kind name) := by
  induction l generalizing g with
  | nil => rfl
  | cons b l ih =>
      obtain ⟨hb, hl⟩ := List.forall_mem_cons.1 hl
      have hsplit : lastFor? (b :: l) i kind name =
          (lastFor? l i kind name).or (lastFor? [b] i kind name) :=
            lastFor?_append [b] l i kind name
      rw [bind, List.foldl_cons, ← bind, ih (by simpa using hl), symbol?_declare g hb, hsplit,
        Option.or_assoc]
      refine congrArg _ ?_
      by_cases h : b.isFor i kind name = true <;> simp_all [lastFor?, Binding.isFor]

lemma scope_lt_of_bindingsIn {s : Site} {current : Nat} (hcurrent : current < g.size) {b : Binding}
    (hb : b ∈ s.bindingsIn current g.size) :
    b.scope < (if s.isBlock then g.push current s else g).size := by
  rw [Site.bindingsIn] at hb
  split at hb
  · rename_i hblock
    obtain ⟨symbol, -, rfl⟩ := List.mem_map.1 hb
    rw [if_pos hblock, size_push]
    exact Nat.lt_succ_self _
  · rename_i hblock
    obtain ⟨d, -, rfl⟩ := List.mem_map.1 hb
    rw [if_neg hblock]
    show ite _ _ _ < g.size
    split
    · exact Nat.zero_lt_of_lt hcurrent
    · exact hcurrent

lemma symbol?_enter {s : Site} {current : Nat} (hroot : s.parent? = none → current = global)
    (hcurrent : current < g.size) : (g.enter s current).symbol? i kind name =
      (lastFor? (s.bindingsIn current g.size) i kind name).or (g.symbol? i kind name) := by
  rw [enter_eq g hroot, symbol?_bind fun b hb => scope_lt_of_bindingsIn hcurrent hb]
  refine congrArg _ ?_
  split
  · exact symbol?_push g current s
  · rfl

/-- After a row of nodes a table has the last declaration for each kind and name. -/
lemma symbol?_enterAll {row : List (Site × Nat)}
    (hroot : ∀ p ∈ row, p.1.parent? = none → p.2 = global)
    (hrow : ∀ j p, row[j]? = some p → p.2 < g.size + (row.take j).countP fun p => p.1.isBlock) :
    (g.enterAll row).symbol? i kind name =
      (lastFor? (row.mapIdx fun j p => p.1.bindingsIn p.2
        (g.size + (row.take j).countP fun p => p.1.isBlock)).flatten i kind name).or
        (g.symbol? i kind name) := by
  induction row generalizing g with
  | nil => rfl
  | cons p row ih =>
      obtain ⟨hp, hroot⟩ := List.forall_mem_cons.1 hroot
      have hcurrent : p.2 < g.size := hrow 0 p rfl
      have hcount : ∀ j, (g.enter p.1 p.2).size + (row.take j).countP (fun p => p.1.isBlock) =
          g.size + ((p :: row).take (j + 1)).countP fun p => p.1.isBlock := by
        intro j
        rw [size_enter, List.take_succ_cons, List.countP_cons]
        omega
      have hrest := ih (g := g.enter p.1 p.2) hroot fun j q hq => hcount j ▸ hrow (j + 1) q hq
      simp only [hcount] at hrest
      rw [enterAll, List.foldl_cons, ← enterAll, hrest, symbol?_enter hp hcurrent, List.mapIdx_cons,
        List.flatten_cons, lastFor?_append, Option.or_assoc]
      rfl

/-! ## The tables of a tree -/

/-- Only the first node of a tree can be without a node around it. -/
lemma parent?_ne_none {root s : Site} {j : Nat} (hs : root.descendants[j + 1]? = some s) :
    s.parent? ≠ none := by
  have hmem : s ∈ Tree.sitesOf (root.here :: root.above) root.start root.here.children :=
    List.mem_of_getElem? hs
  rcases Tree.parent_of_sitesOf hmem with habove | ⟨s', -, hparent⟩
  · rw [Site.parent?, habove]
    exact Option.some_ne_none _
  · rw [hparent]
    exact Option.some_ne_none _

lemma snd_eq_global {root : Site} {p : Site × Nat}
    (hp : p ∈ Tree.withScopes root.descendants global 1) (hnone : p.1.parent? = none) :
    p.2 = global := by
  obtain ⟨j, hj⟩ := List.mem_iff_getElem?.1 hp
  rw [Tree.withScopes, List.getElem?_mapIdx] at hj
  obtain ⟨s, hs, rfl⟩ := Option.map_eq_some_iff.1 hj
  cases j with
  | zero => rfl
  | succ j => exact absurd hnone (parent?_ne_none hs)

lemma symbol?_ofSite (root : Site) (i : Nat) (kind : SymbolKind) (name : Text) :
    (ofSite root).symbol? i kind name = lastFor? root.bindings i kind name := by
  have hrow : ∀ (j : Nat) (q : Site × Nat),
      (Tree.withScopes root.descendants global 1)[j]? = some q →
      q.2 < (⟨[.ofSite root none]⟩ : Scopes).size +
        ((Tree.withScopes root.descendants global 1).take j).countP fun p => p.1.isBlock :=
    fun _ _ hq => snd_lt_of_withScopes hq
  rw [ofSite_eq, symbol?_enterAll (fun p hp => snd_eq_global hp) hrow]
  have hstart : (⟨[.ofSite root none]⟩ : Scopes).symbol? i kind name = none := by
    cases i <;> rfl
  rw [hstart, Option.or_none, Site.bindings]
  refine congrArg (lastFor? · i kind name) (congrArg _ ?_)
  refine List.ext_getElem? fun j => ?_
  simp only [countP_take_withScopes]
  rw [List.getElem?_mapIdx, List.getElem?_mapIdx, Tree.withScopes, List.getElem?_mapIdx,
    Option.map_map]
  rfl

/-- The tables of all scopes are in order. -/
def TablesSorted (g : Scopes) : Prop := ∀ s ∈ g.all, Symbol.Sorted s.symbols

lemma tablesSorted_ofSite (root : Site) : (ofSite root).TablesSorted := by
  refine ofSite_induction root ?_ ?_ ?_
  · intro s hs
    rw [List.mem_singleton.1 hs]
    exact .nil
  · intro g scope symbol h s hs
    obtain ⟨j, hj⟩ := List.mem_iff_getElem?.1 hs
    rw [declare, List.getElem?_modify] at hj
    obtain ⟨t, ht, rfl⟩ := Option.map_eq_some_iff.1 hj
    have hsorted := h t (List.mem_of_getElem? ht)
    split
    · exact hsorted.insert symbol
    · exact hsorted
  · intro g parent block _ h s hs
    obtain ⟨j, hj⟩ := List.mem_iff_getElem?.1 hs
    rw [push, List.getElem?_modify] at hj
    obtain ⟨t, ht, rfl⟩ := Option.map_eq_some_iff.1 hj
    have hsorted : Symbol.Sorted t.symbols := by
      rcases List.mem_append.1 (List.mem_of_getElem? ht) with hmem | hmem
      · exact h t hmem
      · rw [List.mem_singleton.1 hmem]
        exact .nil
    split <;> exact hsorted

-- A later declaration for the whole sheet replaces the one at the top level, also from inside of a
-- block.
example :
    ((ofSite (parse .scss .stylesheet (Text.ofString "$a:1;b{$a:2 !global;$a:3}")).root).symbol? 0
      .value
    (Text.ofString "$a")).bind Symbol.value? = some (Text.ofString "2") := by
  decide +kernel

end Scopes

end StyleSheet
