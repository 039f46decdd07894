import Mathlib
import StyleSheet.Construct.Quantity
import StyleSheet.Proofs.Grammar.Dialects
import StyleSheet.Proofs.Grammar.Operators

/-!
# The forms of nodes

Whoever reads a tree takes the first part of a kind for what it looks for. Here is what the nodes
for rule sets, selectors, declarations, variables, operators and numeric values consist of, in this
order and whatever is wrong with the source: recovery adds tokens to a node, but no nodes beyond one
error.
-/

namespace StyleSheet

open Token

/-! ## Forms -/

/-- The child nodes of a rule set: selectors, in LESS perhaps a guard, and a block or an error. -/
def IsRulesetRow (d : Dialect) (l : List NodeKind) : Prop :=
  ∃ guard last, l = .selectors :: (guard ++ [last]) ∧
    (guard = [] ∨ d = .less ∧ guard = [.guard]) ∧ (last = .declarations ∨ last = .error)

/-- The child nodes of a list of selectors: at least one selector, and perhaps an error behind the
last. -/
def IsSelectorsRow (l : List NodeKind) : Prop :=
  ∃ n last, l = .selector :: (List.replicate n .selector ++ last) ∧ (last = [] ∨ last = [.error])

/-- The child nodes of a selector: simple selectors and combinators, at least one. -/
def IsSelectorRow (l : List NodeKind) : Prop :=
  l ≠ [] ∧ ∀ kind ∈ l, kind = .simpleSelector ∨ kind = .combinator

/-- The child nodes of a declaration: a property, and an error or what may make up a value. There is
an error behind it exactly if there is neither an expression nor a block. -/
def IsDeclarationRow (l : List NodeKind) : Prop :=
  l = [.property, .error] ∨
    ∃ value priority nested, l = .property :: (value ++ priority ++ nested ++
      if value = [] ∧ nested = [] then [.error] else []) ∧
    (value = [] ∨ value = [.expression]) ∧ (priority = [] ∨ priority = [.priority]) ∧
      (nested = [] ∨ nested = [.nestedProperties])

/-- The child nodes of a custom property: a property, and an error or a value. -/
def IsCustomPropertyRow (l : List NodeKind) : Prop :=
  l = [.property, .error] ∨ ∃ value priority, l = .property :: value :: priority ∧
    (value = .expression ∨ value = .customValue) ∧ (priority = [] ∨ priority = [.priority])

/-- The child nodes of the declaration of a variable: the variable, a value, a block or an error,
and then nothing but marks. -/
def IsVariableRow (l : List NodeKind) : Prop :=
  ∃ value marks, l = .variableName :: value :: marks ∧
    (value = .expression ∨ value = .detachedRuleset ∨ value = .error) ∧
      ∀ kind ∈ marks, kind = .priority ∨ kind = .variableFlag

/-- The yield is what a node of the given kind may consist of. -/
def Yield.IsFormed (d : Dialect) (kind : NodeKind) (y : Yield) : Prop :=
  match kind with
  | .ruleset => IsRulesetRow d y.kids
  | .selectors => IsSelectorsRow y.kids
  | .selector => IsSelectorRow y.kids ∧ y.direct = []
  | .declaration => IsDeclarationRow y.kids
  | .customProperty => IsCustomPropertyRow y.kids ∧
      ∃ t rest, y = .node .property (.token t .nil) rest ∧ t.text.startsWith "--" = true
  | .variableDeclaration => IsVariableRow y.kids
  | .binaryExpression => y.IsJoined
  | .numericValue => ∃ t, y = .token t .nil ∧ Quantity.isNumeric t.kind = true
  | _ => True

lemma Yield.isFormed_of_not_mem {d : Dialect} {kind : NodeKind} (h : kind ∉ Grammar.formedKinds)
    (y : Yield) : y.IsFormed d kind := by
  cases kind <;> trivial

namespace Grammar

open Rule

variable {d : Dialect} {depth : Nat} {s s' : Spot} {m : Bool} {y : Yield}

/-! ## Selectors -/

lemma isFormed_selectors (h : Reads d (Yields d depth) (.rule selectors) s true y s') :
    ∃ z, y = .node .selectors z .nil ∧ z.IsFormed d .selectors := by
  obtain ⟨z, hinside, rfl⟩ := reads_node.1 h
  refine ⟨z, rfl, ?_⟩
  obtain ⟨⟨⟩, -⟩ | ⟨y₁, s₁, y₂, hfirst, hmore, rfl⟩ := reads_and.1 hinside
  obtain ⟨-, z, rfl⟩ | ⟨⟨⟩, -⟩ := yields_node rfl (reads_call.1 hfirst)
  -- What comes behind a comma is a selector, or an error and the end of the list.
  have hrow : ∃ n last, y₂.kids = List.replicate n .selector ++ last ∧
      (last = [] ∨ last = [.error]) := by
    refine hmore.many_induction
      (P := fun y => ∃ n last, y.kids = List.replicate n .selector ++ last ∧
        (last = [] ∨ last = [.error]))
      ?_ ?_
    · intro s y s' h
      obtain ⟨-, hcomma⟩ | ⟨y₁, s₁, y₂, hcomma, hitem, rfl⟩ := reads_and.1 h
      · rw [reads_token] at hcomma
        split at hcomma
        · cases hcomma.1
        · exact ⟨0, [], by simp [hcomma.2.1], .inl rfl⟩
      · obtain ⟨⟨⟩, -⟩ | ⟨y₃, s₂, y₄, hselector, hreport, rfl⟩ := reads_or.1 hitem
        obtain ⟨⟨⟩, -⟩ | ⟨-, rfl⟩ := yields_node rfl (reads_call.1 hselector)
        obtain ⟨-, rfl, -⟩ := reads_report.1 hreport
        rw [reads_token] at hcomma
        split at hcomma
        · exact ⟨0, [.error], by simp [hcomma.2.1, Yield.kids], .inr rfl⟩
        · cases hcomma.1
    · rintro s y s' z h ⟨n, last, hz, hlast⟩
      obtain ⟨⟨⟩, -⟩ | ⟨y₁, s₁, y₂, hcomma, hitem, rfl⟩ := reads_and.1 h
      obtain ⟨-, hselector⟩ | ⟨y₃, s₂, y₄, -, hreport, -⟩ := reads_or.1 hitem
      · obtain ⟨-, w, rfl⟩ | ⟨⟨⟩, -⟩ := yields_node rfl (reads_call.1 hselector)
        rw [reads_token] at hcomma
        split at hcomma
        · exact ⟨n + 1, last, by simp [hcomma.2.1, Yield.kids, hz, List.replicate_succ], hlast⟩
        · cases hcomma.1
      · cases (reads_report.1 hreport).1
  obtain ⟨n, last, hkids, hlast⟩ := hrow
  exact ⟨n, last, by simp [Yield.kids, hkids], hlast⟩

lemma isFormed_selector (h : Reads d (Yields d depth) (.rule selector) s true y s') :
    ∃ z, y = .node .selector z .nil ∧ z.IsFormed d .selector := by
  have hpart : ∀ {s m y s'}, Reads d (Yields d depth)
      (.rule (cutRange >> (call .combinator ||| call .simpleSelector))) s m y s' →
        (m = true → IsSelectorRow y.kids) ∧ (m = false → y.kids = []) ∧ y.direct = [] := by
    intro s m y s' h
    obtain ⟨_, y₁, s₁, y₂, hcut, hpart, rfl⟩ := reads_then.1 h
    obtain ⟨-, rfl, -⟩ := reads_cutRange.1 hcut
    obtain ⟨rfl, hcombinator⟩ | ⟨y₃, s₂, y₄, hcombinator, hsimple, rfl⟩ := reads_or.1 hpart
    · obtain ⟨-, z, rfl⟩ | ⟨⟨⟩, -⟩ := yields_node rfl (reads_call.1 hcombinator)
      simp [IsSelectorRow, Yield.kids, Yield.direct]
    · obtain ⟨⟨⟩, -⟩ | ⟨-, rfl⟩ := yields_node rfl (reads_call.1 hcombinator)
      obtain ⟨rfl, z, rfl⟩ | ⟨rfl, rfl⟩ := yields_node rfl (reads_call.1 hsimple) <;>
        simp [IsSelectorRow, Yield.kids, Yield.direct]
  obtain ⟨z, hinside, rfl⟩ := reads_node.1 h
  obtain ⟨⟨⟩, -⟩ | ⟨y₁, s₁, y₂, hfirst, hmore, rfl⟩ := reads_and.1 hinside
  have hrow : (∀ kind ∈ y₂.kids, kind = .simpleSelector ∨ kind = .combinator) ∧ y₂.direct = [] := by
    refine hmore.many_induction
      (P := fun y => (∀ kind ∈ y.kids, kind = .simpleSelector ∨ kind = .combinator) ∧ y.direct = [])
      ?_ ?_
    · intro s y s' h
      obtain ⟨-, hkids, hdirect⟩ := hpart h
      simp [hkids rfl, hdirect]
    · rintro s y s' z h ⟨hkinds, hz⟩
      obtain ⟨hkids, -, hdirect⟩ := hpart h
      rw [Yield.kids_append, Yield.direct_append, hdirect, hz]
      exact ⟨List.forall_mem_append.2 ⟨(hkids rfl).2, hkinds⟩, rfl⟩
  obtain ⟨hkids, -, hdirect⟩ := hpart hfirst
  refine ⟨_, rfl, ⟨?_, ?_⟩, ?_⟩
  · simp [(hkids rfl).1]
  · rw [Yield.kids_append]
    exact List.forall_mem_append.2 ⟨(hkids rfl).2, hrow.1⟩
  · rw [Yield.direct_append, hdirect, hrow.2, List.nil_append]

/-! ## Rule sets -/

lemma kids_of_rulesetGuard (h : Reads d (Yields d depth) (.rule (rulesetGuard d)) s m y s') :
    y.kids = [] ∨ d = .less ∧ y.kids = [.guard] := by
  rw [rulesetGuard, reads_when] at h
  split at h
  · rename_i hguard
    obtain ⟨hless, -⟩ := Bool.and_eq_true_iff.1 hguard
    obtain ⟨-, z, rfl⟩ | ⟨-, rfl⟩ := yields_node rfl (reads_call.1 h)
    · exact .inr ⟨of_decide_eq_true hless, rfl⟩
    · exact .inl rfl
  · exact .inl (by rw [h.2.1, Yield.kids_nil])

lemma kids_of_blockOf {item : BlockItem} {missing : Fault} {nested : Bool}
    (h : Reads d (Yields d depth) (.rule (blockOf item missing nested)) s m y s') :
    y.kids = [.declarations] ∨ y.kids = [.error] := by
  obtain ⟨-, hblock⟩ | ⟨y₁, s₁, y₂, hblock, hskip, rfl⟩ := reads_or.1 h
  · obtain ⟨-, z, rfl⟩ | ⟨⟨⟩, -⟩ := yields_node rfl (reads_call.1 hblock)
    exact .inl rfl
  · obtain ⟨⟨⟩, -⟩ | ⟨-, rfl⟩ := yields_node rfl (reads_call.1 hblock)
    obtain ⟨_, y₃, s₂, y₄, hreport, hresume, rfl⟩ := reads_then.1 hskip
    obtain ⟨-, rfl, -⟩ := reads_report.1 hreport
    exact .inr (by simp [Yield.kids, kids_of_resume hresume])

/-- A rule set is selectors, perhaps a guard, and a block or what stands for it. -/
lemma isRulesetRow_append {y₁ y₂ y₃ : Yield} (h₁ : y₁.kids = [.selectors])
    (h₂ : y₂.kids = [] ∨ d = .less ∧ y₂.kids = [.guard])
    (h₃ : y₃.kids = [.declarations] ∨ y₃.kids = [.error]) :
    IsRulesetRow d (y₁ ++ y₂ ++ y₃).kids := by
  obtain ⟨last, hkids, hlast⟩ : ∃ last, y₃.kids = [last] ∧
      (last = .declarations ∨ last = .error) := by
    rcases h₃ with h₃ | h₃
    · exact ⟨_, h₃, .inl rfl⟩
    · exact ⟨_, h₃, .inr rfl⟩
  exact ⟨y₂.kids, last, by simp [h₁, hkids], h₂, hlast⟩

lemma isFormed_ruleset {nested : Bool}
    (h : Reads d (Yields d depth) (.rule (ruleset d nested)) s true y s') :
    ∃ z, y = .node .ruleset z .nil ∧ z.IsFormed d .ruleset := by
  obtain ⟨z, hinside, rfl⟩ := reads_node.1 h
  refine ⟨z, rfl, ?_⟩
  obtain ⟨⟨⟩, -⟩ | ⟨y₁, s₁, y₂, hselectors, hrest, rfl⟩ := reads_and.1 hinside
  obtain ⟨-, z, rfl⟩ | ⟨⟨⟩, -⟩ := yields_node rfl (reads_call.1 hselectors)
  obtain ⟨_, y₃, s₂, y₄, hguard, hbehind, rfl⟩ := reads_then.1 hrest
  obtain ⟨_, y₅, s₃, y₆, hbody, haccept, rfl⟩ := reads_then.1 hbehind
  obtain ⟨-, rfl, -⟩ := reads_done.1 haccept
  rw [Yield.append_nil, ← Yield.append_assoc]
  exact isRulesetRow_append rfl (kids_of_rulesetGuard hguard) (kids_of_blockOf hbody)

lemma isFormed_nestedRuleset (h : Reads d (Yields d depth) (.rule (nestedRuleset d)) s true y s') :
    ∃ z, y = .node .ruleset z .nil ∧ z.IsFormed d .ruleset := by
  rw [nestedRuleset, reads_when] at h
  split at h
  case isFalse => cases h.1
  obtain ⟨z, hinside, rfl⟩ := reads_node.1 h
  refine ⟨z, rfl, ?_⟩
  obtain ⟨⟨⟩, -⟩ | ⟨y₁, s₁, y₂, hattempt, hrest, rfl⟩ := reads_and.1 hinside
  obtain ⟨-, hhead, -⟩ | ⟨⟨⟩, -⟩ := reads_attempt hattempt
  obtain ⟨matched, y₃, s₂, y₄, hselectors, hbehind, rfl⟩ := reads_seq.1 hhead
  obtain ⟨_, y₅, s₃, y₆, hguard, htest, rfl⟩ := reads_then.1 hbehind
  obtain ⟨hmatched, rfl, -⟩ := reads_test.1 htest
  obtain ⟨rfl, z, rfl⟩ | ⟨rfl, -⟩ := yields_node rfl (reads_call.1 hselectors)
  · obtain ⟨_, y₇, s₄, y₈, hbody, haccept, rfl⟩ := reads_then.1 hrest
    obtain ⟨-, rfl, -⟩ := reads_done.1 haccept
    rw [Yield.append_nil, Yield.append_nil]
    exact isRulesetRow_append rfl (kids_of_rulesetGuard hguard) (kids_of_blockOf hbody)
  · simp at hmatched

/-! ## Declarations -/

lemma kids_of_priority (h : Reads d (Yields d depth) (.rule priority) s m y s') :
    y.kids = [] ∨ y.kids = [.priority] := by
  rw [priority, reads_when] at h
  split at h
  · obtain ⟨z, hread, rfl⟩ := reads_node.1 h
    obtain rfl := matched_of_accepts (by simp) hread
    exact .inr rfl
  · exact .inl (by rw [h.2.1, Yield.kids_nil])

/-- The value of a declaration, which is nothing, an expression or a block. -/
lemma isFormed_plainDeclaration
    (h : Reads d (Yields d depth) (.rule plainDeclaration) s true y s') :
    ∃ z, y = .node .declaration z .nil ∧ z.IsFormed d .declaration := by
  obtain ⟨z, hinside, rfl⟩ := reads_node.1 h
  refine ⟨z, rfl, ?_⟩
  obtain ⟨⟨⟩, -⟩ | ⟨y₁, s₁, y₂, hproperty, hbehind, rfl⟩ := reads_and.1 hinside
  obtain ⟨-, w, rfl⟩ | ⟨⟨⟩, -⟩ := yields_node rfl (reads_call.1 hproperty)
  obtain ⟨_, y₃, s₂, y₄, hrest, haccept, rfl⟩ := reads_then.1 hbehind
  obtain ⟨-, rfl, -⟩ := reads_done.1 haccept
  rw [Yield.append_nil]
  obtain ⟨-, hcolon⟩ | ⟨y₄, s₃, y₅, hcolon, hvalue, rfl⟩ := reads_and.1 hrest
  · rw [reads_expect] at hcolon
    split at hcolon
    · cases hcolon.1
    · exact .inl (by simp [Yield.kids, hcolon.2.1])
  · have hkids : y₄.kids = [] := by
      rw [reads_expect] at hcolon
      split at hcolon
      · rw [hcolon.2.1, Spot.kids_taken]
      · cases hcolon.1
    obtain ⟨hasValue, y₆, s₄, y₇, hexpression, hmarks, rfl⟩ := reads_seq.1 hvalue
    obtain ⟨_, y₈, s₅, y₉, hpriority, hnested, rfl⟩ := reads_then.1 hmarks
    have hpriority := kids_of_priority hpriority
    rw [reads_choose] at hnested
    obtain ⟨rfl, v, rfl⟩ | ⟨rfl, rfl⟩ := yields_node rfl (reads_call.1 hexpression)
    · split at hnested
      · obtain ⟨-, _, w', -, rfl⟩ := reads_group.1 hnested
        exact .inr
          ⟨[.expression], y₈.kids, [.nestedProperties], by simp [Yield.kids, hkids], .inr rfl,
          hpriority, .inr rfl⟩
      · obtain ⟨-, rfl, -⟩ := reads_done.1 hnested
        exact .inr
          ⟨[.expression], y₈.kids, [], by simp [Yield.kids, hkids], .inr rfl, hpriority, .inl rfl⟩
    · split at hnested
      · obtain ⟨-, _, w', -, rfl⟩ := reads_group.1 hnested
        exact .inr
          ⟨[], y₈.kids, [.nestedProperties], by simp [Yield.kids, hkids], .inl rfl, hpriority,
          .inr rfl⟩
      · obtain ⟨-, rfl, -⟩ := reads_report.1 hnested
        exact .inr ⟨[], y₈.kids, [], by simp [Yield.kids, hkids], .inl rfl, hpriority, .inl rfl⟩

lemma kids_of_customValue (h : Reads d (Yields d depth) (.rule customValue) s m y s') :
    y.kids = [.expression] ∨ y.kids = [.customValue] := by
  obtain ⟨-, hattempt⟩ | ⟨y₁, s₁, y₂, hattempt, hgroup, rfl⟩ := reads_or.1 h
  · obtain ⟨-, hread, -⟩ | ⟨⟨⟩, -⟩ := reads_attempt hattempt
    obtain ⟨⟨⟩, -⟩ | ⟨y₁, s₁, y₂, hexpression, htest, rfl⟩ := reads_and.1 hread
    obtain ⟨-, z, rfl⟩ | ⟨⟨⟩, -⟩ := yields_node rfl (reads_call.1 hexpression)
    obtain ⟨-, rfl, -⟩ := reads_test.1 htest
    exact .inl rfl
  · obtain ⟨⟨⟩, -⟩ | ⟨-, rfl, -⟩ := reads_attempt hattempt
    obtain ⟨-, _, z, -, rfl⟩ := reads_group.1 hgroup
    exact .inr rfl

lemma isFormed_customProperty (h : Reads d (Yields d depth) (.rule customProperty) s m y s')
    (hkind : s.view.kind 0 = .ident) (hname : (s.view.text 0).startsWith "--" = true) :
    ∃ z, y = .node .customProperty z .nil ∧ z.IsFormed d .customProperty := by
  obtain ⟨-, _, z, hinside, rfl⟩ := reads_group.1 h
  refine ⟨z, rfl, ?_⟩
  obtain ⟨_, y₁, s₁, y₂, hproperty, hrest, rfl⟩ := reads_then.1 hinside
  obtain ⟨w, htake, rfl⟩ := reads_node.1 hproperty
  obtain ⟨rfl, rfl, -⟩ := reads_take.1 htake
  obtain ⟨t, behind, hahead⟩ :=
    List.exists_cons_of_ne_nil (Spot.ahead_ne_nil (s := s) (by simp [hkind]))
  refine ⟨?_, t, y₂, by simp [Spot.taken_of_cons hahead], ?_⟩
  · obtain ⟨-, hcolon⟩ | ⟨y₃, s₂, y₄, hcolon, hvalue, rfl⟩ := reads_and.1 hrest
    · rw [reads_expect] at hcolon
      split at hcolon
      · cases hcolon.1
      · exact .inl (by simp [Yield.kids, hcolon.2.1])
    · have hkids : y₃.kids = [] := by
        rw [reads_expect] at hcolon
        split at hcolon
        · rw [hcolon.2.1, Spot.kids_taken]
        · cases hcolon.1
      obtain ⟨_, y₅, s₃, y₆, hcustom, hpriority, rfl⟩ := reads_then.1 hvalue
      have hpriority := kids_of_priority hpriority
      rcases kids_of_customValue hcustom with hvalue | hvalue
      · exact .inr ⟨.expression, y₆.kids, by simp [Yield.kids, hkids, hvalue], .inl rfl, hpriority⟩
      · exact .inr ⟨.customValue, y₆.kids, by simp [Yield.kids, hkids, hvalue], .inr rfl, hpriority⟩
  · simpa [Spot.text_view, hahead] using hname

/-! ## Variables -/

lemma kids_of_variableFlags {allowed : List String}
    (h : Reads d (Yields d depth) (.rule (variableFlags allowed)) s m y s') :
    ∀ kind ∈ y.kids, kind = .variableFlag := by
  have hround : ∀ s m y s', Reads d (Yields d depth) (.rule (
      when (fun v => v.is 0 .bang && allowed.any (v.isWord 1)) (node .variableFlag (take >> take))))
      s m y s' →
        ∀ kind ∈ y.kids, kind = .variableFlag := by
    intro s m y s' h
    rw [reads_when] at h
    split at h
    · obtain ⟨z, hread, rfl⟩ := reads_node.1 h
      obtain rfl := matched_of_accepts (by simp) hread
      simp [Yield.kids]
    · simp [h.2.1]
  refine h.many_induction (P := fun y => ∀ kind ∈ y.kids, kind = .variableFlag)
    (fun s y s' => hround s _ y s') ?_
  intro s y s' z h hz
  rw [Yield.kids_append]
  exact List.forall_mem_append.2 ⟨hround s _ y s' h, hz⟩

lemma isFormed_scssVariableDeclaration
    (h : Reads d (Yields d depth) (.rule scssVariableDeclaration) s true y s') :
    ∃ z, y = .node .variableDeclaration z .nil ∧ z.IsFormed d .variableDeclaration := by
  rw [scssVariableDeclaration, reads_when] at h
  split at h
  case isFalse => cases h.1
  obtain ⟨-, _, z, hinside, rfl⟩ := reads_group.1 h
  refine ⟨z, rfl, ?_⟩
  obtain ⟨_, y₁, s₁, y₂, hname, hbehind, rfl⟩ := reads_then.1 hinside
  obtain ⟨w, hleaf, rfl⟩ := reads_node.1 hname
  obtain ⟨rfl, -, -⟩ := reads_take.1 hleaf
  obtain ⟨_, y₃, s₂, y₄, htake, hrest, rfl⟩ := reads_then.1 hbehind
  obtain ⟨-, rfl, -⟩ := reads_take.1 htake
  obtain ⟨_, y₅, s₃, y₆, hvalue, hmarks, rfl⟩ := reads_then.1 hrest
  obtain ⟨_, y₇, s₄, y₈, hpriority, hflags, rfl⟩ := reads_then.1 hmarks
  obtain ⟨value, hkids, hvalue⟩ : ∃ value, y₅.kids = [value] ∧
      (value = .expression ∨ value = .error) := by
    obtain ⟨-, hexpression⟩ | ⟨y₁, s₁, y₂, hexpression, hreport, rfl⟩ := reads_or.1 hvalue
    · obtain ⟨-, v, rfl⟩ | ⟨⟨⟩, -⟩ := yields_node rfl (reads_call.1 hexpression)
      exact ⟨_, rfl, .inl rfl⟩
    · obtain ⟨⟨⟩, -⟩ | ⟨-, rfl⟩ := yields_node rfl (reads_call.1 hexpression)
      obtain ⟨-, rfl, -⟩ := reads_report.1 hreport
      exact ⟨_, rfl, .inr rfl⟩
  refine ⟨value, y₇.kids ++ y₈.kids, by simp [Yield.kids, hkids], ?_, ?_⟩
  · exact hvalue.imp_right .inr
  · refine List.forall_mem_append.2
      ⟨?_, fun kind hkind => .inr (kids_of_variableFlags hflags kind hkind)⟩
    rcases kids_of_priority hpriority with hkids | hkids <;> simp [hkids]

lemma isFormed_lessVariableDeclaration
    (h : Reads d (Yields d depth) (.rule lessVariableDeclaration) s m y s')
    (hkind : s.view.kind 0 = .atKeyword) :
    ∃ z, y = .node .variableDeclaration z .nil ∧ z.IsFormed d .variableDeclaration := by
  obtain ⟨-, _, z, hinside, rfl⟩ := reads_group.1 h
  refine ⟨z, rfl, ?_⟩
  obtain ⟨matched, y₁, s₁, y₂, hname, hbehind, rfl⟩ := reads_then.1 hinside
  -- The keyword ahead is a variable.
  obtain rfl : matched = true := by
    obtain ⟨depth', hread⟩ := reads_of_yields (reads_call.1 hname)
    rw [rule, variableName, reads_choose, reads_when, if_neg (by simp [hkind]),
      if_pos (by simp [hkind])] at hread
    exact matched_of_accepts (by simp) hread
  obtain ⟨-, w, rfl⟩ | ⟨⟨⟩, -⟩ := yields_node rfl (reads_call.1 hname)
  obtain ⟨_, y₃, s₂, y₄, htake, hrest, rfl⟩ := reads_then.1 hbehind
  obtain ⟨-, rfl, -⟩ := reads_take.1 htake
  rw [reads_choose] at hrest
  split at hrest
  · obtain ⟨-, _, v, -, rfl⟩ := reads_group.1 hrest
    exact ⟨.detachedRuleset, [], by simp [Yield.kids], .inr (.inl rfl), List.forall_mem_nil _⟩
  · obtain ⟨hasValue, y₅, s₃, y₆, hvalue, hmark, rfl⟩ := reads_seq.1 hrest
    obtain ⟨rfl, v, rfl⟩ | ⟨rfl, rfl⟩ := yields_node rfl (reads_call.1 hvalue)
    · refine ⟨.expression, y₆.kids, by simp [Yield.kids], .inl rfl, ?_⟩
      rcases kids_of_priority hmark with hkids | hkids <;> simp [hkids]
    · obtain ⟨-, rfl, -⟩ := reads_report.1 hmark
      exact ⟨.error, [], by simp [Yield.kids], .inr (.inr rfl), List.forall_mem_nil _⟩

/-! ## Numeric values -/

lemma isFormed_numericValue (h : Reads d (Yields d depth) (.rule (leaf .numericValue)) s m y s')
    (hkind : Quantity.isNumeric (s.view.kind 0) = true) :
    ∃ z, y = .node .numericValue z .nil ∧ z.IsFormed d .numericValue := by
  obtain ⟨z, htake, rfl⟩ := reads_node.1 h
  obtain ⟨rfl, rfl, -⟩ := reads_take.1 htake
  have hahead : s.ahead ≠ [] :=
    Spot.ahead_ne_nil fun hend => by simp [hend, Quantity.isNumeric] at hkind
  obtain ⟨t, behind, hahead⟩ := List.exists_cons_of_ne_nil hahead
  refine ⟨_, rfl, t, Spot.taken_of_cons hahead, ?_⟩
  simpa [Spot.kind_view, hahead] using hkind

/-! ## All nodes -/

attribute [local simp] MayBuild MayCall isReached NodeKind.foreign formedKinds

section

variable {kind : NodeKind} {r : Rule}

/-- If the answers to calls are well formed, so is what a rule builds that is no former. -/
lemma formed_of_uses
    (hcalls : ∀ name s m y s', MayCall d false name → Yields d depth name s m y s' →
      ∀ n ∈ y.nodes, n.2.IsFormed d n.1)
    (hr : r.Uses (MayBuild d false) (MayCall d false))
    (h : Reads d (Yields d depth) (.rule r) s m y s') : ∀ n ∈ y.nodes, n.2.IsFormed d n.1 := by
  refine Reads.nodes_ensure (E := fun kind y => y.IsFormed d kind) (Q := MayCall d false) trivial
    hcalls h (hr.mono (fun kind hkind => Yield.isFormed_of_not_mem fun hmem => ?_) fun _ h => h)
  cases hkind.2 hmem

/-- A node is well formed if its inside is no former and fits its kind. -/
lemma formed_of_node
    (hcalls : ∀ name s m y s', MayCall d false name → Yields d depth name s m y s' →
      ∀ n ∈ y.nodes, n.2.IsFormed d n.1)
    (hr : r.Uses (MayBuild d false) (MayCall d false))
    (hform : m = true → ∃ z, y = .node kind z .nil ∧ z.IsFormed d kind)
    (h : Reads d (Yields d depth) (.rule (node kind r)) s m y s') :
    ∀ n ∈ y.nodes, n.2.IsFormed d n.1 := by
  obtain ⟨z, hread, rfl⟩ := reads_node.1 h
  have hinside := formed_of_uses hcalls hr hread
  cases m with
  | false => exact hinside
  | true =>
      obtain ⟨z', heq, hz⟩ := hform rfl
      cases heq
      rw [if_pos rfl, Yield.nodes, Yield.nodes, List.append_nil]
      exact List.forall_mem_cons.2 ⟨hz, hinside⟩

end

/-- All nodes that the grammar builds are well formed. The at-rules of a dialect are read where
there is an at-keyword ahead. -/
theorem formed_yields {name : Nonterminal} (hname : isReached d name = true)
    (hkind : (∃ nested, name = .dialectAtRule nested) → s.view.kind 0 = .atKeyword)
    (h : Yields d depth name s m y s') : ∀ n ∈ y.nodes, n.2.IsFormed d n.1 := by
  induction depth generalizing name s m y s' with
  | zero => cases h
  | succ depth ih =>
      have hcalls : ∀ name s m y s', MayCall d false name → Yields d depth name s m y s' →
          ∀ n ∈ y.nodes, n.2.IsFormed d n.1 :=
        fun name s m y s' hcall h => ih hcall.1 (fun hat => absurd (hcall.2 hat) (by simp)) h
      have hnil : ∀ n ∈ Yield.nil.nodes, n.2.IsFormed d n.1 := List.forall_mem_nil _
      have h : Reads d (Yields d depth) (.rule (rule d name)) s m y s' := h
      cases name with
      | selectors =>
          exact formed_of_node hcalls (by cases d <;> simp)
            (fun hm => isFormed_selectors (hm ▸ h)) h
      | selector =>
          exact formed_of_node hcalls (by cases d <;> simp) (fun hm => isFormed_selector (hm ▸ h)) h
      | ruleset nested =>
          exact formed_of_node hcalls (by cases d <;> simp [rulesetGuard, body])
            (fun hm => isFormed_ruleset (hm ▸ h)) h
      | nestedRuleset =>
          have hform := fun hm : m = true => isFormed_nestedRuleset (hm ▸ h)
          rw [rule, nestedRuleset, reads_when] at h
          split at h
          · exact formed_of_node hcalls (by cases d <;> simp [rulesetGuard, body]) hform h
          · exact h.2.1 ▸ hnil
      | declaration =>
          rw [rule, declaration, reads_choose] at h
          split at h
          · rename_i hcustom
            obtain ⟨hident, hdashes⟩ := Bool.and_eq_true_iff.1 hcustom
            exact formed_of_node hcalls (by cases d <;> simp [customValue, priority])
              (fun _ => isFormed_customProperty h (is_eq_true.1 hident) hdashes) h
          · exact formed_of_node hcalls (by cases d <;> simp [priority, statements])
              (fun hm => isFormed_plainDeclaration (hm ▸ h)) h
      | variableDeclaration =>
          rw [rule, variableDeclaration] at h
          split at h
          · have hform := fun hm : m = true => isFormed_scssVariableDeclaration (hm ▸ h)
            rename_i hscss
            rw [scssVariableDeclaration, reads_when] at h
            split at h
            · exact formed_of_node hcalls (by simp [hscss, priority, variableFlags]) hform h
            · exact h.2.1 ▸ hnil
          · exact (reads_done.1 h).2.1 ▸ hnil
      | binary level =>
          refine nodes_binary (E := fun kind y => y.IsFormed d kind) trivial (fun _ => trivial)
            (fun _ hjoined => hjoined) (fun name s m y s' hname => hcalls name s m y s' ?_) h
          rcases hname with rfl | ⟨_, rfl⟩ <;> simp
      | unsignedTerm =>
          rw [rule, unsignedTerm, reads_look] at h
          split at h
          case h_1 hkind | h_2 hkind | h_3 hkind =>
            exact formed_of_node (r := take) hcalls trivial
              (fun _ => isFormed_numericValue h (by rw [hkind]; rfl)) h
          all_goals
            refine formed_of_uses hcalls ?_ h
            cases d <;>
              simp [hexColor, bracketed, parenthesized, listEntry, named, uriLiteral, progid,
                identOrCall]
      | dialectAtRule nested =>
          have hkeyword := hkind ⟨nested, rfl⟩
          cases d with
          | css => exact (reads_done.1 h).2.1 ▸ hnil
          | scss =>
              refine formed_of_uses hcalls ?_ h
              exact fun v => uses_scssTable nested _
          | less =>
              rw [rule, dialectAtRule, lessAtRule, reads_choose] at h
              split at h
              · exact formed_of_node hcalls (by simp [priority, statements])
                  (fun _ => isFormed_lessVariableDeclaration h hkeyword) h
              · exact formed_of_uses hcalls (by simp [plugin, stringOrUri]) h
      | atRule nested =>
          rw [rule, atRule, reads_when] at h
          split at h
          · rename_i hat
            have hdialect : ∀ {m y s'},
                Reads d (Yields d depth) (.rule (call (.dialectAtRule nested))) s m y s' →
                ∀ n ∈ y.nodes, n.2.IsFormed d n.1 :=
              fun h => ih rfl (fun _ => is_eq_true.1 hat) (reads_call.1 h)
            obtain ⟨-, hcall⟩ | ⟨y₁, s₁, y₂, hcall, htable, rfl⟩ := reads_or.1 h
            · exact hdialect hcall
            · rw [Yield.nodes_append]
              refine List.forall_mem_append.2 ⟨hdialect hcall, formed_of_uses hcalls ?_ htable⟩
              exact fun v => uses_cssTable d nested _
          · exact h.2.1 ▸ hnil
      | _ => exact formed_of_uses hcalls (uses_reached hname) h

/-- The rules of the entries are no formers. -/
lemma uses_entry (d : Dialect) (entry : Entry) :
    entry.rule.Uses (MayBuild d false) (MayCall d false) := by
  cases entry <;> cases d <;> simp [Entry.rule]

end Grammar

/-- All nodes of a tree are well formed nodes of yields. -/
lemma exists_formed (d : Dialect) (entry : Entry) (source : Text) :
    ∀ s ∈ (parse d entry source).root.descendants,
      ∃ y : Yield, s.tree.bare = .node s.kind y.trees ∧ y.IsFormed d s.kind := by
  obtain ⟨kind, y, s₀, hreads, hbare, -⟩ := exists_yield_parse d entry source
  have hentry := hreads _ (le_refl _)
  have hnodes := Grammar.formed_of_uses (fun name s m y s' hcall h =>
    Grammar.formed_yields hcall.1 (fun hat => absurd (hcall.2 hat) (by simp)) h)
    (Grammar.uses_entry d entry) hentry
  refine Site.forall_descendants (E := fun kind y => y.IsFormed d kind) hbare ?_ ?_
  · -- The root has the tokens that are left over besides its nodes, but its form does not matter.
    rw [Entry.kind_eq_rootKind hentry]
    cases entry <;> trivial
  · rw [Yield.nodes_append, Yield.nodes_row, List.append_nil]
    intro n hn
    exact hnodes n (by simp [Yield.nodes, hn])

/-- Rule sets, selectors, declarations and variables have the same child nodes in all trees,
whatever the source is: what is missing is replaced by one error, and recovery adds no other
node. -/
theorem nodes_are_formed (d : Dialect) (entry : Entry) (source : Text) :
    ∀ s ∈ (parse d entry source).root.descendants,
      (s.kind = .ruleset → IsRulesetRow d (s.children.map Site.kind)) ∧
      (s.kind = .selectors → IsSelectorsRow (s.children.map Site.kind)) ∧
      (s.kind = .selector → IsSelectorRow (s.children.map Site.kind) ∧ s.significantTokens = []) ∧
      (s.kind = .declaration → IsDeclarationRow (s.children.map Site.kind)) ∧
      (s.kind = .customProperty → IsCustomPropertyRow (s.children.map Site.kind)) ∧
      (s.kind = .variableDeclaration → IsVariableRow (s.children.map Site.kind)) := by
  intro s hs
  obtain ⟨y, hbare, hform⟩ := exists_formed d entry source s hs
  have hkinds := Site.kinds_of_bare hbare
  have htokens := Site.significantTokens_of_bare hbare
  rw [hkinds]
  refine ⟨?_, ?_, ?_, ?_, ?_, ?_⟩ <;> intro hkind <;> rw [hkind] at hform
  · exact hform
  · exact hform
  · exact ⟨hform.1, by rw [htokens, hform.2, List.map_nil]⟩
  · exact hform
  · exact hform.1
  · exact hform

/-- A sheet with all six kinds of nodes, where a variable, a custom property and a declaration lack
their values. -/
theorem nodes_are_formed_broken :
    ∃ sites, sites =
        (parse .less .stylesheet (Text.ofString "@x:;a when (b)\x7b--c;d:\x7d")).root.descendants ∧
      (∃ s ∈ sites, s.kind = .ruleset ∧ IsRulesetRow .less (s.children.map Site.kind)) ∧
      (∃ s ∈ sites, s.kind = .selectors ∧ IsSelectorsRow (s.children.map Site.kind)) ∧
      (∃ s ∈ sites, s.kind = .selector ∧ IsSelectorRow (s.children.map Site.kind)) ∧
      (∃ s ∈ sites, s.kind = .declaration ∧ IsDeclarationRow (s.children.map Site.kind)) ∧
      (∃ s ∈ sites, s.kind = .customProperty ∧ IsCustomPropertyRow (s.children.map Site.kind)) ∧
      ∃ s ∈ sites, s.kind = .variableDeclaration ∧ IsVariableRow (s.children.map Site.kind) := by
  obtain ⟨sites, hsites⟩ : ∃ sites, sites =
      (parse .less .stylesheet (Text.ofString "@x:;a when (b)\x7b--c;d:\x7d")).root.descendants :=
        ⟨_, rfl⟩
  have hkinds : sites.map Site.kind =
      [.stylesheet, .variableDeclaration, .variableName, .error, .ruleset,
      .selectors, .selector, .simpleSelector, .elementName, .guard, .guardCondition, .term,
      .identifier, .declarations, .customProperty, .property, .error, .declaration, .property,
      .error] := by
    rw [hsites]
    decide +kernel
  have hsite : ∀ kind ∈ sites.map Site.kind, ∃ s ∈ sites, s.kind = kind := by simp
  have hforms := nodes_are_formed .less .stylesheet (Text.ofString "@x:;a when (b)\x7b--c;d:\x7d")
  rw [hkinds] at hsite
  rw [← hsites] at hforms
  refine ⟨sites, hsites, ?_, ?_, ?_, ?_, ?_, ?_⟩
  · obtain ⟨s, hs, hkind⟩ := hsite .ruleset (by decide)
    exact ⟨s, hs, hkind, (hforms s hs).1 hkind⟩
  · obtain ⟨s, hs, hkind⟩ := hsite .selectors (by decide)
    exact ⟨s, hs, hkind, (hforms s hs).2.1 hkind⟩
  · obtain ⟨s, hs, hkind⟩ := hsite .selector (by decide)
    exact ⟨s, hs, hkind, ((hforms s hs).2.2.1 hkind).1⟩
  · obtain ⟨s, hs, hkind⟩ := hsite .declaration (by decide)
    exact ⟨s, hs, hkind, (hforms s hs).2.2.2.1 hkind⟩
  · obtain ⟨s, hs, hkind⟩ := hsite .customProperty (by decide)
    exact ⟨s, hs, hkind, (hforms s hs).2.2.2.2.1 hkind⟩
  · obtain ⟨s, hs, hkind⟩ := hsite .variableDeclaration (by decide)
    exact ⟨s, hs, hkind, (hforms s hs).2.2.2.2.2 hkind⟩

end StyleSheet
