import Mathlib
import StyleSheet.Proofs.NodeForms

/-!
# Precedence and associativity

Operators group their operands by how tightly they bind. To the right of an operator there is a term
or what is joined more tightly, and to its left what is joined at least as tightly; so operators of
one precedence associate to the left (`operators_bind_by_precedence`). An operator that lacks its
right operand has an error in its place. It has not been compared with what follows, so it may stand
to the left of any operator.
-/

namespace StyleSheet

open Yield

namespace Site

/-- How tightly the operator binds that joins the parts of a node. -/
def precedence? (s : Site) : Option Nat :=
  match s.children with
  | [_, op, _] =>
    match op.kind, op.significantTokens with
    | .operator, [l] => l.precedence?
    | _, _ => none
  | _ => none

/-- An operand of operators that bind as tightly as `level`: a term, or what an operator joins that
binds at least as tightly. -/
def IsOperand (level : Nat) (s : Site) : Prop :=
  s.kind = .term ∨ s.kind = .binaryExpression ∧ ∃ n, s.precedence? = some n ∧ level ≤ n

/-- An operator with an error in place of its right operand. -/
def LacksRight (s : Site) : Prop :=
  ∃ left op right, s.children = [left, op, right] ∧ right.kind = .error

variable {s : Site} {kind : NodeKind} {y : Yield} {a b c : NodeKind × Yield} {n : Nat}

lemma exists_three_children (h : s.tree.bare = .node kind y.trees) (hy : y.branches = [a, b, c]) :
    ∃ left op right : Site, s.children = [left, op, right] ∧ left.tree.bare = .node a.1 a.2.trees ∧
      op.tree.bare = .node b.1 b.2.trees ∧ right.tree.bare = .node c.1 c.2.trees := by
  have hchildren := bare_children h
  rw [hy] at hchildren
  obtain ⟨left, rest, hcons, hleft, hrest⟩ := List.map_eq_cons_iff.1 hchildren
  obtain ⟨op, rest, rfl, hop, hrest⟩ := List.map_eq_cons_iff.1 hrest
  obtain ⟨right, rest, rfl, hright, hrest⟩ := List.map_eq_cons_iff.1 hrest
  obtain rfl := List.map_eq_nil_iff.1 hrest
  exact ⟨left, op, right, hcons, hleft, hop, hright⟩

/-- The operator of a yield is that of its node. -/
lemma precedence?_of_bare (h : s.tree.bare = .node kind y.trees) (hn : y.precedence? = some n) :
    s.precedence? = some n := by
  rw [Yield.precedence?] at hn
  split at hn
  next a t c hbranches =>
    obtain ⟨left, op, right, hchildren, -, hop, -⟩ := exists_three_children h hbranches
    rw [precedence?, hchildren]
    simp only [kind_of_bare hop, significantTokens_of_bare hop]
    exact hn
  next => cases hn

lemma isOperand_of_bare (h : s.tree.bare = .node a.1 a.2.trees) (ha : Yield.IsOperand n a) :
    s.IsOperand n := by
  rw [IsOperand, kind_of_bare h]
  rcases ha with hterm | ⟨hkind, m, hm, hle⟩
  · exact .inl hterm
  · exact .inr ⟨hkind, m, precedence?_of_bare h hm, hle⟩

lemma lacksRight_of_bare (h : s.tree.bare = .node kind y.trees) (hy : y.LacksRight) :
    s.LacksRight := by
  obtain ⟨a, b, hbranches⟩ := hy
  obtain ⟨left, op, right, hchildren, -, -, hright⟩ := exists_three_children h hbranches
  exact ⟨left, op, right, hchildren, kind_of_bare hright⟩

end Site

/-- A node for an operator has two operands and the operator between them. To the right is an error,
a term or what is joined by an operator of higher precedence. To the left is a term, what is joined
by an operator of no lower precedence, or an operator that lacks its right operand. -/
theorem operators_bind_by_precedence (d : Dialect) (entry : Entry) (source : Text) :
    ∀ s ∈ (parse d entry source).root.descendants, s.kind = .binaryExpression →
      ∃ left op right n, s.children = [left, op, right] ∧ op.kind = .operator ∧
      s.precedence? = some n ∧
        (left.IsOperand n ∨ left.kind = .binaryExpression ∧ left.LacksRight) ∧
        (right.kind = .error ∨ right.IsOperand (n + 1)) := by
  intro s hs hkind
  obtain ⟨y, hbare, hform⟩ := exists_formed d entry source s hs
  rw [hkind] at hform
  obtain ⟨a, b, c, n, hbranches, hop, hn, hleft, hright⟩ : y.IsJoined := hform
  obtain ⟨left, op, right, hchildren, ha, hb, hc⟩ := Site.exists_three_children hbare hbranches
  refine ⟨left, op, right, n, hchildren, ?_, Site.precedence?_of_bare hbare hn, ?_, ?_⟩
  · rw [Site.kind_of_bare hb, hop]
  · refine hleft.imp (Site.isOperand_of_bare ha) fun ⟨hkind, hlacks⟩ => ⟨?_, ?_⟩
    · rw [Site.kind_of_bare ha, hkind]
    · exact Site.lacksRight_of_bare ha hlacks
  · refine hright.imp (fun herror => ?_) (Site.isOperand_of_bare hc)
    rw [Site.kind_of_bare hc, herror]

/-- The `or` lacks its right operand, so it stands to the left of `*`. The two signs associate to
the left. -/
theorem operators_bind_by_precedence_missing :
    ∃ sites,
      sites = ((parse .scss .expression (Text.ofString "1 or * 2 - 3 - 4")).root.descendants.filter
        (·.kind = .binaryExpression)) ∧
      sites.map (fun s => (s.precedence?, s.start, s.stop)) =
        [(some 5, 0, 16), (some 5, 0, 12), (some 6, 0, 8), (some 1, 0, 5)] ∧
      ∀ s ∈ sites, ∃ left op right n, s.children = [left, op, right] ∧ op.kind = .operator ∧
        s.precedence? = some n ∧
        (left.IsOperand n ∨ left.kind = .binaryExpression ∧ left.LacksRight) ∧
        (right.kind = .error ∨ right.IsOperand (n + 1)) := by
  refine ⟨_, rfl, by decide +kernel, fun s hs => ?_⟩
  obtain ⟨hs, hkind⟩ := List.mem_filter.1 hs
  exact operators_bind_by_precedence _ _ _ s hs (of_decide_eq_true hkind)

end StyleSheet
