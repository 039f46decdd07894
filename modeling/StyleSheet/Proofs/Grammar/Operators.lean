import Mathlib
import StyleSheet.Proofs.Grammar.Parts

/-!
# Operands and operators

Operators are read by climbing: `binary level` reads a term and puts a node around it for each
operator that binds at least as tightly as `level`. Where it ends, there is no such operator ahead.
So what is to the right of an operator binds more tightly than it, and where the next operator is
read, it finds to its left what does not bind less tightly (`Suits`).

The argument fails for an operator without a right operand, since then the next operator has not
been compared with it: there is an error instead of the operand, and whatever follows takes it as
its left operand.
-/

namespace StyleSheet

/-- How tightly a token binds as an operator. -/
def Leaf.precedence? (l : Leaf) : Option Nat :=
  match l.kind with
  | .slash | .star | .percent => some 6
  | .plus | .minus => some 5
  | .less | .lessEqual | .greater | .greaterEqual => some 4
  | .doubleEqual | .notEqual => some 3
  | .ident => if l.text.isWord "and" then some 2 else if l.text.isWord "or" then some 1 else none
  | _ => none

namespace Yield

/-- How tightly the operator binds that joins the parts of a node. -/
def precedence? (y : Yield) : Option Nat :=
  match y.branches with
  | [_, (.operator, .token t .nil), _] => t.leaf.precedence?
  | _ => none

/-- An operand of operators that bind as tightly as `level`: a term, or what an operator joins that
binds at least as tightly. -/
def IsOperand (level : Nat) (b : NodeKind × Yield) : Prop :=
  b.1 = .term ∨ b.1 = .binaryExpression ∧ ∃ n, b.2.precedence? = some n ∧ level ≤ n

/-- An operator without a right operand. -/
def LacksRight (y : Yield) : Prop :=
  ∃ left op, y.branches = [left, op, (.error, .nil)]

/-- Two operands that are joined by an operator. -/
def IsJoined (y : Yield) : Prop :=
  ∃ left op right n, y.branches = [left, op, right] ∧ op.1 = .operator ∧ y.precedence? = some n ∧
    (IsOperand n left ∨ left.1 = .binaryExpression ∧ left.2.LacksRight) ∧
    (right.1 = .error ∨ IsOperand (n + 1) right)

end Yield

namespace Grammar

open Rule Yield

variable {d : Dialect} {depth : Nat} {s s' : Spot} {m : Bool} {y : Yield}

/-- The operator ahead binds as tightly as its token says. -/
lemma precedence?_leaf {t : Token} {rest : List Token} {n : Nat} (hahead : s.ahead = t :: rest)
    (hn : precedence? d s.view = some n) : t.leaf.precedence? = some n := by
  have hkind : s.view.kind 0 = t.kind := by simp [Spot.kind_view, hahead]
  have htext : s.view.text 0 = t.text := by simp [Spot.text_view, hahead]
  simp only [precedence?, View.isWord, hkind, htext] at hn
  simp only [Leaf.precedence?, Token.leaf]
  split at hn <;> simp_all
  -- Of the identifiers, two words are left.
  split_ifs at hn ⊢ <;> simp_all

lemma ahead_of_precedence? {n : Nat} (hn : precedence? d s.view = some n) :
    ∃ t rest, s.ahead = t :: rest := by
  refine List.exists_cons_of_ne_nil (Spot.ahead_ne_nil fun hend => ?_)
  simp [precedence?, hend] at hn

/-- The node read so far is an operand for `level`, and fits to the left of the operator ahead. -/
def Suits (d : Dialect) (level : Nat) (inner : Yield) (s : Spot) : Prop :=
  ∃ b : NodeKind × Yield, inner = .node b.1 b.2 .nil ∧ IsOperand level b ∧
    ∀ n, precedence? d s.view = some n → IsOperand n b ∨ b.1 = .binaryExpression ∧ b.2.LacksRight

/-- What stands behind an operator: an operand that binds more tightly, or an error. -/
lemma branches_right
    (hC : ∀ level s y s', Yields d depth (.binary level) s true y s' →
      Suits d level y s' ∧ (precedence? d s'.view).any (level ≤ ·) = false) {n : Nat}
    (h : Reads d (Yields d depth)
      (.rule (call (.binary (n + 1)) ||| report .termExpected)) s m y s') :
    y.branches = [(.error, .nil)] ∨ ∃ b, y.branches = [b] ∧ IsOperand (n + 1) b ∧
      ∀ n', precedence? d s'.view = some n' → n' ≤ n := by
  obtain ⟨-, hright⟩ | ⟨y₁, s₁, y₂, hright, hreport, rfl⟩ := reads_or.1 h
  · obtain ⟨⟨b, rfl, hb, -⟩, hend⟩ := hC _ _ _ _ (reads_call.1 hright)
    refine .inr ⟨b, rfl, hb, fun n' hn' => ?_⟩
    simpa [hn', Nat.lt_succ_iff] using hend
  · obtain rfl := eq_nil_of_yields (reads_call.1 hright) rfl
    obtain ⟨-, rfl, -⟩ := reads_report.1 hreport
    exact .inl rfl

/-- A layer joins what has been read to the right operand of the operator ahead. -/
lemma isJoined_layer {level : Nat} {inner : Yield}
    (hC : ∀ level s y s', Yields d depth (.binary level) s true y s' →
      Suits d level y s' ∧ (precedence? d s'.view).any (level ≤ ·) = false)
    (hmore : (precedence? d s.view).any (level ≤ ·) = true) (hinner : Suits d level inner s)
    (h : Reads d (Yields d depth) (.rule (operator >>
      (call (.binary ((precedence? d s.view).getD 0 + 1)) ||| report .termExpected))) s m y s') :
    IsJoined (inner ++ y) ∧ Suits d level (.node .binaryExpression (inner ++ y) .nil) s' := by
  obtain ⟨b, rfl, -, hleft⟩ := hinner
  obtain ⟨n, hn, hlevel⟩ : ∃ n, precedence? d s.view = some n ∧ level ≤ n := by
    simpa [Option.any_eq_true] using hmore
  obtain ⟨t, rest, hahead⟩ := ahead_of_precedence? hn
  obtain ⟨_, y₁, s₁, y₂, hop, hright, rfl⟩ := reads_then.1 h
  obtain ⟨w, htake, rfl⟩ := reads_node.1 hop
  obtain ⟨rfl, rfl, rfl⟩ := reads_take.1 htake
  rw [hn, Option.getD_some] at hright
  rw [if_pos rfl, Spot.taken_of_cons hahead]
  obtain ⟨c, hc, hoperand⟩ : ∃ c, y₂.branches = [c] ∧ (c = (.error, .nil) ∨ IsOperand (n + 1) c ∧
      ∀ n', precedence? d s'.view = some n' → n' ≤ n) := by
    rcases branches_right hC hright with hc | ⟨c, hc, hright⟩
    · exact ⟨_, hc, .inl rfl⟩
    · exact ⟨c, hc, .inr hright⟩
  have hbranches :
      (Yield.node b.1 b.2 .nil ++ (.node .operator (.token t .nil) .nil ++ y₂)).branches =
      [b, (.operator, .token t .nil), c] := by
    simp [branches, hc]
  have hprec :
      (Yield.node b.1 b.2 .nil ++ (.node .operator (.token t .nil) .nil ++ y₂)).precedence? =
      some n := by
    rw [Yield.precedence?, hbranches]
    exact precedence?_leaf hahead hn
  refine ⟨⟨b, _, c, n, hbranches, rfl, hprec, hleft n hn, ?_⟩,
    (.binaryExpression, _), rfl, .inr ⟨rfl, n, hprec, hlevel⟩, ?_⟩
  · exact hoperand.imp (fun h => by rw [h]) And.left
  · intro n' hn'
    rcases hoperand with rfl | ⟨-, hle⟩
    · exact .inr ⟨rfl, b, _, hbranches⟩
    · exact .inl (.inr ⟨rfl, n, hprec, hle n' hn'⟩)

lemma suits_term {level : Nat} (h : Yields d depth .term s true y s') : Suits d level y s' := by
  obtain ⟨-, z, rfl⟩ | ⟨⟨⟩, -⟩ := yields_node rfl h
  exact ⟨(.term, z), rfl, .inl rfl, fun _ _ => .inl (.inl rfl)⟩

/-- What `binary level` reads is an operand for `level`, and no operator for `level` follows. -/
theorem suits_binary {level : Nat} (h : Yields d depth (.binary level) s true y s') :
    Suits d level y s' ∧ (precedence? d s'.view).any (level ≤ ·) = false := by
  induction depth generalizing level s y s' with
  | zero => cases h
  | succ depth ih =>
      have h : Reads d (Yields d depth) (.rule (binary d level)) s true y s' := h
      cases h with
      | wrap hterm hlayers =>
          obtain ⟨_, hsuits, hend⟩ :=
            hlayers.layers_induction (P := fun _ inner s => Suits d level inner s)
            (fun _ _ _ _ _ _ hmore hbody hinner =>
              (isJoined_layer (fun _ _ _ _ => ih) hmore hinner (reads_look.1 hbody)).2)
            (suits_term (reads_call.1 hterm))
          exact ⟨hsuits, hend⟩

/-- All nodes that `binary level` builds join operands, and the other ones are those of its
calls. -/
theorem nodes_binary {E : NodeKind → Yield → Prop} {level : Nat} (herror : E .error .nil)
    (hoperator : ∀ y, E .operator y) (hjoined : ∀ y, y.IsJoined → E .binaryExpression y)
    (hcalls : ∀ name s m y s', name = .term ∨ (∃ level, name = .binary level) →
      Yields d depth name s m y s' → ∀ n ∈ y.nodes, E n.1 n.2)
    (h : Reads d (Yields d depth) (.rule (binary d level)) s m y s') :
    ∀ n ∈ y.nodes, E n.1 n.2 := by
  cases h with
  | unwrapped hterm => exact hcalls _ _ _ _ _ (.inl rfl) (reads_call.1 hterm)
  | wrap hterm hlayers =>
      have hterm := reads_call.1 hterm
      refine (hlayers.layers_induction
        (P := fun _ inner s => Suits d level inner s ∧ ∀ n ∈ inner.nodes, E n.1 n.2) ?_
        ⟨suits_term hterm, hcalls _ _ _ _ _ (.inl rfl) hterm⟩).elim fun _ h => h.1.2
      rintro _ inner s m y s' hmore hbody ⟨hinner, hnodes⟩
      have hread := reads_look.1 hbody
      obtain ⟨hjoin, hsuits⟩ := isJoined_layer (fun _ _ _ _ => suits_binary) hmore hinner hread
      refine ⟨hsuits, ?_⟩
      have hright : ∀ n ∈ y.nodes, E n.1 n.2 :=
        Reads.nodes_ensure
          (Q := fun name => name = .term ∨ ∃ level, name = .binary level) herror hcalls
          hread (by simp [operator, hoperator])
      rw [Yield.nodes, Yield.nodes, List.append_nil, Yield.nodes_append]
      exact List.forall_mem_cons.2 ⟨hjoined _ hjoin, List.forall_mem_append.2 ⟨hnodes, hright⟩⟩

end Grammar

end StyleSheet
