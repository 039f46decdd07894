import Mathlib
import StyleSheet.Grammar

/-!
# Outcomes

A rule has an outcome if its parts have outcomes, and then the bounds were large enough for all of
them. For each form of rule that has parts, and for one round of each of the two loops, it is said
here which parts are carried out, where, and what becomes of their outcomes. Inductions over rules
that are carried out go through these equivalences.
-/

namespace StyleSheet.Rule

variable {call : Nonterminal → Parser → Option Outcome} {bound : Nat} {p : Parser} {o : Outcome}

lemma exec_seq_eq_some {first : Rule} {next : Bool → Rule} :
    (seq first next).exec call bound p = some o ↔
      ∃ m q, first.exec call bound p = some ⟨m, q⟩ ∧ (next m).exec call bound q = some o := by
  rw [exec]
  constructor
  · intro ho
    split at ho
    · cases ho
    · rename_i m q hq
      exact ⟨m, q, hq, ho⟩
  · rintro ⟨m, q, hq, ho⟩
    rw [hq]
    exact ho

lemma exec_node_eq_some {kind : NodeKind} {body : Rule} :
    (node kind body).exec call bound p = some o ↔
      (∃ q, body.exec call bound p.openNode = some ⟨true, q⟩ ∧
        o = ⟨true, q.closeNode p.events.size kind⟩) ∨
      ∃ q, body.exec call bound p.openNode = some ⟨false, q⟩ ∧
        o = ⟨false, q.dropNode p.events.size⟩ := by
  rw [exec]
  constructor
  · intro ho
    split at ho
    · cases ho
    · rename_i q hq
      exact .inl ⟨q, hq, (Option.some.inj ho).symm⟩
    · rename_i q hq
      exact .inr ⟨q, hq, (Option.some.inj ho).symm⟩
  · rintro (⟨q, hq, rfl⟩ | ⟨q, hq, rfl⟩) <;> rw [hq]

lemma exec_wrap_eq_some {kind : NodeKind} {first : Rule} {more : Nat → View → Bool} {body : Rule} :
    (wrap kind first more body).exec call bound p = some o ↔
      (∃ q, first.exec call bound p = some ⟨false, q⟩ ∧ o = ⟨false, q⟩) ∨
      ∃ q, first.exec call bound p = some ⟨true, q⟩ ∧
        wrapWhile kind more (body.exec call bound) bound 0 p.events.size q = some o := by
  rw [exec]
  constructor
  · intro ho
    split at ho
    · cases ho
    · rename_i q hq
      exact .inl ⟨q, hq, (Option.some.inj ho).symm⟩
    · rename_i q hq
      exact .inr ⟨q, hq, ho⟩
  · rintro (⟨q, hq, rfl⟩ | ⟨q, hq, ho⟩) <;> rw [hq]
    exact ho

/-- An attempt keeps what has matched without a fault, and goes back from all else. -/
lemma exec_attempt_eq_some {body : Rule} :
    (attempt body).exec call bound p = some o ↔
      (∃ q, body.exec call bound p = some ⟨true, q⟩ ∧ q.hasFaultSince p.snapshot = false ∧
        o = ⟨true, q⟩) ∨
      ∃ m q, body.exec call bound p = some ⟨m, q⟩ ∧ (m = true → q.hasFaultSince p.snapshot = true) ∧
        o = ⟨false, q.restore p.snapshot⟩ := by
  rw [exec]
  constructor
  · intro ho
    split at ho
    · cases ho
    · rename_i m q hq
      split at ho
      · rename_i hkept
        obtain ⟨rfl, hclean⟩ : m = true ∧ q.hasFaultSince p.snapshot = false := by simpa using hkept
        exact .inl ⟨q, hq, hclean, (Option.some.inj ho).symm⟩
      · rename_i hback
        exact .inr ⟨m, q, hq, by simpa using hback, (Option.some.inj ho).symm⟩
  · rintro (⟨q, hq, hclean, rfl⟩ | ⟨m, q, hq, hback, rfl⟩)
    · simp [hq, hclean]
    · rw [hq]
      exact if_neg (by simpa using hback)

lemma repeatUntil_eq_some {body : Parser → Option Outcome} :
    repeatUntil body (bound + 1) p = some o ↔
      (∃ q, body p = some ⟨true, q⟩ ∧ repeatUntil body bound q = some o) ∨
      ∃ q, body p = some ⟨false, q⟩ ∧ o = ⟨true, q⟩ := by
  rw [repeatUntil]
  constructor
  · intro ho
    split at ho
    · cases ho
    · rename_i q hq
      exact .inl ⟨q, hq, ho⟩
    · rename_i q hq
      exact .inr ⟨q, hq, (Option.some.inj ho).symm⟩
  · rintro (⟨q, hq, ho⟩ | ⟨q, hq, rfl⟩) <;> rw [hq]
    exact ho

lemma wrapWhile_eq_some {kind : NodeKind} {more : Nat → View → Bool}
    {body : Parser → Option Outcome} {layers place : Nat} :
    wrapWhile kind more body (bound + 1) layers place p = some o ↔
      (more layers p.stream.view = true ∧ ∃ m q, body (p.openAround place) = some ⟨m, q⟩ ∧
        wrapWhile kind more body bound (layers + 1) p.events.size (q.closeNode p.events.size kind) =
          some o) ∨
      more layers p.stream.view = false ∧ o = ⟨true, p⟩ := by
  rw [wrapWhile]
  constructor
  · intro ho
    split at ho
    · rename_i hmore
      split at ho
      · cases ho
      · rename_i m q hq
        exact .inl ⟨hmore, m, q, hq, ho⟩
    · rename_i hmore
      exact .inr ⟨by simpa using hmore, (Option.some.inj ho).symm⟩
  · rintro (⟨hmore, m, q, hq, ho⟩ | ⟨hmore, rfl⟩)
    · rw [if_pos hmore, hq]
      exact ho
    · rw [hmore, if_neg Bool.false_ne_true]

end StyleSheet.Rule
