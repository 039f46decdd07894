import Mathlib
import StyleSheet.Proofs.Grammar.Name

/-!
# Values keep their promises

Expressions, terms and arguments, and what is built from them: variables, parameters, members of
modules and guards.
-/

namespace StyleSheet.Grammar

open Rule

variable {d : Dialect} {k : Nat} {v : View} {post : Post}

/-! ## Expressions -/

lemma keeps_expression (single : Bool) : Keeps d (.expression single) := by
  have hloop : Loops d (choose (·.is 0 .comma)
      (if single then fail
        else take >> (call (.binary 1) ||| if d = .css then report .termExpected else fail))
      (call (.binary 1))) := by
    simp +contextual [Loops]
  constructor <;> simp [rule, expression, hloop]

@[simp] lemma total_operator : Total d operator := total_leaf _

@[simp] lemma ensures_operator :
    Ensures d k operator v post ↔
      if v.kind 0 = .endOfInput then post true .noted v else ∀ v, post true .moved v :=
  ensures_leaf _

lemma ne_end_of_precedence {c : Nat → Bool} (h : (precedence? d v).any c = true) :
    v.kind 0 ≠ .endOfInput := by
  intro hend
  simp [precedence?, hend] at h

lemma keeps_binary (level : Nat) : Keeps d (.binary level) := by
  have hrounds : Rounds d (fun _ v => (precedence? d v).any (level ≤ ·)) (look fun v =>
      operator >> (call (.binary ((precedence? d v).getD 0 + 1)) ||| report .termExpected)) := by
    refine ⟨by simp, fun n v hv => .inl ?_⟩
    simp [ne_end_of_precedence hv]
  constructor <;> simp [rule, binary, hrounds]

lemma loops_comparison {operand : Rule} (h : Total d operand) :
    Loops d (comparison &&& operand) := by
  have hend : ∀ v : View, v.isAny [.less, .lessEqual, .greater, .greaterEqual, .equal] = true →
      v.kind 0 ≠ .endOfInput := by
    intro v hv hend
    simp [View.isAny, hend] at hv
  simp +contextual [Loops, comparison, h, hend]

/-! ## Terms -/

lemma startsUnary_cases (h : startsUnary d v = true) :
    v.kind 0 = .plus ∨ v.kind 0 = .minus ∨ v.kind 0 = .ident := by
  rw [startsUnary, Bool.or_eq_true, Bool.and_eq_true, Bool.and_eq_true, Bool.and_eq_true] at h
  rcases h with ⟨hsign, -⟩ | ⟨⟨-, hnot⟩, -⟩
  · have hkind : v.kind 0 = .plus ∨ v.kind 0 = .minus := by simpa [View.isAny] using hsign
    exact hkind.imp_right .inl
  · exact .inr (.inr (kind_of_isWord hnot))

lemma keeps_term : Keeps d .term := by
  constructor
  · simp [rule, term]
  · intro v _
    simp only [rule, term, ensures_node, ensures_choose]
    constructor
    · intro hv
      rcases startsUnary_cases hv with h | h | h <;> simp [h]
    · simp +contextual

@[simp] lemma total_uriLiteral : Total d uriLiteral := by simp [uriLiteral]

@[simp] lemma ensures_uriLiteral (hv : v.kind 0 ≠ .endOfInput) :
    Ensures d k uriLiteral v post ↔ ∀ v, post true .moved v := by
  simp [uriLiteral, hv]

@[simp] lemma loops_dottedPiece : Loops d (when (fun v => v.is 0 .ident && v.adjacent 0) <|
    take >> when (fun v => v.is 0 .dot && v.adjacent 0) take) := by
  simp +contextual [Loops]

@[simp] lemma total_progid : Total d progid := by simp [progid]

@[simp] lemma ensures_progid (hv : v.kind 0 ≠ .endOfInput) :
    Ensures d k progid v post ↔ ∀ v, post true .moved v := by
  simp [progid, hv]

@[simp] lemma total_identOrCall : Total d identOrCall := by
  simp [identOrCall, Rounds]

@[simp] lemma ensures_identOrCall (hk : 1 < k) (hv : startsIdent d v = true) :
    Ensures d k identOrCall v post ↔ ∀ v, post true .moved v := by
  simp [identOrCall, Rounds, hk, hv]

@[simp] lemma total_named : Total d (named d) := by
  simp [named]

@[simp] lemma ensures_named (hk : 2 < k) (hv : startsIdent d v = true) :
    Ensures d k (named d) v post ↔ ∀ v, post true .moved v := by
  have hend := ne_end_of_startsIdent hv
  have hk' : 1 < k := by omega
  have hname : Ensures d k (if d = .scss then call .moduleMember ||| identOrCall else identOrCall)
      v post ↔ ∀ v, post true .moved v := by
    simp [hk, hk', hv]
  exact ensures_choose_of_iff (ensures_uriLiteral hend)
    (ensures_choose_of_iff (ensures_progid hend) hname)

@[simp] lemma total_parenthesized : Total d (parenthesized d) := by
  simp [parenthesized, listEntry, Loops]

lemma keeps_unsignedTerm : Keeps d .unsignedTerm := by
  constructor
  · intro v
    dsimp only
    split <;> simp [hexColor, bracketed]
  · intro v _
    simp only [rule, unsignedTerm, ensures_look]
    split <;> cases d <;> simp_all [hexColor, bracketed, parenthesized, Loops, listEntry]

/-! ## Arguments -/

lemma keeps_argument : Keeps d .argument := by
  constructor
  · simp [rule, argument]
  · intro v _
    simp only [rule, argument, ensures_node, ensures_choose]
    cases d <;> simp +contextual [startsNamedArgument]

lemma keeps_arguments : Keeps d .arguments := by
  have hloop : Loops d (choose (·.is 0 .rightParen) fail <|
      seq (call .argument) fun matched =>
        if matched then
          if d = .less then token .comma ||| token .semicolon else token .comma
        else
          when (fun v => !v.isAny [.rightParen, .endOfInput]) (
            report .expressionExpected >> resume [] [.rightParen, .semicolon]) >> fail) := by
    constructor
    · simp
    · cases d <;> simp
  constructor
  · simp [rule, arguments, hloop]
  · intro v _
    by_cases hend : v.kind 0 = .endOfInput
    · cases d <;> simp_all [rule, arguments, View.isAny]
    · simp [rule, arguments, hend, hloop]

/-! ## Variables -/

lemma keeps_variableName : Keeps d .variableName := by
  constructor <;> simp +contextual [rule, variableName]

lemma keeps_escapedValue : Keeps d .escapedValue := by
  constructor <;> simp +contextual [rule, escapedValue]

@[simp] lemma total_variableFlags (allowed : List String) : Total d (variableFlags allowed) := by
  simp +contextual [variableFlags, Loops]

lemma keeps_moduleMember : Keeps d .moduleMember := by
  constructor
  · simp [rule, moduleMember, Rounds]
  · intro v _
    simp +contextual [rule, moduleMember, Rounds, startsIdent, startsPiece]

/-! ## Parameters -/

lemma keeps_parameterList : Keeps d .parameterList := by
  have hloop : Loops d (choose (·.isAny [.rightParen, .endOfInput]) fail <|
      seq (if d = .less then lessParameter else scssParameter) fun matched =>
        if matched then
          if d = .less then token .comma ||| token .semicolon else token .comma
        else report .variableNameExpected >>
          resume [] (.rightParen :: if d = .less then [.leftBrace] else [.leftBrace, .semicolon]) >>
            fail) := by
    constructor
    · simp [lessParameter, scssParameter]
    · cases d <;> simp [lessParameter, scssParameter]
  constructor
  · simp [rule, parameterList, hloop]
  · intro v _
    by_cases hend : v.kind 0 = .endOfInput
    · cases d <;> simp_all [rule, parameterList, View.isAny]
    · simp [rule, parameterList, hend, hloop]

/-! ## Guards -/

/-- Whether a condition of a guard starts at the cursor. -/
def startsCondition (v : View) : Bool :=
  (v.isWord 0 "not" && v.is 1 .leftParen) || v.is 0 .leftParen

@[simp] lemma total_guardCondition : Total d guardCondition := by
  simp [guardCondition, loops_comparison]

@[simp] lemma ensures_guardCondition :
    Ensures d k guardCondition v post ↔
      (startsCondition v = true → ∀ v, post true .moved v) ∧
        (startsCondition v = false → post false .same v) := by
  by_cases hparen : v.kind 0 = .leftParen
  · have hstarts : startsCondition v = true := by simp [startsCondition, hparen]
    simp only [hstarts, forall_const, Bool.true_eq_false, false_imp_iff, and_true]
    refine ensures_choose_of_iff ?_ ?_ <;> simp [loops_comparison, hparen]
  · by_cases hnot : v.isWord 0 "not" = true
    · simp [guardCondition, startsCondition, loops_comparison, hnot, kind_of_isWord hnot]
    · simp [guardCondition, startsCondition, loops_comparison, hparen, hnot]

lemma keeps_guard : Keeps d .guard := by
  have hloop : Loops d ((guardCondition ||| report .conditionExpected) &&&
      (token .comma ||| word "and" ||| word "or")) := by
    simp [Loops]
  constructor
  · simp [rule, guard, hloop]
  · intro v _
    by_cases hend : v.kind 0 = .endOfInput
    · simp [rule, guard, hloop, hend]
    · simp [rule, guard, hloop, hend]

end StyleSheet.Grammar
