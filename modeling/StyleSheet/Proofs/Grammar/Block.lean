import Mathlib
import StyleSheet.Proofs.Grammar.Value

/-!
# Blocks and queries keep their promises

Blocks, rule sets and declarations, the declarations of variables, and the conditions of at-rules. A
block goes on whatever its items are: an item that cannot be read is skipped up to its semicolon.
-/

namespace StyleSheet.Grammar

open Rule

variable {d : Dialect} {k : Nat} {v : View} {post : Post}

/-! ## Blocks -/

@[simp] lemma total_skipStatement : Total d skipStatement := total_resume _ _

@[simp] lemma total_endOfItem : Total d endOfItem := by simp [endOfItem]

lemma loops_blockStep (item : BlockItem) (missing : Fault) :
    Loops d (choose (·.isAny [.rightBrace, .endOfInput]) fail <|
      choose (·.is 0 .semicolon) take <|
        seq (call (itemName item)) fun matched =>
          (if matched then endOfItem else report missing >> skipStatement) >> accept) := by
  cases item <;> simp +contextual [Loops, itemName, skipStatement, View.isAny]

lemma keeps_block (item : BlockItem) (missing : Fault) : Keeps d (.block item missing) := by
  constructor <;> simp +contextual [rule, block, loops_blockStep]

@[simp] lemma total_blockOf (item : BlockItem) (missing : Fault) (nested : Bool) :
    Total d (blockOf item missing nested) := by
  simp [blockOf]

@[simp] lemma total_body (nested : Bool) : Total d (body nested) := total_blockOf _ _ _

@[simp] lemma total_statements : Total d statements := by simp [statements]

/-! ## Rule sets -/

@[simp] lemma total_rulesetGuard : Total d (rulesetGuard d) := by simp [rulesetGuard]

lemma keeps_ruleset (nested : Bool) : Keeps d (.ruleset nested) := by
  constructor <;> simp [rule, ruleset]

lemma keeps_nestedRuleset : Keeps d .nestedRuleset := by
  constructor
  · simp [rule, nestedRuleset]
  · intro v _
    simp [rule, nestedRuleset, rulesetGuard]

/-! ## Declarations -/

@[simp] lemma total_priority : Total d priority := by simp [priority]

@[simp] lemma total_mergeSign : Total d mergeSign := by simp [mergeSign]

lemma keeps_property : Keeps d .property := by
  constructor <;> simp +contextual [rule, property]

@[simp] lemma total_customValue : Total d customValue := by
  have hskip := total_skipUntil (d := d) (c := fun v =>
      v.isAny [.semicolon, .rightBrace, .rightParen, .rightBracket, .endOfInput] || v.isImportant)
    (by simp +contextual [View.isAny])
  simp [customValue, hskip]

lemma keeps_declaration : Keeps d .declaration := by
  constructor <;> simp +contextual [rule, declaration, customProperty, plainDeclaration]

lemma keeps_variableDeclaration : Keeps d .variableDeclaration := by
  constructor <;> simp +contextual [rule, variableDeclaration, scssVariableDeclaration]

@[simp] lemma total_lessVariableDeclaration : Total d lessVariableDeclaration := by
  simp [lessVariableDeclaration]

/-! ## Queries -/

@[simp] lemma total_closeParen : Total d closeParen := total_close _ _ _

lemma loops_joinedOperand {operand : Rule} {missing : Fault} (h : Total d operand) :
    Loops d (when (fun v => v.isWord 0 "and" || v.isWord 0 "or") <|
      take >> word "not" >> (operand ||| report missing)) := by
  constructor
  · simp [h]
  · intro v
    have hend : v.isWord 0 "and" = true ∨ v.isWord 0 "or" = true → v.kind 0 = .ident := by
      rintro (hv | hv) <;> exact kind_of_isWord hv
    simp +contextual [h, hend]

@[simp] lemma total_joinedOperands (operand : Rule) (missing : Fault) (h : Total d operand) :
    Total d (joinedOperands operand missing) := by
  simp [joinedOperands, loops_joinedOperand, h]

@[simp] lemma total_mediaFeature : Total d mediaFeature := by
  simp [mediaFeature, loops_comparison]

@[simp] lemma total_mediaOperand : Total d (mediaOperand d) := by
  intro v
  dsimp only
  split <;> simp [queryFunction]

/-- Whether an operand of a media condition starts at the cursor. -/
def startsMediaOperand (d : Dialect) (v : View) : Bool :=
  startsIdent d v || v.is 0 .leftParen || (d = .scss && v.is 0 .dollarName) ||
    (d = .less && v.is 0 .atKeyword)

lemma ensures_mediaOperand (hk : 4 < k) :
    Ensures d k (mediaOperand d) v post ↔
      (startsMediaOperand d v = true → ∀ v, post true .moved v) ∧
        (startsMediaOperand d v = false → post false .same v) := by
  have hk' : 1 < k := by omega
  simp only [mediaOperand, ensures_look]
  split
  case h_1 h => simp [h, startsMediaOperand, mediaFeature, loops_comparison]
  case h_2 h =>
    cases d <;>
      simp [h, hk, startsMediaOperand, startsIdent, startsPiece, opensInterpolation,
        interpolationOpener?]
  case h_3 h =>
    cases d <;>
      simp [h, hk, startsMediaOperand, startsIdent, startsPiece, opensInterpolation,
        interpolationOpener?]
  case h_4 =>
    by_cases hident : startsIdent d v = true
    · have hname :
          Ensures d k (choose View.callFollows queryFunction (call .ident >> accept)) v post ↔
          ∀ v, post true .moved v :=
        ensures_choose_of_iff (by simp [queryFunction, hident, hk']) (by simp [hident, hk'])
      simp only [ensures_when, hname]
      simp [hident, startsMediaOperand]
    · simp_all [startsMediaOperand]

/-- The operands of a media condition, without the word before the first one. -/
def mediaOperands (d : Dialect) : Rule :=
  mediaOperand d &&& joinedOperands (mediaOperand d) .mediaQueryExpected

lemma total_mediaCondition : Total d (mediaCondition d) := by simp [mediaCondition]

lemma ensures_mediaOperands (hk : 4 < k) (h : v.kind 0 = .leftParen) :
    Ensures d k (mediaOperands d) v fun matched g _ => matched = true ∧ g = .moved := by
  simp [mediaOperands, joinedOperands, ensures_mediaOperand hk, startsMediaOperand, h,
    loops_joinedOperand]

/-- A media condition keeps its promise unless it starts with `not` and a parenthesis. -/
lemma ensures_mediaCondition (h : v.isWord 0 "not" = true → v.kind 1 ≠ .leftParen) :
    Ensures d 6 (mediaCondition d) v fun matched g _ =>
      Nonterminal.mediaCondition.Promise d v matched g := by
  by_cases hnot : v.isWord 0 "not" = true
  · simp [mediaCondition, joinedOperands, loops_joinedOperand, hnot, h]
  · simp [mediaCondition, joinedOperands, loops_joinedOperand, hnot, ensures_mediaOperand]

lemma keeps_mediaQuery : Keeps d .mediaQuery := by
  constructor
  · simp [rule, mediaQuery]
  · intro v _
    by_cases hnot : v.isWord 0 "not" = true
    · simp +contextual [rule, mediaQuery, hnot, kind_of_isWord hnot]
    · by_cases honly : v.isWord 0 "only" = true
      · simp +contextual [rule, mediaQuery, hnot, honly, kind_of_isWord honly]
      · simp [rule, mediaQuery, hnot, honly]

lemma keeps_mediaQueryList : Keeps d .mediaQueryList := by
  constructor <;> simp [rule, mediaQueryList]

@[simp] lemma total_supportsOperand : Total d (supportsOperand d) := by
  simp [supportsOperand, selectorFunction, supportsGroup]

/-- An operand of a condition of support that takes no token does nothing, and matches only at a
name. -/
lemma ensures_supportsOperand (hk : 4 < k) (hmoved : ∀ v, post true .moved v)
    (hname : startsIdent d v = true → post true .same v) (hnone : post false .same v) :
    Ensures d k (supportsOperand d) v post := by
  have hk' : 1 < k := by omega
  simp only [supportsOperand, ensures_choose, ensures_when]
  refine ⟨fun hcall => ?_, fun _ => ⟨fun hparen => ?_, fun _ => hnone⟩⟩
  · have hident : startsIdent d v = true := (Bool.and_eq_true_iff.1 hcall).1
    refine ⟨fun _ => ?_, fun _ => ?_⟩
    · simp [selectorFunction, hident, hk', hmoved]
    · simp [hk, hmoved, hname hident]
  · simp [supportsGroup, is_eq_true.1 hparen, hmoved]

lemma keeps_supportsCondition : Keeps d .supportsCondition := by
  constructor
  · simp [rule, supportsCondition]
  · intro v _
    by_cases hnot : v.isWord 0 "not" = true
    · simp [rule, supportsCondition, joinedOperands, loops_joinedOperand, hnot]
    · simp only [rule, supportsCondition, ensures_node, ensures_then, ensures_word, ensures_and]
      refine ⟨fun hword => absurd hword hnot, fun _ => ?_⟩
      rw [if_neg (by simp)]
      refine ensures_supportsOperand (by simp) ?_ (fun hident => ?_) ?_
      · simp [joinedOperands, loops_joinedOperand]
      · simp +contextual [joinedOperands, loops_joinedOperand, ne_end_of_startsIdent hident]
      · simp

end StyleSheet.Grammar
