import Mathlib
import StyleSheet.Proofs.Grammar.Block

/-!
# Statements keep their promises

Mixins and functions, control flow, modules, at-rules and whole statements. An at-rule is found in a
table by its keyword; every rule in these tables begins by taking that keyword.
-/

namespace StyleSheet.Grammar

open Rule

variable {d : Dialect} {k : Nat} {v : View} {post : Post}

/-! ## Mixins and functions -/

@[simp] lemma total_requiredIdent : Total d requiredIdent := by simp [requiredIdent]

@[simp] lemma total_scssMixinName : Total d scssMixinName := by simp [scssMixinName, Rounds]

@[simp] lemma total_contentDeclaration (nested : Bool) : Total d (contentDeclaration nested) := by
  simp [contentDeclaration]

@[simp] lemma total_lessMixinName : Total .less lessMixinName := by simp [lessMixinName]

@[simp] lemma ensures_lessMixinName :
    Ensures .less k lessMixinName v post ↔
      if v.kind 0 = .endOfInput then post true .noted v else ∀ v, post true .moved v := by
  by_cases hend : v.kind 0 = .endOfInput
  · simp [lessMixinName, hend]
  · simp only [lessMixinName, ensures_group]
    by_cases hdot : v.kind 0 = .dot <;> simp +contextual [hdot, hend]

lemma keeps_mixinDeclaration (nested : Bool) : Keeps .less (.mixinDeclaration nested) := by
  constructor
  · simp [rule, lessMixinDeclaration]
  · intro v _
    by_cases hend : v.kind 0 = .endOfInput
    · simp [rule, lessMixinDeclaration, View.opensCall, hend]
    · simp [rule, lessMixinDeclaration, hend]

lemma ne_end_of_startsMixinName (h : startsMixinName v = true) : v.kind 0 ≠ .endOfInput := by
  intro hend
  simp [startsMixinName, hend] at h

@[simp] lemma loops_furtherMixinName : Loops .less furtherMixinName := by
  have hend : ∀ v, startsMixinName v = true → v.kind 0 ≠ .endOfInput := fun v =>
    ne_end_of_startsMixinName
  simp +contextual [Loops, furtherMixinName, hend]

lemma ensures_furtherMixinName (hend : v.kind 0 = .endOfInput) :
    Ensures .less k furtherMixinName v post ↔ post false .same v := by
  simp [furtherMixinName, startsMixinName, hend]

lemma keeps_mixinReference : Keeps .less .mixinReference := by
  constructor
  · simp [rule, lessMixinReference]
  · intro v _
    by_cases hend : v.kind 0 = .endOfInput
    · simp [rule, lessMixinReference, ensures_furtherMixinName hend, priority,
        View.isImportant, hend]
    · simp [rule, lessMixinReference, hend]

lemma keeps_mixinStatement (nested : Bool) : Keeps .less (.mixinStatement nested) := by
  constructor
  · simp [rule, lessMixinStatement]
  · intro v _
    have hend : startsMixinName v = true → v.kind 0 ≠ .endOfInput := ne_end_of_startsMixinName
    simp +contextual [rule, lessMixinStatement, hend]

/-! ## Control flow -/

lemma keeps_ifRest (nested : Bool) : Keeps d (.ifRest nested) := by
  constructor
  · simp [rule, ifRest]
  · intro v _
    have hkeyword : v.isKeyword "@elseif" = true → v.kind 0 = .atKeyword := kind_of_isKeyword
    cases nested <;> simp +contextual [rule, ifRest, body, blockOf, hkeyword, isWord_of_end]

/-! ## The tables of at-rules -/

/-- The rule is a node that begins with the token at the cursor, whatever it is. -/
def Leads (d : Dialect) (r : Rule) : Prop :=
  ∃ kind rest, r = group kind (take >> rest) ∧ Total d rest

lemma Leads.total {r : Rule} (h : Leads d r) : Total d r := by
  obtain ⟨kind, rest, rfl, hrest⟩ := h
  simp [hrest]

lemma Leads.ensures {r : Rule} (h : Leads d r) (hv : v.kind 0 ≠ .endOfInput)
    (hpost : ∀ v, post true .moved v) : Ensures d k r v post := by
  obtain ⟨kind, rest, rfl, hrest⟩ := h
  simp [hrest, hv, hpost]

lemma leads_group {kind : NodeKind} {rest : Rule} (h : Total d rest) :
    Leads d (group kind (take >> rest)) :=
  ⟨kind, rest, rfl, h⟩

lemma leads_of_ruleFor? {table : List (String × Rule)} (h : ∀ entry ∈ table, Leads d entry.2)
    {name : Text} {r : Rule} (hr : ruleFor? table name = some r) : Leads d r := by
  simp only [ruleFor?, Option.map_eq_some_iff] at hr
  obtain ⟨entry, hentry, rfl⟩ := hr
  exact h entry (List.mem_of_find?_eq_some hentry)

lemma ruleFor?_nil {table : List (String × Rule)}
    (h : ∀ entry ∈ table, Text.ofString entry.1 ≠ []) : ruleFor? table [] = none := by
  simp only [ruleFor?, Option.map_eq_none_iff, List.find?_eq_none, beq_iff_eq]
  exact h

@[simp] lemma total_layerName : Total d (layerName d) := by
  simp +contextual [layerName, Loops]

@[simp] lemma total_importLayer : Total d (importLayer d) := by simp [importLayer]

@[simp] lemma total_importSupports : Total d importSupports := by simp [importSupports]

@[simp] lemma total_importOptions : Total d importOptions := by simp [importOptions, Loops, expect]

@[simp] lemma total_importTargets : Total d (importTargets d) := by simp [importTargets]

@[simp] lemma total_pageSelector : Total d (pageSelector d) := by
  simp [pageSelector, Loops]

lemma leads_cssAtRules (nested : Bool) : ∀ entry ∈ cssAtRules d nested, Leads d entry.2 := by
  simp only [cssAtRules, List.forall_mem_cons, List.not_mem_nil, false_imp_iff,
    implies_true, and_true]
  refine ⟨leads_group ?_, leads_group ?_, leads_group ?_, leads_group ?_, leads_group ?_,
    leads_group ?_, leads_group ?_, leads_group ?_, leads_group ?_, leads_group ?_,
    leads_group ?_⟩ <;> simp

lemma leads_marginBoxRules (nested : Bool) : ∀ entry ∈ marginBoxRules nested, Leads d entry.2 := by
  intro entry hentry
  obtain ⟨name, -, rfl⟩ := List.mem_map.1 hentry
  exact leads_group (total_body nested)

@[simp] lemma total_moduleConfiguration : Total d moduleConfiguration := by
  simp +contextual [moduleConfiguration, Loops]

@[simp] lemma total_requiredVariable : Total d requiredVariable := by simp [requiredVariable]

@[simp] lemma loops_requiredVariable : Loops d (requiredVariable &&& token .comma) := by
  simp +contextual [Loops, requiredVariable]

@[simp] lemma total_forwardVisibility : Total d forwardVisibility := by
  simp [forwardVisibility, Loops]

lemma leads_scssAtRules (nested : Bool) : ∀ entry ∈ scssAtRules nested, Leads d entry.2 := by
  simp only [scssAtRules, List.forall_mem_cons, List.not_mem_nil, false_imp_iff,
    implies_true, and_true]
  refine ⟨leads_group ?_, leads_group ?_, leads_group ?_, leads_group ?_, leads_group ?_,
    leads_group ?_, leads_group ?_, leads_group ?_, leads_group ?_, leads_group ?_, leads_group ?_,
    leads_group ?_, leads_group ?_, leads_group ?_, leads_group ?_, leads_group ?_⟩ <;> simp

lemma scssAtRules_ne_nil (nested : Bool) :
    ∀ entry ∈ scssAtRules nested, Text.ofString entry.1 ≠ [] := by
  have hnames : ∀ name ∈ (scssAtRules nested).map Prod.fst, Text.ofString name ≠ [] := by
    cases nested <;> decide +kernel
  exact fun entry hentry => hnames entry.1 (List.mem_map_of_mem hentry)

/-! ## At-rules -/

lemma keeps_dialectAtRule (nested : Bool) : Keeps d (.dialectAtRule nested) := by
  cases d with
  | css => constructor <;> simp [rule, dialectAtRule]
  | scss =>
      constructor
      · intro v
        dsimp only
        cases hr : ruleFor? (scssAtRules nested) (v.text 0).lower with
        | none => simp
        | some r => exact (leads_of_ruleFor? (leads_scssAtRules nested) hr).total
      · intro v hv
        simp only [rule, dialectAtRule, ensures_look]
        cases hr : ruleFor? (scssAtRules nested) (v.text 0).lower with
        | none => simp
        | some r =>
            refine (leads_of_ruleFor? (leads_scssAtRules nested) hr).ensures ?_ (by simp)
            -- No keyword is empty, so behind the end of the input none is found.
            intro hend
            rw [hv.text 0 hend, Text.lower, List.map_nil,
              ruleFor?_nil (scssAtRules_ne_nil nested)] at hr
            cases hr
  | less =>
      constructor
      · simp [rule, dialectAtRule, lessAtRule, plugin]
      · intro v hv
        have hsecond : ∀ kind : TokenKind, kind ≠ .endOfInput → v.kind 1 = kind →
            v.kind 0 ≠ .endOfInput := by
          rintro kind hkind rfl hend
          exact hkind (hv.kind 0 hend)
        have hcolon := hsecond .colon (by simp)
        have hparen := hsecond .leftParen (by simp)
        have hkeyword : v.isKeyword "@plugin" = true → v.kind 0 = .atKeyword := kind_of_isKeyword
        simp +contextual [rule, dialectAtRule, lessAtRule, plugin, lessVariableDeclaration,
          View.callFollows, hcolon, hparen, hkeyword]

lemma leads_unknownAtRule : Leads d unknownAtRule := by
  refine leads_group ?_
  have hskip := total_skipUntil (d := d)
    (c := (·.isAny [.semicolon, .leftBrace, .rightBrace, .endOfInput]))
    (by simp +contextual [View.isAny])
  simp [hskip]

lemma leads_atRule (nested : Bool) (name : Text) :
    Leads d
      ((ruleFor? (cssAtRules d nested ++ marginBoxRules nested) name).getD unknownAtRule) := by
  cases hr : ruleFor? (cssAtRules d nested ++ marginBoxRules nested) name with
  | none => exact leads_unknownAtRule
  | some r =>
      refine leads_of_ruleFor? (fun entry hentry => ?_) hr
      rcases List.mem_append.1 hentry with h | h
      · exact leads_cssAtRules nested entry h
      · exact leads_marginBoxRules nested entry h

lemma keeps_atRule (nested : Bool) : Keeps d (.atRule nested) := by
  constructor
  · simp [rule, atRule, (leads_atRule nested _).total]
  · intro v _
    simp only [rule, atRule, ensures_when]
    refine ⟨fun hv => ?_, by simp⟩
    have hend : v.kind 0 ≠ .endOfInput := by simp [is_eq_true.1 hv]
    simp [(leads_atRule nested _).total, (leads_atRule nested _).ensures hend]

lemma keeps_keyframe : Keeps d .keyframe := by
  constructor
  · simp [rule, keyframe, keyframeOffset]
  · intro v _
    simp [rule, keyframe, keyframeOffset]

/-! ## Statements -/

@[simp] lemma total_endOfStatement : Total d endOfStatement := by simp [endOfStatement]

@[simp] lemma total_dialectStatement (nested : Bool) : Total d (dialectStatement d nested) := by
  cases d <;> simp [dialectStatement]

lemma keeps_statement : Keeps d .statement := by
  constructor
  · simp [rule, statement]
  · intro v _
    cases d <;> simp [rule, statement, dialectStatement]

lemma keeps_blockItem : Keeps d .blockItem := by
  constructor
  · simp [rule, blockItem]
  · intro v _
    cases d <;> simp [rule, blockItem, dialectStatement]

/-- One round of the loop of a style sheet. -/
def stylesheetRound : Rule :=
  choose (·.is 0 .endOfInput) fail <|
    choose (·.isAny [.markupOpen, .markupClose, .semicolon]) take <|
      seq (call .statement) fun matched =>
        (if matched then endOfStatement
          else report .ruleOrSelectorExpected >> call .balanced) >> accept

lemma rule_stylesheet : rule d .stylesheet = group .stylesheet (many stylesheetRound) := rfl

lemma loops_stylesheetRound : Loops d stylesheetRound := by
  simp +contextual [Loops, stylesheetRound]

lemma ensures_stylesheetRound (v : View) : stylesheetRound.Ensures d 12 v fun matched g _ =>
    if matched = true then g = .moved else ¬g = .moved → ¬g = .cut := by
  by_cases hend : v.kind 0 = .endOfInput <;> simp [stylesheetRound, hend]

lemma keeps_stylesheet : Keeps d .stylesheet := by
  constructor
  · simp [rule_stylesheet, loops_stylesheetRound]
  · intro v _
    simp [rule_stylesheet, loops_stylesheetRound, ensures_stylesheetRound]

end StyleSheet.Grammar
