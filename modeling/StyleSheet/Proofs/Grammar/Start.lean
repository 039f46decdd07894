import Mathlib
import StyleSheet.Proofs.Fragments
import StyleSheet.Proofs.Grammar.Nearsight
import StyleSheet.Proofs.Shift

/-!
# The start of a sheet

At the start of a sheet of CSS, the grammar does not look back before it has taken a token: a gap is
asked for only between the parts of a name or of a selector, and the token taken last only behind a
statement. So a sheet that stands behind other tokens is read as it is read alone (`rounds_behind`).
-/

namespace StyleSheet

/-- The nonterminals of CSS with which a sheet may begin. Their rules do not look back before they
have taken a token, and they take one or do not match. An identifier is taken wherever one
starts. -/
def Nonterminal.Begins : Nonterminal → View → (Bool → View → Prop) → Prop
  | .ident, v, post => Grammar.startsIdent .css v = false → post false v
  | .balanced, _, post | .statement, _, post | .ruleset _, _, post | .atRule _, _, post
  | .dialectAtRule _, _, post
  | .selectors, _, post | .selector, _, post | .combinator, _, post | .simpleSelector, _, post =>
      ∀ v, post false v
  | _, _, _ => False

namespace View

variable {v : View}

/-! ## Conditions -/

@[simp] lemma forward_is (n : Nat) (kind : TokenKind) : Forward (·.is n kind) v :=
  fun w h => by simp [View.is, h.1]

@[simp] lemma forward_isAny (kinds : List TokenKind) : Forward (·.isAny kinds) v :=
  fun w h => by simp [View.isAny, h.1]

end View

namespace Grammar

open Rule

/-- The rule does not look back, and if it takes no token, it ends as told. -/
abbrev Forward (r : Rule) (v : View) (post : Bool → View → Prop) : Prop :=
  Rule.Forward Nonterminal.Begins r v post

attribute [local simp] Nonterminal.Begins

section

variable {v : View} {nested : Bool} {post : Bool → View → Prop}

@[simp] lemma forward_token (kind : TokenKind) :
    Forward (token kind) v post ↔ (v.is 0 kind = false → post false v) := by
  simp [token]

@[simp] lemma forward_group (kind : NodeKind) (body : Rule) :
    Forward (group kind body) v post ↔ Forward body v fun _ v => post true v := by
  simp [group]

/-! ## Names and selectors -/

@[simp] lemma forward_startsIdent : View.Forward (startsIdent .css) v :=
  fun w h => by simp [startsIdent, startsPiece, opensInterpolation, View.is, h.1]

/-- An identifier takes a token, or none starts here. -/
@[simp] lemma forward_identPieces :
    Forward (identPieces .css) v post ↔ (startsIdent .css v = false → post false v) := by
  have hopens : View.Forward (opensInterpolation .css 0) v :=
    fun w h => by simp [opensInterpolation, h.1]
  have hnone : opensInterpolation .css 0 v = false := rfl
  simp [identPieces, identPiece, hopens, hnone]

lemma forward_ident (h : startsIdent .css v = false → post false v) :
    Forward (ident .css) v post := by
  simpa +contextual [ident] using h

lemma forward_combinator (h : post false v) : Forward combinator v post := by
  refine ⟨fun w h => ?_, ?_⟩
  · simp [View.isWord, View.is, h.1, h.2.1]
  · dsimp only
    split
    · trivial
    · trivial
    · trivial
    · split
      · trivial
      · exact h
    · exact h

@[simp] lemma forward_parentReference (h : post false v) :
    Forward (parentReference .css) v post := by
  simp [parentReference, h]

@[simp] lemma forward_elementName (h : post false v) : Forward (elementName .css) v post := by
  have hnamespace :
      View.Forward (fun v => v.is 0 .pipe && v.adjacent 1 && (v.is 1 .ident || v.is 1 .star)) v :=
    fun w h => by simp [View.adjacent, View.is, h.1, h.2.2 0]
  have hstart : View.Forward (fun v => startsIdent .css v || v.is 0 .star) v :=
    fun w h => by simp [forward_startsIdent w h, View.is, h.1]
  refine (forward_choose hnamespace _ _).2 ⟨fun _ => trivial, fun _ => ?_⟩
  refine (forward_when hstart _).2 ⟨fun hstarts => ?_, fun _ => h⟩
  -- What starts here is a star or an identifier, so that it is taken.
  refine (forward_group _ _).2
    ((forward_then _ _).2 ((forward_or _ _).2 ((forward_token _).2 fun hstar => ?_)))
  refine ⟨by simp, fun _ => forward_identPieces.2 fun hnone => ?_⟩
  simp [hstar, hnone] at hstarts

@[simp] lemma forward_selectorPart (h : post false v) : Forward (selectorPart .css) v post := by
  refine ⟨fun w h => ?_, ?_⟩
  · simp [h.1]
  · dsimp only
    split
    · trivial
    · trivial
    · trivial
    · trivial
    · exact h
    · exact forward_parentReference h
    · simp +contextual [h]

lemma forward_simpleSelector (h : post false v) : Forward (simpleSelector .css) v post := by
  have hnever : View.Forward (fun v => decide (Dialect.css = .less) && v.isWord 0 "when") v :=
    fun w h => by simp
  refine (forward_choose hnever _ _).2 ⟨by simp, fun _ => (forward_and _ _).2 ?_⟩
  have hpart : Forward (selectorPart .css) v fun m v =>
      (m = true → Forward (many (when (·.adjacent 0) (selectorPart .css))) v post) ∧
          (m = false → post false v) :=
    forward_selectorPart ⟨by simp, fun _ => h⟩
  refine (forward_or _ _).2 ((forward_or _ _).2 (forward_elementName ⟨by simp, fun _ => ?_⟩))
  exact forward_parentReference ⟨by simp, fun _ => hpart⟩

lemma forward_selector (h : ∀ v, post false v) : Forward selector v post := by
  simp [selector, h]

lemma forward_selectors (h : ∀ v, post false v) : Forward selectors v post := by
  simp [selectors, h]

/-! ## Statements -/

lemma forward_balanced : Forward balanced v post := by
  refine ⟨fun w h => ?_, ?_⟩
  · simp [h.1]
  · dsimp only
    split <;> trivial

lemma forward_ruleset (h : ∀ v, post false v) : Forward (ruleset .css nested) v post := by
  simp [ruleset, h]

lemma forward_atRule (h : ∀ v, post false v) : Forward (atRule .css nested) v post := by
  have htable : ∀ v name,
      Forward ((ruleFor? (cssAtRules .css nested ++ marginBoxRules nested) name).getD unknownAtRule)
      v post := by
    intro v
    refine of_ruleFor? (P := fun r => Forward r v post) ?_ trivial
    rw [List.forall_mem_append]
    constructor
    · simp only [cssAtRules, List.forall_mem_cons, List.not_mem_nil, false_imp_iff,
        implies_true, and_true]
      exact ⟨trivial, trivial, trivial, trivial, trivial, trivial, trivial, trivial, trivial,
        trivial, trivial⟩
    · intro entry hentry
      obtain ⟨name, -, rfl⟩ := List.mem_map.1 hentry
      trivial
  have hlook : ∀ v,
      Forward (look fun v => (ruleFor? (cssAtRules .css nested ++ marginBoxRules nested)
      (plainAtRuleName (v.text 0))).getD unknownAtRule) v post :=
    fun v => ⟨fun w h => by simp [h.2.1], htable v _⟩
  refine (forward_when (View.forward_is 0 .atKeyword) _).2
    ⟨fun _ => (forward_or _ _).2 fun v => ?_, fun _ => h v⟩
  exact ⟨by simp, fun _ => hlook v⟩

lemma forward_statement (h : ∀ v, post false v) : Forward (statement .css) v post := by
  simp [statement, dialectStatement, h]

lemma forward_round (h : ∀ m v, post m v) : Forward stylesheetRound v post := by
  simp [stylesheetRound, h]

lemma forward_rule {name : Nonterminal} (h : name.Begins v post) :
    Forward (rule .css name) v post := by
  cases name with
  | balanced => exact forward_balanced
  | statement => exact forward_statement h
  | ruleset nested => exact forward_ruleset h
  | atRule nested => exact forward_atRule h
  | dialectAtRule nested => exact h v
  | selectors => exact forward_selectors h
  | selector => exact forward_selector h
  | combinator => exact forward_combinator (h v)
  | simpleSelector => exact forward_simpleSelector (h v)
  | ident => exact forward_ident h
  | _ => cases h

end

/-! ## Sheets behind other tokens -/

lemma shifts_yields (d : Dialect) (l : Token) (n depth : Nat) :
    Shifts l n (Yields d depth) (Yields d depth) := by
  induction depth with
  | zero => exact fun name s m y s' _ h => absurd h id
  | succ depth ih => exact fun name s m y s' hs h => Reads.behind ih h hs

lemma startsAlike_yields (l : Token) (n depth : Nat) :
    StartsAlike l n (Yields .css depth) (Yields .css depth) Nonterminal.Begins := by
  induction depth with
  | zero => exact fun name s m y s' post _ _ h => absurd h id
  | succ depth ih =>
      exact fun name s m y s' post hname hs h =>
        (forward_rule hname).behind (shifts_yields .css l n depth) ih hs h

/-- The statements of a sheet are read in the same way behind another token. -/
theorem rounds_behind {depth : Nat} {s s' : Spot} {m : Bool} {y : Yield} (l : Token) (n : Nat)
    (hs : s.last = none)
    (h : Reads .css (Yields .css depth) (.rule (many stylesheetRound)) s m y s') :
    Reads .css (Yields .css depth) (.rule (many stylesheetRound)) (s.behind l n) m (y.shift n)
      (s'.behind l n) := by
  by_cases hnil : s.ahead = []
  · have hend : Reads .css (Yields .css depth) (.rule (many stylesheetRound)) s true .nil s :=
      .stop (reads_round_end hnil)
    obtain ⟨rfl, rfl, rfl⟩ := reads_unique h hend
    exact .stop (reads_round_end (by simp [Spot.behind, hnil]))
  · have hmany : Forward (many stylesheetRound) s.view fun _ _ => True :=
      fun v => forward_round fun _ _ _ => trivial
    exact (hmany.behind (shifts_yields .css l n depth) (startsAlike_yields l n depth)
      ⟨hs, hnil⟩ h).1

end Grammar

end StyleSheet
