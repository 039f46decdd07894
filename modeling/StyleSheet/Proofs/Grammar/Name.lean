import Mathlib
import StyleSheet.Proofs.Combinators

/-!
# Names and selectors keep their promises

The rule of every nonterminal has an outcome in every state, and one that its nonterminal promises
(`Keeps`). This module shows it for names and selectors, the next ones for the rest of the grammar.
For a rule that has no name of its own there are simp lemmas which say that it is total, that it may
be repeated, or how it decides at its first token.
-/

namespace StyleSheet.Grammar

open Rule

/-- The rule of a nonterminal always has an outcome, and one that the nonterminal promises. -/
structure Keeps (d : Dialect) (name : Nonterminal) : Prop where
  total : Total d (rule d name)
  ensures : ∀ v : View, v.Proper →
    Ensures d name.rank (rule d name) v fun matched g _ => name.Promise d v matched g

variable {d : Dialect} {k : Nat} {v : View} {post : Post}

/-! ## Names -/

lemma ne_end_of_opensInterpolation (h : opensInterpolation d 0 v = true) :
    v.kind 0 ≠ .endOfInput := by
  intro hend
  simp only [opensInterpolation, hend] at h
  cases d <;> simp [interpolationOpener?] at h

lemma ne_end_of_startsIdent (h : startsIdent d v = true) : v.kind 0 ≠ .endOfInput := by
  intro hend
  simp only [startsIdent, startsPiece, Bool.or_eq_true] at h
  rcases h with h | h
  · simp [hend] at h
  · exact ne_end_of_opensInterpolation h hend

@[simp] lemma total_identPiece : Total d (identPiece d) := by simp [identPiece]

@[simp] lemma ensures_identPiece (hk : 0 < k) (hv : startsPiece d 0 v = true) :
    Ensures d k (identPiece d) v post ↔ ∀ v, post true .moved v := by
  have hend := ne_end_of_startsIdent hv
  by_cases h : opensInterpolation d 0 v = true
  · simp [identPiece, h, hk]
  · simp [identPiece, h, hend]

@[simp] lemma loops_furtherPiece : Loops d (furtherPiece d) := by
  simp +contextual [Loops, furtherPiece]

@[simp] lemma total_identPieces : Total d (identPieces d) := by simp [identPieces]

@[simp] lemma ensures_identPieces (hk : 0 < k) :
    Ensures d k (identPieces d) v post ↔
      (startsIdent d v = true → ∀ v, post true .moved v) ∧
        (startsIdent d v = false → post false .same v) := by
  have hstarts : startsIdent d v = startsPiece d 0 v := rfl
  simp +contextual [identPieces, hstarts, hk]

lemma keeps_ident : Keeps d .ident := by
  constructor <;> simp +contextual [rule, ident]

lemma keeps_interpolation : Keeps d .interpolation := by
  constructor
  · cases d <;> simp [rule, interpolation]
  · intro v _
    cases d <;>
      simp +contextual [rule, interpolation, opensInterpolation, interpolationOpener?,
        eq_comm (b := v.kind 0)]

@[simp] lemma total_stringLiteral : Total d stringLiteral := by simp [stringLiteral]

@[simp] lemma total_stringOrUri : Total d stringOrUri := by simp [stringOrUri]

/-- Inside of a group nothing stops short of its end. -/
lemma loops_toCloser (closer : TokenKind) :
    Loops d (choose (·.isAny [closer, .rightBrace, .endOfInput]) fail <|
      choose (·.isAny [.rightParen, .rightBracket]) take (call .balanced >> accept)) := by
  simp +contextual [Loops, View.isAny]

lemma keeps_balanced : Keeps d .balanced := by
  constructor
  · intro v
    dsimp only
    split <;> simp [loops_toCloser]
  · intro v _
    simp only [rule, balanced, ensures_look]
    split <;> simp_all [loops_toCloser]

/-! ## Selectors -/

lemma keeps_combinator : Keeps d .combinator := by
  constructor
  · intro v
    dsimp only
    split <;> simp
  · intro v _
    simp only [rule, combinator, ensures_node, ensures_look]
    split <;> simp_all

lemma keeps_selectors : Keeps d .selectors := by
  constructor <;> simp [rule, selectors]

/-- A cut range begins with an identifier of one letter, which is a selector. -/
lemma keeps_selector : Keeps d .selector := by
  have hloop : Loops d (cutRange >> (call .combinator ||| call .simpleSelector)) := by
    simp +contextual [Loops]
  constructor
  · simp [rule, selector, hloop]
  · intro v _
    simp +contextual [rule, selector, hloop]

/-- Whether an element name starts at the cursor. -/
def startsElement (d : Dialect) (v : View) : Bool :=
  startsIdent d v || v.is 0 .star ||
    (v.is 0 .pipe && v.adjacent 1 && (v.is 1 .ident || v.is 1 .star))

@[simp] lemma total_elementName : Total d (elementName d) := by simp [elementName]

@[simp] lemma ensures_elementName (hk : 0 < k) :
    Ensures d k (elementName d) v post ↔
      (startsElement d v = true → ∀ v, post true .moved v) ∧
        (startsElement d v = false → post false .same v) := by
  by_cases hident : startsIdent d v = true
  · have hstarts : startsElement d v = true := by simp [startsElement, hident]
    simp only [hstarts, forall_const, Bool.true_eq_false, false_imp_iff, and_true]
    refine ensures_choose_of_iff ?_ ?_ <;> simp [hident, hk]
  · by_cases hstar : v.kind 0 = .star
    · simp [elementName, startsElement, hident, hstar, hk]
    · by_cases hpipe : v.kind 0 = .pipe <;>
        simp [elementName, startsElement, hident, hstar, hpipe, hk]

@[simp] lemma total_parentReference : Total d (parentReference d) := by simp [parentReference]

@[simp] lemma ensures_parentReference :
    Ensures d k (parentReference d) v post ↔
      (v.kind 0 = .ampersand → ∀ v, post true .moved v) ∧
        (v.kind 0 ≠ .ampersand → post false .same v) := by
  simp +contextual [parentReference]

@[simp] lemma total_classSelector : Total d (classSelector d) := by simp [classSelector]

@[simp] lemma total_attributeSelector : Total d (attributeSelector d) := by simp [attributeSelector]

@[simp] lemma total_nthPart : Total d (nthPart d) := by
  intro v
  dsimp only
  split <;> simp

@[simp] lemma loops_nthPart : Loops d (nthPart d) := by
  refine ⟨total_nthPart, fun v => ?_⟩
  simp only [nthPart, ensures_look]
  split <;> simp_all [opensInterpolation, interpolationOpener?]

@[simp] lemma total_pseudoArgument (name : Text) : Total d (pseudoArgument d name) := by
  have hskip := total_skipUntil (d := d)
    (c := (·.isAny [.rightParen, .rightBrace, .semicolon, .endOfInput]))
    (by simp +contextual [View.isAny])
  simp [pseudoArgument, nth, hskip]

@[simp] lemma total_pseudoSelector : Total d (pseudoSelector d) := by simp [pseudoSelector]

/-- Whether a part of a simple selector starts at the cursor. -/
def startsSelectorPart (d : Dialect) (v : View) : Bool :=
  startsIdent d v || v.isAny [.hash, .dot, .leftBracket, .colon, .ampersand] ||
    (d = .scss && v.is 0 .placeholder)

@[simp] lemma total_selectorPart : Total d (selectorPart d) := by
  intro v
  dsimp only
  split <;> simp

@[simp] lemma ensures_selectorPart (hk : 1 < k) :
    Ensures d k (selectorPart d) v post ↔
      (startsSelectorPart d v = true → ∀ v, post true .moved v) ∧
        (startsSelectorPart d v = false → post false .same v) := by
  simp only [selectorPart, ensures_look, startsSelectorPart, View.isAny]
  split
  case h_1 h => simp [h]
  case h_2 h => simp [h, classSelector]
  case h_3 h => simp [h, attributeSelector]
  case h_4 h => simp [h, pseudoSelector]
  case h_5 h =>
    cases d <;> simp [h, startsIdent, startsPiece, opensInterpolation, interpolationOpener?]
  case h_6 h => simp [h]
  case h_7 => simp_all

@[simp] lemma loops_selectorPart : Loops d (when (·.adjacent 0) (selectorPart d)) := by
  simp [Loops]

lemma length_of_isWord {w : String} {n : Nat} (h : v.isWord n w = true) :
    (v.text n).length = (Text.ofString w).length := by
  simp only [View.isWord, Text.isWord, Bool.and_eq_true, beq_iff_eq] at h
  rw [← h.2, Text.lower, List.length_map]

lemma keeps_simpleSelector : Keeps d .simpleSelector := by
  constructor
  · simp [rule, simpleSelector]
  · intro v _
    simp only [rule, simpleSelector, ensures_choose, ensures_fail]
    refine ⟨fun hwhen => ?_, fun _ => ?_⟩
    · -- The word that begins a guard is too long for the first part of a cut range.
      simp only [Bool.and_eq_true, decide_eq_true_eq] at hwhen
      have hlength : (v.text 0).length = 4 := length_of_isWord hwhen.2
      simp [kind_of_isWord hwhen.2, hlength]
    · simp +contextual [startsElement, startsIdent, startsPiece]

end StyleSheet.Grammar
