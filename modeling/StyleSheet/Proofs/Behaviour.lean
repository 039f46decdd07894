import Mathlib
import StyleSheet.Proofs.Growth

/-!
# What rules promise

A rule either matches or not, and either way it has come to a `Grade` of progress: it has changed
nothing, recorded something, cut a range at the cursor, or taken a token. For each nonterminal a
table says which of these outcomes are possible (`MayMatch`, `MayFail`), and a `rank` orders the
nonterminals so that a rule which has not taken a token yet refers to lower ones only.

`Rule.Ensures` computes from a rule, and from what is seen ahead, that every outcome has a given
property; `Rule.Total` is a coarser analysis for what follows the first token, where only
termination is in question.
-/

namespace StyleSheet

/-! ## Progress -/

/-- How far a rule has come. -/
inductive Grade where
  /-- Nothing has changed. -/
  | same
  /-- Events have been added, but no token has been taken. -/
  | noted
  /-- The range at the cursor has been cut. -/
  | cut
  /-- A token has been taken. -/
  | moved
deriving DecidableEq

namespace Grade

/-- What a grade says about the states before and after. -/
def Holds : Grade → Parser → Parser → Prop
  | same, p, q => q = p
  | noted, p, q => q.stream = p.stream
  | cut, p, q => q.stream.cursor = p.stream.cursor
  | moved, p, q => p.stream.cursor < q.stream.cursor

/-- The progress of one rule and then another one. -/
def comp : Grade → Grade → Grade
  | moved, _ | _, moved => moved
  | cut, _ | _, cut => cut
  | noted, _ | _, noted => noted
  | same, same => same

@[simp] lemma comp_same (g : Grade) : comp g same = g := by cases g <;> rfl

@[simp] lemma same_comp (g : Grade) : comp same g = g := by cases g <;> rfl

@[simp] lemma comp_moved (g : Grade) : comp g moved = moved := by cases g <;> rfl

@[simp] lemma comp_eq_moved {g g' : Grade} : comp g g' = moved ↔ g = moved ∨ g' = moved := by
  cases g <;> cases g' <;> simp [comp]

@[simp] lemma comp_eq_cut {g g' : Grade} :
    comp g g' = cut ↔ (g = cut ∧ g' ≠ moved) ∨ (g' = cut ∧ g ≠ moved) := by
  cases g <;> cases g' <;> simp [comp]

lemma Holds.comp {g g' : Grade} {p q r : Parser} (hadv : p.Advances q) (hadv' : q.Advances r)
    (h : g.Holds p q) (h' : g'.Holds q r) : (g.comp g').Holds p r := by
  have := hadv.cursor
  have := hadv'.cursor
  cases g <;> cases g' <;> simp only [Holds, Grade.comp] at h h' ⊢ <;> grind

end Grade

/-! ## The promises of the nonterminals -/

/-- What is seen behind the end of the input. -/
structure View.Proper (v : View) : Prop where
  text : ∀ n, v.kind n = .endOfInput → v.text n = []
  kind : ∀ n, v.kind n = .endOfInput → v.kind (n + 1) = .endOfInput

namespace Nonterminal

/-- Before its first token, the rule of a nonterminal refers to nonterminals of lower rank only. -/
def rank : Nonterminal → Nat
  | .balanced | .interpolation | .combinator | .variableName | .escapedValue
  | .variableDeclaration | .block .. | .guard | .mixinDeclaration _ => 0
  | .ident | .property => 1
  | .simpleSelector | .moduleMember | .declaration => 2
  | .selector | .unsignedTerm => 3
  | .selectors | .term => 4
  | .binary _ | .ruleset _ | .nestedRuleset => 5
  | .expression _ | .mediaCondition | .supportsCondition => 6
  | .argument | .mediaQuery | .ifRest _ => 7
  | .arguments | .mediaQueryList | .parameterList => 8
  | .dialectAtRule _ | .mixinReference => 9
  | .atRule _ | .mixinStatement _ => 10
  | .keyframe | .statement | .blockItem => 11
  | .stylesheet => 12

/-- A number above all ranks. -/
def topRank : Nat := 61

lemma rank_lt (name : Nonterminal) : name.rank < topRank := by
  cases name <;> simp [rank, topRank]

/-- Whether the rules of a dialect use a nonterminal. -/
def isOf (d : Dialect) : Nonterminal → Bool
  | .mixinStatement _ | .mixinDeclaration _ | .mixinReference => d = .less
  | _ => true

/-- Whether what is seen ahead is enough for a nonterminal to match. -/
def isSure (d : Dialect) (v : View) : Nonterminal → Bool
  | .ident => Grammar.startsIdent d v
  | .interpolation => Grammar.opensInterpolation d 0 v
  | .selector => v.is 0 .ampersand
  | .simpleSelector => v.is 0 .ampersand || (v.is 0 .ident && decide ((v.text 0).length ≤ 1))
  | .term | .unsignedTerm =>
      (d = .scss && v.is 0 .dollarName) || (d = .less && v.is 0 .atKeyword)
  | .variableName => v.is 0 .atKeyword
  | _ => false

/-- How far a nonterminal may have come when it matches. -/
def MayMatch (v : View) : Nonterminal → Grade → Prop
  | .balanced, g => if v.kind 0 = .endOfInput then g = .same else g = .moved
  | .arguments, g | .parameterList, g | .guard, g | .mixinReference, g =>
      if v.kind 0 = .endOfInput then g ≠ .cut else g = .moved
  | .stylesheet, g | .ifRest _, g | .supportsCondition, g => g ≠ .cut
  | _, g => g = .moved

/-- How far a nonterminal may have come when it does not match. -/
def MayFail (d : Dialect) (v : View) : Nonterminal → Grade → Prop
  | .balanced, g => v.kind 0 ≠ .endOfInput ∧ g = .moved
  | .arguments, _ | .parameterList, _ | .guard, _ | .stylesheet, _ => False
  | .ifRest _, g | .supportsCondition, g => g ≠ .cut
  | .mediaCondition, g =>
      if v.isWord 0 "not" then v.is 1 .leftParen = false ∧ g = .moved else g = .same
  | name, g => g = .same ∧ isSure d v name = false

/-- The outcomes that a nonterminal promises. -/
def Promise (d : Dialect) (v : View) (name : Nonterminal) (matched : Bool) (g : Grade) : Prop :=
  if matched then name.MayMatch v g else name.MayFail d v g

/-- No nonterminal leaves a cut range at the cursor. -/
lemma Promise.ne_cut {d : Dialect} {v : View} {name : Nonterminal} {matched : Bool} {g : Grade}
    (h : name.Promise d v matched g) : g ≠ .cut := by
  rintro rfl
  unfold Promise at h
  split at h
  · unfold MayMatch at h
    split at h <;> simp at h
  · unfold MayFail at h
    split at h <;> simp at h

end Nonterminal

/-! ## The analysis of rules -/

namespace Rule

/-- What an outcome may be: whether the rule matched, how far it has come, and what is seen then. -/
abbrev Post := Bool → Grade → View → Prop

/-- The rule always matches. -/
def Accepts : Rule → Prop
  | done matched => matched = true
  | look next => ∀ v, Accepts (next v)
  | take | cutRange | many _ => True
  | seq _ next => ∀ matched, Accepts (next matched)
  | node _ body => Accepts body
  | wrap _ first _ _ => Accepts first
  | _ => False

mutual

/-- The rule has an outcome in every state. Each repetition takes a token or is the last one. -/
def Total (d : Dialect) : Rule → Prop
  | look next => ∀ v, Total d (next v)
  | seq first next => Total d first ∧ ∀ matched, Total d (next matched)
  | many body =>
      Total d body ∧
        ∀ v, Ensures d Nonterminal.topRank body v fun matched g _ => matched = true → g = .moved
  | node _ body => Total d body
  | wrap _ first more body =>
      Noded first ∧ Total d first ∧ Total d body ∧ ∀ n v, more n v = true →
        Ensures d Nonterminal.topRank body v (fun _ g _ => g = .moved) ∨ ∀ v, more (n + 1) v = false
  | attempt body => Total d body
  | call name => name.isOf d = true
  | _ => True

/-- In a state in which `v` is seen the rule has an outcome, and it satisfies `post`. As long as no
token has been taken, only nonterminals with a rank below `k` are called. -/
def Ensures (d : Dialect) (k : Nat) : Rule → View → Post → Prop
  | done matched, v, post => post matched .same v
  | look next, v, post => Ensures d k (next v) v post
  | take, v, post =>
      if v.kind 0 = .endOfInput then post true .same v else ∀ v, post true .moved v
  | report _, v, post => post false .noted v
  | cutRange, v, post =>
      if v.kind 0 = .unicodeRange then
        ∀ v, v.kind 0 = .ident → (v.text 0).length ≤ 1 → post true .cut v
      else post true .same v
  | seq first next, v, post =>
      Ensures d k first v fun matched g v =>
        if g = .moved then
          Total d (next matched) ∧ (∀ v, post true .moved v) ∧
            (Accepts (next matched) ∨ ∀ v, post false .moved v)
        else Ensures d k (next matched) v fun matched g' v => post matched (g.comp g') v
  | many body, v, post =>
      Total d body ∧
        (∀ v, Ensures d Nonterminal.topRank body v fun matched g _ =>
          matched = true → g = .moved) ∧
        Ensures d k body v fun matched g v =>
          if matched then g = .moved ∧ ∀ v, post true .moved v else post true g v
  | node _ body, v, post =>
      Ensures d k body v fun matched g v =>
        post matched (if matched then Grade.noted.comp g else g) v
  | wrap _ first more body, v, post =>
      Total d body ∧
        (∀ n v, more n v = true →
          Ensures d Nonterminal.topRank body v (fun _ g _ => g = .moved) ∨
          ∀ v, more (n + 1) v = false) ∧
        Ensures d k first v fun matched g v =>
          if matched then g = .moved ∧ ∀ v, post true .moved v else post false g v
  | attempt body, v, post =>
      Ensures d k body v (fun matched g v => matched = true → post true g v) ∧ post false .same v
  | call name, v, post =>
      name.isOf d = true ∧ name.rank < k ∧
        (∀ g, name.MayMatch v g → if g = .moved then ∀ v, post true .moved v else post true g v) ∧
        ∀ g, name.MayFail d v g → if g = .moved then ∀ v, post false .moved v else post false g v

end

lemma Total.nested {d : Dialect} {r : Rule} (h : r.Total d) : r.Nested := by
  induction r with
  | look next ih => exact fun v => ih v (h v)
  | seq first next hfirst hnext => exact ⟨hfirst h.1, fun matched => hnext matched (h.2 matched)⟩
  | many body ih => exact ih h.1
  | node kind body ih => exact ih h
  | wrap kind first more body hfirst hbody => exact ⟨h.1, hfirst h.2.1, hbody h.2.2.1⟩
  | attempt body ih => exact ih h
  | _ => trivial

end Rule

end StyleSheet
