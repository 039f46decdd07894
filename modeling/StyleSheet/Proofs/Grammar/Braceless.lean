import Mathlib
import StyleSheet.Proofs.Grammar.Closing

/-!
# Values without braces

In a clean run, rules take no braces by themselves (`Rule.Spares`). Those of values call other
values only, except where they have reported a fault and skip ahead (`Rule.CallsOnly`). So a value
of CSS that is read without a fault holds no brace (`braces_of_value`).
-/

namespace StyleSheet

namespace Rule

/-- Behind this rule there is a fault. -/
def Fails : Rule → Prop
  | report _ => True
  | _ => False

/-- As long as there is no fault, the rule calls nonterminals of a class only. -/
def CallsOnly (Q : Nonterminal → Prop) : Rule → Prop
  | done _ | take | report _ | cutRange => True
  | look next => ∀ v, CallsOnly Q (next v)
  | seq first next => CallsOnly Q first ∧ (first.Fails ∨ ∀ m, CallsOnly Q (next m))
  | many body | node _ body | attempt body => CallsOnly Q body
  | wrap _ first _ body => CallsOnly Q first ∧ CallsOnly Q body
  | call name => Q name

section

variable {Q : Nonterminal → Prop}

attribute [simp] CallsOnly Fails

@[simp] lemma callsOnly_ite (c : Prop) [Decidable c] (a b : Rule) :
    CallsOnly Q (if c then a else b) ↔ (c → CallsOnly Q a) ∧ (¬ c → CallsOnly Q b) := by
  split <;> simp_all

@[simp] lemma callsOnly_accept : CallsOnly Q accept := trivial

@[simp] lemma callsOnly_fail : CallsOnly Q fail := trivial

@[simp] lemma callsOnly_test (c : View → Bool) : CallsOnly Q (test c) := fun _ => trivial

@[simp] lemma callsOnly_choose (c : View → Bool) (a b : Rule) :
    CallsOnly Q (choose c a b) ↔
      ∀ v, (c v = true → CallsOnly Q a) ∧ (c v = false → CallsOnly Q b) := by
  simp [choose]

@[simp] lemma callsOnly_when (c : View → Bool) (a : Rule) :
    CallsOnly Q (when c a) ↔ ∀ v, c v = true → CallsOnly Q a := by
  simp [when]

@[simp] lemma callsOnly_then (a b : Rule) :
    CallsOnly Q (a >> b) ↔ CallsOnly Q a ∧ (a.Fails ∨ CallsOnly Q b) := by
  change CallsOnly Q a ∧ (a.Fails ∨ ∀ _ : Bool, CallsOnly Q b) ↔ _
  simp

@[simp] lemma callsOnly_or (a b : Rule) :
    CallsOnly Q (a ||| b) ↔ CallsOnly Q a ∧ (a.Fails ∨ CallsOnly Q b) := by
  change CallsOnly Q a ∧ (a.Fails ∨ ∀ m : Bool, CallsOnly Q (if m = true then accept else b)) ↔ _
  simp

@[simp] lemma callsOnly_and (a b : Rule) :
    CallsOnly Q (a &&& b) ↔ CallsOnly Q a ∧ (a.Fails ∨ CallsOnly Q b) := by
  change CallsOnly Q a ∧ (a.Fails ∨ ∀ m : Bool, CallsOnly Q (if m = true then b else fail)) ↔ _
  simp

@[simp] lemma callsOnly_token (kind : TokenKind) : CallsOnly Q (token kind) := by simp [token]

@[simp] lemma callsOnly_group (kind : NodeKind) (body : Rule) :
    CallsOnly Q (group kind body) ↔ CallsOnly Q body := by
  simp [group]

@[simp] lemma callsOnly_leaf (kind : NodeKind) : CallsOnly Q (leaf kind) := by simp [leaf]

@[simp] lemma callsOnly_close (kind : TokenKind) (fault : Fault) (stop : List TokenKind) :
    CallsOnly Q (close kind fault stop) := by
  simp [close]

end

/-! ## Runs without braces -/

/-- What is asked of the rule of a phase, for a clean run without braces. -/
def Braceless (Q : Nonterminal → Prop) : Phase → Spot → Yield → Prop
  | .rule r, s, y => CallsOnly Q r → Spares .css true r false s.view → y.braces = []
  | .layers _ f body count inner, s, y => CallsOnly Q body →
      (count = 0 → f 0 s.view = true → Spares .css true body false s.view) →
      (∀ k v, f (k + 1) v = true → Spares .css true body false v) → inner.braces = [] →
      y.braces = []

variable {C : Calls} {s s' : Spot} {m : Bool} {y : Yield}

/-- What has been read before the rest of a `wrap` has no more faults than the whole. -/
lemma faults_inner {d : Dialect} {phase : Phase} (h : Reads d C phase s m y s') :
    ∀ kind f body count inner, phase = .layers kind f body count inner → y.faults = [] →
      inner.faults = [] := by
  induction h with
  | layer _ _ _ _ ih =>
      rintro kind f body count inner ⟨⟩ hclean
      have hinner := ih _ _ _ _ _ rfl hclean
      simp only [Yield.faults, Yield.faults_append, List.append_nil,
        List.append_eq_nil_iff] at hinner
      exact hinner.1
  | enough _ =>
      rintro kind f body count inner ⟨⟩ hclean
      exact hclean
  | _ => rintro kind f body count inner ⟨⟩

lemma Fails.faults_ne {d : Dialect} {r : Rule} (hr : r.Fails) (h : Reads d C (.rule r) s m y s') :
    y.faults ≠ [] := by
  cases r with
  | report fault =>
      obtain ⟨-, rfl, -⟩ := reads_report.1 h
      simp [Yield.faults]
  | _ => cases hr

lemma isRash_css (kind : NodeKind) : kind.isRash .css = false := by simp

/-- A clean run that calls nothing with braces takes none. -/
theorem Reads.braceless {Q : Nonterminal → Prop} (hC : Honest .css C)
    (hcalls : ∀ name s m y s', Q name → C name s m y s' → s.Sound → name.Due s.view →
      y.faults = [] → y.braces = [])
    {phase : Phase} (h : Reads .css C phase s m y s') (hs : s.Sound) (hclean : y.faults = []) :
    Braceless Q phase s y := by
  induction h with
  | done matched s => exact fun _ _ => rfl
  | look _ ih => exact fun hr hspares => ih hs hclean (hr _) hspares
  | take s =>
      rintro - (hfree | hbrace)
      · cases hfree
      · exact Grammar.braces_taken_of_not_isBrace hbrace
  | report f s => exact fun _ _ => rfl
  | cutRange s => exact fun _ _ => rfl
  | @seq first next s s' s'' m m' y z h₁ h₂ ih ih' =>
      intro hr hspares
      rw [Yield.faults_append, List.append_eq_nil_iff] at hclean
      have hsees := h₁.sees true hC hs fun _ => hclean.1
      rcases hr.2 with hfails | hnext
      · exact absurd hclean.1 (hfails.faults_ne h₁)
      · rw [Yield.braces_append, ih hs hclean.1 hr.1 hspares.1,
          ih' (hC.reads h₁ hs).sound hclean.2 (hnext m) (hspares.2 m _ hsees)]
        rfl
  | again h₁ h₂ ih ih' =>
      intro hr hspares
      rw [Yield.faults_append, List.append_eq_nil_iff] at hclean
      rw [Yield.braces_append, ih hs hclean.1 hr (hspares _),
        ih' (hC.reads h₁ hs).sound hclean.2 hr hspares]
      rfl
  | stop _ ih => exact fun hr hspares => ih hs hclean hr (hspares _)
  | @node kind body s s' y _ ih =>
      intro hr hspares
      rw [Yield.braces_node]
      have hbody := hspares.2
      rw [isRash_css, Bool.and_false] at hbody
      exact ih hs (by simpa [Yield.faults] using hclean) hr hbody
  | @drop kind body s s' y _ ih =>
      intro hr hspares
      have hbody := hspares.2
      rw [isRash_css, Bool.and_false] at hbody
      exact ih hs hclean hr hbody
  | wrap h₁ h₂ ih ih' =>
      intro hr hspares
      have hinner := faults_inner h₂ _ _ _ _ _ rfl hclean
      have hsees := h₁.sees true hC hs fun _ => hinner
      exact ih' (hC.reads h₁ hs).sound hclean hr.2 (fun _ => hspares.2.1 _ hsees) hspares.2.2
        (ih hs hinner hr.1 hspares.1)
  | unwrapped _ ih => exact fun hr hspares => ih hs hclean hr.1 hspares.1
  | attempt _ _ ih => exact fun hr hspares => ih hs hclean hr hspares
  | back _ _ _ => exact fun _ _ => rfl
  | call h => exact fun hr hspares => hcalls _ _ _ _ _ hr h hs hspares.1 hclean
  | @layer kind f body count inner y z s s' s'' m hmore h₁ h₂ ih ih' =>
      intro hr hfirst hlater hinner
      have hboth := faults_inner h₂ _ _ _ _ _ rfl hclean
      simp only [Yield.faults, Yield.faults_append, List.append_nil,
        List.append_eq_nil_iff] at hboth
      have hspares : Spares .css true body false s.view := by
        cases count with
        | zero => exact hfirst rfl hmore
        | succ count => exact hlater count _ hmore
      refine ih' (hC.reads h₁ hs).sound hclean hr (by simp) hlater ?_
      rw [Yield.braces_node, Yield.braces_append, hinner, ih hs hboth.2 hr hspares]
      rfl
  | enough _ => exact fun _ _ _ hinner => hinner

end Rule

namespace Grammar

open Rule

/-- The nonterminals of values in CSS. -/
def IsValue : Nonterminal → Prop
  | .expression _ | .binary _ | .term | .unsignedTerm | .arguments | .argument | .ident
  | .interpolation => True
  | _ => False

attribute [local simp] IsValue

lemma callsOnly_identPieces : CallsOnly IsValue (identPieces .css) := by
  simp [identPieces, identPiece, furtherPiece]

lemma callsOnly_named : CallsOnly IsValue (named .css) := by
  simp [named, uriLiteral, progid, identOrCall]

lemma callsOnly_unsignedTerm : CallsOnly IsValue (unsignedTerm .css) := by
  intro v
  dsimp only
  split <;> simp [callsOnly_named, hexColor, bracketed, parenthesized]

/-- Without a fault, values of CSS call only values. -/
lemma callsOnly_value {name : Nonterminal} (h : IsValue name) :
    CallsOnly IsValue (rule .css name) := by
  cases name with
  | expression single => simp [rule, expression]
  | binary level => simp [rule, binary, operator]
  | term => simp [rule, term, operator]
  | unsignedTerm => exact callsOnly_unsignedTerm
  | arguments => simp [rule, arguments]
  | argument => simp [rule, argument, operator]
  | ident => simp [rule, ident, callsOnly_identPieces]
  | interpolation => simp [rule, interpolation]
  | _ => cases h

/-- A value of CSS that is read without a fault holds no brace. -/
theorem braces_of_value {depth : Nat} :
    ∀ name s m y s', IsValue name → Yields .css depth name s m y s' → s.Sound →
    name.Due s.view → y.faults = [] → y.braces = [] := by
  induction depth with
  | zero =>
      intro name s m y s' _ h
      cases h
  | succ depth ih =>
      intro name s m y s' hname h hs hdue hclean
      by_cases hbraces : bracesIn name = true
      · -- CSS has no interpolated values.
        cases name with
        | interpolation =>
            obtain ⟨-, rfl, -⟩ := reads_done.1 h
            rfl
        | balanced => cases hname
        | block item missing => cases hname
        | _ => cases hbraces
      · exact Reads.braceless (honest_yields .css depth) ih h hs hclean (callsOnly_value hname)
          (spares_rule (by simpa using hbraces) hdue (by simp))

end Grammar

end StyleSheet
