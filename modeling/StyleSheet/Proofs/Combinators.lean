import Mathlib
import StyleSheet.Proofs.Analysis

/-!
# The analysis of larger rules

How `Rule.Total`, `Rule.Accepts` and `Rule.Ensures` see through the rules that the grammar is
written with. All of it is meant for `simp`: what is left of a rule then is a statement about the
tokens ahead.
-/

namespace StyleSheet.Rule

variable {d : Dialect} {k : Nat} {v : View} {post : Post}

instance : Nonempty View := ⟨⟨fun _ => .endOfInput, fun _ => [], fun _ => false, none⟩⟩

attribute [simp] isNodeName Noded Accepts

attribute [simp] Nonterminal.rank Nonterminal.topRank Nonterminal.isOf Nonterminal.isSure
  Nonterminal.MayMatch Nonterminal.MayFail Nonterminal.Promise

@[simp] lemma is_eq_true {n : Nat} {kind : TokenKind} : v.is n kind = true ↔ v.kind n = kind := by
  simp [View.is]

@[simp] lemma is_eq_false {n : Nat} {kind : TokenKind} : v.is n kind = false ↔ v.kind n ≠ kind := by
  simp [View.is]

lemma kind_of_isWord {n : Nat} {w : String} (h : v.isWord n w = true) : v.kind n = .ident := by
  simp only [View.isWord, Bool.and_eq_true, is_eq_true] at h
  exact h.1

lemma kind_of_isKeyword {w : String} (h : v.isKeyword w = true) : v.kind 0 = .atKeyword := by
  simp only [View.isKeyword, Bool.and_eq_true, is_eq_true] at h
  exact h.1

lemma isWord_of_end {n : Nat} {w : String} (h : v.kind n = .endOfInput) : v.isWord n w = false := by
  simp [View.isWord, h]

/-! ## The forms of rules -/

/-- A rule that may be repeated: a round that matches has taken a token. -/
def Loops (d : Dialect) (body : Rule) : Prop :=
  Total d body ∧
    ∀ v, Ensures d Nonterminal.topRank body v fun matched g _ => matched = true → g = .moved

/-- A rule that may read the rest of the nodes of a `wrap`: a round has taken a token or is the last
one. -/
def Rounds (d : Dialect) (more : Nat → View → Bool) (body : Rule) : Prop :=
  Total d body ∧ ∀ n v, more n v = true →
    Ensures d Nonterminal.topRank body v (fun _ g _ => g = .moved) ∨ ∀ v, more (n + 1) v = false

@[simp] lemma total_done (matched : Bool) : Total d (done matched) := trivial

@[simp] lemma total_look (next : View → Rule) : Total d (look next) ↔ ∀ v, Total d (next v) :=
  Iff.rfl

@[simp] lemma total_take : Total d take := trivial

@[simp] lemma total_report (fault : Fault) : Total d (report fault) := trivial

@[simp] lemma total_cutRange : Total d cutRange := trivial

@[simp] lemma total_seq (first : Rule) (next : Bool → Rule) :
    Total d (seq first next) ↔ Total d first ∧ ∀ matched, Total d (next matched) := Iff.rfl

@[simp] lemma total_many (body : Rule) : Total d (many body) ↔ Loops d body := Iff.rfl

@[simp] lemma total_node (kind : NodeKind) (body : Rule) :
    Total d (node kind body) ↔ Total d body := Iff.rfl

@[simp] lemma total_wrap (kind : NodeKind) (first : Rule) (more : Nat → View → Bool) (body : Rule) :
    Total d (wrap kind first more body) ↔ Noded first ∧ Total d first ∧ Rounds d more body :=
  Iff.rfl

@[simp] lemma total_attempt (body : Rule) : Total d (attempt body) ↔ Total d body := Iff.rfl

@[simp] lemma total_call (name : Nonterminal) : Total d (call name) ↔ name.isOf d = true := Iff.rfl

@[simp] lemma ensures_done (matched : Bool) :
    Ensures d k (done matched) v post ↔ post matched .same v := Iff.rfl

@[simp] lemma ensures_look (next : View → Rule) :
    Ensures d k (look next) v post ↔ Ensures d k (next v) v post := Iff.rfl

@[simp] lemma ensures_take :
    Ensures d k take v post ↔
      if v.kind 0 = .endOfInput then post true .same v else ∀ v, post true .moved v := Iff.rfl

@[simp] lemma ensures_report (fault : Fault) :
    Ensures d k (report fault) v post ↔ post false .noted v := Iff.rfl

@[simp] lemma ensures_cutRange :
    Ensures d k cutRange v post ↔
      if v.kind 0 = .unicodeRange then
        ∀ v, v.kind 0 = .ident → (v.text 0).length ≤ 1 → post true .cut v
      else post true .same v := Iff.rfl

@[simp] lemma ensures_seq (first : Rule) (next : Bool → Rule) :
    Ensures d k (seq first next) v post ↔
      Ensures d k first v fun matched g v =>
        if g = .moved then
          Total d (next matched) ∧ (∀ v, post true .moved v) ∧
            (Accepts (next matched) ∨ ∀ v, post false .moved v)
        else Ensures d k (next matched) v fun matched g' v => post matched (g.comp g') v := Iff.rfl

@[simp] lemma ensures_many (body : Rule) :
    Ensures d k (many body) v post ↔
      Loops d body ∧ Ensures d k body v fun matched g v =>
        if matched then g = .moved ∧ ∀ v, post true .moved v else post true g v := by
  simp only [Ensures, Loops, and_assoc]

@[simp] lemma ensures_node (kind : NodeKind) (body : Rule) :
    Ensures d k (node kind body) v post ↔
      Ensures d k body v fun matched g v =>
        post matched (if matched then Grade.noted.comp g else g) v := Iff.rfl

@[simp] lemma ensures_wrap (kind : NodeKind) (first : Rule) (more : Nat → View → Bool)
    (body : Rule) :
    Ensures d k (wrap kind first more body) v post ↔
      Rounds d more body ∧ Ensures d k first v fun matched g v =>
        if matched then g = .moved ∧ ∀ v, post true .moved v else post false g v := by
  simp only [Ensures, Rounds, and_assoc]

@[simp] lemma ensures_attempt (body : Rule) :
    Ensures d k (attempt body) v post ↔
      Ensures d k body v (fun matched g v => matched = true → post true g v) ∧ post false .same v :=
  Iff.rfl

@[simp] lemma ensures_call (name : Nonterminal) :
    Ensures d k (call name) v post ↔
      name.isOf d = true ∧ name.rank < k ∧
        (∀ g, name.MayMatch v g → if g = .moved then ∀ v, post true .moved v else post true g v) ∧
        ∀ g, name.MayFail d v g → if g = .moved then ∀ v, post false .moved v else post false g v :=
  Iff.rfl

/-! ## Conditions -/

@[simp] lemma accepts_ite (c : Prop) [Decidable c] (a b : Rule) :
    Accepts (if c then a else b) ↔ (c → Accepts a) ∧ (¬ c → Accepts b) := by
  split <;> simp_all

@[simp] lemma total_ite (c : Prop) [Decidable c] (a b : Rule) :
    Total d (if c then a else b) ↔ (c → Total d a) ∧ (¬ c → Total d b) := by
  split <;> simp_all

@[simp] lemma ensures_ite (c : Prop) [Decidable c] (a b : Rule) :
    Ensures d k (if c then a else b) v post ↔
      (c → Ensures d k a v post) ∧ (¬ c → Ensures d k b v post) := by
  split <;> simp_all

@[simp] lemma accepts_accept : Accepts accept := rfl

@[simp] lemma total_accept : Total d accept := trivial

@[simp] lemma ensures_accept : Ensures d k accept v post ↔ post true .same v := Iff.rfl

@[simp] lemma not_accepts_fail : ¬ Accepts fail := Bool.false_ne_true

@[simp] lemma total_fail : Total d fail := trivial

@[simp] lemma ensures_fail : Ensures d k fail v post ↔ post false .same v := Iff.rfl

@[simp] lemma total_test (c : View → Bool) : Total d (test c) := fun _ => trivial

@[simp] lemma ensures_test (c : View → Bool) :
    Ensures d k (test c) v post ↔ post (c v) .same v := Iff.rfl

@[simp] lemma total_choose (c : View → Bool) (a b : Rule) :
    Total d (choose c a b) ↔ ∀ v, (c v = true → Total d a) ∧ (c v = false → Total d b) := by
  simp [choose]

@[simp] lemma ensures_choose (c : View → Bool) (a b : Rule) :
    Ensures d k (choose c a b) v post ↔
      (c v = true → Ensures d k a v post) ∧ (c v = false → Ensures d k b v post) := by
  simp [choose]

/-- A choice between two rules that behave alike. -/
lemma ensures_choose_of_iff {c : View → Bool} {a b : Rule} {q : Prop}
    (ha : Ensures d k a v post ↔ q) (hb : Ensures d k b v post ↔ q) :
    Ensures d k (choose c a b) v post ↔ q := by
  by_cases hc : c v = true <;> simp [hc, ha, hb]

@[simp] lemma accepts_choose (c : View → Bool) (a b : Rule) :
    Accepts (choose c a b) ↔ ∀ v, (c v = true → Accepts a) ∧ (c v = false → Accepts b) := by
  simp [choose]

@[simp] lemma total_when (c : View → Bool) (a : Rule) :
    Total d (when c a) ↔ ∀ v, c v = true → Total d a := by
  simp [when]

@[simp] lemma ensures_when (c : View → Bool) (a : Rule) :
    Ensures d k (when c a) v post ↔
      (c v = true → Ensures d k a v post) ∧ (c v = false → post false .same v) := by
  simp [when]

/-! ## Sequences -/

@[simp] lemma accepts_then (a b : Rule) : Accepts (a >> b) ↔ Accepts b := by
  change (Bool → Accepts b) ↔ _
  simp

@[simp] lemma total_then (a b : Rule) : Total d (a >> b) ↔ Total d a ∧ Total d b := by
  change Total d a ∧ (Bool → Total d b) ↔ _
  simp

@[simp] lemma ensures_then (a b : Rule) :
    Ensures d k (a >> b) v post ↔
      Ensures d k a v fun _ g v =>
        if g = .moved then
          Total d b ∧ (∀ v, post true .moved v) ∧ (Accepts b ∨ ∀ v, post false .moved v)
        else Ensures d k b v fun matched g' v => post matched (g.comp g') v := Iff.rfl

@[simp] lemma accepts_or (a b : Rule) : Accepts (a ||| b) ↔ Accepts b := by
  change (∀ matched, Accepts (if matched = true then accept else b)) ↔ _
  simp

@[simp] lemma total_or (a b : Rule) : Total d (a ||| b) ↔ Total d a ∧ Total d b := by
  change Total d a ∧ (∀ matched, Total d (if matched = true then accept else b)) ↔ _
  simp

@[simp] lemma ensures_or (a b : Rule) :
    Ensures d k (a ||| b) v post ↔
      Ensures d k a v fun matched g v =>
        if matched then if g = .moved then ∀ v, post true .moved v else post true g v
        else if g = .moved then
          Total d b ∧ (∀ v, post true .moved v) ∧ (Accepts b ∨ ∀ v, post false .moved v)
        else Ensures d k b v fun matched g' v => post matched (g.comp g') v := by
  refine iff_of_eq (congrArg (Ensures d k a v) ?_)
  funext matched g v
  by_cases hg : g = .moved <;> cases matched <;> simp [hg]

@[simp] lemma total_and (a b : Rule) : Total d (a &&& b) ↔ Total d a ∧ Total d b := by
  change Total d a ∧ (∀ matched, Total d (if matched = true then b else fail)) ↔ _
  simp

@[simp] lemma ensures_and (a b : Rule) :
    Ensures d k (a &&& b) v post ↔
      Ensures d k a v fun matched g v =>
        if matched then
          if g = .moved then
            Total d b ∧ (∀ v, post true .moved v) ∧ (Accepts b ∨ ∀ v, post false .moved v)
          else Ensures d k b v fun matched g' v => post matched (g.comp g') v
        else if g = .moved then (∀ v, post true .moved v) ∧ ∀ v, post false .moved v
        else post false g v := by
  refine iff_of_eq (congrArg (Ensures d k a v) ?_)
  funext matched g v
  by_cases hg : g = .moved <;> cases matched <;> simp [hg, fail]

/-! ## Tokens -/

@[simp] lemma total_token (kind : TokenKind) : Total d (token kind) := by simp [token]

@[simp] lemma ensures_token (kind : TokenKind) (hkind : kind ≠ .endOfInput) :
    Ensures d k (token kind) v post ↔
      (v.kind 0 = kind → ∀ v, post true .moved v) ∧ (v.kind 0 ≠ kind → post false .same v) := by
  by_cases h : v.kind 0 = kind <;> simp [token, View.is, h, hkind]

@[simp] lemma total_word (w : String) : Total d (word w) := by simp [word]

@[simp] lemma ensures_word (w : String) :
    Ensures d k (word w) v post ↔
      (v.isWord 0 w = true → ∀ v, post true .moved v) ∧
        (v.isWord 0 w = false → post false .same v) := by
  by_cases h : v.isWord 0 w = true
  · simp [word, h, kind_of_isWord h]
  · simp [word, h]

@[simp] lemma total_expect (kind : TokenKind) (fault : Fault) : Total d (expect kind fault) := by
  simp [expect]

/-! ## Nodes -/

@[simp] lemma accepts_group (kind : NodeKind) (body : Rule) : Accepts (group kind body) := by
  simp [group]

@[simp] lemma total_group (kind : NodeKind) (body : Rule) :
    Total d (group kind body) ↔ Total d body := by
  simp [group]

@[simp] lemma ensures_group (kind : NodeKind) (body : Rule) :
    Ensures d k (group kind body) v post ↔
      Ensures d k body v fun _ g v =>
        if g = .moved then ∀ v, post true .moved v else post true (Grade.noted.comp g) v := by
  simp [group]

/-- Behind the first token, what a group consists of does not decide whether it matches. -/
@[simp high] lemma ensures_group_then (kind : NodeKind) (a b : Rule) :
    Ensures d k (group kind (a >> b)) v post ↔
      Ensures d k a v fun _ g v =>
        if g = .moved then Total d b ∧ ∀ v, post true .moved v
        else Ensures d k b v fun _ g' v =>
          if g' = .moved then ∀ v, post true .moved v
          else post true (Grade.noted.comp (g.comp g')) v := by
  rw [ensures_group, ensures_then]
  refine iff_of_eq (congrArg (Ensures d k a v) ?_)
  funext _ g v
  by_cases hg : g = .moved
  · simp +contextual [hg]
  · simp [hg]

@[simp] lemma accepts_leaf (kind : NodeKind) : Accepts (leaf kind) := trivial

@[simp] lemma total_leaf (kind : NodeKind) : Total d (leaf kind) := trivial

@[simp] lemma ensures_leaf (kind : NodeKind) :
    Ensures d k (leaf kind) v post ↔
      if v.kind 0 = .endOfInput then post true .noted v else ∀ v, post true .moved v := by
  simp [leaf]

/-! ## Loops -/

@[simp] lemma accepts_moreAfterCommas (item : Rule) (missing : Fault) :
    Accepts (moreAfterCommas item missing) := trivial

@[simp] lemma total_moreAfterCommas (item : Rule) (missing : Fault) :
    Total d (moreAfterCommas item missing) ↔ Total d item := by
  simp +contextual [moreAfterCommas, Loops]

section

variable {c : View → Bool} (hc : ∀ v, v.kind 0 = .endOfInput → c v = true)

include hc

/-- Skipping ends if it stops at the end of the input. -/
lemma loops_skip : Loops d (choose c fail (call .balanced >> accept)) := by
  have hend : ∀ v, c v = false → v.kind 0 ≠ .endOfInput := by
    intro v hv h
    rw [hc v h] at hv
    cases hv
  simp +contextual [Loops, hend]

lemma total_skipUntil : Total d (skipUntil c) := loops_skip hc

lemma ensures_skipUntil (hk : 0 < k) :
    Ensures d k (skipUntil c) v post ↔
      (c v = true → post true .same v) ∧ (c v = false → ∀ v, post true .moved v) := by
  by_cases hv : c v = true
  · simp [skipUntil, loops_skip hc, hv]
  · have hend : v.kind 0 ≠ .endOfInput := fun h => hv (hc v h)
    simp [skipUntil, loops_skip hc, hv, hend, hk]

end

lemma endOfInput_stops (consume stop : List TokenKind) (v : View) (h : v.kind 0 = .endOfInput) :
    (v.isAny consume || v.isAny stop || v.isAny [.rightBrace, .endOfInput]) = true := by
  simp [View.isAny, h]

@[simp] lemma total_resume (consume stop : List TokenKind) : Total d (resume consume stop) := by
  simp [resume, total_skipUntil (endOfInput_stops consume stop)]

@[simp] lemma ensures_resume {consume stop : List TokenKind} (hk : 0 < k)
    (hconsume : .endOfInput ∉ consume) :
    Ensures d k (resume consume stop) v post ↔
      if v.isAny consume then ∀ v, post true .moved v
      else if v.isAny (.rightBrace :: .endOfInput :: stop) then post false .same v
      else ∀ v, post true .moved v ∧ post false .moved v := by
  have hend : ∀ v : View, v.isAny consume = true → v.kind 0 ≠ .endOfInput := by
    intro v hv h
    simp [View.isAny, h, hconsume] at hv
  have hnot : ¬ Accepts (when (·.isAny consume) take) := by
    intro h
    have := h ⟨fun _ => .endOfInput, fun _ => [], fun _ => false, none⟩
    simp [View.isAny, hconsume] at this
  have hstop : (v.isAny stop || v.isAny [.rightBrace, .endOfInput]) =
      v.isAny (.rightBrace :: .endOfInput :: stop) := by
    simp only [View.isAny, List.contains_eq_mem, List.mem_cons]
    grind
  rw [resume, ensures_then, ensures_skipUntil (endOfInput_stops consume stop) hk,
    Bool.or_assoc, hstop]
  by_cases hc : v.isAny consume = true
  · simp [hc, hend v hc]
  · by_cases hs : v.isAny (.rightBrace :: .endOfInput :: stop) = true <;>
      simp [hc, hs, hnot, forall_and]

@[simp] lemma total_close (kind : TokenKind) (fault : Fault) (stop : List TokenKind) :
    Total d (close kind fault stop) := by
  simp [close]

@[simp] lemma ensures_close {kind : TokenKind} {fault : Fault} {stop : List TokenKind} (hk : 0 < k)
    (hkind : kind ≠ .endOfInput) :
    Ensures d k (close kind fault stop) v post ↔
      if v.kind 0 = kind then ∀ v, post true .moved v
      else if v.isAny (.rightBrace :: .endOfInput :: stop) then post false .noted v
      else ∀ v, post true .moved v ∧ post false .moved v := by
  have hconsume : v.isAny [kind] = decide (v.kind 0 = kind) := by simp [View.isAny]
  by_cases h : v.kind 0 = kind
  · simp [close, h, hkind]
  · simp [close, h, hkind, hk, Ne.symm hkind, hconsume]

end StyleSheet.Rule
