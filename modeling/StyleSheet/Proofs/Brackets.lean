import Mathlib
import StyleSheet.Proofs.Grammar.Braceless

/-!
# Brackets

Parentheses, square brackets and braces enclose groups. `Brackets.follow` goes along a row of kinds
and keeps the closers of the groups that are open; it has a value as long as each closer is the one
that is due. Outside of all groups it accepts neither a semicolon nor an exclamation mark, since
these end a value. A row that it accepts with nothing open before and behind it is `Whole`: it
consists of single tokens and of groups that are whole rows in brackets (`whole_of_follow`).

`Rule.Pairs` computes from a rule what it needs for this in a run without a fault, and `Reads.pairs`
says that it is enough.
-/

namespace StyleSheet

namespace TokenKind

/-- The kind that closes a group which is opened by a token of this kind. -/
def closer? : TokenKind → Option TokenKind
  | .leftParen => some .rightParen
  | .leftBracket => some .rightBracket
  | .leftBrace | .hashBrace | .atBrace => some .rightBrace
  | _ => none

/-- Whether a token of this kind closes a group. -/
def isCloser (kind : TokenKind) : Bool := [rightParen, rightBracket, rightBrace].contains kind

/-- Whether a token of this kind ends a value where no group is open. -/
def endsValue (kind : TokenKind) : Bool := [semicolon, bang].contains kind

lemma isCloser_of_closer? {kind closer : TokenKind} (h : kind.closer? = some closer) :
    closer.isCloser = true := by
  unfold closer? at h
  split at h <;> cases h <;> rfl

/-- An opening token closes nothing and ends nothing. -/
lemma facts_of_closer? {kind closer : TokenKind} (h : kind.closer? = some closer) :
    kind.isCloser = false ∧ kind ≠ .endOfInput ∧ kind.endsValue = false := by
  unfold closer? at h
  split at h <;> first | exact ⟨rfl, by simp, rfl⟩ | cases h

end TokenKind

namespace Brackets

open TokenKind

/-! ## Following a row -/

/-- A token that neither opens nor closes a group. With `top`, it does not end a value either. -/
def IsPlain (top : Bool) (kind : TokenKind) : Prop :=
  kind.closer? = none ∧ kind.isCloser = false ∧ kind ≠ .endOfInput ∧
    (top = true → kind.endsValue = false)

/-- The closers that are due behind a token, the innermost first, if those of `due` are due before
it. -/
def step (due : List TokenKind) (kind : TokenKind) : Option (List TokenKind) :=
  match kind.closer? with
  | some closer => some (closer :: due)
  | none =>
    if kind.isCloser then if due.head? = some kind then some due.tail else none
    else if kind = .endOfInput || (due.isEmpty && kind.endsValue) then none
    else some due

/-- The closers that are due behind a row of tokens. -/
def follow (due : List TokenKind) (row : List TokenKind) : Option (List TokenKind) :=
  row.foldlM step due

variable {top : Bool} {kind closer opener : TokenKind} {due due' due'' row row' : List TokenKind}

/-- What one token can do. -/
lemma step_cases (h : step due kind = some due') :
    (∃ closer, kind.closer? = some closer ∧ due' = closer :: due) ∨ due = kind :: due' ∨
      (IsPlain due.isEmpty kind ∧ due' = due) := by
  unfold step at h
  split at h
  · rename_i closer hopens
    exact .inl ⟨closer, hopens, by simpa using h.symm⟩
  · rename_i hnone
    split at h
    · split at h
      · rename_i hhead
        cases h
        exact .inr (.inl (List.eq_cons_of_mem_head? hhead))
      · cases h
    · rename_i hcloser
      split at h
      · cases h
      · rename_i hplain
        cases h
        simp only [Bool.or_eq_true, Bool.and_eq_true, decide_eq_true_eq, not_or, not_and,
          Bool.not_eq_true] at hcloser hplain
        exact .inr (.inr ⟨⟨hnone, hcloser, hplain⟩, rfl⟩)

@[simp] lemma follow_nil : follow due [] = some due := rfl

lemma follow_append (h : follow due row = some due') (h' : follow due' row' = some due'') :
    follow due (row ++ row') = some due'' := by
  rw [follow, List.foldlM_append]
  exact (congrArg (· >>= fun due => List.foldlM step due row') h).trans h'

/-! ## Whole rows -/

/-- A row of single tokens and of groups. With `top`, no token ends a value outside of the
groups. -/
inductive Whole : Bool → List TokenKind → Prop
  | nil {top : Bool} : Whole top []
  | plain {top : Bool} {kind : TokenKind} {row : List TokenKind} :
      IsPlain top kind → Whole top row → Whole top (kind :: row)
  | group {top : Bool} {opener closer : TokenKind} {inner row : List TokenKind} :
      opener.closer? = some closer → Whole false inner → Whole top row →
        Whole top (opener :: (inner ++ closer :: row))

/-- A row that closes the groups which are due, each behind a whole row, and then is whole. -/
def Closes : List TokenKind → List TokenKind → Prop
  | [], row => Whole true row
  | closer :: due, row =>
      ∃ inner rest, row = inner ++ closer :: rest ∧ Whole false inner ∧ Closes due rest

lemma Closes.plain (h : Closes due row) (hkind : IsPlain due.isEmpty kind) :
    Closes due (kind :: row) := by
  cases due with
  | nil => exact .plain hkind h
  | cons closer due =>
      obtain ⟨inner, rest, rfl, hinner, hrest⟩ := h
      exact ⟨kind :: inner, rest, rfl, .plain hkind hinner, hrest⟩

lemma Closes.group {inner : List TokenKind} (h : Closes due row)
    (hopener : opener.closer? = some closer) (hinner : Whole false inner) :
    Closes due (opener :: (inner ++ closer :: row)) := by
  cases due with
  | nil => exact .group hopener hinner h
  | cons outer due =>
      obtain ⟨inner', rest, rfl, hinner', hrest⟩ := h
      exact ⟨opener :: (inner ++ closer :: inner'), rest,
        by simp, .group hopener hinner hinner', hrest⟩

lemma closes_of_follow (h : follow due row = some []) : Closes due row := by
  induction row generalizing due with
  | nil =>
      obtain rfl : due = [] := by simpa using h
      exact .nil
  | cons kind row ih =>
      obtain ⟨due', hstep, hrow⟩ := Option.bind_eq_some_iff.1 h
      rcases step_cases hstep with ⟨closer, hopener, rfl⟩ | rfl | ⟨hplain, rfl⟩
      · obtain ⟨inner, rest, rfl, hinner, hrest⟩ := ih hrow
        exact hrest.group hopener hinner
      · exact ⟨[], row, rfl, .nil, ih hrow⟩
      · exact (ih hrow).plain hplain

/-- A row that is followed with nothing due before and behind it is whole. -/
theorem whole_of_follow (h : follow [] row = some []) : Whole true row := closes_of_follow h

end Brackets

open Brackets

/-! ## Rules -/

namespace Rule

/-- In a run without a fault from where `v` is seen, the rule closes no group but those of `due` and
those that it opens, and behind it `post` holds of whether it matched and of what is due. The
nonterminals of `Q` leave what is due as it is. -/
def Pairs (d : Dialect) (Q : Nonterminal → Prop) :
    Rule → View → List TokenKind → (Bool → List TokenKind → Prop) → Prop
  | done matched, _, due, post => post matched due
  | look next, v, due, post => Pairs d Q (next v) v due post
  | take, v, due, post =>
      if v.kind 0 = .endOfInput then post true due
      else ∃ due', step due (v.kind 0) = some due' ∧ post true due'
  | report _, _, _, _ => True
  | seq first next, v, due, post =>
      Pairs d Q first v due fun m due' =>
        ∀ v', After d true first v m v' → Pairs d Q (next m) v' due' post
  | many body, _, due, post => (∀ v, Pairs d Q body v due fun _ due' => due' = due) ∧ post true due
  | node _ body, v, due, post => Pairs d Q body v due post
  | wrap _ first more body, v, due, post =>
      Pairs d Q first v due (fun m due' => if m then due' = due else post false due') ∧
        (∀ v', After d true first v true v' → more 0 v' = true →
          Pairs d Q body v' due fun _ due' => due' = due) ∧
        (∀ k v, more (k + 1) v = true → Pairs d Q body v due fun _ due' => due' = due) ∧
        post true due
  | call name, v, due, post => Q name ∧ name.Due v ∧ ∀ m, post m due
  | cutRange, _, _, _ | attempt _, _, _, _ => False

section

variable {d : Dialect} {Q : Nonterminal → Prop} {v : View} {due : List TokenKind}
  {post : Bool → List TokenKind → Prop}

attribute [simp] Pairs

@[simp] lemma pairs_ite (c : Prop) [Decidable c] (a b : Rule) :
    Pairs d Q (if c then a else b) v due post ↔
      (c → Pairs d Q a v due post) ∧ (¬ c → Pairs d Q b v due post) := by
  split <;> simp_all

@[simp] lemma pairs_accept : Pairs d Q accept v due post ↔ post true due := Iff.rfl

@[simp] lemma pairs_fail : Pairs d Q fail v due post ↔ post false due := Iff.rfl

@[simp] lemma pairs_test (c : View → Bool) : Pairs d Q (test c) v due post ↔ post (c v) due :=
  Iff.rfl

@[simp] lemma pairs_choose (c : View → Bool) (a b : Rule) :
    Pairs d Q (choose c a b) v due post ↔
      (c v = true → Pairs d Q a v due post) ∧ (c v = false → Pairs d Q b v due post) := by
  simp [choose]

@[simp] lemma pairs_when (c : View → Bool) (a : Rule) :
    Pairs d Q (when c a) v due post ↔
      (c v = true → Pairs d Q a v due post) ∧ (c v = false → post false due) := by
  simp [when]

@[simp] lemma pairs_then (a b : Rule) :
    Pairs d Q (a >> b) v due post ↔
      Pairs d Q a v due fun m due' => ∀ v', After d true a v m v' → Pairs d Q b v' due' post :=
  Iff.rfl

@[simp] lemma pairs_or (a b : Rule) :
    Pairs d Q (a ||| b) v due post ↔ Pairs d Q a v due fun m due' => ∀ v', After d true a v m v' →
      (m = true → post true due') ∧ (m = false → Pairs d Q b v' due' post) := by
  change Pairs d Q a v due (fun m due' => ∀ v', After d true a v m v' →
    Pairs d Q (if m = true then accept else b) v' due' post) ↔ _
  simp

@[simp] lemma pairs_and (a b : Rule) :
    Pairs d Q (a &&& b) v due post ↔ Pairs d Q a v due fun m due' => ∀ v', After d true a v m v' →
      (m = true → Pairs d Q b v' due' post) ∧ (m = false → post false due') := by
  change Pairs d Q a v due (fun m due' => ∀ v', After d true a v m v' →
    Pairs d Q (if m = true then b else fail) v' due' post) ↔ _
  simp

@[simp] lemma pairs_group (kind : NodeKind) (body : Rule) :
    Pairs d Q (group kind body) v due post ↔
      Pairs d Q body v due fun m due' => ∀ v', After d true body v m v' → post true due' := Iff.rfl

@[simp] lemma pairs_leaf (kind : NodeKind) :
    Pairs d Q (leaf kind) v due post ↔ Pairs d Q take v due post := Iff.rfl

@[simp] lemma pairs_token {kind : TokenKind} (hkind : kind ≠ .endOfInput) :
    Pairs d Q (token kind) v due post ↔
      (v.kind 0 = kind → ∃ due', step due kind = some due' ∧ post true due') ∧
        (v.kind 0 ≠ kind → post false due) := by
  by_cases h : v.kind 0 = kind <;> simp [token, h, hkind]

@[simp] lemma pairs_expect {kind : TokenKind} (hkind : kind ≠ .endOfInput) (fault : Fault) :
    Pairs d Q (expect kind fault) v due post ↔
      (v.kind 0 = kind → ∃ due', step due kind = some due' ∧ post true due') := by
  by_cases h : v.kind 0 = kind <;> simp [expect, h, hkind]

/-- Behind a closing token whose absence is a fault, one group less is due. -/
@[simp] lemma pairs_close {kind : TokenKind} (hkind : kind ≠ .endOfInput) (fault : Fault)
    (stop : List TokenKind) :
    Pairs d Q (close kind fault stop) v due post ↔
      (v.kind 0 = kind → ∃ due', step due kind = some due' ∧ post true due') := by
  by_cases h : v.kind 0 = kind <;> simp [close, h, hkind]

end

end Rule

/-! ## Runs without a fault -/

/-- The tokens of `l` lie between two spots, and they take what is due from `due` to `due'`. -/
structure Spot.Follows (s : Spot) (due : List TokenKind) (l : List Token) (due' : List TokenKind)
    (s' : Spot) : Prop where
  ahead : s.ahead = l ++ s'.ahead
  follow : follow due (l.map Token.kind) = some due'

namespace Spot.Follows

variable {s s' s'' : Spot} {due due' due'' : List TokenKind} {l l' : List Token}

lemma refl (s : Spot) (due : List TokenKind) : s.Follows due [] due s := ⟨rfl, rfl⟩

lemma trans (h : s.Follows due l due' s') (h' : s'.Follows due' l' due'' s'') :
    s.Follows due (l ++ l') due'' s'' where
  ahead := by rw [h.ahead, h'.ahead, List.append_assoc]
  follow := by
    rw [List.map_append]
    exact follow_append h.follow h'.follow

/-- Taking a token. -/
lemma taken (hs : s.Sound) {post : Bool → List TokenKind → Prop}
    (h : if s.view.kind 0 = .endOfInput then post true due
      else ∃ due', step due (s.view.kind 0) = some due' ∧ post true due') :
    ∃ due', s.Follows due s.taken.tokens due' s.next ∧ post true due' := by
  cases hahead : s.ahead with
  | nil =>
      rw [if_pos (hs.kind_eq_end.2 hahead)] at h
      rw [Spot.taken_of_nil hahead, Spot.next_of_nil hahead]
      exact ⟨due, .refl s due, h⟩
  | cons t rest =>
      have hkind : s.view.kind 0 = t.kind := by simp [Spot.kind_view, hahead]
      rw [if_neg (by rw [hs.kind_eq_end, hahead]; simp), hkind] at h
      obtain ⟨due', hstep, hpost⟩ := h
      refine ⟨due', ⟨?_, ?_⟩, hpost⟩
      · rw [hahead, Spot.taken_of_cons hahead, Spot.next_of_cons hahead]
        rfl
      · rw [Spot.taken_of_cons hahead]
        simpa [Brackets.follow, Yield.tokens] using hstep

end Spot.Follows

namespace Rule

/-- What follows for a phase from what its rules need. -/
def Paired (d : Dialect) (Q : Nonterminal → Prop) : Phase → Spot → Bool → Yield → Spot → Prop
  | .rule r, s, m, y, s' => ∀ due post, Pairs d Q r s.view due post →
      ∃ due', s.Follows due y.tokens due' s' ∧ post m due'
  | .layers _ more body count inner, s, _, y, s' => ∀ due,
      (count = 0 → more 0 s.view = true → Pairs d Q body s.view due fun _ due' => due' = due) →
      (∀ k v, more (k + 1) v = true → Pairs d Q body v due fun _ due' => due' = due) →
        ∃ l, y.tokens = inner.tokens ++ l ∧ s.Follows due l due s'

/-- A run without a fault pairs the brackets of its tokens, if the rule says so and all calls do. -/
theorem Reads.pairs {d : Dialect} {C : Calls} {Q : Nonterminal → Prop} (hC : Honest d C)
    (hcalls : ∀ name s m y s', Q name → C name s m y s' → s.Sound → name.Due s.view →
      y.faults = [] →
      ∀ due, s.Follows due y.tokens due s')
    {phase : Phase} {s s' : Spot} {m : Bool} {y : Yield} (h : Reads d C phase s m y s')
    (hs : s.Sound) (hclean : y.faults = []) : Paired d Q phase s m y s' := by
  induction h with
  | done matched s => exact fun due post hpost => ⟨due, .refl s due, hpost⟩
  | look _ ih => exact fun due post hpairs => ih hs hclean due post hpairs
  | take s => exact fun due post hpairs => Spot.Follows.taken hs hpairs
  | report f s => cases hclean
  | cutRange s => exact fun due post hpairs => hpairs.elim
  | seq h₁ h₂ ih ih' =>
      intro due post hpairs
      rw [Yield.faults_append, List.append_eq_nil_iff] at hclean
      have hsees := h₁.sees true hC hs fun _ => hclean.1
      obtain ⟨due₁, hfirst, hnext⟩ := ih hs hclean.1 due _ hpairs
      obtain ⟨due₂, hsecond, hpost⟩ := ih' (hC.reads h₁ hs).sound hclean.2 due₁ post (hnext _ hsees)
      exact ⟨due₂, Yield.tokens_append _ _ ▸ hfirst.trans hsecond, hpost⟩
  | again h₁ h₂ ih ih' =>
      intro due post hpairs
      rw [Yield.faults_append, List.append_eq_nil_iff] at hclean
      obtain ⟨due₁, hround, rfl⟩ := ih hs hclean.1 due _ (hpairs.1 _)
      obtain ⟨due₂, hrest, hpost⟩ := ih' (hC.reads h₁ hs).sound hclean.2 due₁ post hpairs
      exact ⟨due₂, Yield.tokens_append _ _ ▸ hround.trans hrest, hpost⟩
  | stop _ ih =>
      intro due post hpairs
      obtain ⟨due₁, hround, rfl⟩ := ih hs hclean due _ (hpairs.1 _)
      exact ⟨due₁, hround, hpairs.2⟩
  | node _ ih =>
      intro due post hpairs
      obtain ⟨due', hbody, hpost⟩ := ih hs (by simpa [Yield.faults] using hclean) due post hpairs
      exact ⟨due', by simpa [Yield.tokens] using hbody, hpost⟩
  | drop _ ih => exact fun due post hpairs => ih hs hclean due post hpairs
  | wrap h₁ h₂ ih ih' =>
      intro due post hpairs
      have hinner := faults_inner h₂ _ _ _ _ _ rfl hclean
      have hsees := h₁.sees true hC hs fun _ => hinner
      obtain ⟨due₁, hfirst, rfl⟩ := ih hs hinner due _ hpairs.1
      obtain ⟨l, htokens, hlayers⟩ := ih' (hC.reads h₁ hs).sound hclean due₁
        (fun _ => hpairs.2.1 _ hsees) hpairs.2.2.1
      exact ⟨due₁, htokens ▸ hfirst.trans hlayers, hpairs.2.2.2⟩
  | unwrapped _ ih =>
      intro due post hpairs
      obtain ⟨due', hfirst, hpost⟩ := ih hs hclean due _ hpairs.1
      exact ⟨due', hfirst, hpost⟩
  | attempt _ _ _ => exact fun due post hpairs => hpairs.elim
  | back _ _ _ => exact fun due post hpairs => hpairs.elim
  | call h =>
      exact fun due post hpairs =>
        ⟨due, hcalls _ _ _ _ _ hpairs.1 h hs hpairs.2.1 hclean due, hpairs.2.2 _⟩
  | @layer kind more body count inner y z s s' s'' m hmore h₁ h₂ ih ih' =>
      intro due hfirst hlater
      have hboth := faults_inner h₂ _ _ _ _ _ rfl hclean
      simp only [Yield.faults, Yield.faults_append, List.append_nil,
        List.append_eq_nil_iff] at hboth
      have hpairs : Pairs d Q body s.view due fun _ due' => due' = due := by
        cases count with
        | zero => exact hfirst rfl hmore
        | succ count => exact hlater count _ hmore
      obtain ⟨due₁, hbody, rfl⟩ := ih hs hboth.2 due _ hpairs
      obtain ⟨l, htokens, hlayers⟩ := ih' (hC.reads h₁ hs).sound hclean due₁ (by simp) hlater
      exact ⟨y.tokens ++ l, by simpa [Yield.tokens] using htokens, hbody.trans hlayers⟩
  | enough _ => exact fun due _ _ => ⟨[], by simp, .refl _ due⟩

end Rule

end StyleSheet
