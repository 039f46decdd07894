import Mathlib
import StyleSheet.Proofs.Kinds
import StyleSheet.Proofs.Lookahead
import StyleSheet.Proofs.Shape

/-!
# The form of functions

A function in a tree is a name and an opening parenthesis, which its rule has seen before and then
takes without another look. If there is a token directly in the node, then the first one is the
parenthesis (`function_starts_with_parenthesis`).

Where a function is told by the token behind the first one of its name, the name must be that one
token. This is so in CSS, where names have no more, and in LESS, where an interpolated name that
starts like this is broken off at once. In SCSS it is not: behind `#` and a brace, the parenthesis
may stand inside of the interpolated value, and what is taken for it in the end is whatever follows
the name.
-/

namespace StyleSheet

open Token Grammar

namespace Yield

@[simp] lemma direct_append (y z : Yield) : (y ++ z).direct = y.direct ++ z.direct := by
  induction y with
  | nil => rfl
  | token t rest ih => simp [direct, ih]
  | fault f rest ih => simp [direct, ih]
  | node kind inner rest _ ih => simp [direct, ih]

lemma direct_subset_tokens (y : Yield) : y.direct ⊆ y.tokens := by
  induction y with
  | nil => simp [direct]
  | token t rest ih => exact List.cons_subset_cons t ih
  | fault f rest ih => exact ih
  | node kind inner rest _ ih => exact List.Subset.trans ih (List.subset_append_right _ _)

/-- What a function consists of. If it starts with an interpolated value whose first token is a
parenthesis, nothing is said. -/
def IsCall (d : Dialect) (y : Yield) : Prop :=
  ∀ t, y.direct.head? = some t →
    t.kind = .leftParen ∨ (d = .scss ∧ [.hashBrace, .leftParen] <+: y.tokens.map Token.kind)

/-- All functions have the form of a function. -/
def CallsWell (d : Dialect) (y : Yield) : Prop := ∀ n ∈ y.nodes, n.1 = .function → n.2.IsCall d

variable {d : Dialect} {y z : Yield}

lemma isCall_of_direct (h : y.direct = []) : y.IsCall d := by
  intro t ht
  simp [h] at ht

lemma callsWell_of_nodes (h : y.nodes = []) : y.CallsWell d := by
  intro n hn
  simp [h] at hn

lemma callsWell_append : (y ++ z).CallsWell d ↔ y.CallsWell d ∧ z.CallsWell d := by
  simp [CallsWell, or_imp, forall_and]

lemma callsWell_node {kind : NodeKind} :
    (node kind y .nil).CallsWell d ↔ (kind = .function → y.IsCall d) ∧ y.CallsWell d := by
  simp [CallsWell, nodes]

end Yield

/-! ## The first tokens ahead -/

/-- Tokens ahead are taken as they are, up to the first range of code points. -/
def Spot.Fronts (s : Spot) (y : Yield) (s' : Spot) : Prop :=
  ∀ front rest, s.ahead = front ++ rest → (∀ t ∈ front, t.kind ≠ .unicodeRange) →
    (∃ front' rest', front = y.tokens ++ front' ∧ s'.ahead = front' ++ rest') ∨
      ∃ more, y.tokens = front ++ more

lemma Spot.tracks_fronts (d : Dialect) : Rule.Tracks d Fronts where
  nil s front rest hahead _ := .inl ⟨front, rest, rfl, hahead⟩
  append s s' s'' y z h h' front rest hahead hfront := by
    rcases h front rest hahead hfront with ⟨front', rest', rfl, hahead'⟩ | ⟨more, hmore⟩
    · rcases h' front' rest' hahead' fun t ht => hfront t (by simp [ht]) with
        ⟨front'', rest'', rfl, hahead''⟩ | ⟨more, hmore⟩
      · exact .inl ⟨front'', rest'', by simp, hahead''⟩
      · exact .inr ⟨more, by simp [hmore]⟩
    · exact .inr ⟨more ++ z.tokens, by simp [hmore]⟩
  take s front rest hahead hfront := by
    cases front with
    | nil => exact .inr ⟨_, rfl⟩
    | cons t front =>
        refine .inl ⟨front, rest, ?_, ?_⟩
        · simp [Spot.taken_of_cons hahead, Yield.tokens]
        · rw [Spot.next_of_cons hahead]
          rfl
  fault s f front rest hahead _ := .inl ⟨front, rest, rfl, hahead⟩
  cut s front rest hahead hfront := by
    cases front with
    | nil => exact .inr ⟨_, rfl⟩
    | cons t front =>
        refine .inl ⟨t :: front, rest, rfl, ?_⟩
        rw [Spot.cut, hahead, List.cons_append, Spot.cutAhead, if_neg (hfront t (by simp))]
  node s s' kind y h := by simpa [Fronts, Yield.tokens] using h

namespace Rule

variable {d : Dialect} {C : Calls} {s s' : Spot} {m : Bool} {y : Yield} {v : View}

/-- What the rules of functions rely on: names and arguments have nodes of their own, and a name
takes a token where it has begun. -/
structure Encloses (d : Dialect) (C : Calls) : Prop extends Honest d C where
  fronts : ∀ name s m y s', C name s m y s' → s.Fronts y s'
  ident : ∀ s m y s', C .ident s m y s' → y.direct = []
  arguments : ∀ s m y s', C .arguments s m y s' → y.direct = []
  starts : ∀ s m y s', C .ident s m y s' → startsIdent d s.view = true → y.tokens ≠ []

/-- Where `v` is seen, the rule reads the inside of a function. -/
def IsCallAt (d : Dialect) (r : Rule) (v : View) : Prop :=
  ∀ ⦃C s m y s'⦄, Encloses d C → s.view = v → Reads d C (.rule r) s m y s' → y.IsCall d

/-- Where `v` is seen, all functions that the rule builds have the form of a function. -/
def Formed (d : Dialect) : Rule → View → Prop
  | done _, _ | take, _ | report _, _ | cutRange, _ | call _, _ => True
  | look next, v => Formed d (next v) v
  | seq first next, v => Formed d first v ∧ ∀ m v, Formed d (next m) v
  | many body, _ => ∀ v, Formed d body v
  | node kind body, v => Formed d body v ∧ (kind = .function → IsCallAt d body v)
  | wrap kind first _ body, v =>
      Formed d first v ∧ (∀ v, Formed d body v) ∧
        (kind = .function → first = call .ident ∧ body = call .arguments)
  | attempt body, v => Formed d body v

/-- A rule without functions is well formed. -/
lemma formed_of_uses {Q : Nonterminal → Prop} {r : Rule} (h : Uses (· ≠ .function) Q r) :
    Formed d r v := by
  induction r generalizing v with
  | done matched => trivial
  | look next ih => exact ih v (h v)
  | take => trivial
  | report fault => trivial
  | cutRange => trivial
  | seq first next ih ih' => exact ⟨ih h.1, fun m v => ih' m (h.2 m)⟩
  | many body ih => exact fun v => ih h
  | node kind body ih => exact ⟨ih h.2, fun hkind => absurd hkind h.1⟩
  | wrap kind first more body ih ih' =>
      exact ⟨ih h.2.1, fun v => ih' h.2.2, fun hkind => absurd hkind h.1⟩
  | attempt body ih => exact ih h
  | call name => trivial

/-- What follows for a phase from the form of its rule. -/
def BuildsCalls (d : Dialect) : Phase → Spot → Yield → Prop
  | .rule r, s, y => Formed d r s.view → y.CallsWell d
  | .layers kind _ body _ inner, _, y =>
      (∀ v, Formed d body v) → (kind = .function → inner.direct = [] ∧ body = call .arguments) →
        inner.CallsWell d → y.CallsWell d

/-- The functions that a well formed rule builds have the form of a function. -/
theorem Reads.buildsCalls (hC : Encloses d C)
    (hcalls : ∀ name s m y s', C name s m y s' → y.CallsWell d) {phase : Phase}
    (h : Reads d C phase s m y s') : BuildsCalls d phase s y := by
  induction h with
  | done _ _ => exact fun _ => Yield.callsWell_of_nodes rfl
  | look _ ih => exact ih
  | take s =>
      intro _
      cases hahead : s.ahead with
      | nil => exact Yield.callsWell_of_nodes (by simp [Spot.taken_of_nil hahead, Yield.nodes])
      | cons t rest =>
          exact Yield.callsWell_of_nodes (by simp [Spot.taken_of_cons hahead, Yield.nodes])
  | report f s => exact fun _ => by simp [Yield.CallsWell, Yield.nodes]
  | cutRange s => exact fun _ => Yield.callsWell_of_nodes rfl
  | seq _ _ ih ih' => exact fun hform => Yield.callsWell_append.2 ⟨ih hform.1, ih' (hform.2 _ _)⟩
  | again _ _ ih ih' => exact fun hform => Yield.callsWell_append.2 ⟨ih (hform _), ih' hform⟩
  | stop _ ih => exact fun hform => ih (hform _)
  | node h ih =>
      exact fun hform => Yield.callsWell_node.2 ⟨fun hkind => hform.2 hkind hC rfl h, ih hform.1⟩
  | drop _ ih => exact fun hform => ih hform.1
  | wrap h _ ih ih' =>
      intro hform
      refine ih' hform.2.1 (fun hkind => ⟨?_, (hform.2.2 hkind).2⟩) (ih hform.1)
      rw [(hform.2.2 hkind).1] at h
      exact hC.ident _ _ _ _ (reads_call.1 h)
  | unwrapped _ ih => exact fun hform => ih hform.1
  | attempt _ _ ih => exact ih
  | back _ _ _ => exact fun _ => Yield.callsWell_of_nodes rfl
  | call h => exact fun _ => hcalls _ _ _ _ _ h
  | @layer kind more body count inner y z s s' s'' m _ h _ ih ih' =>
      intro hbody hkind hinner
      refine ih' hbody (fun hfunction => ⟨rfl, (hkind hfunction).2⟩)
        (Yield.callsWell_node.2
          ⟨fun hfunction => ?_, Yield.callsWell_append.2 ⟨hinner, ih (hbody _)⟩⟩)
      obtain ⟨hdirect, rfl⟩ := hkind hfunction
      refine Yield.isCall_of_direct ?_
      rw [Yield.direct_append, hdirect, hC.arguments _ _ _ _ (reads_call.1 h), List.nil_append]
  | enough _ => exact fun _ _ hinner => hinner

/-! ## Insides of functions -/

lemma IsCallAt.group {r : Rule} (h : IsCallAt d r v) : IsCallAt d (r >> accept) v := by
  intro C s m y s' hC hview hread
  obtain ⟨_, y₁, s₁, y₂, hbody, haccept, rfl⟩ := reads_then.1 hread
  obtain ⟨-, rfl, -⟩ := reads_done.1 haccept
  rw [Yield.append_nil]
  exact h hC hview hbody

/-- A token taken behind a name is its parenthesis, if it is seen there. -/
lemma isCall_of_take {y₁ y₂ : Yield} (hname : y₁.direct = [])
    (hparen : s.view.kind 0 = .leftParen) : (y₁ ++ (s.taken ++ y₂)).IsCall d := by
  obtain ⟨t, rest, hahead⟩ :=
    List.exists_cons_of_ne_nil (Spot.ahead_ne_nil (s := s) (by simp [hparen]))
  have hkind : t.kind = .leftParen := by simpa [Spot.kind_view, hahead] using hparen
  intro u hu
  rw [Yield.direct_append, hname, Spot.taken_of_cons hahead] at hu
  obtain rfl : t = u := by simpa [Yield.direct] using hu
  exact .inl hkind

/-- A name of one token with a parenthesis behind it. -/
lemma isCallAt_call (hshort : StartsShortName d v) (hparen : v.kind 1 = .leftParen) (rest : Rule) :
    IsCallAt d (call .ident >> take >> rest) v := by
  rintro C s m y s' hC rfl hread
  obtain ⟨_, y₁, s₁, y₂, hname, hbehind, rfl⟩ := reads_then.1 hread
  obtain ⟨_, y₃, s₂, y₄, htake, -, rfl⟩ := reads_then.1 hbehind
  obtain ⟨-, rfl, -⟩ := reads_take.1 htake
  refine isCall_of_take (hC.ident _ _ _ _ (reads_call.1 hname)) ?_
  rw [hC.seen _ _ _ _ _ (reads_call.1 hname) hshort, View.kind_next, hparen]

/-- A name that starts with an interpolated value, in which the parenthesis stands. -/
lemma isCallAt_interpolated (hd : d = .scss) (hopens : v.kind 0 = .hashBrace)
    (hparen : v.kind 1 = .leftParen) (rest : Rule) :
    IsCallAt d (call .ident >> take >> rest) v := by
  rintro C s m y s' hC rfl hread t ht
  refine .inr ⟨hd, ?_⟩
  have hstarts : startsIdent d s.view = true := by
    simp [startsIdent, startsPiece, opensInterpolation, interpolationOpener?, hd, hopens]
  obtain ⟨opener, rest₀, hahead⟩ :=
    List.exists_cons_of_ne_nil (Spot.ahead_ne_nil (s := s) (by simp [hopens]))
  obtain ⟨paren, behind, hbehind⟩ : ∃ paren behind, rest₀ = paren :: behind := by
    cases rest₀ with
    | nil => simp [Spot.kind_view, hahead] at hparen
    | cons paren behind => exact ⟨paren, behind, rfl⟩
  subst hbehind
  have hkinds : opener.kind = .hashBrace ∧ paren.kind = .leftParen := by
    simp only [Spot.kind_view, hahead] at hopens hparen
    exact ⟨hopens, hparen⟩
  have hfronts : s.Fronts y s' := hread.reaches (Spot.tracks_fronts d) hC.fronts
  obtain ⟨_, y₁, s₁, y₂, hname, hrest, rfl⟩ := reads_then.1 hread
  have hident := reads_call.1 hname
  -- The name takes a token, and `t` is another one.
  have hlength : 2 ≤ (y₁ ++ y₂).tokens.length := by
    have hfirst := List.length_pos_iff.2 (hC.starts _ _ _ _ hident hstarts)
    have hmem : t ∈ y₂.direct := by
      rw [Yield.direct_append, hC.ident _ _ _ _ hident, List.nil_append] at ht
      exact List.mem_of_mem_head? ht
    have hsecond := List.length_pos_iff.2 (List.ne_nil_of_mem (Yield.direct_subset_tokens _ hmem))
    rw [Yield.tokens_append, List.length_append]
    omega
  rcases hfronts [opener, paren] behind hahead (by simp [hkinds]) with
    ⟨front', rest', hfront, -⟩ | ⟨more, hmore⟩
  · have hall := congrArg List.length hfront
    rw [List.length_append, List.length_cons, List.length_singleton] at hall
    have hnil : front' = [] := List.length_eq_zero_iff.1 (by omega)
    rw [hnil, List.append_nil] at hfront
    simp [← hfront, hkinds]
  · simp [hmore, hkinds]

/-- A function that is told by the token behind the first one of its name. -/
lemma isCallAt_of_callFollows (hstarts : startsIdent d v = true) (hcall : v.callFollows = true)
    (rest : Rule) : IsCallAt d (call .ident >> take >> rest) v := by
  have hparen : v.kind 1 = .leftParen := by simp_all [View.callFollows]
  by_cases hd : d = .scss
  · by_cases hident : v.kind 0 = .ident
    · exact isCallAt_call ⟨.inl hident, by simp [hparen]⟩ hparen rest
    · refine isCallAt_interpolated hd ?_ hparen rest
      simp only [startsIdent, startsPiece, opensInterpolation, interpolationOpener?, hd,
        Bool.or_eq_true, is_eq_true, hident, false_or, beq_iff_eq, Option.some.injEq] at hstarts
      exact hstarts.symm
  · exact isCallAt_call (startsShortName_of_callFollows hd hstarts hcall) hparen rest

end Rule

/-! ## The rules that build functions -/

namespace Grammar

open Rule

variable {d : Dialect} {v : View}

section

variable {a b : Rule} {c : View → Bool}

lemma formed_choose (ha : c v = true → Formed d a v) (hb : c v = false → Formed d b v) :
    Formed d (choose c a b) v := by
  change Formed d (if c v = true then a else b) v
  split
  · rename_i h
    exact ha h
  · rename_i h
    exact hb (by simpa using h)

lemma formed_when (ha : c v = true → Formed d a v) : Formed d (when c a) v :=
  formed_choose ha fun _ => trivial

lemma formed_then (ha : Formed d a v) (hb : ∀ v, Formed d b v) : Formed d (a >> b) v :=
  ⟨ha, fun _ => hb⟩

lemma formed_or (ha : Formed d a v) (hb : ∀ v, Formed d b v) : Formed d (a ||| b) v := by
  refine ⟨ha, fun m v => ?_⟩
  cases m with
  | true => trivial
  | false => exact hb v

lemma formed_and (ha : Formed d a v) (hb : ∀ v, Formed d b v) : Formed d (a &&& b) v := by
  refine ⟨ha, fun m v => ?_⟩
  cases m with
  | true => exact hb v
  | false => trivial

lemma formed_group {kind : NodeKind} (ha : Formed d a v)
    (hkind : kind = .function → IsCallAt d a v) : Formed d (group kind a) v :=
  ⟨⟨ha, fun _ _ => trivial⟩, fun h => (hkind h).group⟩

end

lemma formed_progid : Formed d progid v := by
  refine formed_group (formed_of_uses (Q := fun _ => True) (by simp)) fun _ => ?_
  intro C s m y s' hC hview hread
  obtain ⟨_, y₁, s₁, y₂, hname, hrest, rfl⟩ := reads_then.1 hread
  obtain ⟨-, _, z, -, rfl⟩ := reads_group.1 hname
  refine Yield.isCall_of_direct ?_
  rw [reads_choose] at hrest
  split at hrest
  · rw [Yield.direct_append, hC.arguments _ _ _ _ (reads_call.1 hrest)]
    rfl
  · obtain ⟨-, rfl, -⟩ := reads_report.1 hrest
    rfl

lemma formed_identOrCall : Formed d identOrCall v :=
  ⟨trivial, fun _ => trivial, fun _ => ⟨rfl, rfl⟩⟩

lemma formed_named : Formed d (named d) v := by
  refine formed_choose
      (fun _ => formed_of_uses (Q := fun _ => True) (by simp [uriLiteral])) fun _ =>
    formed_choose (fun _ => formed_progid) fun _ => ?_
  split
  · exact formed_or trivial fun v => formed_identOrCall
  · exact formed_identOrCall

lemma formed_unsignedTerm : Formed d (unsignedTerm d) v := by
  rw [unsignedTerm, Formed]
  split
  case h_16 => exact formed_when fun _ => formed_named
  all_goals
    exact formed_of_uses (Q := fun _ => True)
      (by simp [hexColor, bracketed, parenthesized, listEntry])

lemma formed_moduleMember : Formed d moduleMember v := by
  refine formed_when fun _ => ?_
  refine formed_group (formed_then trivial fun w => formed_then trivial fun w => ?_) (by simp)
  split
  · exact ⟨trivial, fun _ => trivial, fun _ => ⟨rfl, rfl⟩⟩
  · exact formed_of_uses (Q := fun _ => True) (by simp)

/-- A function with a parenthesis behind the first token of its name. -/
lemma formed_function {rest : Rule} (hstarts : startsIdent d v = true)
    (hcall : v.callFollows = true) (hrest : Uses (· ≠ .function) (fun _ => True) rest) :
    Formed d (group .function (call .ident >> take >> rest)) v :=
  formed_group (formed_then trivial fun _ => formed_then trivial fun _ => formed_of_uses hrest)
    fun _ => isCallAt_of_callFollows hstarts hcall rest

lemma formed_joinedOperands {operand : Rule} (h : ∀ v, Formed d operand v) {missing : Fault} :
    Formed d (joinedOperands operand missing) v :=
  fun _ => formed_when fun _ => formed_then trivial fun _ =>
    formed_then (formed_of_uses (Q := fun _ => True) (by simp)) fun v => formed_or (h v) fun _ =>
      trivial

lemma formed_mediaCondition : Formed d (mediaCondition d) v := by
  have hoperand : ∀ v, Formed d (mediaOperand d) v := by
    intro v
    rw [mediaOperand, Formed]
    split
    case h_4 =>
      refine formed_when fun hstarts => formed_choose (fun hcall => ?_) fun _ => ?_
      · exact formed_function hstarts hcall (by simp [closeParen])
      · exact formed_then trivial fun _ => trivial
    all_goals
      exact formed_of_uses (Q := fun _ => True) (by simp [mediaFeature, comparison, closeParen])
  exact formed_then (formed_of_uses (Q := fun _ => True) (by simp)) fun v =>
    formed_and (hoperand v) fun _ => formed_joinedOperands hoperand

lemma formed_supportsCondition : Formed d (supportsCondition d) v := by
  have hoperand : ∀ v, Formed d (supportsOperand d) v := by
    intro v
    refine formed_choose (fun h => formed_choose (fun _ => ?_) fun _ => ?_) fun _ => ?_
    · obtain ⟨hstarts, hcall⟩ := Bool.and_eq_true_iff.1 h
      exact formed_function hstarts hcall (by simp [closeParen])
    · exact formed_then trivial fun _ => trivial
    · exact formed_of_uses (Q := fun _ => True) (by simp [supportsGroup, closeParen])
  refine ⟨formed_then (formed_of_uses (Q := fun _ => True) (by simp)) fun v =>
    formed_and (hoperand v) fun _ => formed_joinedOperands hoperand, by simp⟩

/-- The layer of an import has arguments only if a parenthesis is seen behind its name. -/
lemma formed_importLayer : Formed d (importLayer d) v := by
  refine formed_group
    (formed_of_uses (Q := fun _ => True) (by simp [layerName, closeParen])) fun _ => ?_
  intro C s m y s' hC hview hread
  obtain ⟨_, y₁, s₁, y₂, hname, hrest, rfl⟩ := reads_then.1 hread
  have hdirect := hC.ident _ _ _ _ (reads_call.1 hname)
  rw [reads_when] at hrest
  split at hrest
  · rename_i hopens
    obtain ⟨_, y₃, s₂, y₄, htake, -, rfl⟩ := reads_then.1 hrest
    obtain ⟨-, rfl, -⟩ := reads_take.1 htake
    exact isCall_of_take hdirect (by simp_all [View.opensCall])
  · obtain ⟨-, rfl, -⟩ := hrest
    exact Yield.isCall_of_direct (by rw [Yield.append_nil, hdirect])

lemma startsIdent_of_isWord {w : String} (h : v.isWord 0 w = true) : startsIdent d v = true := by
  simp [startsIdent, startsPiece, kind_of_isWord h]

lemma formed_importRule : Formed d (importRule d) v := by
  refine formed_group (formed_then trivial fun _ => formed_then ?_ fun _ => formed_then ?_ fun _ =>
    formed_then (formed_when fun _ => formed_importLayer) fun _ =>
      formed_then (formed_when fun h => ?_)
      fun _ => ?_) (by simp)
  · exact formed_of_uses (Q := fun _ => True) (by simp [importOptions])
  · exact formed_of_uses (Q := fun _ => True) (by simp [importTargets, stringOrUri])
  · obtain ⟨hword, hcall⟩ := Bool.and_eq_true_iff.1 h
    exact formed_function (startsIdent_of_isWord hword) hcall (by simp [closeParen])
  · exact formed_of_uses (Q := fun _ => True) (by simp)

/-- A rule that calls no function by itself is well formed. -/
lemma formed_of_mayUse {Q : Nonterminal → Prop} {calls lexical : Bool} {r : Rule}
    (h : Uses (MayUse calls lexical) Q r) (hcalls : calls = false) : Formed d r v := by
  refine formed_of_uses (h.mono (fun kind hkind hfunction => ?_) fun _ h => h)
  cases hcalls.symm.trans (hkind.2.1 hfunction)

lemma formed_atRule {nested : Bool} : Formed d (atRule d nested) v := by
  refine formed_when fun _ => formed_or trivial fun v => ?_
  refine of_ruleFor? (P := fun r => Formed d r v) (List.forall_mem_append.2 ⟨?_, ?_⟩) ?_ _
  · intro entry hentry
    rcases uses_cssAtRules d nested entry hentry with hmem | huses
    · simp only [List.mem_cons, List.not_mem_nil, or_false] at hmem
      rcases hmem with hentry | hentry | hentry <;> rw [hentry]
      · exact formed_importRule
      · exact formed_of_uses (Q := fun _ => True) (by simp [charset, stringLiteral])
      · exact formed_of_uses (Q := fun _ => True) (by simp [keyframes, stringLiteral])
    · exact formed_of_mayUse huses rfl
  · exact fun entry hentry => formed_of_mayUse (uses_marginBoxRules nested entry hentry) rfl
  · exact formed_of_mayUse uses_unknownAtRule rfl

/-- All rules are well formed. -/
theorem formed_rule (name : Nonterminal) : Formed d (rule d name) v := by
  cases name with
  | unsignedTerm => exact formed_unsignedTerm
  | moduleMember => exact formed_moduleMember
  | mediaCondition => exact formed_mediaCondition
  | supportsCondition => exact formed_supportsCondition
  | atRule nested => exact formed_atRule
  | _ => exact formed_of_mayUse (mayUse_rule d _) rfl

/-! ## The grammar -/

section

variable {C : Calls} {s s' : Spot} {m : Bool} {y : Yield}

lemma direct_of_group {kind : NodeKind} {body : Rule}
    (h : Reads d C (.rule (group kind body)) s m y s') : y.direct = [] := by
  obtain ⟨-, _, z, -, rfl⟩ := reads_group.1 h
  rfl

lemma tokens_ne_nil_of_take (h : s.view.kind 0 ≠ .endOfInput) : s.taken.tokens ≠ [] := by
  obtain ⟨t, rest, hahead⟩ := List.exists_cons_of_ne_nil (Spot.ahead_ne_nil h)
  simp [Spot.taken_of_cons hahead, Yield.tokens]

/-- An interpolated value takes the token that opens it. -/
lemma tokens_of_interpolation (h : Reads d C (.rule (interpolation d)) s m y s')
    (hopens : opensInterpolation d 0 s.view = true) : y.tokens ≠ [] := by
  have htake : ∀ {kind : TokenKind} {rest : Rule}, s.view.kind 0 = kind → kind ≠ .endOfInput →
      Reads d C (.rule (when (·.is 0 kind) (group .interpolation (take >> rest)))) s m y s' →
        y.tokens ≠ [] := by
    intro kind rest hkind hend h
    rw [reads_when, if_pos (is_eq_true.2 hkind), reads_group] at h
    obtain ⟨-, _, z, hinside, rfl⟩ := h
    obtain ⟨_, y₁, s₁, y₂, htake, -, rfl⟩ := reads_then.1 hinside
    obtain ⟨-, rfl, -⟩ := reads_take.1 htake
    simp [Yield.tokens, tokens_ne_nil_of_take (hkind ▸ hend)]
  cases d with
  | css => simp [opensInterpolation, interpolationOpener?] at hopens
  | scss | less =>
      simp only [opensInterpolation, interpolationOpener?, beq_iff_eq, Option.some.injEq] at hopens
      exact htake hopens.symm (by simp) h

/-- A name takes a token where it has begun. -/
lemma tokens_of_ident
    (hopens : ∀ s m y s', C .interpolation s m y s' → opensInterpolation d 0 s.view = true →
      y.tokens ≠ [])
    (h : Reads d C (.rule (ident d)) s m y s') (hstarts : startsIdent d s.view = true) :
    y.tokens ≠ [] := by
  rw [ident, reads_when, if_pos hstarts, reads_group] at h
  obtain ⟨-, _, z, hpieces, rfl⟩ := h
  rw [identPieces, reads_when, if_pos hstarts] at hpieces
  obtain ⟨_, y₁, s₁, y₂, hpiece, -, rfl⟩ := reads_then.1 hpieces
  rw [identPiece, reads_choose] at hpiece
  have hne : y₁.tokens ≠ [] := by
    split at hpiece
    · rename_i hinterpolation
      exact hopens _ _ _ _ (reads_call.1 hpiece) hinterpolation
    · rename_i hother
      obtain ⟨-, rfl, -⟩ := reads_take.1 hpiece
      refine tokens_ne_nil_of_take ?_
      simp_all [startsIdent, startsPiece]
  simp [Yield.tokens, hne]

end

lemma encloses_yields (d : Dialect) (depth : Nat) : Encloses d (Yields d depth) where
  toHonest := honest_yields d depth
  fronts _ _ _ _ _ h := yields_reaches (Spot.tracks_fronts d) h
  ident s m y s' h := by
    obtain ⟨depth', h⟩ := reads_of_yields h
    rw [rule, ident, reads_when] at h
    split at h
    · exact direct_of_group h
    · rw [h.2.1]
      rfl
  arguments s m y s' h := by
    obtain ⟨depth', h⟩ := reads_of_yields h
    exact direct_of_group h
  starts s m y s' h hstarts := by
    obtain ⟨depth', h⟩ := reads_of_yields h
    refine tokens_of_ident (fun s m y s' h hopens => ?_) h hstarts
    obtain ⟨depth'', h⟩ := reads_of_yields h
    exact tokens_of_interpolation h hopens

/-- All functions that the grammar builds have the form of a function. -/
theorem callsWell_yields {depth : Nat} {name : Nonterminal} {s s' : Spot} {m : Bool} {y : Yield}
    (h : Yields d depth name s m y s') : y.CallsWell d := by
  induction depth generalizing name s m y s' with
  | zero => cases h
  | succ depth ih =>
      exact Reads.buildsCalls (encloses_yields d depth) (fun _ _ _ _ _ => ih) h (formed_rule name)

end Grammar

/-! ## Trees -/

lemma Entry.formed_rule (d : Dialect) (entry : Entry) (v : View) : Rule.Formed d entry.rule v :=
  Rule.formed_of_uses (Q := fun _ => True) (by cases entry <;> simp [Entry.rule])

/-- The root of a tree is no function. -/
lemma Entry.kind_ne_function {d : Dialect} {entry : Entry} {depth : Nat} {s s' : Spot}
    {kind : NodeKind} {y : Yield}
    (h : Rule.Reads d (Grammar.Yields d depth) (.rule entry.rule) s true (.node kind y .nil) s') :
    kind ≠ .function := by
  cases entry with
  | stylesheet =>
      obtain ⟨depth', h⟩ := Grammar.reads_of_yields (Rule.reads_call.1 h)
      obtain ⟨-, _, z, -, heq⟩ := Rule.reads_group.1 h
      cases heq
      simp
  | _ =>
      obtain ⟨-, _, z, -, heq⟩ := Rule.reads_group.1 h
      cases heq
      simp

/-- The first significant token directly in a function is its opening parenthesis. In SCSS it may be
another one if the name starts with an interpolated value, and this with a parenthesis. -/
theorem function_starts_with_parenthesis (d : Dialect) (entry : Entry) (source : Text) :
    ∀ s ∈ (parse d entry source).root.descendants, s.kind = .function →
      ∀ l, s.significantTokens.head? = some l →
        l.kind = .leftParen ∨
          (d = .scss ∧ [.hashBrace, .leftParen] <+:
            (s.tree.leaves.filter (!·.kind.isTrivia)).map Leaf.kind) := by
  obtain ⟨kind, y, s₀, hreads, hbare, -⟩ := exists_yield_parse d entry source
  have hentry := hreads _ (le_refl _)
  have hcalls : (Yield.node kind y .nil).CallsWell d :=
    Rule.Reads.buildsCalls (Grammar.encloses_yields d _) (fun _ _ _ _ _ => Grammar.callsWell_yields)
      hentry (Entry.formed_rule d entry _)
  intro s hs hkind l hl
  have hmem : s.tree.bare ∈ (parse d entry source).root.descendants.map fun s => s.tree.bare :=
    List.mem_map_of_mem hs
  rw [Site.map_bare_descendants hbare, Yield.nodes_append, Yield.nodes_row, List.append_nil] at hmem
  rcases List.mem_cons.1 hmem with hroot | hmem
  · exact absurd ((Site.kind_of_bare hroot).symm.trans hkind) (Entry.kind_ne_function hentry)
  · obtain ⟨⟨kind', z⟩, hn, hnode⟩ := List.mem_map.1 hmem
    have hz :=
      (Yield.callsWell_node.1 hcalls).2 _ hn ((Site.kind_of_bare hnode.symm).symm.trans hkind)
    rw [Site.significantTokens_of_bare hnode.symm, List.head?_map, Option.map_eq_some_iff] at hl
    obtain ⟨t, ht, rfl⟩ := hl
    rw [Site.leaves_of_bare hnode.symm, List.map_map]
    exact hz t ht

/-- A query function whose interpolated name is broken off at the parenthesis. -/
theorem function_starts_with_parenthesis_less :
    ∃ s ∈ (parse .less .stylesheet (Text.ofString "@media @\x7b(a) \x7b\x7d")).root.descendants,
      s.kind = .function ∧ ∃ l, s.significantTokens.head? = some l ∧ l.kind = .leftParen := by
  have hmem := List.get_mem
    (parse .less .stylesheet (Text.ofString "@media @\x7b(a) \x7b\x7d")).root.descendants
    ⟨4, by decide +kernel⟩
  refine ⟨_, hmem, by decide +kernel, ⟨.leftParen, Text.ofString "("⟩, by decide +kernel, ?_⟩
  exact (function_starts_with_parenthesis _ _ _ _ hmem (by decide +kernel) _
    (by decide +kernel)).resolve_right (by simp)

/-- A query function with an interpolated name takes the semicolon behind it for its parenthesis. -/
theorem function_starts_with_semicolon :
    ∃ s ∈ (parse .scss .stylesheet (Text.ofString "@media #\x7b(a)\x7d;")).root.descendants,
      s.kind = .function ∧ s.significantTokens.head?.map Leaf.kind = some .semicolon := by
  decide +kernel

end StyleSheet
