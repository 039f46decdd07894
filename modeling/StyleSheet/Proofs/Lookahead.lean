import Mathlib
import StyleSheet.Proofs.Grammar.Statement
import StyleSheet.Proofs.Braces

/-!
# What is seen behind a rule

Some rules decide by the token behind the first token of a name, then read the name and take that
token without looking again. They are right if the name is one token long. `Nonterminal.Seen` says
for which nonterminals the tokens ahead tell what will be seen behind them, and
`Grammar.seen_of_yields` that they keep this promise. In SCSS a name that starts with an
interpolated value has no such promise: how long it is depends on the value.

`Rule.After` follows the tokens seen along a rule, as far as they are known. Other analyses use it
to tell what a rule can meet where it goes on.
-/

namespace StyleSheet

open Rule Grammar

namespace Grammar

/-- Whether a name of one token lies ahead, with a token behind it that ends it. In LESS an
interpolated value of which only the opening is there is such a name. -/
def StartsShortName (d : Dialect) (v : View) : Prop :=
  (v.kind 0 = .ident ∨ d = .less ∧ v.kind 0 = .atBrace) ∧ v.kind 1 ∈ [.leftParen, .equal, .dot]

lemma StartsShortName.ne_end {d : Dialect} {v : View} (h : StartsShortName d v) :
    v.kind 0 ≠ .endOfInput := by
  rcases h.1 with hkind | ⟨-, hkind⟩ <;> simp [hkind]

/-- A name that is told by the parenthesis behind its first token is short, but not in SCSS. -/
lemma startsShortName_of_callFollows {d : Dialect} {v : View} (hd : d ≠ .scss)
    (h : startsIdent d v = true) (h' : v.callFollows = true) : StartsShortName d v := by
  have hparen : v.kind 1 = .leftParen := by simp_all [View.callFollows]
  refine ⟨?_, by simp [hparen]⟩
  cases d with
  | css => simpa [startsIdent, startsPiece, opensInterpolation, interpolationOpener?] using h
  | scss => exact absurd rfl hd
  | less =>
      simp only [startsIdent, startsPiece, opensInterpolation, interpolationOpener?, is_eq_true,
        Bool.or_eq_true, beq_iff_eq, Option.some.injEq] at h
      exact h.imp_right fun h => ⟨rfl, h.symm⟩

end Grammar

/-- What is promised of the tokens seen behind a nonterminal, if `v` is seen before it. -/
def Nonterminal.Seen (d : Dialect) (v : View) (matched : Bool) (v' : View) : Nonterminal → Prop
  | .ident => StartsShortName d v → v' = v.next
  | .interpolation => d = .less → v.kind 0 = .atBrace → v.kind 1 ∈ [.leftParen, .equal, .dot] →
      v' = v.next
  | .variableName => v.kind 0 = .atKeyword → v' = v.next
  | .dialectAtRule _ | .mixinDeclaration _ => matched = false → v' = v
  | _ => True

namespace Grammar

variable {d : Dialect} {C : Calls} {s s' : Spot} {m : Bool} {y : Yield}

lemma seen_interpolation (h : Reads d C (.rule (interpolation d)) s m y s') :
    Nonterminal.interpolation.Seen d s.view m s'.view := by
  rintro rfl hopens hends
  have hnext := Spot.view_next (s := s) (Spot.ahead_ne_nil (by simp [hopens]))
  rw [interpolation, reads_when, if_pos (by simp [hopens])] at h
  obtain ⟨-, m₁, z, h, -⟩ := reads_group.1 h
  obtain ⟨_, _, s₁, _, htake, h, -⟩ := reads_then.1 h
  obtain ⟨_, _, s₂, _, hname, hclose, -⟩ := reads_then.1 h
  -- Neither the name nor the closing brace is there.
  have hident : s.next.view.kind 0 ≠ .ident ∧ s.next.view.kind 0 ≠ .rightBrace := by
    rw [hnext, View.kind_next]
    constructor <;> intro hk <;> simp [hk] at hends
  obtain rfl := (reads_take.1 htake).2.2
  rw [reads_expect, if_neg hident.1] at hname
  obtain rfl := hname.2.2
  rw [reads_expect, if_neg hident.2] at hclose
  rw [hclose.2.2, hnext]

/-- Behind a token that ends a name, a name does not go on. -/
lemma furtherPiece_stops (hends : s.view.kind 0 ∈ [.leftParen, .equal, .dot])
    (h : Reads d C (.rule (furtherPiece d)) s m y s') : m = false ∧ s' = s := by
  have hpiece : startsPiece d 0 s.view = false := by
    rcases List.mem_cons.1 hends with hk | hk
    · cases d <;> simp [startsPiece, opensInterpolation, interpolationOpener?, hk]
    · rcases List.mem_pair.1 hk with hk | hk <;>
        cases d <;> simp [startsPiece, opensInterpolation, interpolationOpener?, hk]
  have hminus : s.view.kind 0 ≠ .minus := by
    intro hk
    simp [hk] at hends
  rw [furtherPiece, reads_when] at h
  split at h
  · rw [reads_choose, if_neg (by simp [hpiece]), reads_when, if_neg (by simp [hminus])] at h
    exact ⟨h.1, h.2.2⟩
  · exact ⟨h.1, h.2.2⟩

lemma seen_ident
    (hcalls : ∀ s m y s', C .interpolation s m y s' →
      Nonterminal.interpolation.Seen d s.view m s'.view)
    (h : Reads d C (.rule (ident d)) s m y s') : Nonterminal.ident.Seen d s.view m s'.view := by
  intro hshort
  have hnext := Spot.view_next (Spot.ahead_ne_nil hshort.ne_end)
  have hstarts : startsIdent d s.view = true := by
    rcases hshort.1 with hk | ⟨rfl, hk⟩ <;>
      simp [startsIdent, startsPiece, opensInterpolation, interpolationOpener?, hk]
  rw [ident, reads_when, if_pos hstarts] at h
  obtain ⟨-, m₁, z, h, -⟩ := reads_group.1 h
  rw [identPieces, reads_when, if_pos hstarts] at h
  obtain ⟨m₂, _, s₁, _, hpiece, hmore, -⟩ := reads_then.1 h
  have hview : s₁.view = s.view.next := by
    rw [identPiece, reads_choose] at hpiece
    split at hpiece
    · rename_i hopens
      rcases hshort.1 with hk | ⟨rfl, hk⟩
      · cases d <;> simp [opensInterpolation, interpolationOpener?, hk] at hopens
      · exact hcalls _ _ _ _ (reads_call.1 hpiece) rfl hk hshort.2
    · rw [(reads_take.1 hpiece).2.2, hnext]
  have hstop : s₁.view.kind 0 ∈ [.leftParen, .equal, .dot] := by
    rw [hview, View.kind_next]
    exact hshort.2
  cases hmore with
  | again hbody _ => exact absurd (furtherPiece_stops hstop hbody).1 (by simp)
  | stop hbody => rw [(furtherPiece_stops hstop hbody).2, hview]

lemma seen_variableName (h : Reads d C (.rule variableName) s m y s') :
    Nonterminal.variableName.Seen d s.view m s'.view := by
  intro hk
  rw [variableName, reads_choose, if_neg (by simp [hk]), reads_when, if_pos (by simp [hk]), leaf,
    reads_node] at h
  obtain ⟨z, h, -⟩ := h
  rw [(reads_take.1 h).2.2, Spot.view_next (Spot.ahead_ne_nil (by simp [hk]))]

/-- An at-rule of a table always matches. -/
lemma Leads.matched {r : Rule} (hr : Leads d r) (h : Reads d C (.rule r) s m y s') : m = true := by
  obtain ⟨kind, rest, rfl, -⟩ := hr
  exact (reads_group.1 h).1

lemma seen_dialectAtRule (nested : Bool) (h : Reads d C (.rule (dialectAtRule d nested)) s m y s') :
    (Nonterminal.dialectAtRule nested).Seen d s.view m s'.view := by
  rintro rfl
  cases d with
  | css => rw [(reads_done.1 h).2.2]
  | scss =>
      replace h := reads_look.1 h
      cases hr : ruleFor? (scssAtRules nested) (s.view.text 0).lower with
      | none =>
          rw [hr] at h
          rw [(reads_done.1 h).2.2]
      | some r =>
          rw [hr] at h
          exact absurd
            ((leads_of_ruleFor? (leads_scssAtRules (d := .scss) nested) hr).matched h) (by simp)
  | less =>
      rw [dialectAtRule, lessAtRule, reads_choose] at h
      split at h
      · cases (reads_group.1 h).1
      · rw [reads_choose] at h
        split at h
        · cases (reads_group.1 h).1
        · rw [reads_when] at h
          split at h
          · cases (reads_group.1 h).1
          · rw [h.2.2]

lemma seen_mixinDeclaration (nested : Bool)
    (h : Reads d C (.rule (lessMixinDeclaration nested)) s m y s') :
    (Nonterminal.mixinDeclaration nested).Seen d s.view m s'.view := by
  rintro rfl
  obtain ⟨z, h, -⟩ := reads_node.1 h
  rcases reads_and.1 h with ⟨-, h⟩ | ⟨_, s₁, _, -, h, -⟩
  · rcases reads_attempt h with ⟨hm, -⟩ | ⟨-, -, rfl⟩
    · cases hm
    · rfl
  · exact absurd (matched_of_accepts (by simp) h) (by simp)

/-- Nonterminals keep their promises about what is seen behind them. -/
theorem seen_of_yields {depth : Nat} {name : Nonterminal} (h : Yields d depth name s m y s') :
    name.Seen d s.view m s'.view := by
  refine yields_induction (P := fun name s m _ s' => name.Seen d s.view m s'.view) ?_ h
  intro C hcalls name s m y s' h
  cases name with
  | ident => exact seen_ident (fun s m y s' => hcalls .interpolation s m y s') h
  | interpolation => exact seen_interpolation h
  | variableName => exact seen_variableName h
  | dialectAtRule nested => exact seen_dialectAtRule nested h
  | mixinDeclaration nested => exact seen_mixinDeclaration nested h
  | _ => trivial

end Grammar

/-! ## What may be seen behind a rule -/

namespace Rule

/-- Whether a rule may match or not and see `v'` then, if it starts where `v` is seen. With `clean`,
only runs without a fault count. Behind a loop or a node it is not known what is seen, except behind
a variable, which is one token. -/
def After (d : Dialect) (clean : Bool) : Rule → View → Bool → View → Prop
  | done matched, v, m, v' => m = matched ∧ v' = v
  | look next, v, m, v' => After d clean (next v) v m v'
  | take, v, m, v' => m = true ∧ v' = if v.kind 0 = .endOfInput then v else v.next
  | report _, v, m, v' => clean = false ∧ m = false ∧ v' = v
  | cutRange, v, m, v' => m = true ∧ (v.kind 0 ≠ .unicodeRange → v' = v)
  | seq first next, v, m, v' =>
      ∃ m₁ v₁, After d clean first v m₁ v₁ ∧ After d clean (next m₁) v₁ m v'
  | many _, _, m, _ => m = true
  | node kind body, v, m, v' => m = true ∧ kind ≠ .variableName ∨ After d clean body v m v'
  | wrap _ first _ _, v, m, v' => m = true ∨ After d clean first v false v'
  | attempt body, v, m, v' => (m = true ∧ After d clean body v true v') ∨ (m = false ∧ v' = v)
  | call name, v, m, v' => name.Seen d v m v'

section

variable {d : Dialect} {clean : Bool} {v v' : View} {m : Bool}

@[simp] lemma after_done (matched : Bool) :
    After d clean (done matched) v m v' ↔ m = matched ∧ v' = v := Iff.rfl

@[simp] lemma after_look (next : View → Rule) :
    After d clean (look next) v m v' ↔ After d clean (next v) v m v' := Iff.rfl

@[simp] lemma after_take :
    After d clean take v m v' ↔ m = true ∧ v' = if v.kind 0 = .endOfInput then v else v.next :=
  Iff.rfl

@[simp] lemma after_report (fault : Fault) :
    After d clean (report fault) v m v' ↔ clean = false ∧ m = false ∧ v' = v := Iff.rfl

@[simp] lemma after_cutRange :
    After d clean cutRange v m v' ↔ m = true ∧ (v.kind 0 ≠ .unicodeRange → v' = v) := Iff.rfl

@[simp] lemma after_seq (first : Rule) (next : Bool → Rule) :
    After d clean (seq first next) v m v' ↔
      ∃ m₁ v₁, After d clean first v m₁ v₁ ∧ After d clean (next m₁) v₁ m v' := Iff.rfl

@[simp] lemma after_many (body : Rule) : After d clean (many body) v m v' ↔ m = true := Iff.rfl

@[simp] lemma after_node (kind : NodeKind) (body : Rule) :
    After d clean (node kind body) v m v' ↔
      m = true ∧ kind ≠ .variableName ∨ After d clean body v m v' := Iff.rfl

@[simp] lemma after_wrap (kind : NodeKind) (first : Rule) (more : Nat → View → Bool) (body : Rule) :
    After d clean (wrap kind first more body) v m v' ↔ m = true ∨ After d clean first v false v' :=
  Iff.rfl

@[simp] lemma after_attempt (body : Rule) :
    After d clean (attempt body) v m v' ↔
      (m = true ∧ After d clean body v true v') ∨ (m = false ∧ v' = v) := Iff.rfl

@[simp] lemma after_call (name : Nonterminal) :
    After d clean (call name) v m v' ↔ name.Seen d v m v' := Iff.rfl

@[simp] lemma after_ite (c : Prop) [Decidable c] (a b : Rule) :
    After d clean (if c then a else b) v m v' ↔
      (c ∧ After d clean a v m v') ∨ (¬ c ∧ After d clean b v m v') := by
  split <;> simp_all

@[simp] lemma after_accept : After d clean accept v m v' ↔ m = true ∧ v' = v := Iff.rfl

@[simp] lemma after_fail : After d clean fail v m v' ↔ m = false ∧ v' = v := Iff.rfl

@[simp] lemma after_test (c : View → Bool) :
    After d clean (test c) v m v' ↔ m = c v ∧ v' = v := Iff.rfl

@[simp] lemma after_choose (c : View → Bool) (a b : Rule) :
    After d clean (choose c a b) v m v' ↔
      (c v = true ∧ After d clean a v m v') ∨ (c v = false ∧ After d clean b v m v') := by
  simp [choose]

@[simp] lemma after_when (c : View → Bool) (a : Rule) :
    After d clean (when c a) v m v' ↔
      (c v = true ∧ After d clean a v m v') ∨ (c v = false ∧ m = false ∧ v' = v) := by
  simp [when]

@[simp] lemma after_then (a b : Rule) :
    After d clean (a >> b) v m v' ↔ ∃ m₁ v₁, After d clean a v m₁ v₁ ∧ After d clean b v₁ m v' :=
  Iff.rfl

@[simp] lemma after_or (a b : Rule) :
    After d clean (a ||| b) v m v' ↔
      (m = true ∧ After d clean a v true v') ∨
        ∃ v₁, After d clean a v false v₁ ∧ After d clean b v₁ m v' := by
  change
    (∃ m₁ v₁, After d clean a v m₁ v₁ ∧ After d clean (if m₁ = true then accept else b) v₁ m v') ↔ _
  constructor
  · rintro ⟨_ | _, v₁, ha, hb⟩
    · exact .inr ⟨v₁, ha, by simpa using hb⟩
    · obtain ⟨rfl, rfl⟩ : m = true ∧ v' = v₁ := by simpa using hb
      exact .inl ⟨rfl, ha⟩
  · rintro (⟨rfl, ha⟩ | ⟨v₁, ha, hb⟩)
    · exact ⟨true, v', ha, by simp⟩
    · exact ⟨false, v₁, ha, by simpa using hb⟩

@[simp] lemma after_and (a b : Rule) :
    After d clean (a &&& b) v m v' ↔
      (m = false ∧ After d clean a v false v') ∨
        ∃ v₁, After d clean a v true v₁ ∧ After d clean b v₁ m v' := by
  change
    (∃ m₁ v₁, After d clean a v m₁ v₁ ∧ After d clean (if m₁ = true then b else fail) v₁ m v') ↔ _
  constructor
  · rintro ⟨_ | _, v₁, ha, hb⟩
    · obtain ⟨rfl, rfl⟩ : m = false ∧ v' = v₁ := by simpa using hb
      exact .inl ⟨rfl, ha⟩
    · exact .inr ⟨v₁, ha, by simpa using hb⟩
  · rintro (⟨rfl, ha⟩ | ⟨v₁, ha, hb⟩)
    · exact ⟨false, v', ha, by simp⟩
    · exact ⟨true, v₁, ha, by simpa using hb⟩

@[simp] lemma after_token {kind : TokenKind} (hkind : kind ≠ .endOfInput) :
    After d clean (token kind) v m v' ↔
      (v.kind 0 = kind ∧ m = true ∧ v' = v.next) ∨ (v.kind 0 ≠ kind ∧ m = false ∧ v' = v) := by
  by_cases h : v.kind 0 = kind <;> simp [token, h, hkind]

@[simp] lemma after_word (w : String) :
    After d clean (word w) v m v' ↔
      (v.isWord 0 w = true ∧ m = true ∧ v' = v.next) ∨
        (v.isWord 0 w = false ∧ m = false ∧ v' = v) := by
  by_cases h : v.isWord 0 w = true
  · simp [word, h, kind_of_isWord h]
  · simp [word, h]

@[simp] lemma after_group {kind : NodeKind} (hkind : kind ≠ .variableName) (body : Rule) :
    After d clean (group kind body) v m v' ↔ m = true := by
  simp only [group, after_node, after_then, after_accept]
  constructor
  · rintro (h | ⟨-, -, -, h, -⟩)
    · exact h.1
    · exact h
  · exact fun h => .inl ⟨h, hkind⟩

@[simp] lemma after_leaf {kind : NodeKind} (hkind : kind ≠ .variableName) :
    After d clean (leaf kind) v m v' ↔ m = true := by
  simp only [leaf, after_node, after_take]
  tauto

@[simp] lemma after_leaf_variableName :
    After d clean (leaf .variableName) v m v' ↔
      m = true ∧ v' = if v.kind 0 = .endOfInput then v else v.next := by
  simp [leaf]

end

/-- What follows for a phase from what is seen: nothing for the rest of a `wrap`, which always
matches. -/
def Sees (d : Dialect) (clean : Bool) : Phase → Spot → Bool → Spot → Prop
  | .rule r, s, m, s' => After d clean r s.view m s'.view
  | .layers .., _, m, _ => m = true

/-- How nonterminals must be answered for the analysis of rules. -/
structure Honest (d : Dialect) (C : Calls) : Prop where
  passes : ∀ name s m y s', C name s m y s' → s.Sound → s.Passes y s'
  seen : ∀ name s m y s', C name s m y s' → name.Seen d s.view m s'.view

lemma Honest.reads {d : Dialect} {C : Calls} (hC : Honest d C) {r : Rule} {s s' : Spot} {m : Bool}
    {y : Yield} (h : Reads d C (.rule r) s m y s') (hs : s.Sound) : s.Passes y s' :=
  h.reaches (Spot.tracks_passes d) (fun name s m y s' h hs => hC.passes name s m y s' h hs) hs

/-- Rules see what is expected of them. -/
theorem Reads.sees {d : Dialect} (clean : Bool) {C : Calls} (hC : Honest d C) {phase : Phase}
    {s s' : Spot} {m : Bool} {y : Yield} (h : Reads d C phase s m y s')
    (hs : s.Sound) (hfair : clean = true → y.faults = []) : Sees d clean phase s m s' := by
  induction h with
  | done matched s => exact ⟨rfl, rfl⟩
  | look _ ih => exact ih hs hfair
  | take s =>
      refine ⟨rfl, ?_⟩
      by_cases hnil : s.ahead = []
      · rw [if_pos (hs.kind_eq_end.2 hnil), Spot.next_of_nil hnil]
      · rw [if_neg (by rwa [hs.kind_eq_end]), Spot.view_next hnil]
  | report f s =>
      refine ⟨?_, rfl, rfl⟩
      by_contra hclean
      cases hfair (by simpa using hclean)
  | cutRange s =>
      refine ⟨rfl, fun hkind => ?_⟩
      rcases Spot.cutAhead_cases d s.ahead with hsame | ⟨range, glued, behind, hahead, hrun, -⟩
      · rw [Spot.cut, hsame]
      · exact absurd (by simp [Spot.kind_view, hahead, hrun.kind]) hkind
  | seq h _ ih ih' =>
      simp only [Yield.faults_append, List.append_eq_nil_iff] at hfair
      exact ⟨_, _, ih hs fun h => (hfair h).1, ih' (hC.reads h hs).sound fun h => (hfair h).2⟩
  | again _ _ _ _ => exact rfl
  | stop _ _ => exact rfl
  | @node kind body s s' y _ ih =>
      by_cases hkind : kind = .variableName
      · refine .inr (ih hs fun h => ?_)
        simpa [Yield.faults] using hfair h
      · exact .inl ⟨rfl, hkind⟩
  | drop _ ih => exact .inr (ih hs hfair)
  | wrap _ _ _ _ => exact .inl rfl
  | unwrapped _ ih => exact .inr (ih hs hfair)
  | attempt _ _ ih => exact .inl ⟨rfl, ih hs hfair⟩
  | back _ _ _ => exact .inr ⟨rfl, rfl⟩
  | call h => exact hC.seen _ _ _ _ _ h
  | layer _ _ _ _ _ => exact rfl
  | enough _ => exact rfl

end Rule

lemma Grammar.honest_yields (d : Dialect) (depth : Nat) : Honest d (Yields d depth) where
  passes _ _ _ _ _ h hs := passes_of_yields hs h
  seen _ _ _ _ _ h := seen_of_yields h

end StyleSheet
