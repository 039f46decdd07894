import Mathlib
import StyleSheet.Proofs.Sparing

/-!
# Reading the same tokens with more behind them

Let a row of tokens end with a closing brace. A rule is carried out over this row, and over the same
row with more tokens behind it. As long as the row lasts, both runs see the same, provided that no
decision depends on what lies behind a closing brace (`Rule.Nearsighted`). So they go in `Pace`:
either they have read the same, or one has come to the end of its row and the other one beyond it.
The second case is stated by braces: all braces of the row have been taken.

What makes up a rule keeps the pace (`tandem_of_nearsighted`), except attempts, which may fail for
what they meet far ahead and have to be looked at one by one.
-/

namespace StyleSheet

open Token

/-! ## Views -/

namespace View

/-- The token `n` places ahead looks the same. -/
def SameAt (v w : View) (n : Nat) : Prop :=
  w.kind n = v.kind n ∧ w.text n = v.text n ∧ w.gap n = v.gap n

/-- Two views that do not differ up to a closing brace. -/
def Agrees (v w : View) : Prop :=
  w.last = v.last ∧ ∃ n, v.kind n = .rightBrace ∧ ∀ i ≤ n, v.SameAt w i

/-- What is told of a view does not depend on what lies behind a closing brace. -/
def Near {α : Type} (f : View → α) (v : View) : Prop := ∀ w, v.Agrees w → f w = f v

variable {v w : View}

/-- Views that agree are the same at the next token. A token further ahead may differ if a closing
brace stands before it. -/
lemma Agrees.reach (h : v.Agrees w) : w.last = v.last ∧ v.SameAt w 0 ∧
    (v.kind 0 ≠ .rightBrace → v.SameAt w 1 ∧ (v.kind 1 ≠ .rightBrace → v.SameAt w 2)) := by
  obtain ⟨hlast, n, hn, hsame⟩ := h
  refine ⟨hlast, hsame 0 (Nat.zero_le n), fun h₀ => ?_⟩
  have hn₀ : n ≠ 0 := by
    rintro rfl
    exact h₀ hn
  refine ⟨hsame 1 (by omega), fun h₁ => ?_⟩
  have hn₁ : n ≠ 1 := by
    rintro rfl
    exact h₁ hn
  exact hsame 2 (by omega)

end View

/-! ## Spots -/

namespace Spot

/-- What is ahead of `s` is the front of what is ahead of `t`, where `more` follows. It ends with a
closing brace, unless nothing is left of it. -/
structure IsFront (more : List Token) (s t : Spot) : Prop where
  last : t.last = s.last
  ahead : t.ahead = s.ahead ++ more
  ends : ∀ u ∈ s.ahead.getLast?, u.kind = .rightBrace
  sound : t.Sound

namespace IsFront

variable {more : List Token} {s t : Spot} {d : Dialect}

lemma sound_left (h : IsFront more s t) : s.Sound := by
  intro u hu
  refine h.sound u ?_
  rw [h.ahead]
  exact List.mem_append_left _ hu

lemma agrees (h : IsFront more s t) (hne : s.ahead ≠ []) : s.view.Agrees t.view := by
  have hlength : s.ahead.length - 1 < s.ahead.length := by
    have := List.length_pos_iff.2 hne
    omega
  have hget : ∀ i ≤ s.ahead.length - 1, t.ahead[i]? = s.ahead[i]? := by
    intro i hi
    rw [h.ahead, List.getElem?_append_left (by omega)]
  refine ⟨?_, s.ahead.length - 1, ?_, fun i hi => ⟨?_, ?_, ?_⟩⟩
  · show t.last.map Token.kind = s.last.map Token.kind
    rw [h.last]
  · rw [kind_view, ← List.getLast?_eq_getElem?, List.getLast?_eq_some_getLast hne]
    exact h.ends _ (List.getLast?_eq_some_getLast hne)
  · rw [kind_view, kind_view, hget i hi]
  · rw [text_view, text_view, hget i hi]
  · have hbefore : t.before? i = s.before? i := by
      cases i with
      | zero => exact h.last
      | succ i => exact hget i (by omega)
    -- There is a token here, so that the length of the source does not matter.
    have hsome : s.ahead[i]? = some s.ahead[i] := List.getElem?_eq_getElem (by omega)
    rw [gap_view, gap_view, hbefore, hget i hi, hsome]
    rfl

lemma ends_tail {u : Token} {rest : List Token}
    (hends : ∀ w ∈ (u :: rest).getLast?, w.kind = .rightBrace) :
    ∀ w ∈ rest.getLast?, w.kind = .rightBrace := by
  intro w hw
  refine hends w ?_
  rw [List.getLast?_cons, hw]
  rfl

lemma next (h : IsFront more s t) (hne : s.ahead ≠ []) :
    IsFront more s.next t.next ∧ t.taken = s.taken := by
  obtain ⟨u, rest, hahead⟩ := List.exists_cons_of_ne_nil hne
  have hahead' : t.ahead = u :: (rest ++ more) := by rw [h.ahead, hahead, List.cons_append]
  refine ⟨⟨?_, ?_, ?_, h.sound.next⟩, ?_⟩
  · rw [next_of_cons hahead, next_of_cons hahead']
  · rw [next_of_cons hahead, next_of_cons hahead']
  · rw [next_of_cons hahead]
    exact ends_tail (hahead ▸ h.ends)
  · rw [taken_of_cons hahead, taken_of_cons hahead']

/-- Nothing behind a closing brace is glued to a range of code points before it. -/
lemma gluedTo_append (more : List Token) {rest : List Token}
    (hends : ∃ w ∈ rest, w.kind = .rightBrace) (stop : Nat) :
    Parser.gluedTo stop (rest ++ more) = Parser.gluedTo stop rest := by
  induction rest generalizing stop with
  | nil => simp at hends
  | cons u rest ih =>
      rw [List.cons_append, Parser.gluedTo, Parser.gluedTo]
      split
      · rename_i hglue
        have hu : u.kind ≠ .rightBrace := by
          intro hkind
          simp [hkind, Parser.gluesToRange] at hglue
        obtain ⟨w, hw, hkind⟩ := hends
        rcases List.mem_cons.1 hw with rfl | hw
        · exact absurd hkind hu
        · rw [ih ⟨w, hw, hkind⟩]
      · rfl

lemma cutAhead_append (d : Dialect) (more : List Token) {l : List Token} (hne : l ≠ [])
    (hends : ∀ w ∈ l.getLast?, w.kind = .rightBrace) :
    cutAhead d (l ++ more) = cutAhead d l ++ more ∧
      ∀ w ∈ (cutAhead d l).getLast?, w.kind = .rightBrace := by
  obtain ⟨u, rest, rfl⟩ := List.exists_cons_of_ne_nil hne
  rw [List.cons_append, cutAhead, cutAhead]
  split
  · rename_i hkind
    have hrest : rest ≠ [] := by
      rintro rfl
      cases hkind.symm.trans (hends u rfl)
    have hbrace : ∃ w ∈ rest, w.kind = .rightBrace :=
      ⟨_, List.getLast_mem hrest, ends_tail hends _ (List.getLast?_eq_some_getLast hrest)⟩
    have hglued := gluedTo_append more hbrace u.stop
    have hglues := @Parser.gluesToRange_of_mem u.stop rest
    obtain ⟨behind, hbehind⟩ := Parser.gluedTo_isPrefix u.stop rest
    dsimp only
    rw [hglued]
    generalize Parser.gluedTo u.stop rest = glued at hglues hbehind
    subst hbehind
    -- The brace is not glued, so it is left behind the pieces.
    have hbehind : behind ≠ [] := by
      rintro rfl
      obtain ⟨w, hw, hkind⟩ := hbrace
      have hglue := hglues w (by simpa using hw)
      rw [hkind] at hglue
      cases hglue
    rw [List.append_assoc, List.drop_left, List.drop_left, List.append_assoc,
      List.getLast?_append_of_ne_nil _ hbehind, ← List.getLast?_append_of_ne_nil glued hbehind]
    exact ⟨rfl, ends_tail hends⟩
  · exact ⟨rfl, hends⟩

lemma cut (h : IsFront more s t) (hne : s.ahead ≠ []) : IsFront more (s.cut d) (t.cut d) := by
  obtain ⟨happend, hends⟩ := cutAhead_append d more hne h.ends
  refine ⟨h.last, ?_, hends, (passes_cut d h.sound).sound⟩
  show cutAhead d t.ahead = cutAhead d s.ahead ++ more
  rw [h.ahead, happend]

end IsFront

end Spot

/-! ## Runs -/

namespace Rule

/-- Two runs from spots of which the first one sees the front of what the second one sees: they have
read the same, or the first one has come to its end and the second one has taken all braces up to
there. -/
def Pace (more : List Token) (s : Spot) (m : Bool) (y : Yield) (s' : Spot) (m' : Bool) (y' : Yield)
    (t' : Spot) : Prop :=
  (m' = m ∧ y' = y ∧ s'.IsFront more t') ∨ (s'.ahead = [] ∧ Token.braces s.ahead <+: y'.braces)

/-- Runs of the rule from `s`, and from spots where `more` tokens follow, keep pace. -/
def Tandem (d : Dialect) (C C' : Calls) (more : List Token) (r : Rule) (s : Spot) : Prop :=
  ∀ t m y s' m' y' t', s.IsFront more t → Reads d C (.rule r) s m y s' →
    Reads d C' (.rule r) t m' y' t' →
    Pace more s m y s' m' y' t'

section

variable {d : Dialect} {C C' : Calls} {more : List Token} {s : Spot} {a b : Rule}

lemma tandem_done (matched : Bool) : Tandem d C C' more (done matched) s := by
  rintro t m y s' m' y' t' hfront h h'
  obtain ⟨rfl, rfl, rfl⟩ := reads_done.1 h
  obtain ⟨rfl, rfl, rfl⟩ := reads_done.1 h'
  exact .inl ⟨rfl, rfl, hfront⟩

lemma tandem_report (f : Fault) : Tandem d C C' more (report f) s := by
  rintro t m y s' m' y' t' hfront h h'
  obtain ⟨rfl, rfl, rfl⟩ := reads_report.1 h
  obtain ⟨rfl, rfl, rfl⟩ := reads_report.1 h'
  exact .inl ⟨rfl, rfl, hfront⟩

variable (hC : Honest d C)

include hC

/-- At the end there is nothing to compare. -/
lemma tandem_of_nil (hnil : s.ahead = []) : Tandem d C C' more a s := by
  rintro t m y s' m' y' t' hfront h -
  obtain ⟨rfl, -⟩ := (hC.reads h hfront.sound_left).idle hnil
  exact .inr ⟨hnil, by simp [hnil]⟩

/-- A run behind one that has come to the end. -/
lemma pace_of_ended {s₁ s' t' : Spot} {m m₁ m' : Bool} {y y₁' y' : Yield}
    (h : Reads d C (.rule a) s₁ m₁ y s') (hs₁ : s₁.Sound) (hnil : s₁.ahead = [])
    (hbraces : Token.braces s.ahead <+: y₁'.braces) (z : Yield) :
    Pace more s m z s' m' (y₁' ++ y') t' := by
  obtain ⟨rfl, -⟩ := (hC.reads h hs₁).idle hnil
  refine .inr ⟨hnil, ?_⟩
  rw [Yield.braces_append]
  exact hbraces.trans (List.prefix_append _ _)

lemma tandem_take : Tandem d C C' more take s := by
  by_cases hnil : s.ahead = []
  · exact tandem_of_nil hC hnil
  rintro t m y s' m' y' t' hfront h h'
  obtain ⟨rfl, rfl, rfl⟩ := reads_take.1 h
  obtain ⟨rfl, rfl, rfl⟩ := reads_take.1 h'
  obtain ⟨hnext, htaken⟩ := hfront.next hnil
  exact .inl ⟨rfl, htaken, hnext⟩

lemma tandem_cutRange : Tandem d C C' more cutRange s := by
  by_cases hnil : s.ahead = []
  · exact tandem_of_nil hC hnil
  rintro t m y s' m' y' t' hfront h h'
  obtain ⟨rfl, rfl, rfl⟩ := reads_cutRange.1 h
  obtain ⟨rfl, rfl, rfl⟩ := reads_cutRange.1 h'
  exact .inl ⟨rfl, rfl, hfront.cut hnil⟩

/-- What is chosen by what lies before a closing brace. -/
lemma tandem_look {next : View → Rule} (hnear : s.view.Near next)
    (h : Tandem d C C' more (next s.view) s) : Tandem d C C' more (look next) s := by
  by_cases hnil : s.ahead = []
  · exact tandem_of_nil hC hnil
  rintro t m y s' m' y' t' hfront hs ht
  rw [reads_look] at hs ht
  rw [hnear t.view (hfront.agrees hnil)] at ht
  exact h t m y s' m' y' t' hfront hs ht

lemma tandem_choose {c : View → Bool} (hnear : s.view.Near c)
    (hyes : c s.view = true → Tandem d C C' more a s)
    (hno : c s.view = false → Tandem d C C' more b s) : Tandem d C C' more (choose c a b) s := by
  refine tandem_look hC (fun w h => by rw [hnear w h]) ?_
  split
  · rename_i hc
    exact hyes hc
  · rename_i hc
    exact hno (Bool.eq_false_iff.2 hc)

lemma tandem_when {c : View → Bool} (hnear : s.view.Near c)
    (h : c s.view = true → Tandem d C C' more a s) : Tandem d C C' more (when c a) s :=
  tandem_choose hC hnear h fun _ => tandem_done false

lemma tandem_seq {next : Bool → Rule} (hfirst : Tandem d C C' more a s)
    (hnext : ∀ m y s', s.Sound → Reads d C (.rule a) s m y s' → Tandem d C C' more (next m) s') :
    Tandem d C C' more (seq a next) s := by
  rintro t m y s' m' y' t' hfront hs ht
  obtain ⟨m₁, y₁, s₁, y₂, hs₁, hs₂, rfl⟩ := reads_seq.1 hs
  obtain ⟨m₁', y₁', t₁, y₂', ht₁, ht₂, rfl⟩ := reads_seq.1 ht
  have hpasses := hC.reads hs₁ hfront.sound_left
  rcases hfirst t _ _ _ _ _ _ hfront hs₁ ht₁ with ⟨rfl, rfl, hfront₁⟩ | ⟨hnil, hbraces⟩
  · rcases hnext _ _ _ hfront.sound_left hs₁ t₁ _ _ _ _ _ _ hfront₁ hs₂ ht₂ with
      ⟨rfl, rfl, hfront₂⟩ | ⟨hnil, hbraces⟩
    · exact .inl ⟨rfl, rfl, hfront₂⟩
    · refine .inr ⟨hnil, ?_⟩
      rw [hpasses.braces, Yield.braces_append]
      exact (List.prefix_append_right_inj _).2 hbraces
  · exact pace_of_ended hC hs₂ hpasses.sound hnil hbraces _

lemma tandem_then (hfirst : Tandem d C C' more a s)
    (hnext : ∀ m y s', s.Sound → Reads d C (.rule a) s m y s' → Tandem d C C' more b s') :
    Tandem d C C' more (a >> b) s :=
  tandem_seq hC hfirst hnext

lemma tandem_or (hfirst : Tandem d C C' more a s)
    (hnext : ∀ y s', s.Sound → Reads d C (.rule a) s false y s' → Tandem d C C' more b s') :
    Tandem d C C' more (a ||| b) s := by
  refine tandem_seq hC hfirst fun m y s' hs h => ?_
  cases m with
  | false => exact hnext y s' hs h
  | true => exact tandem_done true

lemma tandem_and (hfirst : Tandem d C C' more a s)
    (hnext : ∀ y s', s.Sound → Reads d C (.rule a) s true y s' → Tandem d C C' more b s') :
    Tandem d C C' more (a &&& b) s := by
  refine tandem_seq hC hfirst fun m y s' hs h => ?_
  cases m with
  | false => exact tandem_done false
  | true => exact hnext y s' hs h

/-- A repetition keeps pace if its rounds do, as long as something holds that they preserve. -/
lemma tandem_many {I : Spot → Prop} (hbody : ∀ s, I s → Tandem d C C' more a s)
    (hkeeps : ∀ s m y s', I s → s.Sound → Reads d C (.rule a) s m y s' → I s') (hs : I s) :
    Tandem d C C' more (many a) s := by
  rintro t m y s' m' y' t' hfront h h'
  generalize hphase : Phase.rule (many a) = phase at h
  induction h generalizing t m' y' t' with
  | @again body s s₁ s' y z h₁ h₂ _ ih =>
      cases hphase
      have hpasses := hC.reads h₁ hfront.sound_left
      cases h' with
      | again h₁' h₂' =>
          rcases hbody s hs t _ _ _ _ _ _ hfront h₁ h₁' with ⟨-, rfl, hfront₁⟩ | ⟨hnil, hbraces⟩
          · rcases ih (hkeeps _ _ _ _ hs hfront.sound_left h₁) _ _ _ _ hfront₁ h₂' rfl with
              ⟨hm, rfl, hfront₂⟩ | ⟨hnil, hbraces⟩
            · exact .inl ⟨hm, rfl, hfront₂⟩
            · refine .inr ⟨hnil, ?_⟩
              rw [hpasses.braces, Yield.braces_append]
              exact (List.prefix_append_right_inj _).2 hbraces
          · exact pace_of_ended hC h₂ hpasses.sound hnil hbraces _
      | stop h₁' =>
          rcases hbody s hs t _ _ _ _ _ _ hfront h₁ h₁' with ⟨hm, -⟩ | ⟨hnil, hbraces⟩
          · cases hm
          · rw [← Yield.append_nil y']
            exact pace_of_ended hC h₂ hpasses.sound hnil hbraces _
  | stop h₁ _ =>
      cases hphase
      cases h' with
      | again h₁' h₂' =>
          rcases hbody _ hs t _ _ _ _ _ _ hfront h₁ h₁' with ⟨hm, -⟩ | ⟨hnil, hbraces⟩
          · cases hm
          · refine .inr ⟨hnil, ?_⟩
            rw [Yield.braces_append]
            exact hbraces.trans (List.prefix_append _ _)
      | stop h₁' =>
          rcases hbody _ hs t _ _ _ _ _ _ hfront h₁ h₁' with ⟨-, rfl, hfront₁⟩ | hended
          · exact .inl ⟨rfl, rfl, hfront₁⟩
          · exact .inr hended
  | _ => cases hphase

omit hC in
lemma tandem_node (kind : NodeKind) (h : Tandem d C C' more a s) :
    Tandem d C C' more (node kind a) s := by
  rintro t m y s' m' y' t' hfront hs ht
  obtain ⟨z, hbody, rfl⟩ := reads_node.1 hs
  obtain ⟨z', hbody', rfl⟩ := reads_node.1 ht
  rcases h t _ _ _ _ _ _ hfront hbody hbody' with ⟨rfl, rfl, hfront'⟩ | ⟨hnil, hbraces⟩
  · exact .inl ⟨rfl, rfl, hfront'⟩
  · refine .inr ⟨hnil, ?_⟩
    split
    · rwa [Yield.braces_node]
    · exact hbraces

omit hC in
/-- What is inside of a `wrap` stays there. -/
lemma prefix_of_layers {phase : Phase} {m : Bool} {y : Yield} {s' : Spot}
    (h : Reads d C phase s m y s') :
    ∀ kind f body count inner, phase = .layers kind f body count inner →
      inner.braces <+: y.braces := by
  induction h with
  | layer _ _ _ _ ih =>
      rintro kind f body count inner ⟨⟩
      have hinner := ih _ _ _ _ _ rfl
      rw [Yield.braces_node, Yield.braces_append] at hinner
      exact (List.prefix_append _ _).trans hinner
  | enough _ =>
      rintro kind f body count inner ⟨⟩
      exact List.prefix_refl _
  | _ => rintro kind f body count inner ⟨⟩

lemma ended_layers {phase : Phase} {m : Bool} {y : Yield} {s' : Spot} (h : Reads d C phase s m y s')
    (hs : s.Sound) (hnil : s.ahead = []) :
    ∀ kind f body count inner, phase = .layers kind f body count inner → s'.ahead = [] := by
  induction h with
  | layer _ h _ _ ih =>
      rintro kind f body count inner ⟨⟩
      obtain ⟨rfl, -⟩ := (hC.reads h hs).idle hnil
      exact ih hs hnil _ _ _ _ _ rfl
  | enough _ =>
      rintro kind f body count inner ⟨⟩
      exact hnil
  | _ => rintro kind f body count inner ⟨⟩

/-- The layers that a `wrap` puts around what it has read. -/
lemma pace_layers {kind : NodeKind} {f : Nat → View → Bool} (hf : ∀ k v, View.Near (f k) v)
    (hbody : ∀ s, Tandem d C C' more b s) {count : Nat} {inner y y' : Yield} {m m' : Bool}
    {s' t t' : Spot} (hfront : s.IsFront more t)
    (h : Reads d C (.layers kind f b count inner) s m y s')
    (h' : Reads d C' (.layers kind f b count inner) t m' y' t') :
    (m' = m ∧ y' = y ∧ s'.IsFront more t') ∨
      (s'.ahead = [] ∧ inner.braces ++ Token.braces s.ahead <+: y'.braces) := by
  generalize hphase : Phase.layers kind f b count inner = phase at h
  induction h generalizing t m' y' t' count inner with
  | @layer kind f body count inner y₁ y s s₁ s' m hmore h₁ h₂ _ ih =>
      cases hphase
      have hs := hfront.sound_left
      have hpasses := hC.reads h₁ hs
      by_cases hnil : s.ahead = []
      · obtain ⟨rfl, -⟩ := hpasses.idle hnil
        refine .inr ⟨ended_layers hC h₂ hs hnil _ _ _ _ _ rfl, ?_⟩
        rw [hnil, Token.braces_nil, List.append_nil]
        exact prefix_of_layers h' _ _ _ _ _ rfl
      · cases h' with
        | layer _ h₁' h₂' =>
            rcases hbody s t _ _ _ _ _ _ hfront h₁ h₁' with ⟨rfl, rfl, hfront₁⟩ | ⟨hend, hbraces⟩
            · rcases ih hfront₁ h₂' rfl with hsame | ⟨hend, hbraces⟩
              · exact .inl hsame
              · refine .inr ⟨hend, ?_⟩
                rwa [Yield.braces_node, Yield.braces_append, List.append_assoc,
                  ← hpasses.braces] at hbraces
            · refine .inr ⟨ended_layers hC h₂ hpasses.sound hend _ _ _ _ _ rfl, ?_⟩
              have hinner := prefix_of_layers h₂' _ _ _ _ _ rfl
              rw [Yield.braces_node, Yield.braces_append] at hinner
              exact ((List.prefix_append_right_inj _).2 hbraces).trans hinner
        | enough hnone =>
            rw [hf _ s.view t.view (hfront.agrees hnil)] at hnone
            cases hmore.symm.trans hnone
  | @enough kind f body count inner s hnone =>
      cases hphase
      by_cases hnil : s.ahead = []
      · refine .inr ⟨hnil, ?_⟩
        rw [hnil, Token.braces_nil, List.append_nil]
        exact prefix_of_layers h' _ _ _ _ _ rfl
      · cases h' with
        | layer hmore _ _ =>
            rw [hf _ s.view t.view (hfront.agrees hnil)] at hmore
            cases hmore.symm.trans hnone
        | enough _ => exact .inl ⟨rfl, rfl, hfront⟩
  | _ => cases hphase

lemma tandem_wrap {kind : NodeKind} {f : Nat → View → Bool} (hf : ∀ k v, View.Near (f k) v)
    (hfirst : Tandem d C C' more a s) (hbody : ∀ s, Tandem d C C' more b s) :
    Tandem d C C' more (wrap kind a f b) s := by
  rintro t m y s' m' y' t' hfront hs ht
  cases hs with
  | wrap hs₁ hs₂ =>
      have hpasses := hC.reads hs₁ hfront.sound_left
      cases ht with
      | wrap ht₁ ht₂ =>
          rcases hfirst t _ _ _ _ _ _ hfront hs₁ ht₁ with ⟨-, rfl, hfront₁⟩ | ⟨hnil, hbraces⟩
          · rcases pace_layers hC hf hbody hfront₁ hs₂ ht₂ with hsame | ⟨hnil, hbraces⟩
            · exact .inl hsame
            · rw [← hpasses.braces] at hbraces
              exact .inr ⟨hnil, hbraces⟩
          · exact .inr ⟨ended_layers hC hs₂ hpasses.sound hnil _ _ _ _ _ rfl,
              hbraces.trans (prefix_of_layers ht₂ _ _ _ _ _ rfl)⟩
      | unwrapped ht₁ =>
          rcases hfirst t _ _ _ _ _ _ hfront hs₁ ht₁ with ⟨hm, -⟩ | ⟨hnil, hbraces⟩
          · cases hm
          · exact .inr ⟨ended_layers hC hs₂ hpasses.sound hnil _ _ _ _ _ rfl, hbraces⟩
  | unwrapped hs₁ =>
      cases ht with
      | wrap ht₁ ht₂ =>
          rcases hfirst t _ _ _ _ _ _ hfront hs₁ ht₁ with ⟨hm, -⟩ | ⟨hnil, hbraces⟩
          · cases hm
          · exact .inr ⟨hnil, hbraces.trans (prefix_of_layers ht₂ _ _ _ _ _ rfl)⟩
      | unwrapped ht₁ => exact hfirst t _ _ _ _ _ _ hfront hs₁ ht₁

end

/-! ## Attempts -/

/-- Runs of the rule from `s`, and from spots where `more` tokens follow, read the same. -/
def Sync (d : Dialect) (C C' : Calls) (more : List Token) (r : Rule) (s : Spot) : Prop :=
  ∀ t m y s' m' y' t', s.IsFront more t → Reads d C (.rule r) s m y s' →
    Reads d C' (.rule r) t m' y' t' →
    m' = m ∧ y' = y ∧ s'.IsFront more t'

section

variable {d : Dialect} {C C' : Calls} {more : List Token} {s : Spot} {a : Rule}

lemma Sync.tandem (h : Sync d C C' more a s) : Tandem d C C' more a s :=
  fun t _ _ _ _ _ _ hfront hs ht => .inl (h t _ _ _ _ _ _ hfront hs ht)

/-- Both runs count, or both go back. -/
lemma Sync.attempt (h : Sync d C C' more a s) : Sync d C C' more (attempt a) s := by
  rintro t m y s' m' y' t' hfront hs ht
  cases hs with
  | attempt hs hclean =>
      cases ht with
      | attempt ht _ => exact h t _ _ _ _ _ _ hfront hs ht
      | back ht hback =>
          obtain ⟨rfl, rfl, -⟩ := h t _ _ _ _ _ _ hfront hs ht
          exact absurd hclean (hback rfl)
  | back hs hback =>
      cases ht with
      | attempt ht hclean =>
          obtain ⟨rfl, rfl, -⟩ := h t _ _ _ _ _ _ hfront hs ht
          exact absurd hclean (hback rfl)
      | back _ _ => exact ⟨rfl, rfl, hfront⟩

/-- An attempt that fails if it takes a brace. The end lies behind a closing brace, so that it is
not reached. -/
lemma Tandem.attempt (hC : Honest d C) (h : Tandem d C C' more a s) (hne : s.ahead ≠ [])
    (hclean : ∀ m y s', Reads d C (.rule a) s m y s' → y.faults = [] → y.braces = [])
    (hclean' : ∀ t m y t', t.Sound → Reads d C' (.rule a) t m y t' → y.faults = [] →
      y.braces = []) :
    Sync d C C' more (Rule.attempt a) s := by
  rintro t m y s' m' y' t' hfront hs ht
  have hbrace : Token.braces s.ahead ≠ [] := by
    have hlast := hfront.ends _ (List.getLast?_eq_some_getLast hne)
    refine List.ne_nil_of_mem (a := .rightBrace) (List.mem_filter.2 ⟨?_, rfl⟩)
    rw [← hlast]
    exact List.mem_map_of_mem (List.getLast_mem hne)
  -- A clean run does not come to the end.
  have hends : ∀ m y s', Reads d C (.rule a) s m y s' → y.faults = [] → s'.ahead ≠ [] := by
    rintro m y s' hs hfaults hnil
    have hbraces := (hC.reads hs hfront.sound_left).braces
    rw [hclean m y s' hs hfaults, hnil] at hbraces
    exact hbrace hbraces
  cases hs with
  | attempt hs hfaults =>
      cases ht with
      | attempt ht _ =>
          exact (h t _ _ _ _ _ _ hfront hs ht).resolve_right fun hended =>
            hends _ _ _ hs hfaults hended.1
      | back ht hback =>
          obtain ⟨rfl, rfl, -⟩ :=
            (h t _ _ _ _ _ _ hfront hs ht).resolve_right fun hended =>
              hends _ _ _ hs hfaults hended.1
          exact absurd hfaults (hback rfl)
  | back hs hback =>
      cases ht with
      | attempt ht hfaults =>
          rcases h t _ _ _ _ _ _ hfront hs ht with ⟨rfl, rfl, -⟩ | ⟨-, hbraces⟩
          · exact absurd hfaults (hback rfl)
          · rw [hclean' t _ _ _ hfront.sound ht hfaults, List.prefix_nil] at hbraces
            exact absurd hbraces hbrace
      | back _ _ => exact ⟨rfl, rfl, hfront⟩

end

/-! ## Nearsighted rules -/

/-- From where `v` is seen, the rule decides by what lies before a closing brace. It makes no
attempts, and calls nonterminals of a class only. -/
def Nearsighted (Q : Nonterminal → Prop) : Rule → View → Prop
  | done _, _ | take, _ | report _, _ | cutRange, _ => True
  | look next, v => v.Near next ∧ Nearsighted Q (next v) v
  | seq first next, v => Nearsighted Q first v ∧ ∀ m v, Nearsighted Q (next m) v
  | many body, _ => ∀ v, Nearsighted Q body v
  | node _ body, v => Nearsighted Q body v
  | wrap _ first f body, v =>
      Nearsighted Q first v ∧ (∀ k v, View.Near (f k) v) ∧ ∀ v, Nearsighted Q body v
  | attempt _, _ => False
  | call name, _ => Q name

/-- Nearsighted rules keep pace. -/
theorem tandem_of_nearsighted {d : Dialect} {C C' : Calls} {more : List Token}
    {Q : Nonterminal → Prop} (hC : Honest d C)
    (hcalls : ∀ name, Q name → ∀ s, Tandem d C C' more (call name) s) {r : Rule} {s : Spot}
    (hr : r.Nearsighted Q s.view) : Tandem d C C' more r s := by
  induction r generalizing s with
  | done matched => exact tandem_done matched
  | look next ih => exact tandem_look hC hr.1 (ih _ hr.2)
  | take => exact tandem_take hC
  | report fault => exact tandem_report fault
  | cutRange => exact tandem_cutRange hC
  | seq first next ih ih' => exact tandem_seq hC (ih hr.1) fun m _ _ _ _ => ih' m (hr.2 m _)
  | many body ih =>
      exact tandem_many (I := fun _ => True) hC (fun s _ => ih (hr _))
        (fun _ _ _ _ _ _ _ => trivial) trivial
  | node kind body ih => exact tandem_node kind (ih hr)
  | wrap kind first f body ih ih' => exact tandem_wrap hC hr.2.1 (ih hr.1) fun _ => ih' (hr.2.2 _)
  | attempt body => exact absurd hr id
  | call name => exact hcalls name hr s

section

variable {Q : Nonterminal → Prop} {v : View}

attribute [simp] Nearsighted

@[simp] lemma nearsighted_ite (c : Prop) [Decidable c] (a b : Rule) :
    Nearsighted Q (if c then a else b) v ↔ (c → Nearsighted Q a v) ∧ (¬ c → Nearsighted Q b v) := by
  split <;> simp_all

@[simp] lemma nearsighted_accept : Nearsighted Q accept v := trivial

@[simp] lemma nearsighted_fail : Nearsighted Q fail v := trivial

@[simp] lemma nearsighted_test {c : View → Bool} (hc : View.Near c v) : Nearsighted Q (test c) v :=
  ⟨fun w h => congrArg done (hc w h), trivial⟩

@[simp] lemma nearsighted_choose {c : View → Bool} (hc : View.Near c v) (a b : Rule) :
    Nearsighted Q (choose c a b) v ↔
      (c v = true → Nearsighted Q a v) ∧ (c v = false → Nearsighted Q b v) := by
  have hnear : View.Near (fun v => if c v then a else b) v := by
    intro w h
    show (if c w then a else b) = if c v then a else b
    rw [hc w h]
  rw [choose, Nearsighted]
  simp [hnear]

@[simp] lemma nearsighted_when {c : View → Bool} (hc : View.Near c v) (a : Rule) :
    Nearsighted Q (when c a) v ↔ (c v = true → Nearsighted Q a v) := by
  simp [when, hc]

@[simp] lemma nearsighted_then (a b : Rule) :
    Nearsighted Q (a >> b) v ↔ Nearsighted Q a v ∧ ∀ v, Nearsighted Q b v := by
  change Nearsighted Q a v ∧ (∀ (_ : Bool) v, Nearsighted Q b v) ↔ _
  simp

@[simp] lemma nearsighted_or (a b : Rule) :
    Nearsighted Q (a ||| b) v ↔ Nearsighted Q a v ∧ ∀ v, Nearsighted Q b v := by
  change Nearsighted Q a v ∧ (∀ (m : Bool) v, Nearsighted Q (if m = true then accept else b) v) ↔ _
  simp

@[simp] lemma nearsighted_and (a b : Rule) :
    Nearsighted Q (a &&& b) v ↔ Nearsighted Q a v ∧ ∀ v, Nearsighted Q b v := by
  change Nearsighted Q a v ∧ (∀ (m : Bool) v, Nearsighted Q (if m = true then b else fail) v) ↔ _
  simp

end

end Rule

end StyleSheet
