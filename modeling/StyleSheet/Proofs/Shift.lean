import Mathlib
import StyleSheet.Proofs.Reading

/-!
# Reading further on in a source

Rules see kinds, texts and gaps, but no offsets. So what is read from a spot is read in the same way
if the tokens stand `n` bytes further on, behind other ones (`Reads.behind`).

The start of a source is an exception: there is no token before it, which counts as a gap. A rule
that begins there reads the same behind another token if it does not look back before it has taken a
token (`Forward.behind`).
-/

namespace StyleSheet

open Token

/-! ## Tokens -/

namespace Token

@[simp] lemma kind_shift (n : Nat) (t : Token) : (t.shift n).kind = t.kind := rfl

@[simp] lemma text_shift (n : Nat) (t : Token) : (t.shift n).text = t.text := rfl

@[simp] lemma isWhole_shift (n : Nat) (t : Token) : (t.shift n).isWhole = t.isWhole := by
  simp [isWhole, shift, Nat.add_sub_add_right]

lemma readFrom_shift (d : Dialect) (n offset : Nat) (t : Text) :
    readFrom d (offset + n) t = (readFrom d offset t).map (shift n) := by
  fun_induction readFrom d offset t with
  | case1 offset => simp [readFrom]
  | case2 offset b rest l ih =>
      have hcut : Token.cut (offset + n) (b :: rest) l =
          (Token.cut offset (b :: rest) l).shift n := by
        simp only [Token.cut, shift, Nat.add_right_comm offset n]
      rw [readFrom, List.map_cons, ← ih, ← hcut, Nat.add_right_comm offset l.length n]

end Token

namespace Parser

lemma gluedTo_shift (n stop : Nat) (l : List Token) :
    gluedTo (stop + n) (l.map (shift n)) = (gluedTo stop l).map (shift n) := by
  induction l generalizing stop with
  | nil => rfl
  | cons t l ih =>
      have hstart : decide ((t.shift n).start ≤ stop + n) = decide (t.start ≤ stop) :=
        decide_eq_decide.2 Nat.add_le_add_iff_right
      rw [List.map_cons, gluedTo, gluedTo, kind_shift, hstart]
      split
      · rw [List.map_cons, ← ih]
        rfl
      · rfl

lemma runText_shift (n : Nat) (l : List Token) : runText (l.map (shift n)) = runText l := by
  simp [runText, List.flatMap_map, Function.comp_def]

lemma rangePieces_shift (d : Dialect) (n : Nat) (range : Token) (glued : List Token) :
    rangePieces d (range.shift n) (glued.map (shift n)) =
      (rangePieces d range glued).map (shift n) := by
  have hstart : (range.shift n).start + 2 = range.start + 2 + n := Nat.add_right_comm _ _ _
  rw [rangePieces, rangePieces, ← List.map_cons, runText_shift, hstart, readFrom_shift]
  simp [shift, Nat.add_right_comm]

end Parser

namespace Spot

lemma cutAhead_shift (d : Dialect) (n : Nat) (l : List Token) :
    cutAhead d (l.map (shift n)) = (cutAhead d l).map (shift n) := by
  cases l with
  | nil => rfl
  | cons range rest =>
      have hglued := Parser.gluedTo_shift n range.stop rest
      rw [List.map_cons, cutAhead, cutAhead, kind_shift]
      split
      · dsimp only
        rw [show (range.shift n).stop = range.stop + n from rfl, hglued, Parser.rangePieces_shift,
          List.length_map, List.map_append, List.map_drop]
      · rfl

end Spot

/-! ## Yields -/

namespace Yield

/-- The yield of the same tokens `n` bytes further on. -/
def shift (n : Nat) : Yield → Yield
  | nil => nil
  | token t rest => token (t.shift n) (rest.shift n)
  | fault f rest => fault f (rest.shift n)
  | node kind inner rest => node kind (inner.shift n) (rest.shift n)

variable {n : Nat}

@[simp] lemma shift_append (y z : Yield) : (y ++ z).shift n = y.shift n ++ z.shift n := by
  induction y with
  | nil => rfl
  | token t rest ih => simp only [token_append, shift, ih]
  | fault f rest ih => simp only [fault_append, shift, ih]
  | node kind inner rest _ ih => simp only [node_append, shift, ih]

@[simp] lemma tokens_shift (y : Yield) : (y.shift n).tokens = y.tokens.map (Token.shift n) := by
  induction y with
  | nil => rfl
  | token t rest ih => rw [shift, tokens, ih, tokens, List.map_cons]
  | fault f rest ih => rw [shift, tokens, ih, tokens]
  | node kind inner rest ih ih' => rw [shift, tokens, ih, ih', tokens, List.map_append]

@[simp] lemma faults_shift (y : Yield) : (y.shift n).faults = y.faults := by
  induction y with
  | nil => rfl
  | token t rest ih => rw [shift, faults, ih, faults]
  | fault f rest ih => rw [shift, faults, ih, faults]
  | node kind inner rest ih ih' => rw [shift, faults, ih, ih', faults]

end Yield

/-! ## Views and spots -/

namespace View

/-- Two views that do not differ in what lies ahead. -/
def SameAhead (v w : View) : Prop :=
  w.kind = v.kind ∧ w.text = v.text ∧ ∀ n, w.gap (n + 1) = v.gap (n + 1)

/-- What is told of a view does not depend on what lies behind the place of the view. -/
def Forward {α : Type} (f : View → α) (v : View) : Prop := ∀ w, v.SameAhead w → f w = f v

end View

namespace Spot

/-- The spot as it stands `n` bytes further on, behind the token `l` if none has been taken. -/
def behind (l : Token) (n : Nat) (s : Spot) : Spot :=
  ⟨some ((s.last.map (shift n)).getD l), s.ahead.map (shift n), s.length + n⟩

/-- The start of a source that is not empty: there are tokens ahead, and none has been taken. -/
def IsStart (s : Spot) : Prop := s.last = none ∧ s.ahead ≠ []

variable {l : Token} {n : Nat} {s : Spot}

lemma IsStart.cut (h : s.IsStart) (d : Dialect) : (s.cut d).IsStart := by
  obtain ⟨t, rest, hahead⟩ := List.exists_cons_of_ne_nil h.2
  refine ⟨h.1, ?_⟩
  show cutAhead d s.ahead ≠ []
  rw [hahead, cutAhead]
  split
  · simp [Parser.rangePieces]
  · simp

lemma sameAhead_behind : s.view.SameAhead (s.behind l n).view := by
  refine ⟨?_, ?_, fun i => ?_⟩
  · funext i
    simp [kind_view, behind, Function.comp_def]
  · funext i
    simp [text_view, behind, Function.comp_def]
  · rw [gap_view, gap_view]
    simp only [behind, before?, List.getElem?_map]
    cases s.ahead[i]? with
    | none => rfl
    | some t => cases s.ahead[i + 1]? <;> simp [shift]

/-- A token has been taken, so that what was before the source does not matter. -/
lemma view_behind (h : s.last ≠ none) : (s.behind l n).view = s.view := by
  obtain ⟨hkind, htext, hgap⟩ := sameAhead_behind (l := l) (n := n) (s := s)
  obtain ⟨t, ht⟩ := Option.ne_none_iff_exists'.1 h
  have hfirst : (s.behind l n).view.gap 0 = s.view.gap 0 := by
    rw [gap_view, gap_view]
    simp only [behind, before?, ht, List.getElem?_map]
    cases s.ahead[0]? <;> simp [shift]
  have hlast : (s.behind l n).view.last = s.view.last := by simp [view, behind, ht]
  cases hv : (s.behind l n).view
  cases hw : s.view
  simp only [hv, hw] at hkind htext hgap hfirst hlast
  subst hkind htext hlast
  congr
  funext i
  cases i with
  | zero => exact hfirst
  | succ i => exact hgap i

lemma next_behind : (s.behind l n).next = s.next.behind l n := by
  cases h : s.ahead with
  | nil =>
      have hbehind : (s.behind l n).ahead = [] := by simp [behind, h]
      rw [next_of_nil h, next_of_nil hbehind]
  | cons t rest =>
      have hbehind : (s.behind l n).ahead = t.shift n :: rest.map (shift n) := by simp [behind, h]
      rw [next_of_cons h, next_of_cons hbehind]
      rfl

lemma taken_behind : (s.behind l n).taken = s.taken.shift n := by
  cases h : s.ahead with
  | nil =>
      have hbehind : (s.behind l n).ahead = [] := by simp [behind, h]
      rw [taken_of_nil h, taken_of_nil hbehind]
      rfl
  | cons t rest =>
      have hbehind : (s.behind l n).ahead = t.shift n :: rest.map (shift n) := by simp [behind, h]
      rw [taken_of_cons h, taken_of_cons hbehind]
      rfl

lemma cut_behind (d : Dialect) : (s.behind l n).cut d = (s.cut d).behind l n := by
  simp only [cut, behind, cutAhead_shift]

lemma last_next (h : s.last ≠ none ∨ s.ahead ≠ []) : s.next.last ≠ none := by
  cases hahead : s.ahead with
  | nil =>
      rw [next_of_nil hahead]
      exact h.resolve_right (not_not_intro hahead)
  | cons t rest =>
      rw [next_of_cons hahead]
      exact Option.some_ne_none t

end Spot

/-! ## Runs behind the first token -/

/-- The phase as it is `n` bytes further on. -/
def Phase.shift (n : Nat) : Phase → Phase
  | .rule r => .rule r
  | .layers kind more body count inner => .layers kind more body count (inner.shift n)

namespace Rule

/-- Calls that answer the same `n` bytes further on, once a token has been taken. -/
def Shifts (l : Token) (n : Nat) (C C' : Calls) : Prop :=
  ∀ name s m y s', s.last ≠ none → C name s m y s' →
    C' name (s.behind l n) m (y.shift n) (s'.behind l n) ∧ s'.last ≠ none

section

variable {d : Dialect} {C C' : Calls} {l : Token} {n : Nat} {s s' : Spot} {m : Bool} {y : Yield}

/-- What is read behind a token is read the same `n` bytes further on. -/
theorem Reads.behind (hcalls : Shifts l n C C') {phase : Phase} (h : Reads d C phase s m y s')
    (hs : s.last ≠ none) :
    Reads d C' (phase.shift n) (s.behind l n) m (y.shift n) (s'.behind l n) ∧ s'.last ≠ none := by
  induction h with
  | done matched s => exact ⟨.done matched _, hs⟩
  | look _ ih =>
      rw [← Spot.view_behind (l := l) (n := n) hs] at ih
      exact ⟨.look (ih hs).1, (ih hs).2⟩
  | take s =>
      rw [← Spot.taken_behind (l := l), ← Spot.next_behind]
      exact ⟨.take _, Spot.last_next (.inl hs)⟩
  | report f s => exact ⟨.report f _, hs⟩
  | cutRange s =>
      rw [← Spot.cut_behind]
      exact ⟨.cutRange _, hs⟩
  | seq _ _ ih ih' =>
      obtain ⟨h, hs⟩ := ih hs
      obtain ⟨h', hs'⟩ := ih' hs
      rw [Yield.shift_append]
      exact ⟨.seq h h', hs'⟩
  | again _ _ ih ih' =>
      obtain ⟨h, hs⟩ := ih hs
      obtain ⟨h', hs'⟩ := ih' hs
      rw [Yield.shift_append]
      exact ⟨.again h h', hs'⟩
  | stop _ ih => exact ⟨.stop (ih hs).1, (ih hs).2⟩
  | node _ ih => exact ⟨.node (ih hs).1, (ih hs).2⟩
  | drop _ ih => exact ⟨.drop (ih hs).1, (ih hs).2⟩
  | wrap _ _ ih ih' =>
      obtain ⟨h, hs⟩ := ih hs
      obtain ⟨h', hs'⟩ := ih' hs
      exact ⟨.wrap h h', hs'⟩
  | unwrapped _ ih => exact ⟨.unwrapped (ih hs).1, (ih hs).2⟩
  | attempt _ hclean ih =>
      exact ⟨.attempt (ih hs).1 (by rwa [Yield.faults_shift]), (ih hs).2⟩
  | back _ hback ih =>
      exact ⟨.back (ih hs).1 (by rwa [Yield.faults_shift]), hs⟩
  | call hcall =>
      obtain ⟨h, hs'⟩ := hcalls _ _ _ _ _ hs hcall
      exact ⟨.call h, hs'⟩
  | layer hmore _ _ ih ih' =>
      rw [← Spot.view_behind (l := l) (n := n) hs] at hmore
      obtain ⟨h, hs⟩ := ih hs
      obtain ⟨h', hs'⟩ := ih' hs
      rw [Phase.shift, Yield.shift, Yield.shift_append] at h'
      exact ⟨.layer hmore h h', hs'⟩
  | enough hnone =>
      rw [← Spot.view_behind (l := l) (n := n) hs] at hnone
      exact ⟨.enough hnone, hs⟩

/-! ## Runs from the start -/

/-- From the start of a source, where `v` is seen, the rule does not look back before it has taken a
token. If it ends without having taken one, `post` holds of its outcome and of what is seen then.
This is known of nonterminals by `Q`. -/
def Forward (Q : Nonterminal → View → (Bool → View → Prop) → Prop) :
    Rule → View → (Bool → View → Prop) → Prop
  | done matched, v, post => post matched v
  | look next, v, post => v.Forward next ∧ Forward Q (next v) v post
  | take, _, _ => True
  | report _, v, post => post false v
  | cutRange, _, post => ∀ v, post true v
  | seq first next, v, post => Forward Q first v fun m v => Forward Q (next m) v post
  | many body, _, post => ∀ v, Forward Q body v fun m v => m = false → post true v
  | node _ body, v, post => Forward Q body v post
  | wrap _ first _ _, v, post => Forward Q first v fun m v => m = false ∧ post false v
  | attempt body, v, post => Forward Q body v (fun m v => m = true → post true v) ∧ post false v
  | call name, v, post => Q name v post

/-- Calls that answer the same behind the token `l` as at the start of a source, as far as `Q`
knows. -/
def StartsAlike (l : Token) (n : Nat) (C C' : Calls)
    (Q : Nonterminal → View → (Bool → View → Prop) → Prop) : Prop :=
  ∀ name s m y s' post, Q name s.view post → s.IsStart → C name s m y s' →
    C' name (s.behind l n) m (y.shift n) (s'.behind l n) ∧
    (s'.last ≠ none ∨ s'.IsStart ∧ post m s'.view)

/-- A rule that does not look back reads behind another token what it reads at the start. -/
theorem Forward.behind {Q : Nonterminal → View → (Bool → View → Prop) → Prop}
    (hcalls : Shifts l n C C') (hstarts : StartsAlike l n C C' Q) {r : Rule}
    {post : Bool → View → Prop} (hr : r.Forward Q s.view post) (hs : s.IsStart)
    (h : Reads d C (.rule r) s m y s') :
    Reads d C' (.rule r) (s.behind l n) m (y.shift n) (s'.behind l n) ∧
      (s'.last ≠ none ∨ s'.IsStart ∧ post m s'.view) := by
  induction r generalizing s m y s' post with
  | done matched =>
      obtain ⟨rfl, rfl, rfl⟩ := reads_done.1 h
      exact ⟨.done _ _, .inr ⟨hs, hr⟩⟩
  | look next ih =>
      obtain ⟨hread, hend⟩ := ih s.view hr.2 hs (reads_look.1 h)
      refine ⟨reads_look.2 ?_, hend⟩
      rwa [hr.1 _ Spot.sameAhead_behind]
  | take =>
      obtain ⟨rfl, rfl, rfl⟩ := reads_take.1 h
      exact ⟨reads_take.2 ⟨rfl, Spot.taken_behind.symm, Spot.next_behind.symm⟩,
        .inl (Spot.last_next (.inr hs.2))⟩
  | report fault =>
      obtain ⟨rfl, rfl, rfl⟩ := reads_report.1 h
      exact ⟨.report _ _, .inr ⟨hs, hr⟩⟩
  | cutRange =>
      obtain ⟨rfl, rfl, rfl⟩ := reads_cutRange.1 h
      exact ⟨reads_cutRange.2 ⟨rfl, rfl, (Spot.cut_behind d).symm⟩, .inr ⟨hs.cut d, hr _⟩⟩
  | seq first next ih ih' =>
      obtain ⟨m₁, y₁, s₁, y₂, h₁, h₂, rfl⟩ := reads_seq.1 h
      rw [Yield.shift_append]
      obtain ⟨hfirst, hbegun | ⟨hstart, hnext⟩⟩ := ih hr hs h₁
      · obtain ⟨hrest, hend⟩ := h₂.behind hcalls hbegun
        exact ⟨.seq hfirst hrest, .inl hend⟩
      · obtain ⟨hrest, hend⟩ := ih' m₁ hnext hstart h₂
        exact ⟨.seq hfirst hrest, hend⟩
  | many body ih =>
      generalize hphase : Phase.rule (many body) = phase at h
      induction h with
      | again h₁ h₂ _ ihrest =>
          cases hphase
          rw [Yield.shift_append]
          obtain ⟨hfirst, hbegun | ⟨hstart, -⟩⟩ := ih (hr _) hs h₁
          · obtain ⟨hrest, hend⟩ := h₂.behind hcalls hbegun
            exact ⟨.again hfirst hrest, .inl hend⟩
          · obtain ⟨hrest, hend⟩ := ihrest hr hstart rfl
            exact ⟨.again hfirst hrest, hend⟩
      | stop h₁ _ =>
          cases hphase
          obtain ⟨hfirst, hend⟩ := ih (hr _) hs h₁
          exact ⟨.stop hfirst, hend.imp_right fun hstop => ⟨hstop.1, hstop.2 rfl⟩⟩
      | _ => cases hphase
  | node kind body ih =>
      obtain ⟨z, hbody, rfl⟩ := reads_node.1 h
      obtain ⟨hread, hend⟩ := ih hr hs hbody
      refine ⟨reads_node.2 ⟨_, hread, ?_⟩, hend⟩
      cases m <;> rfl
  | wrap kind first more body ih =>
      cases h with
      | wrap h₁ h₂ =>
          obtain ⟨hfirst, hbegun | ⟨-, hmatched, -⟩⟩ := ih hr hs h₁
          · obtain ⟨hrest, hend⟩ := h₂.behind hcalls hbegun
            exact ⟨.wrap hfirst hrest, .inl hend⟩
          · cases hmatched
      | unwrapped h₁ =>
          obtain ⟨hfirst, hend⟩ := ih hr hs h₁
          exact ⟨.unwrapped hfirst, hend.imp_right fun hstop => ⟨hstop.1, hstop.2.2⟩⟩
  | attempt body ih =>
      cases h with
      | attempt h₁ hclean =>
          obtain ⟨hbody, hend⟩ := ih hr.1 hs h₁
          exact ⟨.attempt hbody (by rwa [Yield.faults_shift]),
            hend.imp_right fun hstop => ⟨hstop.1, hstop.2 rfl⟩⟩
      | back h₁ hback =>
          obtain ⟨hbody, -⟩ := ih hr.1 hs h₁
          exact ⟨.back hbody (by rwa [Yield.faults_shift]), .inr ⟨hs, hr.2⟩⟩
  | call name =>
      obtain ⟨hcall, hend⟩ := hstarts name _ _ _ _ _ hr hs (reads_call.1 h)
      exact ⟨.call hcall, hend⟩

end

/-! ## Compound rules -/

section

variable {Q : Nonterminal → View → (Bool → View → Prop) → Prop} {v : View}
  {post : Bool → View → Prop}

attribute [simp] Forward

@[simp] lemma forward_ite (c : Prop) [Decidable c] (a b : Rule) :
    Forward Q (if c then a else b) v post ↔
      (c → Forward Q a v post) ∧ (¬ c → Forward Q b v post) := by
  split <;> simp_all

@[simp] lemma forward_accept : Forward Q accept v post ↔ post true v := Iff.rfl

@[simp] lemma forward_fail : Forward Q fail v post ↔ post false v := Iff.rfl

@[simp] lemma forward_choose {c : View → Bool} (hc : View.Forward c v) (a b : Rule) :
    Forward Q (choose c a b) v post ↔
      (c v = true → Forward Q a v post) ∧ (c v = false → Forward Q b v post) := by
  have hforward : View.Forward (fun v => if c v then a else b) v := by
    intro w h
    show (if c w then a else b) = if c v then a else b
    rw [hc w h]
  rw [choose, Forward]
  simp [hforward]

@[simp] lemma forward_when {c : View → Bool} (hc : View.Forward c v) (a : Rule) :
    Forward Q (when c a) v post ↔
      (c v = true → Forward Q a v post) ∧ (c v = false → post false v) := by
  simp [when, hc]

@[simp] lemma forward_then (a b : Rule) :
    Forward Q (a >> b) v post ↔ Forward Q a v fun _ v => Forward Q b v post := Iff.rfl

@[simp] lemma forward_or (a b : Rule) :
    Forward Q (a ||| b) v post ↔
      Forward Q a v fun m v => (m = true → post true v) ∧ (m = false → Forward Q b v post) := by
  change (Forward Q a v fun m v => Forward Q (if m = true then accept else b) v post) ↔ _
  simp

@[simp] lemma forward_and (a b : Rule) :
    Forward Q (a &&& b) v post ↔
      Forward Q a v fun m v => (m = true → Forward Q b v post) ∧ (m = false → post false v) := by
  change (Forward Q a v fun m v => Forward Q (if m = true then b else fail) v post) ↔ _
  simp

end

end Rule

end StyleSheet
