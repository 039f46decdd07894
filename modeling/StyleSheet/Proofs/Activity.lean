import Mathlib
import StyleSheet.Proofs.Execution

/-!
# What is carried out inside of a rule

Carrying out a rule carries out other rules in turn: its parts, one behind the other, and the rules
of the nonterminals that it calls. `Starts` says which activity starts which other one, in which
state, and `Repeats` how a loop goes round. No call is left out: an outcome depends on the answers
to the calls that are started and on nothing else (`exec_eq_of_agrees`).

The bytes ahead measure all of it. They become fewer with each round of a loop (`Repeats.ahead_lt`),
and from a call to a call further inside unless the rank falls (`call_decreases`).
-/

namespace StyleSheet.Grammar

open Rule Relation

/-- What is carried out: a rule, or the part of a `wrap` that puts nodes around what has been
read. -/
inductive Task where
  | rule (r : Rule)
  | layers (kind : NodeKind) (more : Nat → View → Bool) (body : Rule) (count place : Nat)

/-- A task and the state in which it begins. -/
structure Activity where
  task : Task
  parser : Parser

/-- One activity starts another one directly. The rule of a nonterminal takes the place of its
call. -/
inductive Starts (d : Dialect) (bound : Nat) : Activity → Activity → Prop
  | look (next : View → Rule) (p : Parser) :
      Starts d bound ⟨.rule (.look next), p⟩ ⟨.rule (next p.stream.view), p⟩
  | first (first : Rule) (next : Bool → Rule) (p : Parser) :
      Starts d bound ⟨.rule (.seq first next), p⟩ ⟨.rule first, p⟩
  | next {first : Rule} {next : Bool → Rule} {p q : Parser} {matched : Bool}
      (hfirst : exec d bound first p = some ⟨matched, q⟩) :
      Starts d bound ⟨.rule (.seq first next), p⟩ ⟨.rule (next matched), q⟩
  | round (body : Rule) (p : Parser) :
      Starts d bound ⟨.rule (.many body), p⟩ ⟨.rule body, p⟩
  | again {body : Rule} {p q : Parser} (hbody : exec d bound body p = some ⟨true, q⟩) :
      Starts d bound ⟨.rule (.many body), p⟩ ⟨.rule (.many body), q⟩
  | node (kind : NodeKind) (body : Rule) (p : Parser) :
      Starts d bound ⟨.rule (.node kind body), p⟩ ⟨.rule body, p.openNode⟩
  | innermost (kind : NodeKind) (first : Rule) (more : Nat → View → Bool) (body : Rule)
      (p : Parser) :
      Starts d bound ⟨.rule (.wrap kind first more body), p⟩ ⟨.rule first, p⟩
  | outer {kind : NodeKind} {first : Rule} {more : Nat → View → Bool} {body : Rule} {p q : Parser}
      (hfirst : exec d bound first p = some ⟨true, q⟩) :
      Starts d bound ⟨.rule (.wrap kind first more body), p⟩
        ⟨.layers kind more body 0 p.events.size, q⟩
  | layer {kind : NodeKind} {more : Nat → View → Bool} {body : Rule} {count place : Nat}
      {p : Parser} (hmore : more count p.stream.view = true) :
      Starts d bound ⟨.layers kind more body count place, p⟩ ⟨.rule body, p.openAround place⟩
  | nextLayer {kind : NodeKind} {more : Nat → View → Bool} {body : Rule} {count place : Nat}
      {p q : Parser} {matched : Bool} (hmore : more count p.stream.view = true)
      (hbody : exec d bound body (p.openAround place) = some ⟨matched, q⟩) :
      Starts d bound ⟨.layers kind more body count place, p⟩
        ⟨.layers kind more body (count + 1) p.events.size, q.closeNode p.events.size kind⟩
  | attempt (body : Rule) (p : Parser) :
      Starts d bound ⟨.rule (.attempt body), p⟩ ⟨.rule body, p⟩
  | call (name : Nonterminal) (p : Parser) :
      Starts d bound ⟨.rule (.call name), p⟩ ⟨.rule (Grammar.rule d name), p⟩

/-- A loop goes round: a round begins with the first activity, and the loop goes on with the second.
Where layers are counted so that none can follow, whatever lies ahead, there is no loop to go on
with. -/
inductive Repeats (d : Dialect) (bound : Nat) : Activity → Activity → Prop
  | many {body : Rule} {p q : Parser} (hbody : exec d bound body p = some ⟨true, q⟩) :
      Repeats d bound ⟨.rule (.many body), p⟩ ⟨.rule (.many body), q⟩
  | layers {kind : NodeKind} {more : Nat → View → Bool} {body : Rule} {count place : Nat}
      {p q : Parser} {matched : Bool} (hmore : more count p.stream.view = true)
      (hbody : exec d bound body (p.openAround place) = some ⟨matched, q⟩)
      (hagain : ∃ v, more (count + 1) v = true) :
      Repeats d bound ⟨.layers kind more body count place, p⟩
        ⟨.layers kind more body (count + 1) p.events.size, q.closeNode p.events.size kind⟩

variable {d : Dialect} {source : Text} {bound : Nat}

/-! ## No call is made that is not started -/

/-- The calls that an activity starts are answered as by the grammar. -/
def Agrees (d : Dialect) (bound : Nat) (call : Nonterminal → Parser → Option Outcome)
    (a : Activity) : Prop :=
  ∀ name q, ReflTransGen (Starts d bound) a ⟨.rule (.call name), q⟩ →
    call name q = run d bound name q

section

variable {call : Nonterminal → Parser → Option Outcome}

lemma Agrees.step {a b : Activity} (h : Agrees d bound call a) (hstep : Starts d bound a b) :
    Agrees d bound call b :=
  fun name q hq => h name q (.head hstep hq)

lemma repeatUntil_eq_of_agrees {body : Rule}
    (hbody : ∀ p, Agrees d bound call ⟨.rule body, p⟩ →
      body.exec call bound p = exec d bound body p)
    (rounds : Nat) {p : Parser} (h : Agrees d bound call ⟨.rule (.many body), p⟩) :
    repeatUntil (body.exec call bound) rounds p = repeatUntil (exec d bound body) rounds p := by
  induction rounds generalizing p with
  | zero => rfl
  | succ rounds ih =>
      rw [repeatUntil, repeatUntil, hbody p (h.step (.round body p))]
      cases ho : exec d bound body p with
      | none => rfl
      | some o =>
          obtain ⟨matched, q⟩ := o
          cases matched with
          | false => rfl
          | true => exact ih (h.step (.again ho))

lemma wrapWhile_eq_of_agrees {kind : NodeKind} {more : Nat → View → Bool} {body : Rule}
    (hbody : ∀ p, Agrees d bound call ⟨.rule body, p⟩ →
      body.exec call bound p = exec d bound body p)
    (rounds : Nat) {count place : Nat} {p : Parser}
    (h : Agrees d bound call ⟨.layers kind more body count place, p⟩) :
    wrapWhile kind more (body.exec call bound) rounds count place p =
      wrapWhile kind more (exec d bound body) rounds count place p := by
  induction rounds generalizing count place p with
  | zero => rfl
  | succ rounds ih =>
      rw [wrapWhile, wrapWhile]
      split
      · rename_i hmore
        rw [hbody _ (h.step (.layer hmore))]
        cases ho : exec d bound body (p.openAround place) with
        | none => rfl
        | some o => exact ih (h.step (.nextLayer hmore ho))
      · rfl

/-- An outcome depends on no other calls than those that are started. -/
theorem exec_eq_of_agrees {r : Rule} {p : Parser} (h : Agrees d bound call ⟨.rule r, p⟩) :
    r.exec call bound p = exec d bound r p := by
  induction r generalizing p with
  | look next ih => exact ih _ (h.step (.look next p))
  | seq first next hfirst hnext =>
      rw [exec, Rule.exec, Rule.exec, hfirst (h.step (.first first next p))]
      cases ho : exec d bound first p with
      | none =>
          rw [exec] at ho
          rw [ho]
      | some o =>
          rw [exec] at ho
          rw [ho]
          exact hnext o.matched (h.step (.next ho))
  | many body ih => exact repeatUntil_eq_of_agrees (fun p => ih) bound h
  | node kind body ih =>
      rw [exec, Rule.exec, Rule.exec, ih (h.step (.node kind body p)), exec]
  | wrap kind first more body hfirst hbody =>
      rw [exec, Rule.exec, Rule.exec, hfirst (h.step (.innermost kind first more body p)), exec]
      cases ho : first.exec (run d bound) bound p with
      | none => rfl
      | some o =>
          obtain ⟨matched, q⟩ := o
          cases matched with
          | false => rfl
          | true => exact wrapWhile_eq_of_agrees (fun p => hbody) bound (h.step (.outer ho))
  | attempt body ih =>
      rw [exec, Rule.exec, Rule.exec, ih (h.step (.attempt body p)), exec]
  | call name => exact h name p .refl
  | _ => rfl

end

/-! ## The outcome of a rule that is carried out -/

section

variable {r : Rule} {p q : Parser} {matched : Bool} (hp : p.Consistent d source)
  (ho : exec d bound r p = some ⟨matched, q⟩)
include hp ho

lemma consistent_of_exec : q.Consistent d source := (tame_run bound).consistent hp ho

lemma grown_of_exec (hr : r.Nested) : Parser.Grown p q :=
  (Parser.exec_grown (tame_run bound) hr hp ho).1

/-- What the analysis says about a rule holds of its outcome. -/
lemma holds_of_exec (hbound : Grammar.bound source.length ≤ bound) (hr : r.Nested) {k : Nat}
    {post : Post} (hpost : r.Ensures d k p.stream.view post) :
    ∃ g : Grade, g.Holds p q ∧ post matched g q.stream.view := by
  have hahead : p.ahead ≤ source.length := hp.ahead_le
  have henough : p.ahead + 2 ≤ bound := by
    rw [Grammar.bound] at hbound
    omega
  obtain ⟨o, g, ho', hg, hout⟩ := (Parser.analysed (tame_run bound) hr).ensures p k post hp henough
    (answers_run hbound _ _) hpost
  obtain rfl : ⟨matched, q⟩ = o := Option.some.inj (ho.symm.trans ho')
  exact ⟨g, hg, hout⟩

end

/-! ## Activities inside of a rule -/

/-- What holds of an activity inside of a call of rank `k` with `n` bytes ahead: fewer bytes are
ahead, or only calls of lower rank are made as long as no token is taken. -/
def Inside (d : Dialect) (source : Text) (k n : Nat) : Activity → Prop
  | ⟨.rule r, p⟩ => p.Consistent d source ∧ r.Total d ∧
      (p.ahead < n ∨ p.ahead ≤ n ∧ ∃ j ≤ k, ∃ post, r.Ensures d j p.stream.view post)
  | ⟨.layers _ more body _ _, p⟩ => p.Consistent d source ∧ Rounds d more body ∧ p.ahead < n

lemma Inside.consistent {k n : Nat} {a : Activity} (h : Inside d source k n a) :
    a.parser.Consistent d source := by
  obtain ⟨task, p⟩ := a
  cases task <;> exact h.1

lemma ensures_rule {name : Nonterminal} (hname : name.isOf d = true) {v : View} (hv : v.Proper) :
    ∃ post, (rule d name).Ensures d name.rank v post := by
  by_cases hne : name = .mediaCondition
  · subst hne
    refine ⟨fun _ _ _ => True, ?_⟩
    simp [rule, mediaCondition, joinedOperands, loops_joinedOperand, ensures_mediaOperand]
  · exact ⟨_, (keeps hname hne).ensures v hv⟩

section

variable {k n : Nat} {p q : Parser}

/-- A rule that begins with another one, in the same place, leaves it no more calls than it has
itself. -/
lemma Inside.begin {r r' : Rule} (h : Inside d source k n ⟨.rule r, p⟩) (hq : q.Consistent d source)
    (hahead : q.ahead = p.ahead) (htotal : r'.Total d)
    (hensures : ∀ j post, r.Ensures d j p.stream.view post →
      ∃ post', r'.Ensures d j q.stream.view post') :
    Inside d source k n ⟨.rule r', q⟩ := by
  obtain ⟨-, -, hn⟩ := h
  rw [← hahead] at hn
  refine ⟨hq, htotal, hn.imp_right ?_⟩
  rintro ⟨hle, j, hj, post, hpost⟩
  exact ⟨hle, j, hj, hensures j post hpost⟩

/-- A round of a loop that is not the last one takes a token. -/
lemma ahead_lt_of_round (hbound : Grammar.bound source.length ≤ bound) {body : Rule}
    (hp : p.Consistent d source) (hloop : (Rule.many body).Total d)
    (hbody : exec d bound body p = some ⟨true, q⟩) : q.ahead < p.ahead := by
  have hnested := hloop.1.nested
  obtain ⟨g, hg, hmoved⟩ := holds_of_exec hp hbody hbound hnested (hloop.2 _)
  rw [hmoved rfl] at hg
  exact (grown_of_exec hp hbody hnested).1.ahead_lt hg

end

lemma Inside.step (hbound : Grammar.bound source.length ≤ bound) {k n : Nat} {a b : Activity}
    (h : Inside d source k n a) (hstep : Starts d bound a b) : Inside d source k n b := by
  cases hstep with
  | look next p => exact h.begin h.1 rfl (h.2.1 _) fun j post hpost => ⟨post, hpost⟩
  | first first next p => exact h.begin h.1 rfl h.2.1.1 fun j post hpost => ⟨_, hpost⟩
  | @next first next p q matched hfirst =>
      obtain ⟨hp, ht, hn⟩ := h
      have hgrown := grown_of_exec hp hfirst ht.1.nested
      have hle := hgrown.1.ahead_le
      refine ⟨consistent_of_exec hp hfirst, ht.2 matched, ?_⟩
      rcases hn with hlt | ⟨hn, j, hj, post, hpost⟩
      · exact .inl (by omega)
      · -- Either the first part has taken a token, or the second one is still analysed.
        obtain ⟨g, hg, hthen⟩ := holds_of_exec hp hfirst hbound ht.1.nested hpost
        by_cases hmoved : g = .moved
        · rw [hmoved] at hg
          have hlt := hgrown.1.ahead_lt hg
          exact .inl (by omega)
        · rw [if_neg hmoved] at hthen
          exact .inr ⟨by omega, j, hj, _, hthen⟩
  | round body p => exact h.begin h.1 rfl h.2.1.1 fun j post hpost => ⟨_, hpost.2.2⟩
  | @again body p q hbody =>
      obtain ⟨hp, ht, hn⟩ := h
      have hlt := ahead_lt_of_round hbound hp ht hbody
      exact ⟨consistent_of_exec hp hbody, ht, .inl (by omega)⟩
  | node kind body p => exact h.begin h.1.openNode rfl h.2.1 fun j post hpost => ⟨_, hpost⟩
  | innermost kind first more body p =>
      exact h.begin h.1 rfl h.2.1.2.1 fun j post hpost => ⟨_, hpost.2.2⟩
  | @outer kind first more body p q hfirst =>
      obtain ⟨hp, ht, hn⟩ := h
      have hgrown := grown_of_exec hp hfirst ht.2.1.nested
      have hle := hgrown.1.ahead_le
      refine ⟨consistent_of_exec hp hfirst, ht.2.2, ?_⟩
      rcases hn with hlt | ⟨hn, j, hj, post, hpost⟩
      · omega
      · obtain ⟨g, hg, hmoved, -⟩ := holds_of_exec hp hfirst hbound ht.2.1.nested hpost.2.2
        rw [hmoved] at hg
        have hlt := hgrown.1.ahead_lt hg
        omega
  | layer hmore =>
      obtain ⟨hp, hrounds, hlt⟩ := h
      exact ⟨hp.openAround _, hrounds.1, .inl hlt⟩
  | @nextLayer kind more body count place p q matched hmore hbody =>
      obtain ⟨hp, hrounds, hlt⟩ := h
      have hopen := hp.openAround place
      have hgrown := grown_of_exec hopen hbody hrounds.1.nested
      have hclose :=
        (consistent_of_exec hopen hbody).closeNode kind (Parser.vacant_of_openAround hgrown)
      exact ⟨hclose, hrounds, Nat.lt_of_le_of_lt hgrown.1.ahead_le hlt⟩
  | attempt body p => exact h.begin h.1 rfl h.2.1 fun j post hpost => ⟨_, hpost.1⟩
  | call name p =>
      -- The rank falls, or fewer bytes are ahead than at the outer call.
      obtain ⟨hp, hname, hn⟩ := h
      refine ⟨hp, total_rule hname, hn.imp_right ?_⟩
      rintro ⟨hle, j, hj, post, hpost⟩
      obtain ⟨post', hpost'⟩ := ensures_rule hname hp.proper
      have hrank : name.rank < j := hpost.2.1
      exact ⟨hle, name.rank, by omega, post', hpost'⟩

lemma Inside.run (hbound : Grammar.bound source.length ≤ bound) {k n : Nat} {a b : Activity}
    (h : Inside d source k n a) (hrun : ReflTransGen (Starts d bound) a b) :
    Inside d source k n b := by
  induction hrun with
  | refl => exact h
  | tail _ hstep ih => exact ih.step hbound hstep

/-- With each round of a loop, fewer bytes are ahead. -/
theorem Repeats.ahead_lt (hbound : Grammar.bound source.length ≤ bound) {k n : Nat} {a b : Activity}
    (h : Inside d source k n a) (hrepeats : Repeats d bound a b) :
    b.parser.ahead < a.parser.ahead := by
  cases hrepeats with
  | many hbody => exact ahead_lt_of_round hbound h.1 h.2.1 hbody
  | @layers kind more body count place p q matched hmore hbody hagain =>
      obtain ⟨hp, hrounds, -⟩ := h
      have hopen := hp.openAround place
      rcases hrounds.2 count _ hmore with hround | hlast
      · obtain ⟨g, hg, rfl⟩ := holds_of_exec hopen hbody hbound hrounds.1.nested hround
        exact (grown_of_exec hopen hbody hrounds.1.nested).1.ahead_lt hg
      · obtain ⟨v, hagain⟩ := hagain
        rw [hlast] at hagain
        cases hagain

/-- A call inside of another one is made with fewer bytes ahead, or it has a lower rank. In
particular a nonterminal that is called inside of itself, whatever its parameters, is called with
fewer bytes ahead. -/
theorem call_decreases (hbound : Grammar.bound source.length ≤ bound) {name name' : Nonterminal}
    {p q : Parser} (hp : p.Consistent d source) (hname : name.isOf d = true)
    (hrun : TransGen (Starts d bound) ⟨.rule (.call name), p⟩ ⟨.rule (.call name'), q⟩)
    (hrank : name.rank ≤ name'.rank) : q.ahead < p.ahead := by
  obtain ⟨a, hstep, hrun⟩ := TransGen.head'_iff.1 hrun
  cases hstep
  obtain ⟨post, hpost⟩ := ensures_rule hname hp.proper
  have hstart : Inside d source name.rank p.ahead ⟨.rule (rule d name), p⟩ :=
    ⟨hp, total_rule hname, .inr ⟨le_refl _, name.rank, le_refl _, post, hpost⟩⟩
  -- The inner call is one of lower rank, or the invariant has lost a byte on the way.
  obtain ⟨-, -, hlt | ⟨-, j, hj, _, hcall⟩⟩ := hstart.run hbound hrun
  · exact hlt
  · have hlower : name'.rank < j := hcall.2.1
    omega

end StyleSheet.Grammar
