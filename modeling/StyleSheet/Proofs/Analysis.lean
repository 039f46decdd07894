import Mathlib
import StyleSheet.Proofs.Behaviour

/-!
# The analysis of rules is right

What `Rule.Total` and `Rule.Ensures` say about a rule holds of carrying it out (`analysed`),
provided that the nonterminals keep their promises wherever the rule can call them: with fewer bytes
ahead, or with as many and a lower rank. Loops end because each round but the last takes a token and
every token uses up a byte, whatever has been cut.
-/

namespace StyleSheet

namespace Rule

lemma matched_of_repeatUntil {body : Parser → Option Outcome} {bound : Nat} {p : Parser}
    {o : Outcome} (ho : repeatUntil body bound p = some o) : o.matched = true := by
  induction bound generalizing p with
  | zero => cases ho
  | succ bound ih =>
      obtain ⟨q, -, ho⟩ | ⟨q, -, rfl⟩ := repeatUntil_eq_some.1 ho
      · exact ih ho
      · rfl

lemma matched_of_wrapWhile {kind : NodeKind} {more : Nat → View → Bool}
    {body : Parser → Option Outcome} {bound layers place : Nat} {p : Parser} {o : Outcome}
    (ho : wrapWhile kind more body bound layers place p = some o) : o.matched = true := by
  induction bound generalizing layers place p with
  | zero => cases ho
  | succ bound ih =>
      obtain ⟨-, m, q, -, ho⟩ | ⟨-, rfl⟩ := wrapWhile_eq_some.1 ho
      · exact ih ho
      · rfl

lemma Accepts.matched {call : Nonterminal → Parser → Option Outcome} {bound : Nat} {r : Rule}
    (h : r.Accepts) {p : Parser} {o : Outcome} (ho : r.exec call bound p = some o) :
    o.matched = true := by
  induction r generalizing p o with
  | done matched =>
      cases ho
      exact h
  | look next ih => exact ih _ (h _) ho
  | take => cases ho; rfl
  | cutRange => cases ho; rfl
  | seq first next _ ih =>
      obtain ⟨m, q, -, ho⟩ := exec_seq_eq_some.1 ho
      exact ih m (h m) ho
  | many body _ => exact matched_of_repeatUntil ho
  | node kind body ih =>
      obtain ⟨q, -, rfl⟩ | ⟨q, hq, -⟩ := exec_node_eq_some.1 ho
      · rfl
      · cases ih h hq
  | wrap kind first more body ih _ =>
      obtain ⟨q, hq, -⟩ | ⟨q, -, ho⟩ := exec_wrap_eq_some.1 ho
      · cases ih h hq
      · exact matched_of_wrapWhile ho
  | report fault => cases h
  | attempt body _ => cases h
  | call name => cases h

end Rule

namespace Parser

open Rule

variable {d : Dialect} {source : Text} {call : Nonterminal → Parser → Option Outcome}

/-- The nonterminals keep their promises in states with fewer than `n` bytes ahead, and those of a
rank below `k` also in states with `n` bytes ahead. -/
def Answers (d : Dialect) (source : Text) (call : Nonterminal → Parser → Option Outcome)
    (k n : Nat) : Prop :=
  ∀ name q, name.isOf d = true → q.Consistent d source →
    q.ahead < n ∨ q.ahead ≤ n ∧ name.rank < k →
    ∃ o g, call name q = some o ∧ g.Holds q o.parser ∧
      name.Promise d q.stream.view o.matched g

lemma Answers.mono {k n n' : Nat} (h : Answers d source call k n) (hle : n' ≤ n) :
    Answers d source call k n' := by
  intro name q hname hq hless
  refine h name q hname hq ?_
  omega

/-- With fewer bytes ahead, the ranks do not matter. -/
lemma Answers.of_lt {k k' n n' : Nat} (h : Answers d source call k n) (hlt : n' < n) :
    Answers d source call k' n' := by
  intro name q hname hq hless
  refine h name q hname hq ?_
  omega

/-- The end of the input is seen where there is no token. -/
lemma Consistent.peek?_eq_none_iff {p : Parser} (h : p.Consistent d source) (n : Nat) :
    p.stream.peek? n = none ↔ p.stream.kindAt n = .endOfInput := by
  rw [Token.Stream.kindAt]
  cases hpeek : p.stream.peek? n with
  | none => simp
  | some t =>
      have hmem : t ∈ Token.significant p.tokens.toList := by
        rw [Token.Stream.peek?, ← Array.getElem?_toList, h.stream] at hpeek
        exact List.mem_of_getElem? hpeek
      simp [(h.row.regular t (List.mem_of_mem_filter hmem)).kind_ne]

lemma Consistent.isExhausted_iff {p : Parser} (h : p.Consistent d source) :
    p.stream.isExhausted = true ↔ p.stream.view.kind 0 = .endOfInput := by
  refine Iff.trans ?_ (h.peek?_eq_none_iff 0)
  simp [Token.Stream.peek?, Token.Stream.isExhausted]

/-- What is seen from a consistent state ends where the input ends. -/
lemma Consistent.proper {p : Parser} (h : p.Consistent d source) : p.stream.view.Proper where
  text := by
    intro n hn
    show p.stream.textAt n = []
    rw [Token.Stream.textAt, (h.peek?_eq_none_iff n).2 hn]
  kind := by
    intro n hn
    refine (h.peek?_eq_none_iff (n + 1)).1 ?_
    have hend := (h.peek?_eq_none_iff n).2 hn
    simp only [Token.Stream.peek?, Array.getElem?_eq_none_iff] at hend ⊢
    omega

/-- The rule has an outcome in the state `p`, and it satisfies `post`. -/
def Yields (call : Nonterminal → Parser → Option Outcome) (bound : Nat) (r : Rule) (p : Parser)
    (post : Post) : Prop :=
  ∃ o g, r.exec call bound p = some o ∧ g.Holds p o.parser ∧
    post o.matched g o.parser.stream.view

/-- What the analysis says about a rule is right. -/
structure Analysed (d : Dialect) (source : Text) (call : Nonterminal → Parser → Option Outcome)
    (bound : Nat) (r : Rule) : Prop where
  total : ∀ p, p.Consistent d source → p.ahead + 2 ≤ bound →
    Answers d source call Nonterminal.topRank p.ahead → r.Total d →
    ∃ o, r.exec call bound p = some o
  ensures : ∀ p k post, p.Consistent d source → p.ahead + 2 ≤ bound →
    Answers d source call k p.ahead → r.Ensures d k p.stream.view post → Yields call bound r p post

variable {bound : Nat}

lemma analysed_take : Analysed d source call bound .take where
  total := fun p _ _ _ _ => ⟨_, rfl⟩
  ensures := by
    intro p k post hp _ _ hpost
    rw [Ensures] at hpost
    split at hpost
    · rename_i hend
      refine ⟨⟨true, p.take⟩, .same, rfl, ?_, ?_⟩
      all_goals rw [Parser.take, if_pos (hp.isExhausted_iff.2 hend)]
      · rfl
      · exact hpost
    · rename_i hend
      refine ⟨⟨true, p.take⟩, .moved, rfl, ?_, hpost _⟩
      rw [Parser.take, if_neg (mt hp.isExhausted_iff.1 hend)]
      exact Nat.lt_succ_self _

lemma analysed_cutRange : Analysed d source call bound .cutRange where
  total := fun p _ _ _ _ => ⟨_, rfl⟩
  ensures := by
    intro p k post hp _ _ hpost
    rw [Ensures] at hpost
    have hcursor : p.cutRange.stream.cursor = p.stream.cursor := by
      unfold Parser.cutRange
      split
      · rfl
      · split <;> rfl
    rcases cutRange_next hp with ⟨hcut, hkind⟩ |
      ⟨range, piece, hrange, hkind, hpiece, -, hident, htext⟩
    · have hview : p.stream.view.kind 0 ≠ .unicodeRange := hkind
      rw [if_neg hview] at hpost
      exact ⟨⟨true, p.cutRange⟩, .same, rfl, hcut, hcut.symm ▸ hpost⟩
    · have hview : p.stream.view.kind 0 = .unicodeRange := by
        show p.stream.kindAt 0 = _
        rw [Token.Stream.kindAt, hrange]
        exact hkind
      rw [if_pos hview] at hpost
      refine ⟨⟨true, p.cutRange⟩, .cut, rfl, hcursor, hpost _ ?_ ?_⟩
      · show p.cutRange.stream.kindAt 0 = _
        rw [Token.Stream.kindAt, hpiece]
        exact hident
      · show (p.cutRange.stream.textAt 0).length ≤ 1
        rw [Token.Stream.textAt, hpiece]
        exact htext

lemma analysed_call (name : Nonterminal) : Analysed d source call bound (.call name) where
  total := by
    intro p hp _ hcalls hname
    obtain ⟨o, -, ho, -⟩ := hcalls name p hname hp (Or.inr ⟨le_refl _, name.rank_lt⟩)
    exact ⟨o, ho⟩
  ensures := by
    intro p k post hp _ hcalls hpost
    obtain ⟨hname, hrank, hmatch, hfail⟩ := hpost
    obtain ⟨o, g, ho, hg, hpromise⟩ := hcalls name p hname hp (Or.inr ⟨le_refl _, hrank⟩)
    have hout : if g = .moved then ∀ v, post o.matched .moved v
        else post o.matched g p.stream.view := by
      cases hmatched : o.matched with
      | true =>
          rw [hmatched] at hpromise
          exact hmatch g hpromise
      | false =>
          rw [hmatched] at hpromise
          exact hfail g hpromise
    refine ⟨o, g, ho, hg, ?_⟩
    split at hout
    · rename_i hmoved
      rw [hmoved]
      exact hout _
    · rename_i hmoved
      -- Without a token taken, the same is seen as before: no nonterminal stops behind a cut.
      have hstream : o.parser.stream = p.stream := by
        cases g with
        | same => rw [show o.parser = p from hg]
        | noted => exact hg
        | cut => exact absurd rfl hpromise.ne_cut
        | moved => exact absurd rfl hmoved
      rw [hstream]
      exact hout

section

variable (hcall : Tame d source call)
include hcall

lemma analysed_seq {first : Rule} {next : Bool → Rule} (hnested : (Rule.seq first next).Nested)
    (hfirst : Analysed d source call bound first)
    (hnext : ∀ matched, Analysed d source call bound (next matched)) :
    Analysed d source call bound (.seq first next) where
  total := by
    intro p hp hbound hcalls ht
    obtain ⟨⟨matched, q⟩, hq⟩ := hfirst.total p hp hbound hcalls ht.1
    have hle := (exec_grown hcall hnested.1 hp hq).1.1.ahead_le
    obtain ⟨o, ho⟩ := (hnext matched).total q (hcall.consistent hp hq) (by dsimp only at hle; omega)
      (hcalls.mono hle) (ht.2 matched)
    exact ⟨o, by rw [exec, hq]; exact ho⟩
  ensures := by
    intro p k post hp hbound hcalls hpost
    obtain ⟨⟨matched, q⟩, g, hq, hg, hthen⟩ := hfirst.ensures p k _ hp hbound hcalls hpost
    have hq' := hcall.consistent hp hq
    have hadv := (exec_grown hcall hnested.1 hp hq).1.1
    have hle : q.ahead ≤ p.ahead := hadv.ahead_le
    dsimp only at hthen
    split at hthen
    · -- A token has been taken, so only termination is in question.
      rename_i hmoved
      obtain ⟨htotal, hyes, hno⟩ := hthen
      have hlt : q.ahead < p.ahead := hadv.ahead_lt (by rw [hmoved] at hg; exact hg)
      obtain ⟨o, ho⟩ := (hnext matched).total q hq' (by omega) (hcalls.of_lt hlt) htotal
      have hadv' := (exec_grown hcall (hnested.2 matched) hq' ho).1.1
      refine ⟨o, .moved, by rw [exec, hq]; exact ho, ?_, ?_⟩
      · rw [hmoved] at hg
        exact Nat.lt_of_lt_of_le hg hadv'.cursor
      · cases hmatched : o.matched with
        | true => exact hyes _
        | false =>
            rcases hno with haccepts | hno
            · rw [haccepts.matched ho] at hmatched
              cases hmatched
            · exact hno _
    · obtain ⟨o, g', ho, hg', hpost'⟩ :=
        (hnext matched).ensures q k _ hq' (by omega) (hcalls.mono hle) hthen
      have hadv' := (exec_grown hcall (hnested.2 matched) hq' ho).1.1
      exact ⟨o, g.comp g', by rw [exec, hq]; exact ho, hg.comp hadv hadv' hg', hpost'⟩

/-- A repetition ends, because each round but the last one takes a token. -/
lemma repeatUntil_total {body : Rule} (hnested : body.Nested)
    (hbody : Analysed d source call bound body)
    (hloop : ∀ v, body.Ensures d Nonterminal.topRank v fun matched g _ => matched = true →
      g = .moved)
    {n : Nat} {p : Parser} (hp : p.Consistent d source) (hbound : p.ahead + 2 ≤ bound)
    (hn : p.ahead < n) (hcalls : Answers d source call Nonterminal.topRank p.ahead) :
    ∃ o, repeatUntil (body.exec call bound) n p = some o := by
  induction n generalizing p with
  | zero => omega
  | succ n ih =>
      obtain ⟨⟨matched, q⟩, g, hq, hg, hmoved⟩ :=
        hbody.ensures p _ _ hp hbound hcalls (hloop p.stream.view)
      rw [repeatUntil, hq]
      cases matched with
      | false => exact ⟨_, rfl⟩
      | true =>
          have hadv := (exec_grown hcall hnested hp hq).1.1
          have hlt : q.ahead < p.ahead := hadv.ahead_lt (by rw [hmoved rfl] at hg; exact hg)
          exact ih (hcall.consistent hp hq) (by omega) (by omega) (hcalls.of_lt hlt)

lemma analysed_many {body : Rule} (hnested : body.Nested)
    (hbody : Analysed d source call bound body) : Analysed d source call bound (.many body) where
  total := by
    intro p hp hbound hcalls ht
    exact repeatUntil_total hcall hnested hbody ht.2 hp hbound (by omega) hcalls
  ensures := by
    intro p k post hp hbound hcalls hpost
    obtain ⟨-, hloop, hround⟩ := hpost
    obtain ⟨⟨matched, q⟩, g, hq, hg, hthen⟩ := hbody.ensures p k _ hp hbound hcalls hround
    obtain ⟨n, rfl⟩ : ∃ n, bound = n + 1 := ⟨bound - 1, by omega⟩
    cases matched with
    | false => exact ⟨⟨true, q⟩, g, by rw [exec, repeatUntil, hq], hg, hthen⟩
    | true =>
        obtain ⟨rfl, hyes⟩ := hthen
        have hq' : q.Consistent d source := hcall.consistent hp hq
        have hlt : q.ahead < p.ahead := (exec_grown hcall hnested hp hq).1.1.ahead_lt hg
        obtain ⟨o, ho⟩ := repeatUntil_total hcall hnested hbody hloop (n := n) hq' (by omega)
          (by omega) (hcalls.of_lt hlt)
        have hgrown := repeatUntil_grown (Session.exec_follows hcall.follows _ body)
          (fun q o hq ho => (exec_grown hcall hnested hq ho).1) hq' ho
        refine ⟨o, .moved, by rw [exec, repeatUntil, hq]; exact ho, ?_, ?_⟩
        · exact Nat.lt_of_lt_of_le hg hgrown.1.cursor
        · rw [matched_of_repeatUntil ho]
          exact hyes _

omit hcall in
lemma stream_dropNode (p : Parser) (place : Nat) : (p.dropNode place).stream = p.stream := by
  unfold Parser.dropNode
  split <;> rfl

omit hcall in
/-- What a node adds to what was read inside of it is events. -/
lemma Holds.closeNode {g : Grade} {p q : Parser} (h : g.Holds p.openNode q) (kind : NodeKind) :
    (Grade.noted.comp g).Holds p (q.closeNode p.events.size kind) := by
  cases g with
  | same =>
      have hq : q = p.openNode := h
      rw [hq]
      rfl
  | noted => exact h
  | cut => exact h
  | moved => exact h

omit hcall in
lemma Holds.dropNode {g : Grade} {p q : Parser} (h : g.Holds p.openNode q) :
    g.Holds p (q.dropNode p.events.size) := by
  cases g with
  | same =>
      have hq : q = p.openNode := h
      rw [hq]
      exact dropNode_openNode p
  | noted => exact (stream_dropNode q _).trans h
  | cut => exact (congrArg Token.Stream.cursor (stream_dropNode q _)).trans h
  | moved =>
      show p.stream.cursor < (q.dropNode p.events.size).stream.cursor
      rw [stream_dropNode]
      exact h

omit hcall in
lemma analysed_node {kind : NodeKind} {body : Rule} (hbody : Analysed d source call bound body) :
    Analysed d source call bound (.node kind body) where
  total := by
    intro p hp hbound hcalls ht
    obtain ⟨⟨matched, q⟩, hq⟩ := hbody.total p.openNode hp.openNode hbound hcalls ht
    cases matched with
    | true => exact ⟨⟨true, q.closeNode p.events.size kind⟩, by rw [exec, hq]⟩
    | false => exact ⟨⟨false, q.dropNode p.events.size⟩, by rw [exec, hq]⟩
  ensures := by
    intro p k post hp hbound hcalls hpost
    obtain ⟨⟨matched, q⟩, g, hq, hg, hthen⟩ :=
      hbody.ensures p.openNode k _ hp.openNode hbound hcalls hpost
    cases matched with
    | true =>
        exact ⟨⟨true, q.closeNode p.events.size kind⟩, Grade.noted.comp g, by rw [exec, hq],
          Holds.closeNode hg kind, hthen⟩
    | false =>
        refine ⟨⟨false, q.dropNode p.events.size⟩, g, by rw [exec, hq], Holds.dropNode hg, ?_⟩
        dsimp only
        rw [stream_dropNode]
        exact hthen

/-- Putting nodes around a node ends, because each round but the last two takes a token. -/
lemma wrapWhile_total (kind : NodeKind) {more : Nat → View → Bool} {body : Rule}
    (hnested : body.Nested) (hbody : Analysed d source call bound body) (htotal : body.Total d)
    (hloop : ∀ n v, more n v = true →
      body.Ensures d Nonterminal.topRank v (fun _ g _ => g = .moved) ∨ ∀ v, more (n + 1) v = false)
    (n layers place : Nat) {p : Parser} (hp : p.Consistent d source) (hbound : p.ahead + 2 ≤ bound)
    (hn : p.ahead + 2 ≤ n) (hcalls : Answers d source call Nonterminal.topRank p.ahead) :
    ∃ o, wrapWhile kind more (body.exec call bound) n layers place p = some o := by
  induction n generalizing layers place p with
  | zero => omega
  | succ n ih =>
      rw [wrapWhile]
      split
      · rename_i hmore
        have hopen := hp.openAround place
        rcases hloop layers p.stream.view hmore with hround | hlast
        · obtain ⟨⟨matched, q⟩, g, hq, hg, rfl⟩ := hbody.ensures _ _ _ hopen hbound hcalls hround
          have hgrown := (exec_grown hcall hnested hopen hq).1
          have hlt : q.ahead < p.ahead := hgrown.1.ahead_lt hg
          have hclose := (hcall.consistent hopen hq).closeNode kind (vacant_of_openAround hgrown)
          rw [hq]
          exact ih _ _ hclose (Nat.le_trans (Nat.add_le_add_right hlt.le 2) hbound)
            (by show q.ahead + 2 ≤ n; omega) (hcalls.of_lt hlt)
        · -- This round may take nothing, but the test behind it ends the loop.
          obtain ⟨⟨matched, q⟩, hq⟩ := hbody.total _ hopen hbound hcalls htotal
          obtain ⟨m, rfl⟩ : ∃ m, n = m + 1 := ⟨n - 1, by omega⟩
          rw [hq]
          refine ⟨⟨true, q.closeNode p.events.size kind⟩, ?_⟩
          dsimp only
          rw [wrapWhile, hlast, if_neg (by simp)]
      · exact ⟨_, rfl⟩

lemma analysed_wrap {kind : NodeKind} {first : Rule} {more : Nat → View → Bool} {body : Rule}
    (hnested : (Rule.wrap kind first more body).Nested)
    (hfirst : Analysed d source call bound first) (hbody : Analysed d source call bound body) :
    Analysed d source call bound (.wrap kind first more body) where
  total := by
    intro p hp hbound hcalls ht
    obtain ⟨⟨matched, q⟩, hq⟩ := hfirst.total p hp hbound hcalls ht.2.1
    rw [exec, hq]
    cases matched with
    | false => exact ⟨_, rfl⟩
    | true =>
        have hle : q.ahead ≤ p.ahead := (exec_grown hcall hnested.2.1 hp hq).1.1.ahead_le
        exact wrapWhile_total hcall kind hnested.2.2 hbody ht.2.2.1 ht.2.2.2 _ _ _
          (hcall.consistent hp hq)
          (by show q.ahead + 2 ≤ bound; omega) (by show q.ahead + 2 ≤ bound; omega)
          (hcalls.mono hle)
  ensures := by
    intro p k post hp hbound hcalls hpost
    obtain ⟨htotal, hloop, hround⟩ := hpost
    obtain ⟨⟨matched, q⟩, g, hq, hg, hthen⟩ := hfirst.ensures p k _ hp hbound hcalls hround
    cases matched with
    | false => exact ⟨⟨false, q⟩, g, by rw [exec, hq], hg, hthen⟩
    | true =>
        obtain ⟨rfl, hyes⟩ := hthen
        have hq' : q.Consistent d source := hcall.consistent hp hq
        obtain ⟨hgrown, hnode⟩ := exec_grown hcall hnested.2.1 hp hq
        have hlt : q.ahead < p.ahead := hgrown.1.ahead_lt hg
        obtain ⟨o, ho⟩ := wrapWhile_total hcall kind hnested.2.2 hbody htotal hloop bound 0
          p.events.size hq' (by omega) (by omega) (hcalls.of_lt hlt)
        have hadv := (wrapWhile_grown (Session.exec_follows hcall.follows _ body)
          (fun q o hq ho => (exec_grown hcall hnested.2.2 hq ho).1) hq'
          (hnode hnested.1 rfl).tower ho).2
        refine ⟨o, .moved, by rw [exec, hq]; exact ho, ?_, ?_⟩
        · exact Nat.lt_of_lt_of_le hg hadv.cursor
        · rw [matched_of_wrapWhile ho]
          exact hyes _

lemma analysed_attempt {body : Rule} (hnested : body.Nested)
    (hbody : Analysed d source call bound body) : Analysed d source call bound (.attempt body) where
  total := by
    intro p hp hbound hcalls ht
    obtain ⟨⟨matched, q⟩, hq⟩ := hbody.total p hp hbound hcalls ht
    rw [exec, hq]
    dsimp only
    split
    · exact ⟨_, rfl⟩
    · exact ⟨_, rfl⟩
  ensures := by
    intro p k post hp hbound hcalls hpost
    obtain ⟨⟨matched, q⟩, g, hq, hg, hthen⟩ := hbody.ensures p k _ hp hbound hcalls hpost.1
    rw [Yields, exec, hq]
    dsimp only
    split
    · rename_i hmatched
      refine ⟨⟨true, q⟩, g, rfl, hg, hthen ?_⟩
      exact (Bool.and_eq_true_iff.1 hmatched).1
    · have hback := (exec_grown hcall hnested hp hq).1.restore hp (hcall.consistent hp hq)
      exact ⟨⟨false, q.restore p.snapshot⟩, .same, rfl, hback, hback.symm ▸ hpost.2⟩

/-- The analysis is right about every rule that nests its nodes. -/
theorem analysed {r : Rule} (hr : r.Nested) : Analysed d source call bound r := by
  induction r with
  | done matched =>
      exact ⟨fun p _ _ _ _ => ⟨_, rfl⟩, fun p k post _ _ _ hpost => ⟨_, .same, rfl, rfl, hpost⟩⟩
  | look next ih =>
      refine ⟨fun p hp hbound hcalls ht => ?_, fun p k post hp hbound hcalls hpost => ?_⟩
      · exact (ih p.stream.view (hr _)).total p hp hbound hcalls (ht _)
      · exact (ih p.stream.view (hr _)).ensures p k post hp hbound hcalls hpost
  | take => exact analysed_take
  | report fault =>
      exact ⟨fun p _ _ _ _ => ⟨_, rfl⟩, fun p k post _ _ _ hpost => ⟨_, .noted, rfl, rfl, hpost⟩⟩
  | cutRange => exact analysed_cutRange
  | seq first next hfirst hnext =>
      exact analysed_seq hcall hr (hfirst hr.1) fun matched => hnext matched (hr.2 matched)
  | many body ih => exact analysed_many hcall hr (ih hr)
  | node kind body ih => exact analysed_node (ih hr)
  | wrap kind first more body hfirst hbody =>
      exact analysed_wrap hcall hr (hfirst hr.2.1) (hbody hr.2.2)
  | attempt body ih => exact analysed_attempt hcall hr (ih hr)
  | call name => exact analysed_call name

end

end Parser

end StyleSheet
