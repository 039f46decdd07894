import Mathlib
import StyleSheet.Proofs.Likeness
import StyleSheet.Proofs.Reading
import StyleSheet.Proofs.Termination

/-!
# Parsers yield what rules read

Carrying out a rule on a parser is reading from its spot (`exec_reads`): the parser ends at the spot
where the rule ends, and its new events, faults and taken tokens are those of the yield. Of the
events this is said about their steps, because a `wrap` leaves a tower of nodes and not nested ones.

So the steps of a whole source are those of one node, which the rule of the entry yields
(`Entry.yield_readSource`).
-/

namespace StyleSheet

open Token Event

/-! ## Spots of parsers -/

namespace Token.Stream

/-- The place reached in a stream. -/
def spot (s : Stream) : Spot := ⟨s.before? 0, s.tokens.toList.drop s.cursor, s.length⟩

lemma getElem?_ahead_spot (s : Stream) (n : Nat) : s.spot.ahead[n]? = s.peek? n := by
  rw [spot, List.getElem?_drop, Array.getElem?_toList, peek?]

lemma before?_spot (s : Stream) (n : Nat) : s.spot.before? n = s.before? n := by
  cases n with
  | zero => rfl
  | succ n => exact s.getElem?_ahead_spot n

@[simp] lemma view_spot (s : Stream) : s.spot.view = s.view := by
  have hkind : ∀ n, s.spot.view.kind n = s.kindAt n := by
    intro n
    rw [Spot.kind_view, kindAt, getElem?_ahead_spot]
    cases s.peek? n <;> rfl
  have htext : ∀ n, s.spot.view.text n = s.textAt n := by
    intro n
    rw [Spot.text_view, textAt, getElem?_ahead_spot]
    cases s.peek? n <;> rfl
  have hgap : ∀ n, s.spot.view.gap n = s.gapAt n := by
    intro n
    rw [Spot.gap_view, gapAt, before?_spot, getElem?_ahead_spot]
    cases s.before? n <;> cases s.peek? n <;> rfl
  rw [view, ← funext hkind, ← funext htext, ← funext hgap]
  rfl

end Token.Stream

namespace Parser

variable {d : Dialect} {source : Text} {p q r : Parser} {y z : Yield}

/-- The place reached by a parser. -/
def spot (p : Parser) : Spot := p.stream.spot

@[simp] lemma view_spot (p : Parser) : p.spot.view = p.stream.view := p.stream.view_spot

lemma spot_eq (h : q.stream = p.stream) : q.spot = p.spot := by
  rw [spot, spot, h]

lemma ahead_spot_of_lt (h : p.stream.cursor < p.stream.tokens.size) :
    p.spot.ahead = p.stream.tokens[p.stream.cursor] ::
      p.stream.tokens.toList.drop (p.stream.cursor + 1) := by
  rw [spot, Stream.spot, List.drop_eq_getElem_cons (by simpa using h), Array.getElem_toList]

lemma ahead_spot_of_isExhausted (h : p.stream.isExhausted = true) : p.spot.ahead = [] := by
  rw [spot, Stream.spot, List.drop_eq_nil_iff, Array.length_toList]
  simpa [Stream.isExhausted] using h

@[simp] lemma spot_take (p : Parser) : p.take.spot = p.spot.next := by
  unfold take
  split
  · rename_i hend
    rw [Spot.next_of_nil (ahead_spot_of_isExhausted hend)]
  · rename_i hlt
    have hlt : p.stream.cursor < p.stream.tokens.size := by simpa [Stream.isExhausted] using hlt
    rw [Spot.next_of_cons (ahead_spot_of_lt hlt)]
    simp [spot, Stream.spot, Stream.advance, Stream.before?, hlt]

lemma spot_cutRange (hp : p.Consistent d source) : p.cutRange.spot = p.spot.cut d := by
  obtain ⟨-, -, -, hcursor, hlength⟩ := cutRange_others p
  by_cases hkind : p.stream.kindAt 0 = .unicodeRange
  · obtain ⟨before, range, glued, behind, htokens, hbefore, hrange, hglued, hcut⟩ :=
      stream_cutRange hkind
    rw [hp.dialect] at hcut
    have hahead : p.spot.ahead = range :: (glued ++ behind) := by
      rw [spot, Stream.spot, htokens, ← hbefore, List.drop_left]
    have hlast : p.cutRange.stream.before? 0 = p.stream.before? 0 := by
      rw [Stream.before?, Stream.before?, hcursor]
      split
      · rfl
      · -- The token taken last stands before the cursor, where nothing changes.
        rename_i i hi
        rw [← Array.getElem?_toList, ← Array.getElem?_toList, htokens, hcut,
          List.getElem?_append_left (by omega), List.getElem?_append_left (by omega)]
    have hcutAhead : Spot.cutAhead d (range :: (glued ++ behind)) =
        rangePieces d range glued ++ behind := by
      rw [Spot.cutAhead, if_pos hrange]
      dsimp only
      rw [hglued, List.drop_left]
    rw [spot, Stream.spot, hlast, hcut, hcursor, hlength, ← hbefore, List.drop_left,
      Spot.cut, hahead, hcutAhead]
    rfl
  · rw [cutRange_eq_self hkind, Spot.cut]
    cases hahead : p.spot.ahead with
    | nil =>
        rw [Spot.cutAhead, ← hahead]
    | cons t rest =>
        have ht : t.kind ≠ .unicodeRange := by
          intro ht
          refine hkind ?_
          have hget := p.stream.getElem?_ahead_spot 0
          rw [← spot, hahead] at hget
          rw [Stream.kindAt, ← hget]
          exact ht
        rw [Spot.cutAhead, if_neg ht, ← hahead]

/-! ## Accounts -/

/-- From `p` to `q` the faults and the tokens of `y` have been added. -/
structure Tally (p : Parser) (y : Yield) (q : Parser) : Prop where
  faults : q.faults = p.faults + y.faults.length
  tokens : q.stream.tokens.toList.take q.stream.cursor =
    p.stream.tokens.toList.take p.stream.cursor ++ y.tokens

namespace Tally

lemma of_eq (hstream : q.stream = p.stream) (hfaults : q.faults = p.faults) : Tally p .nil q :=
  ⟨by simp [hfaults], by simp [hstream]⟩

lemma trans (h : Tally p y q) (h' : Tally q z r) : Tally p (y ++ z) r where
  faults := by simp [h'.faults, h.faults, Nat.add_assoc]
  tokens := by simp [h'.tokens, h.tokens]

/-- Opening and closing nodes does not count. -/
lemma node {p' q' : Parser} (h : Tally p y q) (hstream : p.stream = p'.stream)
    (hfaults : p.faults = p'.faults) (hstream' : q'.stream = q.stream)
    (hfaults' : q'.faults = q.faults) (kind : NodeKind) : Tally p' (.node kind y .nil) q' :=
  ⟨by simp [hfaults', h.faults, hfaults, Yield.faults],
    by simp [hstream', h.tokens, hstream, Yield.tokens]⟩

lemma take (p : Parser) : Tally p p.spot.taken p.take := by
  unfold Parser.take
  split
  · rename_i hend
    rw [Spot.taken_of_nil (ahead_spot_of_isExhausted hend)]
    exact .of_eq rfl rfl
  · rename_i hlt
    have hlt : p.stream.cursor < p.stream.tokens.size := by simpa [Stream.isExhausted] using hlt
    rw [Spot.taken_of_cons (ahead_spot_of_lt hlt)]
    refine ⟨rfl, ?_⟩
    show List.take (p.stream.cursor + 1) p.stream.tokens.toList = _
    rw [List.take_add_one, Array.getElem?_toList, Array.getElem?_eq_getElem hlt]
    rfl

lemma cutRange (p : Parser) : Tally p .nil p.cutRange := by
  obtain ⟨-, -, hfaults, hcursor, -⟩ := cutRange_others p
  refine ⟨by simp [hfaults], ?_⟩
  by_cases hkind : p.stream.kindAt 0 = .unicodeRange
  · obtain ⟨before, range, glued, behind, htokens, hbefore, -, -, hcut⟩ := stream_cutRange hkind
    rw [hcut, htokens, hcursor, ← hbefore]
    simp
  · rw [cutRange_eq_self hkind]
    simp

lemma dropNode (h : Tally p.openNode y q) (place : Nat) : Tally p y (q.dropNode place) := by
  unfold Parser.dropNode
  split <;> exact ⟨h.faults, h.tokens⟩

/-- A fault has been reported since exactly when one is among what has been added. -/
lemma hasFaultSince_iff (h : Tally p y q) : q.hasFaultSince p.snapshot = true ↔ y.faults ≠ [] := by
  have hcount := h.faults
  rw [← List.length_pos_iff, hasFaultSince, decide_eq_true_eq]
  show p.faults < q.faults ↔ _
  omega

end Tally

/-- From `p` to `q` a row of events with the steps of `y` has been added. -/
def Adds (p : Parser) (y : Yield) (q : Parser) : Prop :=
  ∃ new, q.events.toList = p.events.toList ++ new ∧ Records new ∧ steps new.toArray = y.steps

/-- From `p` to `q` the events of one node have been added, which `y` yields. -/
def AddsNode (p : Parser) (y : Yield) (q : Parser) : Prop :=
  ∃ kind inner z, q.events.toList = p.events.toList ++ nodeRow kind none inner ∧ Records inner ∧
    steps inner.toArray = z.steps ∧ y = .node kind z .nil

/-- From `p` to `q` the events of a tower with the steps of `y` have been added, the last node of
which was opened at `place`. -/
def AddsTower (p : Parser) (place : Nat) (y : Yield) (q : Parser) : Prop :=
  ∃ kind inner layers, q.events.toList = p.events.toList ++ tower kind inner layers ∧
    place = p.events.size + towerPlace inner layers ∧ Records inner ∧
    (∀ layer ∈ layers, Records layer.2) ∧ steps (tower kind inner layers).toArray = y.steps

namespace Adds

lemma of_eq (h : q.events = p.events) : Adds p .nil q := ⟨[], by simp [h], .nil, rfl⟩

lemma trans (h : Adds p y q) (h' : Adds q z r) : Adds p (y ++ z) r := by
  obtain ⟨new, hnew, hrec, hsteps⟩ := h
  obtain ⟨new', hnew', hrec', hsteps'⟩ := h'
  refine ⟨new ++ new', by rw [hnew', hnew, List.append_assoc], hrec.append hrec', ?_⟩
  rw [steps_append hrec.closed hrec'.closed, hsteps, hsteps', Yield.steps_append]

lemma take (p : Parser) : Adds p p.spot.taken p.take := by
  unfold Parser.take
  split
  · rename_i hend
    rw [Spot.taken_of_nil (ahead_spot_of_isExhausted hend)]
    exact .of_eq rfl
  · rename_i hlt
    have hlt : p.stream.cursor < p.stream.tokens.size := by simpa [Stream.isExhausted] using hlt
    rw [Spot.taken_of_cons (ahead_spot_of_lt hlt)]
    exact ⟨[.token], by simp, .token, rfl⟩

lemma closeNode (h : Adds p.openNode y q) (kind : NodeKind) :
    AddsNode p (.node kind y .nil) (q.closeNode p.events.size kind) := by
  obtain ⟨inner, hinner, hrec, hsteps⟩ := h
  have hevents : q.events.toList = p.events.toList ++ .vacant :: inner := by
    simpa [openNode] using hinner
  exact ⟨kind, inner, y, by simp [Parser.closeNode, hevents, nodeRow], hrec, hsteps, rfl⟩

/-- A node that is given up leaves its parts behind. -/
lemma dropNode (h : Adds p.openNode y q) : Adds p y (q.dropNode p.events.size) := by
  obtain ⟨inner, hinner, hrec, hsteps⟩ := h
  have hevents : q.events.toList = p.events.toList ++ .vacant :: inner := by
    simpa [openNode] using hinner
  unfold Parser.dropNode
  split
  · rename_i hlast
    have hnil : inner = [] := by
      have hsize : q.events.size = p.events.size + (inner.length + 1) := by
        rw [← Array.length_toList, hevents]
        simp
      exact List.length_eq_zero_iff.1 (by omega)
    rw [hnil] at hevents hsteps
    exact ⟨[], by simp [hevents], .nil, hsteps⟩
  · refine ⟨[.vacant] ++ inner, by simp [hevents], Records.vacant.append hrec, ?_⟩
    rw [steps_append Records.vacant.closed hrec.closed, hsteps]
    rfl

end Adds

lemma AddsNode.adds (h : AddsNode p y q) : Adds p y q := by
  obtain ⟨kind, inner, z, hnew, hrec, hsteps, rfl⟩ := h
  refine ⟨_, hnew, hrec.node kind, ?_⟩
  rw [steps_nodeRow kind hrec.closed, hsteps]
  rfl

lemma AddsNode.tower (h : AddsNode p y q) : AddsTower p p.events.size y q := by
  have hadds := h.adds
  obtain ⟨kind, inner, z, hnew, hrec, hsteps, rfl⟩ := h
  refine ⟨kind, inner, [], hnew, rfl, hrec, List.forall_mem_nil _, ?_⟩
  rw [tower, steps_nodeRow kind hrec.closed, hsteps]
  rfl

lemma AddsTower.adds {place : Nat} (h : AddsTower p place y q) : Adds p y q := by
  obtain ⟨kind, inner, layers, hnew, -, hrec, hlayers, hsteps⟩ := h
  exact ⟨_, hnew, .tower kind hrec hlayers, hsteps⟩

/-- The steps of a tower open its nodes, the outermost one first. -/
lemma steps_tower (kind : NodeKind) {A : List Event} {layers : List (NodeKind × List Event)}
    (hA : Closed A) (hlayers : ∀ layer ∈ layers, Closed layer.2) :
    steps (tower kind A layers).toArray =
      (towerKinds kind layers).reverse.map .opening ++ towerSteps A layers := by
  have hclosed := tower_closed kind hA hlayers
  have hbehind := stepsBehind_tower kind hA hlayers
  have hchain := chain_tower kind hA hlayers _ (le_refl _)
  obtain ⟨link, rest, htower⟩ := tower_eq_cons kind A layers
  rw [htower] at hclosed hbehind hchain ⊢
  rw [steps_eq_chain hclosed, hbehind, ← List.length_cons, hchain]

/-- One more node around a tower is one more node in its steps. -/
lemma steps_tower_concat (kind outer : NodeKind) {A B : List Event}
    {layers : List (NodeKind × List Event)} (hA : Closed A) (hB : Closed B)
    (hlayers : ∀ layer ∈ layers, Closed layer.2) :
    steps (tower kind A (layers ++ [(outer, B)])).toArray =
      .opening outer :: (steps (tower kind A layers).toArray ++ steps B.toArray ++ [.closing]) := by
  have hall : ∀ layer ∈ layers ++ [(outer, B)], Closed layer.2 := by
    intro layer hlayer
    rcases List.mem_append.1 hlayer with hlayer | hlayer
    · exact hlayers layer hlayer
    · rw [List.mem_singleton.1 hlayer]
      exact hB
  rw [steps_tower kind hA hall, steps_tower kind hA hlayers]
  simp [towerKinds, towerSteps]

lemma AddsTower.closeNode {place : Nat} (h : AddsTower p place y q)
    (hbody : Adds (q.openAround place) z r) (outer : NodeKind) :
    AddsTower p q.events.size (.node outer (y ++ z) .nil) (r.closeNode q.events.size outer) := by
  obtain ⟨kind, inner, layers, hnew, rfl, hrec, hlayers, hsteps⟩ := h
  obtain ⟨new, hnew', hrec', hsteps'⟩ := hbody
  refine ⟨kind, inner, layers ++ [(outer, new)], ?_, ?_, hrec, ?_, ?_⟩
  · rw [openAround_tower hnew] at hnew'
    have hsize : q.events.size = (p.events.toList ++ (tower kind inner layers).set
        (towerPlace inner layers) (.opening (towerKind kind layers)
          (some ((tower kind inner layers).length - towerPlace inner layers)))).length := by
      rw [← Array.length_toList, hnew, List.length_append, List.length_append, List.length_set]
    rw [tower_concat, Parser.closeNode, Array.toList_push, Array.toList_setIfInBounds, hnew', hsize]
    simp [nodeRow]
  · rw [towerPlace_concat kind, ← Array.length_toList, hnew, List.length_append,
      Array.length_toList]
  · intro layer hlayer
    rcases List.mem_append.1 hlayer with hlayer | hlayer
    · exact hlayers layer hlayer
    · rw [List.mem_singleton.1 hlayer]
      exact hrec'
  · rw [steps_tower_concat kind outer hrec.closed hrec'.closed fun l hl => (hlayers l hl).closed,
      hsteps, hsteps']
    simp [Yield.steps]

/-! ## Carrying out rules -/

/-- What carrying out a rule amounts to: the parser ends where reading ends, and what it has added
is what the rule yields. -/
def ReadsTo (reads : Spot → Bool → Yield → Spot → Prop) (p : Parser) (o : Rule.Outcome) : Prop :=
  ∃ y, reads p.spot o.matched y o.parser.spot ∧ Tally p y o.parser ∧ Adds p y o.parser

/-- The same for a rule that yields one node. -/
def ReadsNode (reads : Spot → Bool → Yield → Spot → Prop) (p : Parser) (o : Rule.Outcome) : Prop :=
  ∃ y, reads p.spot o.matched y o.parser.spot ∧ Tally p y o.parser ∧ AddsNode p y o.parser

section

variable {C : Calls} {call : Nonterminal → Parser → Option Rule.Outcome} {bound : Nat}

lemma repeatUntil_reads {body : Rule} {exec : Parser → Option Rule.Outcome}
    (hfollows : Session.Follows d source exec)
    (hbody : ∀ p o, p.Consistent d source → exec p = some o →
      ReadsTo (Rule.Reads d C (.rule body)) p o)
    {o : Rule.Outcome} (hp : p.Consistent d source) (ho : Rule.repeatUntil exec bound p = some o) :
    ReadsTo (Rule.Reads d C (.rule (.many body))) p o := by
  induction bound generalizing p with
  | zero => cases ho
  | succ bound ih =>
      obtain ⟨q, hq, ho⟩ | ⟨q, hq, rfl⟩ := Rule.repeatUntil_eq_some.1 ho
      · obtain ⟨y, hread, htally, hadds⟩ := hbody p _ hp hq
        obtain ⟨z, hread', htally', hadds'⟩ := ih (hfollows.consistent hp hq) ho
        obtain ⟨matched, r⟩ := o
        obtain rfl : matched = true := Rule.matched_of_repeatUntil ho
        exact ⟨y ++ z, .again hread hread', htally.trans htally', hadds.trans hadds'⟩
      · obtain ⟨y, hread, htally, hadds⟩ := hbody p ⟨false, q⟩ hp hq
        exact ⟨y, .stop hread, htally, hadds⟩

lemma wrapWhile_reads {kind : NodeKind} {more : Nat → View → Bool} {body : Rule}
    {exec : Parser → Option Rule.Outcome} (hfollows : Session.Follows d source exec)
    (hgrown : ∀ p o, p.Consistent d source → exec p = some o → Grown p o.parser)
    (hbody : ∀ p o, p.Consistent d source → exec p = some o →
      ReadsTo (Rule.Reads d C (.rule body)) p o)
    {layers place : Nat} {o : Rule.Outcome} (hq : q.Consistent d source) (htally : Tally p y q)
    (htower : AddsTower p place y q)
    (ho : Rule.wrapWhile kind more exec bound layers place q = some o) :
    ∃ z, Rule.Reads d C (.layers kind more body layers y) q.spot true z o.parser.spot ∧
      Tally p z o.parser ∧ Adds p z o.parser := by
  induction bound generalizing layers place q y with
  | zero => cases ho
  | succ bound ih =>
      obtain ⟨hmore, matched, r, hr, ho⟩ | ⟨hmore, rfl⟩ := Rule.wrapWhile_eq_some.1 ho
      all_goals rw [← view_spot] at hmore
      · have hopen := hq.openAround place
        have hclose := (hfollows.consistent hopen hr).closeNode kind
          (vacant_of_openAround (hgrown _ _ hopen hr))
        obtain ⟨z, hread, htally', hadds⟩ := hbody _ _ hopen hr
        have htally' : Tally q z r := ⟨htally'.faults, htally'.tokens⟩
        have hround : Tally p (.node kind (y ++ z) .nil) (r.closeNode q.events.size kind) := by
          apply (htally.trans htally').node <;> rfl
        obtain ⟨w, hrest, htally, hadds⟩ := ih hclose hround (htower.closeNode hadds kind) ho
        exact ⟨w, .layer hmore hread hrest, htally, hadds⟩
      · exact ⟨y, .enough hmore, htally, htower.adds⟩

/-- Carrying out a rule is reading what it yields. -/
theorem exec_reads (hcall : Tame d source call)
    (hreads : ∀ name p o, p.Consistent d source → call name p = some o → ReadsTo (C name) p o)
    (hnodes : ∀ name p o, p.Consistent d source → call name p = some o →
      Rule.isNodeName name = true → o.matched = true → ReadsNode (C name) p o)
    {rule : Rule} (hr : rule.Nested) {o : Rule.Outcome} (hp : p.Consistent d source)
    (ho : rule.exec call bound p = some o) :
    ReadsTo (Rule.Reads d C (.rule rule)) p o ∧
      (rule.Noded → o.matched = true → ReadsNode (Rule.Reads d C (.rule rule)) p o) := by
  induction rule generalizing p o with
  | done matched =>
      cases ho
      exact ⟨⟨.nil, .done _ _, .of_eq rfl rfl, .of_eq rfl⟩,
        fun hnoded hmatched => by simp_all [Rule.Noded]⟩
  | look next ih =>
      obtain ⟨⟨y, hread, hadded⟩, hnode⟩ := ih p.stream.view (hr p.stream.view) hp ho
      rw [← view_spot] at hread
      refine ⟨⟨y, .look hread, hadded⟩, fun hnoded hmatched => ?_⟩
      obtain ⟨z, hread, hadded⟩ := hnode (hnoded p.stream.view) hmatched
      rw [← view_spot] at hread
      exact ⟨z, .look hread, hadded⟩
  | take =>
      cases ho
      refine ⟨⟨p.spot.taken, ?_, .take p, .take p⟩, False.elim⟩
      rw [spot_take]
      exact .take _
  | report fault =>
      cases ho
      refine ⟨⟨.fault fault .nil, .report _ _, ⟨rfl, ?_⟩, [.fault fault], by simp [report],
        .fault fault, rfl⟩, False.elim⟩
      simp [report, Yield.tokens]
  | cutRange =>
      cases ho
      refine ⟨⟨.nil, ?_, .cutRange p, .of_eq (cutRange_others p).2.1⟩, False.elim⟩
      rw [spot_cutRange hp]
      exact .cutRange _
  | seq first next hfirst hnext =>
      obtain ⟨matched, q, hq, ho⟩ := Rule.exec_seq_eq_some.1 ho
      obtain ⟨y, hread, htally, hadds⟩ := (hfirst hr.1 hp hq).1
      obtain ⟨z, hread', htally', hadds'⟩ :=
        (hnext matched (hr.2 matched) (hcall.consistent hp hq) ho).1
      exact ⟨⟨y ++ z, .seq hread hread', htally.trans htally', hadds.trans hadds'⟩, False.elim⟩
  | many body ih =>
      exact ⟨repeatUntil_reads (Session.exec_follows hcall.follows bound body)
        (fun q o hq ho => (ih hr hq ho).1) hp ho, False.elim⟩
  | node kind body ih =>
      obtain ⟨q, hq, rfl⟩ | ⟨q, hq, rfl⟩ := Rule.exec_node_eq_some.1 ho
      · obtain ⟨y, hread, htally, hadds⟩ := (ih hr hp.openNode hq).1
        have hnode := hadds.closeNode kind
        have htally : Tally p (.node kind y .nil) (q.closeNode p.events.size kind) := by
          apply htally.node <;> rfl
        exact ⟨⟨_, .node hread, htally, hnode.adds⟩, fun _ _ => ⟨_, .node hread, htally, hnode⟩⟩
      · obtain ⟨y, hread, htally, hadds⟩ := (ih hr hp.openNode hq).1
        refine ⟨⟨y, ?_, htally.dropNode _, hadds.dropNode⟩, fun _ hmatched => by cases hmatched⟩
        rw [spot_eq (stream_dropNode q _)]
        exact .drop hread
  | wrap kind first more body hfirst hbody =>
      obtain ⟨q, hq, rfl⟩ | ⟨q, hq, ho⟩ := Rule.exec_wrap_eq_some.1 ho
      · obtain ⟨y, hread, hadded⟩ := (hfirst hr.2.1 hp hq).1
        exact ⟨⟨y, .unwrapped hread, hadded⟩, False.elim⟩
      · obtain ⟨y, hread, htally, hnode⟩ := (hfirst hr.2.1 hp hq).2 hr.1 rfl
        obtain ⟨z, hlayers, hadded⟩ := wrapWhile_reads
          (Session.exec_follows hcall.follows bound body)
          (fun q o hq ho => (exec_grown hcall hr.2.2 hq ho).1)
          (fun q o hq ho => (hbody hr.2.2 hq ho).1) (hcall.consistent hp hq) htally hnode.tower ho
        obtain ⟨matched, r⟩ := o
        obtain rfl : matched = true := Rule.matched_of_wrapWhile ho
        exact ⟨⟨z, .wrap hread hlayers, hadded⟩, False.elim⟩
  | attempt body ih =>
      obtain ⟨q, hq, hclean, rfl⟩ | ⟨matched, q, hq, hback, rfl⟩ := Rule.exec_attempt_eq_some.1 ho
      · obtain ⟨y, hread, htally, hadds⟩ := (ih hr hp hq).1
        refine ⟨⟨y, .attempt hread ?_, htally, hadds⟩, False.elim⟩
        by_contra hne
        rw [htally.hasFaultSince_iff.2 hne] at hclean
        cases hclean
      · obtain ⟨y, hread, htally, hadds⟩ := (ih hr hp hq).1
        have hgrown : Grown p q := (exec_grown (r := body) hcall hr hp hq).1
        dsimp only
        rw [hgrown.restore hp (hcall.consistent hp hq)]
        exact ⟨⟨.nil, .back hread fun hmatched => htally.hasFaultSince_iff.1 (hback hmatched),
          .of_eq rfl rfl, .of_eq rfl⟩, False.elim⟩
  | call name =>
      obtain ⟨y, hread, hadded⟩ := hreads name p o hp ho
      refine ⟨⟨y, .call hread, hadded⟩, fun hnoded hmatched => ?_⟩
      obtain ⟨z, hread, hadded⟩ := hnodes name p o hp ho hnoded hmatched
      exact ⟨z, .call hread, hadded⟩

end

end Parser

namespace Grammar

variable {d : Dialect} {source : Text}

lemma run_reads (bound : Nat) (name : Nonterminal) {p : Parser} {o : Rule.Outcome}
    (hp : p.Consistent d source) (ho : run d bound name p = some o) :
    Parser.ReadsTo (Yields d bound name) p o ∧
      (Rule.isNodeName name = true → o.matched = true →
        Parser.ReadsNode (Yields d bound name) p o) := by
  induction bound generalizing name p o with
  | zero => cases ho
  | succ bound ih =>
      obtain ⟨hread, hnode⟩ := Parser.exec_reads (C := Yields d bound) (tame_run bound)
        (fun name p o hp ho => (ih name hp ho).1) (fun name p o hp ho => (ih name hp ho).2)
        (nested_rule d name) hp ho
      exact ⟨hread, fun hname => hnode (noded_rule hname)⟩

/-- Carrying out a rule of the grammar is reading what it yields. -/
theorem reads_of_exec {bound : Nat} {r : Rule} (hr : r.Nested) {p : Parser} {o : Rule.Outcome}
    (hp : p.Consistent d source) (ho : exec d bound r p = some o) :
    Parser.ReadsTo (Rule.Reads d (Yields d bound) (.rule r)) p o ∧
      (r.Noded → o.matched = true →
        Parser.ReadsNode (Rule.Reads d (Yields d bound) (.rule r)) p o) :=
  Parser.exec_reads (C := Yields d bound) (tame_run bound)
    (fun name _ _ hp ho => (run_reads bound name hp ho).1)
    (fun name _ _ hp ho => (run_reads bound name hp ho).2) hr hp ho

end Grammar

/-! ## Sources -/

/-- The spot before the first token of a source. -/
def Spot.ofSource (d : Dialect) (source : Text) : Spot :=
  ⟨none, readSignificant d source, source.length⟩

namespace Entry

/-- Reading a source yields one node; its steps are those of the source, its faults and tokens are
those that were found and taken, and what lies ahead in the end is the rest of the tokens. -/
theorem yield_readSource (d : Dialect) (entry : Entry) (source : Text) :
    ∃ kind y s, (∀ bound, Grammar.bound source.length ≤ bound →
        Rule.Reads d (Grammar.Yields d bound) (.rule entry.rule) (.ofSource d source) true
          (.node kind y .nil) s) ∧
      Event.steps (readSource d entry source).events = .opening kind :: (y.steps ++ [.closing]) ∧
      significant (readSource d entry source).tokens.toList = y.tokens ++ s.ahead ∧
      (readSource d entry source).spot = s := by
  obtain ⟨o, ho, hread⟩ := exists_outcome d entry source
  have hp := Parser.Consistent.ofSource d source
  have hspot : (Parser.ofSource d source).spot = .ofSource d source := rfl
  have hnode : ∀ bound, Grammar.bound source.length ≤ bound → ∃ kind y,
      Rule.Reads d (Grammar.Yields d bound) (.rule entry.rule) (.ofSource d source) true
        (.node kind y .nil) o.parser.spot ∧
      Parser.Tally (Parser.ofSource d source) (.node kind y .nil) o.parser ∧
      Parser.AddsNode (Parser.ofSource d source) (.node kind y .nil) o.parser := by
    intro bound hbound
    have ho := ho bound hbound
    have hmatched := matched_of_exec entry ho
    obtain ⟨z, hreads, htally, hadds⟩ :=
      (Grammar.reads_of_exec (total_rule d entry).nested hp ho).2 (noded_rule entry) hmatched
    have hform := hadds
    obtain ⟨kind, inner, y, -, -, -, rfl⟩ := hform
    rw [hmatched, hspot] at hreads
    exact ⟨kind, y, hreads, htally, hadds⟩
  obtain ⟨kind, y, hreads, htally, hadds⟩ := hnode _ (le_refl _)
  refine ⟨kind, y, o.parser.spot, ?_, ?_, ?_, by rw [hread]⟩
  · intro bound hbound
    obtain ⟨kind', y', hreads', -⟩ := hnode bound hbound
    obtain ⟨-, hsame, -⟩ := Grammar.reads_unique hreads hreads'
    rw [hsame]
    exact hreads'
  · obtain ⟨new, hnew, -, hsteps⟩ := hadds.adds
    have hevents : o.parser.events = new.toArray := by
      apply Array.ext'
      simpa [Parser.ofSource] using hnew
    rw [hread, hevents, hsteps]
    rfl
  · have htokens := htally.tokens
    rw [← (consistent_readSource d entry source).stream, hread,
      ← List.take_append_drop o.parser.stream.cursor o.parser.stream.tokens.toList, htokens]
    simp [Parser.ofSource, Stream.ofTokens, Yield.tokens, Parser.spot, Stream.spot]

end Entry

end StyleSheet
