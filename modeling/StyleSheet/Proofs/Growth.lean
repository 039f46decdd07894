import Mathlib
import StyleSheet.Proofs.Extension

/-!
# Rules grow a parser

Whatever a rule does, the state after it has grown from the state before it (`exec_grown`). The one
form that reaches back is `wrap`, which changes the opening of a node that has been closed. It does
no harm as long as that opening belongs to what the rule itself has read; this is what `Rule.Nested`
asks for, and the events of such a rule are a tower.
-/

namespace StyleSheet

open Event

namespace Rule

/-- The nonterminals whose rules read exactly one node whenever they match. -/
def isNodeName : Nonterminal → Bool
  | .term | .ident | .stylesheet => true
  | _ => false

/-- The rule reads exactly one node whenever it matches. -/
def Noded : Rule → Prop
  | done matched => matched = false
  | look next => ∀ v, Noded (next v)
  | node _ _ => True
  | call name => isNodeName name = true
  | _ => False

/-- Nodes are put around single nodes only. -/
def Nested : Rule → Prop
  | look next => ∀ v, Nested (next v)
  | seq first next => Nested first ∧ ∀ matched, Nested (next matched)
  | many body => Nested body
  | node _ body => Nested body
  | wrap _ first _ body => Noded first ∧ Nested first ∧ Nested body
  | attempt body => Nested body
  | _ => True

end Rule

lemma Session.Follows.consistent {d : Dialect} {source : Text} {f : Parser → Option Rule.Outcome}
    (h : Session.Follows d source f) {p : Parser} {o : Rule.Outcome} (hp : p.Consistent d source)
    (ho : f p = some o) : o.parser.Consistent d source := by
  have hs : Session.Sound d source ⟨p, [], []⟩ := ⟨hp, by simp, by simp, .nil⟩
  exact (hs.moves (h _ o hs ho)).parser

namespace Parser

/-- What is asked of the way in which nonterminals are carried out: they use the operations of the
parser, and the state grows. -/
structure Tame (d : Dialect) (source : Text) (call : Nonterminal → Parser → Option Rule.Outcome) :
    Prop where
  follows : ∀ name, Session.Follows d source (call name)
  grown : ∀ name p o, p.Consistent d source → call name p = some o → Grown p o.parser
  grownNode : ∀ name p o, p.Consistent d source → call name p = some o →
    Rule.isNodeName name = true → o.matched = true → GrownNode p o.parser

variable {d : Dialect} {source : Text} {call : Nonterminal → Parser → Option Rule.Outcome}

lemma Tame.consistent (hcall : Tame d source call) {bound : Nat} {r : Rule} {p : Parser}
    {o : Rule.Outcome} (hp : p.Consistent d source) (ho : r.exec call bound p = some o) :
    o.parser.Consistent d source :=
  (Session.exec_follows hcall.follows bound r).consistent hp ho

lemma repeatUntil_grown {body : Parser → Option Rule.Outcome}
    (hfollows : Session.Follows d source body)
    (hbody : ∀ p o, p.Consistent d source → body p = some o → Grown p o.parser) {bound : Nat}
    {p : Parser} {o : Rule.Outcome} (hp : p.Consistent d source)
    (ho : Rule.repeatUntil body bound p = some o) : Grown p o.parser := by
  induction bound generalizing p with
  | zero => cases ho
  | succ bound ih =>
      obtain ⟨q, hq, ho⟩ | ⟨q, hq, rfl⟩ := Rule.repeatUntil_eq_some.1 ho
      · exact (hbody p _ hp hq).trans (ih (hfollows.consistent hp hq) ho)
      · exact hbody p ⟨false, q⟩ hp hq

/-! ## Towers of nodes -/

/-- From `p` to `q` the parser has advanced, and the events of a tower have been added, the last
node of which was opened at `place`. -/
def GrownTower (p : Parser) (place : Nat) (q : Parser) : Prop :=
  Advances p q ∧ ∃ kind inner layers, q.events.toList = p.events.toList ++ tower kind inner layers ∧
    place = p.events.size + towerPlace inner layers ∧ Records inner ∧
    ∀ layer ∈ layers, Records layer.2

lemma GrownNode.tower {p q : Parser} (h : GrownNode p q) : GrownTower p p.events.size q := by
  obtain ⟨hadv, kind, inner, hnew, hrec⟩ := h
  exact ⟨hadv, kind, inner, [], hnew, rfl, hrec, List.forall_mem_nil _⟩

lemma GrownTower.grown {p q : Parser} {place : Nat} (h : GrownTower p place q) : Grown p q := by
  obtain ⟨hadv, kind, inner, layers, hnew, -, hrec, hlayers⟩ := h
  exact ⟨hadv, _, hnew, .tower kind hrec hlayers⟩

/-- Opening a node around a tower links its last node to the new one. -/
lemma openAround_tower {p q : Parser} {kind : NodeKind} {inner : List Event}
    {layers : List (NodeKind × List Event)}
    (hnew : q.events.toList = p.events.toList ++ tower kind inner layers) :
    (q.openAround (p.events.size + towerPlace inner layers)).events.toList =
      p.events.toList ++ (tower kind inner layers).set (towerPlace inner layers)
        (.opening (towerKind kind layers)
          (some ((tower kind inner layers).length - towerPlace inner layers))) ++ [.vacant] := by
  have hsize : q.events.size = p.events.size + (tower kind inner layers).length := by
    rw [← Array.length_toList, hnew, List.length_append, Array.length_toList]
  have hget : q.events[p.events.size + towerPlace inner layers]? =
      some (.opening (towerKind kind layers) none) := by
    rw [← Array.getElem?_toList, hnew, List.getElem?_append_right (by simp), Array.length_toList,
      Nat.add_sub_cancel_left]
    exact tower_getElem? kind inner layers
  rw [openAround, hget]
  dsimp only
  rw [Array.toList_push, Array.toList_setIfInBounds, hnew, List.set_append_right _ _ (by simp),
    Array.length_toList, Nat.add_sub_cancel_left, hsize, Nat.add_sub_add_left]

/-- Putting a node around a tower gives a tower. -/
lemma GrownTower.closeNode {p q r : Parser} {place : Nat} (h : GrownTower p place q)
    (hbody : Grown (q.openAround place) r) (outer : NodeKind) :
    GrownTower p q.events.size (r.closeNode q.events.size outer) := by
  obtain ⟨hadv, kind, inner, layers, hnew, rfl, hrec, hlayers⟩ := h
  obtain ⟨hadv', new, hnew', hrec'⟩ := hbody
  refine ⟨((hadv.trans (advances_openAround q _)).trans hadv').trans (advances_closeNode r _ outer),
    kind, inner, layers ++ [(outer, new)], ?_, ?_, hrec, ?_⟩
  · rw [openAround_tower hnew] at hnew'
    have hsize : q.events.size = (p.events.toList ++ (tower kind inner layers).set
        (towerPlace inner layers) (.opening (towerKind kind layers)
          (some ((tower kind inner layers).length - towerPlace inner layers)))).length := by
      rw [← Array.length_toList, hnew, List.length_append, List.length_append, List.length_set]
    -- Of the events before the new node only one has changed, the opening that now links to it.
    rw [tower_concat, Parser.closeNode, Array.toList_push, Array.toList_setIfInBounds, hnew', hsize]
    simp [nodeRow]
  · rw [towerPlace_concat kind, ← Array.length_toList, hnew, List.length_append,
      Array.length_toList]
  · intro layer hlayer
    rcases List.mem_append.1 hlayer with hlayer | hlayer
    · exact hlayers layer hlayer
    · rw [List.mem_singleton.1 hlayer]
      exact hrec'

lemma vacant_of_openAround {q r : Parser} {place : Nat} (h : Grown (q.openAround place) r) :
    r.events[q.events.size]? = some .vacant := by
  obtain ⟨-, new, hnew, -⟩ := h
  obtain ⟨front, hfront, hopen⟩ : ∃ front : Array Event, front.size = q.events.size ∧
      (q.openAround place).events = front.push .vacant := by
    unfold openAround
    dsimp only
    split
    · exact ⟨_, Array.size_setIfInBounds, rfl⟩
    · exact ⟨_, rfl, rfl⟩
  rw [← Array.getElem?_toList, hnew, hopen, ← hfront]
  simp

lemma wrapWhile_grown {kind : NodeKind} {more : Nat → View → Bool}
    {body : Parser → Option Rule.Outcome} (hfollows : Session.Follows d source body)
    (hbody : ∀ p o, p.Consistent d source → body p = some o → Grown p o.parser)
    {bound layers place : Nat} {p q : Parser} {o : Rule.Outcome} (hq : q.Consistent d source)
    (h : GrownTower p place q) (ho : Rule.wrapWhile kind more body bound layers place q = some o) :
    Grown p o.parser ∧ Advances q o.parser := by
  induction bound generalizing layers place q with
  | zero => cases ho
  | succ bound ih =>
      obtain ⟨-, matched, r, hr, ho⟩ | ⟨-, rfl⟩ := Rule.wrapWhile_eq_some.1 ho
      · have hopen := hq.openAround place
        have hgrown := hbody _ _ hopen hr
        have hclose := (hfollows.consistent hopen hr).closeNode kind (vacant_of_openAround hgrown)
        obtain ⟨hp, hadv⟩ := ih hclose (h.closeNode hgrown kind) ho
        exact ⟨hp, (((advances_openAround q place).trans hgrown.1).trans
          (advances_closeNode r _ kind)).trans hadv⟩
      · exact ⟨h.grown, .refl q⟩

/-! ## All rules -/

/-- Carrying out a rule grows the parser, and by one node if the rule is noded and matches. -/
theorem exec_grown (hcall : Tame d source call) {bound : Nat} {r : Rule} (hr : r.Nested)
    {p : Parser} {o : Rule.Outcome} (hp : p.Consistent d source)
    (ho : r.exec call bound p = some o) :
    Grown p o.parser ∧ (r.Noded → o.matched = true → GrownNode p o.parser) := by
  induction r generalizing p o with
  | done matched =>
      cases ho
      exact ⟨.refl p, fun hnoded hmatched => by simp_all [Rule.Noded]⟩
  | look next ih =>
      obtain ⟨hgrown, hnode⟩ := ih p.stream.view (hr p.stream.view) hp ho
      exact ⟨hgrown, fun hnoded => hnode (hnoded p.stream.view)⟩
  | take =>
      cases ho
      refine ⟨⟨advances_take hp, ?_⟩, False.elim⟩
      unfold take
      split
      · exact ⟨[], by simp, .nil⟩
      · exact ⟨[.token], by simp, .token⟩
  | report fault =>
      cases ho
      exact ⟨⟨.of_eq rfl rfl rfl rfl, [.fault fault], by simp [report], .fault fault⟩, False.elim⟩
  | cutRange =>
      cases ho
      refine ⟨⟨advances_cutRange hp, [], ?_, .nil⟩, False.elim⟩
      rcases cutRange_cases hp.aligned with ⟨hcut, -⟩ | ⟨c, row, -, -, hcut⟩
      · simp [hcut]
      · simp [hcut, withRow]
  | seq first next hfirst hnext =>
      obtain ⟨matched, q, hq, ho⟩ := Rule.exec_seq_eq_some.1 ho
      have hgrown := (hfirst hr.1 hp hq).1
      exact ⟨hgrown.trans (hnext matched (hr.2 matched) (hcall.consistent hp hq) ho).1, False.elim⟩
  | many body ih =>
      exact ⟨repeatUntil_grown (Session.exec_follows hcall.follows bound body)
        (fun q o hq ho => (ih hr hq ho).1) hp ho, False.elim⟩
  | node kind body ih =>
      obtain ⟨q, hq, rfl⟩ | ⟨q, hq, rfl⟩ := Rule.exec_node_eq_some.1 ho
      · have hnode := (ih hr hp.openNode hq).1.closeNode kind
        exact ⟨hnode.grown, fun _ _ => hnode⟩
      · exact ⟨(ih hr hp.openNode hq).1.dropNode, fun _ hmatched => by cases hmatched⟩
  | wrap kind first more body hfirst hbody =>
      obtain ⟨q, hq, rfl⟩ | ⟨q, hq, ho⟩ := Rule.exec_wrap_eq_some.1 ho
      · exact ⟨(hfirst hr.2.1 hp hq).1, False.elim⟩
      · -- What has been read first is one node, which is a tower of its own.
        have hnode := (hfirst hr.2.1 hp hq).2 hr.1 rfl
        exact ⟨(wrapWhile_grown (Session.exec_follows hcall.follows bound body)
          (fun q o hq ho => (hbody hr.2.2 hq ho).1) (hcall.consistent hp hq) hnode.tower ho).1,
          False.elim⟩
  | attempt body ih =>
      obtain ⟨q, hq, -, rfl⟩ | ⟨matched, q, hq, -, rfl⟩ := Rule.exec_attempt_eq_some.1 ho
      · exact ⟨(ih hr hp hq).1, False.elim⟩
      · dsimp only
        rw [(ih hr hp hq).1.restore hp (hcall.consistent hp hq)]
        exact ⟨.refl p, False.elim⟩
  | call name => exact ⟨hcall.grown name p o hp ho, hcall.grownNode name p o hp ho⟩

end Parser

end StyleSheet
