import Mathlib
import StyleSheet.Proofs.Outline
import StyleSheet.Proofs.Execution

/-!
# Parsers that the grammar cannot tell apart

Two parsers are `Alike` if they have the same events and stand at the same place of rows with the
same outline. The rows may belong to different sources. Whatever a rule does to one of them it does
to the other one (`exec_agree`): it sees the same, and what it changes it changes alike. Going back
is no exception, because it leads to the states in which the rule began.
-/

namespace StyleSheet

open Token

namespace Token.Stream

/-- The outline of the significant tokens. -/
def outline (s : Stream) : List (Leaf × Bool) := Token.outline s.length s.tokens.toList

lemma getElem?_tokens (s : Stream) (i : Nat) :
    s.tokens[i]?.map Token.leaf = s.outline[i]?.map Prod.fst := by
  rw [outline, getElem?_outline, Option.map_map, ← Array.getElem?_toList]
  rfl

lemma kindAt_eq (s : Stream) (n : Nat) :
    s.kindAt n = ((s.outline[s.cursor + n]?.map Prod.fst).map Leaf.kind).getD .endOfInput := by
  rw [← getElem?_tokens, kindAt, peek?]
  cases s.tokens[s.cursor + n]? <;> rfl

lemma textAt_eq (s : Stream) (n : Nat) :
    s.textAt n = ((s.outline[s.cursor + n]?.map Prod.fst).map Leaf.text).getD [] := by
  rw [← getElem?_tokens, textAt, peek?]
  cases s.tokens[s.cursor + n]? <;> rfl

/-- The gap before a token is the one behind the token before it. -/
lemma gapAt_eq (s : Stream) (n : Nat) :
    s.gapAt n =
      if s.cursor + n = 0 then true
      else (s.outline[s.cursor + n - 1]?.map Prod.snd).getD true := by
  rw [gapAt, before?, peek?, outline, getElem?_outline]
  rcases hplace : s.cursor + n with _ | i
  · rfl
  · simp only [Nat.succ_ne_zero, if_false, Nat.add_sub_cancel]
    rw [← Array.getElem?_toList, ← Array.getElem?_toList]
    rcases s.tokens.toList[i]? with _ | b
    · rfl
    · dsimp only [Option.map_some, Option.getD_some]
      rcases hdrop : s.tokens.toList.drop (i + 1) with _ | ⟨t, rest⟩
      · rw [List.getElem?_eq_none (List.drop_eq_nil_iff.1 hdrop)]
        rfl
      · have hget : s.tokens.toList[i + 1]? = some t := by
          rw [← List.head?_drop, hdrop]
          rfl
        rw [hget]
        rfl

lemma last_eq (s : Stream) :
    (s.before? 0).map Token.kind =
      if s.cursor = 0 then none else (s.outline[s.cursor - 1]?.map Prod.fst).map Leaf.kind := by
  rw [← getElem?_tokens, before?]
  rcases s.cursor with _ | i
  · rfl
  · simp only [Nat.succ_ne_zero, if_false, Nat.add_sub_cancel, Option.map_map]
    rfl

/-- What is seen at a place depends on the outline only. -/
lemma view_eq {s s' : Stream} (hcursor : s.cursor = s'.cursor) (houtline : s.outline = s'.outline) :
    s.view = s'.view := by
  have hkind : s.kindAt = s'.kindAt := by
    ext n
    rw [kindAt_eq, kindAt_eq, hcursor, houtline]
  have htext : s.textAt = s'.textAt := by
    ext n
    rw [textAt_eq, textAt_eq, hcursor, houtline]
  have hgap : s.gapAt = s'.gapAt := by
    ext n
    rw [gapAt_eq, gapAt_eq, hcursor, houtline]
  have hlast : (s.before? 0).map Token.kind = (s'.before? 0).map Token.kind := by
    rw [last_eq, last_eq, hcursor, houtline]
  rw [view, view, hkind, htext, hgap, hlast]

end Token.Stream

namespace Parser

/-! ## The operations -/

/-- The parsers have the same events, and stand at the same place of rows with the same outline. -/
structure Alike (p q : Parser) : Prop where
  dialect : p.dialect = q.dialect
  events : p.events = q.events
  faults : p.faults = q.faults
  cursor : p.stream.cursor = q.stream.cursor
  outline : p.stream.outline = q.stream.outline

namespace Alike

variable {p q : Parser}

lemma view (h : Alike p q) : p.stream.view = q.stream.view := Stream.view_eq h.cursor h.outline

lemma isExhausted (h : Alike p q) : p.stream.isExhausted = q.stream.isExhausted := by
  have hsize : p.stream.tokens.size = q.stream.tokens.size := by
    rw [← Array.length_toList, ← Array.length_toList]
    exact length_eq h.outline
  rw [Stream.isExhausted, Stream.isExhausted, hsize, h.cursor]

/-- Only the events change, and they change alike. -/
lemma withEvents (h : Alike p q) (f : Array Event → Array Event) :
    Alike { p with events := f p.events } { q with events := f q.events } :=
  { h with events := by simp only [h.events] }

lemma take (h : Alike p q) : Alike p.take q.take := by
  rw [Parser.take, Parser.take, h.isExhausted]
  split
  · exact h
  · exact { h with
      events := by simp only [h.events]
      cursor := congrArg (· + 1) h.cursor }

lemma report (h : Alike p q) (f : Fault) : Alike (p.report f) (q.report f) :=
  { h with
    events := by simp only [Parser.report, h.events]
    faults := congrArg (· + 1) h.faults }

lemma openNode (h : Alike p q) : Alike p.openNode q.openNode := h.withEvents (·.push .vacant)

lemma closeNode (h : Alike p q) (place : Nat) (kind : NodeKind) :
    Alike (p.closeNode place kind) (q.closeNode place kind) :=
  h.withEvents fun events => (events.setIfInBounds place (.opening kind none)).push .closing

lemma dropNode (h : Alike p q) (place : Nat) : Alike (p.dropNode place) (q.dropNode place) := by
  rw [Parser.dropNode, Parser.dropNode, h.events]
  split
  · exact { h with events := rfl }
  · exact h

lemma openAround (h : Alike p q) (place : Nat) : Alike (p.openAround place) (q.openAround place) :=
  { h with events := by simp only [Parser.openAround, h.events] }

lemma hasFaultSince {p' q' : Parser} (h : Alike p q) (h' : Alike p' q') :
    p'.hasFaultSince p.snapshot = q'.hasFaultSince q.snapshot := by
  rw [Parser.hasFaultSince, Parser.hasFaultSince, h'.faults, snapshot, snapshot, h.faults]

end Alike

/-- A cut leaves all else as it is. -/
lemma cutRange_others (p : Parser) :
    p.cutRange.dialect = p.dialect ∧ p.cutRange.events = p.events ∧ p.cutRange.faults = p.faults ∧
      p.cutRange.stream.cursor = p.stream.cursor ∧ p.cutRange.stream.length = p.stream.length := by
  unfold cutRange
  split
  · exact ⟨rfl, rfl, rfl, rfl, rfl⟩
  · split <;> exact ⟨rfl, rfl, rfl, rfl, rfl⟩

/-- The significant tokens of a parser whose source has no token without its text. -/
lemma Consistent.wholeRow {d : Dialect} {source : Text} {p : Parser} (h : p.Consistent d source)
    (hwhole : ∀ t ∈ read d source, t.isWhole = true) :
    WholeRow p.stream.length p.stream.tokens.toList := by
  have hsub : ∀ t ∈ p.stream.tokens.toList, t ∈ p.tokens.toList := by
    intro t ht
    rw [h.stream] at ht
    exact List.mem_of_mem_filter ht
  have hrow := h.row
  rw [← h.length] at hrow
  refine ⟨⟨?_, fun t ht => hrow.regular t (hsub t ht)⟩, fun t ht => ?_⟩
  · rw [h.stream]
    exact ordered_significant hrow.ordered
  · exact (h.history.texts_eq (read_row d source) hwhole).1 t (hsub t ht)

section

variable {d : Dialect} {source source' : Text} {p q : Parser}

/-- Parsers of two sources that are alike. -/
structure Twin (d : Dialect) (source source' : Text) (p q : Parser) : Prop where
  left : p.Consistent d source
  right : q.Consistent d source'
  alike : Alike p q

variable (hwhole : ∀ t ∈ read d source, t.isWhole = true)
  (hwhole' : ∀ t ∈ read d source', t.isWhole = true)
include hwhole hwhole'

lemma Twin.cutRange (h : Twin d source source' p q) : Alike p.cutRange q.cutRange := by
  have hsame : p.stream.kindAt 0 = q.stream.kindAt 0 := congrArg (fun v => v.kind 0) h.alike.view
  by_cases hkind : p.stream.kindAt 0 = .unicodeRange
  · obtain ⟨hdialect, hevents, hfaults, hcursor, hlength⟩ := cutRange_others p
    obtain ⟨hdialect', hevents', hfaults', hcursor', hlength'⟩ := cutRange_others q
    refine ⟨?_, ?_, ?_, ?_, ?_⟩
    · rw [hdialect, hdialect', h.alike.dialect]
    · rw [hevents, hevents', h.alike.events]
    · rw [hfaults, hfaults', h.alike.faults]
    · rw [hcursor, hcursor', h.alike.cursor]
    · have hrow := h.left.wholeRow hwhole
      have hrow' := h.right.wholeRow hwhole'
      have houtline := h.alike.outline
      obtain ⟨before, range, glued, behind, hsplit, hbefore, hrange, hglued, hresult⟩ :=
        stream_cutRange hkind
      obtain ⟨before', range', glued', behind', hsplit', hbefore', hrange', hglued', hresult'⟩ :=
        stream_cutRange (hsame ▸ hkind)
      rw [Stream.outline, Stream.outline] at houtline ⊢
      rw [hresult, hresult', hlength, hlength', h.alike.dialect]
      rw [hsplit] at hrow houtline
      rw [hsplit'] at hrow' houtline
      exact outline_cut _ hrow hrow' hrange hrange' hglued hglued'
        (by rw [hbefore, hbefore', h.alike.cursor]) houtline
  · rw [cutRange_eq_self hkind, cutRange_eq_self (hsame ▸ hkind)]
    exact h.alike

end

/-! ## Rules -/

/-- Both outcomes are missing, or both are there and alike. -/
def Agree (a b : Option Rule.Outcome) : Prop :=
  (a = none ∧ b = none) ∨ ∃ matched p q, a = some ⟨matched, p⟩ ∧ b = some ⟨matched, q⟩ ∧ Alike p q

lemma Alike.agree {p q : Parser} (h : Alike p q) (matched : Bool) :
    Agree (some ⟨matched, p⟩) (some ⟨matched, q⟩) := Or.inr ⟨matched, p, q, rfl, rfl, h⟩

lemma agree_none : Agree none none := Or.inl ⟨rfl, rfl⟩

section

variable {d : Dialect} {source source' : Text}
  {call : Nonterminal → Parser → Option Rule.Outcome} {body : Parser → Option Rule.Outcome}

/-- A way of carrying out something that cannot tell parsers apart. -/
def Blind (d : Dialect) (source source' : Text) (body : Parser → Option Rule.Outcome) : Prop :=
  ∀ p q, Twin d source source' p q → Agree (body p) (body q)

lemma repeatUntil_agree (hfollows : Session.Follows d source body)
    (hfollows' : Session.Follows d source' body) (hbody : Blind d source source' body)
    (bound : Nat) : Blind d source source' (Rule.repeatUntil body bound) := by
  induction bound with
  | zero => exact fun _ _ _ => agree_none
  | succ bound ih =>
      intro p q h
      rw [Rule.repeatUntil, Rule.repeatUntil]
      rcases hbody p q h with ⟨hp, hq⟩ | ⟨matched, p', q', hp, hq, halike⟩
      · rw [hp, hq]
        exact agree_none
      · rw [hp, hq]
        cases matched with
        | true =>
            exact ih p' q' ⟨hfollows.consistent h.left hp, hfollows'.consistent h.right hq, halike⟩
        | false => exact halike.agree true

lemma wrapWhile_agree (kind : NodeKind) (more : Nat → View → Bool)
    (hfollows : Session.Follows d source body) (hfollows' : Session.Follows d source' body)
    (hgrown : ∀ p o, p.Consistent d source → body p = some o → Grown p o.parser)
    (hgrown' : ∀ p o, p.Consistent d source' → body p = some o → Grown p o.parser)
    (hbody : Blind d source source' body) (bound layers place : Nat) :
    Blind d source source' (Rule.wrapWhile kind more body bound layers place) := by
  induction bound generalizing layers place with
  | zero => exact fun _ _ _ => agree_none
  | succ bound ih =>
      intro p q h
      rw [Rule.wrapWhile, Rule.wrapWhile, h.alike.view, h.alike.events]
      have hopen := h.left.openAround place
      have hopen' := h.right.openAround place
      split
      · rcases hbody _ _ ⟨hopen, hopen', h.alike.openAround place⟩ with
          ⟨hp, hq⟩ | ⟨matched, p', q', hp, hq, halike⟩
        · rw [hp, hq]
          exact agree_none
        · rw [hp, hq]
          have hvacant := vacant_of_openAround (hgrown _ _ hopen hp)
          have hvacant' := vacant_of_openAround (hgrown' _ _ hopen' hq)
          rw [h.alike.events] at hvacant
          exact ih _ _ _ _ ⟨(hfollows.consistent hopen hp).closeNode kind hvacant,
            (hfollows'.consistent hopen' hq).closeNode kind hvacant', halike.closeNode _ kind⟩
      · exact h.alike.agree true

variable (hwhole : ∀ t ∈ read d source, t.isWhole = true)
  (hwhole' : ∀ t ∈ read d source', t.isWhole = true)
include hwhole hwhole'

/-- A rule that calls nothing that could tell parsers apart cannot do so either. -/
theorem exec_agree (hcall : Tame d source call) (hcall' : Tame d source' call)
    (hblind : ∀ name, Blind d source source' (call name)) (bound : Nat) {r : Rule} (hr : r.Nested) :
    Blind d source source' (r.exec call bound) := by
  induction r with
  | done matched => exact fun p q h => h.alike.agree matched
  | look next ih =>
      intro p q h
      rw [Rule.exec, Rule.exec, h.alike.view]
      exact ih _ (hr _) p q h
  | take => exact fun p q h => h.alike.take.agree true
  | report fault => exact fun p q h => (h.alike.report fault).agree false
  | cutRange => exact fun p q h => (h.cutRange hwhole hwhole').agree true
  | seq first next hfirst hnext =>
      intro p q h
      rw [Rule.exec, Rule.exec]
      rcases hfirst hr.1 p q h with ⟨hp, hq⟩ | ⟨matched, p', q', hp, hq, halike⟩
      · rw [hp, hq]
        exact agree_none
      · rw [hp, hq]
        exact hnext matched (hr.2 matched) p' q'
          ⟨hcall.consistent h.left hp, hcall'.consistent h.right hq, halike⟩
  | many body ih =>
      exact repeatUntil_agree (Session.exec_follows hcall.follows bound body)
        (Session.exec_follows hcall'.follows bound body) (ih hr) bound
  | node kind body ih =>
      intro p q h
      rw [Rule.exec, Rule.exec, h.alike.events]
      rcases ih hr _ _ ⟨h.left.openNode, h.right.openNode, h.alike.openNode⟩ with
        ⟨hp, hq⟩ | ⟨matched, p', q', hp, hq, halike⟩
      · rw [hp, hq]
        exact agree_none
      · rw [hp, hq]
        cases matched with
        | true => exact (halike.closeNode _ kind).agree true
        | false => exact (halike.dropNode _).agree false
  | wrap kind first more body hfirst hbody =>
      intro p q h
      rw [Rule.exec, Rule.exec, h.alike.events]
      rcases hfirst hr.2.1 p q h with ⟨hp, hq⟩ | ⟨matched, p', q', hp, hq, halike⟩
      · rw [hp, hq]
        exact agree_none
      · rw [hp, hq]
        cases matched with
        | true =>
            exact wrapWhile_agree kind more (Session.exec_follows hcall.follows bound body)
              (Session.exec_follows hcall'.follows bound body)
              (fun p o hp ho => (exec_grown hcall hr.2.2 hp ho).1)
              (fun p o hp ho => (exec_grown hcall' hr.2.2 hp ho).1) (hbody hr.2.2) bound 0 _ p' q'
              ⟨hcall.consistent h.left hp, hcall'.consistent h.right hq, halike⟩
        | false => exact halike.agree false
  | attempt body ih =>
      intro p q h
      rw [Rule.exec, Rule.exec]
      rcases ih hr p q h with ⟨hp, hq⟩ | ⟨matched, p', q', hp, hq, halike⟩
      · rw [hp, hq]
        exact agree_none
      · rw [hp, hq]
        dsimp only
        rw [h.alike.hasFaultSince halike]
        split
        · exact halike.agree true
        · -- Both parsers go back to where they were.
          have hbody : body.Nested := hr
          rw [(exec_grown hcall hbody h.left hp).1.restore h.left (hcall.consistent h.left hp),
            (exec_grown hcall' hbody h.right hq).1.restore h.right (hcall'.consistent h.right hq)]
          exact h.alike.agree false
  | call name => exact hblind name

theorem run_agree (bound : Nat) (name : Nonterminal) :
    Blind d source source' (Grammar.run d bound name) := by
  induction bound generalizing name with
  | zero => exact fun _ _ _ => agree_none
  | succ bound ih =>
      exact exec_agree hwhole hwhole' (Grammar.tame_run bound) (Grammar.tame_run bound) ih bound
        (Grammar.nested_rule d name)

end

end Parser

end StyleSheet
