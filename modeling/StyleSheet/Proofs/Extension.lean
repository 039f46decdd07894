import Mathlib
import StyleSheet.Proofs.Records
import StyleSheet.Proofs.Session

/-!
# What a rule adds to a parser

Carrying out a rule moves the cursor forward or leaves it, adds cuts to the log, and adds a balanced
row of events. It never touches what was there before, so going back to a snapshot gives the very
state in which the snapshot was taken (`Grown.restore`).

The number of bytes ahead never grows, and every token taken makes it smaller (`Advances.ahead_lt`):
this measure sees through cuts, which make more tokens out of the same bytes.
-/

namespace StyleSheet

open Token Event

/-- The number of bytes from the next token to the end of the source. -/
def Token.Stream.ahead (s : Stream) : Nat :=
  match s.peek? 0 with
  | some t => s.length - t.start
  | none => 0

namespace Parser

/-- The number of bytes from the next token to the end of the source. -/
def ahead (p : Parser) : Nat := p.stream.ahead

/-- From `p` to `q` the cursor has not gone back, each token taken has used up a byte, and cuts have
been added. -/
structure Advances (p q : Parser) : Prop where
  cursor : p.stream.cursor ≤ q.stream.cursor
  ahead : q.ahead + q.stream.cursor ≤ p.ahead + p.stream.cursor
  cuts : ∃ new, q.cuts = new ++ p.cuts ∧
    CutHistory p.dialect p.tokens.toList new q.tokens.toList
  dialect : q.dialect = p.dialect

namespace Advances

lemma of_eq {p q : Parser} (hstream : q.stream = p.stream) (htokens : q.tokens = p.tokens)
    (hcuts : q.cuts = p.cuts) (hdialect : q.dialect = p.dialect) : Advances p q where
  cursor := by rw [hstream]
  ahead := by rw [Parser.ahead, Parser.ahead, hstream]
  cuts := ⟨[], hcuts, by rw [htokens]; exact .nil _⟩
  dialect := hdialect

lemma refl (p : Parser) : Advances p p := of_eq rfl rfl rfl rfl

lemma trans {p q r : Parser} (h : Advances p q) (h' : Advances q r) : Advances p r where
  cursor := h.cursor.trans h'.cursor
  ahead := h'.ahead.trans h.ahead
  cuts := by
    obtain ⟨new, hnew, hhistory⟩ := h.cuts
    obtain ⟨new', hnew', hhistory'⟩ := h'.cuts
    rw [h.dialect] at hhistory'
    exact ⟨new' ++ new, by rw [hnew', hnew, List.append_assoc], hhistory.trans hhistory'⟩
  dialect := h'.dialect.trans h.dialect

lemma ahead_le {p q : Parser} (h : Advances p q) : q.ahead ≤ p.ahead := by
  have := h.cursor
  have := h.ahead
  omega

/-- If the cursor has moved, fewer bytes are ahead. -/
lemma ahead_lt {p q : Parser} (h : Advances p q) (hlt : p.stream.cursor < q.stream.cursor) :
    q.ahead < p.ahead := by
  have := h.ahead
  omega

end Advances

/-! ## The operations -/

section

variable {d : Dialect} {source : Text} {p : Parser}

lemma ordered_significant {lo hi : Nat} {l : List Token} (h : Ordered lo l hi) :
    Ordered lo (significant l) hi := by
  induction l generalizing lo with
  | nil => exact h
  | cons t rest ih =>
      obtain ⟨h₁, h₂, h₃⟩ := h
      cases ht : t.isTrivia with
      | true =>
          rw [significant_cons_trivia ht]
          exact (ih h₃).lower (by omega)
      | false =>
          rw [significant_cons ht]
          exact ⟨h₁, h₂, ih h₃⟩

lemma Consistent.ordered (h : Consistent d source p) :
    Ordered 0 p.stream.tokens.toList source.length := by
  rw [h.stream]
  exact ordered_significant h.row.ordered

/-- The next token is not empty and lies inside the source. -/
lemma Consistent.peek?_lt (h : Consistent d source p) {t : Token} (ht : p.stream.peek? 0 = some t) :
    t.start < t.stop ∧ t.stop ≤ source.length := by
  refine (h.ordered.mem ?_).2
  rw [Stream.peek?, ← Array.getElem?_toList] at ht
  exact List.mem_of_getElem? ht

lemma Consistent.ahead_eq (h : Consistent d source p) {t : Token} (ht : p.stream.peek? 0 = some t) :
    p.ahead = source.length - t.start := by
  rw [Parser.ahead, Stream.ahead, ht, h.length]

lemma Consistent.ahead_le (h : Consistent d source p) : p.ahead ≤ source.length := by
  cases hpeek : p.stream.peek? 0 with
  | none => simp [Parser.ahead, Stream.ahead, hpeek]
  | some t =>
      rw [h.ahead_eq hpeek]
      exact Nat.sub_le _ _

/-- Taking a token uses up its bytes. -/
lemma advances_take (h : Consistent d source p) : Advances p p.take := by
  unfold Parser.take
  split
  · exact .refl p
  · rename_i hlt
    have hlt : p.stream.cursor < p.stream.tokens.size := by simpa [Stream.isExhausted] using hlt
    have hpeek : p.stream.peek? 0 = some p.stream.tokens[p.stream.cursor] := by
      simp [Stream.peek?, hlt]
    have hfirst := h.peek?_lt hpeek
    have hahead := h.ahead_eq hpeek
    refine ⟨Nat.le_succ _, ?_, ⟨[], rfl, .nil _⟩, rfl⟩
    have hnext : p.stream.advance.ahead ≤
        source.length - p.stream.tokens[p.stream.cursor].stop := by
      rw [Stream.ahead]
      split
      · rename_i t ht
        rw [Stream.peek?, ← Array.getElem?_toList] at ht
        obtain ⟨hlt', ht⟩ := List.getElem?_eq_some_iff.1 ht
        have hpair := List.pairwise_iff_getElem.1 h.ordered.pairwise p.stream.cursor
          (p.stream.advance.cursor + 0) (by simpa using hlt) hlt' (Nat.lt_succ_self _)
        have hlen : p.stream.advance.length = source.length := h.length
        have hstop : p.stream.tokens[p.stream.cursor].stop ≤ t.start := ht ▸ hpair
        omega
      · exact Nat.zero_le _
    simp only [Parser.ahead, Stream.advance] at hnext hahead ⊢
    omega

/-- The token at a place of the row is the next one if the cursor counts the significant tokens
before that place. -/
lemma peek?_withRow (before behind : List Token) {t : Token} (ht : t.isTrivia = false)
    (hcursor : (significant before).length = p.stream.cursor) :
    (p.withRow (before ++ t :: behind)).stream.peek? 0 = some t := by
  have hsplit : significant (before ++ t :: behind) =
      significant before ++ t :: significant behind := by
    rw [significant_append, significant_cons ht]
  simp [withRow, Stream.peek?, hsplit, ← hcursor]

/-- A cut changes the next token only: a range becomes an identifier of at most one byte. -/
lemma cutRange_next (h : Consistent d source p) :
    (p.cutRange = p ∧ p.stream.kindAt 0 ≠ .unicodeRange) ∨
      ∃ range piece, p.stream.peek? 0 = some range ∧ range.kind = .unicodeRange ∧
        p.cutRange.stream.peek? 0 = some piece ∧ piece.start = range.start ∧
        piece.kind = .ident ∧ piece.text.length ≤ 1 := by
  rcases cutRange_cases h.aligned with hcut | ⟨c, row, hstep, hcursor, hcut⟩
  · exact Or.inl hcut
  · right
    have hself : p.withRow p.tokens.toList = p := by
      have hstream : (significant p.tokens.toList).toArray = p.stream.tokens := by rw [← h.stream]
      simp [withRow, hstream]
    generalize hrow : p.tokens.toList = tokens at hstep hself
    obtain ⟨before, range, glued, behind, hrun⟩ := hstep
    have hrange : range.isTrivia = false := by
      rw [isTrivia, hrun.kind]
      rfl
    rw [List.append_assoc, List.cons_append] at hself
    have hpeek := peek?_withRow before (glued ++ behind) hrange hcursor
    rw [hself] at hpeek
    refine ⟨range, ⟨.ident, range.start, range.start + 1, range.text.take 1⟩, hpeek, hrun.kind, ?_,
      rfl, rfl, by simp⟩
    rw [hcut, List.append_assoc, rangePieces, List.cons_append]
    exact peek?_withRow before _ rfl hcursor

/-- However many tokens a cut inserts, the bytes ahead stay the same. -/
lemma ahead_cutRange (h : Consistent d source p) : p.cutRange.ahead = p.ahead := by
  rcases cutRange_next h with ⟨hcut, -⟩ | ⟨range, piece, hrange, -, hpiece, hstart, -⟩
  · rw [hcut]
  · rw [h.ahead_eq hrange, h.cutRange.ahead_eq hpiece, hstart]

lemma advances_cutRange (h : Consistent d source p) : Advances p p.cutRange := by
  have hahead := ahead_cutRange h
  rcases cutRange_cases h.aligned with ⟨hcut, -⟩ | ⟨c, row, hstep, hcursor, hcut⟩
  · rw [hcut]
    exact .refl p
  · refine ⟨by rw [hcut]; rfl, by rw [hahead, hcut]; rfl, ⟨[c], by rw [hcut]; rfl, ?_⟩,
      by rw [hcut]; rfl⟩
    rw [hcut]
    exact .cons (.nil _) hstep

end

/-! ## Growth -/

/-- From `p` to `q` the parser has advanced, and a balanced row of events has been added. -/
def Grown (p q : Parser) : Prop :=
  Advances p q ∧ ∃ new, q.events.toList = p.events.toList ++ new ∧ Records new

/-- From `p` to `q` the parser has advanced, and the events of one node have been added. -/
def GrownNode (p q : Parser) : Prop :=
  Advances p q ∧ ∃ kind inner, q.events.toList = p.events.toList ++ nodeRow kind none inner ∧
    Records inner

namespace Grown

lemma refl (p : Parser) : Grown p p := ⟨.refl p, [], by simp, .nil⟩

lemma trans {p q r : Parser} (h : Grown p q) (h' : Grown q r) : Grown p r := by
  obtain ⟨hadv, new, hnew, hrec⟩ := h
  obtain ⟨hadv', new', hnew', hrec'⟩ := h'
  exact ⟨hadv.trans hadv', new ++ new', by rw [hnew', hnew, List.append_assoc], hrec.append hrec'⟩

/-- Going back undoes growth. -/
theorem restore {d : Dialect} {source : Text} {p q : Parser} (hp : Consistent d source p)
    (hq : Consistent d source q) (h : Grown p q) : q.restore p.snapshot = p := by
  obtain ⟨⟨-, -, ⟨new, hcuts, hhistory⟩, hdialect⟩, events, hevents, -⟩ := h
  have hkept : Kept d source q p.snapshot :=
    (Kept.snapshot hp).extend ⟨new, hcuts.symm⟩ ⟨events, hevents⟩
  obtain ⟨old, row, hold, hlen, hrow, -, heq⟩ := hkept.restore_eq hq
  -- Both logs end a longer one and have the same length.
  obtain rfl : old = p.cuts := by
    obtain ⟨new', hnew'⟩ := hold
    rw [hcuts] at hnew'
    exact (List.append_inj' hnew' hlen).2
  obtain rfl := hrow.unique hp.history
  rw [heq]
  have hlength : q.stream.length = p.stream.length := hq.length.trans hp.length.symm
  have htake : q.events.take p.events.size = p.events := by
    apply Array.ext'
    rw [Array.take_eq_extract, Array.toList_extract, hevents]
    simp
  have hstream : (significant p.tokens.toList).toArray = p.stream.tokens := by rw [← hp.stream]
  simp only [snapshot, hdialect, htake, hstream, hlength, Array.toArray_toList]

end Grown

lemma GrownNode.grown {p q : Parser} (h : GrownNode p q) : Grown p q := by
  obtain ⟨hadv, kind, inner, hnew, hrec⟩ := h
  refine ⟨hadv, _, hnew, ?_⟩
  exact .node kind hrec

/-! ## Nodes -/

section

variable {d : Dialect} {source : Text} {p q : Parser}

lemma advances_openNode (p : Parser) : Advances p p.openNode := .of_eq rfl rfl rfl rfl

lemma advances_closeNode (p : Parser) (place : Nat) (kind : NodeKind) :
    Advances p (p.closeNode place kind) := .of_eq rfl rfl rfl rfl

lemma advances_openAround (p : Parser) (place : Nat) : Advances p (p.openAround place) :=
  .of_eq rfl rfl rfl rfl

lemma advances_dropNode (p : Parser) (place : Nat) : Advances p (p.dropNode place) := by
  unfold dropNode
  split
  · exact .of_eq rfl rfl rfl rfl
  · exact .refl p

/-- A node around what was read since it was opened. -/
lemma Grown.closeNode (h : Grown p.openNode q) (kind : NodeKind) :
    GrownNode p (q.closeNode p.events.size kind) := by
  obtain ⟨hadv, inner, hinner, hrec⟩ := h
  refine ⟨((advances_openNode p).trans hadv).trans (advances_closeNode q _ kind), kind, inner, ?_,
    hrec⟩
  have hevents : q.events.toList = p.events.toList ++ .vacant :: inner := by
    simpa [openNode] using hinner
  simp [Parser.closeNode, hevents, nodeRow]

/-- A node that is given up leaves an empty place at most. -/
lemma Grown.dropNode (h : Grown p.openNode q) : Grown p (q.dropNode p.events.size) := by
  obtain ⟨hadv, inner, hinner, hrec⟩ := h
  have hevents : q.events.toList = p.events.toList ++ .vacant :: inner := by
    simpa [openNode] using hinner
  refine ⟨((advances_openNode p).trans hadv).trans (advances_dropNode q _), ?_⟩
  unfold Parser.dropNode
  split
  · rename_i hlast
    have hnil : inner = [] := by
      have hsize : q.events.size = p.events.size + (inner.length + 1) := by
        rw [← Array.length_toList, hevents]
        simp
      exact List.length_eq_zero_iff.1 (by omega)
    refine ⟨[], ?_, .nil⟩
    simp [hevents, hnil]
  · exact ⟨.vacant :: inner, hevents, Records.vacant.append hrec⟩

/-- Nothing is left of a node that was given up before anything came after it. -/
lemma dropNode_openNode (p : Parser) : p.openNode.dropNode p.events.size = p := by
  simp [Parser.dropNode, Parser.openNode]

end

end Parser

end StyleSheet
