import Mathlib
import StyleSheet.Proofs.Cuts

/-!
# Consistent parsers

The fields of a parser say the same things several times: the tokens stand in two lists, the place
reached is also the number of tokens among the events, and the number of faults is also that of
their events. `Parser.Consistent` says that all of them agree, and that the tokens have come about
from those of the source by the cuts in the log. Each operation of a parser keeps it so; for going
back, what is left of the events has to fit the snapshot, which is `Parser.Kept`.
-/

namespace StyleSheet

open Token

namespace Event

/-- Whether a token is taken. -/
def isToken : Event → Bool
  | token => true
  | _ => false

/-- Whether something is wrong. -/
def isFault : Event → Bool
  | fault _ => true
  | _ => false

/-- How many tokens have been taken. -/
def taken (events : List Event) : Nat := events.countP isToken

/-- How many faults have been recorded. -/
def faulty (events : List Event) : Nat := events.countP isFault

/-- An event that neither takes a token nor records a fault. -/
def IsFrame (e : Event) : Prop := e.isToken = false ∧ e.isFault = false

lemma isFrame_vacant : IsFrame .vacant := ⟨rfl, rfl⟩

lemma isFrame_closing : IsFrame .closing := ⟨rfl, rfl⟩

lemma isFrame_opening (kind : NodeKind) (outer : Option Nat) : IsFrame (.opening kind outer) :=
  ⟨rfl, rfl⟩

lemma countP_set_of_eq {p : Event → Bool} {l : List Event} {i : Nat} {e new : Event}
    (h : l[i]? = some e) (hp : p new = p e) : (l.set i new).countP p = l.countP p := by
  obtain ⟨hi, rfl⟩ := List.getElem?_eq_some_iff.1 h
  rw [List.countP_set hi, hp]
  split
  · rename_i he
    have : 0 < l.countP p := List.countP_pos_iff.2 ⟨_, List.getElem_mem hi, he⟩
    omega
  · rfl

/-- Replacing one frame event by another one takes no token and records no fault. -/
lemma counts_set {l : List Event} {i : Nat} {e new : Event} (h : l[i]? = some e) (he : IsFrame e)
    (hnew : IsFrame new) :
    taken (l.set i new) = taken l ∧ faulty (l.set i new) = faulty l :=
  ⟨countP_set_of_eq h (hnew.1.trans he.1.symm), countP_set_of_eq h (hnew.2.trans he.2.symm)⟩

lemma counts_append {l : List Event} {e : Event} (he : IsFrame e) :
    taken (l ++ [e]) = taken l ∧ faulty (l ++ [e]) = faulty l := by
  simp [taken, faulty, he.1, he.2]

end Event

namespace Parser

open Event

/-- All fields of a parser agree with each other and with the source. -/
structure Consistent (d : Dialect) (source : Text) (p : Parser) : Prop where
  /-- The dialect is that of the source. -/
  dialect : p.dialect = d
  /-- The tokens come from those of the source by the cuts in the log. -/
  history : CutHistory d (Token.read d source) p.cuts p.tokens.toList
  /-- The stream holds the significant tokens. -/
  stream : p.stream.tokens.toList = significant p.tokens.toList
  /-- The stream knows the length of the source. -/
  length : p.stream.length = source.length
  /-- No more tokens have been taken than there are. -/
  cursor_le : p.stream.cursor ≤ p.stream.tokens.size
  /-- The cursor counts the tokens taken. -/
  cursor : p.stream.cursor = taken p.events.toList
  /-- The counter of faults counts the faults recorded. -/
  faults : p.faults = faulty p.events.toList

namespace Consistent

variable {d : Dialect} {source : Text} {p : Parser}

lemma row (h : Consistent d source p) : Row source.length p.tokens.toList :=
  h.history.row (read_row d source)

lemma aligned (h : Consistent d source p) : Aligned source.length p := ⟨h.row, h.stream⟩

lemma ofSource (d : Dialect) (source : Text) : Consistent d source (ofSource d source) where
  dialect := rfl
  history := .nil _
  stream := rfl
  length := rfl
  cursor_le := Nat.zero_le _
  cursor := rfl
  faults := rfl

/-- Only the tokens and faults among the events matter. -/
lemma withEvents (h : Consistent d source p) {events : Array Event}
    (hcounts : taken events.toList = taken p.events.toList ∧
      faulty events.toList = faulty p.events.toList) :
    Consistent d source { p with events := events } :=
  { h with
    cursor := h.cursor.trans hcounts.1.symm
    faults := h.faults.trans hcounts.2.symm }

lemma take (h : Consistent d source p) : Consistent d source p.take := by
  unfold Parser.take
  split
  · exact h
  · rename_i hlt
    have hle : p.stream.cursor + 1 ≤ p.stream.tokens.size := by
      simpa [Stream.isExhausted] using hlt
    exact { h with
      cursor_le := hle
      cursor := by simp [Stream.advance, h.cursor, taken, isToken]
      faults := by simp [h.faults, faulty, isFault] }

lemma report (h : Consistent d source p) (f : Fault) : Consistent d source (p.report f) :=
  { h with
    cursor := by simp [Parser.report, h.cursor, taken, isToken]
    faults := by simp [Parser.report, h.faults, faulty, isFault] }

lemma openNode (h : Consistent d source p) : Consistent d source p.openNode :=
  h.withEvents (by simpa using counts_append isFrame_vacant)

lemma closeNode (h : Consistent d source p) {place : Nat} (kind : NodeKind)
    (hplace : p.events[place]? = some .vacant) : Consistent d source (p.closeNode place kind) := by
  have hset := counts_set (l := p.events.toList) (by simpa using hplace) isFrame_vacant
    (isFrame_opening kind none)
  apply h.withEvents
  rw [Array.toList_push, Array.toList_setIfInBounds]
  exact ⟨(counts_append isFrame_closing).1.trans hset.1,
    (counts_append isFrame_closing).2.trans hset.2⟩

lemma dropNode (h : Consistent d source p) {place : Nat}
    (hplace : p.events[place]? = some .vacant) : Consistent d source (p.dropNode place) := by
  unfold Parser.dropNode
  split
  · rename_i hlast
    apply h.withEvents
    obtain ⟨hlt, hget⟩ := List.getElem?_eq_some_iff.1
      (show p.events.toList[place]? = some .vacant by simpa using hplace)
    have hlast : p.events.toList.getLast (List.ne_nil_of_length_pos (by omega)) = .vacant := by
      rw [List.getLast_eq_getElem, ← hget]
      congr 1
      rw [Array.length_toList]
      omega
    have hcounts := counts_append (l := p.events.toList.dropLast) isFrame_vacant
    rw [← hlast, List.dropLast_append_getLast] at hcounts
    rw [Array.toList_pop]
    exact ⟨hcounts.1.symm, hcounts.2.symm⟩
  · exact h

lemma openAround (h : Consistent d source p) (place : Nat) :
    Consistent d source (p.openAround place) := by
  unfold Parser.openAround
  dsimp only
  split
  · rename_i kind outer hplace
    have hset := counts_set (l := p.events.toList) (by simpa using hplace)
      (isFrame_opening kind outer) (isFrame_opening kind (some (p.events.size - place)))
    apply h.withEvents
    rw [Array.toList_push, Array.toList_setIfInBounds]
    exact ⟨(counts_append isFrame_vacant).1.trans hset.1,
      (counts_append isFrame_vacant).2.trans hset.2⟩
  · exact h.openNode

lemma cutRange (h : Consistent d source p) : Consistent d source p.cutRange := by
  rcases cutRange_cases h.aligned with ⟨hcut, -⟩ | ⟨c, row, hstep, hcursor, hcut⟩
  · rwa [hcut]
  · rw [hcut]
    rw [h.dialect] at hstep
    exact { h with
      history := .cons h.history hstep
      stream := rfl
      cursor_le := by simpa [withRow, hcursor] using hstep.cursor_le }

end Consistent

/-! ## Going back -/

/-- What a parser keeps of the state of a snapshot, as long as it can go back to it. -/
structure Kept (d : Dialect) (source : Text) (p : Parser) (c : Snapshot) : Prop where
  /-- The events of that state are still there. -/
  events_le : c.events ≤ p.events.size
  /-- They took as many tokens as the snapshot says. -/
  cursor : taken (p.events.toList.take c.events) = c.cursor
  /-- They recorded as many faults as the snapshot says. -/
  faults : faulty (p.events.toList.take c.events) = c.faults
  /-- The cuts of that state are still the first ones in the log. -/
  cuts : ∃ old row, old <:+ p.cuts ∧ old.length = c.cuts ∧
    CutHistory d (Token.read d source) old row ∧ c.cursor ≤ (significant row).length

namespace Kept

variable {d : Dialect} {source : Text} {p : Parser} {c : Snapshot}

lemma cuts_le (h : Kept d source p c) : c.cuts ≤ p.cuts.length := by
  obtain ⟨old, row, hold, hlen, -⟩ := h.cuts
  rw [← hlen]
  exact hold.length_le

/-- A snapshot is kept at first. -/
lemma snapshot (h : Consistent d source p) : Kept d source p p.snapshot := by
  have htake : p.events.toList.take p.snapshot.events = p.events.toList :=
    List.take_of_length_le (le_refl _)
  refine ⟨le_refl _, (congrArg taken htake).trans h.cursor.symm,
    (congrArg faulty htake).trans h.faults.symm, p.cuts, p.tokens.toList, List.suffix_refl _, rfl,
    h.history, ?_⟩
  rw [← h.stream, Array.length_toList]
  exact h.cursor_le

/-- A snapshot stays kept while events and cuts are added. -/
lemma extend {q : Parser} (h : Kept d source p c) (hcuts : p.cuts <:+ q.cuts)
    (hevents : ∃ new, q.events.toList = p.events.toList ++ new) : Kept d source q c := by
  obtain ⟨new, hnew⟩ := hevents
  have htake : q.events.toList.take c.events = p.events.toList.take c.events := by
    rw [hnew, List.take_append_of_le_length (by simpa using h.events_le)]
  obtain ⟨old, row, hold, hrest⟩ := h.cuts
  refine ⟨?_, htake ▸ h.cursor, htake ▸ h.faults, old, row, hold.trans hcuts, hrest⟩
  have := h.events_le
  rw [← Array.length_toList, hnew, List.length_append, Array.length_toList]
  omega

/-- It stays kept when one frame event is replaced by another. -/
lemma set (h : Kept d source p c) {place : Nat} {e new : Event}
    (hplace : p.events[place]? = some e) (he : IsFrame e) (hnew : IsFrame new) :
    Kept d source { p with events := p.events.setIfInBounds place new } c := by
  have hcounts : ∀ f : Event → Bool, f new = f e →
      ((p.events.setIfInBounds place new).toList.take c.events).countP f =
        (p.events.toList.take c.events).countP f := by
    intro f hf
    rw [Array.toList_setIfInBounds, List.take_set]
    -- Only an event that the snapshot keeps is counted.
    by_cases hlt : place < c.events
    · refine countP_set_of_eq ?_ hf
      rw [List.getElem?_take_of_lt hlt]
      simpa using hplace
    · rw [List.set_eq_of_length_le]
      simp only [List.length_take]
      omega
  refine ⟨by simpa using h.events_le, ?_, ?_, h.cuts⟩
  · exact (hcounts _ (hnew.1.trans he.1.symm)).trans h.cursor
  · exact (hcounts _ (hnew.2.trans he.2.symm)).trans h.faults

/-- Going back gives the first events and the row of tokens of the snapshot. -/
lemma restore_eq (hp : Consistent d source p) (h : Kept d source p c) :
    ∃ old row, old <:+ p.cuts ∧ old.length = c.cuts ∧ CutHistory d (Token.read d source) old row ∧
      c.cursor ≤ (significant row).length ∧
      p.restore c =
        { p with
          tokens := row.toArray
          stream := { p.stream with tokens := (significant row).toArray, cursor := c.cursor }
          events := p.events.take c.events
          faults := c.faults
          cuts := old } := by
  obtain ⟨old, row, ⟨new, hcuts⟩, hlen, hold, hle⟩ := h.cuts
  refine ⟨old, row, ⟨new, hcuts⟩, hlen, hold, hle, ?_⟩
  -- The log determines the row at the snapshot, and the cuts made since lead back to it.
  obtain ⟨row', hrow', hnew⟩ := CutHistory.split (hcuts ▸ hp.history)
  obtain rfl := hold.unique hrow'
  have hnumber : p.cuts.take (p.cuts.length - c.cuts) = new := by
    rw [← hcuts, ← hlen, List.length_append, Nat.add_sub_cancel, List.take_left]
  have hundo := hnew.undo (hold.row (read_row d source)) hcuts.symm rfl hp.stream
  simp only [restore, hnumber, hundo, withRow, List.size_toArray, Nat.min_eq_left hle]

lemma restore (hp : Consistent d source p) (h : Kept d source p c) :
    Consistent d source (p.restore c) := by
  obtain ⟨old, row, -, -, hhistory, hle, heq⟩ := restore_eq hp h
  rw [heq]
  exact { hp with
    history := hhistory
    stream := rfl
    cursor_le := hle
    cursor := by simpa using h.cursor.symm
    faults := by simpa using h.faults.symm }

/-- Going back to one snapshot keeps the earlier ones. -/
lemma of_restore {c' : Snapshot} (hp : Consistent d source p) (h : Kept d source p c)
    (h' : Kept d source p c') (hevents : c'.events ≤ c.events) (hcuts : c'.cuts ≤ c.cuts) :
    Kept d source (p.restore c) c' := by
  obtain ⟨old, row, hold, hlen, -, -, heq⟩ := restore_eq hp h
  obtain ⟨old', row', hold', hlen', hrest'⟩ := h'.cuts
  have htake : (p.events.take c.events).toList.take c'.events = p.events.toList.take c'.events := by
    simp [List.take_take, Nat.min_eq_left hevents]
  have := h.events_le
  rw [heq]
  refine ⟨?_, htake ▸ h'.cursor, htake ▸ h'.faults, old', row', ?_, hlen', hrest'⟩
  · simp only [Array.take_eq_extract, Array.size_extract]
    omega
  · exact List.suffix_of_suffix_length_le hold' hold (hlen' ▸ hlen ▸ hcuts)

end Kept

end Parser

end StyleSheet
