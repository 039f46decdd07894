import Mathlib
import StyleSheet.Proofs.Session

/-!
# Going back exactly

A parser that goes back to a snapshot is the parser that it was when the snapshot was taken: both
rows of tokens, the cursor, the events, the counter of faults and the log of cuts are the same again
(`Session.restore_undoes_trial`). What has happened meanwhile is a `Trial`. It may do anything, also
cut ranges wherever it comes to, take snapshots of its own and go back to them in any order. Only
the nodes that were opened before have to be left alone.

The events and the log of a trial start with those of its first state, and the cuts made since lead
from the tokens of that state to the present ones (`Descends`). So undoing them, the latest one
first, leads back.
-/

namespace StyleSheet

open Token

namespace Parser

/-- What becomes of a parser behind the state `start`, with the snapshots that are taken on the way.
Only nodes that are opened behind `start` are closed, given up or enclosed, and the parser goes back
only to snapshots of the trial itself. -/
inductive Trial (start : Parser) : List Snapshot → Parser → Prop
  | start : Trial start [start.snapshot] start
  | take {saved : List Snapshot} {p : Parser} : Trial start saved p → Trial start saved p.take
  | report {saved : List Snapshot} {p : Parser} (fault : Fault) :
      Trial start saved p → Trial start saved (p.report fault)
  | cutRange {saved : List Snapshot} {p : Parser} : Trial start saved p →
      Trial start saved p.cutRange
  | openNode {saved : List Snapshot} {p : Parser} : Trial start saved p →
      Trial start saved p.openNode
  | openAround {saved : List Snapshot} {p : Parser} (place : Nat) (h : start.events.size ≤ place) :
      Trial start saved p → Trial start saved (p.openAround place)
  | closeNode {saved : List Snapshot} {p : Parser} (place : Nat) (kind : NodeKind)
      (h : start.events.size ≤ place) :
      Trial start saved p → Trial start saved (p.closeNode place kind)
  | dropNode {saved : List Snapshot} {p : Parser} (place : Nat) (h : start.events.size ≤ place) :
      Trial start saved p → Trial start saved (p.dropNode place)
  | save {saved : List Snapshot} {p : Parser} :
      Trial start saved p → Trial start (p.snapshot :: saved) p
  | restore {saved : List Snapshot} {p : Parser} (c : Snapshot) (h : c ∈ saved) :
      Trial start saved p → Trial start saved (p.restore c)

/-! ## What a trial keeps -/

/-- A parser that still has all of the state `start` in it. -/
structure Descends (start p : Parser) : Prop where
  /-- The dialect is the same. -/
  dialect : p.dialect = start.dialect
  /-- The source is as long as before. -/
  length : p.stream.length = start.stream.length
  /-- The events begin with those of `start`. -/
  events : start.events.toList <+: p.events.toList
  /-- The stream holds the significant tokens. -/
  stream : p.stream.tokens.toList = significant p.tokens.toList
  /-- The cuts made since lead from the tokens of `start` to the present ones. -/
  cuts : ∃ new, p.cuts = new ++ start.cuts ∧
    CutHistory start.dialect start.tokens.toList new p.tokens.toList

/-- A snapshot that is no older than the state `start`. -/
def IsSince (start : Parser) (c : Snapshot) : Prop :=
  start.events.size ≤ c.events ∧ start.cuts.length ≤ c.cuts

namespace Descends

variable {start p : Parser} {hi : Nat}

lemma refl (h : Aligned hi start) : Descends start start where
  dialect := rfl
  length := rfl
  events := List.prefix_rfl
  stream := h.stream
  cuts := ⟨[], rfl, .nil _⟩

lemma aligned (h : Descends start p) (hstart : Aligned hi start) : Aligned hi p := by
  obtain ⟨new, -, hhistory⟩ := h.cuts
  exact ⟨hhistory.row hstart.row, h.stream⟩

lemma isSince_snapshot (h : Descends start p) : IsSince start p.snapshot := by
  obtain ⟨new, hcuts, -⟩ := h.cuts
  constructor
  · simpa [snapshot] using h.events.length_le
  · simp [snapshot, hcuts]

/-- Of the operations on nodes only the events matter. -/
lemma withEvents (h : Descends start p) {events : Array Event}
    (hevents : start.events.toList <+: events.toList) :
    Descends start { p with events := events } :=
  { h with events := hevents }

lemma push (h : Descends start p) (e : Event) :
    Descends start { p with events := p.events.push e } := by
  refine h.withEvents ?_
  rw [Array.toList_push]
  exact h.events.trans (List.prefix_append _ _)

/-- An event behind those of `start` can be replaced. -/
lemma set (h : Descends start p) {place : Nat} (hplace : start.events.size ≤ place) (e : Event) :
    Descends start { p with events := p.events.setIfInBounds place e } := by
  refine h.withEvents ?_
  obtain ⟨rest, hrest⟩ := h.events
  rw [Array.toList_setIfInBounds, ← hrest, List.set_append_right _ _ (by simpa using hplace)]
  exact List.prefix_append _ _

lemma take (h : Descends start p) : Descends start p.take := by
  unfold Parser.take
  split
  · exact h
  · exact { h.push .token with }

lemma report (h : Descends start p) (f : Fault) : Descends start (p.report f) :=
  { h.push (.fault f) with }

lemma openNode (h : Descends start p) : Descends start p.openNode := h.push .vacant

lemma closeNode (h : Descends start p) {place : Nat} (hplace : start.events.size ≤ place)
    (kind : NodeKind) : Descends start (p.closeNode place kind) :=
  (h.set hplace (.opening kind none)).push .closing

lemma openAround (h : Descends start p) {place : Nat} (hplace : start.events.size ≤ place) :
    Descends start (p.openAround place) := by
  unfold Parser.openAround
  dsimp only
  split
  · rename_i kind outer _
    exact (h.set hplace (.opening kind (some (p.events.size - place)))).push .vacant
  · exact h.push .vacant

lemma dropNode (h : Descends start p) {place : Nat} (hplace : start.events.size ≤ place) :
    Descends start (p.dropNode place) := by
  unfold Parser.dropNode
  split
  · rename_i hlast
    refine h.withEvents ?_
    -- The event that is given up stands behind those of `start`.
    obtain ⟨rest, hrest⟩ := h.events
    have hne : rest ≠ [] := by
      rintro rfl
      have := congrArg List.length hrest
      simp only [List.append_nil, Array.length_toList] at this
      omega
    rw [Array.toList_pop, ← hrest, List.dropLast_append_of_ne_nil hne]
    exact List.prefix_append _ _
  · exact h

lemma cutRange (h : Descends start p) (hstart : Aligned hi start) : Descends start p.cutRange := by
  rcases cutRange_cases (h.aligned hstart) with ⟨hcut, -⟩ | ⟨c, row, hstep, -, hcut⟩
  · rwa [hcut]
  · rw [hcut]
    obtain ⟨new, hcuts, hhistory⟩ := h.cuts
    rw [h.dialect] at hstep
    exact { h with
      stream := rfl
      cuts := ⟨c :: new, by rw [hcuts, List.cons_append], .cons hhistory hstep⟩ }

/-- Going back puts the cuts of the snapshot back in force, and these include those of `start`. -/
lemma restore_eq (h : Descends start p) (hstart : Aligned hi start) {c : Snapshot}
    (hc : IsSince start c) :
    ∃ new row, CutHistory start.dialect start.tokens.toList new row ∧
      new.length = min c.cuts p.cuts.length - start.cuts.length ∧
      p.restore c =
        { p with
          tokens := row.toArray
          stream :=
            ⟨(significant row).toArray, min c.cursor (significant row).length, p.stream.length⟩
          events := p.events.take c.events
          faults := c.faults
          cuts := new ++ start.cuts } := by
  obtain ⟨all, hcuts, hhistory⟩ := h.cuts
  have hlength : p.cuts.length = all.length + start.cuts.length := by rw [hcuts, List.length_append]
  have hold := hc.2
  -- The latest cuts are those that the snapshot does not know.
  set k := p.cuts.length - c.cuts with hk
  have hle : k ≤ all.length := by omega
  rw [← List.take_append_drop k all] at hhistory
  obtain ⟨row, hrow, hlatest⟩ := hhistory.split
  have htake : p.cuts.take k = all.take k := by rw [hcuts, List.take_append_of_le_length hle]
  have hall : p.cuts = all.take k ++ (all.drop k ++ start.cuts) := by
    rw [← List.append_assoc, List.take_append_drop, hcuts]
  have hundo := hlatest.undo (hrow.row hstart.row) hall rfl h.stream
  refine ⟨all.drop k, row, hrow, ?_, ?_⟩
  · rw [List.length_drop]
    omega
  · simp only [Parser.restore, ← hk, htake, hundo, withRow, List.size_toArray]

lemma restore (h : Descends start p) (hstart : Aligned hi start) {c : Snapshot}
    (hc : IsSince start c) : Descends start (p.restore c) := by
  obtain ⟨new, row, hhistory, -, heq⟩ := h.restore_eq hstart hc
  rw [heq]
  refine ⟨h.dialect, h.length, ?_, rfl, new, rfl, hhistory⟩
  simpa [List.prefix_take_iff] using ⟨h.events, hc.1⟩

/-- From a parser that descends from `start` the parser goes back to `start`. -/
lemma restore_snapshot (h : Descends start p) (hstart : Aligned hi start)
    (hcursor : start.stream.cursor ≤ start.stream.tokens.size) :
    p.restore start.snapshot = start := by
  obtain ⟨new, row, hhistory, hlength, heq⟩ := h.restore_eq hstart (refl hstart).isSince_snapshot
  obtain ⟨all, hcuts, -⟩ := h.cuts
  obtain rfl : new = [] := List.length_eq_zero_iff.1 (by simpa [snapshot, hcuts] using hlength)
  cases hhistory
  have hevents : p.events.take start.events.size = start.events := by
    obtain ⟨rest, hrest⟩ := h.events
    apply Array.ext'
    simp [← hrest, List.take_left']
  have hstream : (significant start.tokens.toList).toArray = start.stream.tokens := by
    rw [← hstart.stream]
  have hsize : (significant start.tokens.toList).length = start.stream.tokens.size := by
    rw [← hstart.stream, Array.length_toList]
  rw [heq]
  simp only [snapshot, hevents, hstream, hsize, Nat.min_eq_left hcursor, h.dialect, h.length,
    List.nil_append, Array.toArray_toList]

end Descends

/-- A trial keeps the state that it started from, and so do its snapshots. -/
lemma Trial.descends {start p : Parser} {saved : List Snapshot} {hi : Nat} (h : Trial start saved p)
    (hstart : Aligned hi start) : Descends start p ∧ ∀ c ∈ saved, IsSince start c := by
  induction h with
  | start => exact ⟨.refl hstart, by simp [(Descends.refl hstart).isSince_snapshot]⟩
  | take _ ih => exact ih.imp_left fun h => h.take
  | report fault _ ih => exact ih.imp_left fun h => h.report fault
  | cutRange _ ih => exact ih.imp_left fun h => h.cutRange hstart
  | openNode _ ih => exact ih.imp_left fun h => h.openNode
  | openAround place hplace _ ih => exact ih.imp_left fun h => h.openAround hplace
  | closeNode place kind hplace _ ih => exact ih.imp_left fun h => h.closeNode hplace kind
  | dropNode place hplace _ ih => exact ih.imp_left fun h => h.dropNode hplace
  | save _ ih => exact ⟨ih.1, List.forall_mem_cons.2 ⟨ih.1.isSince_snapshot, ih.2⟩⟩
  | restore c hc _ ih => exact ⟨ih.1.restore hstart (ih.2 c hc), ih.2⟩

end Parser

namespace Session

/-- Whatever is tried behind a reachable state, going back to its snapshot restores it: the tokens,
the stream with its cursor, the events, the counter of faults and the log of cuts. -/
theorem restore_undoes_trial {d : Dialect} {source : Text} {s : Session} (h : Reachable d source s)
    {saved : List Snapshot} {p : Parser} (htrial : Parser.Trial s.parser saved p) :
    p.restore s.parser.snapshot = s.parser := by
  have hp := h.sound.parser
  exact (htrial.descends hp.aligned).1.restore_snapshot hp.aligned hp.cursor_le

/-- Both ranges of the source are cut, the second one twice: before the parser goes back to a
snapshot between them, and again behind it. -/
theorem restore_undoes_trial_twice :
    ∃ (s : Session) (saved : List Snapshot) (p : Parser),
      Reachable .css (Text.ofString "u+1-a,u+2") s ∧ Parser.Trial s.parser saved p ∧
      s.parser.cuts.length = 0 ∧ p.cuts.length = 2 ∧ p.faults = 1 ∧
      s.parser.events.size < p.events.size ∧
      p.restore s.parser.snapshot = s.parser := by
  obtain ⟨s, hs⟩ : ∃ s : Session, s =
    ⟨(Parser.ofSource .css (Text.ofString "u+1-a,u+2")).openNode, [0], []⟩ := ⟨_, rfl⟩
  have hreach : Reachable .css (Text.ofString "u+1-a,u+2") s := hs ▸ .single (.openNode _)
  have hcut : Parser.Trial s.parser _ _ :=
    Parser.Trial.start.cutRange.openNode.take.save.take.take.take.take.cutRange
  have hback := hcut.restore _ (List.mem_cons_self ..)
  have hagain := (hback.take.take.take.take.cutRange.report .termExpected).closeNode 1 .term
    (by rw [hs]; decide +kernel)
  refine ⟨s, _, _, hreach, hagain, ?_, ?_, ?_, ?_, restore_undoes_trial hreach hagain⟩
  all_goals
    rw [hs]
    decide +kernel

end Session

end StyleSheet
