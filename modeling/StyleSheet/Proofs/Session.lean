import Mathlib
import StyleSheet.Proofs.Consistency
import StyleSheet.Proofs.Outcomes

/-!
# Sessions

A session is a parser in use, together with what its user has to remember: the places of the nodes
that are open, and the snapshots to go back to. Its steps are the operations of a parser, each under
the condition that a careful user meets: only an open node is closed or given up, a node is given up
only if it is younger than every snapshot, and going back forgets the nodes and snapshots of the
state that is left.

Every reachable session has a consistent parser (`Reachable.sound`), and carrying out a rule of the
grammar is a sequence of such steps (`exec_follows`).
-/

namespace StyleSheet

open Token Event

/-- A parser, the places of the open nodes, and the snapshots taken, the latest first. -/
structure Session where
  /-- The parser. -/
  parser : Parser
  /-- Where the open nodes were opened. -/
  opened : List Nat
  /-- The snapshots to which the parser can go back. -/
  saved : List Snapshot

namespace Session

/-- One operation on a parser. -/
inductive Move : Session → Session → Prop
  /-- Takes a token. -/
  | take (s : Session) : Move s { s with parser := s.parser.take }
  /-- Records a fault. -/
  | report (s : Session) (fault : Fault) : Move s { s with parser := s.parser.report fault }
  /-- Cuts a range of code points. -/
  | cutRange (s : Session) : Move s { s with parser := s.parser.cutRange }
  /-- Opens a node. -/
  | openNode (s : Session) :
      Move s { s with parser := s.parser.openNode, opened := s.parser.events.size :: s.opened }
  /-- Opens a node around one that was opened at `place`. -/
  | openAround (s : Session) (place : Nat) :
      Move s { s with
        parser := s.parser.openAround place
        opened := s.parser.events.size :: s.opened }
  /-- Closes an open node. -/
  | closeNode (s : Session) (place : Nat) (kind : NodeKind) (h : place ∈ s.opened) :
      Move s { s with
        parser := s.parser.closeNode place kind
        opened := s.opened.filter (· ≠ place) }
  /-- Gives up an open node that is younger than every snapshot. -/
  | dropNode (s : Session) (place : Nat) (h : place ∈ s.opened)
      (hsaved : ∀ c ∈ s.saved, c.events ≤ place) :
      Move s { s with
        parser := s.parser.dropNode place
        opened := s.opened.filter (· ≠ place) }
  /-- Takes a snapshot. -/
  | save (s : Session) : Move s { s with saved := s.parser.snapshot :: s.saved }
  /-- Forgets the latest snapshot. -/
  | forget (s : Session) : Move s { s with saved := s.saved.tail }
  /-- Goes back to a snapshot. -/
  | restore (s : Session) (newer : List Snapshot) (c : Snapshot) (older : List Snapshot)
      (h : s.saved = newer ++ c :: older) :
      Move s
        { parser := s.parser.restore c
          opened := s.opened.filter (· < c.events)
          saved := c :: older }

/-- Any number of operations. -/
abbrev Moves : Session → Session → Prop := Relation.ReflTransGen Move

/-- A session with a source, from its start. -/
def Reachable (d : Dialect) (source : Text) (s : Session) : Prop :=
  Moves ⟨Parser.ofSource d source, [], []⟩ s

/-! ## The invariant -/

/-- What holds of a session after any number of operations. -/
structure Sound (d : Dialect) (source : Text) (s : Session) : Prop where
  /-- The parser is consistent. -/
  parser : s.parser.Consistent d source
  /-- The open nodes have no kind yet. -/
  opened : ∀ place ∈ s.opened, s.parser.events[place]? = some .vacant
  /-- The snapshots are kept. -/
  saved : ∀ c ∈ s.saved, s.parser.Kept d source c
  /-- Earlier snapshots are smaller. -/
  sorted : s.saved.Pairwise fun c c' => c'.events ≤ c.events ∧ c'.cuts ≤ c.cuts

namespace Sound

variable {d : Dialect} {source : Text} {s : Session}

lemma place_lt (h : Sound d source s) : ∀ place ∈ s.opened, place < s.parser.events.size := by
  intro place hplace
  obtain ⟨hlt, -⟩ := Array.getElem?_eq_some_iff.1 (h.opened place hplace)
  exact hlt

/-- Adding events and cuts to the parser keeps a session sound. -/
lemma extend (h : Sound d source s) {q : Parser} (hq : q.Consistent d source)
    (hcuts : s.parser.cuts <:+ q.cuts)
    (hevents : ∃ new, q.events.toList = s.parser.events.toList ++ new) :
    Sound d source { s with parser := q } where
  parser := hq
  opened := by
    intro place hplace
    obtain ⟨new, hnew⟩ := hevents
    have hlt := h.place_lt place hplace
    have hvacant := h.opened place hplace
    rw [← Array.getElem?_toList] at hvacant ⊢
    rw [hnew, List.getElem?_append_left (by simpa using hlt)]
    exact hvacant
  saved := fun c hc => (h.saved c hc).extend hcuts hevents
  sorted := h.sorted

/-- Opening a node at the end of the events keeps a session sound. -/
lemma openNode (h : Sound d source s) :
    Sound d source
      { s with parser := s.parser.openNode, opened := s.parser.events.size :: s.opened } := by
  have hext :=
    h.extend h.parser.openNode (List.suffix_refl _) ⟨[.vacant], by simp [Parser.openNode]⟩
  refine { hext with opened := ?_ }
  intro place hplace
  rcases List.mem_cons.1 hplace with rfl | hplace
  · simp [Parser.openNode]
  · exact hext.opened place hplace

/-- Replacing one frame event that is not the place of an open node keeps a session sound. -/
lemma setEvent (h : Sound d source s) {place : Nat} {e new : Event}
    (hplace : s.parser.events[place]? = some e) (he : IsFrame e) (hnew : IsFrame new) :
    Sound d source
      { s with
        parser := { s.parser with events := s.parser.events.setIfInBounds place new }
        opened := s.opened.filter (· ≠ place) } where
  parser := by
    apply h.parser.withEvents
    rw [Array.toList_setIfInBounds]
    exact counts_set (by simpa using hplace) he hnew
  opened := by
    intro other hother
    obtain ⟨hmem, hne⟩ := List.mem_filter.1 hother
    have hne : place ≠ other := fun h => by simp [h] at hne
    simpa [Array.getElem?_setIfInBounds_ne hne] using h.opened other hmem
  saved := fun c hc => (h.saved c hc).set hplace he hnew
  sorted := h.sorted

lemma closeNode (h : Sound d source s) {place : Nat} (kind : NodeKind) (hplace : place ∈ s.opened) :
    Sound d source
      { s with
        parser := s.parser.closeNode place kind
        opened := s.opened.filter (· ≠ place) } := by
  have hvacant := h.opened place hplace
  have hset := h.setEvent hvacant isFrame_vacant (isFrame_opening kind none)
  exact hset.extend (h.parser.closeNode kind hvacant) (List.suffix_refl _)
    ⟨[.closing], by simp [Parser.closeNode]⟩

lemma openAround (h : Sound d source s) (place : Nat) :
    Sound d source
      { s with
        parser := s.parser.openAround place
        opened := s.parser.events.size :: s.opened } := by
  unfold Parser.openAround
  dsimp only
  split
  · rename_i kind outer hplace
    have hset := h.setEvent hplace (isFrame_opening kind outer)
      (isFrame_opening kind (some (s.parser.events.size - place)))
    -- The event at `place` is an opening already, so no open node has its place there.
    have hother : s.opened.filter (· ≠ place) = s.opened := by
      apply List.filter_eq_self.2
      intro other hmem
      have hne : other ≠ place := by
        rintro rfl
        rw [h.opened other hmem] at hplace
        cases hplace
      simpa using hne
    rw [hother] at hset
    simpa [Parser.openNode] using hset.openNode
  · exact h.openNode

lemma dropNode (h : Sound d source s) {place : Nat} (hplace : place ∈ s.opened)
    (hsaved : ∀ c ∈ s.saved, c.events ≤ place) :
    Sound d source
      { s with
        parser := s.parser.dropNode place
        opened := s.opened.filter (· ≠ place) } := by
  have hdrop := h.parser.dropNode (h.opened place hplace)
  unfold Parser.dropNode at hdrop ⊢
  split at hdrop
  · rename_i hlast
    rw [if_pos hlast]
    refine ⟨hdrop, ?_, ?_, h.sorted⟩
    · intro other hother
      obtain ⟨hmem, hne⟩ := List.mem_filter.1 hother
      have hlt := h.place_lt other hmem
      have hne : other ≠ place := by simpa using hne
      rw [Array.getElem?_pop, if_pos (by omega)]
      exact h.opened other hmem
    · intro c hc
      have hkept := h.saved c hc
      have hle := hsaved c hc
      -- The event that is given up stands behind all that the snapshot keeps.
      have htake : s.parser.events.pop.toList.take c.events =
          s.parser.events.toList.take c.events := by
        rw [Array.toList_pop, List.dropLast_eq_take, List.take_take, Array.length_toList,
          Nat.min_eq_left (by omega)]
      refine ⟨?_, htake ▸ hkept.cursor, htake ▸ hkept.faults, hkept.cuts⟩
      rw [Array.size_pop]
      omega
  · rename_i hlast
    rw [if_neg hlast]
    exact { h with opened := fun other hother => h.opened other (List.mem_filter.1 hother).1 }

lemma save (h : Sound d source s) :
    Sound d source { s with saved := s.parser.snapshot :: s.saved } where
  parser := h.parser
  opened := h.opened
  saved := by
    intro c hc
    rcases List.mem_cons.1 hc with rfl | hc
    · exact .snapshot h.parser
    · exact h.saved c hc
  sorted := .cons (fun c hc => ⟨(h.saved c hc).events_le, (h.saved c hc).cuts_le⟩) h.sorted

lemma restore (h : Sound d source s) {newer older : List Snapshot} {c : Snapshot}
    (hsaved : s.saved = newer ++ c :: older) :
    Sound d source
      { parser := s.parser.restore c
        opened := s.opened.filter (· < c.events)
        saved := c :: older } := by
  have hkept := h.saved c (by simp [hsaved])
  have hsorted : (c :: older).Pairwise fun c c' => c'.events ≤ c.events ∧ c'.cuts ≤ c.cuts :=
    (List.pairwise_append.1 (hsaved ▸ h.sorted)).2.1
  refine ⟨hkept.restore h.parser, ?_, ?_, hsorted⟩
  · intro place hplace
    obtain ⟨hmem, hlt⟩ := List.mem_filter.1 hplace
    have hlt : place < c.events := by simpa using hlt
    obtain ⟨old, row, -, -, -, -, heq⟩ := hkept.restore_eq h.parser
    rw [heq]
    have hvacant := h.opened place hmem
    have hle := h.place_lt place hmem
    simpa [hlt, hle] using hvacant
  · intro c' hc'
    rcases List.mem_cons.1 hc' with rfl | hc'
    · exact hkept.of_restore h.parser hkept (le_refl _) (le_refl _)
    · have hle := List.rel_of_pairwise_cons hsorted hc'
      exact hkept.of_restore h.parser (h.saved c' (by simp [hsaved, hc'])) hle.1 hle.2

/-- Each operation keeps a session sound. -/
theorem move {s' : Session} (h : Sound d source s) (hmove : Move s s') : Sound d source s' := by
  cases hmove with
  | take =>
      refine h.extend h.parser.take ?_ ?_
      · unfold Parser.take
        split <;> exact List.suffix_refl _
      · unfold Parser.take
        split
        · exact ⟨[], by simp⟩
        · exact ⟨[.token], by simp⟩
  | report fault =>
      exact h.extend (h.parser.report fault) (List.suffix_refl _)
        ⟨[.fault fault], by simp [Parser.report]⟩
  | cutRange =>
      rcases Parser.cutRange_cases h.parser.aligned with ⟨hcut, -⟩ | ⟨c, row, -, -, hcut⟩
      · exact h.extend h.parser.cutRange (by rw [hcut]) ⟨[], by simp [hcut]⟩
      · exact h.extend h.parser.cutRange (by rw [hcut]; exact List.suffix_cons ..)
          ⟨[], by simp [hcut, Parser.withRow]⟩
  | openNode => exact h.openNode
  | openAround place => exact h.openAround place
  | closeNode place kind hplace => exact h.closeNode kind hplace
  | dropNode place hplace hsaved => exact h.dropNode hplace hsaved
  | save => exact h.save
  | forget =>
      exact { h with
        saved := fun c hc => h.saved c (List.mem_of_mem_tail hc)
        sorted := h.sorted.tail }
  | restore newer c older hsaved => exact h.restore hsaved

lemma moves {s' : Session} (h : Sound d source s) (hmoves : Moves s s') : Sound d source s' := by
  induction hmoves with
  | refl => exact h
  | tail _ hmove ih => exact ih.move hmove

end Sound

lemma Reachable.sound {d : Dialect} {source : Text} {s : Session} (h : Reachable d source s) :
    Sound d source s := by
  have hstart : Sound d source ⟨Parser.ofSource d source, [], []⟩ :=
    ⟨.ofSource d source, by simp, by simp, .nil⟩
  exact hstart.moves h

/-! ## Rules as sequences of operations -/

/-- From every sound session the outcomes of `f` are reached by operations that leave the open nodes
and the snapshots as they were. -/
def Follows (d : Dialect) (source : Text) (f : Parser → Option Rule.Outcome) : Prop :=
  ∀ s o, Sound d source s → f s.parser = some o → Moves s { s with parser := o.parser }

variable {d : Dialect} {source : Text}

lemma Sound.opened_filter {s : Session} (h : Sound d source s) :
    s.opened.filter (· ≠ s.parser.events.size) = s.opened := by
  apply List.filter_eq_self.2
  intro place hplace
  have := h.place_lt place hplace
  simpa using this.ne

/-- A node that is opened at the end of the events can be closed behind what was read meanwhile. -/
lemma Sound.moves_closeNode {s : Session} (h : Sound d source s) {q p : Parser}
    (hopen : Move s ⟨q, s.parser.events.size :: s.opened, s.saved⟩)
    (hbody : Moves ⟨q, s.parser.events.size :: s.opened, s.saved⟩
      ⟨p, s.parser.events.size :: s.opened, s.saved⟩) (kind : NodeKind) :
    Moves s { s with parser := p.closeNode s.parser.events.size kind } := by
  have hclose := Move.closeNode ⟨p, s.parser.events.size :: s.opened, s.saved⟩
    s.parser.events.size kind (List.mem_cons_self ..)
  rw [List.filter_cons_of_neg (by simp), h.opened_filter] at hclose
  exact (hbody.head hopen).tail hclose

lemma Sound.moves_dropNode {s : Session} (h : Sound d source s) {q p : Parser}
    (hopen : Move s ⟨q, s.parser.events.size :: s.opened, s.saved⟩)
    (hbody : Moves ⟨q, s.parser.events.size :: s.opened, s.saved⟩
      ⟨p, s.parser.events.size :: s.opened, s.saved⟩) :
    Moves s { s with parser := p.dropNode s.parser.events.size } := by
  have hdrop := Move.dropNode ⟨p, s.parser.events.size :: s.opened, s.saved⟩
    s.parser.events.size (List.mem_cons_self ..) fun c hc => (h.saved c hc).events_le
  rw [List.filter_cons_of_neg (by simp), h.opened_filter] at hdrop
  exact (hbody.head hopen).tail hdrop

/-- A snapshot can be taken before something is read, and gone back to or forgotten behind it. -/
lemma Sound.moves_attempt {s : Session} (h : Sound d source s) {p : Parser}
    (hbody : Moves { s with saved := s.parser.snapshot :: s.saved }
      ⟨p, s.opened, s.parser.snapshot :: s.saved⟩) :
    Moves s { s with parser := p } ∧ Moves s { s with parser := p.restore s.parser.snapshot } := by
  have hsaved := hbody.head (.save s)
  constructor
  · exact hsaved.tail (.forget _)
  · have hrestore := Move.restore ⟨p, s.opened, s.parser.snapshot :: s.saved⟩ []
      s.parser.snapshot s.saved rfl
    have hopened : s.opened.filter (· < s.parser.snapshot.events) = s.opened := by
      apply List.filter_eq_self.2
      intro place hplace
      exact decide_eq_true (h.place_lt place hplace)
    rw [hopened] at hrestore
    exact (hsaved.tail hrestore).tail (.forget _)

lemma repeatUntil_follows {body : Parser → Option Rule.Outcome} (hbody : Follows d source body)
    (bound : Nat) : Follows d source (Rule.repeatUntil body bound) := by
  induction bound with
  | zero => simp [Follows, Rule.repeatUntil]
  | succ bound ih =>
      intro s o hs ho
      obtain ⟨p, hp, ho⟩ | ⟨p, hp, rfl⟩ := Rule.repeatUntil_eq_some.1 ho
      · have hmoves := hbody s _ hs hp
        exact hmoves.trans (ih _ o (hs.moves hmoves) ho)
      · exact hbody s ⟨false, p⟩ hs hp

lemma wrapWhile_follows {kind : NodeKind} {more : Nat → View → Bool}
    {body : Parser → Option Rule.Outcome} (hbody : Follows d source body)
    (bound layers place : Nat) :
    Follows d source (Rule.wrapWhile kind more body bound layers place) := by
  induction bound generalizing layers place with
  | zero => simp [Follows, Rule.wrapWhile]
  | succ bound ih =>
      intro s o hs ho
      obtain ⟨-, matched, p, hp, ho⟩ | ⟨-, rfl⟩ := Rule.wrapWhile_eq_some.1 ho
      · have hopen := Move.openAround s place
        have hmoves := hs.moves_closeNode hopen (hbody _ _ (hs.move hopen) hp) kind
        exact hmoves.trans (ih _ _ _ o (hs.moves hmoves) ho)
      · exact .refl

/-- Carrying out a rule is a sequence of operations. -/
lemma exec_follows {call : Nonterminal → Parser → Option Rule.Outcome}
    (hcall : ∀ name, Follows d source (call name)) (bound : Nat) (r : Rule) :
    Follows d source (r.exec call bound) := by
  induction r with
  | done matched =>
      intro s o hs ho
      cases ho
      exact .refl
  | look next ih => exact fun s o hs ho => ih s.parser.stream.view s o hs ho
  | take =>
      intro s o hs ho
      cases ho
      exact .single (.take s)
  | report fault =>
      intro s o hs ho
      cases ho
      exact .single (.report s fault)
  | cutRange =>
      intro s o hs ho
      cases ho
      exact .single (.cutRange s)
  | seq first next hfirst hnext =>
      intro s o hs ho
      obtain ⟨matched, p, hp, ho⟩ := Rule.exec_seq_eq_some.1 ho
      have hmoves := hfirst s _ hs hp
      exact hmoves.trans (hnext matched _ o (hs.moves hmoves) ho)
  | many body hbody => exact repeatUntil_follows hbody bound
  | node kind body hbody =>
      intro s o hs ho
      have hopen := Move.openNode s
      obtain ⟨p, hp, rfl⟩ | ⟨p, hp, rfl⟩ := Rule.exec_node_eq_some.1 ho
      · exact hs.moves_closeNode hopen (hbody _ ⟨true, p⟩ (hs.move hopen) hp) kind
      · exact hs.moves_dropNode hopen (hbody _ ⟨false, p⟩ (hs.move hopen) hp)
  | wrap kind first more body hfirst hbody =>
      intro s o hs ho
      obtain ⟨p, hp, rfl⟩ | ⟨p, hp, ho⟩ := Rule.exec_wrap_eq_some.1 ho
      · exact hfirst s ⟨false, p⟩ hs hp
      · have hmoves := hfirst s _ hs hp
        exact hmoves.trans (wrapWhile_follows hbody bound _ _ _ o (hs.moves hmoves) ho)
  | attempt body hbody =>
      intro s o hs ho
      obtain ⟨p, hp, -, rfl⟩ | ⟨matched, p, hp, -, rfl⟩ := Rule.exec_attempt_eq_some.1 ho
      · exact (hs.moves_attempt (hbody _ _ (hs.move (.save s)) hp)).1
      · exact (hs.moves_attempt (hbody _ _ (hs.move (.save s)) hp)).2
  | call name => exact hcall name

lemma run_follows (bound : Nat) (name : Nonterminal) :
    Follows d source (Grammar.run d bound name) := by
  induction bound generalizing name with
  | zero => simp [Follows, Grammar.run]
  | succ bound ih => exact exec_follows ih bound (Grammar.rule d name)

/-- What a rule of the grammar makes of a reachable session is reachable. -/
theorem Reachable.exec {s : Session} (h : Reachable d source s) {bound : Nat} {r : Rule}
    {o : Rule.Outcome} (ho : Grammar.exec d bound r s.parser = some o) :
    Reachable d source { s with parser := o.parser } :=
  h.trans (exec_follows (run_follows bound) bound r s o h.sound ho)

/-- In every reachable session the stream holds the significant tokens of the row, the row is in
order, and the cursor and the counter of faults agree with the events. A cut would insert no white
space and no comments, and what a rule makes of the session is reachable again. -/
theorem representation {s : Session} (h : Reachable d source s) :
    s.parser.stream.tokens.toList = significant s.parser.tokens.toList ∧
      (s.parser.tokens.toList.Pairwise fun a b => a.start < b.start) ∧
      (s.parser.tokens.toList.Pairwise fun a b => a.stop ≤ b.start) ∧
      (∀ t ∈ s.parser.tokens.toList, t.start < t.stop ∧ t.stop ≤ source.length) ∧
      s.parser.stream.cursor = taken s.parser.events.toList ∧
      s.parser.faults = faulty s.parser.events.toList ∧
      (∀ range, s.parser.stream.peek? 0 = some range → range.kind = .unicodeRange →
        ∀ piece ∈ Parser.rangePieces s.parser.dialect range (Parser.gluedTo range.stop
          (s.parser.stream.tokens.toList.drop (s.parser.stream.cursor + 1))),
          piece.isTrivia = false) ∧
      ∀ r bound o, Grammar.exec d bound r s.parser = some o →
        Reachable d source { s with parser := o.parser } := by
  have hp := h.sound.parser
  have hpairs := hp.row.ordered.pairwise
  refine ⟨hp.stream, ?_, hpairs, fun t ht => (hp.row.ordered.mem ht).2, hp.cursor, hp.faults, ?_,
    fun r bound o ho => h.exec ho⟩
  · -- A token that is not empty starts before it ends, and so before the next one.
    refine hpairs.imp_of_mem ?_
    intro a b ha _ hab
    have := hp.row.ordered.mem ha
    omega
  · intro range hpeek hkind
    obtain ⟨before, behind, hrun, hrow, -⟩ := hp.aligned.run hpeek hkind
    refine hrun.pieces_significant _ fun t ht => hp.row.regular t ?_
    rw [hrow]
    exact Parser.mem_run ht

theorem representation_cut :
    ∃ s, Reachable .css (Text.ofString "u+1-a") s ∧ s.parser.cuts.length = 1 ∧
      s.parser.stream.tokens.toList = significant s.parser.tokens.toList := by
  have h : Reachable .css (Text.ofString "u+1-a")
      ⟨(Parser.ofSource .css (Text.ofString "u+1-a")).cutRange, [], []⟩ := .single (.cutRange _)
  exact ⟨_, h, by decide +kernel, (representation h).1⟩

end Session

end StyleSheet
