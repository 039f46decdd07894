import Mathlib
import StyleSheet.Proofs.Kinds
import StyleSheet.Proofs.OneTree
import StyleSheet.Proofs.Outline

/-!
# Error nodes and diagnostics

A fault becomes two things that nothing connects but their order: an empty node in the tree and a
diagnostic in a list. The parts that a builder has placed, read as one row, are a tree whose nodes
have only partly been put together; opening and closing nodes changes neither the order of the error
nodes in it nor their offsets. So after every step the error nodes and the diagnostics correspond
one to one (`Marked`).

The range of a diagnostic is that of the next significant token. Where all tokens have their texts,
an offset in the tree is an offset in the source, and the error node stands where that token starts.
-/

namespace StyleSheet

open Token

namespace Token

/-! ## Where the next token starts -/

variable {lo hi : Nat} {l : List Token}

lemma Ordered.from_startOf (h : Ordered lo l hi) : Ordered (startOf hi l) l hi := by
  cases l with
  | nil => exact le_refl hi
  | cons t rest => exact ⟨le_refl _, h.2⟩

/-- The last tokens of a row start no earlier than the row. -/
lemma Ordered.startOf_le {a : List Token} (h : Ordered lo (a ++ l) hi) :
    startOf hi (a ++ l) ≤ startOf hi l := by
  obtain ⟨mid, hfront, hback⟩ := ordered_append.1 h
  cases a with
  | nil => exact le_refl _
  | cons t rest =>
      have hmem := hfront.mem (t := t) (List.mem_cons_self ..)
      have hmid := hback.le_startOf
      show t.start ≤ startOf hi l
      omega

end Token

namespace Tree

/-! ## The places of a row of trees -/

/-- The nodes of a row of trees in preorder, without the nodes around them. -/
def placesOf (start : Nat) (cs : List Tree) : List Place := (sitesOf [] start cs).map Site.here

/-- The error nodes of a row of trees in preorder. -/
def errorsOf (start : Nat) (cs : List Tree) : List Place :=
  (placesOf start cs).filter fun p => p.kind == .error

mutual

lemma length_eq : ∀ t : Tree, t.length = (t.leaves.flatMap Leaf.text).length
  | .leaf _ _ => by simp [Tree.length, Tree.leaves]
  | .node _ cs => by rw [Tree.length, Tree.leaves, lengthOf_eq cs]

/-- The length of a row is that of the texts of its leaves. -/
lemma lengthOf_eq : ∀ cs : List Tree, lengthOf cs = ((leavesOf cs).flatMap Leaf.text).length
  | [] => rfl
  | c :: cs => by
      rw [lengthOf, leavesOf, List.flatMap_append, List.length_append, length_eq c, lengthOf_eq cs]

end

lemma sitesOf_append (above : List Place) (start : Nat) (cs ds : List Tree) :
    sitesOf above start (cs ++ ds) =
      sitesOf above start cs ++ sitesOf above (start + lengthOf cs) ds := by
  induction cs generalizing start with
  | nil => rfl
  | cons c cs ih =>
      rw [List.cons_append, sitesOf, sitesOf, ih, lengthOf, List.append_assoc, Nat.add_assoc]

mutual

lemma map_here_sites (above above' : List Place) (start : Nat) :
    ∀ t : Tree, (sites above start t).map Site.here = (sites above' start t).map Site.here
  | .leaf _ _ => rfl
  | .node k cs => by
      rw [sites, sites, List.map_cons, List.map_cons, map_here_sitesOf _ (⟨k, cs, start⟩ :: above')]

/-- The places of nodes do not depend on what is around them. -/
lemma map_here_sitesOf (above above' : List Place) (start : Nat) :
    ∀ cs : List Tree,
      (sitesOf above start cs).map Site.here = (sitesOf above' start cs).map Site.here
  | [] => rfl
  | c :: cs => by
      rw [sitesOf, sitesOf, List.map_append, List.map_append, map_here_sites above above',
        map_here_sitesOf above above']

end

lemma errorsOf_append (start : Nat) (cs ds : List Tree) :
    errorsOf start (cs ++ ds) = errorsOf start cs ++ errorsOf (start + lengthOf cs) ds := by
  rw [errorsOf, placesOf, sitesOf_append, List.map_append, List.filter_append]
  rfl

lemma errorsOf_leaves (start : Nat) (l : List Token) :
    errorsOf start (l.map fun t => .leaf t.kind t.text) = [] := by
  induction l generalizing start with
  | nil => rfl
  | cons t l ih => exact ih _

/-- Putting a node around a row keeps the error nodes, unless it is one itself. -/
lemma errorsOf_node {kind : NodeKind} (h : kind ≠ .error) (start : Nat) (cs : List Tree) :
    errorsOf start [.node kind cs] = errorsOf start cs := by
  rw [errorsOf, placesOf, sitesOf, sitesOf, List.append_nil, sites, List.map_cons,
    map_here_sitesOf _ [], List.filter_cons_of_neg (by simpa using h)]
  rfl

end Tree

namespace Tree.Builder

/-! ## What has been placed, as one row -/

/-- The parts that have been placed, as one row: the nodes that are still open are left out. -/
def row (b : Builder) : List Tree :=
  b.roots.reverse ++ b.frames.reverse.flatMap fun f => f.parts.reverse

/-- The kinds of the open nodes, the innermost one first. -/
def openKinds (b : Builder) : List NodeKind := b.frames.map Frame.kind

lemma row_add (b : Builder) (part : Tree) : (b.add part).row = b.row ++ [part] := by
  rw [add]
  split
  · rename_i hframes
    simp [row, hframes]
  · rename_i f rest hframes
    simp [row, hframes]

@[simp] lemma openKinds_add (b : Builder) (part : Tree) : (b.add part).openKinds = b.openKinds := by
  rw [add]
  split
  · rfl
  · rename_i f rest hframes
    simp [openKinds, hframes]

@[simp] lemma diagnostics_add (b : Builder) (part : Tree) :
    (b.add part).diagnostics = b.diagnostics := by
  rw [add]
  split <;> rfl

lemma row_addTokens (b : Builder) (l : List Token) :
    (b.addTokens l).row = b.row ++ l.map fun t => .leaf t.kind t.text := by
  induction l generalizing b with
  | nil => exact (List.append_nil _).symm
  | cons t l ih =>
      have hrest := ih (b.add (.leaf t.kind t.text))
      rw [row_add, List.append_assoc] at hrest
      exact hrest

@[simp] lemma openKinds_addTokens (b : Builder) (l : List Token) :
    (b.addTokens l).openKinds = b.openKinds := by
  induction l generalizing b with
  | nil => rfl
  | cons t l ih => exact (ih _).trans (openKinds_add b _)

@[simp] lemma diagnostics_addTokens (b : Builder) (l : List Token) :
    (b.addTokens l).diagnostics = b.diagnostics := by
  induction l generalizing b with
  | nil => rfl
  | cons t l ih => exact (ih _).trans (diagnostics_add b _)

/-- Closing the innermost node puts it around the last parts of the row. -/
lemma row_pop {b : Builder} {f : Frame} {rest : List Frame} (h : b.frames = f :: rest) :
    ∃ before, b.row = before ++ f.parts.reverse ∧
      (({ b with frames := rest } : Builder).add (.node f.kind f.parts.reverse)).row =
        before ++ [.node f.kind f.parts.reverse] := by
  refine ⟨row { b with frames := rest }, ?_, row_add _ _⟩
  simp [row, h]

lemma placed_eq (b : Builder) : b.placed = leavesOf b.row := by
  have hframes : ∀ frames : List Frame, (frames.flatMap fun f => leavesOf f.parts.reverse) =
      leavesOf (frames.flatMap fun f => f.parts.reverse) := by
    intro frames
    induction frames with
    | nil => rfl
    | cons f frames ih => rw [List.flatMap_cons, List.flatMap_cons, leavesOf_append, ih]
  rw [placed, row, leavesOf_append, hframes]

@[simp] lemma start_diagnosticBefore (length : Nat) (f : Fault) (l : List Token) :
    (diagnosticBefore length f l).start = startOf length l := by
  cases l with
  | nil => rfl
  | cons t rest => rfl

/-! ## The correspondence -/

/-- The range of a diagnostic is that of a significant token, or it is empty and at the end. -/
def InRange (length : Nat) (tokens : List Token) (m : Diagnostic) : Prop :=
  (∃ t ∈ significant tokens, m.start = t.start ∧ m.stop = t.stop) ∨
    m.start = length ∧ m.stop = length

/-- What holds of a builder on the way through the tokens of a source of `length` bytes. -/
structure Marked (length : Nat) (tokens : List Token) (b : Builder) : Prop where
  /-- No open node is an error node. -/
  kinds : .error ∉ b.openKinds
  /-- The tokens that have no place yet are the last ones. -/
  pending : b.pending <:+ tokens
  /-- The tokens before them have been placed. -/
  leaves : b.leaves = tokens.map Token.leaf
  /-- The error nodes are empty, and each of them has a diagnostic. If the texts of the tokens fill
  the source, the error node stands where the range of the diagnostic starts. -/
  marks : List.Forall₂
    (fun p m => p.children = [] ∧ ((texts tokens).length = length → p.start = m.start))
    (errorsOf 0 b.row) b.diagnostics.reverse
  /-- The ranges of the diagnostics start in order. -/
  sorted : b.diagnostics.Pairwise fun m m' => m'.start ≤ m.start
  /-- None of them starts behind the next token. -/
  before : ∀ m ∈ b.diagnostics, m.start ≤ startOf length b.pending
  /-- They are where they should be. -/
  ranges : ∀ m ∈ b.diagnostics, InRange length tokens m

namespace Marked

variable {length : Nat} {tokens : List Token} {b : Builder}

lemma ofTokens (length : Nat) (tokens : List Token) : Marked length tokens (ofTokens tokens) where
  kinds := List.not_mem_nil
  pending := List.suffix_refl _
  leaves := rfl
  marks := .nil
  sorted := .nil
  before := List.forall_mem_nil _
  ranges := List.forall_mem_nil _

/-- If the texts of the tokens fill the source, what has been placed reaches to the next token. -/
lemma lengthOf_row (h : Marked length tokens b) (hrow : Row length tokens)
    (hfill : (texts tokens).length = length) : lengthOf b.row = startOf length b.pending := by
  obtain ⟨done, hdone⟩ := h.pending
  have hplaced : leavesOf b.row = done.map Token.leaf := by
    have hleaves := h.leaves
    rw [← hdone, List.map_append, Builder.leaves, placed_eq] at hleaves
    exact List.append_cancel_right hleaves
  have hlength : lengthOf b.row = (texts done).length := by
    rw [lengthOf_eq, hplaced, texts_eq_flatMap]
  rw [← hdone] at hrow hfill
  obtain ⟨mid, hfront, hback⟩ := ordered_append.1 hrow.ordered
  -- Neither part has more text than there is room for, and together they have all of it.
  have hle := (hfront.upper hback.le_startOf).length_texts_le fun t ht =>
    hrow.regular t (List.mem_append_left _ ht)
  have hle' := hback.from_startOf.length_texts_le fun t ht =>
    hrow.regular t (List.mem_append_right _ ht)
  rw [texts_append, List.length_append] at hfill
  omega

/-- Tokens get their places. -/
lemma shift (h : Marked length tokens b) (hrow : Row length tokens) {l rest : List Token}
    (hpending : b.pending = l ++ rest) :
    Marked length tokens (({ b with pending := rest } : Builder).addTokens l) := by
  obtain ⟨done, hdone⟩ := h.pending
  have hordered := hrow.ordered
  rw [← hdone] at hordered
  obtain ⟨mid, -, hback⟩ := ordered_append.1 hordered
  rw [hpending] at hback
  constructor
  · rw [openKinds_addTokens]
    exact h.kinds
  · rw [pending_addTokens]
    exact ⟨done ++ l, by rw [List.append_assoc, ← hpending, hdone]⟩
  · rw [Builder.leaves, placed_addTokens, pending_addTokens, List.append_assoc, ← List.map_append,
      ← hpending]
    exact h.leaves
  · rw [row_addTokens, errorsOf_append, errorsOf_leaves, List.append_nil, diagnostics_addTokens]
    exact h.marks
  · rw [diagnostics_addTokens]
    exact h.sorted
  · rw [diagnostics_addTokens, pending_addTokens]
    intro m hm
    have hle := h.before m hm
    rw [hpending] at hle
    exact hle.trans hback.startOf_le
  · rw [diagnostics_addTokens]
    exact h.ranges

lemma addTrivia (h : Marked length tokens b) (hrow : Row length tokens) :
    Marked length tokens b.addTrivia :=
  h.shift hrow (List.prefix_append_drop (List.takeWhile_prefix _))

lemma addRest (h : Marked length tokens b) (hrow : Row length tokens) :
    Marked length tokens b.addRest :=
  h.shift hrow (List.append_nil _).symm

lemma token (h : Marked length tokens b) (hrow : Row length tokens) :
    Marked length tokens b.token := by
  have htrivia := h.addTrivia hrow
  rw [Builder.token]
  split
  · exact htrivia
  · rename_i t rest hpending
    exact htrivia.shift hrow (l := [t]) hpending

lemma openNode (h : Marked length tokens b) (hrow : Row length tokens) {kind : NodeKind}
    (hkind : kind ≠ .error) : Marked length tokens (b.openNode kind) := by
  have hpush : ∀ b : Builder, Marked length tokens b →
      Marked length tokens { b with frames := ⟨kind, []⟩ :: b.frames } := by
    intro b h
    have hrowEq : Builder.row { b with frames := ⟨kind, []⟩ :: b.frames } = b.row := by
      simp [Builder.row]
    refine { h with kinds := ?_, leaves := ?_, marks := ?_ }
    · exact List.not_mem_cons_of_ne_of_not_mem hkind.symm h.kinds
    · rw [← h.leaves, Builder.leaves, Builder.leaves, placed_eq, placed_eq, hrowEq]
    · rw [hrowEq]
      exact h.marks
  rw [Builder.openNode]
  refine hpush _ ?_
  split
  · exact h
  · exact h.addTrivia hrow

lemma report (h : Marked length tokens b) (hrow : Row length tokens) (f : Fault) :
    Marked length tokens (b.report length f) := by
  have htrivia := h.addTrivia hrow
  have hlength := htrivia.lengthOf_row hrow
  have hrange : InRange length tokens (diagnosticBefore length f b.addTrivia.pending) := by
    rcases hpending : b.addTrivia.pending with _ | ⟨t, rest⟩
    · exact .inr ⟨rfl, rfl⟩
    · have hmem := htrivia.pending.subset (hpending ▸ List.mem_cons_self (l := rest))
      refine .inl ⟨t, List.mem_filter.2 ⟨hmem, ?_⟩, rfl, rfl⟩
      simp [isTrivia_next hpending]
  rw [report_eq]
  constructor
  · rw [openKinds_add]
    exact htrivia.kinds
  · rw [pending_add]
    exact htrivia.pending
  · rw [← htrivia.leaves, Builder.leaves, placed_add, pending_add, Tree.leaves, leavesOf,
      List.append_nil]
    rfl
  · rw [row_add, errorsOf_append, diagnostics_add, List.reverse_cons]
    refine List.rel_append htrivia.marks (.cons ⟨rfl, fun hfill => ?_⟩ .nil)
    rw [start_diagnosticBefore, Nat.zero_add]
    exact hlength hfill
  · rw [diagnostics_add]
    refine .cons (fun m hm => ?_) htrivia.sorted
    rw [start_diagnosticBefore]
    exact htrivia.before m hm
  · rw [diagnostics_add, pending_add]
    refine List.forall_mem_cons.2 ⟨?_, htrivia.before⟩
    rw [start_diagnosticBefore]
  · rw [diagnostics_add]
    exact List.forall_mem_cons.2 ⟨hrange, htrivia.ranges⟩

lemma closeNode (h : Marked length tokens b) (hrow : Row length tokens) :
    Marked length tokens b.closeNode := by
  have hrest : Marked length tokens (if b.frames.length = 1 then b.addRest else b) := by
    split
    · exact h.addRest hrow
    · exact h
  have hpop : ∀ b : Builder, Marked length tokens b → ∀ f rest, b.frames = f :: rest →
      Marked length tokens
        (({ b with frames := rest } : Builder).add (.node f.kind f.parts.reverse)) := by
    intro b h f rest hframes
    obtain ⟨before, hbefore, hafter⟩ := row_pop hframes
    have hkinds := h.kinds
    rw [openKinds, hframes, List.map_cons, List.mem_cons, not_or] at hkinds
    constructor
    · rw [openKinds_add]
      exact hkinds.2
    · rw [pending_add]
      exact h.pending
    · rw [← h.leaves, Builder.leaves, placed_pop hframes, pending_add, Builder.leaves]
    · rw [hafter, errorsOf_append, errorsOf_node (Ne.symm hkinds.1), ← errorsOf_append, ← hbefore,
        diagnostics_add]
      exact h.marks
    · rw [diagnostics_add]
      exact h.sorted
    · rw [diagnostics_add, pending_add]
      exact h.before
    · rw [diagnostics_add]
      exact h.ranges
  rw [Builder.closeNode]
  split
  · exact hrest
  · rename_i f rest hframes
    exact hpop _ hrest f rest hframes

lemma step (h : Marked length tokens b) (hrow : Row length tokens) {s : Step}
    (hs : s ≠ .opening .error) : Marked length tokens (b.step length s) := by
  cases s with
  | opening kind => exact h.openNode hrow fun hkind => hs (congrArg Step.opening hkind)
  | token => exact h.token hrow
  | closing => exact h.closeNode hrow
  | fault f => exact h.report hrow f

/-- Steps that open no error node keep the error nodes and the diagnostics together. -/
theorem run (h : Marked length tokens b) (hrow : Row length tokens) {steps : List Step}
    (hsteps : .opening .error ∉ steps) :
    Marked length tokens (steps.foldl (Builder.step length) b) := by
  induction steps generalizing b with
  | nil => exact h
  | cons s steps ih =>
      rw [List.mem_cons, not_or] at hsteps
      obtain ⟨hs, hrest⟩ := hsteps
      exact ih (h.step hrow (Ne.symm hs)) hrest

end Marked

end Tree.Builder

/-! ## Sources -/

namespace Event

lemma opening_of_mem_chain {events : Array Event} {kind : NodeKind} {fuel i : Nat}
    (h : kind ∈ chain events fuel i) : ∃ outer, .opening kind outer ∈ events.toList := by
  induction fuel generalizing i with
  | zero => cases h
  | succ fuel ih =>
      rw [chain] at h
      split at h
      · rename_i kind' outer hi
        rcases List.mem_cons.1 h with rfl | h
        · exact ⟨outer, List.mem_of_getElem? (by simpa using hi)⟩
        · split at h
          · exact ih h
          · cases h
      · cases h

/-- The steps open only nodes that the events open. -/
lemma opening_of_mem_steps {events : Array Event} {kind : NodeKind}
    (h : .opening kind ∈ steps events) : ∃ outer, .opening kind outer ∈ events.toList := by
  rw [steps] at h
  obtain ⟨⟨e, i⟩, -, hstep⟩ := List.mem_flatMap.1 h
  cases e with
  | opening kind' outer =>
      simp only [stepsAt] at hstep
      split at hstep
      · cases hstep
      · obtain ⟨kind'', hmem, heq⟩ := List.mem_map.1 hstep
        cases heq
        exact opening_of_mem_chain (List.mem_reverse.1 hmem)
  | _ => simp [stepsAt] at hstep

end Event

section

variable (d : Dialect) (entry : Entry) (source : Text)

/-- Reading a source opens no error node. -/
lemma Entry.opens_readSource : (readSource d entry source).Opens (· ≠ .error) := by
  obtain ⟨o, ho, hread⟩ := exists_outcome d entry source
  have hrule : entry.rule.Uses (· ≠ .error) fun _ => True := by
    cases entry <;> simp [Entry.rule]
  rw [hread]
  refine Parser.exec_opens (fun name p o _ hp ho => ?_) hrule ?_ (ho _ (le_refl _))
  · exact Parser.run_opens (fun name _ => Grammar.uses_rule d name) trivial hp ho
  · intro kind outer hmem
    cases hmem

/-- The steps of a source open no error node. -/
lemma not_opening_error : .opening .error ∉ Event.steps (readSource d entry source).events := by
  intro hmem
  obtain ⟨outer, hopening⟩ := Event.opening_of_mem_steps hmem
  exact Entry.opens_readSource d entry source .error outer hopening rfl

/-- The error nodes and the diagnostics of a source correspond. -/
lemma marked_built :
    (built d entry source).Marked source.length (readSource d entry source).tokens.toList :=
  (Tree.Builder.Marked.ofTokens _ _).run (Entry.consistent_readSource d entry source).row
    (not_opening_error d entry source)

end

end StyleSheet
