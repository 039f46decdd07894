import Mathlib
import StyleSheet.Parse
import StyleSheet.Proofs.Growth
import StyleSheet.Proofs.Nesting

/-!
# Building keeps the tokens

A builder has placed some tokens as leaves, and others are pending. No step loses a token, doubles
one or changes their order: what is placed and what is pending together stay the same
(`leaves_run`).

Steps inside of a node that never close it leave what is around it alone and take as many
significant tokens as they say (`run_inside`). So the steps of a whole source build one root, and
all of its tokens are the leaves of that root (`run_node`).
-/

namespace StyleSheet

/-- The leaf that stands for a token in a tree. -/
def Token.leaf (t : Token) : Leaf := ⟨t.kind, t.text⟩

open Token

/-! ## Tokens among the steps -/

namespace Event

lemma count_stepsAt (events : Array Event) (named : List Nat) (i : Nat) (e : Event) :
    (stepsAt events named i e).count .token = if e.isToken then 1 else 0 := by
  cases e with
  | opening kind outer =>
      rw [stepsAt]
      split
      · rfl
      · refine List.count_eq_zero.2 ?_
        simp
  | _ => rfl

lemma count_stepsFrom (whole : Array Event) (named : List Nat) (i : Nat) (A : List Event) :
    (stepsFrom whole named i A).count .token = taken A := by
  induction A generalizing i with
  | nil => rfl
  | cons e A ih =>
      rw [stepsFrom_cons, List.count_append, ih, count_stepsAt, taken, taken, List.countP_cons,
        Nat.add_comm]

/-- The steps take the tokens that the events take. -/
lemma count_steps (events : Array Event) : (steps events).count .token = taken events.toList :=
  count_stepsFrom events (outerOpenings events.toList) 0 events.toList

end Event

namespace Tree

lemma leavesOf_append (cs ds : List Tree) : leavesOf (cs ++ ds) = leavesOf cs ++ leavesOf ds := by
  induction cs with
  | nil => rfl
  | cons c cs ih => rw [List.cons_append, leavesOf, leavesOf, ih, List.append_assoc]

lemma leavesOf_singleton (t : Tree) : leavesOf [t] = t.leaves := by
  rw [leavesOf, leavesOf, List.append_nil]

namespace Builder

/-- The leaves that have been placed, in order. -/
def placed (b : Builder) : List Leaf :=
  leavesOf b.roots.reverse ++ b.frames.reverse.flatMap fun f => leavesOf f.parts.reverse

/-- All leaves: those that have been placed, and those of the tokens that are pending. -/
def leaves (b : Builder) : List Leaf := b.placed ++ b.pending.map Token.leaf

/-- Nothing has happened outside of the nodes that are open in `b`, and they are still open. -/
structure Within (b b' : Builder) : Prop where
  depth : b'.frames.length = b.frames.length
  roots : b'.roots = b.roots

lemma Within.trans {b b' b'' : Builder} (h : Within b b') (h' : Within b' b'') : Within b b'' :=
  ⟨h'.depth.trans h.depth, h'.roots.trans h.roots⟩

/-! ## Adding parts -/

lemma add_of_nil {b : Builder} (h : b.frames = []) (part : Tree) :
    b.add part = { b with roots := part :: b.roots } := by
  rw [add, h]

lemma add_of_cons {b : Builder} {f : Frame} {rest : List Frame} (h : b.frames = f :: rest)
    (part : Tree) :
    b.add part = { b with frames := { f with parts := part :: f.parts } :: rest } := by
  rw [add, h]

@[simp] lemma pending_add (b : Builder) (part : Tree) : (b.add part).pending = b.pending := by
  rw [add]
  split <;> rfl

lemma placed_add (b : Builder) (part : Tree) : (b.add part).placed = b.placed ++ part.leaves := by
  rw [add]
  split
  · rename_i hframes
    simp [placed, hframes, leavesOf_append, leavesOf_singleton]
  · rename_i f rest hframes
    simp [placed, hframes, leavesOf_append, leavesOf_singleton]

lemma within_add {b : Builder} (hb : 0 < b.frames.length) (part : Tree) :
    Within b (b.add part) := by
  rw [add]
  split
  · rename_i hframes
    rw [hframes] at hb
    exact absurd hb (Nat.lt_irrefl 0)
  · rename_i f rest hframes
    exact ⟨by simp [hframes], rfl⟩

@[simp] lemma pending_addTokens (b : Builder) (l : List Token) :
    (b.addTokens l).pending = b.pending := by
  induction l generalizing b with
  | nil => rfl
  | cons t l ih => exact (ih _).trans (pending_add b _)

lemma placed_addTokens (b : Builder) (l : List Token) :
    (b.addTokens l).placed = b.placed ++ l.map Token.leaf := by
  induction l generalizing b with
  | nil => simp [addTokens]
  | cons t l ih =>
      have hfirst : (b.add (.leaf t.kind t.text)).placed = b.placed ++ [t.leaf] := placed_add b _
      have hrest := ih (b.add (.leaf t.kind t.text))
      rw [hfirst, List.append_assoc] at hrest
      exact hrest

lemma within_addTokens {b : Builder} (hb : 0 < b.frames.length) (l : List Token) :
    Within b (b.addTokens l) := by
  induction l generalizing b with
  | nil => exact ⟨rfl, rfl⟩
  | cons t l ih =>
      have hfirst := within_add hb (.leaf t.kind t.text)
      exact hfirst.trans (ih (by rw [hfirst.depth]; exact hb))

lemma pending_addTrivia (b : Builder) :
    b.addTrivia.pending = b.pending.dropWhile Token.isTrivia := by
  rw [addTrivia, pending_addTokens]
  have hsplit := List.prefix_append_drop (List.takeWhile_prefix (l := b.pending) Token.isTrivia)
  exact List.append_cancel_left (hsplit.symm.trans List.takeWhile_append_dropWhile.symm)

lemma leaves_addTrivia (b : Builder) : b.addTrivia.leaves = b.leaves := by
  rw [leaves, pending_addTrivia, addTrivia, placed_addTokens, leaves, List.append_assoc,
    ← List.map_append, List.takeWhile_append_dropWhile]
  rfl

lemma within_addTrivia {b : Builder} (hb : 0 < b.frames.length) : Within b b.addTrivia :=
  have h := within_addTokens (b := { b with pending := b.pending.drop _ }) hb _
  ⟨h.depth, h.roots⟩

lemma significant_addTrivia (b : Builder) :
    significant b.addTrivia.pending = significant b.pending := by
  rw [pending_addTrivia, significant_dropWhile]

/-- What comes behind white space and comments is significant. -/
lemma isTrivia_next {b : Builder} {t : Token} {rest : List Token}
    (h : b.addTrivia.pending = t :: rest) : t.isTrivia = false := by
  have hnot := List.head?_dropWhile_not Token.isTrivia b.pending
  rw [← pending_addTrivia, h] at hnot
  exact hnot

/-! ## Opening a node -/

lemma leaves_openNode (b : Builder) (kind : NodeKind) : (b.openNode kind).leaves = b.leaves := by
  have hopen : ∀ b : Builder, leaves { b with frames := ⟨kind, []⟩ :: b.frames } = b.leaves := by
    intro b
    simp [leaves, placed, leavesOf]
  rw [openNode]
  refine (hopen _).trans ?_
  split
  · rfl
  · exact leaves_addTrivia b

lemma significant_openNode (b : Builder) (kind : NodeKind) :
    significant (b.openNode kind).pending = significant b.pending := by
  rw [openNode]
  split
  · rfl
  · exact significant_addTrivia b

lemma depth_openNode (b : Builder) (kind : NodeKind) :
    (b.openNode kind).frames.length = b.frames.length + 1 ∧ (b.openNode kind).roots = b.roots := by
  rw [openNode]
  split
  · exact ⟨rfl, rfl⟩
  · rename_i hframes
    have hb : 0 < b.frames.length := by
      rw [List.length_pos_iff]
      simpa using hframes
    have h := within_addTrivia hb
    exact ⟨congrArg (· + 1) h.depth, h.roots⟩

/-! ## Taking a token -/

lemma leaves_token (b : Builder) : b.token.leaves = b.leaves := by
  rw [token, ← leaves_addTrivia b]
  generalize b.addTrivia = b
  split
  · rfl
  · rename_i t rest hpending
    rw [leaves, placed_add, pending_add, leaves, hpending, List.append_assoc]
    rfl

lemma significant_token (b : Builder) :
    significant b.token.pending = (significant b.pending).drop 1 := by
  rw [token, ← significant_addTrivia b]
  split
  · rename_i hpending
    rw [hpending]
    rfl
  · rename_i t rest hpending
    rw [pending_add, hpending, significant_cons (isTrivia_next hpending)]
    rfl

lemma within_token {b : Builder} (hb : 0 < b.frames.length) : Within b b.token := by
  have htrivia := within_addTrivia hb
  rw [token]
  split
  · exact htrivia
  · rename_i t rest hpending
    have hadd := within_add (b := { b.addTrivia with pending := rest })
      (by rw [← htrivia.depth] at hb; exact hb) (.leaf t.kind t.text)
    exact htrivia.trans ⟨hadd.depth, hadd.roots⟩

/-! ## Recording a fault -/

/-- What is said about a fault that is found before the given tokens. -/
def diagnosticBefore (length : Nat) (f : Fault) : List Token → Diagnostic
  | [] => ⟨f, length, length⟩
  | t :: _ => ⟨f, t.start, t.stop⟩

@[simp] lemma fault_diagnosticBefore (length : Nat) (f : Fault) (l : List Token) :
    (diagnosticBefore length f l).fault = f := by
  cases l with
  | nil => rfl
  | cons t rest => rfl

lemma report_eq (b : Builder) (length : Nat) (f : Fault) :
    b.report length f =
      { b.addTrivia with
        diagnostics := diagnosticBefore length f b.addTrivia.pending ::
          b.addTrivia.diagnostics }.add (.node .error []) := by
  rw [report]
  obtain ⟨frames, pending, roots, diagnostics⟩ := b.addTrivia
  cases pending with
  | nil => rfl
  | cons t rest => rfl

lemma leaves_report (b : Builder) (length : Nat) (f : Fault) :
    (b.report length f).leaves = b.leaves := by
  rw [report, leaves, placed_add, pending_add, ← leaves_addTrivia b, leaves, Tree.leaves,
    leavesOf, List.append_nil]
  rfl

lemma significant_report (b : Builder) (length : Nat) (f : Fault) :
    significant (b.report length f).pending = significant b.pending := by
  rw [report, pending_add]
  exact significant_addTrivia b

lemma within_report {b : Builder} (hb : 0 < b.frames.length) (length : Nat) (f : Fault) :
    Within b (b.report length f) := by
  have htrivia := within_addTrivia hb
  have hb' : 0 < b.addTrivia.frames.length := by rw [htrivia.depth]; exact hb
  have hadd :=
    fun ds => within_add (b := { b.addTrivia with diagnostics := ds }) hb' (.node .error [])
  exact htrivia.trans ⟨(hadd _).depth, (hadd _).roots⟩

/-! ## Closing a node -/

lemma leaves_addRest (b : Builder) : b.addRest.leaves = b.leaves := by
  rw [addRest, leaves, placed_addTokens, pending_addTokens, leaves, List.map_nil, List.append_nil]
  rfl

/-- The innermost open node becomes a part of the next one. -/
lemma placed_pop {b : Builder} {f : Frame} {rest : List Frame} (h : b.frames = f :: rest) :
    (({ b with frames := rest } : Builder).add (.node f.kind f.parts.reverse)).placed =
      b.placed := by
  rw [placed_add, Tree.leaves]
  simp [placed, h]

lemma leaves_closeNode (b : Builder) : b.closeNode.leaves = b.leaves := by
  have hrest : (if b.frames.length = 1 then b.addRest else b).leaves = b.leaves := by
    split
    · exact leaves_addRest b
    · rfl
  rw [closeNode, ← hrest]
  generalize (if b.frames.length = 1 then b.addRest else b) = b
  split
  · rfl
  · rename_i f rest hframes
    rw [leaves, placed_pop hframes, pending_add, leaves]

/-- Closing a node inside of another one. -/
lemma closeNode_inner {b : Builder} (hb : 1 < b.frames.length) :
    b.closeNode.frames.length + 1 = b.frames.length ∧ b.closeNode.roots = b.roots ∧
      b.closeNode.pending = b.pending := by
  rw [closeNode, if_neg (by omega)]
  split
  · rename_i hframes
    rw [hframes] at hb
    cases hb
  · rename_i f rest hframes
    rw [hframes, List.length_cons] at hb
    have hadd := within_add (b := { b with frames := rest }) (by simp only; omega)
      (.node f.kind f.parts.reverse)
    refine ⟨?_, hadd.roots, pending_add _ _⟩
    rw [hadd.depth, hframes, List.length_cons]

/-- Closing the outermost node places all tokens. -/
lemma closeNode_outermost {b : Builder} (hb : b.frames.length = 1) :
    b.closeNode.frames = [] ∧ b.closeNode.pending = [] ∧
      ∃ f, b.addRest.frames = [f] ∧
      b.closeNode.roots = .node f.kind f.parts.reverse :: b.roots := by
  have hrest := within_addTokens (b := { b with pending := [] }) (by simp only; omega) b.pending
  obtain ⟨f, hf⟩ : ∃ f, b.addRest.frames = [f] := List.length_eq_one_iff.1 (hrest.depth.trans hb)
  have hpending : b.addRest.pending = [] := pending_addTokens _ _
  have hroots : b.addRest.roots = b.roots := hrest.roots
  rw [closeNode, if_pos hb, hf]
  refine ⟨rfl, hpending, f, rfl, ?_⟩
  rw [← hroots]
  rfl

/-! ## Carrying out steps -/

lemma leaves_step (length : Nat) (b : Builder) (s : Step) :
    (b.step length s).leaves = b.leaves := by
  cases s with
  | opening kind => exact leaves_openNode b kind
  | token => exact leaves_token b
  | closing => exact leaves_closeNode b
  | fault f => exact leaves_report b length f

/-- Steps keep all tokens in their order, whether the steps are balanced or not. -/
theorem leaves_run (length : Nat) (b : Builder) (steps : List Step) :
    (steps.foldl (step length) b).leaves = b.leaves := by
  induction steps generalizing b with
  | nil => rfl
  | cons s steps ih => exact (ih _).trans (leaves_step length b s)

/-- One step inside of a node that the step does not close. -/
lemma step_inside (length : Nat) {b : Builder} {s : Step} (hb : 0 < b.frames.length)
    (hclosing : s.isClosing = true → 1 < b.frames.length) :
    (b.step length s).frames.length + [s].countP Step.isClosing =
        b.frames.length + [s].countP Step.isOpening ∧
      (b.step length s).roots = b.roots ∧
      significant (b.step length s).pending = (significant b.pending).drop ([s].count .token) := by
  cases s with
  | opening kind =>
      obtain ⟨hdepth, hroots⟩ := depth_openNode b kind
      exact ⟨hdepth, hroots, significant_openNode b kind⟩
  | token =>
      have hwithin := within_token hb
      exact ⟨hwithin.depth, hwithin.roots, significant_token b⟩
  | closing =>
      obtain ⟨hdepth, hroots, hpending⟩ := closeNode_inner (hclosing rfl)
      exact ⟨hdepth, hroots, congrArg significant hpending⟩
  | fault f =>
      have hwithin := within_report hb length f
      exact ⟨hwithin.depth, hwithin.roots, significant_report b length f⟩

/-- Steps that never close all open nodes leave what is outside of them alone, and take the tokens
that they say. -/
theorem run_inside (length : Nat) (b : Builder) {steps : List Step}
    (h : ∀ front rest, steps = front ++ rest →
      front.countP Step.isClosing < b.frames.length + front.countP Step.isOpening) :
    (steps.foldl (step length) b).frames.length + steps.countP Step.isClosing =
        b.frames.length + steps.countP Step.isOpening ∧
      (steps.foldl (step length) b).roots = b.roots ∧
      significant (steps.foldl (step length) b).pending =
        (significant b.pending).drop (steps.count .token) := by
  induction steps using List.reverseRecOn with
  | nil => exact ⟨rfl, rfl, rfl⟩
  | append_singleton steps s ih =>
      obtain ⟨hdepth, hroots, htokens⟩ := ih fun front rest hsplit =>
        h front (rest ++ [s]) (by rw [hsplit, List.append_assoc])
      have hbefore := h steps [s] rfl
      have hafter := h (steps ++ [s]) [] (by simp)
      rw [List.foldl_append]
      set b' := steps.foldl (step length) b
      have hclosing : s.isClosing = true → 1 < b'.frames.length := by
        intro hs
        simp only [List.countP_append, List.countP_singleton, hs, Step.not_isOpening hs, if_true,
          Bool.false_eq_true, if_false] at hafter
        omega
      obtain ⟨hdepth', hroots', htokens'⟩ := step_inside length (by omega) hclosing
      refine ⟨?_, hroots'.trans hroots, ?_⟩
      · simp only [List.foldl_cons, List.foldl_nil, List.countP_append]
        omega
      · rw [List.count_append, ← List.drop_drop, ← htokens]
        exact htokens'

/-- While the steps of the root are carried out, the root is open, and what is left of the
significant tokens is what has not been taken. -/
lemma run_front (length : Nat) (tokens : List Token) (kind : NodeKind)
    {inner front rest : List Step} (h : Balanced inner) (hsplit : inner = front ++ rest) :
    (run length tokens (.opening kind :: front)).frames.length + front.countP Step.isClosing =
        1 + front.countP Step.isOpening ∧
      (run length tokens (.opening kind :: front)).roots = [] ∧
      significant (run length tokens (.opening kind :: front)).pending =
        (significant tokens).drop (front.count .token) := by
  obtain ⟨hdepth, hroots⟩ := depth_openNode (ofTokens tokens) kind
  have hinside := @run_inside length ((ofTokens tokens).openNode kind) front
  rw [hdepth, hroots, significant_openNode] at hinside
  refine hinside fun front' rest' hfront => ?_
  have := h.nests.front front' (rest' ++ rest) (by rw [hsplit, hfront, List.append_assoc])
  omega

/-- Before the root is closed, what is left of the significant tokens is what has not been taken. -/
lemma run_open (length : Nat) (tokens : List Token) (kind : NodeKind) {inner : List Step}
    (h : Balanced inner) :
    (run length tokens (.opening kind :: inner)).frames.length = 1 ∧
      (run length tokens (.opening kind :: inner)).roots = [] ∧
      significant (run length tokens (.opening kind :: inner)).pending =
        (significant tokens).drop (inner.count .token) := by
  obtain ⟨hdepth, hroots, htokens⟩ := run_front length tokens kind h (List.append_nil inner).symm
  have := h.nests.whole
  exact ⟨by omega, hroots, htokens⟩

/-- The last step of a node closes the root. -/
lemma run_closing (length : Nat) (tokens : List Token) (kind : NodeKind) (inner : List Step) :
    run length tokens (.opening kind :: (inner ++ [.closing])) =
      (run length tokens (.opening kind :: inner)).closeNode := by
  rw [run, ← List.cons_append, List.foldl_append]
  rfl

/-- The steps of a node leave nothing but one root. -/
lemma run_root (length : Nat) (tokens : List Token) (kind : NodeKind) {inner : List Step}
    (h : Balanced inner) :
    (run length tokens (.opening kind :: (inner ++ [.closing]))).frames = [] ∧
      (run length tokens (.opening kind :: (inner ++ [.closing]))).pending = [] ∧
      ∃ f, (run length tokens (.opening kind :: inner)).addRest.frames = [f] ∧
        (run length tokens (.opening kind :: (inner ++ [.closing]))).roots =
          [.node f.kind f.parts.reverse] := by
  obtain ⟨hdepth, hroots, -⟩ := run_open length tokens kind h
  rw [run_closing, ← hroots]
  exact closeNode_outermost hdepth

/-- The steps of a node build one root, and the tokens are its leaves. -/
theorem run_node (length : Nat) (tokens : List Token) (kind : NodeKind) {inner : List Step}
    (h : Balanced inner) :
    ∃ kind' cs, (run length tokens (.opening kind :: (inner ++ [.closing]))).root? =
        some (.node kind' cs) ∧ leavesOf cs = tokens.map Token.leaf := by
  obtain ⟨hframes, hpending, f, -, hroots⟩ := run_root length tokens kind h
  have hleaves := leaves_run length (ofTokens tokens) (.opening kind :: (inner ++ [.closing]))
  have hall : (run length tokens (.opening kind :: (inner ++ [.closing]))).leaves =
      tokens.map Token.leaf := hleaves.trans rfl
  refine ⟨f.kind, f.parts.reverse, ?_, ?_⟩
  · rw [root?, hroots]
    rfl
  · rw [leaves, placed, hframes, hpending, hroots] at hall
    simpa [leavesOf_singleton, Tree.leaves] using hall

end Builder

end Tree

end StyleSheet
