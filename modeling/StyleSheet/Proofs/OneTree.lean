import Mathlib
import StyleSheet.Proofs.Termination

/-!
# The events of a source describe one tree

The builder has nothing to say about events that do not fit: a link that leads to something else
than an opening would be passed over, a token behind the last one would be left out, and a root that
is not closed, or a second one, would be lost. None of this happens, whatever the source is.
-/

namespace StyleSheet

open Event Token StyleSheet.Tree

section

variable (d : Dialect) (entry : Entry) (source : Text)

/-- Reading takes no more tokens than there are. -/
lemma Entry.taken_readSource : taken (readSource d entry source).events.toList ≤
    (significant (readSource d entry source).tokens.toList).length := by
  have hconsistent := consistent_readSource d entry source
  rw [← hconsistent.cursor, ← hconsistent.stream, Array.length_toList]
  exact hconsistent.cursor_le

/-- The number of tokens in front of a token among the steps. -/
lemma Entry.count_front {before after : List Step}
    (h : steps (readSource d entry source).events = before ++ .token :: after) :
    before.count .token < (significant (readSource d entry source).tokens.toList).length := by
  have hcount := count_steps (readSource d entry source).events
  have htaken := taken_readSource d entry source
  rw [h, List.count_append, List.count_cons_self] at hcount
  omega

namespace Tree.Builder

/-- The token that comes next after white space and comments. -/
lemma exists_pending_addTrivia {b : Builder} (h : significant b.pending ≠ []) :
    ∃ t rest, b.addTrivia.pending = t :: rest ∧ t.isTrivia = false := by
  rcases hpending : b.addTrivia.pending with _ | ⟨t, rest⟩
  · rw [← significant_addTrivia, hpending] at h
    exact absurd rfl h
  · exact ⟨t, rest, rfl, isTrivia_next hpending⟩

end Tree.Builder

/-- The builder that has carried out the steps of a source. -/
def built : Builder :=
  Builder.run source.length (readSource d entry source).tokens.toList
    (steps (readSource d entry source).events)

/-- In the end the builder has one root, which is the root of the tree, and nothing else. -/
lemma built_root : (built d entry source).frames = [] ∧ (built d entry source).pending = [] ∧
    ∃ kind cs, (built d entry source).roots = [.node kind cs] ∧
      (parse d entry source).root = .ofNode kind cs := by
  obtain ⟨kind, inner, hsteps, hbalanced⟩ := Entry.steps_readSource d entry source
  obtain ⟨hframes, hpending, f, -, hroots⟩ := Builder.run_root source.length
    (readSource d entry source).tokens.toList kind hbalanced
  rw [← hsteps] at hframes hpending hroots
  refine ⟨hframes, hpending, f.kind, f.parts.reverse, hroots, ?_⟩
  rw [parse, Parsed.ofParser, builtRoot, Builder.root?, hroots]
  rfl

end

/-- The events of a source are those of one tree. Behind the first event and before the last one,
more nodes have been opened than closed; in the end all of them are closed. Every link leads forward
to an opening, to which no other link leads. Each token that is taken is there.

So the builder has an open node and no root until the last step, it has a significant token for each
step that takes one, and in the end it has one root, which is the root of the tree. -/
theorem events_describe_one_tree (d : Dialect) (entry : Entry) (source : Text) :
    let p := readSource d entry source
    let build := Builder.run source.length p.tokens.toList
    (∀ before after, p.events.toList = before ++ after → before ≠ [] → after ≠ [] →
        before.countP isClosing < before.countP isOpening) ∧
      p.events.toList.countP isClosing = p.events.toList.countP isOpening ∧
      Linked p.events.toList ∧
      (∀ before after, p.events.toList = before ++ .token :: after →
        taken before < (significant p.tokens.toList).length) ∧
      (∀ before after, steps p.events = before ++ after → before ≠ [] → after ≠ [] →
        (build before).frames ≠ [] ∧ (build before).roots = []) ∧
      (∀ before after, steps p.events = before ++ .token :: after →
        ∃ t rest, (build before).addTrivia.pending = t :: rest ∧ t.isTrivia = false) ∧
      ∃ kind cs, (build (steps p.events)).roots = [.node kind cs] ∧
        (build (steps p.events)).frames = [] ∧ (build (steps p.events)).pending = [] ∧
        (parse d entry source).root.tree = .node kind cs := by
  intro p build
  obtain ⟨kind, row, hevents, hrec⟩ := Entry.events_readSource d entry source
  obtain ⟨kind', inner, hsteps, hbalanced⟩ := Entry.steps_readSource d entry source
  have hnode := hrec.node kind
  rw [← hevents] at hnode
  refine ⟨?_, hnode.nests.whole, hnode.linked, ?_, ?_, ?_, ?_⟩
  · intro before after hsplit hbefore hafter
    rw [hevents] at hsplit
    exact Nests.lt_between rfl rfl hrec.nests hsplit hbefore hafter
  · intro before after hsplit
    have htaken := Entry.taken_readSource d entry source
    rw [hsplit, taken, List.countP_append, List.countP_cons_of_pos rfl] at htaken
    show before.countP isToken < (significant (readSource d entry source).tokens.toList).length
    omega
  · intro before after hsplit hbefore hafter
    rw [hsteps] at hsplit
    obtain ⟨front, rest, rfl, hfront⟩ := exists_front hsplit hbefore hafter
    obtain ⟨hdepth, hroots, -⟩ :=
      Builder.run_front source.length p.tokens.toList kind' hbalanced hfront
    have hle := hbalanced.nests.front front rest hfront
    have hpos : 0 < (build (.opening kind' :: front)).frames.length := by
      show 0 < (Builder.run source.length p.tokens.toList (.opening kind' :: front)).frames.length
      omega
    exact ⟨List.length_pos_iff.1 hpos, hroots⟩
  · intro before after hsplit
    have hcount := Entry.count_front d entry source hsplit
    rw [hsteps] at hsplit
    have hbefore : before ≠ [] := by
      rintro rfl
      cases hsplit
    obtain ⟨front, rest, rfl, hfront⟩ := exists_front hsplit hbefore (List.cons_ne_nil _ _)
    obtain ⟨-, -, htokens⟩ := Builder.run_front source.length p.tokens.toList kind' hbalanced hfront
    refine Builder.exists_pending_addTrivia ?_
    rw [List.count_cons_of_ne (by simp)] at hcount
    rw [htokens, ← List.length_pos_iff, List.length_drop]
    exact Nat.sub_pos_of_lt hcount
  · obtain ⟨hframes, hpending, kind'', cs, hroots, hroot⟩ := built_root d entry source
    exact ⟨kind'', cs, hroots, hframes, hpending, congrArg Site.tree hroot⟩

end StyleSheet
