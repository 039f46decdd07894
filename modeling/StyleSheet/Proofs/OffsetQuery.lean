import Mathlib
import StyleSheet.Parse
import StyleSheet.Tree.Path
import StyleSheet.Proofs.Numbering

/-!
# Nodes at an offset

The nodes at an offset are found by going down: from a node to the last of its child nodes that
reaches to the offset, as long as there is one (`Site.descent_eq`). Ends count, so neighbours that
touch and nodes without any bytes may all reach to the same offset, and there may be several ways
down. The one that is taken leads to the last node of all, in the order in which nodes begin, that
reaches to the offset: what does not reach to it has nothing inside that does, and what is inside of
a later child begins later.
-/

namespace StyleSheet

namespace Site

/-- Whether the node reaches to an offset, both of its ends included. -/
def reaches (s : Site) (offset : Nat) : Bool := s.start ≤ offset && offset ≤ s.stop

/-- The last node of a row that reaches to an offset. -/
def lastAt? (l : List Site) (offset : Nat) : Option Site :=
  (l.filter fun s => s.reaches offset).getLast?

/-- The nodes on the way down from a node. -/
def descent (s : Site) (offset : Nat) : List Site := s.tree.path offset s.above s.start

variable {s c : Site} {l l' : List Site} {offset : Nat}

lemma lastAt?_append : lastAt? (l ++ l') offset = (lastAt? l' offset).or (lastAt? l offset) := by
  rw [lastAt?, List.filter_append, List.getLast?_append]
  rfl

lemma lastAt?_cons :
    lastAt? (s :: l) offset =
      (lastAt? l offset).or (if s.reaches offset then some s else none) := by
  rw [← List.singleton_append, lastAt?_append]
  refine congrArg _ ?_
  cases hs : s.reaches offset <;> simp [lastAt?, hs]

lemma lastAt?_eq_none_iff : lastAt? l offset = none ↔ ∀ s ∈ l, s.reaches offset = false := by
  simp [lastAt?]

lemma mem_of_lastAt? (h : lastAt? l offset = some s) : s ∈ l ∧ s.reaches offset = true :=
  List.mem_filter.1 (List.mem_of_getLast? h)

lemma exists_lastAt? (hs : s ∈ l) (h : s.reaches offset = true) :
    ∃ last, lastAt? l offset = some last := by
  cases hlast : lastAt? l offset with
  | none => cases h.symm.trans (lastAt?_eq_none_iff.1 hlast s hs)
  | some last => exact ⟨last, rfl⟩

/-- What does not reach to an offset has nothing inside that does. -/
lemma lastAt?_descendants_eq_none (h : s.reaches offset = false) :
    lastAt? s.descendants offset = none := by
  refine lastAt?_eq_none_iff.2 fun c hc => ?_
  have hbounds : s.start ≤ c.start ∧ c.stop ≤ s.stop := Tree.bounds_sites hc
  simp only [reaches, Bool.and_eq_false_iff, decide_eq_false_iff_not] at h ⊢
  omega

end Site

namespace Tree

open Site

variable {offset : Nat}

/-- Going down into a row of trees means going down from the last of its nodes that reaches to the
offset. -/
lemma pathOf_eq (above : List Place) (start : Nat) (cs : List Tree) :
    pathOf offset above start cs =
      ((lastAt? (nodesOf above start cs) offset).map fun c => c.descent offset).getD [] := by
  induction cs generalizing start with
  | nil => rfl
  | cons c cs ih =>
      rw [pathOf, ih]
      cases c with
      | leaf k t =>
          rw [nodesOf, Tree.length, path, ite_self]
          split
          · rename_i hnil
            exact hnil.symm
          · rfl
      | node k ds =>
          rw [nodesOf, Tree.length, lastAt?_cons]
          cases lastAt? (nodesOf above (start + lengthOf ds) cs) offset with
          | none =>
              rw [Option.none_or]
              change (if Site.reaches ⟨⟨k, ds, start⟩, above⟩ offset = true then _ else _) = _
              split <;> rfl
          | some c =>
              obtain ⟨⟨k', ds', start'⟩, above'⟩ := c
              rfl

/-- The last node inside of a row that reaches to an offset is inside of the last node of the row
that does. -/
lemma lastAt?_sitesOf (above : List Place) (start : Nat) (cs : List Tree) :
    lastAt? (sitesOf above start cs) offset =
      (lastAt? (nodesOf above start cs) offset).bind fun c => lastAt? c.descendants offset := by
  induction cs generalizing start with
  | nil => rfl
  | cons c cs ih =>
      rw [sitesOf, lastAt?_append, ih]
      cases c with
      | leaf k t => exact Option.or_none
      | node k ds =>
          have hsites : sites above start (node k ds) = Site.descendants ⟨⟨k, ds, start⟩, above⟩ :=
            rfl
          rw [nodesOf, Tree.length, lastAt?_cons, hsites]
          cases hlast : lastAt? (nodesOf above (start + lengthOf ds) cs) offset with
          | none =>
              rw [Option.bind_none, Option.none_or, Option.none_or]
              split
              · rfl
              · rename_i hnot
                exact lastAt?_descendants_eq_none (Bool.eq_false_iff.2 hnot)
          | some c =>
              -- A node that reaches to the offset is one of the nodes at or inside of it.
              obtain ⟨last, hsome⟩ :=
                exists_lastAt? (l := c.descendants) List.mem_cons_self (mem_of_lastAt? hlast).2
              rw [Option.bind_some, hsome, Option.some_or, Option.some_or, Option.bind_some, hsome]

end Tree

namespace Site

variable {s c : Site} {offset : Nat}

/-- One step of the way down: to the last child node that reaches to the offset. -/
lemma descent_eq (s : Site) (offset : Nat) :
    s.descent offset = s :: ((lastAt? s.children offset).map fun c => c.descent offset).getD [] :=
  congrArg (s :: ·) (Tree.pathOf_eq _ _ _)

lemma size_of_children (hc : c ∈ s.children) : c.tree.size < s.tree.size :=
  Nat.lt_succ_of_le (Tree.size_sitesOf (Tree.mem_sitesOf_of_nodesOf hc))

/-- The way down ends, since each step leads to a smaller node. -/
lemma descent_induction {P : Site → List Site → Prop}
    (hstop : ∀ s, lastAt? s.children offset = none → P s [s])
    (hstep : ∀ s c l, lastAt? s.children offset = some c → P c (c :: l) → P s (s :: c :: l))
    (s : Site) : P s (s.descent offset) := by
  induction hn : s.tree.size using Nat.strong_induction_on generalizing s with
  | _ n ih =>
      subst hn
      rw [descent_eq]
      cases hlast : lastAt? s.children offset with
      | none => exact hstop s hlast
      | some c =>
          have hdescent := ih _ (size_of_children (mem_of_lastAt? hlast).1) c rfl
          rw [descent_eq] at hdescent
          rw [Option.map_some, Option.getD_some, descent_eq]
          exact hstep s c _ hlast hdescent

/-- Each node on the way down is a child node of the one before and reaches to the offset. -/
lemma isChain_descent (s : Site) (offset : Nat) :
    (s.descent offset).IsChain fun a b => b ∈ a.children ∧ b.reaches offset = true :=
  descent_induction (P := fun _ l => l.IsChain fun a b => b ∈ a.children ∧ b.reaches offset = true)
    (fun s _ => .singleton s) (fun _ _ _ hlast hl => .cons_cons (mem_of_lastAt? hlast) hl) s

/-- The way down does not end before it has to. -/
lemma lastAt?_children_of_getLast? {last : Site} (h : (s.descent offset).getLast? = some last) :
    lastAt? last.children offset = none := by
  refine descent_induction
    (P := fun _ l => l.getLast? = some last → lastAt? last.children offset = none)
    (fun s hnone hs => ?_) (fun s c l _ hl hlast => hl hlast) s h
  obtain rfl := Option.some.inj hs
  exact hnone

lemma lastAt?_descendants (hs : s.reaches offset = true) : lastAt? s.descendants offset =
    some (((lastAt? s.children offset).bind fun c => lastAt? c.descendants offset).getD s) := by
  have hsites : s.descendants = s :: Tree.sitesOf (s.here :: s.above) s.start s.here.children := rfl
  rw [hsites, lastAt?_cons, if_pos hs, Tree.lastAt?_sitesOf]
  change ((lastAt? s.children offset).bind _).or _ =
    some (Option.getD ((lastAt? s.children offset).bind _) s)
  cases (lastAt? s.children offset).bind fun c => lastAt? c.descendants offset <;> rfl

/-- The way down from a node that reaches to an offset ends in the last node of all that does. -/
lemma getLast?_descent (hs : s.reaches offset = true) :
    (s.descent offset).getLast? = lastAt? s.descendants offset := by
  refine descent_induction
    (P := fun s l => s.reaches offset = true → l.getLast? = lastAt? s.descendants offset)
    (fun s hnone hs => ?_) (fun s c l hlast hl hs => ?_) s hs
  · rw [lastAt?_descendants hs, hnone]
    rfl
  · have hc := (mem_of_lastAt? hlast).2
    rw [List.getLast?_cons_cons, hl hc, lastAt?_descendants hs, hlast, Option.bind_some,
      lastAt?_descendants hc, Option.getD_some]

/-- From a node that does not reach to an offset there is no way down. -/
lemma descent_of_not_reaches (hs : s.reaches offset = false) : s.descent offset = [s] := by
  have hnone : lastAt? s.children offset = none :=
    lastAt?_eq_none_iff.2 fun c hc => lastAt?_eq_none_iff.1 (lastAt?_descendants_eq_none hs) c
      (List.mem_cons_of_mem _ (Tree.mem_sitesOf_of_nodesOf hc))
  rw [descent_eq, hnone]
  rfl

lemma getLastD_descent (s : Site) (offset : Nat) :
    (s.descent offset).getLastD s = (lastAt? s.descendants offset).getD s := by
  rw [List.getLastD_eq_getLast?]
  cases hs : s.reaches offset with
  | true => rw [getLast?_descent hs]
  | false =>
      rw [descent_of_not_reaches hs, lastAt?_descendants_eq_none hs]
      rfl

lemma path_of_le (s : Site) (h : offset ≤ maxOffset) : s.path offset = s.descent offset := if_pos h

lemma path_of_not_le (s : Site) (h : ¬ offset ≤ maxOffset) : s.path offset = [s] := if_neg h

/-- The path to an offset starts with the node that is asked and goes from node to child node, all
of which reach to the offset, until no child node does. (No node of a source reaches beyond the
greatest offset.) The innermost node at an offset is the one that a scan through all nodes finds
last, or the node itself if it finds none or the offset is too great. -/
theorem innermostAt_eq_scan (s : Site) (offset : Nat) :
    (s.path offset).head? = some s ∧
      ((s.path offset).IsChain fun a b => b ∈ a.children ∧ b.reaches offset = true) ∧
      (offset ≤ maxOffset ∨ s.stop ≤ maxOffset → ∀ last, (s.path offset).getLast? = some last →
        ∀ c ∈ last.children, c.reaches offset = false) ∧
      s.innermostAt offset =
        if offset ≤ maxOffset then (lastAt? s.descendants offset).getD s else s := by
  by_cases hoffset : offset ≤ maxOffset
  · rw [innermostAt, path_of_le s hoffset, if_pos hoffset]
    refine ⟨by rw [descent_eq]; rfl, isChain_descent s offset, ?_, getLastD_descent s offset⟩
    exact fun _ last hlast => lastAt?_eq_none_iff.1 (lastAt?_children_of_getLast? hlast)
  · rw [innermostAt, path_of_not_le s hoffset, if_neg hoffset]
    refine ⟨rfl, .singleton s, fun hfits last hlast => ?_, rfl⟩
    obtain rfl := Option.some.inj hlast
    have hs : s.reaches offset = false := by
      simp only [reaches, Bool.and_eq_false_iff, decide_eq_false_iff_not]
      omega
    have hpath := descent_of_not_reaches hs
    exact lastAt?_eq_none_iff.1 (lastAt?_children_of_getLast? (s := s) (by rw [hpath]; rfl))

/-- A block inside of a sheet, asked for the offset where the selectors and the block of a rule set
in it touch. The block there holds an error without any bytes, one byte further on. -/
theorem innermostAt_eq_scan_touching :
    ∃ s ∈ (parse .css .stylesheet (Text.ofString "a\x7bb\x7b")).root.descendants,
      s.start = 1 ∧ (s.path 3).map kind = [.declarations, .ruleset, .declarations] ∧
        s.stop ≤ maxOffset ∧
        (∀ last, (s.path 3).getLast? = some last → ∀ c ∈ last.children, c.reaches 3 = false) ∧
        s.innermostAt 3 = (lastAt? s.descendants 3).getD s := by
  have hmem := List.get_mem (parse .css .stylesheet (Text.ofString "a\x7bb\x7b")).root.descendants
    ⟨6, by decide +kernel⟩
  obtain ⟨-, -, hlast, hscan⟩ := innermostAt_eq_scan
    ((parse .css .stylesheet (Text.ofString "a\x7bb\x7b")).root.descendants.get
      ⟨6, by decide +kernel⟩) 3
  refine ⟨_, hmem,
    by decide +kernel, by decide +kernel, by decide +kernel, hlast (.inl (by decide)), ?_⟩
  rwa [if_pos (by decide)] at hscan

end Site

end StyleSheet
