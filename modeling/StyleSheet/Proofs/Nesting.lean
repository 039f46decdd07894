import Mathlib
import StyleSheet.Proofs.Records

/-!
# Nodes inside of nodes

In a list of openings and closings nothing is closed before it has been opened, and in the end
nothing is open: this is what `Nests` says, both of events as they were recorded and of the steps
that they stand for. The two differ where a node was put around another one, because its opening is
recorded late. Such an opening is found by the link of the inner one; every link leads forward to an
opening, and no two links lead to the same one (`Linked`).
-/

namespace StyleSheet

/-! ## Openings and closings -/

/-- A proper front part of a row that is enclosed by two elements. -/
lemma exists_front {α : Type} {x y : α} {l a b : List α} (h : x :: (l ++ [y]) = a ++ b)
    (ha : a ≠ []) (hb : b ≠ []) : ∃ front rest, a = x :: front ∧ l = front ++ rest := by
  rcases List.cons_eq_append_iff.1 h with ⟨rfl, -⟩ | ⟨front, rfl, hfront⟩
  · exact absurd rfl ha
  rcases List.eq_nil_or_concat' b with rfl | ⟨rest, z, rfl⟩
  · exact absurd rfl hb
  rw [← List.append_assoc] at hfront
  exact ⟨front, rest, rfl, (List.append_inj' hfront rfl).1⟩

/-- No front part of the list closes more than it opens, and the whole list closes all that it
opens. -/
structure Nests {α : Type} (opens closes : α → Bool) (l : List α) : Prop where
  front : ∀ a b, l = a ++ b → a.countP closes ≤ a.countP opens
  whole : l.countP closes = l.countP opens

namespace Nests

variable {α : Type} {opens closes : α → Bool} {l m : List α} {x y : α}

lemma nil : Nests opens closes [] where
  front := by
    intro a b h
    obtain ⟨rfl, -⟩ := List.append_eq_nil_iff.1 h.symm
    exact le_refl _
  whole := rfl

lemma append (hl : Nests opens closes l) (hm : Nests opens closes m) :
    Nests opens closes (l ++ m) where
  front := by
    intro a b h
    rcases List.append_eq_append_iff.1 h with ⟨c, rfl, hc⟩ | ⟨c, hc, -⟩
    · have := hm.front c b hc
      have := hl.whole
      simp only [List.countP_append]
      omega
    · exact hl.front a c hc
  whole := by simp only [List.countP_append, hl.whole, hm.whole]

/-- An element that neither opens nor closes. -/
lemma cons (ho : opens x = false) (hc : closes x = false) (hl : Nests opens closes l) :
    Nests opens closes (x :: l) where
  front := by
    intro a b h
    rcases List.cons_eq_append_iff.1 h with ⟨rfl, -⟩ | ⟨a', rfl, ha⟩
    · exact le_refl _
    · simpa [ho, hc] using hl.front a' b ha
  whole := by simp [ho, hc, hl.whole]

/-- Between an opening and its closing more has been opened than closed. -/
lemma lt_between (ho : opens x = true) (hx : closes x = false) (hl : Nests opens closes l)
    {a b : List α} (h : x :: (l ++ [y]) = a ++ b) (ha : a ≠ []) (hb : b ≠ []) :
    a.countP closes < a.countP opens := by
  obtain ⟨front, rest, rfl, hfront⟩ := exists_front h ha hb
  have hle := hl.front front rest hfront
  simp only [List.countP_cons, ho, hx, if_true, Bool.false_eq_true, if_false]
  omega

lemma node (ho : opens x = true) (hx : closes x = false) (hy : opens y = false)
    (hc : closes y = true) (hl : Nests opens closes l) : Nests opens closes (x :: (l ++ [y])) := by
  have hwhole : (x :: (l ++ [y])).countP closes = (x :: (l ++ [y])).countP opens := by
    simp [ho, hx, hc, hy, hl.whole]
  refine ⟨fun a b h => ?_, hwhole⟩
  by_cases ha : a = []
  · simp [ha]
  by_cases hb : b = []
  · rw [hb, List.append_nil] at h
    rw [← h]
    exact hwhole.le
  · exact (lt_between ho hx hl h ha hb).le

end Nests

/-! ## Steps -/

namespace Step

/-- Whether a node opens. -/
def isOpening : Step → Bool
  | opening _ => true
  | _ => false

/-- Whether a node closes. -/
def isClosing : Step → Bool
  | closing => true
  | _ => false

lemma not_isOpening {s : Step} (h : s.isClosing = true) : s.isOpening = false := by
  cases s with
  | closing => rfl
  | _ => cases h

end Step

lemma Balanced.nests {l : List Step} (h : Balanced l) : Nests Step.isOpening Step.isClosing l := by
  induction h with
  | nil => exact .nil
  | token _ ih => exact ih.cons rfl rfl
  | fault f _ ih => exact ih.cons rfl rfl
  | node kind _ _ ihinner ihrest =>
      have hnode := Nests.node (x := .opening kind) (y := .closing) rfl rfl rfl rfl ihinner
      simpa using hnode.append ihrest

/-! ## Events -/

namespace Event

variable {A B R : List Event}

/-- Whether a node opens. -/
def isOpening : Event → Bool
  | opening .. => true
  | _ => false

/-- Whether a node closes. -/
def isClosing : Event → Bool
  | closing => true
  | _ => false

lemma nests_tower (kind : NodeKind) {layers : List (NodeKind × List Event)}
    (hA : Nests isOpening isClosing A)
    (hlayers : ∀ layer ∈ layers, Nests isOpening isClosing layer.2) :
    Nests isOpening isClosing (tower kind A layers) := by
  induction layers generalizing kind A with
  | nil => exact .node rfl rfl rfl rfl hA
  | cons layer layers ih =>
      have hnode := Nests.node (x := .opening kind (some (A.length + 2))) (y := .closing)
        rfl rfl rfl rfl hA
      exact hnode.append (ih layer.1 (hlayers layer (by simp)) fun l hl => hlayers l (by simp [hl]))

lemma Records.nests (h : Records A) : Nests isOpening isClosing A := by
  induction h with
  | nil => exact .nil
  | token => exact Nests.nil.cons rfl rfl
  | fault f => exact Nests.nil.cons rfl rfl
  | vacant => exact Nests.nil.cons rfl rfl
  | append _ _ hA hB => exact hA.append hB
  | tower kind _ _ hA hlayers => exact nests_tower kind hA hlayers

/-! ## Links -/

/-- Every link leads forward to an opening, to which no other link leads. -/
def Linked (A : List Event) : Prop :=
  ∀ i kind n, A[i]? = some (.opening kind (some n)) →
    0 < n ∧ (∃ kind' outer, A[i + n]? = some (.opening kind' outer)) ∧
      ∀ j kind' m, A[j]? = some (.opening kind' (some m)) → j + m = i + n → j = i

namespace Linked

lemma nil : Linked [] := by simp [Linked]

lemma closed (h : Linked A) : Closed A := by
  intro i kind n hi
  obtain ⟨hpos, ⟨kind', outer, htarget⟩, -⟩ := h i kind n hi
  exact ⟨hpos, (List.getElem?_eq_some_iff.1 htarget).1⟩

/-- An event without a link before others. -/
lemma cons {e : Event} (he : ∀ kind n, e ≠ .opening kind (some n)) (hR : Linked R) :
    Linked (e :: R) := by
  intro i kind n hi
  cases i with
  | zero => exact absurd (by simpa using hi) (he kind n)
  | succ i =>
      obtain ⟨hpos, ⟨kind', outer, htarget⟩, hfree⟩ := hR i kind n (by simpa using hi)
      refine ⟨hpos, ⟨kind', outer, ?_⟩, ?_⟩
      · rw [Nat.add_right_comm, List.getElem?_cons_succ]
        exact htarget
      · intro j kind' m hj hsame
        cases j with
        | zero => exact absurd (by simpa using hj) (he kind' m)
        | succ j =>
            have := hfree j kind' m (by simpa using hj) (by omega)
            omega

/-- A link to an opening that has not been linked to yet. -/
lemma cons_link (kind : NodeKind) {n : Nat} (hR : Linked R)
    (htarget : ∃ kind' outer, R[n]? = some (.opening kind' outer)) (hfree : n ∉ outerOpenings R) :
    Linked (.opening kind (some (n + 1)) :: R) := by
  -- A link of `R` leads elsewhere than the new one.
  have hother : ∀ j kind' m, R[j]? = some (.opening kind' (some m)) → j + m ≠ n :=
    fun j kind' m hj hsame => hfree (mem_outerOpenings.2 ⟨j, kind', m, hj, hsame⟩)
  intro i kind' m hi
  cases i with
  | zero =>
      obtain ⟨-, rfl⟩ : kind = kind' ∧ n + 1 = m := by simpa using hi
      refine ⟨Nat.succ_pos n, by simpa using htarget, ?_⟩
      intro j kind'' m hj hsame
      cases j with
      | zero => rfl
      | succ j => exact absurd (by omega) (hother j kind'' m (by simpa using hj))
  | succ i =>
      have hi : R[i]? = some (.opening kind' (some m)) := by simpa using hi
      obtain ⟨hpos, ⟨kind'', outer, hopening⟩, hunique⟩ := hR i kind' m hi
      refine ⟨hpos, ⟨kind'', outer, ?_⟩, ?_⟩
      · rw [Nat.add_right_comm, List.getElem?_cons_succ]
        exact hopening
      · intro j kind''' m' hj hsame
        cases j with
        | zero =>
            obtain ⟨-, rfl⟩ : kind = kind''' ∧ n + 1 = m' := by simpa using hj
            exact absurd (by omega) (hother i kind' m hi)
        | succ j =>
            have := hunique j kind''' m' (by simpa using hj) (by omega)
            omega

lemma append (hA : Linked A) (hB : Linked B) : Linked (A ++ B) := by
  -- A link leads into the part that it stands in, so that links of different parts do not meet.
  have hleft : ∀ {i e}, (A ++ B)[i]? = some e → i < A.length → A[i]? = some e := by
    intro i e hi hlt
    rwa [List.getElem?_append_left hlt] at hi
  have hright : ∀ {i e}, (A ++ B)[i]? = some e → ¬ i < A.length → B[i - A.length]? = some e := by
    intro i e hi hlt
    rwa [List.getElem?_append_right (by omega)] at hi
  intro i kind n hi
  by_cases hlt : i < A.length
  · obtain ⟨hpos, ⟨kind', outer, htarget⟩, hunique⟩ := hA i kind n (hleft hi hlt)
    have hinside := (List.getElem?_eq_some_iff.1 htarget).1
    refine ⟨hpos, ⟨kind', outer, ?_⟩, ?_⟩
    · rw [List.getElem?_append_left hinside]
      exact htarget
    · intro j kind'' m hj hsame
      exact hunique j kind'' m (hleft hj (by omega)) hsame
  · obtain ⟨hpos, ⟨kind', outer, htarget⟩, hunique⟩ := hB _ kind n (hright hi hlt)
    refine ⟨hpos, ⟨kind', outer, ?_⟩, ?_⟩
    · rw [List.getElem?_append_right (by omega), Nat.sub_add_comm (by omega)]
      exact htarget
    · intro j kind'' m hj hsame
      by_cases hj' : j < A.length
      · have := hA.closed j kind'' m (hleft hj hj')
        omega
      · have := hunique _ kind'' m (hright hj hj') (by omega)
        omega

lemma nodeRow (kind : NodeKind) (hA : Linked A) : Linked (nodeRow kind none A) :=
  (hA.append (nil.cons (e := .closing) (by simp))).cons (by simp)

lemma tower (kind : NodeKind) {layers : List (NodeKind × List Event)} (hA : Linked A)
    (hlayers : ∀ layer ∈ layers, Linked layer.2) : Linked (tower kind A layers) := by
  induction layers generalizing kind A with
  | nil => exact hA.nodeRow kind
  | cons layer layers ih =>
      have hinner := hA.append (nil.cons (e := .closing) (by simp))
      have houter := ih layer.1 (hlayers layer (by simp)) fun l hl => hlayers l (by simp [hl])
      obtain ⟨link, rest, htower⟩ := tower_eq_cons layer.1 layer.2 layers
      have hlength : (A ++ [Event.closing]).length = A.length + 1 := by simp
      have hrow := cons_link kind (n := A.length + 1) (hinner.append houter) ?_ ?_
      · simpa [Event.tower, Event.nodeRow] using hrow
      · refine ⟨layer.1, link, ?_⟩
        rw [← hlength, List.getElem?_append_right (le_refl _), Nat.sub_self, htower]
        rfl
      · rw [← hlength, ← Nat.add_zero (A ++ [Event.closing]).length,
          mem_outerOpenings_right hinner.closed]
        exact zero_not_mem_outerOpenings houter.closed

end Linked

lemma Records.linked (h : Records A) : Linked A := by
  induction h with
  | nil => exact .nil
  | token => exact Linked.nil.cons (by simp)
  | fault f => exact Linked.nil.cons (by simp)
  | vacant => exact Linked.nil.cons (by simp)
  | append _ _ hA hB => exact hA.append hB
  | tower kind _ _ hA hlayers => exact hA.tower kind hlayers

end Event

end StyleSheet
