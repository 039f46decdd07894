import Mathlib
import StyleSheet.Event

/-!
# Rows of events and their steps

The steps of a row of events are computed with the indices of the whole row: an opening may name
another one further on. A row is `Closed` if no opening names one outside of it. Closed rows can be
put one behind the other, and so can their steps (`steps_append`).

A `tower` is the row that comes about when nodes are put around a closed node one after the other.
Its steps open all of these nodes at once, the outermost first, so that they are balanced like those
of nested nodes. `Records` says what rows there are at all; their steps are balanced
(`Records.balanced`).
-/

namespace StyleSheet

/-- Steps in which each opening has its closing. -/
inductive Balanced : List Step → Prop
  | nil : Balanced []
  | token {l : List Step} : Balanced l → Balanced (.token :: l)
  | fault {l : List Step} (f : Fault) : Balanced l → Balanced (.fault f :: l)
  | node {inner rest : List Step} (kind : NodeKind) : Balanced inner → Balanced rest →
      Balanced (.opening kind :: (inner ++ .closing :: rest))

lemma Balanced.append {a b : List Step} (ha : Balanced a) (hb : Balanced b) :
    Balanced (a ++ b) := by
  induction ha with
  | nil => exact hb
  | token _ ih => exact .token ih
  | fault f _ ih => exact .fault f ih
  | node kind hinner _ _ ih =>
      rw [List.cons_append, List.append_assoc, List.cons_append]
      exact .node kind hinner ih

namespace Event

variable {A B : List Event}

/-! ## Closed rows -/

/-- Every opening that names another one names one behind it, inside of the row. -/
def Closed (A : List Event) : Prop :=
  ∀ i kind n, A[i]? = some (.opening kind (some n)) → 0 < n ∧ i + n < A.length

lemma closed_nil : Closed [] := by simp [Closed]

lemma closed_singleton {e : Event} (h : ∀ kind n, e ≠ .opening kind (some n)) : Closed [e] := by
  intro i kind n hi
  cases i with
  | zero => exact absurd (by simpa using hi) (h kind n)
  | succ i => simp at hi

lemma Closed.append (hA : Closed A) (hB : Closed B) : Closed (A ++ B) := by
  intro i kind n hi
  rw [List.length_append]
  by_cases hlt : i < A.length
  · rw [List.getElem?_append_left hlt] at hi
    have := hA i kind n hi
    omega
  · rw [List.getElem?_append_right (by omega)] at hi
    have := hB _ kind n hi
    omega

/-- The openings that are named as outer ones. -/
lemma mem_outerOpenings {j : Nat} :
    j ∈ outerOpenings A ↔ ∃ i kind n, A[i]? = some (.opening kind (some n)) ∧ i + n = j := by
  simp only [outerOpenings, List.mem_filterMap, Prod.exists, List.mem_zipIdx_iff_getElem?]
  constructor
  · rintro ⟨e, i, hi, he⟩
    split at he
    · rename_i kind n
      exact ⟨i, kind, n, hi, Option.some.inj he⟩
    · cases he
  · rintro ⟨i, kind, n, hi, rfl⟩
    exact ⟨_, i, hi, rfl⟩

lemma mem_outerOpenings_left {j : Nat} (hj : j < A.length) :
    j ∈ outerOpenings (A ++ B) ↔ j ∈ outerOpenings A := by
  simp only [mem_outerOpenings]
  constructor
  · rintro ⟨i, kind, n, hi, rfl⟩
    rw [List.getElem?_append_left (by omega)] at hi
    exact ⟨i, kind, n, hi, rfl⟩
  · rintro ⟨i, kind, n, hi, rfl⟩
    refine ⟨i, kind, n, ?_, rfl⟩
    rwa [List.getElem?_append_left (by omega)]

lemma mem_outerOpenings_right {j : Nat} (hA : Closed A) :
    A.length + j ∈ outerOpenings (A ++ B) ↔ j ∈ outerOpenings B := by
  simp only [mem_outerOpenings]
  constructor
  · rintro ⟨i, kind, n, hi, hj⟩
    by_cases hlt : i < A.length
    · rw [List.getElem?_append_left hlt] at hi
      have := hA i kind n hi
      omega
    · rw [List.getElem?_append_right (by omega)] at hi
      exact ⟨i - A.length, kind, n, hi, by omega⟩
  · rintro ⟨i, kind, n, hi, rfl⟩
    refine ⟨A.length + i, kind, n, ?_, by omega⟩
    rw [List.getElem?_append_right (by omega), Nat.add_sub_cancel_left]
    exact hi

/-! ## The steps of a part of a row -/

/-- The steps of the events `A` that stand at index `i` of the row `whole`, in which the openings
`named` are named as outer ones. -/
def stepsFrom (whole : Array Event) (named : List Nat) (i : Nat) (A : List Event) : List Step :=
  (A.zipIdx i).flatMap fun (e, i) => stepsAt whole named i e

lemma steps_eq (A : List Event) : steps A.toArray = stepsFrom A.toArray (outerOpenings A) 0 A := rfl

lemma stepsFrom_cons (whole : Array Event) (named : List Nat) (i : Nat) (e : Event)
    (A : List Event) :
    stepsFrom whole named i (e :: A) =
      stepsAt whole named i e ++ stepsFrom whole named (i + 1) A := by
  simp [stepsFrom, List.zipIdx_cons]

lemma stepsFrom_append (whole : Array Event) (named : List Nat) (i : Nat) (A B : List Event) :
    stepsFrom whole named i (A ++ B) =
      stepsFrom whole named i A ++ stepsFrom whole named (i + A.length) B := by
  simp [stepsFrom, List.zipIdx_append]

/-- A chain of openings in a closed row does not depend on what stands around the row. -/
lemma chain_shift {whole : Array Event} {i : Nat} (hA : Closed A)
    (hwhole : ∀ j < A.length, whole[i + j]? = A[j]?) (fuel j : Nat) (hj : j < A.length) :
    chain whole fuel (i + j) = chain A.toArray fuel j := by
  induction fuel generalizing j with
  | zero => rfl
  | succ fuel ih =>
      have hget : A.toArray[j]? = A[j]? := by simp
      rw [chain, chain, hwhole j hj, hget]
      split
      · rename_i kind outer hopen
        cases outer with
        | none => rfl
        | some n =>
            have hn := hA j kind n hopen
            dsimp only
            rw [Nat.add_assoc, ih (j + n) hn.2]
      · rfl

/-- A chain is no longer than the row behind its start. -/
lemma chain_fuel (hA : Closed A) (fuel fuel' j : Nat) (hfuel : A.length - j ≤ fuel)
    (hfuel' : A.length - j ≤ fuel') : chain A.toArray fuel j = chain A.toArray fuel' j := by
  have hnone : ∀ {j fuel}, A.length ≤ j → chain A.toArray fuel j = [] := by
    intro j fuel hj
    cases fuel with
    | zero => rfl
    | succ fuel => simp [chain, List.getElem?_eq_none hj]
  induction fuel generalizing fuel' j with
  | zero => rw [hnone (by omega), hnone (by omega)]
  | succ fuel ih =>
      cases fuel' with
      | zero => rw [hnone (by omega), hnone (by omega)]
      | succ fuel' =>
          rw [chain, chain]
          split
          · rename_i kind outer hopen
            cases outer with
            | none => rfl
            | some n =>
                have hn := hA j kind n (by simpa using hopen)
                dsimp only
                rw [ih fuel' (j + n) (by omega) (by omega)]
          · rfl

/-- The steps of the end of a closed row do not depend on what stands around the row. -/
lemma stepsFrom_shift (whole : Array Event) (named : List Nat) (i : Nat) (start : List Event)
    {rest : List Event} (hA : Closed A) (hsplit : A = start ++ rest)
    (hwhole : ∀ j < A.length, whole[i + j]? = A[j]?)
    (hnamed : ∀ j, start.length ≤ j → j < A.length → (i + j ∈ named ↔ j ∈ outerOpenings A)) :
    stepsFrom whole named (i + start.length) rest =
      stepsFrom A.toArray (outerOpenings A) start.length rest := by
  induction rest generalizing start with
  | nil => rfl
  | cons e rest ih =>
      have hlt : start.length < A.length := by simp [hsplit]
      rw [stepsFrom_cons, stepsFrom_cons]
      have hrest := ih (start ++ [e]) (by simp [hsplit])
        (fun j hj => hnamed j (by simp at hj; omega))
      rw [List.length_append, List.length_singleton, ← Nat.add_assoc] at hrest
      rw [hrest]
      congr 1
      -- Only an opening asks for its surroundings; the other events stand for themselves.
      cases e with
      | opening kind outer =>
          have hsize : A.length ≤ whole.size := by
            have hlast := hwhole (A.length - 1) (by omega)
            rw [List.getElem?_eq_getElem (by omega)] at hlast
            obtain ⟨hlast, -⟩ := Array.getElem?_eq_some_iff.1 hlast
            omega
          have hcontains : named.contains (i + start.length) =
              (outerOpenings A).contains start.length := by
            rw [Bool.eq_iff_iff]
            simpa using hnamed start.length (le_refl _) hlt
          simp only [stepsAt, hcontains]
          have hsize' : A.toArray.size = A.length := by simp
          rw [chain_shift hA hwhole _ _ hlt, hsize',
            chain_fuel hA whole.size A.length start.length (by omega) (by omega)]
      | token => rfl
      | closing => rfl
      | fault f => rfl
      | vacant => rfl

/-- The steps of closed rows follow one another as the rows do. -/
theorem steps_append (hA : Closed A) (hB : Closed B) :
    steps (A ++ B).toArray = steps A.toArray ++ steps B.toArray := by
  rw [steps_eq, stepsFrom_append]
  congr 1
  · refine stepsFrom_shift _ _ 0 [] hA rfl ?_ ?_
    · intro j hj
      simp [List.getElem?_append_left hj]
    · intro j _ hj
      rw [Nat.zero_add]
      exact mem_outerOpenings_left hj
  · refine stepsFrom_shift _ _ (0 + A.length) [] hB rfl ?_ ?_
    · intro j hj
      simp [List.getElem?_append_right]
    · intro j _ hj
      rw [Nat.zero_add]
      exact mem_outerOpenings_right hA

/-! ## Towers -/

/-- A node with the events `A` in it, and perhaps a link to the node around it. -/
def nodeRow (kind : NodeKind) (link : Option Nat) (A : List Event) : List Event :=
  .opening kind link :: (A ++ [.closing])

@[simp] lemma length_nodeRow (kind : NodeKind) (link : Option Nat) (A : List Event) :
    (nodeRow kind link A).length = A.length + 2 := by
  simp [nodeRow]

/-- A node with the events `A` in it, and further nodes around it, the innermost first: each of them
has a kind and the events that stand in it behind the node that it encloses. -/
def tower (kind : NodeKind) (A : List Event) : List (NodeKind × List Event) → List Event
  | [] => nodeRow kind none A
  | layer :: layers => nodeRow kind (some (A.length + 2)) A ++ tower layer.1 layer.2 layers

/-- Where the last node of a tower opens. -/
def towerPlace (A : List Event) : List (NodeKind × List Event) → Nat
  | [] => 0
  | layer :: layers => A.length + 2 + towerPlace layer.2 layers

/-- The kind of the last node of a tower. -/
def towerKind (kind : NodeKind) : List (NodeKind × List Event) → NodeKind
  | [] => kind
  | layer :: layers => towerKind layer.1 layers

lemma tower_eq_cons (kind : NodeKind) (A : List Event) (layers : List (NodeKind × List Event)) :
    ∃ link rest, tower kind A layers = .opening kind link :: rest := by
  cases layers with
  | nil => exact ⟨_, _, rfl⟩
  | cons layer layers => exact ⟨_, _, rfl⟩

lemma tower_getElem? (kind : NodeKind) (A : List Event) (layers : List (NodeKind × List Event)) :
    (tower kind A layers)[towerPlace A layers]? = some (.opening (towerKind kind layers) none) := by
  induction layers generalizing kind A with
  | nil => rfl
  | cons layer layers ih =>
      rw [tower, towerPlace, towerKind, List.getElem?_append_right (by simp),
        length_nodeRow, Nat.add_sub_cancel_left]
      exact ih layer.1 layer.2

/-- Putting one more node around a tower links the last node to it. -/
lemma tower_concat (kind : NodeKind) (A : List Event) (layers : List (NodeKind × List Event))
    (layer : NodeKind × List Event) :
    tower kind A (layers ++ [layer]) =
      (tower kind A layers).set (towerPlace A layers)
          (.opening (towerKind kind layers)
            (some ((tower kind A layers).length - towerPlace A layers))) ++
        nodeRow layer.1 none layer.2 := by
  induction layers generalizing kind A with
  | nil => simp [tower, towerPlace, towerKind, nodeRow]
  | cons first layers ih =>
      rw [List.cons_append, tower, ih, tower, towerPlace, towerKind, List.set_append_right _ _
        (by simp), length_nodeRow, Nat.add_sub_cancel_left, List.length_append,
        length_nodeRow, Nat.add_sub_add_left, List.append_assoc]

lemma towerPlace_concat (kind : NodeKind) (A : List Event) (layers : List (NodeKind × List Event))
    (layer : NodeKind × List Event) :
    towerPlace A (layers ++ [layer]) = (tower kind A layers).length := by
  induction layers generalizing kind A with
  | nil => simp [tower, towerPlace]
  | cons first layers ih =>
      rw [List.cons_append, towerPlace, ih first.1, tower, List.length_append, length_nodeRow]

lemma nodeRow_closed (kind : NodeKind) (hA : Closed A) : Closed (nodeRow kind none A) :=
  (closed_singleton (e := .opening kind none) (by simp)).append
    (hA.append (closed_singleton (e := .closing) (by simp)))

/-- A link to what follows a node leads to the first event behind it. -/
lemma closed_link (kind : NodeKind) (hA : Closed A) (hB : Closed B) (hne : B ≠ []) :
    Closed (nodeRow kind (some (A.length + 2)) A ++ B) := by
  have hrest := (hA.append (closed_singleton (e := .closing) (by simp))).append hB
  have hpos := List.length_pos_iff.2 hne
  intro i kind' n hi
  rw [nodeRow, List.cons_append] at hi ⊢
  cases i with
  | zero =>
      obtain ⟨-, hn⟩ : kind = kind' ∧ A.length + 2 = n := by simpa using hi
      simp only [List.length_cons, List.length_append, List.length_nil]
      omega
  | succ i =>
      have := hrest i kind' n (by simpa using hi)
      simp only [List.length_cons]
      omega

lemma tower_closed (kind : NodeKind) {layers : List (NodeKind × List Event)} (hA : Closed A)
    (hlayers : ∀ layer ∈ layers, Closed layer.2) : Closed (tower kind A layers) := by
  induction layers generalizing kind A with
  | nil => exact nodeRow_closed kind hA
  | cons layer layers ih =>
      obtain ⟨link, rest, htower⟩ := tower_eq_cons layer.1 layer.2 layers
      exact closed_link kind hA
        (ih layer.1 (hlayers layer (by simp)) fun l hl => hlayers l (by simp [hl]))
        (by simp [htower])

/-! ## The steps of a tower -/

/-- The steps of a row behind its first event. -/
def stepsBehind (A : List Event) : List Step :=
  stepsFrom A.toArray (outerOpenings A) 1 A.tail

lemma succ_mem_outerOpenings {e : Event} {j : Nat} :
    j + 1 ∈ outerOpenings (e :: A) ↔
      (∃ kind, e = .opening kind (some (j + 1))) ∨ j ∈ outerOpenings A := by
  simp only [mem_outerOpenings]
  constructor
  · rintro ⟨i, kind, n, hi, hj⟩
    cases i with
    | zero => exact Or.inl ⟨kind, by simpa [← hj] using hi⟩
    | succ i => exact Or.inr ⟨i, kind, n, by simpa using hi, by omega⟩
  · rintro (⟨kind, rfl⟩ | ⟨i, kind, n, hi, rfl⟩)
    · exact ⟨0, kind, j + 1, rfl, by omega⟩
    · exact ⟨i + 1, kind, n, by simpa using hi, by omega⟩

/-- Nothing names the first event of a closed row. -/
lemma zero_not_mem_outerOpenings (hA : Closed A) : 0 ∉ outerOpenings A := by
  rw [mem_outerOpenings]
  rintro ⟨i, kind, n, hi, hn⟩
  have := hA i kind n hi
  omega

/-- A closed row that begins with an opening first opens the nodes of its chain. -/
lemma steps_eq_chain {kind : NodeKind} {link : Option Nat} {rest : List Event}
    (hA : Closed (.opening kind link :: rest)) :
    steps (.opening kind link :: rest).toArray =
      (chain (.opening kind link :: rest).toArray (rest.length + 1) 0).reverse.map .opening ++
        stepsBehind (.opening kind link :: rest) := by
  have hzero : (outerOpenings (.opening kind link :: rest)).contains 0 = false := by
    simpa using zero_not_mem_outerOpenings hA
  rw [steps_eq, stepsFrom_cons, stepsAt, hzero]
  rfl

lemma stepsBehind_nodeRow (kind : NodeKind) (hA : Closed A) :
    stepsBehind (nodeRow kind none A) = steps A.toArray ++ [.closing] := by
  have hclosing : Closed [Event.closing] := closed_singleton (by simp)
  have hshift := stepsFrom_shift (nodeRow kind none A).toArray (outerOpenings (nodeRow kind none A))
    1 [] (hA.append hclosing) rfl
    (fun j _ => by simp [nodeRow, Nat.add_comm 1 j])
    (fun j _ _ => by
      rw [Nat.add_comm 1 j, nodeRow, succ_mem_outerOpenings]
      simp)
  exact hshift.trans (steps_append hA hclosing)

/-- The steps of a node open it, carry out what is inside, and close it. -/
lemma steps_nodeRow (kind : NodeKind) (hA : Closed A) :
    steps (nodeRow kind none A).toArray = .opening kind :: (steps A.toArray ++ [.closing]) := by
  rw [← stepsBehind_nodeRow kind hA]
  refine (steps_eq_chain (nodeRow_closed kind hA)).trans ?_
  simp [chain, nodeRow]

/-- The opening behind a link adds no step of its own. -/
lemma stepsBehind_link (kind : NodeKind) (hA : Closed A) {first : NodeKind} {link : Option Nat}
    {rest : List Event} (hB : Closed (.opening first link :: rest)) :
    stepsBehind (nodeRow kind (some (A.length + 2)) A ++ .opening first link :: rest) =
      steps A.toArray ++ .closing :: stepsBehind (.opening first link :: rest) := by
  have hclosing : Closed [Event.closing] := closed_singleton (by simp)
  have hA' := hA.append hclosing
  set B := Event.opening first link :: rest with hBdef
  set W := nodeRow kind (some (A.length + 2)) A ++ B with hW
  have hWcons : W = .opening kind (some (A.length + 2)) :: ((A ++ [.closing]) ++ B) := by
    simp [hW, nodeRow]
  have hlen : (A ++ [Event.closing]).length = A.length + 1 := by simp
  -- An index behind the first one is named by the link or inside of its part.
  have hmem : ∀ j, j + 1 ∈ outerOpenings W ↔
      j = A.length + 1 ∨ j ∈ outerOpenings ((A ++ [.closing]) ++ B) := by
    intro j
    rw [hWcons, succ_mem_outerOpenings]
    simp [eq_comm]
  have hleft : stepsFrom W.toArray (outerOpenings W) 1 (A ++ [.closing]) =
      steps A.toArray ++ [.closing] := by
    refine (stepsFrom_shift _ _ 1 [] hA' rfl ?_ ?_).trans (steps_append hA hclosing)
    · intro j hj
      rw [Nat.add_comm 1 j, hWcons, List.getElem?_toArray, List.getElem?_cons_succ,
        List.getElem?_append_left hj]
    · intro j _ hj
      rw [Nat.add_comm 1 j, hmem, mem_outerOpenings_left hj]
      constructor
      · rintro (rfl | h)
        · omega
        · exact h
      · exact Or.inr
  have hright : stepsFrom W.toArray (outerOpenings W) (A.length + 2 + 1) rest = stepsBehind B := by
    refine stepsFrom_shift _ _ (A.length + 2) [.opening first link] hB rfl ?_ ?_
    · intro j hj
      rw [hW]
      simp [List.getElem?_append_right]
    · intro j hpos hj
      have hsucc : A.length + 2 + j = (A.length + 1 + j) + 1 := by omega
      rw [hsucc, hmem, ← hlen, mem_outerOpenings_right hA']
      constructor
      · rintro (h | h)
        · simp at hpos
          omega
        · exact h
      · exact Or.inr
  have hnamed : (outerOpenings W).contains (A.length + 2) = true := by
    simpa using (hmem (A.length + 1)).2 (Or.inl rfl)
  have htail : W.tail = (A ++ [.closing]) ++ B := by rw [hWcons]; rfl
  rw [stepsBehind, htail, stepsFrom_append, hleft, hlen, hBdef, stepsFrom_cons,
    Nat.add_comm 1 (A.length + 1), stepsAt, if_pos hnamed, List.nil_append, hright, ← hBdef,
    List.append_assoc, List.singleton_append]

/-- The kinds of the nodes of a tower, the innermost first. -/
def towerKinds (kind : NodeKind) (layers : List (NodeKind × List Event)) : List NodeKind :=
  kind :: layers.map Prod.fst

/-- The steps of a tower behind the openings of its nodes. -/
def towerSteps (A : List Event) (layers : List (NodeKind × List Event)) : List Step :=
  steps A.toArray ++ .closing :: layers.flatMap fun layer => steps layer.2.toArray ++ [.closing]

lemma stepsBehind_tower (kind : NodeKind) {layers : List (NodeKind × List Event)} (hA : Closed A)
    (hlayers : ∀ layer ∈ layers, Closed layer.2) :
    stepsBehind (tower kind A layers) = towerSteps A layers := by
  induction layers generalizing kind A with
  | nil => exact stepsBehind_nodeRow kind hA
  | cons layer layers ih =>
      have hlayer := hlayers layer (by simp)
      have hrest : ∀ l ∈ layers, Closed l.2 := fun l hl => hlayers l (by simp [hl])
      obtain ⟨link, rest, htower⟩ := tower_eq_cons layer.1 layer.2 layers
      have hclosed := tower_closed layer.1 hlayer hrest
      rw [htower] at hclosed
      rw [tower, htower, stepsBehind_link kind hA hclosed, ← htower, ih layer.1 hlayer hrest]
      simp [towerSteps]

/-- The chain of openings at the start of a tower. -/
lemma chain_tower (kind : NodeKind) {layers : List (NodeKind × List Event)} (hA : Closed A)
    (hlayers : ∀ layer ∈ layers, Closed layer.2) (fuel : Nat)
    (hfuel : (tower kind A layers).length ≤ fuel) :
    chain (tower kind A layers).toArray fuel 0 = towerKinds kind layers := by
  induction layers generalizing kind A fuel with
  | nil =>
      cases fuel with
      | zero => simp [tower] at hfuel
      | succ fuel => simp [tower, nodeRow, chain, towerKinds]
  | cons layer layers ih =>
      have hlayer := hlayers layer (by simp)
      have hrest : ∀ l ∈ layers, Closed l.2 := fun l hl => hlayers l (by simp [hl])
      have hclosed := tower_closed layer.1 hlayer hrest
      obtain ⟨link, rest, htower⟩ := tower_eq_cons layer.1 layer.2 layers
      cases fuel with
      | zero => simp [tower] at hfuel
      | succ fuel =>
          have hget : (tower kind A (layer :: layers)).toArray[0]? =
              some (.opening kind (some (A.length + 2))) := rfl
          have hwhole : ∀ j < (tower layer.1 layer.2 layers).length,
              (tower kind A (layer :: layers)).toArray[A.length + 2 + j]? =
                (tower layer.1 layer.2 layers)[j]? := by
            intro j _
            simp [tower, List.getElem?_append_right]
          rw [tower, List.length_append, length_nodeRow] at hfuel
          rw [chain, hget]
          dsimp only
          rw [Nat.zero_add, chain_shift hclosed hwhole fuel 0 (by simp [htower]),
            ih layer.1 hlayer hrest fuel (by omega)]
          rfl

/-- Nodes around something balanced, each with something balanced behind what it encloses. -/
lemma balanced_layers {layers : List (NodeKind × List Event)}
    (hlayers : ∀ layer ∈ layers, Balanced (steps layer.2.toArray)) {inner : List Step}
    (hinner : Balanced inner) :
    Balanced ((layers.map Prod.fst).reverse.map .opening ++ (inner ++
      layers.flatMap fun layer => steps layer.2.toArray ++ [.closing])) := by
  induction layers generalizing inner with
  | nil => simpa using hinner
  | cons layer layers ih =>
      have hnode := Balanced.node layer.1 (hinner.append (hlayers layer (by simp))) .nil
      have hrest := ih (fun l hl => hlayers l (by simp [hl])) hnode
      simpa using hrest

/-! ## Rows that record something -/

/-- The rows of events that reading adds: tokens, faults, places of nodes that were given up, and
nodes, each perhaps with further nodes put around it. -/
inductive Records : List Event → Prop
  | nil : Records []
  | token : Records [.token]
  | fault (f : Fault) : Records [.fault f]
  | vacant : Records [.vacant]
  | append {A B : List Event} : Records A → Records B → Records (A ++ B)
  | tower (kind : NodeKind) {A : List Event} {layers : List (NodeKind × List Event)} : Records A →
      (∀ layer ∈ layers, Records layer.2) → Records (tower kind A layers)

namespace Records

/-- A node without others around it. -/
lemma node (kind : NodeKind) (h : Records A) : Records (nodeRow kind none A) := by
  have hlayers : ∀ layer ∈ ([] : List (NodeKind × List Event)), Records layer.2 :=
    List.forall_mem_nil _
  exact .tower kind h hlayers

lemma closed (h : Records A) : Closed A := by
  induction h with
  | nil => exact closed_nil
  | token => exact closed_singleton (by simp)
  | fault f => exact closed_singleton (by simp)
  | vacant => exact closed_singleton (by simp)
  | append _ _ hA hB => exact hA.append hB
  | tower kind _ _ hA hlayers => exact tower_closed kind hA hlayers

/-- What is recorded is balanced. -/
theorem balanced (h : Records A) : Balanced (steps A.toArray) := by
  induction h with
  | nil => exact .nil
  | token => exact .token .nil
  | fault f => exact .fault f .nil
  | vacant => exact .nil
  | append hA hB ihA ihB =>
      rw [steps_append hA.closed hB.closed]
      exact ihA.append ihB
  | @tower kind A layers hA hlayers ihA ihlayers =>
      have hclosedLayers : ∀ layer ∈ layers, Closed layer.2 := fun l hl => (hlayers l hl).closed
      have hclosed := tower_closed kind hA.closed hclosedLayers
      have hbehind := stepsBehind_tower kind hA.closed hclosedLayers
      have hchain := chain_tower kind hA.closed hclosedLayers _ (le_refl _)
      obtain ⟨link, rest, htower⟩ := tower_eq_cons kind A layers
      rw [htower] at hclosed hbehind hchain ⊢
      rw [steps_eq_chain hclosed, hbehind, ← List.length_cons, hchain, towerKinds, towerSteps]
      have hnode := Balanced.node kind ihA .nil
      have hlayered := balanced_layers ihlayers hnode
      simpa using hlayered

end Records

end Event

end StyleSheet
