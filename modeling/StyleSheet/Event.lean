import StyleSheet.Fault
import StyleSheet.Kind

/-!
# Events

Reading a source does not build a tree directly. It leaves a row of events: a node opens, a token is
taken, a node closes, a fault is found. A node that is put around one that has already been closed
opens later in the row than the node it encloses; the opening event of the inner node then says how
far ahead that of the outer one stands.

`Event.steps` brings the openings into their order in the tree.
-/

namespace StyleSheet

/-- One event of reading a source. -/
inductive Event where
  /-- A node opens. If `outer` is `some n`, the node is enclosed by the one whose opening stands `n`
  events further on. -/
  | opening (kind : NodeKind) (outer : Option Nat)
  /-- The next significant token is taken. -/
  | token
  /-- The innermost open node closes. -/
  | closing
  /-- Something was expected that is not there. -/
  | fault (fault : Fault)
  /-- The place of an opening whose kind is not known yet, or of one that was given up. -/
  | vacant
deriving DecidableEq, Repr, Inhabited

/-- One step of building a tree: an event whose place in the row is its place in the tree. -/
inductive Step where
  /-- Opens a node. -/
  | opening (kind : NodeKind)
  /-- Takes the next significant token. -/
  | token
  /-- Closes the innermost open node. -/
  | closing
  /-- Records a fault. -/
  | fault (fault : Fault)
deriving DecidableEq, Repr

namespace Event

/-- The kinds of the node that opens at index `i` and of the nodes put around it, innermost first.
The chain of openings goes forward, so `fuel` need not exceed the number of events. -/
def chain (events : Array Event) : Nat → Nat → List NodeKind
  | 0, _ => []
  | fuel + 1, i =>
    match events[i]? with
    | some (.opening kind outer) =>
      kind :: match outer with
        | some n => chain events fuel (i + n)
        | none => []
    | _ => []

/-- The indices of the openings that another one names as its outer node. -/
def outerOpenings (events : List Event) : List Nat :=
  events.zipIdx.filterMap fun (e, i) =>
    match e with
    | .opening _ (some n) => some (i + n)
    | _ => none

/-- The steps that the event at index `i` stands for: an opening that no other one has named opens
its whole chain, the outermost node first. -/
def stepsAt (events : Array Event) (named : List Nat) (i : Nat) : Event → List Step
  | .opening .. =>
    if named.contains i then [] else (chain events events.size i).reverse.map .opening
  | .token => [.token]
  | .closing => [.closing]
  | .fault f => [.fault f]
  | .vacant => []

/-- The events as steps of building a tree. -/
def steps (events : Array Event) : List Step :=
  let named := outerOpenings events.toList
  events.toList.zipIdx.flatMap fun (e, i) => stepsAt events named i e

end Event

end StyleSheet
