import StyleSheet.Grammar.Nonterminal
import StyleSheet.Grammar.View

/-!
# Rules

A `Rule` is a small program that reads a part of a source. It either matches or does not, and on its
way it takes tokens, records faults and opens and closes nodes. A rule can look ahead, repeat, try
something and go back, and refer to other rules by their names. Rules are plain data, so that a fact
about all of them is an induction over these few forms.

`Rule.exec` carries a rule out. Rules refer to each other in circles and may repeat, so it is given
a bound: `call` carries out a name, and a repetition goes round at most `bound` times. The result is
`none` if a bound is too small, which is kept apart from a rule that does not match.
-/

namespace StyleSheet

/-- A rule of the grammar. -/
inductive Rule where
  /-- Does nothing, and matches or not. -/
  | done (matched : Bool)
  /-- Goes on with a rule chosen by what lies ahead. -/
  | look (next : View → Rule)
  /-- Takes the next token. -/
  | take
  /-- Records a fault; never matches. -/
  | report (fault : Fault)
  /-- Cuts a range of code points at the cursor. -/
  | cutRange
  /-- One rule, then another one chosen by whether the first one matched. -/
  | seq (first : Rule) (next : Bool → Rule)
  /-- Repeats a rule until it does not match. -/
  | many (body : Rule)
  /-- A node around what a rule reads. The node is given up if the rule does not match. -/
  | node (kind : NodeKind) (body : Rule)
  /-- What `first` reads, with further nodes around it: as long as `more` says so, given the number
  of nodes added, a node is put around all so far and `body` reads the rest of it. -/
  | wrap (kind : NodeKind) (first : Rule) (more : Nat → View → Bool) (body : Rule)
  /-- A rule that counts only if it matches without a fault; otherwise the parser goes back. -/
  | attempt (body : Rule)
  /-- The rule of a nonterminal. -/
  | call (name : Nonterminal)

namespace Rule

/-! ## Carrying out a rule -/

/-- Whether a rule matched, and the state after it. -/
structure Outcome where
  /-- Whether the rule matched. -/
  matched : Bool
  /-- The state after the rule. -/
  parser : Parser

/-- Carries out a rule until it does not match, at most `bound` times. -/
def repeatUntil (body : Parser → Option Outcome) : Nat → Parser → Option Outcome
  | 0, _ => none
  | bound + 1, p =>
    match body p with
    | none => none
    | some ⟨true, p⟩ => repeatUntil body bound p
    | some ⟨false, p⟩ => some ⟨true, p⟩

/-- Puts nodes around the node opened at `place`, as long as `more` says so, at most `bound`
times. -/
def wrapWhile (kind : NodeKind) (more : Nat → View → Bool) (body : Parser → Option Outcome) :
    Nat → Nat → Nat → Parser → Option Outcome
  | 0, _, _, _ => none
  | bound + 1, layers, place, p =>
    if more layers p.stream.view then
      let outer := p.events.size
      match body (p.openAround place) with
      | none => none
      | some ⟨_, p⟩ => wrapWhile kind more body bound (layers + 1) outer (p.closeNode outer kind)
    else some ⟨true, p⟩

/-- Carries out a rule. -/
def exec (call : Nonterminal → Parser → Option Outcome) (bound : Nat) :
    Rule → Parser → Option Outcome
  | done matched, p => some ⟨matched, p⟩
  | look next, p => exec call bound (next p.stream.view) p
  | take, p => some ⟨true, p.take⟩
  | report fault, p => some ⟨false, p.report fault⟩
  | cutRange, p => some ⟨true, p.cutRange⟩
  | seq first next, p =>
    match exec call bound first p with
    | none => none
    | some ⟨matched, p⟩ => exec call bound (next matched) p
  | many body, p => repeatUntil (exec call bound body) bound p
  | node kind body, p =>
    let place := p.events.size
    match exec call bound body p.openNode with
    | none => none
    | some ⟨true, p⟩ => some ⟨true, p.closeNode place kind⟩
    | some ⟨false, p⟩ => some ⟨false, p.dropNode place⟩
  | wrap kind first more body, p =>
    let place := p.events.size
    match exec call bound first p with
    | none => none
    | some ⟨false, p⟩ => some ⟨false, p⟩
    | some ⟨true, p⟩ => wrapWhile kind more (exec call bound body) bound 0 place p
  | attempt body, p =>
    let back := p.snapshot
    match exec call bound body p with
    | none => none
    | some ⟨matched, p⟩ =>
      if matched && !p.hasFaultSince back then some ⟨true, p⟩ else some ⟨false, p.restore back⟩
  | .call name, p => call name p

/-! ## Larger rules -/

/-- Matches without doing anything. -/
def accept : Rule := done true

/-- Does not match. -/
def fail : Rule := done false

/-- One rule, then another; the second one decides. -/
instance : AndThen Rule where
  andThen first next := seq first fun _ => next ()

/-- The second rule is tried if the first one does not match. -/
instance : OrOp Rule where
  or first second := seq first fun matched => if matched then accept else second

/-- The second rule follows if the first one matches. -/
instance : AndOp Rule where
  and first second := seq first fun matched => if matched then second else fail

/-- Matches if `c` holds of what lies ahead. -/
def test (c : View → Bool) : Rule := look fun v => done (c v)

/-- One of two rules, by what lies ahead. -/
def choose (c : View → Bool) (yes no : Rule) : Rule := look fun v => if c v then yes else no

/-- A rule that is carried out only if `c` holds of what lies ahead. -/
def when (c : View → Bool) (rule : Rule) : Rule := choose c rule fail

/-- A token of the given kind. -/
def token (kind : TokenKind) : Rule := when (·.is 0 kind) take

/-- The given word. -/
def word (w : String) : Rule := when (·.isWord 0 w) take

/-- A token of the given kind; its absence is a fault. -/
def expect (kind : TokenKind) (fault : Fault) : Rule := token kind ||| report fault

/-- A node around what a rule reads, whether it matches or not. -/
def group (kind : NodeKind) (body : Rule) : Rule := node kind (body >> accept)

/-- A node around one token. -/
def leaf (kind : NodeKind) : Rule := node kind take

/-- Further `item`s, each behind a comma; a comma without one is a fault and ends the list. -/
def moreAfterCommas (item : Rule) (missing : Fault) : Rule :=
  many (token .comma &&& (item ||| report missing))

/-- Skips tokens and whole groups until one of the given kinds, or as long as `c` does not hold. -/
def skipUntil (c : View → Bool) : Rule := many (choose c fail (call .balanced >> accept))

/-- Skips ahead to a place where reading can go on: behind a token of `consume`, or before one of
`stop`, a closing brace or the end. -/
def resume (consume stop : List TokenKind) : Rule :=
  skipUntil (fun v => v.isAny consume || v.isAny stop || v.isAny [.rightBrace, .endOfInput]) >>
    when (·.isAny consume) take

/-- A closing token; its absence is a fault, behind which reading goes on at that token or before
one of `stop`. -/
def close (kind : TokenKind) (fault : Fault) (stop : List TokenKind) : Rule :=
  token kind ||| (report fault >> resume [kind] stop)

end Rule

end StyleSheet
