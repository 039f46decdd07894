import StyleSheet.Event
import StyleSheet.Token.Stream

/-!
# The state of reading

A `Parser` holds the tokens of a source, the place reached among the significant ones, and the
events so far. Its operations are all that the grammar can do: take a token, record a fault, open,
close or give up a node, put a node around a closed one, cut a range of code points into smaller
tokens, and go back to an earlier snapshot.

Going back undoes the cuts made since the snapshot, the latest one first, because each of them was
recorded in the positions of its moment.
-/

namespace StyleSheet

/-- A run of tokens that was replaced, kept so that it can be put back. -/
structure Cut where
  /-- Where the run stood among the significant tokens. -/
  cursor : Nat
  /-- Where the run stood among all tokens. -/
  first : Nat
  /-- How many tokens took its place. -/
  inserted : Nat
  /-- The run itself. -/
  removed : List Token
deriving DecidableEq, Repr

/-- A state to which the parser can go back, as the sizes of what grows. -/
structure Snapshot where
  /-- The number of events. -/
  events : Nat
  /-- The number of significant tokens taken. -/
  cursor : Nat
  /-- The number of faults. -/
  faults : Nat
  /-- The number of replaced runs. -/
  cuts : Nat
deriving DecidableEq, Repr

/-- The state of reading a source. -/
structure Parser where
  /-- The dialect of the source. -/
  dialect : Dialect
  /-- All tokens, white space and comments included. -/
  tokens : Array Token
  /-- The significant tokens and the place reached. -/
  stream : Token.Stream
  /-- The events so far. -/
  events : Array Event
  /-- How many faults have been recorded. -/
  faults : Nat
  /-- The replaced runs, the latest one first. -/
  cuts : List Cut
deriving DecidableEq, Repr

namespace Parser

/-- The state before the first token of a source. -/
def ofSource (d : Dialect) (source : Text) : Parser :=
  let tokens := Token.read d source
  { dialect := d
    tokens := tokens.toArray
    stream := Token.Stream.ofTokens tokens source.length
    events := #[]
    faults := 0
    cuts := [] }

/-! ## Tokens and faults -/

/-- Takes the next significant token, if there is one. -/
def take (p : Parser) : Parser :=
  if p.stream.isExhausted then p
  else { p with events := p.events.push .token, stream := p.stream.advance }

/-- Records a fault. -/
def report (p : Parser) (fault : Fault) : Parser :=
  { p with events := p.events.push (.fault fault), faults := p.faults + 1 }

/-! ## Nodes -/

/-- Opens a node, whose kind is given when it is closed. Its place is the number of events
before. -/
def openNode (p : Parser) : Parser := { p with events := p.events.push .vacant }

/-- Closes the node opened at `place`. -/
def closeNode (p : Parser) (place : Nat) (kind : NodeKind) : Parser :=
  { p with events := (p.events.setIfInBounds place (.opening kind none)).push .closing }

/-- Gives up the node opened at `place`. Nothing is left of it if nothing came after it. -/
def dropNode (p : Parser) (place : Nat) : Parser :=
  if place + 1 = p.events.size then { p with events := p.events.pop } else p

/-- Opens a node around the closed node that was opened at `place`. -/
def openAround (p : Parser) (place : Nat) : Parser :=
  let distance := p.events.size - place
  let events := match p.events[place]? with
    | some (.opening kind _) => p.events.setIfInBounds place (.opening kind (some distance))
    | _ => p.events
  { p with events := events.push .vacant }

/-! ## Going back -/

/-- The present state, to go back to. -/
def snapshot (p : Parser) : Snapshot :=
  ⟨p.events.size, p.stream.cursor, p.faults, p.cuts.length⟩

/-- Puts a replaced run back. -/
def undoCut (p : Parser) (s : Cut) : Parser :=
  { p with
    tokens := splice p.tokens s.first s.inserted s.removed
    stream := { p.stream with tokens := splice p.stream.tokens s.cursor s.inserted s.removed }
    cuts := p.cuts.drop 1 }

/-- Goes back to a snapshot: events are dropped and replaced runs are put back, the latest first. -/
def restore (p : Parser) (c : Snapshot) : Parser :=
  let p := (p.cuts.take (p.cuts.length - c.cuts)).foldl undoCut p
  { p with
    events := p.events.take c.events
    stream := { p.stream with cursor := min c.cursor p.stream.tokens.size }
    faults := c.faults }

/-- Whether a fault has been recorded since a snapshot. -/
def hasFaultSince (p : Parser) (c : Snapshot) : Bool := c.faults < p.faults

/-! ## Cutting a range of code points

`u+a` may be a range of code points or two selectors. The lexer reads the range; where only
selectors can stand, the range is cut into `u`, `+` and whatever the rest reads as. -/

/-- Whether a token that directly follows a range is read again together with it. -/
def gluesToRange : TokenKind → Bool
  | .ident | .number | .dimension | .minus => true
  | _ => false

/-- The tokens at the start of a list that are glued to a range ending at `stop`. -/
def gluedTo (stop : Nat) : List Token → List Token
  | [] => []
  | t :: rest =>
    if gluesToRange t.kind && t.start ≤ stop then t :: gluedTo t.stop rest else []

/-- The text of a run of adjacent tokens, empty if one of them ends inside a character. -/
def runText (run : List Token) : Text :=
  if run.all Token.isWhole then run.flatMap Token.text else []

/-- What a range of code points is cut into, together with the tokens glued to it: its first byte as
an identifier, its second one as a plus sign, and the tokens of the rest. -/
def rangePieces (d : Dialect) (range : Token) (glued : List Token) : List Token :=
  ⟨.ident, range.start, range.start + 1, range.text.take 1⟩ ::
    ⟨.plus, range.start + 1, range.start + 2, (range.text.drop 1).take 1⟩ ::
    Token.readFrom d (range.start + 2) ((runText (range :: glued)).drop 2)

/-- Cuts the range of code points at the cursor, if there is one, together with what is glued to
it. -/
def cutRange (p : Parser) : Parser :=
  match p.stream.peek? 0 with
  | none => p
  | some range =>
    if range.kind = .unicodeRange then
      let glued := gluedTo range.stop (p.stream.tokens.toList.drop (p.stream.cursor + 1))
      let stop := (glued.getLast?.map Token.stop).getD range.stop
      let parts := rangePieces p.dialect range glued
      let first := (p.tokens.takeWhile fun t => t.start < range.start).size
      let last := (p.tokens.takeWhile fun t => t.start < stop).size
      { p with
        tokens := splice p.tokens first (last - first) parts
        stream :=
          { p.stream with
            tokens := splice p.stream.tokens p.stream.cursor (glued.length + 1) parts }
        cuts := ⟨p.stream.cursor, first, parts.length, range :: glued⟩ :: p.cuts }
    else p

end Parser

end StyleSheet
