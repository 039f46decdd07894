import StyleSheet.Text
import StyleSheet.Numeral.Binary64

/-!
# Numerals

A numeral is an optional sign, digits with an optional fraction, and an optional exponent. A part
that is not complete is not read: the fraction of `1.` and the exponent of `1e+` stay in the rest.
The lexer reads its numbers with the same measures, so that both agree on where a number ends.
-/

namespace StyleSheet

/-- The exact value of a numeral: `mantissa * 10 ^ exponent`, with a sign. -/
structure Numeral where
  /-- Whether the numeral has a minus sign. -/
  negative : Bool
  /-- The digits before and after the point, as one number. -/
  mantissa : Nat
  /-- The power of ten of the last digit. -/
  exponent : Int
deriving DecidableEq, Repr

namespace Numeral

/-! ## How far a numeral reaches -/

/-- The number of digits at the start of a text. -/
def digitsLength (t : Text) : Nat := (t.takeWhile Byte.isDigit).length

/-- The length of a sign at the start of a text. -/
def signLength : Text → Nat
  | [] => 0
  | b :: _ => if b == byte '+' || b == byte '-' then 1 else 0

/-- The length of a point and its digits at the start of a text; a point alone does not count. -/
def fractionLength : Text → Nat
  | [] => 0
  | b :: rest =>
    if b == byte '.' then
      match digitsLength rest with
      | 0 => 0
      | n + 1 => n + 2
    else 0

/-- The length of digits with an optional fraction, or of a fraction, at the start of a text. -/
def unsignedLength (t : Text) : Nat :=
  let n := digitsLength t
  n + fractionLength (t.drop n)

/-- The length of an exponent at the start of a text; one without digits does not count. -/
def exponentLength : Text → Nat
  | [] => 0
  | b :: rest =>
    if b == byte 'e' || b == byte 'E' then
      let sign := signLength rest
      match digitsLength (rest.drop sign) with
      | 0 => 0
      | n + 1 => n + 2 + sign
    else 0

/-- The length of a number without sign at the start of a text, zero if there is none. -/
def numberLength (t : Text) : Nat :=
  match unsignedLength t with
  | 0 => 0
  | n + 1 => n + 1 + exponentLength (t.drop (n + 1))

/-- The length of the numeral at the start of a text, zero if there is none. -/
def length (t : Text) : Nat :=
  let sign := signLength t
  match numberLength (t.drop sign) with
  | 0 => 0
  | n + 1 => n + 1 + sign

/-! ## Its value -/

/-- The number that a run of digits denotes. -/
def digitsValue (t : Text) : Nat := t.foldl (fun n b => 10 * n + (b - byte '0').toNat) 0

/-- The value of a number without sign. -/
def ofNumber (negative : Bool) (t : Text) : Numeral :=
  let whole := t.takeWhile Byte.isDigit
  let rest := t.drop whole.length
  let fraction := (rest.take (fractionLength rest)).drop 1
  let tail := rest.drop (fractionLength rest)
  let power := tail.drop 1
  let digits := digitsValue (power.drop (signLength power))
  let exponent : Int := if power.head? == some (byte '-') then -(digits : Int) else digits
  { negative
    mantissa := digitsValue (whole ++ fraction)
    exponent := exponent - fraction.length }

/-- The value of a text that is a numeral as a whole. -/
def ofText (t : Text) : Numeral :=
  ofNumber (t.head? == some (byte '-')) (t.drop (signLength t))

/-- Splits a text into the longest numeral at its start and what follows. -/
def split? (t : Text) : Option (Numeral × Text) :=
  match length t with
  | 0 => none
  | n + 1 => some (ofText (t.take (n + 1)), t.drop (n + 1))

/-- The bits of the nearest double. -/
def bits (n : Numeral) : Nat :=
  Binary64.ofDecimal n.mantissa n.exponent + if n.negative then Binary64.signBit else 0

end Numeral

end StyleSheet
