/-!
# The nearest double

`Binary64.ofDecimal` gives the bits of the double-precision number nearest to
`mantissa * 10 ^ exponent`. Everything is computed on natural numbers: the value is a fraction, its
leading bit fixes the weight of the last place, and one rounded division gives the significand. A
tie goes to the even neighbour, a value too large becomes infinity and one too small becomes zero.
-/

namespace StyleSheet.Binary64

/-- The quotient rounded to the nearest natural number, a half to the even neighbour. -/
def roundDiv (n d : Nat) : Nat :=
  let q := n / d
  let r := n % d
  if d < 2 * r || (2 * r == d && q % 2 == 1) then q + 1 else q

/-- The power of two with the given exponent. -/
def twoTo (k : Nat) : Nat := Nat.pow 2 k

/-- The bits of positive infinity. -/
def infinity : Nat := 0x7FF0000000000000

/-- The bit that marks a negative number. -/
def signBit : Nat := 0x8000000000000000

/-- The place of the leading bit of `n / d`, for positive `n` and `d`. -/
def leadingBit (n d : Nat) : Int :=
  let k : Int := (n.log2 : Int) - (d.log2 : Int)
  let fits := if 0 ≤ k then d * twoTo k.toNat ≤ n else d ≤ n * twoTo (-k).toNat
  if fits then k else k - 1

/-- The bits of the nearest double of the fraction `n / d`, for positive `n` and `d`. With the
weight `2 ^ q` of the last place and the rounded significand `m`, which holds its leading bit, the
bits are `(q + 1074) * 2 ^ 52 + m`, also when `m` has carried into the next place. -/
def ofFraction (n d : Nat) : Nat :=
  let q : Int := max (leadingBit n d - 52) (-1074)
  let m := if 0 ≤ q then roundDiv n (d * twoTo q.toNat) else roundDiv (n * twoTo (-q).toNat) d
  min ((q + 1074).toNat * twoTo 52 + m) infinity

/-- The number of decimal digits of a natural number. -/
def digitCount (n : Nat) : Nat := (Nat.toDigits 10 n).length

/-- The bits of the nearest double of `mantissa * 10 ^ exponent`. Exponents far outside of the range
of doubles are decided from the number of digits alone. -/
def ofDecimal (mantissa : Nat) (exponent : Int) : Nat :=
  if mantissa == 0 then 0
  else
    let magnitude := exponent + digitCount mantissa
    if 400 < magnitude then infinity
    else if magnitude < -400 then 0
    else if 0 ≤ exponent then ofFraction (mantissa * Nat.pow 10 exponent.toNat) 1
    else ofFraction mantissa (Nat.pow 10 (-exponent).toNat)

end StyleSheet.Binary64
