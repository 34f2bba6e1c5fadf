/-!
# Double-precision numbers

A finite number is kept exactly, as `± mantissa · 2 ^ exponent`.  The mantissa
is below `2 ^ 53` and the exponent at least `-1074`, and of the ways to write a
number the one with the least exponent is taken, so that equal numbers of one
sign are equal values.  A quotient of natural numbers is rounded to the nearest
number; a tie goes to the even mantissa.

What is not a number is equal to nothing, not even to itself.  It has an origin,
which tells apart those that were made at different places; zero is the origin
of the constant.
-/

namespace Ambient

inductive Double where
  | nan (origin : Nat)
  | infinity (negative : Bool)
  | finite (negative : Bool) (mantissa : Nat) (exponent : Int)
deriving DecidableEq, Repr

namespace Double

def leastExponent : Int := -1074

def greatestExponent : Int := 971

def zero (negative : Bool) : Double := finite negative 0 leastExponent

/-- `num / den / 2 ^ exponent` rounded to a natural number, a tie to the even
one. -/
def roundScaled (num den : Nat) (exponent : Int) : Nat :=
  let num := num * Nat.pow 2 (-exponent).toNat
  let den := den * Nat.pow 2 exponent.toNat
  let quotient := num / den
  let twice := 2 * (num % den)
  if twice < den then quotient
  else if den < twice then quotient + 1
  else quotient + quotient % 2

/-- The exponent at which `num / den` has a mantissa of 53 bits, and at least
the least exponent. -/
def exponentOf (num den : Nat) : Int :=
  let guess : Int := (num.log2 : Int) - (den.log2 : Int) - 52
  let small :=
    num * Nat.pow 2 (-guess).toNat < den * Nat.pow 2 guess.toNat * Nat.pow 2 52
  max leastExponent (if small then guess - 1 else guess)

def ofRatio (negative : Bool) (num den : Nat) : Double :=
  if num = 0 then zero negative
  else
    let exponent := exponentOf num den
    let mantissa := roundScaled num den exponent
    let (mantissa, exponent) :=
      if mantissa = Nat.pow 2 53 then (Nat.pow 2 52, exponent + 1)
      else (mantissa, exponent)
    if greatestExponent < exponent then infinity negative
    else if mantissa = 0 then zero negative
    else finite negative mantissa exponent

/-- The number nearest to `± digits · 10 ^ exponent`.  Exponents far outside the
range of the format give infinity or zero at once. -/
def ofDecimal (negative : Bool) (digits : Nat) (exponent : Int) : Double :=
  let magnitude : Int := (digits.log2 : Int) + exponent * 3
  if digits = 0 then zero negative
  else if 0 < exponent && 1100 < magnitude then infinity negative
  else if exponent < 0 && (digits.log2 : Int) + exponent * 3 < -4000 then
    zero negative
  else if 0 ≤ exponent then
    ofRatio negative (digits * Nat.pow 10 exponent.toNat) 1
  else ofRatio negative digits (Nat.pow 10 (-exponent).toNat)

def isNegative : Double -> Bool
  | nan _ => false
  | infinity negative => negative
  | finite negative _ _ => negative

def isZero : Double -> Bool
  | finite _ mantissa _ => mantissa == 0
  | _ => false

def neg : Double -> Double
  | nan origin => nan origin
  | infinity negative => infinity (!negative)
  | finite negative mantissa exponent => finite (!negative) mantissa exponent

def integer? : Double -> Option Int
  | finite negative mantissa exponent =>
      let magnitude? :=
        if 0 ≤ exponent then some (mantissa * Nat.pow 2 exponent.toNat)
        else if mantissa % Nat.pow 2 (-exponent).toNat = 0 then
          some (mantissa / Nat.pow 2 (-exponent).toNat)
        else none
      magnitude?.map fun magnitude =>
        if negative then -(magnitude : Int) else (magnitude : Int)
  | _ => none

def signed (negative : Bool) (magnitude : Nat) : Int :=
  if negative then -(magnitude : Int) else (magnitude : Int)

def sameNumber : Double -> Double -> Bool
  | infinity s, infinity t => s == t
  | finite s m e, finite t n f =>
      let least := min e f
      signed s (m * Nat.pow 2 (e - least).toNat) ==
        signed t (n * Nat.pow 2 (f - least).toNat)
  | _, _ => false

/-- Equality of numbers as keys, where what is not a number is one key for each
origin. -/
def sameKey (x y : Double) : Bool := x.sameNumber y || x == y

def add : Double -> Double -> Double
  | nan origin, _ => nan origin
  | _, nan origin => nan origin
  | infinity s, infinity t => if s == t then infinity s else nan 0
  | infinity s, finite _ _ _ => infinity s
  | finite _ _ _, infinity t => infinity t
  | finite s m e, finite t n f =>
      let least := min e f
      let total :=
        signed s (m * Nat.pow 2 (e - least).toNat) +
          signed t (n * Nat.pow 2 (f - least).toNat)
      if total = 0 then zero (s && t)
      else ofRatio (total < 0) (total.natAbs * Nat.pow 2 least.toNat)
        (Nat.pow 2 (-least).toNat)

def mul : Double -> Double -> Double
  | nan origin, _ => nan origin
  | _, nan origin => nan origin
  | finite s m e, finite t n f =>
      ofRatio (s != t) (m * n * Nat.pow 2 (e + f).toNat)
        (Nat.pow 2 (-(e + f)).toNat)
  | x, y =>
      if x.isZero || y.isZero then nan 0
      else infinity (x.isNegative != y.isNegative)

def ofNat? (n : Nat) : Option Double :=
  match ofRatio false n 1 with
  | infinity _ => none
  | x => some x

end Double
end Ambient
