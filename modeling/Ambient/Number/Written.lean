import Ambient.Number.Shortest

/-!
# Written numbers

The shortest digits of a number are written positionally, with at least one
digit after the point, when the exponent of the leading digit is between -4 and
15; otherwise with that exponent, which has a sign and at least two digits.
-/

namespace Ambient

/-- How numbers are laid out: the exponents written positionally, and the texts
of the numbers that are not finite. -/
structure NumberFormat where
  leastPositional : Int
  greatestPositional : Int
  exponentWidth : Nat
  nan : String
  infinity : String

namespace NumberFormat

def plain : NumberFormat := ⟨-4, 15, 2, "nan", "inf"⟩

def json : NumberFormat := ⟨-4, 15, 2, "NaN", "Infinity"⟩

end NumberFormat

namespace Decimal

def zeros (n : Nat) : List Char := List.replicate n '0'

def digitsOf (n : Nat) : List Char := Nat.toDigits 10 n

def paddedDigits (width n : Nat) : List Char :=
  let ds := digitsOf n
  zeros (width - ds.length) ++ ds

def write (format : NumberFormat) (d : Decimal) : List Char :=
  let ds := digitsOf d.digits
  let leading : Int := d.exponent + (ds.length : Int) - 1
  if leading < format.leastPositional ∨ format.greatestPositional < leading then
    let fraction := ds.drop 1
    let sign := if leading < 0 then '-' else '+'
    ds.take 1 ++ (if fraction.isEmpty then [] else '.' :: fraction) ++
      ['e', sign] ++ paddedDigits format.exponentWidth leading.natAbs
  else if leading < 0 then
    ['0', '.'] ++ zeros (leading.natAbs - 1) ++ ds
  else
    let whole := leading.toNat + 1
    let ds := ds ++ zeros (whole - ds.length)
    let fraction := ds.drop whole
    ds.take whole ++ '.' :: (if fraction.isEmpty then ['0'] else fraction)

end Decimal

namespace Double

def write (format : NumberFormat) : Double -> String
  | nan _ => format.nan
  | infinity negative => (if negative then "-" else "") ++ format.infinity
  | finite negative mantissa exponent =>
      (if negative then "-" else "") ++
        String.ofList
          (Decimal.write format (Decimal.shortest mantissa exponent))

end Double
end Ambient
