import Ambient.Number.Double
import Ambient.Text.Blank
import Ambient.Text.Digit

/-!
# Numerals

Numbers as they may be written by hand: with blanks around them, a sign, and
digits of any script. An integer may start with the mark of its base.  A number
may have a point and an exponent, or be one of the words for infinity and for
what is not a number.  A decimal integer of too many digits is refused.
-/

namespace Ambient
namespace Numeral

def isPadding (c : Char) : Bool :=
  Text.isBlank c && !(0x1C ≤ c.toNat && c.toNat ≤ 0x1F)

def unpadded (cs : List Char) : List Char :=
  ((cs.dropWhile isPadding).reverse.dropWhile isPadding).reverse

def cutSign : List Char -> Bool × List Char
  | '-' :: cs => (true, cs)
  | '+' :: cs => (false, cs)
  | cs => (false, cs)

/-!
## Integers
-/

def digitLimit : Nat := 4300

def digitOf? (c : Char) : Option Nat :=
  let n := c.toNat
  if 0x61 ≤ n && n ≤ 0x7A then some (n - 0x57)
  else if 0x41 ≤ n && n ≤ 0x5A then some (n - 0x37)
  else Text.digitValue? c

def natural? (base : Nat) (cs : List Char) : Option Nat :=
  cs.foldlM
    (fun n c =>
      match digitOf? c with
      | some d => if d < base then some (n * base + d) else none
      | none => none)
    0

def baseLetter? (base : Nat) : Option Char :=
  if base = 2 then some 'b' else if base = 8 then some 'o'
  else if base = 16 then some 'x' else none

def dropBaseMark (base : Nat) : List Char -> List Char
  | '0' :: c :: cs =>
      if some c.toLower == baseLetter? base then cs else '0' :: c :: cs
  | cs => cs

def integer? (base : Nat) (cs : List Char) : Option Int :=
  let (negative, cs) := cutSign (unpadded cs)
  let ds := dropBaseMark base cs
  if ds.isEmpty || (base = 10 && digitLimit < ds.length) then none
  else (natural? base ds).map (Double.signed negative)

def isTooLong (n : Int) : Bool := Nat.pow 10 digitLimit ≤ n.natAbs

/-!
## Numbers
-/

def decimalValue (ds : List Char) : Nat :=
  ds.foldl (fun n c => n * 10 + (Text.digitValue? c).getD 0) 0

def exponent? : List Char -> Option Int
  | [] => some 0
  | e :: cs =>
      let (negative, ds) := cutSign cs
      if (e == 'e' || e == 'E') && !ds.isEmpty && ds.all Text.isDecimal then
        some (Double.signed negative (decimalValue ds))
      else none

def decimal? (negative : Bool) (cs : List Char) : Option Double :=
  let whole := cs.takeWhile Text.isDecimal
  let rest := cs.dropWhile Text.isDecimal
  let afterPoint := if rest.head? == some '.' then rest.drop 1 else []
  let fraction := afterPoint.takeWhile Text.isDecimal
  let rest :=
    if rest.head? == some '.' then afterPoint.dropWhile Text.isDecimal
    else rest
  if whole.isEmpty && fraction.isEmpty then none
  else
    (exponent? rest).map fun exponent =>
      Double.ofDecimal negative (decimalValue (whole ++ fraction))
        (exponent - (fraction.length : Int))

def number? (cs : List Char) : Option Double :=
  let (negative, cs) := cutSign (unpadded cs)
  let word := String.ofList (cs.map Char.toLower)
  if word = "inf" || word = "infinity" then some (.infinity negative)
  else if word = "nan" then some (.nan 0)
  else decimal? negative cs

end Numeral
end Ambient
