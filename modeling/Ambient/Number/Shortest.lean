import Ambient.Number.Double

/-!
# Shortest decimal digits

Of the decimals that round to a given number, the ones with the fewest digits
are considered, and of these the nearest to the number is taken.  All
comparisons are exact, on natural numbers: with the number as
`4 m · 2 ^ (e - 2)`, the decimals that round to it lie between
`(4 m - 2) · 2 ^ (e - 2)` and `(4 m + 2) · 2 ^ (e - 2)`, the ends included when
`m` is even; below a power of two the lower gap is half as wide.
-/

namespace Ambient

structure Decimal where
  digits : Nat
  exponent : Int
deriving DecidableEq, Repr

namespace Decimal

/-- The number without the zeros at its right end, which are counted in the
exponent. -/
def trimZeros : Nat -> Decimal -> Decimal
  | 0, d => d
  | fuel + 1, d =>
      if d.digits ≠ 0 ∧ d.digits % 10 = 0 then
        trimZeros fuel ⟨d.digits / 10, d.exponent + 1⟩
      else d

/-- The scale factors that bring `x · 2 ^ (e - 2)` and `c · 10 ^ t` to a common
denominator: the first is compared as `x` times the first factor, the second as
`c` times the second. -/
def commonScale (e t : Int) : Nat × Nat :=
  let e := e - 2
  (Nat.pow 2 e.toNat * Nat.pow 10 (-t).toNat,
    Nat.pow 10 t.toNat * Nat.pow 2 (-e).toNat)

/-- The decimal on the grid `10 ^ t` that rounds to `m · 2 ^ e` and is nearest
to it, if there is one. -/
def onGrid? (m : Nat) (e : Int) (t : Int) : Option Decimal :=
  let (unit, step) := commonScale e t
  let value := 4 * m * unit
  let lowerGap :=
    if m = Nat.pow 2 52 ∧ Double.leastExponent < e then unit else 2 * unit
  let low := value - lowerGap
  let high := value + 2 * unit
  let within (c : Nat) : Bool :=
    if m % 2 = 0 then low ≤ c * step && c * step ≤ high
    else low < c * step && c * step < high
  let floor := value / step
  let below := value - floor * step
  let above := (floor + 1) * step - value
  match decide (0 < floor) && within floor, within (floor + 1) with
  | true, true =>
      if below < above ∨ (below = above ∧ floor % 2 = 0) then some ⟨floor, t⟩
      else some ⟨floor + 1, t⟩
  | true, false => some ⟨floor, t⟩
  | false, true => some ⟨floor + 1, t⟩
  | false, false => none

def leadingExponent (m : Nat) (e : Int) : Int :=
  let bits : Int := (m.log2 : Int) + e
  let guess := bits * 30103 / 100000
  let reaches (t : Int) : Bool :=
    let (unit, step) := commonScale e t
    step ≤ 4 * m * unit
  if !reaches guess then guess - 1
  else if reaches (guess + 1) then guess + 1
  else guess

def search (m : Nat) (e : Int) : Nat -> Int -> Option Decimal
  | 0, _ => none
  | fuel + 1, t => (onGrid? m e t).orElse fun _ => search m e fuel (t - 1)

/-- The shortest decimal that rounds to `m · 2 ^ e`.  Seventeen digits always
suffice. -/
def shortest (m : Nat) (e : Int) : Decimal :=
  if m = 0 then ⟨0, 0⟩
  else trimZeros 20 ((search m e 18 (leadingExponent m e)).getD ⟨0, 0⟩)

end Decimal
end Ambient
