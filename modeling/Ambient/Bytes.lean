import Ambient.Text.Quoted

/-!
# Bytes

Bytes are written in base 64: four characters for three bytes, what is no digit
of the base left out.  They are displayed as a quoted text after the letter `b`.
-/

namespace Ambient

abbrev Bytes := List UInt8

namespace Bytes

def sextet? (c : Char) : Option Nat :=
  let n := c.toNat
  if c.isUpper then some (n - 0x41)
  else if c.isLower then some (n - 0x61 + 26)
  else if c.isDigit then some (n - 0x30 + 52)
  else if c == '+' then some 62
  else if c == '/' then some 63
  else none

/-- The bytes of the digits from here on, given the number of digits of the
current group, the bits left over from the last one and the number of equals
signs since.  An equals sign that fills the group ends the text; without one the
last group has to be full. -/
def decodeFrom : Nat -> Nat -> Nat -> List Char -> Option Bytes
  | group, _, _, [] => if group = 0 then some [] else none
  | group, left, signs, c :: cs =>
      if c == '=' then
        if 2 ≤ group then
          if 4 ≤ group + (signs + 1) then some []
          else decodeFrom group left (signs + 1) cs
        else decodeFrom group left signs cs
      else
        match sextet? c with
        | none => decodeFrom group left signs cs
        | some v =>
            match group with
            | 0 => decodeFrom 1 v 0 cs
            | 1 =>
                (decodeFrom 2 (v % 16) 0 cs).map
                  ((left * 4 + v / 16).toUInt8 :: ·)
            | 2 =>
                (decodeFrom 3 (v % 4) 0 cs).map
                  ((left * 16 + v / 4).toUInt8 :: ·)
            | _ => (decodeFrom 0 0 0 cs).map ((left * 64 + v).toUInt8 :: ·)

def decode? (cs : List Char) : Option Bytes :=
  if cs.all fun c => c.toNat < 0x80 then decodeFrom 0 0 0 cs else none

def quotedByte (quote : Char) (b : UInt8) : List Char :=
  let n := b.toNat
  if n < 0x7F then Text.quotedCode quote n
  else '\\' :: 'x' :: Text.hexDigits 2 n

def display (bs : Bytes) : String :=
  let quote := Text.quoteFor (bs.map fun b => Char.ofNat b.toNat)
  String.ofList ('b' :: quote :: bs.flatMap (quotedByte quote) ++ [quote])

end Bytes
end Ambient
