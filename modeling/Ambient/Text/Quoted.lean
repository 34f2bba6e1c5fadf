import Ambient.Text.Half
import Ambient.Text.Printable

/-!
# Quoted texts

A text inside a message is written between quotes: single ones, or double ones
when it holds a single quote and no double one.  The backslash and the quote in
use are escaped, as are the characters that are not printable; the escape of a
code point has two, four or eight lower-case hexadecimal digits.
-/

namespace Ambient
namespace Text

def hexDigit (n : Nat) : Char :=
  if n < 10 then Char.ofNat (0x30 + n) else Char.ofNat (0x57 + n)

def hexDigits : Nat -> Nat -> List Char
  | 0, _ => []
  | width + 1, n => hexDigits width (n / 16) ++ [hexDigit (n % 16)]

def quoteFor (cs : List Char) : Char :=
  if cs.contains '\'' && !cs.contains '"' then '"' else '\''

def isPrintableCode (n : Nat) : Bool := !isHalf n && isPrintable (Char.ofNat n)

def quotedCode (quote : Char) (n : Nat) : List Char :=
  if n == quote.toNat || n == 0x5C then ['\\', Char.ofNat n]
  else if n == 0x0A then ['\\', 'n']
  else if n == 0x0D then ['\\', 'r']
  else if n == 0x09 then ['\\', 't']
  else if isPrintableCode n then [Char.ofNat n]
  else if n < 0x100 then '\\' :: 'x' :: hexDigits 2 n
  else if n < 0x10000 then '\\' :: 'u' :: hexDigits 4 n
  else '\\' :: 'U' :: hexDigits 8 n

def quoted (s : String) : String :=
  let quote := quoteFor s.toList
  String.ofList
    (quote :: (codes s.toList).flatMap (quotedCode quote) ++ [quote])

end Text
end Ambient
