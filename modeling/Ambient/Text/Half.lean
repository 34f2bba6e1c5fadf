/-!
# Code points of texts

A text may hold halves of surrogate pairs, which are code points but no
characters.  A half is written as two characters: the mark, which is the last
code point and stands for no character of any script, and a character for
private use.  The mark itself is written twice.  So a string of characters is a
way to write a list of code points, and each list is written in one way.
-/

namespace Ambient
namespace Text

/-- The character before what is no character by itself. -/
def mark : Char := Char.ofNat 0x10FFFF

def isHighHalf (n : Nat) : Bool := 0xD800 ≤ n && n < 0xDC00

def isLowHalf (n : Nat) : Bool := 0xDC00 ≤ n && n < 0xE000

def isHalf (n : Nat) : Bool := isHighHalf n || isLowHalf n

def joinHalves (high low : Nat) : Nat :=
  0x10000 + (high - 0xD800) * 0x400 + (low - 0xDC00)

def ofCode (n : Nat) : List Char :=
  if isHalf n then [mark, Char.ofNat (n + 0x800)]
  else if n == mark.toNat then [mark, mark]
  else [Char.ofNat n]

def codes : List Char -> List Nat
  | [] => []
  | [c] => [c.toNat]
  | c :: d :: rest =>
      if c == mark then (if d == mark then d.toNat else d.toNat - 0x800) ::
        codes rest
      else c.toNat :: codes (d :: rest)

def length (cs : List Char) : Nat := (codes cs).length

def pieces (s : String) : List String :=
  (codes s.toList).map fun n => String.ofList (ofCode n)

def hasHalf (s : String) : Bool :=
  s.toList.contains mark && (codes s.toList).any isHalf

def ofPlain (s : String) : String :=
  if s.toList.contains mark
    then String.ofList (s.toList.flatMap fun c => ofCode c.toNat) else s

/-- The characters of a text, without the halves in it. -/
def toPlain (s : String) : String :=
  if s.toList.contains mark then
    String.ofList (((codes s.toList).filter fun n => !isHalf n).map Char.ofNat)
  else s

def decode? (bytes : ByteArray) : Option String :=
  (String.fromUTF8? bytes).map ofPlain

def encode (s : String) : ByteArray := (toPlain s).toUTF8

end Text
end Ambient
