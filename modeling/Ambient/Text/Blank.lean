/-!
# Blank characters

Blanks separate the tokens of a type annotation and are stripped from the ends
of names and comment lines.  The class has the ASCII blanks and controls, the
separators of categories Zs, Zl and Zp, and the next-line control; it has
neither the zero-width space nor the byte order mark.
-/

namespace Ambient
namespace Text

def isBlank (c : Char) : Bool :=
  let n := c.toNat
  (0x09 ≤ n && n ≤ 0x0D) || (0x1C ≤ n && n ≤ 0x20) || n == 0x85 || n == 0xA0 ||
    n == 0x1680 ||
    (0x2000 ≤ n && n ≤ 0x200A) || n == 0x2028 || n == 0x2029 || n == 0x202F ||
    n == 0x205F ||
    n == 0x3000

def stripChars (cs : List Char) : List Char :=
  ((cs.dropWhile isBlank).reverse.dropWhile isBlank).reverse

def strip (s : String) : String :=
  String.ofList (stripChars s.toList)

end Text
end Ambient
