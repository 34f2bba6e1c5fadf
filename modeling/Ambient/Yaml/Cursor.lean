import Ambient.Yaml.Problem

/-!
# A place in a YAML text

A cursor holds what is left of a text and counts characters, lines and columns.
Lines end at a carriage return, a line feed, both together, a next-line control,
or one of the two Unicode separators; the last two keep their identity when a
line break is read, the others become line feeds.  The byte order mark takes no
column.
-/

namespace Ambient
namespace Yaml

structure Cursor where
  rest : List Char
  index : Nat
  line : Nat
  column : Nat

def nextLine : Char := Char.ofNat 0x85

def lineSeparator : Char := Char.ofNat 0x2028

def paragraphSeparator : Char := Char.ofNat 0x2029

def byteOrderMark : Char := Char.ofNat 0xFEFF

def isBreak (c : Char) : Bool :=
  c == '\n' || c == '\r' || c == nextLine || c == lineSeparator ||
    c == paragraphSeparator

def isForbidden (c : Char) : Bool :=
  let n := c.toNat
  !(n == 0x09 || n == 0x0A || n == 0x0D || (0x20 ≤ n && n ≤ 0x7E) ||
    n == 0x85 ||
    (0xA0 ≤ n && n ≤ 0xD7FF) || (0xE000 ≤ n && n ≤ 0xFFFD) || 0x10000 ≤ n)

def endsLine : Option Char -> Bool
  | none => true
  | some c => isBreak c

def endsWord : Option Char -> Bool
  | none => true
  | some c => c == ' ' || isBreak c

def endsToken : Option Char -> Bool
  | none => true
  | some c => c == ' ' || c == '\t' || isBreak c

namespace Cursor

def start (cs : List Char) : Cursor := ⟨cs, 0, 0, 0⟩

def peek (n : Nat) (p : Cursor) : Option Char := p.rest[n]?

def isAt (c : Char) (p : Cursor) : Bool := p.rest.head? == some c

def advance (p : Cursor) : Cursor :=
  match p.rest with
  | [] => p
  | c :: rest =>
      if isBreak c && !(c == '\r' && rest.head? == some '\n') then
        ⟨rest, p.index + 1, p.line + 1, 0⟩
      else if c == byteOrderMark then ⟨rest, p.index + 1, p.line, p.column⟩
      else ⟨rest, p.index + 1, p.line, p.column + 1⟩

def advanceBy : Nat -> Cursor -> Cursor
  | 0, p => p
  | n + 1, p => advanceBy n p.advance

def takeWhile (test : Char -> Bool) (p : Cursor) : List Char × Cursor :=
  let cs := p.rest.takeWhile test
  (cs, p.advanceBy cs.length)

def skipWhile (test : Char -> Bool) (p : Cursor) : Cursor :=
  (p.takeWhile test).2

def skipBlanks (p : Cursor) : Cursor := p.skipWhile (· == ' ')

def skipComment (p : Cursor) : Cursor :=
  if p.isAt '#' then p.skipWhile fun c => !isBreak c else p

def lineBreak? (p : Cursor) : Option (Char × Cursor) :=
  match p.rest with
  | '\r' :: '\n' :: _ => some ('\n', p.advanceBy 2)
  | c :: _ =>
      if c == lineSeparator || c == paragraphSeparator then some (c, p.advance)
      else if isBreak c then some ('\n', p.advance)
      else none
  | [] => none

def skipBreak (p : Cursor) : Cursor := (p.lineBreak?.map Prod.snd).getD p

/-- Whether the three characters `c` and then the end of a token stand here. -/
def isSeparator (c : Char) (p : Cursor) : Bool :=
  p.rest.take 3 == [c, c, c] && endsToken (p.peek 3)

def isDocumentMark (p : Cursor) : Bool := p.isSeparator '-' || p.isSeparator '.'

def finishLine (p : Cursor) : Except Problem Cursor :=
  let p := p.skipBlanks.skipComment
  if endsLine (p.peek 0) then .ok p.skipBreak else .error .malformed

end Cursor
end Yaml
end Ambient
