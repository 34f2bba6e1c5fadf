import Ambient.Fault
import Ambient.Text.Blank
import Ambient.Text.Lines
import Ambient.Value

/-!
# Pages

A page is the text written so far together with the depth of nesting and the
state of the current line.  The indentation of a line is written before its
first fragment, four blanks for each level. A blank line is written only when
something has been written before it.
-/

namespace Ambient

structure Page where
  text : String
  depth : Int
  indented : Bool
  fresh : Bool
deriving DecidableEq, Repr

namespace Page

def empty : Page := ⟨"", 0, false, true⟩

/-- The indentation of a level; a level below zero has none. -/
def indentation (depth : Int) : String :=
  String.ofList (List.replicate (4 * depth.toNat) ' ')

def write (s : String) (p : Page) : Page :=
  { p with
    text := p.text ++ (if p.indented then s else indentation p.depth ++ s)
    indented := true
    fresh := false }

def endLine (p : Page) : Page := { p with indented := false }

def writeln (s : String) (p : Page) : Page :=
  if s = "" then
    if p.fresh then p.endLine else { p with text := p.text ++ "\n" }.endLine
  else (p.write (s ++ "\n")).endLine

def push (p : Page) : Page := { p with depth := p.depth + 1 }

def pop (p : Page) : Page := { p with depth := p.depth - 1 }

/-- A line of a comment without the blanks around it; a star at its front is
moved under the slash above it. -/
def commentLine (cs : List Char) : List Char :=
  match Text.stripChars cs with
  | '*' :: rest => ' ' :: '*' :: rest
  | line => line

def commentLines (comment : String) : List String :=
  ((Text.splitLines comment.toList).map fun line =>
    String.ofList (commentLine line)).filter
    fun line => line != ""

def writeLines (lines : List String) (p : Page) : Page :=
  match lines with
  | [] => p
  | lines => lines.foldl (fun p line => p.writeln line) (p.writeln "")

def textBeforeHalf? (lines : List String) (p : Page) : Option String :=
  if lines.any Text.hasHalf then
    let whole := lines.takeWhile fun line => !Text.hasHalf line
    some (whole.foldl (fun p line => p.writeln line) (p.writeln "")).text
  else none

/-- The page with a comment appended.  Without a comment, or where comments are
left out, a blank line stands in its place if `spacer` asks for one. -/
def writeComment (comments : Bool) (comment : Value) (spacer : Bool)
    (p : Page) :
    Except Fault Page :=
  if comment.truthy && comments then
    match comment with
    | .str s => .ok (p.writeLines (commentLines s))
    | _ => .error .nonText
  else .ok (if spacer then p.writeln "" else p)

end Page
end Ambient
