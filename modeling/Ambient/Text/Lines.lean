/-!
# Lines

Line breaks of files, of comments and of reports.  A file is read with every
line break as a line feed; a comment is cut at line feeds, each of which may
have a carriage return before it; a report is cut at all characters that end a
line.
-/

namespace Ambient
namespace Text

/-- Every carriage return, with the line feed after it if there is one, becomes
a line feed. -/
def unifyBreaks : List Char -> List Char
  | [] => []
  | '\r' :: '\n' :: rest => '\n' :: unifyBreaks rest
  | c :: rest => (if c == '\r' then '\n' else c) :: unifyBreaks rest

/-- The pieces of `cs` between line breaks; a break is a line feed or a carriage
return and a line feed. -/
def splitLines : List Char -> List (List Char)
  | [] => [[]]
  | '\n' :: rest => [] :: splitLines rest
  | '\r' :: '\n' :: rest => [] :: splitLines rest
  | c :: rest =>
      match splitLines rest with
      | [] => [[c]]
      | line :: lines => (c :: line) :: lines

def cutAt (sep : Char) : List Char -> List Char × Option (List Char)
  | [] => ([], none)
  | c :: rest =>
      if c == sep then ([], some rest)
      else
        let (front, back) := cutAt sep rest
        (c :: front, back)

end Text
end Ambient
