import Ambient.Yaml.Cursor
import Ambient.Json.Reader

/-!
# Scalars of a YAML text

The three ways to write a scalar: plain, between quotes, and as a block of
indented lines.  Line breaks inside plain and quoted scalars are folded: a
single one is a blank, several lose the first.  A folded block does so between
lines that start with no blank.
-/

namespace Ambient
namespace Yaml
namespace Scalar

/-!
## Plain scalars
-/

def isFlowMark (c : Char) : Bool :=
  c == ',' || c == '?' || c == '[' || c == ']' || c == '{' || c == '}'

def colonEnds (flow : Bool) (next : Option Char) : Bool :=
  endsToken next || (flow && next.any fun c => isFlowMark c && c != '?')

def plainRun (flow : Bool) : List Char -> List Char
  | [] => []
  | c :: rest =>
      if endsToken (some c) || (c == ':' && colonEnds flow rest.head?) ||
          (flow && isFlowMark c) then []
      else c :: plainRun flow rest

/-- The line breaks from here on, with blanks between them skipped, up to a
document mark, where the answer has no breaks. -/
def plainBreaks : Nat -> List Char -> Cursor -> Option (List Char) × Cursor
  | 0, acc, p => (some acc, p)
  | fuel + 1, acc, p =>
      if p.isAt ' ' then plainBreaks fuel acc p.advance
      else
        match p.lineBreak? with
        | some (c, p) =>
            if p.isDocumentMark then (none, p)
            else plainBreaks fuel (acc ++ [c]) p
        | none => (some acc, p)

def folded (first : Char) (breaks : List Char) : List Char :=
  if first != '\n' then first :: breaks
  else if breaks.isEmpty then [' ']
  else breaks

/-- What stands between two runs of a plain scalar: the text it adds, whether a
line was ended, and the place after it. -/
def plainGap (p : Cursor) : List Char × Bool × Cursor :=
  let (blanks, p) := p.takeWhile (· == ' ')
  match p.lineBreak? with
  | none => (blanks, false, p)
  | some (first, p) =>
      if p.isDocumentMark then ([], true, p)
      else
        match plainBreaks p.rest.length [] p with
        | (some breaks, p) => (folded first breaks, true, p)
        | (none, p) => ([], true, p)

/-- A plain scalar from here on, given what has been read of it: its text,
whether a line was ended after it, and the place after it. -/
def plainFrom (flow : Bool) (indent : Int) :
    Nat -> List Char -> List Char -> Bool -> Cursor -> List Char × Bool × Cursor
  | 0, acc, _, ended, p => (acc, ended, p)
  | fuel + 1, acc, gap, ended, p =>
      let run := plainRun flow p.rest
      if run.isEmpty then (acc, ended, p)
      else
        let acc := acc ++ gap ++ run
        let (gap, ended, p) := plainGap (p.advanceBy run.length)
        if gap.isEmpty || p.isAt '#' ||
            (!flow && (p.column : Int) < indent) then
          (acc, ended, p)
        else plainFrom flow indent fuel acc gap ended p

def plain (flow : Bool) (indent : Int) (p : Cursor) :
    List Char × Bool × Cursor :=
  plainFrom flow indent (p.rest.length + 1) [] [] false p

/-!
## Quoted scalars
-/

def escaped? (c : Char) : Option Char :=
  let table : List (Char × Nat) :=
    [('0', 0x00), ('a', 0x07), ('b', 0x08), ('t', 0x09), ('\t', 0x09),
      ('n', 0x0A), ('v', 0x0B), ('f', 0x0C), ('r', 0x0D), ('e', 0x1B),
      (' ', 0x20), ('"', 0x22), ('\\', 0x5C), ('/', 0x2F), ('N', 0x85),
      ('_', 0xA0), ('L', 0x2028), ('P', 0x2029)]
  (table.lookup c).map Char.ofNat

def escapeWidth? (letter : Char) : Option Nat :=
  if letter == 'x' then some 2
  else if letter == 'u' then some 4
  else if letter == 'U' then some 8
  else none

def codeEscape (width : Nat) (rest : List Char) : Except Problem (List Char) :=
  match Json.Reader.hexNumber? width 0 rest with
  | some (n, _) =>
      if n < 0x110000 then .ok (Text.ofCode n)
      else if n < 0x80000000 then .error .outOfRange
      else .error .tooLarge
  | none => .error .malformed

def quotedBreaks : Nat -> List Char -> Cursor ->
    Except Problem (List Char × Cursor)
  | 0, acc, p => .ok (acc, p)
  | fuel + 1, acc, p =>
      if p.isDocumentMark then .error .malformed
      else
        let p := p.skipWhile fun c => c == ' ' || c == '\t'
        match p.lineBreak? with
        | some (c, p) => quotedBreaks fuel (acc ++ [c]) p
        | none => .ok (acc, p)

def quotedRun (double : Bool) :
    Nat -> List Char -> Cursor -> Except Problem (List Char × Cursor)
  | 0, acc, p => .ok (acc, p)
  | fuel + 1, acc, p =>
      match p.rest with
      | [] => .ok (acc, p)
      | '\'' :: rest =>
          if double then quotedRun double fuel (acc ++ ['\'']) p.advance
          else if rest.head? == some '\'' then
            quotedRun double fuel (acc ++ ['\'']) (p.advanceBy 2)
          else .ok (acc, p)
      | '"' :: _ =>
          if double then .ok (acc, p)
          else quotedRun double fuel (acc ++ ['"']) p.advance
      | '\\' :: rest =>
          if !double then quotedRun double fuel (acc ++ ['\\']) p.advance
          else
            let p := p.advance
            match rest with
            | [] => .error .malformed
            | c :: rest =>
                match escaped? c with
                | some e => quotedRun double fuel (acc ++ [e]) p.advance
                | none =>
                    match escapeWidth? c with
                    | some width =>
                        match codeEscape width rest with
                        | .ok e =>
                            quotedRun double fuel (acc ++ e)
                              (p.advanceBy (width + 1))
                        | .error problem => .error problem
                    | none =>
                        match p.lineBreak? with
                        | some (_, p) =>
                            match quotedBreaks (p.rest.length + 1) [] p with
                            | .ok (breaks, p) =>
                                quotedRun double fuel (acc ++ breaks) p
                            | .error problem => .error problem
                        | none => .error .malformed
      | c :: _ =>
          if endsToken (some c) then .ok (acc, p)
          else
            let run := p.rest.takeWhile fun c =>
              !(c == '\'' || c == '"' || c == '\\' || endsToken (some c))
            quotedRun double fuel (acc ++ run) (p.advanceBy run.length)

def quotedGap (p : Cursor) : Except Problem (List Char × Cursor) :=
  let (blanks, p) := p.takeWhile fun c => c == ' ' || c == '\t'
  match p.rest with
  | [] => .error .malformed
  | _ =>
      match p.lineBreak? with
      | none => .ok (blanks, p)
      | some (first, p) => do
          let (breaks, p) ← quotedBreaks (p.rest.length + 1) [] p
          return (folded first breaks, p)

def quotedFrom (double : Bool) :
    Nat -> List Char -> Cursor -> Except Problem (List Char × Cursor)
  | 0, _, _ => .error .malformed
  | fuel + 1, acc, p => do
      let (acc, p) ← quotedRun double (p.rest.length + 1) acc p
      if p.isAt (if double then '"' else '\'') then return (acc, p.advance)
      else
        let (gap, p) ← quotedGap p
        quotedFrom double fuel (acc ++ gap) p

def quoted (double : Bool) (p : Cursor) : Except Problem (List Char × Cursor) :=
  quotedFrom double (p.rest.length + 1) [] p.advance

/-!
## Block scalars
-/

inductive Chomping where
  | strip
  | clip
  | keep
deriving DecidableEq

def chomping? (p : Cursor) : Option (Chomping × Cursor) :=
  if p.isAt '+' then some (.keep, p.advance)
  else if p.isAt '-' then some (.strip, p.advance)
  else none

def increment? (p : Cursor) : Except Problem (Option Nat × Cursor) :=
  match p.rest with
  | c :: _ =>
      if c == '0' then .error .malformed
      else if c.isDigit then .ok (some (c.toNat - 0x30), p.advance)
      else .ok (none, p)
  | [] => .ok (none, p)

def blockHeader (p : Cursor) :
    Except Problem (Chomping × Option Nat × Cursor) := do
  let (chomping, increment, p) ←
    match chomping? p with
    | some (chomping, p) => do
        let (increment, p) ← increment? p
        pure (chomping, increment, p)
    | none => do
        let (increment, p) ← increment? p
        match increment, chomping? p with
        | some _, some (chomping, p) => pure (chomping, increment, p)
        | _, _ => pure (Chomping.clip, increment, p)
  if endsWord (p.peek 0) then return (chomping, increment, ← p.finishLine)
  else .error .malformed

/-- The empty lines at the start of a block, and the column of its deepest
blank. -/
def blockLead : Nat -> List Char -> Nat -> Cursor -> List Char × Nat × Cursor
  | 0, acc, deepest, p => (acc, deepest, p)
  | fuel + 1, acc, deepest, p =>
      if p.isAt ' ' then
        let p := p.advance
        blockLead fuel acc (max deepest p.column) p
      else
        match p.lineBreak? with
        | some (c, p) => blockLead fuel (acc ++ [c]) deepest p
        | none => (acc, deepest, p)

def skipIndent (indent : Nat) (p : Cursor) : Cursor :=
  p.advanceBy ((p.rest.take (indent - p.column)).takeWhile (· == ' ')).length

def blockGap (indent : Nat) : Nat -> List Char -> Cursor -> List Char × Cursor
  | 0, acc, p => (acc, p)
  | fuel + 1, acc, p =>
      let p := skipIndent indent p
      match p.lineBreak? with
      | some (c, p) => blockGap indent fuel (acc ++ [c]) p
      | none => (acc, p)

def inBlock (indent : Nat) (p : Cursor) : Bool :=
  p.column == indent && !p.rest.isEmpty

def isIndentedMore (p : Cursor) : Bool := p.isAt ' ' || p.isAt '\t'

/-- The lines of a block: their text, the last line break, the empty lines after
it and the place after them. -/
def blockLines (fold : Bool) (indent : Nat) :
    Nat -> List Char -> List Char -> List Char -> Cursor ->
      List Char × List Char × List Char × Cursor
  | 0, acc, last, breaks, p => (acc, last, breaks, p)
  | fuel + 1, acc, last, breaks, p =>
      if inBlock indent p then
        let flush := !isIndentedMore p
        let (line, p) := p.takeWhile fun c => !isBreak c
        let acc := acc ++ breaks ++ line
        let last := (p.lineBreak?.map fun b => [b.1]).getD []
        let (breaks, p) := blockGap indent (p.rest.length + 1) [] p.skipBreak
        if inBlock indent p then
          let joint :=
            if fold && last == ['\n'] && flush && !isIndentedMore p then
              (if breaks.isEmpty then [' '] else [])
            else last
          blockLines fold indent fuel (acc ++ joint) last breaks p
        else (acc, last, breaks, p)
      else (acc, last, breaks, p)

def block (fold : Bool) (parent : Int) (p : Cursor) :
    Except Problem (List Char × Cursor) := do
  let (chomping, increment, p) ← blockHeader p.advance
  let least := max 1 (parent + 1).toNat
  let fuel := p.rest.length + 1
  let (indent, breaks, p) :=
    match increment with
    | some n =>
        let indent := least + n - 1
        let (breaks, p) := blockGap indent fuel [] p
        (indent, breaks, p)
    | none =>
        let (breaks, deepest, p) := blockLead fuel [] 0 p
        (max least deepest, breaks, p)
  let (text, last, breaks, p) := blockLines fold indent fuel [] [] breaks p
  let tail :=
    match chomping with
    | .strip => []
    | .clip => last
    | .keep => last ++ breaks
  return (text ++ tail, p)

end Scalar
end Yaml
end Ambient
