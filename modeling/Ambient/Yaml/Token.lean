import Ambient.Json.Reader
import Ambient.Yaml.Cursor

/-!
# Tokens of a YAML text

The structure of a YAML text as a list of tokens: indentation becomes openings
and closings of block collections, and the keys of mappings are marked.
-/

namespace Ambient
namespace Yaml

inductive Token where
  | versionDirective (major : Nat)
  | tagDirective (handle uri : String)
  | otherDirective
  | documentStart
  | documentEnd
  | blockSequenceStart
  | blockMappingStart
  | blockEnd
  | flowSequenceStart
  | flowSequenceEnd
  | flowMappingStart
  | flowMappingEnd
  | blockEntry
  | flowEntry
  | key
  | value
  | alias (name : String)
  | anchor (name : String)
  | tag (handle : Option String) (suffix : String)
  | scalar (text : String) (plain : Bool)
deriving DecidableEq, Repr

namespace Token

def isNameChar (c : Char) : Bool := c.isAlphanum || c == '-' || c == '_'

def isUriChar (c : Char) : Bool :=
  c.isAlphanum ||
    ['-', ';', '/', '?', ':', '@', '&', '=', '+', '$', ',', '_', '.', '!', '~',
      '*', '\'', '(', ')', '[', ']'].contains c

def nameHere (p : Cursor) : Except Problem (String × Cursor) :=
  let (cs, p) := p.takeWhile isNameChar
  if cs.isEmpty then .error .malformed else .ok (String.ofList cs, p)

def anchorName (p : Cursor) : Except Problem (String × Cursor) := do
  let (name, p) ← nameHere p
  let ends := match p.rest.head? with
    | some c =>
        endsToken (some c) ||
          ['?', ':', ',', ']', '}', '%', '@', '`'].contains c
    | none => true
  if ends then return (name, p) else .error .malformed

def uriEscapes : List Char -> Except Problem Bytes
  | '%' :: a :: b :: rest =>
      match Json.Reader.hexNumber? 2 0 [a, b] with
      | some (n, _) => (uriEscapes rest).map (n.toUInt8 :: ·)
      | none => .error .malformed
  | '%' :: _ => .error .malformed
  | _ => .ok []

/-- The characters of an address from here on.  Escapes that follow each other
encode characters in UTF-8. -/
def uriFrom : Nat -> Cursor -> Except Problem (List Char × Cursor)
  | 0, p => .ok ([], p)
  | fuel + 1, p =>
      if p.isAt '%' then do
        let bytes ← uriEscapes p.rest
        match Text.decode? ⟨bytes.toArray⟩ with
        | some s =>
            let (cs, p) ← uriFrom fuel (p.advanceBy (3 * bytes.length))
            return (s.toList ++ cs, p)
        | none => .error .malformed
      else
        let (cs, p) := p.takeWhile isUriChar
        if cs.isEmpty then .ok ([], p)
        else do
          let (more, p) ← uriFrom fuel p
          return (cs ++ more, p)

def tagUri (p : Cursor) : Except Problem (String × Cursor) := do
  let (cs, p) ← uriFrom (p.rest.length + 1) p
  if cs.isEmpty then .error .malformed else return (String.ofList cs, p)

def tagHandle (p : Cursor) : Except Problem (String × Cursor) :=
  if p.isAt '!' then
    let p := p.advance
    if p.isAt ' ' then .ok ("!", p)
    else
      let (cs, p) := p.takeWhile isNameChar
      if p.isAt '!' then .ok (String.ofList ('!' :: cs ++ ['!']), p.advance)
      else .error .malformed
  else .error .malformed

def hasHandle (p : Cursor) : Bool :=
  (p.rest.drop 1 |>.takeWhile fun c => !(c == ' ' || isBreak c)).contains '!'

def tagHere (p : Cursor) : Except Problem (Token × Cursor) := do
  let (token, p) ←
    if p.peek 1 == some '<' then do
      let (uri, p) ← tagUri (p.advanceBy 2)
      if p.isAt '>' then pure (tag none uri, p.advance) else .error .malformed
    else if endsToken (p.peek 1) then pure (tag none "!", p.advance)
    else if hasHandle p then do
      let (handle, p) ← tagHandle p
      let (suffix, p) ← tagUri p
      pure (tag (some handle) suffix, p)
    else do
      let (suffix, p) ← tagUri p.advance
      pure (tag (some "!") suffix, p)
  if endsWord (p.peek 0) then return (token, p) else .error .malformed

def versionNumber (p : Cursor) : Except Problem (Nat × Cursor) :=
  let (cs, p) := p.takeWhile Char.isDigit
  if cs.isEmpty then .error .malformed
  else if Numeral.digitLimit < cs.length then .error .outOfRange
  else .ok (Json.Reader.decimalValue cs, p)

def directiveHere (p : Cursor) : Except Problem (Token × Cursor) := do
  let (name, p) ← nameHere p.advance
  if !endsWord (p.peek 0) then .error .malformed
  else if name == "YAML" then
    let (major, p) ← versionNumber p.skipBlanks
    if !p.isAt '.' then .error .malformed
    else
      let (_, p) ← versionNumber p.advance
      if endsWord (p.peek 0)
        then return (versionDirective major, ← p.finishLine)
      else .error .malformed
  else if name == "TAG" then
    let (handle, p) ← tagHandle p.skipBlanks
    if !p.isAt ' ' then .error .malformed
    else
      let (uri, p) ← tagUri p.skipBlanks
      if endsWord (p.peek 0)
        then return (tagDirective handle uri, ← p.finishLine)
      else .error .malformed
  else return (otherDirective, ← (p.skipWhile fun c => !isBreak c).finishLine)

end Token
end Yaml
end Ambient
