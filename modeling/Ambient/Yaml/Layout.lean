import Ambient.Yaml.Scalar
import Ambient.Yaml.Token

/-!
# From text to tokens

The layout of a YAML text decides its structure.  A column deeper than the
current indentation opens a block collection, a shallower one closes it.  A node
on one line may turn out to be a key when a colon follows it; its place is
remembered until the line ends, and a key mark is put there when it does.
-/

namespace Ambient
namespace Yaml

/-- A place where a key may have started: the number of tokens before it, and
where it stands. -/
structure PossibleKey where
  level : Nat
  position : Nat
  required : Bool
  index : Nat
  line : Nat
  column : Nat

/-- What is known at a place of the text: the tokens so far, the depth of flow
collections, the indentation of the block collections around, whether a key may
start, and the keys that are possible. -/
structure Layout where
  place : Cursor
  tokens : Array Token
  level : Nat
  indent : Int
  outer : List Int
  keyAllowed : Bool
  keys : List PossibleKey

namespace Layout

def start (cs : List Char) : Layout :=
  ⟨Cursor.start cs, #[], 0, -1, [], true, []⟩

def inFlow (s : Layout) : Bool := s.level != 0

def push (t : Token) (s : Layout) : Layout :=
  { s with tokens := s.tokens.push t }

def insertAt (position : Nat) (ts : List Token) (s : Layout) : Layout :=
  { s with
    tokens :=
      s.tokens.extract 0 position ++ ts.toArray ++
        s.tokens.extract position s.tokens.size }

/-!
## Possible keys
-/

def isStale (s : Layout) (k : PossibleKey) : Bool :=
  k.line != s.place.line || 1024 < s.place.index - k.index

/-- Forgets the keys that are no longer possible; a key that has to be one may
not be forgotten. -/
def dropStale (s : Layout) : Except Problem Layout :=
  if s.keys.any fun k => s.isStale k && k.required then .error .malformed
  else .ok { s with keys := s.keys.filter fun k => !s.isStale k }

def dropKey (s : Layout) : Except Problem Layout :=
  if s.keys.any fun k => k.level == s.level && k.required then .error .malformed
  else .ok { s with keys := s.keys.filter fun k => k.level != s.level }

def noteKey (s : Layout) : Except Problem Layout :=
  if s.keyAllowed then do
    let required := !s.inFlow && s.indent == (s.place.column : Int)
    let s ← s.dropKey
    let key : PossibleKey :=
      ⟨s.level, s.tokens.size, required, s.place.index, s.place.line,
        s.place.column⟩
    return { s with keys := key :: s.keys }
  else .ok s

/-!
## Indentation
-/

def unwindTo (column : Int) : Nat -> Layout -> Layout
  | 0, s => s
  | fuel + 1, s =>
      if s.indent ≤ column then s
      else
        match s.outer with
        | [] => s
        | indent :: outer =>
            unwindTo column fuel
              { s.push .blockEnd with indent := indent, outer := outer }

def unwind (column : Int) (s : Layout) : Layout :=
  if s.inFlow then s else unwindTo column s.outer.length s

def opensAt (column : Nat) (s : Layout) : Bool := s.indent < (column : Int)

def indentTo (column : Nat) (s : Layout) : Layout :=
  { s with indent := column, outer := s.indent :: s.outer }

def openBlock (t : Token) (s : Layout) : Layout :=
  if s.opensAt s.place.column then (s.indentTo s.place.column).push t else s

/-!
## Tokens one by one
-/

def toNext : Nat -> Layout -> Layout
  | 0, s => s
  | fuel + 1, s =>
      let p := s.place.skipBlanks.skipComment
      match p.lineBreak? with
      | some (_, p) =>
          toNext fuel { s with
            place := p
            keyAllowed := s.keyAllowed || !s.inFlow }
      | none => { s with place := p }

def documentMark (t : Token) (s : Layout) : Except Problem Layout := do
  let s ← (s.unwind (-1)).dropKey
  return { s.push t with place := s.place.advanceBy 3, keyAllowed := false }

def directive (s : Layout) : Except Problem Layout := do
  let s ← (s.unwind (-1)).dropKey
  let (t, p) ← Token.directiveHere s.place
  return { s.push t with place := p, keyAllowed := false }

def openFlow (t : Token) (s : Layout) : Except Problem Layout := do
  let s ← s.noteKey
  return { s.push t with
    place := s.place.advance
    level := s.level + 1
    keyAllowed := true }

def closeFlow (t : Token) (s : Layout) : Except Problem Layout := do
  if !s.inFlow then .error .malformed
  else
    let s ← s.dropKey
    return { s.push t with
      place := s.place.advance
      level := s.level - 1
      keyAllowed := false }

def flowEntry (s : Layout) : Except Problem Layout := do
  let s ← s.dropKey
  return { s.push .flowEntry with place := s.place.advance, keyAllowed := true }

def blockEntry (s : Layout) : Except Problem Layout := do
  if !s.inFlow && !s.keyAllowed then .error .malformed
  else
    let s := if s.inFlow then s else s.openBlock .blockSequenceStart
    let s ← s.dropKey
    return { s.push .blockEntry
      with place := s.place.advance, keyAllowed := true }

def explicitKey (s : Layout) : Except Problem Layout := do
  if !s.inFlow && !s.keyAllowed then .error .malformed
  else
    let s := if s.inFlow then s else s.openBlock .blockMappingStart
    let s ← s.dropKey
    return { s.push .key with place := s.place.advance, keyAllowed :=
      !s.inFlow }

/-- A colon before a value.  If a key is possible on this level, it is one. -/
def valueMark (s : Layout) : Except Problem Layout := do
  match s.keys.find? fun k => k.level == s.level with
  | some k =>
      let s := { s with keys := s.keys.filter fun k => k.level != s.level }
      let opens := !s.inFlow && s.opensAt k.column
      let s :=
        s.insertAt k.position
          (if opens then [.blockMappingStart, .key] else [.key])
      let s := if opens then s.indentTo k.column else s
      return { s.push .value
        with place := s.place.advance, keyAllowed := false }
  | none =>
      if !s.inFlow && !s.keyAllowed then .error .malformed
      else
        let s := if s.inFlow then s else s.openBlock .blockMappingStart
        return { s.push .value with place := s.place.advance, keyAllowed :=
          !s.inFlow }

def node (read : Cursor -> Except Problem (Token × Cursor)) (s : Layout) :
    Except Problem Layout := do
  let s ← s.noteKey
  let (t, p) ← read s.place
  return { s.push t with place := p, keyAllowed := false }

def named (make : String -> Token) (p : Cursor) :
    Except Problem (Token × Cursor) := do
  let (name, p) ← Token.anchorName p.advance
  return (make name, p)

def quotedScalar (double : Bool) (p : Cursor) :
    Except Problem (Token × Cursor) := do
  let (cs, p) ← Scalar.quoted double p
  return (.scalar (String.ofList cs) false, p)

def blockScalar (fold : Bool) (s : Layout) : Except Problem Layout := do
  let s ← s.dropKey
  let (cs, p) ← Scalar.block fold s.indent s.place
  return { s.push (.scalar (String.ofList cs) false)
    with place := p, keyAllowed := true }

def plainScalar (s : Layout) : Except Problem Layout := do
  let s ← s.noteKey
  let (cs, ended, p) := Scalar.plain s.inFlow (s.indent + 1) s.place
  return { s.push (.scalar (String.ofList cs) true)
    with place := p, keyAllowed := ended }

def startsPlain (flow : Bool) (c : Char) (next : Option Char) : Bool :=
  let indicators :=
    ['-', '?', ':', ',', '[', ']', '{', '}', '#', '&', '*', '!', '|', '>', '\'',
      '"', '%', '@', '`']
  !(endsToken (some c) || indicators.contains c) ||
    (!endsToken next && (c == '-' || (!flow && (c == '?' || c == ':'))))

def step (c : Char) (s : Layout) : Except Problem Layout :=
  let p := s.place
  let next := p.peek 1
  let flow := s.inFlow
  if c == '%' && p.column == 0 then s.directive
  else if c == '-' && p.column == 0 && p.isSeparator '-' then
    s.documentMark .documentStart
  else if c == '.' && p.column == 0 && p.isSeparator '.' then
    s.documentMark .documentEnd
  else if c == '[' then s.openFlow .flowSequenceStart
  else if c == '{' then s.openFlow .flowMappingStart
  else if c == ']' then s.closeFlow .flowSequenceEnd
  else if c == '}' then s.closeFlow .flowMappingEnd
  else if c == ',' then s.flowEntry
  else if c == '-' && endsToken next then s.blockEntry
  else if c == '?' && (flow || endsToken next) then s.explicitKey
  else if c == ':' && (flow || endsToken next) then s.valueMark
  else if c == '*' then s.node (named .alias)
  else if c == '&' then s.node (named .anchor)
  else if c == '!' then s.node Token.tagHere
  else if c == '|' && !flow then s.blockScalar false
  else if c == '>' && !flow then s.blockScalar true
  else if c == '\'' then s.node (quotedScalar false)
  else if c == '"' then s.node (quotedScalar true)
  else if startsPlain flow c next then s.plainScalar
  else .error .malformed

def next (s : Layout) : Except Problem Layout := do
  let s := s.toNext (s.place.rest.length + 1)
  let s ← s.dropStale
  let s := s.unwind s.place.column
  match s.place.rest with
  | [] => (s.unwind (-1)).dropKey
  | c :: _ => s.step c

/-- The tokens that are settled: those before the first that may still turn out
to be a key. -/
def settled (s : Layout) : List Token :=
  let waiting := (s.keys.filter fun k => !s.isStale k).map PossibleKey.position
  s.tokens.toList.take (waiting.foldl min s.tokens.size)

def run : Nat -> Layout -> List Token × Option Problem
  | 0, s => (s.settled, some .malformed)
  | fuel + 1, s =>
      match s.next with
      | .error problem => (s.settled, some problem)
      | .ok s' =>
          if s.place.rest.isEmpty then (s'.tokens.toList, none)
          else run fuel s'

end Layout

/-- The tokens of a text.  Where a problem ends them, only those are given that
are settled without what follows. -/
def tokens (source : String) : List Token × Option Problem :=
  let cs := source.toList
  if cs.any isForbidden then ([], some .malformed)
  else
    let start := Layout.start cs
    let start :=
      if start.place.isAt byteOrderMark
        then { start with place := start.place.advance } else start
    start.run (cs.length + 2)

end Yaml
end Ambient
