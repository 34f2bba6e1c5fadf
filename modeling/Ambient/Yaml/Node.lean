import Ambient.Yaml.Kind
import Ambient.Yaml.Layout

/-!
# Nodes of a YAML document

The nodes of a document and their numbers.  A collection holds the numbers of
its parts, and an alias is the number of the node that carries its anchor, which
may be a collection around it.  A stream may hold at most one document.  A
problem of the text counts only when its place is reached.
-/

namespace Ambient
namespace Yaml

inductive Content where
  | scalar (text : String)
  | sequence (items : List Nat)
  | mapping (entries : List (Nat × Nat))

structure Node where
  kind : Kind
  content : Content

/-- The nodes of a document, the number of its root, and whether some alias
stands inside the node that it names. -/
structure Graph where
  nodes : Array Node
  root : Nat
  loops : Bool

namespace Graph

/-- What is known at a token: the tokens left and the problem after them, the
handles of tags, the anchors with the numbers of their nodes, and the nodes; one
that is still open has no content. -/
structure State where
  tokens : List Token
  problem : Option Problem
  handles : List (String × String)
  anchors : List (String × Nat)
  nodes : Array (Option Node)
  loops : Bool

abbrev Reader := StateT State (Except Problem)

def peek : Reader (Option Token) := do
  let s ← get
  match s.tokens, s.problem with
  | t :: _, _ => return some t
  | [], none => return none
  | [], some problem => throw problem

def isAt (ts : List Token) : Reader Bool := do return (← peek).any ts.contains

def skip : Reader Unit := modify fun s => { s with tokens := s.tokens.tail }

def reserve : Reader Nat := do
  let s ← get
  set { s with nodes := s.nodes.push none }
  return s.nodes.size

def complete (number : Nat) (n : Node) : Reader Unit :=
  modify fun s => { s with nodes := s.nodes.setIfInBounds number (some n) }

def add (n : Node) : Reader Nat := do
  let number ← reserve
  complete number n
  return number

def addEmpty : Reader Nat := add ⟨.null, .scalar ""⟩

/-!
## Anchors and tags
-/

/-- The tag of a node as it is written: none, the one that leaves the choice
open, or an address. -/
inductive Tag where
  | absent
  | unspecific
  | address (uri : String)
deriving DecidableEq, Repr

def Tag.scalarKind (plain : Bool) (text : String) : Tag -> Kind
  | absent => if plain then Kind.ofText text else .text
  | unspecific => Kind.ofText text
  | address uri => Kind.ofAddress uri

def Tag.collectionKind (kind : Kind) : Tag -> Kind
  | address uri => Kind.ofAddress uri
  | _ => kind

def resolveTag : Option (Option String × String) -> Reader Tag
  | none => return .absent
  | some (none, suffix) =>
      return if suffix == "!" then .unspecific else .address suffix
  | some (some handle, suffix) => do
      match (← get).handles.lookup handle with
      | some base => return .address (base ++ suffix)
      | none => throw .malformed

def takeAnchor : Reader (Option String) := do
  match ← peek with
  | some (.anchor name) =>
      skip
      return some name
  | _ => return none

def takeTag : Reader (Option (Option String × String)) := do
  match ← peek with
  | some (.tag handle suffix) =>
      skip
      return some (handle, suffix)
  | _ => return none

def properties : Reader (Option String × Tag) := do
  match ← takeAnchor with
  | some name => return (some name, ← resolveTag (← takeTag))
  | none =>
      match ← takeTag with
      | none => return (none, .absent)
      | some tag =>
          let anchor ← takeAnchor
          return (anchor, ← resolveTag (some tag))

def checkAnchor : Option String -> Reader Unit
  | none => pure ()
  | some name => do
      if ((← get).anchors.lookup name).isSome then throw .malformed

def bindAnchor (number : Nat) : Option String -> Reader Unit
  | none => pure ()
  | some name => modify fun s =>
      { s with anchors := (name, number) :: s.anchors }

def follow (name : String) : Reader Nat := do
  let s ← get
  match s.anchors.lookup name with
  | none => throw .malformed
  | some number =>
      if (s.nodes.getD number none).isNone then set { s with loops := true }
      return number

/-!
## Nodes
-/

mutual

/-- The node here.  Block collections are taken only where `block` holds, and a
sequence whose hyphens are not indented only where `indentless` holds. -/
def nodeHere : Nat -> Bool -> Bool -> Reader Nat
  | 0, _, _ => throw .malformed
  | fuel + 1, block, indentless => do
      match ← peek with
      | some (.alias name) =>
          skip
          follow name
      | _ =>
          let (anchor, tag) ← properties
          let token ← peek
          checkAnchor anchor
          match token with
          | some (.scalar text plain) =>
              skip
              let number ← add ⟨tag.scalarKind plain text, .scalar text⟩
              bindAnchor number anchor
              return number
          | some .flowSequenceStart =>
              skip
              sequenceHere anchor tag (flowItems fuel true)
          | some .flowMappingStart =>
              skip
              mappingHere anchor tag (flowPairs fuel true)
          | token =>
              if indentless && token == some .blockEntry then
                sequenceHere anchor tag (looseItems fuel)
              else if block && token == some .blockSequenceStart then
                skip
                sequenceHere anchor tag (blockItems fuel)
              else if block && token == some .blockMappingStart then
                skip
                mappingHere anchor tag (blockPairs fuel)
              else if anchor.isSome || tag != .absent then
                let number ← add ⟨tag.scalarKind true "", .scalar ""⟩
                bindAnchor number anchor
                return number
              else throw .malformed

def sequenceHere (anchor : Option String) (tag : Tag)
    (items : Reader (List Nat)) :
    Reader Nat := do
  let number ← reserve
  bindAnchor number anchor
  let ns ← items
  complete number ⟨tag.collectionKind .list, .sequence ns⟩
  return number

def mappingHere (anchor : Option String) (tag : Tag)
    (entries : Reader (List (Nat × Nat))) :
    Reader Nat := do
  let number ← reserve
  bindAnchor number anchor
  let es ← entries
  complete number ⟨tag.collectionKind .map, .mapping es⟩
  return number

def optionalNode : Nat -> Bool -> Bool -> List Token -> Reader Nat
  | 0, _, _, _ => throw .malformed
  | fuel + 1, block, indentless, ends => do
      if ← isAt ends then addEmpty else nodeHere fuel block indentless

def blockItems : Nat -> Reader (List Nat)
  | 0 => throw .malformed
  | fuel + 1 => do
      if ← isAt [.blockEntry] then
        skip
        let n ← optionalNode fuel true false [.blockEntry, .blockEnd]
        return n :: (← blockItems fuel)
      else if ← isAt [.blockEnd] then
        skip
        return []
      else throw .malformed

def looseItems : Nat -> Reader (List Nat)
  | 0 => throw .malformed
  | fuel + 1 => do
      if ← isAt [.blockEntry] then
        skip
        let n ← optionalNode fuel true false
          [.blockEntry, .key, .value, .blockEnd]
        return n :: (← looseItems fuel)
      else return []

def valueHere : Nat -> Bool -> List Token -> Reader Nat
  | 0, _, _ => throw .malformed
  | fuel + 1, block, ends => do
      if ← isAt [.value] then
        skip
        optionalNode fuel block block ends
      else addEmpty

def blockPairs : Nat -> Reader (List (Nat × Nat))
  | 0 => throw .malformed
  | fuel + 1 => do
      if ← isAt [.key] then
        skip
        let k ← optionalNode fuel true true [.key, .value, .blockEnd]
        let v ← valueHere fuel true [.key, .value, .blockEnd]
        return (k, v) :: (← blockPairs fuel)
      else if ← isAt [.blockEnd] then
        skip
        return []
      else throw .malformed

def takeComma : Bool -> Reader Unit
  | true => pure ()
  | false => do if ← isAt [.flowEntry] then skip else throw .malformed

/-- The entries of a flow sequence up to its end.  An entry with a key mark is a
mapping of its own. -/
def flowItems : Nat -> Bool -> Reader (List Nat)
  | 0, _ => throw .malformed
  | fuel + 1, first => do
      if ← isAt [.flowSequenceEnd] then
        skip
        return []
      else
        takeComma first
        if ← isAt [.key] then
          skip
          let n ← mappingHere none .absent (do
            let k ← optionalNode fuel false false
              [.value, .flowEntry, .flowSequenceEnd]
            let v ← valueHere fuel false [.flowEntry, .flowSequenceEnd]
            return [(k, v)])
          return n :: (← flowItems fuel false)
        else if ← isAt [.flowSequenceEnd] then
          skip
          return []
        else
          let n ← nodeHere fuel false false
          return n :: (← flowItems fuel false)

/-- The entries of a flow mapping up to its end.  An entry without a key mark is
a key without a value. -/
def flowPairs : Nat -> Bool -> Reader (List (Nat × Nat))
  | 0, _ => throw .malformed
  | fuel + 1, first => do
      if ← isAt [.flowMappingEnd] then
        skip
        return []
      else
        takeComma first
        if ← isAt [.key] then
          skip
          let k ← optionalNode fuel false false
            [.value, .flowEntry, .flowMappingEnd]
          let v ← valueHere fuel false [.flowEntry, .flowMappingEnd]
          return (k, v) :: (← flowPairs fuel false)
        else if ← isAt [.flowMappingEnd] then
          skip
          return []
        else
          let k ← nodeHere fuel false false
          let v ← addEmpty
          return (k, v) :: (← flowPairs fuel false)

end

/-!
## Documents
-/

def standardHandles : List (String × String) :=
  [("!", "!"), ("!!", "tag:yaml.org,2002:")]

/-- The handles that the directives define.  The version may be given once and
has to be 1, and a handle may be defined once. -/
def directives : Nat -> Bool -> List (String × String) ->
    Reader (List (String × String))
  | 0, _, _ => throw .malformed
  | fuel + 1, versioned, handles => do
      match ← peek with
      | some (.versionDirective major) =>
          skip
          if versioned || major != 1 then throw .malformed
          else directives fuel true handles
      | some (.tagDirective handle uri) =>
          skip
          if (handles.lookup handle).isSome then throw .malformed
          else directives fuel versioned ((handle, uri) :: handles)
      | some .otherDirective =>
          skip
          directives fuel versioned handles
      | _ => return handles

def isDirective : Token -> Bool
  | .versionDirective _ => true
  | .tagDirective _ _ => true
  | .otherDirective => true
  | _ => false

def isBoundary (t : Token) : Bool :=
  isDirective t || t == .documentStart || t == .documentEnd

def skipEnds : Nat -> Reader Unit
  | 0 => pure ()
  | fuel + 1 => do
      if ← isAt [.documentEnd] then
        skip
        skipEnds fuel

def finish (fuel : Nat) : Reader Unit := do
  skipEnds fuel
  if (← peek).isSome then
    let _ ← directives fuel false []
    throw .malformed

def content (fuel : Nat) (handles : List (String × String)) : Reader Nat := do
  modify fun s => { s with handles := handles }
  nodeHere fuel true false

def document (fuel : Nat) : Reader (Option Nat) := do
  match ← peek with
  | none => return none
  | some t =>
      if isDirective t || t == .documentStart then
        let handles ← directives fuel false []
        if ← isAt [.documentStart] then
          skip
          let root ←
            if (← peek).all isBoundary then addEmpty
            else content fuel (handles ++ standardHandles)
          finish fuel
          return some root
        else throw .malformed
      else
        let root ← content fuel standardHandles
        finish fuel
        return some root

def ofTokens (ts : List Token) (problem : Option Problem) :
    Except Problem (Option Graph) := do
  let (root, s) ← (document (8 * ts.length + 8)).run
    ⟨ts, problem, [], [], #[], false⟩
  return root.map fun root =>
    ⟨s.nodes.map fun n => n.getD ⟨.null, .scalar ""⟩, root, s.loops⟩

end Graph
end Yaml
end Ambient
