import Ambient.Fault
import Ambient.Yaml.Meaning
import Ambient.Yaml.Node

/-!
# The value of a YAML document

The values of the nodes are made in order: a scalar at once, a collection empty
at first.  The collections are filled one after the other in the order in which
they were made, so that of several problems the first in this order is reported,
and a collection may hold itself.  A mapping takes the entries of the mappings
under its merge keys before its own.  A key may be no collection.
-/

namespace Ambient
namespace Yaml
namespace Document

inductive Made where
  | value (v : Value)
  | list (items : List Nat)
  | map (entries : List (Value × Nat))
  | set (items : List Value)
  | pairs (entries : List (Nat × Nat))

/-- What is known while values are made: the nodes, with merge keys replaced as
they are met, what has been made of them, and the collections that are still to
be filled, the last first. -/
structure State where
  nodes : Array Node
  made : Array (Option Made)
  waiting : List Nat

abbrev Maker := StateT State (Except Problem)

def nodeAt (number : Nat) : Maker Node := do
  return (← get).nodes.getD number ⟨.null, .scalar ""⟩

def setNode (number : Nat) (n : Node) : Maker Unit :=
  modify fun s => { s with nodes := s.nodes.setIfInBounds number n }

def setMade (number : Nat) (m : Made) : Maker Unit :=
  modify fun s => { s with made := s.made.setIfInBounds number (some m) }

def entriesOf (n : Node) : List (Nat × Nat) :=
  match n.content with
  | .mapping entries => entries
  | _ => []

/-!
## Scalars
-/

def findKind (kind : Kind) : List (Nat × Nat) -> Maker (Option Nat)
  | [] => return none
  | (k, v) :: rest => do
      if (← nodeAt k).kind = kind then return some v else findKind kind rest

/-- The text of a node where a scalar is expected.  A mapping stands for its
entry under the special key `=`. -/
def textOf : Nat -> Nat -> Maker String
  | 0, _ => throw .endless
  | fuel + 1, number => do
      match (← nodeAt number).content with
      | .scalar text => return text
      | .sequence _ => throw .malformed
      | .mapping entries =>
          match ← findKind .equals entries with
          | some value => textOf fuel value
          | none => throw .malformed

def isScalar (n : Node) : Bool :=
  match n.content with
  | .scalar _ => true
  | _ => false

def scalarValue (number : Nat) : Maker Value := do
  let n ← nodeAt number
  if [Kind.merge, .equals, .unknown].contains n.kind then throw .malformed
  else
    let text ← textOf ((← get).nodes.size + 1) number
    if n.kind = .moment && !isScalar n then throw .structuredMoment
    else Meaning.valueOf (number + 1) n.kind text

/-!
## Merge keys
-/

mutual

/-- Replaces the merge keys of a mapping by the entries that they bring, put
before its own.  The special key `=` becomes a text. -/
def flatten : Nat -> Nat -> Maker Unit
  | 0, _ => throw .endless
  | fuel + 1, number => do
      let merged ← flattenFrom fuel number 0 []
      let n ← nodeAt number
      setNode number { n with content := .mapping (merged ++ entriesOf n) }

def flattenFrom : Nat -> Nat -> Nat -> List (Nat × Nat) ->
    Maker (List (Nat × Nat))
  | 0, _, _, _ => throw .endless
  | fuel + 1, number, position, merged => do
      let n ← nodeAt number
      match (entriesOf n)[position]? with
      | none => return merged
      | some (k, v) =>
          let key ← nodeAt k
          match key.kind with
          | .merge =>
              setNode number
                { n with content := .mapping ((entriesOf n).eraseIdx position) }
              let more ← mergedEntries fuel v
              flattenFrom fuel number position (merged ++ more)
          | .equals =>
              setNode k { key with kind := .text }
              flattenFrom fuel number (position + 1) merged
          | _ => flattenFrom fuel number (position + 1) merged

/-- The entries that a merge key brings: those of a mapping, or those of
several, the last first. -/
def mergedEntries : Nat -> Nat -> Maker (List (Nat × Nat))
  | 0, _ => throw .endless
  | fuel + 1, number => do
      match (← nodeAt number).content with
      | .mapping _ =>
          flatten fuel number
          return entriesOf (← nodeAt number)
      | .sequence items => mergedLists fuel items
      | .scalar _ => throw .malformed

def mergedLists : Nat -> List Nat -> Maker (List (Nat × Nat))
  | 0, _ => throw .endless
  | _ + 1, [] => return []
  | fuel + 1, number :: rest => do
      match (← nodeAt number).content with
      | .mapping _ =>
          flatten fuel number
          let entries := entriesOf (← nodeAt number)
          return (← mergedLists fuel rest) ++ entries
      | _ => throw .malformed

end

def mergeFuel (nodes : Array Node) : Nat :=
  let entries := nodes.foldl (fun n node => n + (entriesOf node).length + 2) 8
  entries * entries

/-!
## Collections
-/

def make (number : Nat) : Maker Unit := do
  if ((← get).made.getD number none).isNone then
    let n ← nodeAt number
    if n.kind.isCollection then
      setMade number (.list [])
      modify fun s => { s with waiting := number :: s.waiting }
    else setMade number (.value (← scalarValue number))

def makeAll : List Nat -> Maker Unit
  | [] => pure ()
  | number :: rest => do
      make number
      makeAll rest

def makeKey (number : Nat) : Maker Value := do
  make number
  match (← get).made.getD number none with
  | some (.value v) => if v.isKey then return v else throw .malformed
  | _ => throw .malformed

def place (key : Value) (number : Nat) :
    List (Value × Nat) -> List (Value × Nat)
  | [] => [(key, number)]
  | (k, n) :: rest =>
      if Value.sameKey k key then (k, number) :: rest
      else (k, n) :: place key number rest

def makeEntries : List (Nat × Nat) -> List (Value × Nat) ->
    Maker (List (Value × Nat))
  | [], made => return made
  | (k, v) :: rest, made => do
      let key ← makeKey k
      make v
      makeEntries rest (place key v made)

def fillEntries (fuel number : Nat) : Maker (List (Value × Nat)) := do
  match (← nodeAt number).content with
  | .mapping _ =>
      flatten fuel number
      makeEntries (entriesOf (← nodeAt number)) []
  | _ => throw .malformed

def makePairs : List Nat -> Maker (List (Nat × Nat))
  | [] => return []
  | number :: rest => do
      match (← nodeAt number).content with
      | .mapping [(k, v)] =>
          make k
          make v
          return (k, v) :: (← makePairs rest)
      | _ => throw .malformed

def fill (fuel number : Nat) : Maker Unit := do
  let n ← nodeAt number
  match n.kind, n.content with
  | .map, _ => setMade number (.map (← fillEntries fuel number))
  | .set, _ => setMade number (.set ((← fillEntries fuel number).map Prod.fst))
  | .pairs, .sequence items => setMade number (.pairs (← makePairs items))
  | .list, .sequence items =>
      makeAll items
      setMade number (.list items)
  | _, _ => throw .malformed

def fillAll (fuel : Nat) : List Nat -> Maker Unit
  | [] => pure ()
  | number :: rest => do
      fill fuel number
      fillAll fuel rest

/-- Fills all collections that are made, and those that are made while they are
filled, in at most as many rounds as given. -/
def fillWaiting (fuel : Nat) : Nat -> Maker Unit
  | 0 => pure ()
  | rounds + 1 => do
      match (← get).waiting.reverse with
      | [] => pure ()
      | numbers =>
          modify fun s => { s with waiting := [] }
          fillAll fuel numbers
          fillWaiting fuel rounds

/-!
## Values
-/

/-- The value of a node, given the numbers of the collections around it.  Where
some alias stands inside the node that it names, every collection is tied under
its number. -/
def assemble (made : Array (Option Made)) (loops : Bool) :
    Nat -> List Nat -> Nat -> Value
  | 0, _, _ => .null
  | fuel + 1, around, number =>
      let tie (v : Value) : Value := if loops then .tied number v else v
      let inner := assemble made loops fuel (number :: around)
      match made.getD number none with
      | none => .null
      | some (.value v) => v
      | some m =>
          if around.contains number then .again number
          else
            match m with
            | .value v => v
            | .list items => tie (.list (items.map inner))
            | .map entries =>
                tie (.map (entries.map fun (k, n) => (k, inner n)))
            | .set items => .set items
            | .pairs entries =>
                tie (.list (entries.map fun (k, n) =>
                  .pair (inner k) (inner n)))

def valueOf (g : Graph) : Except Problem Value := do
  let size := g.nodes.size
  let build : Maker Unit := do
    make g.root
    fillWaiting (mergeFuel g.nodes) (size + 1)
  let (_, s) ← build.run ⟨g.nodes, Array.replicate size none, []⟩
  return assemble s.made g.loops (size + 1) [] g.root

end Document

def read (source : String) : Except Problem Value := do
  let (ts, problem) := tokens source
  match ← Graph.ofTokens ts problem with
  | none => return .null
  | some g => Document.valueOf g

def load (source : String) : Except Fault Value :=
  match read source with
  | .ok v => .ok v
  | .error problem => .error (.unreadable problem)

end Yaml
end Ambient
