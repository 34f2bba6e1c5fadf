import Ambient.Bytes
import Ambient.Moment

/-!
# Values

The values that a doclet dump, an options file or a query can hold.  A mapping
keeps its entries in the order in which their keys first came; a repeated key
keeps its place and takes the last value. Two keys are the same when they are
equal as values, and numbers of different kinds may be equal: `1`, `1.0` and
`true` are one key.

A collection may hold itself.  It is then tied under a label, which tells it
apart from others, and stands inside itself as "again" with that label.  To look
inside it, it is unfolded: each "again" of its label becomes the whole
collection.
-/

namespace Ambient

inductive Value where
  | null
  | bool (b : Bool)
  | int (n : Int)
  | double (x : Double)
  | str (s : String)
  | moment (t : Moment)
  | bytes (bs : Bytes)
  | list (items : List Value)
  | map (entries : List (Value × Value))
  | set (items : List Value)
  | pair (first second : Value)
  | tied (label : Nat) (body : Value)
  | again (label : Nat)
deriving Repr, Inhabited

namespace Value

/-- Whether a value counts as present: null, false, zero and everything empty do
not. -/
def truthy : Value -> Bool
  | null => false
  | bool b => b
  | int n => n != 0
  | double x => !x.isZero
  | str s => s != ""
  | moment _ => true
  | bytes bs => !bs.isEmpty
  | list items => !items.isEmpty
  | map entries => !entries.isEmpty
  | set items => !items.isEmpty
  | pair _ _ => true
  | tied _ body => body.truthy
  | again _ => true

/-!
## Values that hold themselves
-/

mutual

def substitute (label : Nat) (whole : Value) : Value -> Value
  | again l => if l = label then whole else again l
  | tied l body =>
      if l = label then tied l body else tied l (substitute label whole body)
  | list items => list (substituteItems label whole items)
  | map entries => map (substituteEntries label whole entries)
  | pair first second =>
      pair (substitute label whole first) (substitute label whole second)
  | v => v

def substituteItems (label : Nat) (whole : Value) : List Value -> List Value
  | [] => []
  | v :: vs => substitute label whole v :: substituteItems label whole vs

def substituteEntries (label : Nat) (whole : Value) :
    List (Value × Value) -> List (Value × Value)
  | [] => []
  | (k, v) :: rest =>
      (k, substitute label whole v) :: substituteEntries label whole rest

end

/-- A value that can be looked into. -/
def unfold : Value -> Value
  | tied label body => substitute label (tied label body) body
  | v => v

/-!
## Keys and entries
-/

/-- The integer that a number is equal to; truth values count as 0 and 1. -/
def integer? : Value -> Option Int
  | bool b => some (if b then 1 else 0)
  | int n => some n
  | double x => x.integer?
  | _ => none

def sameKey : Value -> Value -> Bool
  | null, null => true
  | str s, str t => s == t
  | moment s, moment t => s.same t
  | bytes s, bytes t => s == t
  | double x, double y => x.sameKey y
  | v, w =>
      match v.integer?, w.integer? with
      | some m, some n => m == n
      | _, _ => false

def isKey : Value -> Bool
  | list _ => false
  | map _ => false
  | set _ => false
  | pair _ _ => false
  | tied _ _ => false
  | again _ => false
  | _ => true

def find? (key : Value) : List (Value × Value) -> Option Value
  | [] => none
  | (k, v) :: rest => if sameKey k key then some v else find? key rest

def get? (key : String) (entries : List (Value × Value)) : Option Value :=
  find? (str key) entries

def put (key value : Value) : List (Value × Value) -> List (Value × Value)
  | [] => [(key, value)]
  | (k, v) :: rest =>
      if sameKey k key then (k, value) :: rest else (k, v) :: put key value rest

def ofEntries (entries : List (Value × Value)) : Value :=
  map (entries.foldl (fun acc entry => put entry.1 entry.2 acc) [])

def getD (key : String) (entries : List (Value × Value)) : Value :=
  (get? key entries).getD null

def orElse (v alternative : Value) : Value :=
  if v.truthy then v else alternative

def entries? (v : Value) : Option (List (Value × Value)) :=
  match v.unfold with
  | map entries => some entries
  | _ => none

/-- The things a value runs through where a list is expected: the items of a
list or a set, the two parts of a pair, the code points of a text, the numbers
of bytes, the keys of a mapping, nothing for a value that counts as absent.
Other values have none. -/
def items? (v : Value) : Option (List Value) :=
  match v.unfold with
  | list items => some items
  | set items => some items
  | pair first second => some [first, second]
  | str s => some ((Text.pieces s).map str)
  | bytes bs => some (bs.map fun b => int b.toNat)
  | map entries => some (entries.map Prod.fst)
  | v => if v.truthy then none else some []

end Value
end Ambient
