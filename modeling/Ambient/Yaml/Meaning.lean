import Ambient.Number.Numeral
import Ambient.Value
import Ambient.Yaml.Kind

/-!
# What scalars mean

The value that the text of a scalar has as one of a kind.  A tag may give a
scalar any kind, so that the text need not have the shape of it.
-/

namespace Ambient
namespace Yaml
namespace Meaning

def orRange {α : Type} : Option α -> Except Problem α
  | some a => .ok a
  | none => .error .outOfRange

def sixtieths (cs : List Char) : List (List Char) := Kind.colonParts cs

def digitsOf (s : String) : List Char := s.toList.filter (· != '_')

def unsignedInt : List Char -> Except Problem Int
  | [] => .error .emptyNumber
  | ['0'] => .ok 0
  | '0' :: 'b' :: cs => orRange (Numeral.integer? 2 cs)
  | '0' :: 'x' :: cs => orRange (Numeral.integer? 16 cs)
  | '0' :: cs => orRange (Numeral.integer? 8 ('0' :: cs))
  | cs => do
      let parts ← orRange ((sixtieths cs).mapM (Numeral.integer? 10))
      return parts.foldl (fun total part => total * 60 + part) 0

/-- The integer of a text.  The parts between colons are counted in base
sixty. -/
def intValue (s : String) : Except Problem Int :=
  match digitsOf s with
  | [] => .error .emptyNumber
  | cs => do
      let (negative, cs) := Numeral.cutSign cs
      let n ← unsignedInt cs
      return if negative then -n else n

/-- The sum of the parts of a number in base sixty, from the last part on.  Each
power of sixty, each product and each sum is rounded. -/
def sixtiethSum : Double -> Nat -> List Double -> Except Problem Double
  | total, _, [] => .ok total
  | total, power, part :: parts =>
      match Double.ofNat? power with
      | some base => sixtiethSum (total.add (part.mul base)) (power * 60) parts
      | none => .error .tooLarge

def unsignedFloat (cs : List Char) : Except Problem Double :=
  if String.ofList cs = ".inf" then .ok (.infinity false)
  else
    match sixtieths cs with
    | [_] => orRange (Numeral.number? cs)
    | parts => do
        let parts ← orRange (parts.mapM Numeral.number?)
        sixtiethSum (Double.zero false) 1 parts.reverse

def withOrigin (origin : Nat) : Double -> Double
  | .nan _ => .nan origin
  | x => x

/-- The number of a text.  What is not a number has the given origin, except for
the constant. -/
def floatValue (origin : Nat) (s : String) : Except Problem Double :=
  match (digitsOf s).map Char.toLower with
  | [] => .error .emptyNumber
  | cs =>
      let (negative, cs) := Numeral.cutSign cs
      if String.ofList cs = ".nan" then .ok (.nan 0)
      else do
        let x ← unsignedFloat cs
        return withOrigin origin (if negative then x.neg else x)

def boolValue (s : String) : Except Problem Bool :=
  let word := s.map Char.toLower
  if word = "yes" || word = "true" || word = "on" then .ok true
  else if word = "no" || word = "false" || word = "off" then .ok false
  else .error .unknownWord

def momentValue (s : String) : Except Problem Moment :=
  match Kind.moment? (Kind.dropFinalBreak s.toList) with
  | some t => if t.isValid then .ok t else .error .outOfRange
  | none => .error .noMoment

def bytesValue (s : String) : Except Problem Bytes :=
  match Bytes.decode? s.toList with
  | some bs => .ok bs
  | none => .error .malformed

/-- The value of a scalar of a kind; `origin` tells it apart from other
scalars. -/
def valueOf (origin : Nat) (kind : Kind) (s : String) : Except Problem Value :=
  match kind with
  | .text => .ok (.str s)
  | .null => .ok .null
  | .bool => (boolValue s).map .bool
  | .int => (intValue s).map .int
  | .float => (floatValue origin s).map .double
  | .moment => (momentValue s).map .moment
  | .bytes => (bytesValue s).map .bytes
  | _ => .error .malformed

end Meaning
end Yaml
end Ambient
