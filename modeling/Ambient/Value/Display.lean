import Ambient.Fault
import Ambient.Number.Numeral
import Ambient.Value

/-!
# Display of values

The text that a value stands for where a name is expected.  A text stands for
itself; inside a collection it is quoted.  A collection inside itself is shown
as three dots between its brackets. An integer of too many digits has no
display.
-/

namespace Ambient
namespace Value

def intText (n : Int) : String :=
  (if n < 0 then "-" else "") ++ String.ofList (Decimal.digitsOf n.natAbs)

def shortIntText (n : Int) : Except Fault String :=
  if Numeral.isTooLong n then .error .longNumber else .ok (intText n)

def dots : Value -> String
  | map _ => "\x7b...\x7d"
  | _ => "[...]"

mutual

/-- A value inside a collection; `around` has the labels of the collections
around it, with what is shown in their place. -/
def term (around : List (Nat × String)) : Value -> Except Fault String
  | null => .ok "None"
  | bool b => .ok (if b then "True" else "False")
  | int n => shortIntText n
  | double x => .ok (x.write NumberFormat.plain)
  | str s => .ok (Text.quoted s)
  | moment t => .ok t.term
  | bytes bs => .ok (Bytes.display bs)
  | list items => do
      return "[" ++ ", ".intercalate (← itemTerms around items) ++ "]"
  | map entries => do
      return "\x7b" ++ ", ".intercalate (← entryTerms around entries) ++ "\x7d"
  | set [] => .ok "set()"
  | set items => do
      return "\x7b" ++ ", ".intercalate (← itemTerms around items) ++ "\x7d"
  | pair first second => do
      let first ← term around first
      let second ← term around second
      return "(" ++ first ++ ", " ++ second ++ ")"
  | tied label body =>
      match around.lookup label with
      | some shown => .ok shown
      | none => term ((label, dots body) :: around) body
  | again label => .ok ((around.lookup label).getD "[...]")

def itemTerms (around : List (Nat × String)) :
    List Value -> Except Fault (List String)
  | [] => .ok []
  | v :: vs => do
      let t ← term around v
      return t :: (← itemTerms around vs)

def entryTerms (around : List (Nat × String)) :
    List (Value × Value) -> Except Fault (List String)
  | [] => .ok []
  | (k, v) :: rest => do
      let key ← term around k
      let value ← term around v
      return (key ++ ": " ++ value) :: (← entryTerms around rest)

end

def display : Value -> Except Fault String
  | str s => .ok s
  | moment t => .ok (t.isoText " ")
  | v => term [] v

end Value
end Ambient
