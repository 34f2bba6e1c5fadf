import Ambient.Value.Display

/-!
# JSON text of values

Items are separated by a comma and a blank, keys by a colon and a blank.  Every
code point that is not a printable one of ASCII is escaped, those beyond the
basic plane as a surrogate pair.  A key that is no text is written as the text
of its value.  Moments, bytes and sets have no JSON form, nor has a collection
that holds itself.
-/

namespace Ambient
namespace Json

def unitEscape (n : Nat) : List Char := '\\' :: 'u' :: Text.hexDigits 4 n

def escapeCode (n : Nat) : List Char :=
  if n == 0x22 then ['\\', '"']
  else if n == 0x5C then ['\\', '\\']
  else if n == 0x0A then ['\\', 'n']
  else if n == 0x0D then ['\\', 'r']
  else if n == 0x09 then ['\\', 't']
  else if n == 0x08 then ['\\', 'b']
  else if n == 0x0C then ['\\', 'f']
  else if 0x20 ≤ n && n ≤ 0x7E then [Char.ofNat n]
  else if n < 0x10000 then unitEscape n
  else
    let n := n - 0x10000
    unitEscape (0xD800 + n / 0x400) ++ unitEscape (0xDC00 + n % 0x400)

def quote (s : String) : String :=
  String.ofList ('"' :: (Text.codes s.toList).flatMap escapeCode ++ ['"'])

def scalar : Value -> Except Fault String
  | .null => .ok "null"
  | .bool b => .ok (if b then "true" else "false")
  | .int n => Value.shortIntText n
  | .double x => .ok (x.write NumberFormat.json)
  | .str s => .ok (quote s)
  | _ => .error .noJson

def key : Value -> Except Fault String
  | .str s => .ok (quote s)
  | k => (scalar k).map quote

mutual

/-- The JSON text of a value; `around` has the labels of the collections around
it. -/
def textIn (around : List Nat) : Value -> Except Fault String
  | .list items => do
      return "[" ++ ", ".intercalate (← itemTexts around items) ++ "]"
  | .map entries => do
      return "\x7b" ++ ", ".intercalate (← entryTexts around entries) ++ "\x7d"
  | .pair first second => do
      let first ← textIn around first
      let second ← textIn around second
      return "[" ++ first ++ ", " ++ second ++ "]"
  | .tied label body =>
      if around.contains label then .error .circular
      else textIn (label :: around) body
  | .again _ => .error .circular
  | v => scalar v

def itemTexts (around : List Nat) : List Value -> Except Fault (List String)
  | [] => .ok []
  | v :: vs => do
      let t ← textIn around v
      return t :: (← itemTexts around vs)

def entryTexts (around : List Nat) :
    List (Value × Value) -> Except Fault (List String)
  | [] => .ok []
  | (k, v) :: rest => do
      let k ← key k
      let t ← textIn around v
      return (k ++ ": " ++ t) :: (← entryTexts around rest)

end

def text (v : Value) : Except Fault String := textIn [] v

end Json
end Ambient
