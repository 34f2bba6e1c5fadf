import Ambient.TypeExpr.Basic

/-!
# Type text

The TypeScript text of a type expression.  The catch-all names, `object` and
`function` get one spelling each; an array and a mapping written as generics
become `T[]` and an index signature.
-/

namespace Ambient
namespace TypeExpr

def lowered (s : String) : String := String.ofList (s.toList.map Char.toLower)

/-- Whether a text is the given word of small letters, up to case.  No letter
beyond ASCII has a small letter of these words as its small form. -/
def isWordUpToCase (word s : String) : Bool := lowered s == word

def renderName (name : String) : String :=
  if name = "mixed" then "any"
  else if isWordUpToCase "object" name then "object"
  else if name = "function" then "Function"
  else name

def renderMapping (key value : String) : String :=
  "\x7b [k: " ++ key ++ "]: " ++ value ++ " \x7d"

def renderGeneric (base : String) (args : List String) : String :=
  let other := renderName base ++ "<" ++ ", ".intercalate args ++ ">"
  match args with
  | [a] =>
      if isWordUpToCase "array" base then a ++ "[]"
      else if isWordUpToCase "object" base then renderMapping "string" a
      else other
  | [a, b] => if isWordUpToCase "object" base then renderMapping a b else other
  | _ => other

mutual

def render : TypeExpr -> String
  | any => "any"
  | name text => renderName text
  | literal text => text
  | generic base args => renderGeneric base (renderAll args)
  | array element => render element ++ "[]"
  | union members => "(" ++ "|".intercalate (renderAll members) ++ ")"
  | nullable inner => "(" ++ render inner ++ "|null)"
  | function => "Function"
  | record entries =>
      if entries.isEmpty then "\x7b\x7d"
      else "\x7b " ++ ", ".intercalate (renderEntries entries) ++ " \x7d"

def renderAll : List TypeExpr -> List String
  | [] => []
  | e :: es => render e :: renderAll es

def renderEntries : List RecordEntry -> List String
  | [] => []
  | entry :: entries => renderEntry entry :: renderEntries entries

def renderEntry : RecordEntry -> String
  | .bare key optional => key ++ (if optional then "?" else "") ++ ": any"
  | .field key optional value =>
      key ++ (if optional then "?" else "") ++ ": " ++ render value
  | .index key keyType value =>
      "[" ++ key ++ ": " ++ render keyType ++ "]: " ++ render value

end

end TypeExpr
end Ambient
