import Ambient.Moment
import Ambient.Yaml.Problem

/-!
# Kinds of nodes

A tag says what a node stands for.  Without one the text of a plain scalar
decides: nothing, a truth value, a number, a moment, one of the two special
keys, or else a text.  Integers may be binary, octal, hexadecimal or in base
sixty; underscores between digits have no meaning.  A number with a fraction
needs a point, and its exponent needs a sign.  A line break at the end of the
text does not matter.
-/

namespace Ambient
namespace Yaml

inductive Kind where
  | text
  | null
  | bool
  | int
  | float
  | moment
  | bytes
  | merge
  | equals
  | list
  | map
  | set
  | pairs
  | unknown
deriving DecidableEq, Repr

namespace Kind

def isCollection (kind : Kind) : Bool := [list, map, set, pairs].contains kind

def standardTag : String := "tag:yaml.org,2002:"

def ofAddress (uri : String) : Kind :=
  let table : List (String × Kind) :=
    [("str", text), ("null", null), ("bool", bool), ("int", int),
      ("float", float), ("timestamp", moment), ("binary", bytes),
      ("merge", merge), ("value", equals), ("seq", list), ("map", map),
      ("set", set), ("omap", pairs), ("pairs", pairs)]
  let known := table.findSome? fun (name, kind) =>
    if uri == standardTag ++ name then some kind else none
  known.getD unknown

/-!
## Shapes of plain scalars
-/

def isLooseDigit (c : Char) : Bool := c.isDigit || c == '_'

def unsigned : List Char -> List Char
  | '-' :: cs => cs
  | '+' :: cs => cs
  | cs => cs

/-- A part of a number in base sixty, after its colon: one digit, or two of
which the first is at most five. -/
def isSixtieth : List Char -> Bool
  | [c] => c.isDigit
  | [c, d] => '0' ≤ c && c ≤ '5' && d.isDigit
  | _ => false

def colonParts : List Char -> List (List Char)
  | [] => [[]]
  | c :: cs =>
      match colonParts cs with
      | [] => [[c]]
      | part :: parts =>
          if c == ':' then [] :: part :: parts else (c :: part) :: parts

def isIntBody (cs : List Char) : Bool :=
  match cs with
  | ['0'] => true
  | '0' :: 'b' :: ds => !ds.isEmpty && ds.all fun c =>
      c == '0' || c == '1' || c == '_'
  | '0' :: 'x' :: ds =>
      !ds.isEmpty && ds.all fun c =>
        isLooseDigit c || ('a' ≤ c && c ≤ 'f') || ('A' ≤ c && c ≤ 'F')
  | '0' :: ds => ds.all fun c => ('0' ≤ c && c ≤ '7') || c == '_'
  | c :: _ =>
      c.isDigit &&
        match colonParts cs with
        | [] => false
        | first :: parts => first.all isLooseDigit && parts.all isSixtieth
  | [] => false

def isExponent : List Char -> Bool
  | [] => true
  | e :: sign :: ds =>
      (e == 'e' || e == 'E') && (sign == '-' || sign == '+') && !ds.isEmpty &&
        ds.all Char.isDigit
  | _ => false

def afterPoint (cs : List Char) : List Char := cs.dropWhile isLooseDigit

def isFloat (cs : List Char) : Bool :=
  let body := unsigned cs
  let word := String.ofList body
  if word == ".inf" || word == ".Inf" || word == ".INF" then true
  else
    let text := String.ofList cs
    if text == ".nan" || text == ".NaN" || text == ".NAN" then true
    else
      match cs, body with
      | '.' :: c :: rest, _ => c.isDigit && isExponent (afterPoint rest)
      | _, c :: _ =>
          c.isDigit &&
            match body.dropWhile fun c => c != '.' with
            | _ :: fraction =>
                match colonParts (body.takeWhile fun c => c != '.') with
                | [whole] =>
                    whole.all isLooseDigit && isExponent (afterPoint fraction)
                | whole :: parts =>
                    whole.all isLooseDigit && parts.all isSixtieth &&
                      fraction.all isLooseDigit
                | [] => false
            | [] => false
      | _, [] => false

def digits? (least most : Nat) (cs : List Char) : Option (Nat × List Char) :=
  let ds := (cs.take most).takeWhile Char.isDigit
  if least ≤ ds.length then
    some (ds.foldl (fun n c => n * 10 + (c.toNat - 0x30)) 0, cs.drop ds.length)
  else none

def char? (c : Char) : List Char -> Option (List Char)
  | d :: cs => if d == c then some cs else none
  | [] => none

def offset? (cs : List Char) : Option (Option Int) :=
  match cs.dropWhile fun c => c == ' ' || c == '\t' with
  | [] => if cs.isEmpty then some none else none
  | ['Z'] => some (some 0)
  | sign :: rest =>
      if sign == '-' || sign == '+' then do
        let (hours, rest) ← digits? 1 2 rest
        let minutes ←
          match rest with
          | [] => some 0
          | ':' :: rest =>
              match digits? 2 2 rest with
              | some (m, []) => some m
              | _ => none
          | _ => none
        let total : Int := hours * 60 + minutes
        return some (if sign == '-' then -total else total)
      else none

/-- The microseconds of a fraction of a second, of which six digits count. -/
def microseconds (ds : List Char) : Nat :=
  ((ds ++ List.replicate 6 '0').take 6).foldl
    (fun n c => n * 10 + (c.toNat - 0x30)) 0

def fraction (cs : List Char) : Nat × List Char :=
  match cs with
  | '.' :: rest =>
      (microseconds (rest.takeWhile Char.isDigit), rest.dropWhile Char.isDigit)
  | _ => (0, cs)

def dayDivider? (cs : List Char) : Option (List Char) :=
  match cs with
  | 'T' :: rest => some rest
  | 't' :: rest => some rest
  | c :: rest =>
      if c == ' ' || c == '\t' then
        some (rest.dropWhile fun c => c == ' ' || c == '\t')
      else none
  | [] => none

def moment? (cs : List Char) : Option Moment := do
  let (year, rest) ← digits? 4 4 cs
  let afterYear ← char? '-' rest
  let (month, rest) ← digits? 1 2 afterYear
  let afterMonth ← char? '-' rest
  let (day, rest) ← digits? 1 2 afterMonth
  if rest.isEmpty then return .day year month day
  else
    let rest ← dayDivider? rest
    let (hour, rest) ← digits? 1 2 rest
    let (minute, rest) ← digits? 2 2 (← char? ':' rest)
    let (second, rest) ← digits? 2 2 (← char? ':' rest)
    let (micro, rest) := fraction rest
    let offset ← offset? rest
    return .time year month day hour minute second micro offset

/-- Whether a text has the shape of a moment, the month and the day of two
digits unless a time follows. -/
def isMoment (cs : List Char) : Bool :=
  match moment? cs with
  | some (.day _ _ _) => cs.length == 10
  | some (.time _ _ _ _ _ _ _ _) => true
  | none => false

def boolWords : List String :=
  ["yes", "Yes", "YES", "no", "No", "NO", "true", "True", "TRUE", "false",
    "False", "FALSE", "on", "On", "ON", "off", "Off", "OFF"]

def nullWords : List String := ["~", "null", "Null", "NULL"]

def ofChars (cs : List Char) : Kind :=
  let s := String.ofList cs
  if boolWords.contains s then bool
  else if isFloat cs then float
  else if isIntBody (unsigned cs) then int
  else if s == "<<" then merge
  else if nullWords.contains s then null
  else if isMoment cs then moment
  else if s == "=" then equals
  else if s == "!" || s == "&" || s == "*" then unknown
  else text

def dropFinalBreak (cs : List Char) : List Char :=
  if cs.getLast? == some '\n' then cs.dropLast else cs

def ofText (s : String) : Kind :=
  if s = "" then null
  else
    let cs := dropFinalBreak s.toList
    if cs.isEmpty then text else ofChars cs

end Kind
end Yaml
end Ambient
