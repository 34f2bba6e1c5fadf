import Ambient.Number.Numeral
import Ambient.Value

/-!
# Reading JSON

The reader takes the JSON grammar, and `NaN`, `Infinity` and `-Infinity` as
numbers.  A number without fraction and exponent is an integer, which may not
have too many digits; every other one is rounded to a double.  Control
characters below the blank may not stand in a text, and two escapes may form a
surrogate pair.  A repeated key keeps its place and takes the last value.
-/

namespace Ambient
namespace Json

inductive Refusal where
  | malformed
  | longNumber
deriving DecidableEq, Repr

namespace Reader

def isJsonBlank (c : Char) : Bool :=
  c == ' ' || c == '\t' || c == '\n' || c == '\r'

def skipBlanks (cs : List Char) : List Char := cs.dropWhile isJsonBlank

def after? : List Char -> List Char -> Option (List Char)
  | [], cs => some cs
  | w :: ws, c :: cs => if w == c then after? ws cs else none
  | _ :: _, [] => none

def hexValue? (c : Char) : Option Nat :=
  let n := c.toNat
  if 0x30 ≤ n && n ≤ 0x39 then some (n - 0x30)
  else if 0x41 ≤ n && n ≤ 0x46 then some (n - 0x37)
  else if 0x61 ≤ n && n ≤ 0x66 then some (n - 0x57)
  else none

def hexNumber? : Nat -> Nat -> List Char -> Option (Nat × List Char)
  | 0, acc, cs => some (acc, cs)
  | width + 1, acc, c :: cs => (hexValue? c).bind fun d =>
      hexNumber? width (acc * 16 + d) cs
  | _ + 1, _, [] => none

def decimalValue (ds : List Char) : Nat :=
  ds.foldl (fun acc d => acc * 10 + (d.toNat - 0x30)) 0

def unicodeEscape? (cs : List Char) : Option (Nat × List Char) :=
  match hexNumber? 4 0 cs with
  | none => none
  | some (first, rest) =>
      match rest with
      | '\\' :: 'u' :: more =>
          match hexNumber? 4 0 more with
          | some (second, more) =>
              if Text.isHighHalf first && Text.isLowHalf second then
                some (Text.joinHalves first second, more)
              else some (first, rest)
          | none => some (first, rest)
      | _ => some (first, rest)

def simpleEscape? (c : Char) : Option Char :=
  if c == '"' || c == '\\' || c == '/' then some c
  else if c == 'b' then some (Char.ofNat 0x08)
  else if c == 'f' then some (Char.ofNat 0x0C)
  else if c == 'n' then some '\n'
  else if c == 'r' then some '\r'
  else if c == 't' then some '\t'
  else none

def textBody? : Nat -> List Char -> Option (List Char × List Char)
  | 0, _ => none
  | fuel + 1, cs =>
      match cs with
      | [] => none
      | '"' :: rest => some ([], rest)
      | '\\' :: 'u' :: rest =>
          match unicodeEscape? rest with
          | some (n, rest) =>
              (textBody? fuel rest).map fun (body, rest) =>
                (Text.ofCode n ++ body, rest)
          | none => none
      | '\\' :: e :: rest =>
          match simpleEscape? e with
          | some c => (textBody? fuel rest).map fun (body, rest) =>
              (c :: body, rest)
          | none => none
      | c :: rest =>
          if c.toNat < 0x20 || c == '\\' then none
          else (textBody? fuel rest).map fun (body, rest) => (c :: body, rest)

def text? (cs : List Char) : Option (String × List Char) :=
  (textBody? (cs.length + 1) cs).map fun (body, rest) =>
    (String.ofList body, rest)

def fraction (cs : List Char) : List Char × List Char :=
  match cs with
  | '.' :: rest =>
      let ds := rest.takeWhile Char.isDigit
      if ds.isEmpty then ([], cs) else (ds, rest.dropWhile Char.isDigit)
  | _ => ([], cs)

def exponent? (cs : List Char) : Option Int × List Char :=
  let digits (negative : Bool) (rest : List Char) : Option Int × List Char :=
    let ds := rest.takeWhile Char.isDigit
    if ds.isEmpty then (none, cs)
    else
      let n : Int := decimalValue ds
      (some (if negative then -n else n), rest.dropWhile Char.isDigit)
  match cs with
  | c :: '-' :: rest =>
      if c == 'e' || c == 'E' then digits true rest else (none, cs)
  | c :: '+' :: rest =>
      if c == 'e' || c == 'E' then digits false rest else (none, cs)
  | c :: rest => if c == 'e' || c == 'E' then digits false rest else (none, cs)
  | [] => (none, cs)

/-- The digits before the point: a single zero, or digits that do not start with
one. -/
def wholeDigits (cs : List Char) : List Char × List Char :=
  match cs with
  | '0' :: rest => (['0'], rest)
  | _ => (cs.takeWhile Char.isDigit, cs.dropWhile Char.isDigit)

def number (negative : Bool) (cs : List Char) :
    Except Refusal (Value × List Char) :=
  let (whole, rest) := wholeDigits cs
  if whole.isEmpty then .error .malformed
  else
    let (frac, rest) := fraction rest
    let (exp?, rest) := exponent? rest
    if frac.isEmpty && exp?.isNone then
      if Numeral.digitLimit < whole.length then .error .longNumber
      else .ok (.int (Double.signed negative (decimalValue whole)), rest)
    else
      let shift : Int := exp?.getD 0 - (frac.length : Int)
      .ok (.double (Double.ofDecimal negative (decimalValue (whole ++ frac))
        shift), rest)

def word (cs : List Char) : Except Refusal (Value × List Char) :=
  let words : List (String × Value) :=
    [("null", .null), ("true", .bool true), ("false", .bool false),
      ("NaN", .double (.nan 0)), ("Infinity", .double (.infinity false)),
      ("-Infinity", .double (.infinity true))]
  match words.firstM fun (word, v) => (after? word.toList cs).map fun rest =>
    (v, rest) with
  | some answer => .ok answer
  | none => .error .malformed

mutual

def value : Nat -> List Char -> Except Refusal (Value × List Char)
  | 0, _ => .error .malformed
  | fuel + 1, cs =>
      match cs with
      | '"' :: rest =>
          match text? rest with
          | some (s, rest) => .ok (.str s, rest)
          | none => .error .malformed
      | '[' :: rest =>
          match skipBlanks rest with
          | ']' :: rest => .ok (.list [], rest)
          | rest => (items fuel rest).map fun (vs, rest) => (.list vs, rest)
      | '\x7b' :: rest =>
          match skipBlanks rest with
          | '\x7d' :: rest => .ok (.map [], rest)
          | rest => (entries fuel rest).map fun (es, rest) =>
              (Value.ofEntries es, rest)
      | '-' :: rest =>
          if (wholeDigits rest).1.isEmpty then word cs else number true rest
      | c :: _ => if c.isDigit then number false cs else word cs
      | [] => .error .malformed

def items : Nat -> List Char -> Except Refusal (List Value × List Char)
  | 0, _ => .error .malformed
  | fuel + 1, cs =>
      match value fuel cs with
      | .error refusal => .error refusal
      | .ok (v, rest) =>
          match skipBlanks rest with
          | ']' :: rest => .ok ([v], rest)
          | ',' :: rest => (items fuel (skipBlanks rest)).map fun (vs, rest) =>
              (v :: vs, rest)
          | _ => .error .malformed

def entries : Nat -> List Char ->
    Except Refusal (List (Value × Value) × List Char)
  | 0, _ => .error .malformed
  | fuel + 1, cs =>
      match cs with
      | '"' :: rest =>
          match text? rest with
          | none => .error .malformed
          | some (key, rest) =>
              match skipBlanks rest with
              | ':' :: rest =>
                  match value fuel (skipBlanks rest) with
                  | .error refusal => .error refusal
                  | .ok (v, rest) =>
                      match skipBlanks rest with
                      | '\x7d' :: rest => .ok ([(.str key, v)], rest)
                      | ',' :: rest =>
                          (entries fuel (skipBlanks rest)).map fun (es, rest) =>
                            ((.str key, v) :: es, rest)
                      | _ => .error .malformed
              | _ => .error .malformed
      | _ => .error .malformed

end

end Reader

open Reader in
def read (s : String) : Except Refusal Value :=
  let cs := s.toList
  match value (2 * cs.length + 2) (skipBlanks cs) with
  | .error refusal => .error refusal
  | .ok (v, rest) =>
      if (skipBlanks rest).isEmpty then .ok v else .error .malformed

end Json
end Ambient
