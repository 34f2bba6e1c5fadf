import Ambient.Session

/-!
# Signatures

The parameters and the return type of a function.  A parameter with a dotted
name describes a part of the parameter before the first dot, which thereby is a
mapping, or an array of mappings when the name of that parameter ends in
brackets.  The `this` type, if there is one, is the first parameter.
-/

namespace Ambient

structure Param where
  type : Value
  variadic : Bool
  optional : Bool

namespace Signature

def mappingType : String := "\x7b [k: string]: any \x7d"

def dropFront (c : Char) : List Char -> List Char
  | d :: cs => if d == c then cs else d :: cs
  | [] => []

def dropBack (c : Char) (cs : List Char) : List Char :=
  (dropFront c cs.reverse).reverse

def bareThis (s : String) : String :=
  String.ofList (dropBack '}' (dropFront '{' s.toList))

def dropBrackets (cs : List Char) : Option (List Char) :=
  match cs.reverse with
  | ']' :: '[' :: rest => some rest.reverse
  | _ => none

/-- The root of a dotted name: the part before the first dot without brackets,
and whether it had brackets. -/
def dottedRoot? (name : String) : Option (String × Bool) :=
  match Text.cutAt '.' name.toList with
  | (_, none) => none
  | (front, some _) =>
      match dropBrackets front with
      | some root => some (String.ofList root, true)
      | none => some (String.ofList front, false)

def addParam (f : Field) (params : Keyed Param) : Keyed Param :=
  match dottedRoot? f.name with
  | none => params.put f.name ⟨f.type, f.variadic, f.optional⟩
  | some (root, bracketed) =>
      let mapping : Value :=
        .str (if bracketed then mappingType ++ "[]" else mappingType)
      let known := (params.get? root).getD ⟨mapping, false, false⟩
      params.put root { known with type := mapping }

/-- The notices for the malformed types among some parameters; the type of a
dotted one is not read. -/
def paramNotices (fields : List Field) : List Notice :=
  fields.flatMap fun f =>
    if (dottedRoot? f.name).isNone then Emit.degradations f.tsType f.typeNames
    else []

def thisParams (thisType : Value) : Except Fault (Keyed Param) :=
  if thisType.truthy then
    match thisType with
    | .str s => .ok [("this", ⟨.str (bareThis s), false, false⟩)]
    | .bytes _ => .error .nonText
    | _ => .error .nonTextType
  else .ok []

def collect (d : Doclet) : Emit (Keyed Param) := do
  let params ← Emit.lift (thisParams d.thisType)
  Emit.report (paramNotices d.params)
  return d.params.foldl (fun params f => addParam f params) params

/-- The return type of a doclet: that of its first return value, unless it is
undefined. -/
def returnType (d : Doclet) : Emit Value := do
  match d.returns with
  | [] => return .str "void"
  | f :: _ =>
      let type ← Emit.typeOf f.tsType f.typeNames
      match type with
      | .str "undefined" => return .str "void"
      | type => return type

/-- The type of a rest parameter: an array of its elements, of anything when it
is a union. -/
def restType : Value -> Except Fault String
  | .str s => .ok (if s.toList.head? == some '(' then "any[]" else s ++ "[]")
  | .bytes _ => .error .nonText
  | _ => .error .nonTextType

def writeParam (name : String) (param : Param) : Emit Unit := do
  if param.variadic then
    let type ← Emit.lift (restType param.type)
    Emit.write ["...", name, ": ", type]
  else
    let type ← Emit.textOf param.type
    Emit.write [name, if param.optional then "?: " else ": ", type]

def writeParams : Keyed Param -> Emit Unit
  | [] => pure ()
  | [(name, param)] => writeParam name param
  | (name, param) :: rest => do
      writeParam name param
      Emit.write [", "]
      writeParams rest

inductive Form where
  | function
  | constructor
  | arrow
deriving DecidableEq, Repr

def write (d : Doclet) (form : Form) : Emit Unit := do
  Emit.write ["("]
  writeParams (← collect d)
  Emit.write [")"]
  match form with
  | .constructor => pure ()
  | .function => do
      let type ← Emit.textOf (← returnType d)
      Emit.write [": ", type]
  | .arrow => do
      let type ← Emit.textOf (← returnType d)
      Emit.write [" => ", type]

end Signature
end Ambient
