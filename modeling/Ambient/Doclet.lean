import Ambient.TypeExpr.Resolve
import Ambient.Value

/-!
# Doclets

A doclet describes a documented symbol.  Its kind gives it a role, its long name
identifies it, and the long name of its parent places it in the document.
Values that are copied into the output or only compared are kept as they come,
and so are the entries of a dump that it was made of.
-/

namespace Ambient

structure Field where
  name : String
  typeNames : List String
  tsType : Value
  optional : Bool
  variadic : Bool
  defaultValue : Option Value
  comment : Value

inductive Role where
  | nameSpace
  | classLike
  | member
  | function
  | typedef
  | package
  | unknown
deriving DecidableEq, Repr

structure Doclet where
  longname : String
  name : String
  kind : String
  memberof : Option String
  scope : Value
  access : Value
  virtual : Bool
  readonly : Bool
  optional : Bool
  isEnum : Bool
  typeNames : List String
  tsType : Value
  augments : List String
  implements : List String
  mixes : List String
  properties : List Field
  params : List Field
  returns : List Field
  templates : List String
  comment : Value
  thisType : Value
  raw : List (Value × Value)

/-- The type of an element: a type that is given wins as it is, else its
alternatives are resolved. -/
def typeOf (tsType : Value) (typeNames : List String) : Value :=
  if tsType.truthy then tsType else .str (TypeExpr.resolveAll typeNames)

namespace Field

def type (f : Field) : Value := typeOf f.tsType f.typeNames

end Field

def Role.ofKind (kind : String) : Role :=
  if kind = "class" ∨ kind = "interface" ∨ kind = "mixin" then .classLike
  else if kind = "namespace" ∨ kind = "module" then .nameSpace
  else if kind = "constant" ∨ kind = "member" then .member
  else if kind = "function" then .function
  else if kind = "typedef" then .typedef
  else if kind = "package" then .package
  else .unknown

namespace Doclet

def role (d : Doclet) : Role := Role.ofKind d.kind

def isClassLike (d : Doclet) : Bool := d.role = .classLike

def isInterface (d : Doclet) : Bool := d.kind = "interface"

def isNamespace (d : Doclet) : Bool := d.role = .nameSpace

def isContainer (d : Doclet) : Bool := d.isClassLike || d.isNamespace

def type (d : Doclet) : Value := typeOf d.tsType d.typeNames

def isUndefined (name : String) : Bool :=
  TypeExpr.isWordUpToCase "undefined" name

/-- The doclet with the alternative `undefined` turned into the optional
flag. -/
def settle (d : Doclet) : Doclet :=
  if d.optional || d.typeNames.isEmpty then d
  else
    let kept := d.typeNames.filter fun n => !isUndefined n
    if kept.length = d.typeNames.length then d
    else { d with optional := true, typeNames := kept }

def isDetached (d : Doclet) : Bool :=
  match d.role with
  | .classLike => true
  | .nameSpace => true
  | .typedef => true
  | .member => d.isEnum
  | _ => false

/-- A typedef with properties whose type is left to its alternatives, where
typedefs may be written as interfaces. -/
def mayBeShape (typedefInterfaces : Bool) (d : Doclet) : Bool :=
  decide (d.role = .typedef) && typedefInterfaces && !d.tsType.truthy &&
    !d.properties.isEmpty

def isShape (typedefInterfaces : Bool) (d : Doclet) : Bool :=
  d.mayBeShape typedefInterfaces && TypeExpr.resolveAll d.typeNames == "object"

/-- Whether a flag is on, which it is only when it is exactly true. -/
def isOn : Value -> Bool
  | .bool b => b
  | _ => false

def hasFlag (key : String) (d : Doclet) : Bool := isOn (Value.getD key d.raw)

def isPrivate (d : Doclet) : Bool :=
  match d.access with
  | .str access => access == "private"
  | _ => false

def mentions (word : List Char) : List Char -> Bool
  | [] => word.isEmpty
  | c :: cs => word.isPrefixOf (c :: cs) || mentions word cs

def isPlainReference (reference : String) : Bool :=
  !mentions "module:".toList reference.toList

end Doclet
end Ambient
