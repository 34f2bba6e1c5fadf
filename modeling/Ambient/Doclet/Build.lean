import Ambient.Doclet
import Ambient.Fault
import Ambient.Value.Display

/-!
# Doclets from a dump

The entries of a mapping of a dump as a doclet.  Names are the display of
whatever stands there, flags are on only when they are exactly true, and where a
list is expected every value that has items is taken for one.
-/

namespace Ambient

namespace Doclet

def nameOr (alternative : String) (v : Value) : Except Fault String :=
  if v.truthy then v.display else .ok alternative

def nameIfAny (v : Value) : Except Fault (Option String) :=
  if v.truthy then v.display.map some else .ok none

def itemsOf (v : Value) : Except Fault (List Value) :=
  match v.items? with
  | some items => .ok items
  | none => .error .nonSequence

def namesOf (v : Value) : Except Fault (List String) := do
  (← itemsOf v).mapM Value.display

def typeNamesOf (raw : List (Value × Value)) : Except Fault (List String) :=
  match (Value.getD "type" raw).entries? with
  | some info => namesOf (Value.getD "names" info)
  | none => .ok []

end Doclet

namespace Field

def ofEntries (raw : List (Value × Value)) : Except Fault Field := do
  return {
    name := ← Doclet.nameOr "" (Value.getD "name" raw)
    typeNames := ← Doclet.typeNamesOf raw
    tsType := Value.getD "tsType" raw
    optional := Doclet.isOn (Value.getD "optional" raw)
    variadic := Doclet.isOn (Value.getD "variable" raw)
    defaultValue := Value.get? "defaultvalue" raw
    comment := Value.getD "comment" raw }

def ofItems : List Value -> Except Fault (List Field)
  | [] => .ok []
  | v :: vs =>
      match v.entries? with
      | some raw => do return (← ofEntries raw) :: (← ofItems vs)
      | none => ofItems vs

def ofValue (v : Value) : Except Fault (List Field) := do
  ofItems (← Doclet.itemsOf v)

end Field

namespace Doclet

def ofEntries (raw : List (Value × Value)) : Except Fault Doclet := do
  let get (key : String) : Value := Value.getD key raw
  let name ← nameOr "" (get "name")
  return {
    longname := ← nameOr name (get "longname")
    name := name
    kind := Text.strip (← nameOr "" (get "kind"))
    memberof := ← nameIfAny (get "memberof")
    scope := get "scope"
    access := get "access"
    virtual := isOn (get "virtual")
    readonly := isOn (get "readonly")
    optional := isOn (get "optional")
    isEnum := isOn (get "isEnum")
    typeNames := ← typeNamesOf raw
    tsType := get "tsType"
    augments := ← namesOf (get "augments")
    implements := ← namesOf (get "implements")
    mixes := ← namesOf (get "mixes")
    properties := ← Field.ofValue (get "properties")
    params := ← Field.ofValue (get "params")
    returns := ← Field.ofValue (get "returns")
    templates := ← namesOf (get "templates")
    comment := get "comment"
    thisType := get "this"
    raw := raw }

def ofItems : List Value -> Except Fault (List Doclet)
  | [] => .ok []
  | v :: vs =>
      match v.entries? with
      | some raw => do return (← ofEntries raw) :: (← ofItems vs)
      | none => ofItems vs

end Doclet
end Ambient
