import Ambient.Fault
import Ambient.Value

/-!
# Options

Options are an open mapping: every entry of an options file is kept.  Mappings
are merged deeply, the later one winning, and then the entries of the mapping
under `query` override the options of the same name; the words `true`, `false`
and `null` in it stand for the values they name.  What the publisher reads from
the options is kept apart as settings.
-/

namespace Ambient
namespace Options

abbrev Entries := List (Value × Value)

mutual

def merge (base : Entries) : Entries -> Entries
  | [] => base
  | (key, value) :: rest =>
      merge (Value.put key
        (mergeValue ((Value.find? key base).getD .null) value) base) rest

/-- The value that replaces `old` when it is updated by a value.  A mapping that
holds itself comes from an options file only, and the one mapping that such a
file meets in the defaults is the query, which is empty.  So its entries are
put one by one, and there is nothing below them to be merged. -/
def mergeValue (old : Value) : Value -> Value
  | .map update =>
      match old.entries? with
      | some base => .map (merge base update)
      | none => .map update
  | .tied label body =>
      match old.entries?, (Value.tied label body).entries? with
      | some base, some update =>
          .map (update.foldl (fun acc e => Value.put e.1 e.2 acc) base)
      | _, _ => .tied label body
  | v => v

end

def mergeWith (base : Entries) (v : Value) : Except Fault Entries :=
  match v.entries? with
  | some update => .ok (merge base update)
  | none => .error .nonMapping

def defaults : Entries :=
  [(.str "destination", .null), (.str "module", .null),
    (.str "private", .bool false), (.str "comments", .bool true),
    (.str "typedef_interfaces", .bool true), (.str "query", .map [])]

def literal : Value -> Value
  | .str "true" => .bool true
  | .str "false" => .bool false
  | .str "null" => .null
  | v => v

def isQueryKey (key : Value) : Bool := Value.sameKey key (.str "query")

def override (options : Entries) : Entries -> Entries
  | [] => options
  | (key, value) :: rest =>
      override
        (if isQueryKey key then options
          else Value.put key (literal value) options) rest

def applyQuery (options : Entries) : Except Fault Entries :=
  match ((Value.getD "query" options).orElse (.map [])).entries? with
  | some query => .ok (override options query)
  | none => .error .nonMapping

/-- The options from a file, if there is one, and from overrides, where values
that count as absent change nothing. -/
def resolve (file : Option Value) (overrides : Value) :
    Except Fault Entries := do
  let options ←
    match file with
    | some v => mergeWith defaults (v.orElse (.map []))
    | none => .ok defaults
  let options ←
    if overrides.truthy then mergeWith options overrides else .ok options
  applyQuery options

end Options

structure Settings where
  comments : Bool
  module : Option Value
  typedefInterfaces : Bool

namespace Settings

/-- The settings in some options: comments are left out only when the option is
exactly false, and a module counts only when it is not empty. -/
def ofOptions (options : Options.Entries) : Settings where
  comments :=
    match Value.get? "comments" options with
    | some (.bool b) => b
    | _ => true
  module :=
    match Value.get? "module" options with
    | some m => if m.truthy then some m else none
    | none => none
  typedefInterfaces :=
    match Value.get? "typedef_interfaces" options with
    | some v => v.truthy
    | none => true

end Settings
end Ambient
