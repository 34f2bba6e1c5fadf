import Ambient.Doclet.Build
import Ambient.Json.Reader
import Ambient.Text.Lines

/-!
# Dumps

A dump is a file with a list of doclets, or with a mapping that holds the list
under `docs`.  It is read as JSON, and as YAML when it is not JSON.  The reader
of YAML is not fixed here.
-/

namespace Ambient
namespace Dump

def decode (content : ByteArray) : Except Fault String :=
  match Text.decode? content with
  | some s => .ok (String.ofList (Text.unifyBreaks s.toList))
  | none => .error .notUtf8

/-- A reader of YAML, which whoever reads a dump has to bring. -/
abbrev Loader := String -> Except Fault Value

def readValue (yaml : Loader) (source : String) : Except Fault Value :=
  match Json.read source with
  | .ok v => .ok v
  | .error .longNumber => .error .longNumber
  | .error .malformed => yaml source

/-- The doclets in the value of a dump.  What is no mapping is left out. -/
def docletsOf (path : String) (v : Value) : Except Fault (List Doclet) :=
  let listed :=
    match v.entries? with
    | some entries => Value.getD "docs" entries
    | none => v
  match listed.unfold with
  | .list items => Doclet.ofItems items
  | _ => .error (.noDoclets path)

def load (yaml : Loader) (path : String) (content : ByteArray) :
    Except Fault (List Doclet) := do
  docletsOf path (← readValue yaml (← decode content))

end Dump
end Ambient
