import Ambient.TypeExpr.Parser
import Ambient.TypeExpr.Printer

/-!
# Type text of annotations

An annotation is read without the blanks around it and written again; one that
is malformed becomes the catch-all type.
-/

namespace Ambient
namespace TypeExpr

def parseStripped (source : String) : Except SyntaxError TypeExpr :=
  parse (Text.strip source)

def parseOrAny (source : String) : TypeExpr :=
  match parseStripped source with
  | .ok e => e
  | .error _ => any

def complaint? (source : String) : Option String :=
  match parseStripped source with
  | .ok _ => none
  | .error e => some (e.message (Text.strip source))

def resolve (source : String) : String := render (parseOrAny source)

/-- The type text of alternative annotations: one stands for itself, several
form a union, none is the catch-all. -/
def resolveAll : List String -> String
  | [] => "any"
  | [source] => resolve source
  | sources => render (union (sources.map parseOrAny))

end TypeExpr
end Ambient
