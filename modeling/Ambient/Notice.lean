import Ambient.Text.Quoted

/-!
# Notices

What a conversion reports while it runs, and the lines in which it is reported.
-/

namespace Ambient

inductive Level where
  | debug
  | info
deriving DecidableEq, Repr

inductive Notice where
  /-- A malformed annotation became the catch-all type. -/
  | degraded (typeText complaint : String)
  | skipped (longname kind : String)
  | moved (longname : String)
  | postponed (longname : String)
  | published (roots deferred : Nat)
  | loaded (count : Nat) (path : String)
  | written (path : String)
deriving DecidableEq, Repr

namespace Notice

def level : Notice -> Level
  | published _ _ => .info
  | loaded _ _ => .info
  | written _ => .info
  | _ => .debug

def source : Notice -> String
  | degraded _ _ => "jsdoc_dts.type_of"
  | skipped _ _ => "jsdoc_dts.handlers"
  | moved _ => "jsdoc_dts.handlers"
  | postponed _ => "jsdoc_dts.handlers"
  | published _ _ => "jsdoc_dts.publish"
  | loaded _ _ => "jsdoc_dts.run_conversion"
  | written _ => "jsdoc_dts.run_conversion"

def message : Notice -> String
  | degraded typeText complaint =>
      "Degrading type " ++ Text.quoted typeText ++ " to any: " ++ complaint
  | skipped longname kind =>
      "Skipping " ++ longname ++ " of unsupported kind " ++ Text.quoted kind
  | moved longname => "Moving " ++ longname ++ " out of the class body"
  | postponed longname => "Deferring interface " ++ longname
  | published roots deferred =>
      "Wrote " ++ toString roots ++ " root declarations and " ++
        toString deferred ++
        " deferred interfaces"
  | loaded count path => "Loaded " ++ toString count ++ " doclets from " ++ path
  | written path => "Wrote declarations to " ++ path

def levelName : Level -> String
  | .debug => "DEBUG"
  | .info => "INFO"

def line (n : Notice) : String :=
  levelName n.level ++ " " ++ n.source ++ ": " ++ n.message

end Notice
end Ambient
