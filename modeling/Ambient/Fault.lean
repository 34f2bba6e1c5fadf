import Ambient.Yaml.Problem

/-!
# Faults

What can end a conversion.  Most faults are values of the wrong kind in a dump
or in the options, where a text, a list or a mapping is needed.
-/

namespace Ambient

inductive Fault where
  /-- A value that is no text has to be written. -/
  | nonText
  /-- A value that is no text has to be taken apart as one. -/
  | nonTextType
  | nonSequence
  | nonMapping
  | noJson
  | circular
  | longNumber
  | unreadable (problem : Yaml.Problem)
  | noDoclets (path : String)
  | notUtf8
  | halfPair
  | noFile
  | isDirectory
  | notDirectory
  | longName
  | nullInPath
  | noHandle
  | negativeHandle
  | noFlagValue
  | endless
deriving DecidableEq, Repr

def noDocletsMessage (path : String) : String :=
  "Expected a list of doclets in: " ++ path

end Ambient
