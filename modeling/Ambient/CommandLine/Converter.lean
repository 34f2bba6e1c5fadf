import Ambient.CommandLine.Basic
import Ambient.Disk
import Ambient.Value

/-!
# The command line of the converter
-/

namespace Ambient
namespace CommandLine

def helpFlag : Flag := ⟨"help", ["-h", "--help"], .help⟩

structure ConverterArgs where
  doclets : String
  destination : Option FlagValue
  module : Option FlagValue
  includePrivate : Bool
  noComments : Bool
  noTypedefInterfaces : Bool
  config : Option FlagValue
  query : Option (List FlagValue)
  verbose : Bool
deriving DecidableEq, Repr

namespace ConverterArgs

def grammar : Grammar where
  flags :=
    [helpFlag, ⟨"destination", ["-d", "--destination"], .value⟩,
      ⟨"module", ["-m", "--module"], .value⟩,
      ⟨"private", ["--private"], .switch⟩,
      ⟨"no_comments", ["--no-comments"], .switch⟩,
      ⟨"no_typedef_interfaces", ["--no-typedef-interfaces"], .switch⟩,
      ⟨"config", ["--config"], .value⟩, ⟨"query", ["--query"], .value⟩,
      ⟨"verbose", ["-v", "--verbose"], .switch⟩]
  operand := "doclets"
  several := false

def parse (words : List String) : Except Stop ConverterArgs := do
  let (operands, flags) ← CommandLine.parse grammar words
  return {
    doclets := Path.normalize (operands.headD "")
    destination := lastValue? "destination" flags
    module := lastValue? "module" flags
    includePrivate := isGiven "private" flags
    noComments := isGiven "no_comments" flags
    noTypedefInterfaces := isGiven "no_typedef_interfaces" flags
    config := lastValue? "config" flags
    query :=
      if isGiven "query" flags then some (allValues "query" flags) else none
    verbose := isGiven "verbose" flags }

def queryPair : FlagValue -> Except Fault (Value × Value)
  | .text pair =>
      let (key, value) := cutValue pair
      .ok (.str key, .str (value.getD ""))
  | .missing => .error .noFlagValue

def textEntry (key : String) (value : Option FlagValue) :
    List (Value × Value) :=
  match FlagValue.text? value with
  | some s => [(.str key, .str s)]
  | none => []

def switchEntry (key : String) (given value : Bool) : List (Value × Value) :=
  if given then [(.str key, .bool value)] else []

def queryEntry : Option (List FlagValue) -> Except Fault (List (Value × Value))
  | none => .ok []
  | some pairs => do
      return [(.str "query", Value.ofEntries (← pairs.mapM queryPair))]

def overrides (args : ConverterArgs) : Except Fault Value := do
  return .map (textEntry "destination" args.destination ++
    textEntry "module" args.module ++
    switchEntry "private" args.includePrivate true ++
    switchEntry "comments" args.noComments false ++
    switchEntry "typedef_interfaces" args.noTypedefInterfaces false ++
    (← queryEntry args.query))

end ConverterArgs
end CommandLine
end Ambient
