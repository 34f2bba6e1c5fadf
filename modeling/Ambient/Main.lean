import Ambient.Conversion
import Ambient.Host
import Ambient.Yaml.Document

/-!
# The converter as a command

The command looks up the paths that a conversion may touch, runs the conversion
on what it found, and writes back what has changed.
-/

namespace Ambient
namespace Main

def usage : String :=
  " ".intercalate ("usage: ambient" ::
    (CommandLine.ConverterArgs.grammar.flags.map fun flag =>
      "[" ++ " | ".intercalate flag.spellings ++ "]") ++
    [CommandLine.ConverterArgs.grammar.operand])

def problemWording : Yaml.Problem -> String
  | .malformed => "a file is neither JSON nor YAML"
  | .outOfRange => "a number, a day or a character does not exist"
  | .tooLarge => "a number is too large"
  | .emptyNumber => "a number has no digits"
  | .unknownWord => "a word is none for a truth value"
  | .noMoment => "a text is no moment"
  | .structuredMoment => "a collection is no moment"
  | .endless => "a scalar is made of itself"

def wording : Fault -> String
  | .nonText => "a value that is no text has to be written"
  | .nonTextType => "a type is no text"
  | .nonSequence => "a value has no items"
  | .nonMapping => "the options or the query are no mapping"
  | .noJson => "a value has no JSON form"
  | .circular => "a value that holds itself has no JSON form"
  | .longNumber => "an integer has too many digits"
  | .unreadable problem => problemWording problem
  | .noDoclets path => noDocletsMessage path
  | .notUtf8 => "a file is not encoded in UTF-8"
  | .halfPair => "a text with half of a surrogate pair cannot be encoded"
  | .noFile => "a file does not exist"
  | .isDirectory => "a directory stands where a file is needed"
  | .notDirectory => "a file stands where a directory is needed"
  | .longName => "a path or a name in it is too long"
  | .nullInPath => "a path holds the null character"
  | .noHandle => "the destination is a number that stands for no open file"
  | .negativeHandle => "the destination is a negative number"
  | .noFlagValue => "a flag lacks its value"
  | .endless => "the doclets contain each other without end"

def probe (names : List String) : IO (Option DiskNode) := do
  try
    return some
      (.file (← IO.FS.readBinFile (Text.toPlain (Path.ofNames names))))
  catch e =>
    match e with
    | .inappropriateType .. => return some .directory
    | _ => return none

def explore (disk : Disk) (path : String) : IO Disk := do
  let mut nodes := disk.nodes
  for names in Path.trail path do
    if let some node ← probe names then
      nodes := (names, node) :: nodes
  return ⟨nodes⟩

def destination? (args : CommandLine.ConverterArgs) (disk : Disk) :
    Option String := do
  let options ← (Conversion.optionsOf Host.fileSystem Yaml.load args
    (Host.ofDisk disk)).toOption
  match Conversion.outletOf (Value.getD "destination" options) with
  | .ok (some (.path path)) => some path
  | _ => none

def writeBack (before after : Disk) : IO Unit := do
  for (names, node) in after.nodes do
    if let .file content := node then
      let same := match before.node? names with
        | some (.file old) => old == content
        | _ => false
      if !same then
        IO.FS.writeBinFile (Text.toPlain (Path.ofNames names)) content

def convert (args : CommandLine.ConverterArgs) : IO UInt32 := do
  let config := (CommandLine.FlagValue.text? args.config).getD ""
  let disk ← explore (← explore ⟨[]⟩ args.doclets) config
  let disk ← explore disk ((destination? args disk).getD "")
  let result := Conversion.run Host.fileSystem Yaml.load args (Host.ofDisk disk)
  IO.eprint (Text.toPlain (Conversion.report args.verbose result.notices))
  IO.print (Text.toPlain result.output)
  (← IO.getStdout).write ((result.state.content (.stream 1)).getD .empty)
  (← IO.getStderr).write ((result.state.content (.stream 2)).getD .empty)
  writeBack disk result.state.disk
  match result.ending with
  | .finished => return 0
  | .noDump path =>
      IO.eprintln (Text.toPlain (Conversion.noDumpMessage path))
      return 1
  | .failed fault =>
      IO.eprintln (Text.toPlain (wording fault))
      return 1

end Main
end Ambient

def main (words : List String) : IO UInt32 := do
  match Ambient.CommandLine.ConverterArgs.parse
    (words.map Ambient.Text.ofPlain) with
  | .ok args => Ambient.Main.convert args
  | .error .help =>
      IO.println Ambient.Main.usage
      return 0
  | .error (.usage e) =>
      IO.eprintln Ambient.Main.usage
      IO.eprintln ("error: " ++ Ambient.Text.toPlain e.message)
      return 2
