import Ambient.CommandLine.Converter

/-!
# The pipeline

The pipeline runs two commands: the documentation tool, whose output is the
dump, and the converter on that dump.  A command that fails ends the pipeline
with its exit code.
-/

namespace Ambient
namespace Pipeline

open CommandLine (FlagValue)

structure Args where
  sources : List String
  destination : FlagValue
  module : Option FlagValue
  includePrivate : Bool
  config : Option FlagValue
  doclets : FlagValue
  jsdoc : FlagValue
deriving DecidableEq, Repr

def grammar : CommandLine.Grammar where
  flags :=
    [CommandLine.helpFlag, ⟨"destination", ["-d", "--destination"], .value⟩,
      ⟨"module", ["-m", "--module"], .value⟩,
      ⟨"private", ["--private"], .switch⟩, ⟨"config", ["--config"], .value⟩,
      ⟨"doclets", ["--doclets"], .value⟩, ⟨"jsdoc", ["--jsdoc"], .value⟩]
  operand := "sources"
  several := true

def dumpPath : FlagValue -> FlagValue
  | .text path => .text (Path.normalize path)
  | .missing => .missing

def Args.parse (words : List String) : Except CommandLine.Stop Args := do
  let (operands, flags) ← CommandLine.parse grammar words
  return {
    sources := operands
    destination :=
      (CommandLine.lastValue? "destination" flags).getD (.text "index.d.ts")
    module := CommandLine.lastValue? "module" flags
    includePrivate := CommandLine.isGiven "private" flags
    config := CommandLine.lastValue? "config" flags
    doclets :=
      dumpPath
        ((CommandLine.lastValue? "doclets" flags).getD (.text "doclets.json"))
    jsdoc := (CommandLine.lastValue? "jsdoc" flags).getD (.text "jsdoc") }

structure Command where
  words : List String
  output : Option FlagValue
deriving DecidableEq, Repr

def dumpCommand (args : Args) : Command :=
  ⟨[args.jsdoc.word, "-X", "-r"] ++ args.sources, some args.doclets⟩

def flagWords (flag : String) (value : Option FlagValue) : List String :=
  match FlagValue.text? value with
  | some s => [flag, s]
  | none => []

def converterWords (args : Args) : List String :=
  [args.doclets.word, "--destination", args.destination.word] ++
    flagWords "--module" args.module ++
    (if args.includePrivate then ["--private"] else []) ++
    flagWords "--config" args.config

def convertCommand (interpreter : String) (args : Args) : Command :=
  ⟨[interpreter, "-m", "jsdoc_dts.jsdoc_to_dts"] ++ converterWords args, none⟩

def Command.text (c : Command) : String := " ".intercalate c.words

inductive Ending where
  | exit (code : Int)
  | failed (fault : Fault)
deriving DecidableEq, Repr

structure Run where
  commands : List Command
  messages : String
  ending : Ending

def openOutput (disk : Disk) : Option FlagValue -> Except Fault Unit
  | none => .ok ()
  | some (.text path) => (disk.target path).map fun _ => ()
  | some .missing => .error .noFlagValue

/-- Runs commands, each after its heading, where the command number `n` exits
with `codes n`.  The file for the output of a command is opened before the
command is started. -/
def runCommands (disk : Disk) (codes : Nat -> Int) (closing : String) :
    Nat -> List (String × Command) -> Run
  | _, [] => ⟨[], closing, .exit 0⟩
  | n, (heading, c) :: rest =>
      let started := heading ++ "Running: " ++ c.text ++ "\n"
      match openOutput disk c.output with
      | .error fault => ⟨[], started, .failed fault⟩
      | .ok _ =>
          if codes n = 0 then
            let run := runCommands disk codes closing (n + 1) rest
            { run with
              commands := c :: run.commands
              messages := started ++ run.messages }
          else ⟨[c], started ++ "Error executing command: " ++ c.text ++ "\n",
            .exit (codes n)⟩

def run (interpreter : String) (args : Args) (disk : Disk)
    (codes : Nat -> Int) : Run :=
  runCommands disk codes
    ("\nSUCCESS: Declarations written to " ++ args.destination.word ++ "\n") 0
    [("--- Step 1: Dumping JSDoc doclets ---\n", dumpCommand args),
      ("\n--- Step 2: Converting doclets to declarations ---\n",
        convertCommand interpreter args)]

end Pipeline
end Ambient
