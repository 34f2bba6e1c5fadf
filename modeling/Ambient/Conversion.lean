import Ambient.CommandLine.Converter
import Ambient.Document
import Ambient.Doclet.Dump
import Ambient.Doclet.Table
import Ambient.FileSystem

/-!
# Conversions

A conversion reads the options and a dump, drops the hidden doclets and
publishes the rest, into a file or to the standard output.  The file is opened
before anything is published, and what is published before a fault stays in it.
The file system and the reader of YAML are those of whoever runs the conversion.
-/

namespace Ambient
namespace Conversion

inductive Ending where
  | finished
  | noDump (path : String)
  | failed (fault : Fault)
deriving DecidableEq, Repr

structure Result (State : Type) where
  state : State
  output : String
  notices : List Notice
  ending : Ending

def noDumpMessage (path : String) : String :=
  "No doclet file found at: " ++ path

/-- The open file that a number stands for.  Numbers that are no 32-bit integers
are not taken for open files at all. -/
def outletOfInt (n : Int) : Except Fault Outlet :=
  if n < -0x80000000 || 0x80000000 ≤ n then .error .nonText
  else if n < 0 then .error .negativeHandle
  else .ok (.number n.toNat)

/-- What is opened for a destination, none for the standard output.  A truth
value counts as the number one. -/
def outletOf (destination : Value) : Except Fault (Option Outlet) :=
  if destination.truthy then
    match destination with
    | .str path => .ok (some (.path path))
    | .bytes path => .ok (some (.path (Path.ofBytes path)))
    | .int n => (outletOfInt n).map some
    | .bool _ => .ok (some (.number 1))
    | _ => .error .nonText
  else .ok none

def writtenNotice (destination : Value) : Except Fault Notice := do
  return .written (← destination.display)

def endingOf (published : Document.Published) : Ending :=
  match published.fault with
  | none => .finished
  | some fault => .failed fault

def tableOf (options : Options.Entries) (doclets : List Doclet) : List Doclet :=
  Table.stripHidden (Value.getD "private" options).truthy doclets

def documentOf (options : Options.Entries) (doclets : List Doclet) :
    Document.Published :=
  Document.publish (Settings.ofOptions options) (tableOf options doclets)

section

variable {State Sink : Type}

/-- The value of the options file at a path; none when there is no such file. -/
def readOptions (fs : FileSystem State Sink) (yaml : Dump.Loader) (s : State)
    (path : Option String) : Except Fault (Option Value) :=
  match path with
  | none => .ok none
  | some "" => .ok none
  | some path => do
      if ← fs.isThere s (Path.normalize path) then
        let source ← Dump.decode (← fs.read s (Path.normalize path))
        return some (← yaml source)
      else return none

def loadOptions (fs : FileSystem State Sink) (yaml : Dump.Loader) (s : State)
    (path : Option String) (overrides : Value) :
    Except Fault Options.Entries := do
  Options.resolve (← readOptions fs yaml s path) overrides

def publishTo (fs : FileSystem State Sink) (s : State)
    (options : Options.Entries) (doclets : List Doclet)
    (notices : List Notice) : Result State :=
  let destination := Value.getD "destination" options
  match outletOf destination with
  | .error fault => ⟨s, "", notices, .failed fault⟩
  | .ok none =>
      let published := documentOf options doclets
      ⟨s, published.text, notices ++ published.notices, endingOf published⟩
  | .ok (some outlet) =>
      match fs.openSink s outlet with
      | .error fault => ⟨s, "", notices, .failed fault⟩
      | .ok (sink, s) =>
          let published := (documentOf options doclets).encoded
          let closing :=
            if published.fault.isNone
              then (writtenNotice destination).toOption.toList else []
          ⟨fs.fill sink (Text.encode published.text) s, "",
            notices ++ published.notices ++ closing, endingOf published⟩

def optionsOf (fs : FileSystem State Sink) (yaml : Dump.Loader)
    (args : CommandLine.ConverterArgs) (s : State) :
    Except Fault Options.Entries := do
  loadOptions fs yaml s (CommandLine.FlagValue.text? args.config)
    (← args.overrides)

def docletsOf (fs : FileSystem State Sink) (yaml : Dump.Loader)
    (args : CommandLine.ConverterArgs) (s : State) :
    Except Fault (List Doclet) := do
  Dump.load yaml args.doclets (← fs.read s args.doclets)

def run (fs : FileSystem State Sink) (yaml : Dump.Loader)
    (args : CommandLine.ConverterArgs) (s : State) : Result State :=
  match fs.isThere s args.doclets with
  | .error fault => ⟨s, "", [], .failed fault⟩
  | .ok false => ⟨s, "", [], .noDump args.doclets⟩
  | .ok true =>
      match optionsOf fs yaml args s with
      | .error fault => ⟨s, "", [], .failed fault⟩
      | .ok options =>
          match docletsOf fs yaml args s with
          | .error fault => ⟨s, "", [], .failed fault⟩
          | .ok doclets =>
              publishTo fs s options doclets
                [.loaded doclets.length args.doclets]

end

def messages (verbose : Bool) (notices : List Notice) : List String :=
  (notices.filter fun n => verbose || decide (n.level = .info)).map Notice.line

def report (verbose : Bool) (notices : List Notice) : String :=
  String.join ((messages verbose notices).map fun m => m ++ "\n")

end Conversion
end Ambient
