import Ambient.Declaration

/-!
# Documents

A document has the roots with all they contain, then the interfaces that were
put off, and around both a module if there is one.
-/

namespace Ambient
namespace Document

def visitRoots (visit : Declaration.Visitor) : List Entry -> Emit Unit
  | [] => pure ()
  | e :: es => do
      let _ ← visit e none false
      visitRoots visit es

def writeRoots (job : Job) : Emit Nat := do
  let roots := job.children none
  visitRoots (Declaration.visit job) roots
  return roots.length

/-- Writes the first interfaces that were put off, at most as many as the fuel;
the answer is their number. -/
def writeSome (settings : Settings) : Nat -> Emit Nat
  | 0 => return 0
  | fuel + 1 => do
      match (← get).deferred with
      | [] => return 0
      | e :: rest =>
          modify fun s => { s with deferred := rest }
          Declaration.writeShape settings e.doclet
          return (← writeSome settings fuel) + 1

def writeDeferred (settings : Settings) : Emit Nat := do
  writeSome settings (← get).deferred.length

def openModule (name : String) : Emit Unit := do
  Emit.writeln ["export = ", name, ";"]
  Emit.writeln []
  Emit.writeln ["declare namespace ", name, " \x7b"]
  Emit.writeln []
  Emit.push

def closeModule : Emit Unit := do
  Emit.pop
  Emit.writeln ["\x7d"]

def writeContent (job : Job) : Emit Unit := do
  let roots ← writeRoots job
  let deferred ← writeDeferred job.settings
  Emit.report [.published roots deferred]

def write (job : Job) : Emit Unit :=
  match job.settings.module with
  | none => writeContent job
  | some m => do
      openModule (← Emit.textOf m)
      writeContent job
      closeModule

/-- What became of a document: its text as far as it was written, the notices,
the fault that ended it if there is one, and the place of the first half of a
surrogate pair. -/
structure Published where
  text : String
  notices : List Notice
  fault : Option Fault
  breach : Option Breach

def publish (settings : Settings) (table : List Doclet) : Published :=
  match (write (Job.ofTable settings table)).run Session.start with
  | .ok _ s => ⟨s.page.text, s.notices, none, s.breach⟩
  | .error fault s => ⟨s.page.text, s.notices, some fault, s.breach⟩

/-- A document as it is encoded in a file: it ends before the first half of a
surrogate pair. -/
def Published.encoded (p : Published) : Published :=
  match p.breach with
  | none => p
  | some breach => ⟨breach.text, breach.notices, some .halfPair, none⟩

end Document
end Ambient
