import Ambient.Interface
import Ambient.Json.Printer
import Ambient.Signature

/-!
# Declarations

How each kind of symbol is declared.  A namespace and a class are written with
their children, which are offered to a visitor one by one; the visitor tells
whether a child was taken.  The children that a class body does not take are
offered again in a namespace of the same name after it.
-/

namespace Ambient

structure Job where
  settings : Settings
  entries : List Entry

namespace Job

def ofTable (settings : Settings) (table : List Doclet) : Job :=
  ⟨settings, table.mapIdx fun place doclet => ⟨place, doclet⟩⟩

def children (job : Job) (parent : Option Doclet) : List Entry :=
  job.entries.filter fun e => e.doclet.memberof == parent.map Doclet.longname

end Job

namespace Declaration

/-- A way to offer a doclet, given its parent and whether the place is inside a
class body; the answer tells whether it was taken. -/
abbrev Visitor := Entry -> Option Doclet -> Bool -> Emit Bool

/-- Whether a doclet is exported by itself: outside of a module, the global ones
are. -/
def isExported (settings : Settings) (d : Doclet) : Bool :=
  settings.module.isNone &&
    match d.scope with
    | .str scope => scope == "global"
    | _ => false

def isInClass (parent : Option Doclet) : Bool := parent.any Doclet.isClassLike

def writeLead (settings : Settings) (d : Doclet) (spacer : Bool) :
    Emit Unit := do
  Emit.writeComment settings d.comment (spacer || d.isContainer || d.isEnum)
  if isExported settings d then Emit.write ["export "]

/-!
## Namespaces and classes
-/

def visitAll (visit : Visitor) (parent : Doclet) : List Entry -> Emit Unit
  | [] => pure ()
  | e :: es => do
      let _ ← visit e (some parent) false
      visitAll visit parent es

/-- Offers the children of a class inside its body; the answer holds those that
were not taken. -/
def visitBody (visit : Visitor) (parent : Doclet) :
    List Entry -> Emit (List Entry)
  | [] => return []
  | e :: es => do
      let taken ← visit e (some parent) true
      let refused ← visitBody visit parent es
      return if taken then refused else e :: refused

def writeSpace (visit : Visitor) (d : Doclet) (children : List Entry) :
    Emit Unit := do
  Emit.writeln ["namespace ", d.name, " \x7b"]
  Emit.push
  visitAll visit d children
  Emit.pop
  Emit.writeln ["\x7d"]

def writeNamespace (visit : Visitor) (job : Job) (d : Doclet) : Emit Unit := do
  writeLead job.settings d false
  writeSpace visit d (job.children (some d))

def accessOf (d : Doclet) : Value := d.access.orElse (.str "public")

def writeAccess (d : Doclet) : Emit Unit := do
  let access ← Emit.textOf (accessOf d)
  Emit.write [access, " "]
  match d.scope with
  | .str "static" => Emit.write ["static "]
  | _ => pure ()

def writeFunction (settings : Settings) (d : Doclet) (parent : Option Doclet) :
    Emit Unit := do
  writeLead settings d false
  if isInClass parent then writeAccess d else Emit.write ["function "]
  Emit.write [d.name]
  Interface.writeGenerics d
  Signature.write d .function
  Emit.writeln [";"]

def writeConstructor (settings : Settings) (d : Doclet) : Emit Unit := do
  Emit.writeComment settings d.comment false
  Emit.write ["constructor"]
  Signature.write d .constructor
  Emit.writeln [";"]

def writeHeritage (d : Doclet) : Emit Unit := do
  match d.augments.filter Doclet.isPlainReference with
  | [] => pure ()
  | base :: _ => Emit.write ["extends ", base, " "]
  match (d.implements ++ d.mixes).filter Doclet.isPlainReference with
  | [] => pure ()
  | bases => Emit.write ["implements ", ", ".intercalate bases, " "]

def writeHead (settings : Settings) (d : Doclet) : Emit Unit := do
  writeLead settings d d.isInterface
  if d.isInterface then Emit.write ["interface "]
  else
    if d.virtual then Emit.write ["abstract "]
    Emit.write ["class "]
  Emit.write [d.name]
  Interface.writeGenerics d
  Emit.write [" "]
  writeHeritage d
  Emit.writeln ["\x7b"]

def writeCompanion (visit : Visitor) (settings : Settings) (d : Doclet)
    (refused : List Entry) :
    Emit Unit :=
  if refused.isEmpty then pure ()
  else do
    Emit.writeln []
    if isExported settings d then Emit.write ["export "]
    writeSpace visit d refused

def writeClass (visit : Visitor) (job : Job) (d : Doclet) : Emit Unit := do
  writeHead job.settings d
  Emit.push
  if !d.isInterface && !d.virtual then writeConstructor job.settings d
  if d.isInterface then Interface.writeProperties job.settings d.properties
  let refused ← visitBody visit d (job.children (some d))
  Emit.pop
  Emit.writeln ["\x7d"]
  writeCompanion visit job.settings d refused

/-!
## Members
-/

def writeCase (f : Field) : Emit Unit := do
  Emit.write [f.name]
  match f.defaultValue with
  | none => pure ()
  | some v =>
      let t ← Emit.lift (Json.text v)
      Emit.write [" = ", t]

def writeCases : List Field -> Emit Unit
  | [] => pure ()
  | [f] => do
      writeCase f
      Emit.writeln []
  | f :: fs => do
      writeCase f
      Emit.writeln [","]
      writeCases fs

def writeEnum (d : Doclet) : Emit Unit := do
  Emit.writeln ["enum ", d.name, " \x7b"]
  Emit.push
  writeCases d.properties
  Emit.pop
  Emit.writeln ["\x7d"]

def writeParts : List Field -> Emit Unit
  | [] => pure ()
  | [f] => do
      let type ← Emit.fieldType f
      Emit.writeln [Json.quote f.name, ": ", type]
  | f :: fs => do
      let type ← Emit.fieldType f
      Emit.writeln [Json.quote f.name, ": ", type, ","]
      writeParts fs

def startsWithObject (typeText : String) : Bool :=
  let cs := typeText.toList
  (cs.take 6).map Char.toLower == "object".toList &&
    !((cs.drop 6).head?.any Text.isWord)

def hasObjectShape (d : Doclet) : Bool :=
  d.typeNames.head?.any startsWithObject && !d.properties.isEmpty

def writeMemberType (d : Doclet) : Emit Unit :=
  if hasObjectShape d then do
    Emit.writeln ["\x7b"]
    Emit.push
    writeParts d.properties
    Emit.pop
    Emit.writeln ["\x7d;"]
  else do
    let type ← Emit.docletType d
    Emit.writeln [type, ";"]

def writeVariable (d : Doclet) (parent : Option Doclet) : Emit Unit := do
  if isInClass parent then
    writeAccess d
    if d.readonly then Emit.write ["readonly "]
  else Emit.write [if d.kind = "constant" then "const " else "let "]
  Emit.write [d.name]
  if d.optional then Emit.write ["?"]
  Emit.write [": "]
  writeMemberType d

def writeMember (settings : Settings) (d : Doclet) (parent : Option Doclet) :
    Emit Unit := do
  writeLead settings d false
  if d.isEnum then writeEnum d else writeVariable d parent

/-!
## Typedefs
-/

/-- Whether a typedef is written as an interface, reporting malformed
annotations where it depends on them. -/
def isShape (settings : Settings) (d : Doclet) : Emit Bool := do
  if d.mayBeShape settings.typedefInterfaces then
    Emit.report (Emit.degradations d.tsType d.typeNames)
  return d.isShape settings.typedefInterfaces

def writeAliasType (settings : Settings) (d : Doclet) : Emit Unit := do
  if d.tsType.truthy then
    let type ← Emit.textOf d.tsType
    Emit.write [type]
  else
    let type ← Emit.docletType d
    if d.typeNames = ["function"] then Signature.write d .arrow
    else if type = "object" then
      if d.properties.isEmpty then Emit.write ["\x7b\x7d"]
      else Interface.writeBody settings d
    else Emit.write [type]

def writeAlias (settings : Settings) (d : Doclet) : Emit Unit := do
  Emit.writeln []
  Emit.write ["type ", d.name]
  Interface.writeGenerics d
  Emit.write [" = "]
  writeAliasType settings d
  Emit.writeln [";"]

def writeShape (settings : Settings) (d : Doclet) : Emit Unit := do
  writeLead settings d true
  Interface.write settings d

/-- Declares a typedef.  An interface that belongs to a class is put off. -/
def writeTypedef (settings : Settings) (e : Entry) (parent : Option Doclet) :
    Emit Unit := do
  if ← isShape settings e.doclet then
    if isInClass parent then
      Emit.report [.postponed e.doclet.longname]
      modify fun s => { s with deferred := s.deferred ++ [e] }
    else writeShape settings e.doclet
  else writeAlias settings e.doclet

/-!
## Offers
-/

def declare (visit : Visitor) (job : Job) (e : Entry) (parent : Option Doclet) :
    Emit Unit :=
  match e.doclet.role with
  | .classLike => writeClass visit job e.doclet
  | .nameSpace => writeNamespace visit job e.doclet
  | .member => writeMember job.settings e.doclet parent
  | .function => writeFunction job.settings e.doclet parent
  | .typedef => writeTypedef job.settings e parent
  | .package => pure ()
  | .unknown => Emit.report [.skipped e.doclet.longname e.doclet.kind]

def noteOffer (o : Offer) : Emit Unit :=
  modify fun s => { s with offers := s.offers ++ [o] }

def noteSeen (e : Entry) : Emit Unit :=
  modify fun s => { s with seen := s.seen.put e.doclet.longname e }

/-- Offers a doclet for declaration at the current place.  The answer is false
when it may not stand there, inside a class body.  The fuel bounds the depth of
nesting. -/
def offer (job : Job) : Nat -> Visitor
  | 0, _, _, _ => throw .endless
  | fuel + 1, e, parent, insideClass => do
      let e : Entry := { e with doclet := e.doclet.settle }
      let known := (← get).seen.has e.doclet.longname
      if known then
        noteOffer ⟨e, parent, insideClass, .known⟩
        return true
      else if insideClass && e.doclet.isDetached then
        noteOffer ⟨e, parent, insideClass, .refused⟩
        Emit.report [.moved e.doclet.longname]
        return false
      else
        noteOffer ⟨e, parent, insideClass, .declared⟩
        declare (offer job fuel) job e parent
        noteSeen e
        return true

/-- Fuel enough for every table whose doclets do not contain each other without
end: while nothing new is declared, no doclet is nested in itself, and at most
as many long names can be declared as there are doclets. -/
def fuelFor (job : Job) : Nat :=
  job.entries.length * (job.entries.length + 1) + 1

def visit (job : Job) : Visitor := offer job (fuelFor job)

end Declaration
end Ambient
