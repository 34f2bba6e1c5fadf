import Ambient.Session

/-!
# Interfaces

Bodies that list properties with their types, and the interfaces made of them.
-/

namespace Ambient
namespace Interface

def writeGenerics (d : Doclet) : Emit Unit :=
  if d.templates.isEmpty then pure ()
  else Emit.write ["<", ", ".intercalate d.templates, ">"]

def writeProperty (settings : Settings) (f : Field) : Emit Unit := do
  Emit.writeComment settings f.comment false
  Emit.write [f.name]
  if f.optional then Emit.write ["?"]
  let type ← Emit.fieldType f
  Emit.writeln [": ", type, ";"]

def writeProperties (settings : Settings) : List Field -> Emit Unit
  | [] => pure ()
  | f :: fs => do
      writeProperty settings f
      writeProperties settings fs

def writeBody (settings : Settings) (d : Doclet) : Emit Unit := do
  Emit.writeln ["\x7b"]
  Emit.push
  writeProperties settings d.properties
  Emit.pop
  Emit.write ["\x7d"]

def write (settings : Settings) (d : Doclet) : Emit Unit := do
  Emit.write ["interface ", d.name]
  writeGenerics d
  Emit.write [" "]
  writeBody settings d
  Emit.writeln []

end Interface
end Ambient
