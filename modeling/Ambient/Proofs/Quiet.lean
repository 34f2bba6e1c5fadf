import Ambient.Document
import Ambient.Proofs.Emit
import Ambient.Proofs.Json

/-!
# The writers are quiet

Signatures, interfaces, members and type aliases are written without a trace in
the record.  A typedef may be put off, but it is not thereby offered or
declared.
-/

namespace Ambient

open Emit

/-!
## Signatures and interfaces
-/

namespace Signature

theorem thisParams_ne_endless (v : Value) : thisParams v ≠ .error .endless := by
  unfold thisParams
  split
  · cases v <;> simp
  · simp

theorem restType_ne_endless (v : Value) : restType v ≠ .error .endless := by
  cases v <;> simp [restType]

instance quiet_collect (d : Doclet) : Quiet (collect d) := by
  have hthis := quiet_lift (thisParams_ne_endless d.thisType)
  unfold collect
  infer_instance

instance quiet_returnType (d : Doclet) : Quiet (returnType d) := by
  unfold returnType
  split
  · exact quiet_pure _
  · refine @quiet_bind _ _ _ _ (quiet_typeOf _ _) fun type => ?_
    split <;> exact quiet_pure _

instance quiet_writeParam (name : String) (param : Param) :
    Quiet (writeParam name param) := by
  have hrest := quiet_lift (restType_ne_endless param.type)
  unfold writeParam
  infer_instance

instance quiet_writeParams (params : Keyed Param) :
    Quiet (writeParams params) := by
  fun_induction writeParams params with
  | case1 => exact quiet_pure _
  | case2 name param => exact quiet_writeParam name param
  | case3 name param rest _ ih => infer_instance

instance quiet_write (d : Doclet) (form : Form) : Quiet (write d form) := by
  unfold write
  cases form <;> infer_instance

end Signature

namespace Interface

instance quiet_writeGenerics (d : Doclet) : Quiet (writeGenerics d) := by
  unfold writeGenerics
  infer_instance

instance quiet_writeProperty (settings : Settings) (f : Field) :
    Quiet (writeProperty settings f) := by
  unfold writeProperty
  infer_instance

instance quiet_writeProperties (settings : Settings) (fs : List Field) :
    Quiet (writeProperties settings fs) := by
  induction fs with
  | nil => exact quiet_pure _
  | cons f fs ih =>
      unfold writeProperties
      infer_instance

instance quiet_writeBody (settings : Settings) (d : Doclet) :
    Quiet (writeBody settings d) := by
  unfold writeBody
  infer_instance

instance quiet_write (settings : Settings) (d : Doclet) :
    Quiet (write settings d) := by
  unfold write
  infer_instance

end Interface

/-!
## Declarations
-/

namespace Declaration

instance quiet_writeLead (settings : Settings) (d : Doclet) (spacer : Bool) :
    Quiet (writeLead settings d spacer) := by
  unfold writeLead
  infer_instance

instance quiet_writeAccess (d : Doclet) : Quiet (writeAccess d) := by
  have hstatic : Quiet (match d.scope with
      | .str "static" => Emit.write ["static "]
      | _ => pure ()) := by
    split <;> infer_instance
  unfold writeAccess
  infer_instance

instance quiet_writeFunction (settings : Settings) (d : Doclet)
    (parent : Option Doclet) :
    Quiet (writeFunction settings d parent) := by
  unfold writeFunction
  infer_instance

instance quiet_writeConstructor (settings : Settings) (d : Doclet) :
    Quiet (writeConstructor settings d) := by
  unfold writeConstructor
  infer_instance

instance quiet_writeHeritage (d : Doclet) : Quiet (writeHeritage d) := by
  unfold writeHeritage
  split <;> split <;> infer_instance

instance quiet_writeHead (settings : Settings) (d : Doclet) :
    Quiet (writeHead settings d) := by
  have hrest : Quiet (do
      Emit.write [d.name]
      Interface.writeGenerics d
      Emit.write [" "]
      writeHeritage d
      Emit.writeln ["\x7b"]) := by
    infer_instance
  unfold writeHead
  infer_instance

instance quiet_writeCase (f : Field) : Quiet (writeCase f) := by
  unfold writeCase
  split
  · infer_instance
  · rename_i v _
    have hjson : Quiet (lift (Json.text v)) :=
      quiet_lift (Json.text_ne_endless v)
    infer_instance

instance quiet_writeCases (fs : List Field) : Quiet (writeCases fs) := by
  fun_induction writeCases fs with
  | case1 => exact quiet_pure _
  | case2 f => infer_instance
  | case3 f fs _ ih => infer_instance

instance quiet_writeEnum (d : Doclet) : Quiet (writeEnum d) := by
  unfold writeEnum
  infer_instance

instance quiet_writeParts (fs : List Field) : Quiet (writeParts fs) := by
  fun_induction writeParts fs with
  | case1 => exact quiet_pure _
  | case2 f => infer_instance
  | case3 f fs _ ih => infer_instance

instance quiet_writeMemberType (d : Doclet) : Quiet (writeMemberType d) := by
  unfold writeMemberType
  infer_instance

instance quiet_writeVariable (d : Doclet) (parent : Option Doclet) :
    Quiet (writeVariable d parent) := by
  unfold writeVariable
  infer_instance

instance quiet_writeMember (settings : Settings) (d : Doclet)
    (parent : Option Doclet) :
    Quiet (writeMember settings d parent) := by
  unfold writeMember
  infer_instance

instance quiet_isShape (settings : Settings) (d : Doclet) :
    Quiet (isShape settings d) := by
  unfold isShape
  infer_instance

instance quiet_writeAliasType (settings : Settings) (d : Doclet) :
    Quiet (writeAliasType settings d) := by
  unfold writeAliasType
  infer_instance

instance quiet_writeAlias (settings : Settings) (d : Doclet) :
    Quiet (writeAlias settings d) := by
  unfold writeAlias
  infer_instance

instance quiet_writeShape (settings : Settings) (d : Doclet) :
    Quiet (writeShape settings d) := by
  unfold writeShape
  infer_instance

end Declaration

/-!
## Documents
-/

namespace Document

instance quiet_openModule (name : String) : Quiet (openModule name) := by
  unfold openModule
  infer_instance

instance quiet_closeModule : Quiet closeModule := by
  unfold closeModule
  infer_instance

end Document
end Ambient
