import Ambient.Proofs.Script.Writers
import Ambient.Proofs.Walk

/-!
# Pieces of a document

A declaration is written in pieces, with those of its children between them: a
class has a head, an end and perhaps a namespace after it, and everything else
that has no children is one piece.  Which pieces those are depends on the doclet
and its parent only.
-/

namespace Ambient

open Emit Declaration

/-- What is written in one go. -/
inductive Piece where
  /-- A field of a class, with the words for its access. -/
  | field (d : Doclet)
  /-- A method of a class, with the words for its access. -/
  | method (d : Doclet)
  /-- A variable or a constant. -/
  | binding (d : Doclet)
  | function (d : Doclet)
  | enumeration (d : Doclet)
  | typeAlias (d : Doclet)
  | shape (d : Doclet)
  | openClass (d : Doclet)
  | closeClass
  | openSpace (d : Doclet)
  /-- The first line of the namespace that follows a class. -/
  | openCompanion (d : Doclet)
  | closeSpace

namespace Piece

/-- Writes a function from its name on. -/
def writeCall (d : Doclet) : Emit Unit := do
  Emit.write [d.name]
  Interface.writeGenerics d
  Signature.write d .function
  Emit.writeln [";"]

/-- Writes a member from its name on. -/
def writeTyped (d : Doclet) : Emit Unit := do
  Emit.write [d.name]
  if d.optional then Emit.write ["?"]
  Emit.write [": "]
  writeMemberType d

def program (settings : Settings) : Piece -> Emit Unit
  | field d => do
      writeLead settings d false
      writeAccess d
      if d.readonly then Emit.write ["readonly "]
      writeTyped d
  | method d => do
      writeLead settings d false
      writeAccess d
      writeCall d
  | binding d => do
      writeLead settings d false
      Emit.write [if d.kind = "constant" then "const " else "let "]
      writeTyped d
  | function d => do
      writeLead settings d false
      Emit.write ["function "]
      writeCall d
  | enumeration d => do
      writeLead settings d false
      writeEnum d
  | typeAlias d => writeAlias settings d
  | shape d => writeShape settings d
  | openClass d => do
      writeHead settings d
      Emit.push
      if !d.isInterface && !d.virtual then writeConstructor settings d
      if d.isInterface then Interface.writeProperties settings d.properties
  | closeClass => do
      Emit.pop
      Emit.writeln ["\x7d"]
  | openSpace d => do
      writeLead settings d false
      Emit.writeln ["namespace ", d.name, " \x7b"]
      Emit.push
  | openCompanion d => do
      Emit.writeln []
      if isExported settings d then Emit.write ["export "]
      Emit.writeln ["namespace ", d.name, " \x7b"]
      Emit.push
  | closeSpace => do
      Emit.pop
      Emit.writeln ["\x7d"]

/-- The level after a piece. -/
def level : Piece -> Nat -> Option Nat
  | openClass _, n => some (n + 1)
  | openSpace _, n => some (n + 1)
  | openCompanion _, n => some (n + 1)
  | closeClass, n + 1 => some n
  | closeClass, 0 => none
  | closeSpace, n + 1 => some n
  | closeSpace, 0 => none
  | _, n => some n

/-- The texts of a piece stand on one line. -/
def Plain : Piece -> Prop
  | field d => d.Plain
  | method d => d.Plain
  | binding d => d.Plain
  | function d => d.Plain
  | enumeration d => d.Plain
  | typeAlias d => d.Plain
  | shape d => d.Plain
  | openClass d => d.Plain
  | openSpace d => d.Plain
  | openCompanion d => d.Plain
  | closeClass => True
  | closeSpace => True

/-!
## Strokes
-/

section

variable {plain : Prop} {n : Nat}

theorem draws_writeCall
    {d : Doclet}
    (hd : plain -> d.Plain) :
    Draws plain (Pen.Begun n) (writeCall d) (Pen.AtStart n) := by
  refine (draws_write_more fun hplain => by simp [(hd hplain).name]).bind ?_
  refine (Interface.draws_writeGenerics hd).bind
    ((Signature.draws_write hd .function).bind ?_)
  exact (draws_writeln (fun _ => by decide) (by decide)).of_imp fun _ h =>
    h.onLevel

theorem draws_writeTyped
    {d : Doclet}
    (hd : plain -> d.Plain) :
    Draws plain (Pen.Begun n) (writeTyped d) (Pen.AtStart n) := by
  refine (draws_write_more fun hplain => by simp [(hd hplain).name]).bind ?_
  refine Draws.optional (draws_write_more fun _ => by decide) (fun _ h => h) ?_
  exact (draws_write_more fun _ => by decide).bind (draws_writeMemberType hd)

theorem draws_openSpace
    {d : Doclet}
    (hd : plain -> d.Plain) :
    Draws plain (Pen.OnLevel n)
      (do
        Emit.writeln ["namespace ", d.name, " \x7b"]
        Emit.push)
      (Pen.AtStart (n + 1)) := by
  refine (draws_writeln (fun hplain => ?_) (by simp)).bind draws_push
  simp +decide [(hd hplain).name]

theorem draws_close :
    Draws plain (Pen.AtStart (n + 1))
      (do
        Emit.pop
        Emit.writeln ["\x7d"])
      (Pen.AtStart n) :=
  draws_pop.bind ((draws_writeln (fun _ => by decide) (by decide)).of_imp
    fun _ h => h.onLevel)

theorem draws_openClass
    {d : Doclet}
    (settings : Settings)
    (hd : plain -> d.Plain) :
    Draws plain (Pen.AtStart n) ((openClass d).program settings)
      (Pen.AtStart (n + 1)) := by
  refine (draws_writeHead hd settings).bind (draws_push.bind ?_)
  refine Draws.optional (draws_writeConstructor hd settings) (fun _ h => h) ?_
  refine draws_ite ?_ draws_skip
  exact Interface.draws_writeProperties settings fun hplain =>
    (hd hplain).properties

/-- A piece begins and ends at the start of a line. -/
theorem draws_program
    {k : Piece} {m : Nat}
    (settings : Settings)
    (hk : plain -> k.Plain)
    (hlevel : k.level n = some m) :
    Draws plain (Pen.AtStart n) (k.program settings) (Pen.AtStart m) := by
  cases k with
  | field d =>
      cases hlevel
      refine (draws_writeLead settings d false).bind
        ((draws_writeAccess hk).bind ?_)
      exact Draws.optional (draws_write_more fun _ => by decide) (fun _ h => h)
        (draws_writeTyped hk)
  | method d =>
      cases hlevel
      refine (draws_writeLead settings d false).bind ?_
      exact (draws_writeAccess hk).bind (draws_writeCall hk)
  | binding d =>
      cases hlevel
      refine (draws_writeLead settings d false).bind
        (Draws.bind ?_ (draws_writeTyped hk))
      split
      · exact draws_write (fun _ => by decide) (by decide)
      · exact draws_write (fun _ => by decide) (by decide)
  | function d =>
      cases hlevel
      refine (draws_writeLead settings d false).bind
        (Draws.bind ?_ (draws_writeCall hk))
      exact draws_write (fun _ => by decide) (by decide)
  | enumeration d =>
      cases hlevel
      exact (draws_writeLead settings d false).bind (draws_writeEnum hk)
  | typeAlias d =>
      cases hlevel
      exact draws_writeAlias hk settings
  | shape d =>
      cases hlevel
      exact draws_writeShape hk settings
  | openClass d =>
      cases hlevel
      exact draws_openClass settings hk
  | openSpace d =>
      cases hlevel
      exact (draws_writeLead settings d false).bind (draws_openSpace hk)
  | openCompanion d =>
      cases hlevel
      refine draws_writeln_blank.bind
        (Draws.optional ?_ (fun _ h => h) (draws_openSpace hk))
      exact (draws_write (fun _ => by decide) (by decide)).mono fun _ h =>
        h.onLevel
  | closeClass =>
      cases n with
      | zero => contradiction
      | succ n =>
          cases hlevel
          exact draws_close
  | closeSpace =>
      cases n with
      | zero => contradiction
      | succ n =>
          cases hlevel
          exact draws_close

end

/-- Every piece makes the same strokes on every page. -/
theorem exists_performs
    (settings : Settings)
    (k : Piece) :
    exists strokes result, Performs (k.program settings) strokes result := by
  have hlevel : exists m, k.level 1 = some m := by cases k <;> exact ⟨_, rfl⟩
  rcases hlevel with ⟨m, hm⟩
  have hdraws : Draws False (Pen.AtStart 1) (k.program settings)
      (Pen.AtStart m) :=
    draws_program settings False.elim hm
  rcases hdraws with ⟨strokes, result, hperforms, _⟩
  exact ⟨strokes, result, hperforms⟩

end Piece

/-!
## Sequences of pieces
-/

/-- Writes pieces one after the other. -/
def writeAll (settings : Settings) : List Piece -> Emit Unit
  | [] => pure ()
  | k :: ks => do
      k.program settings
      writeAll settings ks

theorem writeAll_append
    (settings : Settings)
    (ks ks' : List Piece) :
    writeAll settings (ks ++ ks') = writeAll settings ks >>= fun _ =>
      writeAll settings ks' := by
  induction ks with
  | nil => rfl
  | cons k ks ih =>
      rw [List.cons_append, writeAll, ih, writeAll, bind_assoc]

theorem writeAll_singleton (settings : Settings) (k : Piece) :
    writeAll settings [k] = k.program settings :=
  bind_pure_unit

theorem draws_writeAll_append
    {plain : Prop} {settings : Settings} {P M Q : Pen -> Prop}
    {ks ks' : List Piece}
    (h : Draws plain P (writeAll settings ks) M)
    (h' : Draws plain M (writeAll settings ks') Q) :
    Draws plain P (writeAll settings (ks ++ ks')) Q := by
  rw [writeAll_append]
  exact h.bind h'

/-!
## The pieces of a declaration
-/

/-- The pieces before the children of a doclet, or all of them if it has none.
An interface that belongs to a class is not written at its place. -/
def opening (settings : Settings) (d : Doclet) (parent : Option Doclet) :
    List Piece :=
  match d.role with
  | .classLike => [.openClass d]
  | .nameSpace => [.openSpace d]
  | .member =>
      [if d.isEnum then .enumeration d
        else if isInClass parent then .field d else .binding d]
  | .function => [if isInClass parent then .method d else .function d]
  | .typedef =>
      if d.isShape settings.typedefInterfaces then
        if isInClass parent then [] else [.shape d]
      else [.typeAlias d]
  | .package => []
  | .unknown => []

/-- The pieces between the body of a class and the namespace after it. -/
def turn (d : Doclet) (hoisted : List Entry) : List Piece :=
  if d.role = .classLike then
    .closeClass :: if hoisted.isEmpty then [] else [.openCompanion d]
  else []

/-- The pieces behind the children of a doclet. -/
def closing (d : Doclet) (hoisted : List Entry) : List Piece :=
  if d.role = .nameSpace || !hoisted.isEmpty then [.closeSpace] else []

/-- What is noted, but not written, of a typedef or of a doclet of an unknown
kind. -/
def prepare (settings : Settings) (e : Entry) (parent : Option Doclet) :
    Emit Unit :=
  match e.doclet.role with
  | .typedef => do
      if (← isShape settings e.doclet) && isInClass parent then
        Emit.report [.postponed e.doclet.longname]
        modify fun s => { s with deferred := s.deferred ++ [e] }
  | .unknown => Emit.report [.skipped e.doclet.longname e.doclet.kind]
  | _ => pure ()

theorem writeMember_eq
    (settings : Settings)
    (d : Doclet)
    (parent : Option Doclet) :
    writeMember settings d parent =
      (if d.isEnum then Piece.enumeration d
        else if isInClass parent then .field d
        else .binding d).program settings := by
  unfold writeMember writeVariable
  cases d.isEnum with
  | true => rfl
  | false =>
      cases isInClass parent with
      | true => rfl
      | false => rfl

theorem writeFunction_eq
    (settings : Settings)
    (d : Doclet)
    (parent : Option Doclet) :
    writeFunction settings d parent =
      (if isInClass parent then Piece.method d else .function d).program
        settings := by
  unfold writeFunction
  cases isInClass parent with
  | true => rfl
  | false => rfl

theorem writeClass_eq
    (visit : Visitor)
    (job : Job)
    (d : Doclet) :
    writeClass visit job d =
      (do
        (Piece.openClass d).program job.settings
        let refused ← visitBody visit d (job.children (some d))
        Piece.closeClass.program job.settings
        writeCompanion visit job.settings d refused) := by
  unfold writeClass
  simp only [Piece.program, bind_assoc]
  cases !d.isInterface && !d.virtual <;> cases d.isInterface
    <;> simp [bind_assoc]

theorem writeCompanion_eq
    (visit : Visitor)
    (settings : Settings)
    (d : Doclet)
    (refused : List Entry) :
    writeCompanion visit settings d refused =
      if refused.isEmpty then pure ()
      else
        (do
          (Piece.openCompanion d).program settings
          visitAll visit d refused
          Piece.closeSpace.program settings) := by
  unfold writeCompanion writeSpace
  simp only [Piece.program, bind_assoc]
  cases isExported settings d <;> simp [bind_assoc]

theorem writeNamespace_eq
    (visit : Visitor)
    (job : Job)
    (d : Doclet) :
    writeNamespace visit job d =
      (do
        (Piece.openSpace d).program job.settings
        visitAll visit d (job.children (some d))
        Piece.closeSpace.program job.settings) := by
  unfold writeNamespace writeSpace
  simp only [Piece.program, bind_assoc]

theorem writeTypedef_eq
    (settings : Settings)
    (e : Entry)
    (parent : Option Doclet)
    (hrole : e.doclet.role = .typedef) :
    writeTypedef settings e parent =
      (do
        prepare settings e parent
        writeAll settings (opening settings e.doclet parent)) := by
  unfold writeTypedef prepare opening
  simp only [hrole, isShape, bind_assoc]
  -- whether the annotations are reported does not matter here
  generalize e.doclet.mayBeShape settings.typedefInterfaces = reported
  cases e.doclet.isShape settings.typedefInterfaces with
  | true =>
      cases isInClass parent with
      | true => cases reported <;> simp [writeAll]
      | false => cases reported <;> simp [writeAll_singleton, Piece.program]
  | false => cases reported <;> simp [writeAll_singleton, Piece.program]

/-- A declaration writes its pieces in order, with its children between them. -/
theorem declare_eq
    (visit : Visitor)
    (job : Job)
    (e : Entry)
    (parent : Option Doclet) :
    declare visit job e parent =
      (do
        prepare job.settings e parent
        writeAll job.settings (opening job.settings e.doclet parent)
        let hoisted ← visitBody visit e.doclet (job.bodyOf e)
        writeAll job.settings (turn e.doclet hoisted)
        visitAll visit e.doclet (job.spaceOf e hoisted)
        writeAll job.settings (closing e.doclet hoisted)) := by
  unfold declare
  cases hrole : e.doclet.role with
  | classLike =>
      simp only [prepare, opening, turn, closing, Job.bodyOf, Job.spaceOf,
        hrole, writeClass_eq, writeCompanion_eq, writeAll_singleton, writeAll,
        pure_bind, bind_assoc, if_true, reduceCtorEq, if_false, decide_false,
        Bool.false_or]
      congr! 4 with _ hoisted
      cases hoisted with
      | nil => simp [writeAll, visitAll]
      | cons c hoisted => simp [writeAll]
  | nameSpace =>
      simp [prepare, opening, turn, closing, Job.bodyOf, Job.spaceOf, hrole,
        writeNamespace_eq, writeAll_singleton, visitBody, writeAll]
  | member =>
      simp [prepare, opening, turn, closing, Job.bodyOf, Job.spaceOf, hrole,
        writeMember_eq, writeAll_singleton, visitBody, visitAll, writeAll]
  | function =>
      simp [prepare, opening, turn, closing, Job.bodyOf, Job.spaceOf, hrole,
        writeFunction_eq, writeAll_singleton, visitBody, visitAll, writeAll]
  | typedef =>
      simp [turn, closing, Job.bodyOf, Job.spaceOf, hrole, writeTypedef_eq,
        visitBody, visitAll, writeAll]
  | package =>
      simp [prepare, opening, turn, closing, Job.bodyOf, Job.spaceOf, hrole,
        visitBody, visitAll, writeAll]
  | unknown =>
      simp [prepare, opening, turn, closing, Job.bodyOf, Job.spaceOf, hrole,
        visitBody, visitAll, writeAll]

end Ambient
