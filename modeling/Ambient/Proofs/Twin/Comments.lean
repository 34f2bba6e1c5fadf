import Ambient.Proofs.Twin.Forest
import Ambient.Proofs.Value.Key

/-!
# Comments that are left out

Without comments, a document is that of the doclets that have none.  All writers
do the same in both cases, so the two runs are in step.
-/

namespace Ambient

open Emit Declaration

def Field.uncommented (f : Field) : Field := { f with comment := .null }

/-- A doclet without comments, its own and those of its fields. -/
def Doclet.uncommented (d : Doclet) : Doclet :=
  { d with
    comment := .null
    properties := d.properties.map Field.uncommented
    params := d.params.map Field.uncommented
    returns := d.returns.map Field.uncommented }

namespace Settings

def withComments (settings : Settings) (comments : Bool) : Settings :=
  { settings with comments := comments }

end Settings

/-!
## Writers
-/

section

variable (settings : Settings)

theorem writeComment_null
    (comment : Value)
    (spacer : Bool) :
    writeComment (settings.withComments true) .null spacer =
      writeComment (settings.withComments false) comment spacer := by
  have hlines : commentLines (settings.withComments false) comment = [] := by
    cases comment <;> rfl
  have hpage (p : Page) : p.writeComment false comment spacer =
      p.writeComment true .null spacer := by
    simp [Page.writeComment, Value.truthy]
  unfold writeComment
  rw [hlines]
  simp only [Settings.withComments, hpage, commentLines]

theorem writeLead_uncommented
    (d : Doclet)
    (spacer : Bool) :
    writeLead (settings.withComments true) d.uncommented spacer =
      writeLead (settings.withComments false) d spacer := by
  unfold writeLead
  rw [← writeComment_null settings d.comment]
  rfl

theorem Signature.collect_uncommented (d : Doclet) :
    collect d.uncommented = collect d := by
  have hnotices : paramNotices d.uncommented.params =
      paramNotices d.params := by
    simp only [paramNotices, Doclet.uncommented, List.flatMap_map]
    rfl
  have hparams (params : Keyed Param) :
      d.uncommented.params.foldl (fun params f => addParam f params) params =
        d.params.foldl (fun params f => addParam f params) params := by
    simp only [Doclet.uncommented, List.foldl_map]
    rfl
  unfold collect
  simp only [hnotices, hparams]
  rfl

theorem Signature.returnType_uncommented (d : Doclet) :
    returnType d.uncommented = returnType d := by
  unfold returnType Doclet.uncommented
  cases d.returns with
  | nil => rfl
  | cons f fs => rfl

theorem Signature.write_uncommented
    (d : Doclet)
    (form : Form) :
    write d.uncommented form = write d form := by
  unfold write
  rw [collect_uncommented, returnType_uncommented]

theorem Interface.writeProperties_uncommented
    (fs : List Field) :
    writeProperties (settings.withComments true) (fs.map Field.uncommented) =
      writeProperties (settings.withComments false) fs := by
  induction fs with
  | nil => rfl
  | cons f fs ih =>
      rw [List.map_cons, writeProperties, writeProperties, ih]
      unfold writeProperty
      rw [← writeComment_null settings f.comment]
      rfl

theorem Interface.writeBody_uncommented
    (d : Doclet) :
    writeBody (settings.withComments true) d.uncommented =
      writeBody (settings.withComments false) d := by
  unfold writeBody
  rw [← writeProperties_uncommented settings d.properties]
  rfl

theorem writeShape_uncommented
    (d : Doclet) :
    writeShape (settings.withComments true) d.uncommented =
      writeShape (settings.withComments false) d := by
  unfold writeShape Interface.write
  rw [writeLead_uncommented, Interface.writeBody_uncommented]
  rfl

theorem writeAlias_uncommented
    (d : Doclet) :
    writeAlias (settings.withComments true) d.uncommented =
      writeAlias (settings.withComments false) d := by
  have hempty : d.uncommented.properties.isEmpty = d.properties.isEmpty :=
    List.isEmpty_map
  unfold writeAlias writeAliasType
  rw [Interface.writeBody_uncommented, Signature.write_uncommented, hempty]
  rfl

theorem writeCases_uncommented
    (fs : List Field) :
    writeCases (fs.map Field.uncommented) = writeCases fs := by
  fun_induction writeCases fs with
  | case1 => rfl
  | case2 f => rfl
  | case3 f fs hfs ih =>
      cases fs with
      | nil => exact (hfs rfl).elim
      | cons g fs =>
          rw [List.map_cons, List.map_cons, writeCases, ← List.map_cons, ih]
          · rfl
          · simp

theorem writeEnum_uncommented (d : Doclet) :
    writeEnum d.uncommented = writeEnum d := by
  unfold writeEnum
  rw [← writeCases_uncommented d.properties]
  rfl

theorem writeParts_uncommented
    (fs : List Field) :
    writeParts (fs.map Field.uncommented) = writeParts fs := by
  fun_induction writeParts fs with
  | case1 => rfl
  | case2 f => rfl
  | case3 f fs hfs ih =>
      cases fs with
      | nil => exact (hfs rfl).elim
      | cons g fs =>
          rw [List.map_cons, List.map_cons, writeParts, ← List.map_cons, ih]
          · rfl
          · simp

theorem writeMemberType_uncommented
    (d : Doclet) :
    writeMemberType d.uncommented = writeMemberType d := by
  have hshape : hasObjectShape d.uncommented = hasObjectShape d := by
    simp [hasObjectShape, Doclet.uncommented]
  unfold writeMemberType
  rw [hshape, ← writeParts_uncommented d.properties]
  rfl

theorem writeConstructor_uncommented
    (d : Doclet) :
    writeConstructor (settings.withComments true) d.uncommented =
      writeConstructor (settings.withComments false) d := by
  unfold writeConstructor
  rw [Signature.write_uncommented, ← writeComment_null settings d.comment]
  rfl

theorem writeHead_uncommented
    (d : Doclet) :
    writeHead (settings.withComments true) d.uncommented =
      writeHead (settings.withComments false) d := by
  unfold writeHead
  rw [writeLead_uncommented]
  rfl

theorem Piece.program_uncommented
    (k : Piece) :
    (k.map Doclet.uncommented).program (settings.withComments true) =
      k.program (settings.withComments false) := by
  have hcall (d : Doclet) : writeCall d.uncommented = writeCall d := by
    unfold writeCall
    rw [Signature.write_uncommented]
    rfl
  have htyped (d : Doclet) : writeTyped d.uncommented = writeTyped d := by
    unfold writeTyped
    rw [writeMemberType_uncommented]
    rfl
  cases k with
  | field d =>
      simp only [map, program, writeLead_uncommented, htyped]
      rfl
  | method d =>
      simp only [map, program, writeLead_uncommented, hcall]
      rfl
  | binding d =>
      simp only [map, program, writeLead_uncommented, htyped]
      rfl
  | function d => simp only [map, program, writeLead_uncommented, hcall]
  | enumeration d =>
      simp only [map, program, writeLead_uncommented, writeEnum_uncommented]
  | typeAlias d => exact writeAlias_uncommented settings d
  | shape d => exact writeShape_uncommented settings d
  | openClass d =>
      have hproperties :=
        Interface.writeProperties_uncommented settings d.properties
      simp only [map, program, writeHead_uncommented,
        writeConstructor_uncommented, ← hproperties]
      rfl
  | closeClass => rfl
  | openSpace d =>
      simp only [map, program, writeLead_uncommented]
      rfl
  | openCompanion d => rfl
  | closeSpace => rfl

theorem Doclet.settle_uncommented (d : Doclet) :
    d.uncommented.settle = d.settle.uncommented :=
  settle_comm uncommented (fun _ => rfl) (fun _ => rfl) (fun _ _ => rfl) d

/-- To leave out the comments does not show if there are none. -/
theorem faithful_uncommented :
    Faithful (settings.withComments false) (settings.withComments true)
      Doclet.uncommented where
  settle := Doclet.settle_uncommented
  longname _ := rfl
  kind _ := rfl
  isEnum _ := rfl
  isShape d := by
    have hmay : d.uncommented.mayBeShape settings.typedefInterfaces =
        d.mayBeShape settings.typedefInterfaces := by
      have hempty : d.uncommented.properties.isEmpty = d.properties.isEmpty :=
        List.isEmpty_map
      unfold Doclet.mayBeShape
      rw [hempty]
      rfl
    have hshape : d.uncommented.isShape settings.typedefInterfaces =
        d.isShape settings.typedefInterfaces := by
      rw [Doclet.isShape, hmay, Doclet.isShape]
      rfl
    unfold Declaration.isShape Settings.withComments
    rw [hmay, hshape]
    rfl
  program := Piece.program_uncommented settings

end

/-!
## Documents
-/

theorem Table.under_uncommented
    (parent : Option String)
    (table : List Doclet) :
    under parent (table.map Doclet.uncommented) =
      (under parent table).map Doclet.uncommented := by
  unfold under
  rw [List.filter_map]
  rfl

/-- Entries of two tables that match: the one has the doclet of the other
without comments. -/
def Entry.Uncommented (e e' : Entry) : Prop := e'.doclet = e.doclet.uncommented

section

variable (settings settings' : Settings) (table : List Doclet)

theorem Job.forall₂_children_uncommented
    {parent parent' : Option Doclet}
    (hparent : parent'.map Doclet.longname = parent.map Doclet.longname) :
    List.Forall₂ Entry.Uncommented ((ofTable settings table).children parent)
      ((ofTable settings' (table.map Doclet.uncommented)).children
        parent') := by
  apply Entry.forall₂_of_map_doclet
  rw [map_doclet_children, hparent, Table.under_uncommented,
    ← map_doclet_children settings table parent, List.map_map]
  rfl

theorem matching_uncommented :
    Matching Doclet.uncommented (Job.ofTable settings table)
      (Job.ofTable settings' (table.map Doclet.uncommented))
        Entry.Uncommented := by
  constructor
  · exact fun _ _ he => he
  · intro e e' he _
    apply Job.forall₂_children_uncommented
    rw [he]
    rfl

theorem fuelFor_uncommented :
    fuelFor (Job.ofTable settings' (table.map Doclet.uncommented)) =
      fuelFor (Job.ofTable settings table) := by
  simp [fuelFor, Job.ofTable]

/-- Without comments, a document is that of the doclets without comments. -/
theorem publish_withComments_false :
    Document.publish (settings.withComments false) table =
      Document.publish (settings.withComments true)
        (table.map Doclet.uncommented) := by
  have hfaithful := faithful_uncommented settings
  have hmatching := matching_uncommented (settings.withComments false)
    (settings.withComments true) table
  rw [Document.publish_eq_publishBy, Document.publish_eq_publishBy]
  symm
  apply Document.publishBy_eq_of_inStep (R := Eq)
  refine Document.inStep_writeWith hfaithful rfl
    (Job.forall₂_children_uncommented _ _ table rfl) fun e e' he => ?_
  unfold visit
  rw [fuelFor_uncommented (settings.withComments false)]
  exact inStep_offer hmatching hfaithful _ he (fun _ => rfl) false

end

/-!
## Options
-/

theorem Settings.ofOptions_put_comments
    (comments : Bool)
    (options : Options.Entries) :
    ofOptions (Value.put (.str "comments") (.bool comments) options) =
      (ofOptions options).withComments comments := by
  unfold ofOptions withComments
  rw [Value.get?_put_str, Value.get?_put_str_of_ne (by decide),
    Value.get?_put_str_of_ne (by decide)]

/-- With comments off, a document is that of the same doclets without comments
when comments are on. So the comments have no bearing on it, whatever they
are. -/
theorem publish_comments_off
    (options : Options.Entries)
    (table : List Doclet) :
    let off :=
      Settings.ofOptions (Value.put (.str "comments") (.bool false) options)
    let on :=
      Settings.ofOptions (Value.put (.str "comments") (.bool true) options)
    Document.publish off table =
      Document.publish on (table.map Doclet.uncommented) ∧
      forall table',
        table'.map Doclet.uncommented = table.map Doclet.uncommented ->
        Document.publish off table' = Document.publish off table := by
  simp only [Settings.ofOptions_put_comments]
  constructor
  · exact publish_withComments_false (Settings.ofOptions options) table
  · intro table' h
    rw [publish_withComments_false, h, ← publish_withComments_false]

/-- A class with a comment that is no text and an interface with a comment on a
property. -/
def commentedParts : List Doclet :=
  [{ Doclet.plain "class" "C" none with comment := .int 5 },
    { Doclet.plain "typedef" "T" none with
      typeNames := ["Object"]
      properties :=
        [⟨"x", ["number"], .null, false, false, none, .str "/** A number. */"⟩]
          }]

/-- The same doclets with other comments. -/
def recommentedParts : List Doclet :=
  [{ Doclet.plain "class" "C" none with comment := .str "/** A class. */" },
    { Doclet.plain "typedef" "T" none with
      typeNames := ["Object"]
      comment := .list []
      properties :=
        [⟨"x", ["number"], .null, false, false, none, .bool true⟩] }]

theorem publish_comments_off_recommentedParts :
    let off :=
      Settings.ofOptions
        (Value.put (.str "comments") (.bool false) Options.defaults)
    let on :=
      Settings.ofOptions
        (Value.put (.str "comments") (.bool true) Options.defaults)
    (Document.publish on commentedParts).fault = some .nonText ∧
      (Document.publish off commentedParts).fault = none ∧
      recommentedParts.map Doclet.uncommented =
        commentedParts.map Doclet.uncommented ∧
      Document.publish off commentedParts =
        Document.publish on (commentedParts.map Doclet.uncommented) ∧
      Document.publish off recommentedParts =
        Document.publish off commentedParts := by
  have hboth := publish_comments_off Options.defaults commentedParts
  have hsame : recommentedParts.map Doclet.uncommented =
      commentedParts.map Doclet.uncommented := rfl
  refine ⟨?_, ?_, hsame, hboth.1, hboth.2 recommentedParts hsame⟩
  · decide +kernel
  · decide +kernel

end Ambient
