import Ambient.Proofs.Script.Stroke
import Ambient.Proofs.TypeExpr.Grouping
import Ambient.Proofs.Walk

/-!
# Object shapes of members

A member with properties is written with them in place of its type when its
first annotation starts with the word `Object`.  A typedef is taken for an
object by its resolved type, and not at all when a type is given for it.  For a
single plain word the two tests agree.  Elsewhere they need not: the properties
of a member may hide the type that is given for it, further alternatives, type
arguments and the rest of a qualified name.
-/

namespace Ambient

open Emit

namespace Declaration

/-!
## What is written for a type
-/

/-- The text of a value that has to be one. -/
def textOrFault : Value -> Except Fault String
  | .str s => .ok s
  | _ => .error .nonText

theorem performs_textOf (v : Value) :
    Performs (textOf v) [] (textOrFault v) := by
  cases v with
  | str s => exact performs_pure s
  | _ => exact performs_throw .nonText

theorem performs_typeText
    (tsType : Value)
    (typeNames : List String) :
    Performs (Emit.typeOf tsType typeNames >>= textOf) []
      (textOrFault (Ambient.typeOf tsType typeNames)) := by
  have htype : Performs (Emit.typeOf tsType typeNames) []
      (.ok (Ambient.typeOf tsType typeNames)) :=
    (performs_report _).bind (performs_pure _)
  exact htype.bind (performs_textOf _)

/-- Whether the type of a field is a text. -/
def hasTextType (f : Field) : Bool := (textOrFault f.type).isOk

/-- The lines of the properties, each but the last with a comma after it. -/
def partLines (fs : List Field) : List Stroke :=
  fs.mapIdx fun i f =>
    .line (Json.quote f.name ++ ": " ++
      (textOrFault f.type).toOption.getD "" ++
      if i + 1 < fs.length then "," else "")

theorem partLines_cons
    (f : Field)
    (fs : List Field) :
    partLines (f :: fs) =
      .line (Json.quote f.name ++ ": " ++
        (textOrFault f.type).toOption.getD "" ++
        if fs.isEmpty then "" else ",") :: partLines fs := by
  unfold partLines
  rw [List.mapIdx_cons]
  cases fs with
  | nil => rfl
  | cons g fs => simp

section Part

variable {f : Field} {mark : List String}

theorem performs_part
    (h : hasTextType f = true) :
    Performs (fieldType f >>= fun type =>
      writeln (Json.quote f.name :: ": " :: type :: mark))
      [.line (Json.quote f.name ++ ": " ++
        (textOrFault f.type).toOption.getD "" ++
        String.join mark)] (.ok ()) := by
  have htype : Performs (fieldType f) [] (textOrFault f.type) :=
    performs_typeText _ _
  unfold hasTextType at h
  cases htext : textOrFault f.type with
  | error fault =>
      rw [htext] at h
      contradiction
  | ok type =>
      rw [htext] at htype
      have hline := performs_writeln (Json.quote f.name :: ": " :: type :: mark)
      rw [String.join_cons, String.join_cons, String.join_cons,
        ← String.append_assoc, ← String.append_assoc] at hline
      exact htype.bind hline

theorem performs_part_fault
    (h : hasTextType f = false)
    (next : String -> Emit Unit) :
    Performs (fieldType f >>= next) [] (.error .nonText) := by
  have htype : Performs (fieldType f) [] (textOrFault f.type) :=
    performs_typeText _ _
  have hfault : textOrFault f.type = .error .nonText := by
    unfold hasTextType textOrFault at h
    unfold textOrFault
    split at h
    · contradiction
    · rfl
  rw [hfault] at htype
  exact htype.bind_error next

end Part

/-- The properties are written up to the first one whose type is no text. -/
theorem performs_writeParts (fs : List Field) :
    Performs (writeParts fs)
      ((partLines fs).take (fs.takeWhile hasTextType).length)
      (if fs.all hasTextType then .ok () else .error .nonText) := by
  fun_induction writeParts fs with
  | case1 => exact performs_pure ()
  | case2 f =>
      rw [partLines_cons, List.takeWhile_cons, List.all_cons]
      cases h : hasTextType f with
      | false => exact performs_part_fault h _
      | true => exact performs_part h
  | case3 f fs hne ih =>
      rw [partLines_cons, List.takeWhile_cons, List.all_cons]
      cases h : hasTextType f with
      | false => exact performs_part_fault h _
      | true =>
          have hmark : fs.isEmpty = false := by simpa using hne
          rw [hmark, ← bind_assoc]
          exact (performs_part h).bind ih

/-- What is written for an object with the given properties. -/
def shapeStrokes (fs : List Field) : List Stroke :=
  .line "\x7b" :: .push ::
    ((partLines fs).take (fs.takeWhile hasTextType).length ++
      if fs.all hasTextType then [.pop, .line "\x7d;"] else [])

theorem performs_writeMemberType_shape
    {d : Doclet}
    (h : hasObjectShape d = true) :
    Performs (writeMemberType d) (shapeStrokes d.properties)
      (if d.properties.all hasTextType then .ok () else .error .nonText) := by
  have hparts := performs_writeParts d.properties
  unfold writeMemberType shapeStrokes
  rw [if_pos h]
  cases hall : d.properties.all hasTextType with
  | true =>
      rw [hall] at hparts
      apply (performs_writeln ["\x7b"]).bind
      apply performs_push.bind
      apply hparts.bind
      apply performs_pop.bind
      exact performs_writeln ["\x7d;"]
  | false =>
      rw [hall] at hparts
      rw [if_neg Bool.false_ne_true, List.append_nil]
      apply (performs_writeln ["\x7b"]).bind
      apply performs_push.bind
      exact hparts.bind_error _

theorem performs_writeMemberType_type
    {d : Doclet}
    (h : hasObjectShape d = false) :
    Performs (writeMemberType d)
      ((textOrFault d.type).toOption.toList.map fun type => .line (type ++ ";"))
      ((textOrFault d.type).map fun _ => ()) := by
  have htype : Performs (docletType d) [] (textOrFault d.type) :=
    performs_typeText _ _
  unfold writeMemberType
  rw [if_neg (by rw [h]; exact Bool.false_ne_true)]
  cases htext : textOrFault d.type with
  | error fault =>
      rw [htext] at htype
      exact htype.bind_error _
  | ok type =>
      rw [htext] at htype
      have hline := performs_writeln [type, ";"]
      rw [String.join_cons] at hline
      exact htype.bind hline

/-!
## When a member is written as an object
-/

theorem startsWithObject_iff
    {s : String} :
    startsWithObject s = true ↔
      exists word rest, s.toList = word ++ rest ∧
        word.map Char.toLower = "object".toList ∧
        forall c, rest.head? = some c -> Text.isWord c = false := by
  unfold startsWithObject
  rw [Bool.and_eq_true, beq_iff_eq, Bool.not_eq_true', Option.any_eq_false]
  constructor
  · intro h
    refine ⟨s.toList.take 6, s.toList.drop 6, ?_, h.1, h.2⟩
    exact (List.take_append_drop 6 s.toList).symm
  · intro h
    rcases h with ⟨word, rest, hs, hword, hrest⟩
    have hlength : word.length = 6 := by
      rw [← List.length_map Char.toLower, hword]
      rfl
    rw [hs, List.take_left' hlength, List.drop_left' hlength]
    exact ⟨hword, hrest⟩

theorem hasObjectShape_iff
    {d : Doclet} :
    hasObjectShape d = true ↔
      d.properties ≠ [] ∧ exists first others, d.typeNames = first :: others ∧
        exists word rest, first.toList = word ++ rest ∧
          word.map Char.toLower = "object".toList ∧
          forall c, rest.head? = some c -> Text.isWord c = false := by
  have hfirst : d.typeNames.head?.any startsWithObject = true ↔
      exists first others, d.typeNames = first :: others ∧
        startsWithObject first = true := by
    cases d.typeNames with
    | nil => simp
    | cons first others => simp
  unfold hasObjectShape
  rw [Bool.and_eq_true, hfirst, Bool.not_eq_true', List.isEmpty_eq_false_iff]
  simp only [startsWithObject_iff]
  exact and_comm

/-!
## Members and typedefs
-/

/-- A plain word: it starts like a name, and all its characters belong to
words. -/
def IsPlainWord (s : String) : Prop :=
  exists c cs, s.toList = c :: cs ∧ Token.isNameStart c = true ∧
    forall d, d ∈ c :: cs -> Text.isWord d = true

theorem startsWithObject_of_isPlainWord
    {s : String}
    (h : IsPlainWord s) :
    startsWithObject s = TypeExpr.isWordUpToCase "object" s := by
  rcases h with ⟨c, cs, hs, _, hword⟩
  rw [← hs] at hword
  rw [Bool.eq_iff_iff, startsWithObject_iff, TypeExpr.isWordUpToCase,
    beq_iff_eq]
  constructor
  · intro hobject
    rcases hobject with ⟨word, rest, hsplit, hlower, hrest⟩
    cases rest with
    | nil =>
        rw [TypeExpr.lowered, hsplit, List.append_nil, hlower]
        exact String.ofList_toList
    | cons d rest =>
        have hd := hword d (by simp [hsplit])
        rw [hrest d rfl] at hd
        contradiction
  · intro hlowered
    refine ⟨s.toList, [], (List.append_nil _).symm, ?_, by simp⟩
    rw [← hlowered, TypeExpr.lowered, String.toList_ofList]

theorem renderName_eq_object_iff
    {s : String} :
    TypeExpr.renderName s = "object" ↔
      TypeExpr.isWordUpToCase "object" s = true := by
  constructor
  · intro h
    have hrendered := TypeExpr.isWordUpToCase_renderName_object s
    rw [h] at hrendered
    rw [← hrendered]
    decide
  · intro h
    unfold TypeExpr.renderName
    rw [if_pos h, if_neg]
    rintro rfl
    exact absurd h (by decide)

theorem parse_of_isPlainWord
    {s : String}
    (h : IsPlainWord s) :
    TypeExpr.parse s = .ok (.name s) := by
  rcases h with ⟨c, cs, hs, hstart, hword⟩
  have hparts : forall d, d ∈ cs -> Token.isNamePart d = true := by
    intro d hd
    simp [Token.isNamePart, hword d (List.mem_cons_of_mem c hd)]
  have hvalid : (Token.name s).Valid := by
    have hbare := Token.BareText.mk hstart hparts .nil
    rw [List.append_nil, ← hs] at hbare
    exact Or.inl hbare
  have hscan : Token.scanAll s.toList = .ok [.name s] :=
    (Token.reads_name hvalid).scanAll_eq
  have hname : TypeExpr.ReadsPrefixed 14 [.name s] (.name s) [] := by
    refine ⟨.name s, [], ?_, rfl⟩
    exact TypeExpr.nameRule_other (by simp [TypeExpr.startsWith]) (by simp)
  refine TypeExpr.parse_eq_ok_iff.mpr ⟨[.name s], hscan, ?_⟩
  exact TypeExpr.ofTokens_eq_ok_iff.mpr
    (TypeExpr.unionRule_of_prefixed hname trivial)

theorem resolve_eq_object_of_isPlainWord
    {s : String}
    (h : IsPlainWord s) :
    (TypeExpr.resolve s == "object") = startsWithObject s := by
  rw [startsWithObject_of_isPlainWord h, Bool.eq_iff_iff, beq_iff_eq,
    ← renderName_eq_object_iff, TypeExpr.resolve,
    TypeExpr.parseOrAny_of_parse (parse_of_isPlainWord h), TypeExpr.render]

theorem resolveAll_ne_object
    {names : List String}
    (h : 2 ≤ names.length) :
    TypeExpr.resolveAll names ≠ "object" := by
  intro hobject
  rw [TypeExpr.resolveAll_of_many h, TypeExpr.render] at hobject
  have hhead := congrArg (fun s : String => s.toList.head?) hobject
  simp at hhead

end Declaration

/-- The typedef with the name, the type and the properties of a doclet. -/
def Doclet.asTypedef (d : Doclet) : Doclet := { d with kind := "typedef" }

theorem Doclet.isShape_asTypedef (d : Doclet) :
    d.asTypedef.isShape true =
      (!d.tsType.truthy && !d.properties.isEmpty &&
        TypeExpr.resolveAll d.typeNames == "object") := by
  have hrole : d.asTypedef.role = .typedef := by
    change Role.ofKind "typedef" = .typedef
    decide
  rw [isShape, mayBeShape, hrole]
  rfl

namespace Declaration

theorem hasObjectShape_eq_isShape
    {d : Doclet}
    (hgiven : d.tsType.truthy = false)
    (hone : d.typeNames.length ≤ 1)
    (hword : forall name, name ∈ d.typeNames -> IsPlainWord name) :
    hasObjectShape d = d.asTypedef.isShape true := by
  rw [Doclet.isShape_asTypedef, hgiven]
  unfold hasObjectShape
  cases hnames : d.typeNames with
  | nil =>
      have hany : (TypeExpr.resolveAll [] == "object") = false := by decide
      rw [hany]
      simp
  | cons name others =>
      rw [hnames] at hone hword
      have hothers : others = [] := by
        rw [List.length_cons] at hone
        exact List.eq_nil_of_length_eq_zero (by omega)
      subst hothers
      have hresolve :=
        resolve_eq_object_of_isPlainWord (hword name List.mem_cons_self)
      rw [TypeExpr.resolveAll, hresolve]
      simp [Bool.and_comm]

theorem isShape_eq_false
    {d : Doclet}
    (h : d.tsType.truthy = true ∨ 2 ≤ d.typeNames.length) :
    d.asTypedef.isShape true = false := by
  rw [Doclet.isShape_asTypedef]
  rcases h with h | h
  · rw [h]
    rfl
  · have hobject := resolveAll_ne_object h
    rw [beq_eq_false_iff_ne.mpr hobject, Bool.and_false]

/-- What a member is written with before its type. -/
def writeMemberHead (settings : Settings) (d : Doclet)
    (parent : Option Doclet) : Emit Unit := do
  writeLead settings d false
  if isInClass parent then
    writeAccess d
    if d.readonly then Emit.write ["readonly "]
  else Emit.write [if d.kind = "constant" then "const " else "let "]
  Emit.write [d.name]
  if d.optional then Emit.write ["?"]
  Emit.write [": "]

/-- A doclet without its type and its properties. -/
def untyped (d : Doclet) : Doclet :=
  { d with typeNames := [], tsType := .null, properties := [] }

theorem writeMember_eq_head
    (settings : Settings) {d : Doclet} (parent : Option Doclet)
    (h : d.isEnum = false) :
    writeMember settings d parent =
      writeMemberHead settings (untyped d) parent >>= fun _ =>
        writeMemberType d := by
  have hite (c : Prop) [Decidable c] (x y : Emit Unit) (f : Unit -> Emit Unit) :
      (if c then x else y) >>= f = if c then x >>= f else y >>= f :=
    apply_ite (· >>= f) c x y
  unfold writeMember writeVariable writeMemberHead
  rw [h]
  simp only [hite, bind_assoc, Bool.false_eq_true, if_false]
  rfl

/-- Behind a head that does not depend on its type, a member is written as an
object exactly when it has properties and its first annotation starts with the
word `Object`, and with its type otherwise. That agrees with the test for
typedefs where no type is given and the annotation is a plain word; a typedef
with a given type or with several alternatives is no object. -/
theorem writeMember_objectShape
    (settings : Settings)
    (d : Doclet)
    (parent : Option Doclet)
    (henum : d.isEnum = false) :
    writeMember settings d parent =
        (writeMemberHead settings (untyped d) parent >>=
          fun _ => writeMemberType d) ∧
      (hasObjectShape d = true ->
        Performs (writeMemberType d) (shapeStrokes d.properties)
          (if d.properties.all hasTextType then .ok () else .error .nonText)) ∧
      (hasObjectShape d = false ->
        Performs (writeMemberType d)
          ((textOrFault d.type).toOption.toList.map fun type =>
            .line (type ++ ";"))
          ((textOrFault d.type).map fun _ => ())) ∧
      (hasObjectShape d = true ↔
        d.properties ≠ [] ∧ exists first others, d.typeNames = first :: others ∧
          exists word rest, first.toList = word ++ rest ∧
            word.map Char.toLower = "object".toList ∧
            forall c, rest.head? = some c -> Text.isWord c = false) ∧
      (d.tsType.truthy = false -> d.typeNames.length ≤ 1 ->
        (forall name, name ∈ d.typeNames -> IsPlainWord name) ->
          hasObjectShape d = d.asTypedef.isShape true) ∧
      (d.tsType.truthy = true ∨ 2 ≤ d.typeNames.length ->
        d.asTypedef.isShape true = false) :=
  ⟨writeMember_eq_head settings parent henum, performs_writeMemberType_shape,
    performs_writeMemberType_type, hasObjectShape_iff,
    hasObjectShape_eq_isShape, isShape_eq_false⟩

/-- A member with one property, a type that is given or not, and some
annotations. -/
def configured (tsType : Value) (typeNames : List String) : Doclet :=
  { Doclet.plain "member" "cfg" none with
    tsType := tsType
    typeNames := typeNames
    properties := [⟨"a", ["string"], .null, false, false, none, .null⟩] }

theorem writeMember_configured_object :
    (configured .null ["OBJECT"]).isEnum = false ∧
      hasObjectShape (configured .null ["OBJECT"]) = true ∧
      (configured .null ["OBJECT"]).asTypedef.isShape true = true ∧
      Performs (writeMemberType (configured .null ["OBJECT"]))
        (shapeStrokes (configured .null ["OBJECT"]).properties) (.ok ()) := by
  have hshape : hasObjectShape (configured .null ["OBJECT"]) = true := by
    decide +kernel
  have hword : forall name, name ∈ ["OBJECT"] -> IsPlainWord name := by
    intro name hname
    rw [List.mem_singleton] at hname
    subst hname
    have hall : (['O', 'B', 'J', 'E', 'C', 'T'].all Text.isWord) = true := by
      decide +kernel
    exact ⟨'O', ['B', 'J', 'E', 'C', 'T'], rfl,
      by decide, List.all_eq_true.mp hall⟩
  rcases writeMember_objectShape ⟨true, none, true⟩
    (configured .null ["OBJECT"]) none rfl with
    ⟨_, hwritten, _, _, hagree, _⟩
  refine ⟨rfl, hshape, ?_, hwritten hshape⟩
  rw [← hagree rfl (by decide) hword]
  exact hshape

/-- The text of a member that is written on an empty page. -/
def memberText (d : Doclet) : String :=
  ((writeMember ⟨true, none, true⟩ d none).after Session.start).page.text

/-- The properties of a member hide the type that is given for it, further
alternatives, type arguments and the rest of a qualified name.  A group around
`Object` hides the properties. -/
theorem not_writeMember_type :
    (forall d, d ∈ [configured (.str "Config") ["Object"],
      configured .null ["Object", "string"],
          configured .null ["Object.<string, number>"],
          configured .null ["Object.Config"]] ->
        d.asTypedef.isShape true = false ∧
          memberText d = "let cfg: \x7b\n    \"a\": string\n\x7d;\n") ∧
      (configured .null ["(Object)"]).asTypedef.isShape true = true ∧
      memberText (configured .null ["(Object)"]) = "let cfg: object;\n" := by
  decide +kernel

end Declaration
end Ambient
