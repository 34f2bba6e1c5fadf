import Ambient.Proofs.Nesting.Writers
import Ambient.Proofs.Script.Stroke

/-!
# The strokes of the writers

Each writer begins and ends at the start of a line, or within a line that its
caller has begun and will end.  This holds for all doclets; if the texts of a
doclet have no line breaks, neither has what is written.
-/

namespace Ambient

open Text Emit

/-- A doclet whose texts, comments left aside, stand on one line. -/
@[mk_iff] structure Doclet.Plain (d : Doclet) : Prop where
  name : OneLine d.name
  access : d.access.WhenText OneLine
  typeNames : forall n, n ∈ d.typeNames -> OneLine n
  tsType : d.tsType.WhenText OneLine
  thisType : d.thisType.WhenText OneLine
  augments : forall t, t ∈ d.augments -> OneLine t
  implements : forall t, t ∈ d.implements -> OneLine t
  mixes : forall t, t ∈ d.mixes -> OneLine t
  templates : forall t, t ∈ d.templates -> OneLine t
  properties : forall f, f ∈ d.properties -> f.Plain
  params : forall f, f ∈ d.params -> f.Plain
  returns : forall f, f ∈ d.returns -> f.Plain

instance (d : Doclet) : Decidable d.Plain :=
  decidable_of_iff' _ (Doclet.plain_iff d)

variable {plain : Prop} {n : Nat}

/-!
## Comments and types
-/

theorem path_lines
    {lines : List String}
    (h : forall line, line ∈ lines -> OneLine line ∧ line ≠ "") :
    Path plain ⟨n, .start⟩ (lines.map .line) ⟨n, .start⟩ := by
  induction lines with
  | nil => exact .nil
  | cons line lines ih =>
      rw [List.forall_mem_cons] at h
      exact .cons (.line (fun _ => h.1.1) h.1.2) (ih h.2)

theorem path_commentStrokes
    (comment : String) :
    exists pen, Path plain ⟨n, .start⟩
      (Page.commentStrokes (Page.commentLines comment)) pen ∧
      pen.OnLevel n := by
  have hlines := fun line => @Page.oneLine_of_mem_commentLines comment line
  generalize Page.commentLines comment = lines at hlines
  cases lines with
  | nil => exact ⟨_, .nil, rfl⟩
  | cons line lines =>
      rw [List.forall_mem_cons] at hlines
      refine ⟨⟨n, .start⟩,
        .cons .blank (.cons (.line (fun _ => hlines.1.1) hlines.1.2) ?_), rfl⟩
      exact path_lines hlines.2

/-- A comment is written in whole lines, or there is a blank line in its place,
or nothing. -/
theorem exists_performs_writeComment
    (settings : Settings)
    (comment : Value)
    (spacer : Bool) :
    exists strokes result,
      Performs (writeComment settings comment spacer) strokes result ∧
      ((exists text, strokes = Page.commentStrokes (Page.commentLines text)) ∨
        strokes = [.line ""] ∨ strokes = []) := by
  by_cases hwritten : (comment.truthy && settings.comments) = true
  · cases comment with
    | str text =>
        refine ⟨Page.commentStrokes (Page.commentLines text), .ok (), ?_,
          Or.inl ⟨text, rfl⟩⟩
        refine performs_writeComment (fun p => ?_) (fun _ h => by contradiction)
        unfold Page.writeComment
        rw [if_pos hwritten]
        exact congrArg Except.ok (Page.writeLines_eq_draw _ p)
    | _ =>
        have hpage (p : Page) : p.writeComment settings.comments _ spacer =
            .error .nonText := if_pos hwritten
        exact ⟨[], .error .nonText, performs_writeComment hpage fun _ _ => rfl,
          Or.inr (Or.inr rfl)⟩
  · have hpage (p : Page) : p.writeComment settings.comments comment spacer =
        .ok (if spacer then p.writeln "" else p) := if_neg hwritten
    cases spacer with
    | true =>
        refine ⟨[.line ""], .ok (), ?_, Or.inr (Or.inl rfl)⟩
        exact performs_writeComment hpage fun _ h => by contradiction
    | false =>
        refine ⟨[], .ok (), ?_, Or.inr (Or.inr rfl)⟩
        exact performs_writeComment hpage fun _ h => by contradiction

theorem draws_writeComment
    (settings : Settings)
    (comment : Value)
    (spacer : Bool) :
    Draws plain (Pen.AtStart n) (writeComment settings comment spacer)
      (Pen.OnLevel n) := by
  rcases exists_performs_writeComment settings comment spacer with
    ⟨strokes, result, hperforms, hstrokes⟩
  refine ⟨strokes, result, hperforms, ?_⟩
  rintro _ _ rfl
  rcases hstrokes with ⟨text, rfl⟩ | rfl | rfl
  · exact path_commentStrokes text
  · exact ⟨_, .single .blank, rfl⟩
  · exact ⟨_, .nil, rfl⟩

theorem yields_text
    {v : Value}
    (h : plain -> v.WhenText OneLine) :
    Yields (textOf v) fun t => plain -> OneLine t := by
  refine yields_textOf fun t ht hplain => ?_
  have htext := h hplain
  rwa [ht] at htext

theorem yields_typeOf
    (tsType : Value)
    (typeNames : List String) :
    Yields (Emit.typeOf tsType typeNames) fun v =>
      v = Ambient.typeOf tsType typeNames :=
  (yields_report _).bind fun _ _ => yields_pure rfl

theorem yields_typeText
    {tsType : Value} {typeNames : List String}
    (h : plain -> (typeOf tsType typeNames).WhenText OneLine) :
    Yields (Emit.typeOf tsType typeNames >>= textOf) fun t =>
      plain -> OneLine t := by
  refine (yields_typeOf tsType typeNames).bind ?_
  rintro _ rfl
  exact yields_text h

theorem yields_fieldType
    {f : Field}
    (h : plain -> f.Plain) :
    Yields (fieldType f) fun t => plain -> OneLine t :=
  yields_typeText fun hplain =>
    oneLine_typeOf (h hplain).tsType (h hplain).typeNames

section

variable {d : Doclet} (hd : plain -> d.Plain)

include hd

theorem yields_docletType : Yields (docletType d) fun t => plain -> OneLine t :=
  yields_typeText fun hplain =>
    oneLine_typeOf (hd hplain).tsType (hd hplain).typeNames

/-!
## Interfaces
-/

theorem Interface.draws_writeGenerics :
    Draws plain (Pen.Begun n) (writeGenerics d) (Pen.Begun n) := by
  refine draws_ite draws_skip (draws_write_more fun hplain => ?_)
  have hnames :=
    oneLine_intercalate (by decide : OneLine ", ") (hd hplain).templates
  simp +decide [hnames]

omit hd in
theorem Interface.draws_writeProperty
    {f : Field}
    (settings : Settings)
    (hf : plain -> f.Plain) :
    Draws plain (Pen.AtStart (n + 1)) (writeProperty settings f)
      (Pen.AtStart (n + 1)) := by
  refine (draws_writeComment settings f.comment false).bind ?_
  refine (draws_write_deep fun hplain => by
    simpa using (hf hplain).name).bind ?_
  refine Draws.optional (draws_write_more fun _ => by decide) (fun _ h => h) ?_
  refine (yields_fieldType hf).draws fun t ht => ?_
  refine (draws_writeln (fun hplain => ?_) (by simp)).of_imp fun _ h =>
    h.onLevel
  simp +decide [ht hplain]

omit hd in
theorem Interface.draws_writeProperties
    {fs : List Field}
    (settings : Settings)
    (hfs : plain -> forall f, f ∈ fs -> f.Plain) :
    Draws plain (Pen.AtStart (n + 1)) (writeProperties settings fs)
      (Pen.AtStart (n + 1)) := by
  induction fs with
  | nil => exact draws_skip
  | cons f fs ih =>
      refine (draws_writeProperty settings fun hplain =>
        hfs hplain f List.mem_cons_self).bind ?_
      exact ih fun hplain f' hf => hfs hplain f' (List.mem_cons_of_mem f hf)

theorem Interface.draws_writeBody
    (settings : Settings) :
    Draws plain (Pen.Begun n) (writeBody settings d) (Pen.Begun n) := by
  have hopen : Draws plain (Pen.OnLevel n) (Emit.writeln ["\x7b"])
      (Pen.AtStart n) :=
    draws_writeln (fun _ => by decide) (by decide)
  refine (hopen.of_imp fun _ h => h.onLevel).bind (draws_push.bind ?_)
  refine (draws_writeProperties settings fun hplain =>
    (hd hplain).properties).bind ?_
  exact draws_pop.bind
    ((draws_write (fun _ => by decide) (by decide)).of_imp fun _ h => h.onLevel)

theorem Interface.draws_write
    (settings : Settings) :
    Draws plain (Pen.OnLevel n) (write settings d) (Pen.AtStart n) := by
  refine (Emit.draws_write (fun hplain => ?_) (by simp)).bind ?_
  · simp +decide [(hd hplain).name]
  refine (draws_writeGenerics hd).bind
    ((draws_write_more fun _ => by decide).bind ?_)
  exact (draws_writeBody hd settings).bind draws_writeln_ending

/-!
## Signatures
-/

namespace Signature

theorem yields_collect : Yields (collect d) fun params =>
    plain -> Plain params := by
  refine (yields_lift _).bind fun params hthis => ?_
  refine (yields_report _).bind fun _ _ => yields_pure fun hplain => ?_
  exact (plain_thisParams (hd hplain).thisType hthis).addParams
    (hd hplain).params

theorem yields_returnType : Yields (returnType d) fun type =>
    plain -> type.WhenText OneLine := by
  have hvoid : (Value.str "void").WhenText OneLine := by simp +decide
  unfold returnType
  split
  · exact yields_pure fun _ => hvoid
  · rename_i f fs heq
    refine (yields_typeOf f.tsType f.typeNames).bind ?_
    rintro _ rfl
    split
    · exact yields_pure fun _ => hvoid
    · refine yields_pure fun hplain => ?_
      have hf := (hd hplain).returns f (heq ▸ List.mem_cons_self)
      exact oneLine_typeOf hf.tsType hf.typeNames

omit hd in
theorem draws_writeParam
    {name : String} {param : Param}
    (h : plain -> OneLine name ∧ param.type.WhenText OneLine) :
    Draws plain (Pen.Begun n) (writeParam name param) (Pen.Begun n) := by
  refine draws_ite ?_ ?_
  · refine (yields_lift _).draws fun t ht => draws_write_more fun hplain => ?_
    simp +decide [(h hplain).1, oneLine_restType (h hplain).2 ht]
  · refine (yields_text fun hplain => (h hplain).2).draws fun t ht => ?_
    refine draws_write_more fun hplain => ?_
    split <;> simp +decide [(h hplain).1, ht hplain]

omit hd in
theorem draws_writeParams
    {params : Keyed Param}
    (h : plain -> Plain params) :
    Draws plain (Pen.Begun n) (writeParams params) (Pen.Begun n) := by
  fun_induction writeParams params with
  | case1 => exact draws_skip
  | case2 name param =>
      exact draws_writeParam fun hplain => h hplain _ List.mem_cons_self
  | case3 name param rest _ ih =>
      refine (draws_writeParam fun hplain =>
        h hplain _ List.mem_cons_self).bind ?_
      refine (draws_write_more fun _ => by decide).bind ?_
      exact ih fun hplain e he => h hplain e (List.mem_cons_of_mem _ he)

theorem draws_write
    (form : Form) :
    Draws plain (Pen.Begun n) (write d form) (Pen.Begun n) := by
  have hreturn (mark : String) (hmark : OneLine mark) :
      Draws plain (Pen.Begun n)
        (do
          let type ← Emit.textOf (← returnType d)
          Emit.write [mark, type])
        (Pen.Begun n) := by
    refine (yields_returnType hd).draws fun v hv =>
      (yields_text hv).draws fun t ht => ?_
    exact draws_write_more fun hplain => by simp [hmark, ht hplain]
  refine (draws_write_more fun _ => by decide).bind ?_
  refine (yields_collect hd).draws fun params hparams => ?_
  refine (draws_writeParams hparams).bind
    ((draws_write_more fun _ => by decide).bind ?_)
  cases form with
  | function => exact hreturn ": " (by decide)
  | constructor => exact draws_skip
  | arrow => exact hreturn " => " (by decide)

end Signature

/-!
## Declarations
-/

namespace Declaration

omit hd in
theorem draws_writeLead
    (settings : Settings)
    (d : Doclet)
    (spacer : Bool) :
    Draws plain (Pen.AtStart n) (writeLead settings d spacer)
      (Pen.OnLevel n) := by
  refine (draws_writeComment settings d.comment _).bind
    (draws_ite ?_ draws_skip)
  exact (Emit.draws_write (fun _ => by decide) (by decide)).mono fun _ h =>
    h.onLevel

theorem oneLine_accessOf
    (hplain : plain) :
    (accessOf d).WhenText OneLine := by
  unfold accessOf Value.orElse
  split
  · exact (hd hplain).access
  · exact (by decide : OneLine "public")

theorem draws_writeAccess :
    Draws plain (Pen.OnLevel n) (writeAccess d) (Pen.Begun n) := by
  refine (yields_text (oneLine_accessOf hd)).draws fun a ha => ?_
  refine (Emit.draws_write (fun hplain => ?_) (by simp)).bind ?_
  · simp +decide [ha hplain]
  · split
    · exact draws_write_more fun _ => by decide
    · exact draws_skip

theorem draws_writeConstructor
    (settings : Settings) :
    Draws plain (Pen.AtStart n) (writeConstructor settings d)
      (Pen.AtStart n) := by
  refine (draws_writeComment settings d.comment false).bind ?_
  refine (Emit.draws_write (fun _ => by decide) (by decide)).bind ?_
  refine (Signature.draws_write hd .constructor).bind ?_
  exact (draws_writeln (fun _ => by decide) (by decide)).of_imp fun _ h =>
    h.onLevel

theorem draws_writeHeritage :
    Draws plain (Pen.Begun n) (writeHeritage d) (Pen.Begun n) := by
  have himplements : plain -> forall t,
      t ∈ (d.implements ++ d.mixes).filter Doclet.isPlainReference ->
        OneLine t := by
    intro hplain t ht
    rcases List.mem_append.mp (List.mem_of_mem_filter ht) with ht | ht
    · exact (hd hplain).implements t ht
    · exact (hd hplain).mixes t ht
  have hclause : Draws plain (Pen.Begun n)
      (Emit.write ["implements ",
        ", ".intercalate
          ((d.implements ++ d.mixes).filter Doclet.isPlainReference), " "])
      (Pen.Begun n) := by
    refine draws_write_more fun hplain => ?_
    have hline :=
      oneLine_intercalate (by decide : OneLine ", ") (himplements hplain)
    simpa +decide using hline
  unfold writeHeritage
  cases haugments : d.augments.filter Doclet.isPlainReference with
  | nil =>
      dsimp only [pure_bind]
      split
      · exact draws_skip
      · exact hclause
  | cons base _ =>
      refine Draws.bind (draws_write_more fun hplain => ?_) ?_
      · have hbase : base ∈ d.augments :=
          List.mem_of_mem_filter (haugments ▸ List.mem_cons_self)
        simp +decide [(hd hplain).augments base hbase]
      · split
        · exact draws_skip
        · exact hclause

theorem draws_writeHead
    (settings : Settings) :
    Draws plain (Pen.AtStart n) (writeHead settings d) (Pen.AtStart n) := by
  have hrest : Draws plain (Pen.Begun n)
      (do
        Emit.write [d.name]
        Interface.writeGenerics d
        Emit.write [" "]
        writeHeritage d
        Emit.writeln ["\x7b"])
      (Pen.AtStart n) := by
    refine (draws_write_more fun hplain => by simp [(hd hplain).name]).bind ?_
    refine (Interface.draws_writeGenerics hd).bind
      ((draws_write_more fun _ => by decide).bind ?_)
    refine (draws_writeHeritage hd).bind ?_
    exact (draws_writeln (fun _ => by decide) (by decide)).of_imp fun _ h =>
      h.onLevel
  refine (draws_writeLead settings d d.isInterface).bind (draws_ite ?_ ?_)
  · exact (Emit.draws_write (fun _ => by decide) (by decide)).bind hrest
  · refine Draws.optional (M := Pen.OnLevel n) ?_ (fun _ h => h) ?_
    · exact (Emit.draws_write (fun _ => by decide) (by decide)).mono fun _ h =>
        h.onLevel
    · exact (Emit.draws_write (fun _ => by decide) (by decide)).bind hrest

omit hd in
theorem draws_writeCase
    {f : Field}
    (hf : plain -> f.Plain) :
    Draws plain (Pen.AtStart (n + 1)) (writeCase f) (Pen.Begun (n + 1)) := by
  have hname : Draws plain (Pen.OnLevel (n + 1)) (Emit.write [f.name])
      (Pen.Begun (n + 1)) :=
    draws_write_deep fun hplain => by simpa using (hf hplain).name
  refine (hname.of_imp fun _ h => h.onLevel).bind ?_
  split
  · exact draws_skip
  · refine (yields_lift _).draws fun t ht => draws_write_more fun _ => ?_
    simp +decide [(Json.closed_text ht).oneLine]

omit hd in
theorem draws_writeCases
    {fs : List Field}
    (hfs : plain -> forall f, f ∈ fs -> f.Plain) :
    Draws plain (Pen.AtStart (n + 1)) (writeCases fs)
      (Pen.AtStart (n + 1)) := by
  fun_induction writeCases fs with
  | case1 => exact draws_skip
  | case2 f =>
      refine (draws_writeCase fun hplain =>
        hfs hplain f List.mem_cons_self).bind ?_
      exact draws_writeln_ending
  | case3 f fs _ ih =>
      refine (draws_writeCase fun hplain =>
        hfs hplain f List.mem_cons_self).bind ?_
      refine Draws.bind ?_ (ih fun hplain f' hf =>
        hfs hplain f' (List.mem_cons_of_mem f hf))
      exact (draws_writeln (fun _ => by decide) (by decide)).of_imp fun _ h =>
        h.onLevel

theorem draws_writeEnum :
    Draws plain (Pen.OnLevel n) (writeEnum d) (Pen.AtStart n) := by
  refine (draws_writeln (fun hplain => ?_) (by simp)).bind (draws_push.bind ?_)
  · simp +decide [(hd hplain).name]
  refine (draws_writeCases fun hplain => (hd hplain).properties).bind
    (draws_pop.bind ?_)
  exact (draws_writeln (fun _ => by decide) (by decide)).of_imp fun _ h =>
    h.onLevel

omit hd in
theorem draws_writeParts
    {fs : List Field}
    (hfs : plain -> forall f, f ∈ fs -> f.Plain) :
    Draws plain (Pen.AtStart n) (writeParts fs) (Pen.AtStart n) := by
  have hpart (f : Field) (t : String) (ht : plain -> OneLine t)
      (mark : List String)
      (hmark : OneLine (String.join mark)) :
      Draws plain (Pen.AtStart n)
        (Emit.writeln (Json.quote f.name :: ": " :: t :: mark))
        (Pen.AtStart n) := by
    refine (draws_writeln (fun hplain => ?_) (by simp)).of_imp fun _ h =>
      h.onLevel
    rw [oneLine_join] at hmark
    simpa +decide [(Json.closed_quote f.name).oneLine, ht hplain] using hmark
  fun_induction writeParts fs with
  | case1 => exact draws_skip
  | case2 f =>
      refine (yields_fieldType fun hplain =>
        hfs hplain f List.mem_cons_self).draws fun t ht => ?_
      exact hpart f t ht [] (by decide)
  | case3 f fs _ ih =>
      refine (yields_fieldType fun hplain =>
        hfs hplain f List.mem_cons_self).draws fun t ht => ?_
      refine (hpart f t ht [","] (by decide)).bind ?_
      exact ih fun hplain f' hf => hfs hplain f' (List.mem_cons_of_mem f hf)

theorem draws_writeMemberType :
    Draws plain (Pen.Begun n) (writeMemberType d) (Pen.AtStart n) := by
  refine draws_ite ?_ ?_
  · have hopen : Draws plain (Pen.OnLevel n) (Emit.writeln ["\x7b"])
        (Pen.AtStart n) :=
      draws_writeln (fun _ => by decide) (by decide)
    refine (hopen.of_imp fun _ h => h.onLevel).bind (draws_push.bind ?_)
    refine (draws_writeParts fun hplain => (hd hplain).properties).bind
      (draws_pop.bind ?_)
    exact (draws_writeln (fun _ => by decide) (by decide)).of_imp fun _ h =>
      h.onLevel
  · refine (yields_docletType hd).draws fun t ht => ?_
    refine (draws_writeln (fun hplain => ?_) (by simp)).of_imp fun _ h =>
      h.onLevel
    simp +decide [ht hplain]

theorem draws_writeAliasType
    (settings : Settings) :
    Draws plain (Pen.Begun n) (writeAliasType settings d) (Pen.Begun n) := by
  refine draws_ite ?_ ?_
  · refine (yields_text fun hplain => (hd hplain).tsType).draws fun t ht => ?_
    exact draws_write_more fun hplain => by simpa using ht hplain
  · refine (yields_docletType hd).draws fun t ht =>
      draws_ite ?_ (draws_ite (draws_ite ?_ ?_) ?_)
    · exact Signature.draws_write hd .arrow
    · exact draws_write_more fun _ => by decide
    · exact Interface.draws_writeBody hd settings
    · exact draws_write_more fun hplain => by simpa using ht hplain

theorem draws_writeAlias
    (settings : Settings) :
    Draws plain (Pen.AtStart n) (writeAlias settings d) (Pen.AtStart n) := by
  refine draws_writeln_blank.bind
    ((Emit.draws_write (fun hplain => ?_) (by simp)).bind ?_)
  · simp +decide [(hd hplain).name]
  refine (Interface.draws_writeGenerics hd).bind
    ((draws_write_more fun _ => by decide).bind ?_)
  refine (draws_writeAliasType hd settings).bind ?_
  exact (draws_writeln (fun _ => by decide) (by decide)).of_imp fun _ h =>
    h.onLevel

theorem draws_writeShape
    (settings : Settings) :
    Draws plain (Pen.AtStart n) (writeShape settings d) (Pen.AtStart n) :=
  (draws_writeLead settings d true).bind (Interface.draws_write hd settings)

end Declaration

end
end Ambient
