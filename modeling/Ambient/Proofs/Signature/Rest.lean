import Ambient.Document
import Ambient.Proofs.Script.Ink
import Ambient.Proofs.TypeExpr.BracketPair

/-!
# The type of a rest parameter

A rest parameter is written with a bracket pair behind the text of its type.  A
text that is resolved from annotations then reads as an array of the type.  A
text that is given as it is does so only if it has a single alternative: of
several, the pair takes the last.
-/

namespace Ambient

/-- A page on which a word stands behind a text. -/
def Page.Shows (base word : String) (p : Page) : Prop :=
  exists front back, p.text = base ++ front ++ word ++ back

theorem Page.Shows.draw
    {base word : String} {p : Page}
    (h : p.Shows base word)
    (strokes : List Stroke) :
    (p.draw strokes).Shows base word := by
  rcases h with ⟨front, back, hp⟩
  rcases exists_text_draw strokes p with ⟨more, hmore⟩
  exact ⟨front, back ++ more, by rw [hmore, hp, String.append_assoc]⟩

theorem Page.Shows.write
    {base : String} {p : Page}
    (h : p.Shows base "")
    (word : String) :
    (p.write word).Shows base word := by
  rcases h with ⟨front, back, hp⟩
  refine ⟨front ++ back ++ if p.indented then "" else indentation p.depth,
    "", ?_⟩
  unfold Page.write
  cases p.indented with
  | true => simp [hp, String.append_assoc]
  | false => simp [hp, String.append_assoc]

namespace Signature

open Emit TypeExpr

/-!
## What is written
-/

section

variable {base word name : String} {param : Param}
  (hentry : Performs (writeParam name param) [.write word] (.ok ()))

include hentry

theorem turns_writeParams
    {params : Keyed Param}
    (hmem : (name, param) ∈ params) :
    Turns (Page.Shows base "") (writeParams params) (Page.Shows base word) := by
  have hfirst : Turns (Page.Shows base "") (writeParam name param)
      (Page.Shows base word) :=
    ⟨_, _, hentry, fun _ p hp => hp.write word⟩
  have hdraw (word : String) (strokes : List Stroke) (p : Page)
      (hp : p.Shows base word) :
      (p.draw strokes).Shows base word := hp.draw strokes
  have hscripted (params : Keyed Param) : Scripted (writeParams params) :=
    (draws_writeParams (n := 0) fun h => False.elim h).scripted
  fun_induction writeParams params with
  | case1 => contradiction
  | case2 name' param' =>
      cases List.mem_singleton.mp hmem
      exact hfirst
  | case3 name' param' rest _ ih =>
      have hrest := hscripted rest
      rcases List.mem_cons.mp hmem with heq | hmem
      · cases heq
        exact hfirst.bind_scripted (hdraw word) _
      · have hskip : Scripted (writeParam name' param') :=
          (draws_writeParam (n := 0) fun h => False.elim h).scripted
        refine (turns_scripted (hdraw "") _).bind ?_
        exact (turns_scripted (hdraw "") _).bind (ih hmem)

theorem turns_write
    {d : Doclet} {params : Keyed Param}
    (hcollect : Performs (collect d) [] (.ok params))
    (hmem : (name, param) ∈ params)
    (form : Form) :
    Turns (Page.Shows base "") (write d form) (Page.Shows base word) := by
  have hdraw (word : String) (strokes : List Stroke) (p : Page)
      (hp : p.Shows base word) :
      (p.draw strokes).Shows base word := hp.draw strokes
  have htype : Scripted (returnType d) :=
    (yields_returnType (d := d) False.elim).scripted
  have htext (v : Value) : Scripted (textOf v) :=
    (yields_textOf (R := fun _ => True) fun _ _ => trivial).scripted
  refine (turns_scripted (hdraw "") _).bind ?_
  refine hcollect.turns ?_
  refine (turns_writeParams hentry hmem).bind ?_
  cases form with
  | constructor => exact turns_scripted (hdraw word) _
  | function => exact turns_scripted (hdraw word) _
  | arrow => exact turns_scripted (hdraw word) _

end

/-!
## Where the type comes from
-/

theorem performs_collect_fields
    (d : Doclet) :
    Performs (collect d) []
      ((thisParams d.thisType).map
        (d.params.foldl fun params f => addParam f params)) := by
  have hthis := performs_lift (thisParams d.thisType)
  unfold collect
  cases hparams : thisParams d.thisType with
  | ok params =>
      rw [hparams] at hthis
      exact hthis.bind ((performs_report _).bind (performs_pure _))
  | error fault =>
      rw [hparams] at hthis
      exact hthis.bind_error _

/-- Where the type of a parameter comes from if it is a rest parameter: it is a
mapping, or it is that of a field. -/
def Sourced (fields : List Field) (param : Param) : Prop :=
  param.variadic = true -> (exists source, param.type = .str (resolve source)) ∨
    exists f, f ∈ fields ∧ param.type = f.type

theorem sourced_addParam
    {fields : List Field} {f : Field} {params : Keyed Param}
    (hf : f ∈ fields)
    (h : forall e, e ∈ params -> Sourced fields e.2) :
    forall e, e ∈ addParam f params -> Sourced fields e.2 := by
  unfold addParam
  split
  · exact Keyed.forall_put (R := fun e => Sourced fields e.2)
      (fun _ => .inr ⟨f, hf, rfl⟩) h
  · rename_i root bracketed _
    refine Keyed.forall_put (R := fun e => Sourced fields e.2)
      (fun _ => .inl ?_) h
    have hmapping : mappingType = resolve "Object.<string, any>" := by
      decide +kernel
    have harray : mappingType ++ "[]" = resolve "Object.<string, any>[]" := by
      decide +kernel
    cases bracketed with
    | true => exact ⟨_, congrArg Value.str harray⟩
    | false => exact ⟨_, congrArg Value.str hmapping⟩

theorem variadic_of_thisParams
    {thisType : Value} {params : Keyed Param}
    (h : thisParams thisType = .ok params) :
    forall e, e ∈ params -> e.2.variadic = false := by
  unfold thisParams at h
  split at h
  · split at h
    · cases h
      intro e he
      rw [List.mem_singleton.mp he]
    · contradiction
    · contradiction
  · cases h
    simp

theorem sourced_of_collect
    {d : Doclet} {params : Keyed Param}
    (h : Performs (collect d) [] (.ok params)) :
    forall e, e ∈ params -> Sourced d.params e.2 := by
  have hresult := ((performs_collect_fields d).unique h).1
  have hfold (fields : List Field) (first : Keyed Param)
      (hsub : fields ⊆ d.params)
      (hfirst : forall e, e ∈ first -> Sourced d.params e.2) :
      forall e, e ∈ fields.foldl (fun params f => addParam f params) first ->
        Sourced d.params e.2 := by
    induction fields generalizing first with
    | nil => exact hfirst
    | cons f fields ih =>
        rw [List.cons_subset] at hsub
        exact ih _ hsub.2 (sourced_addParam hsub.1 hfirst)
  cases hthis : thisParams d.thisType with
  | error fault =>
      rw [hthis] at hresult
      contradiction
  | ok first =>
      rw [hthis] at hresult
      cases hresult
      refine hfold d.params first (List.Subset.refl _) ?_
      rintro e he hvariadic
      rw [variadic_of_thisParams hthis e he] at hvariadic
      contradiction

/-!
## How the type reads
-/

theorem exists_resolve_eq
    {names : List String}
    (hopen : (resolveAll names).toList.head? ≠ some '(') :
    exists source, resolveAll names = resolve source := by
  cases names with
  | nil => exact ⟨"any", by decide +kernel⟩
  | cons source names =>
      cases names with
      | nil => exact ⟨source, rfl⟩
      | cons other names =>
          refine absurd ?_ hopen
          rw [resolveAll_of_many (by simp), render]
          simp

/-- A type text that is not given as it is comes from an annotation. -/
theorem Sourced.exists_resolve
    {fields : List Field} {param : Param} {text : String}
    (h : Sourced fields param)
    (hvariadic : param.variadic = true)
    (htype : param.type = .str text)
    (hopen : text.toList.head? ≠ some '(')
    (hgiven : forall f, f ∈ fields -> f.tsType ≠ .str text) :
    exists source, text = resolve source := by
  rcases h hvariadic with ⟨source, h⟩ | ⟨f, hf, h⟩
  · exact ⟨source, Value.str.inj (htype.symm.trans h)⟩
  · have hfield : typeOf f.tsType f.typeNames = .str text := h.symm.trans htype
    unfold typeOf at hfield
    split at hfield
    · exact absurd hfield (hgiven f hf)
    · -- several annotations would be written in parentheses
      rw [Value.str.inj hfield.symm] at hopen ⊢
      exact exists_resolve_eq hopen

/-- The type text of an annotation with a bracket pair behind it is that of an
array. -/
theorem parse_resolve_append_brackets
    {source : String} {e : TypeExpr}
    (h : parse (resolve source) = .ok e) :
    parse (resolve source ++ "[]") = .ok (.array e) := by
  rcases exists_parseOrAny source fun t hvalid _ => hvalid with ⟨x, hx, hmade⟩
  have hnormal := normal_normalize x hmade
  rw [resolve, hx, ← render_normalize] at h ⊢
  rw [parse_render_of_normal hnormal] at h
  cases h
  have harray : TypeExpr.Normal (.array (normalize x)) := by
    rwa [TypeExpr.Normal]
  have hparse := parse_render_of_normal harray
  rwa [render] at hparse

theorem performs_writeParam_rest
    {param : Param} {text : String}
    (name : String)
    (hvariadic : param.variadic = true)
    (htype : param.type = .str text)
    (hopen : text.toList.head? ≠ some '(') :
    Performs (writeParam name param)
      [.write ("..." ++ name ++ ": " ++ (text ++ "[]"))]
      (.ok ()) := by
  have hrest : restType (.str text) = .ok (text ++ "[]") := by
    simp [restType, hopen]
  have hlift := performs_lift (restType (.str text))
  unfold writeParam
  rw [hvariadic, htype]
  rw [hrest] at hlift ⊢
  simpa [String.append_assoc] using
    hlift.bind (f := fun t => Emit.write ["...", name, ": ", t])
      (performs_write _)

/-- The text that is written for a rest parameter, and how it reads. -/
theorem rest_reads
    (d : Doclet)
    {params : Keyed Param} {name : String} {param : Param} {text : String}
    {e : TypeExpr} {s s' : Session}
    (hcollect : (collect d).run s = .ok params s')
    (hmem : (name, param) ∈ params)
    (hvariadic : param.variadic = true)
    (htype : param.type = .str text)
    (hparse : parse text = .ok e)
    (hopen : text.toList.head? ≠ some '(') :
    exists written,
      Performs (writeParam name param)
        [.write ("..." ++ name ++ ": " ++ written)] (.ok ()) ∧
      (forall form s s', (write d form).run s = .ok () s' ->
        s'.page.Shows s.page.text ("..." ++ name ++ ": " ++ written)) ∧
      ((forall f, f ∈ d.params -> f.tsType ≠ .str text) ->
        parse written = .ok (.array e)) ∧
      exists ts others l last, tokenize text = .ok ts ∧
        EndsWith ts others last ∧
        Derives (.suffixed l) last [] ∧ e = unionOf (others ++ [l]) ∧
        (parse written = .ok (.array e) -> others = []) ∧
        (¬ Returning last -> ¬ EndsIn endMarks last ->
          parse written = .ok (unionOf (others ++ [.array l]))) ∧
        (¬ Returning last -> EndsIn endMarks last ->
          exists fault, parse written = .error fault) ∧
        (Returning last -> ¬ EndsIn (']' :: endMarks) last ->
          parse written = .ok e) := by
  have hperforms : Performs (collect d) [] (.ok params) := by
    have hfields := performs_collect_fields d
    rwa [(hfields.of_run hcollect).1] at hfields
  have hentry := performs_writeParam_rest name hvariadic htype hopen
  refine ⟨text ++ "[]", hentry, ?_, ?_, ?_⟩
  · intro form s s' hrun
    exact (turns_write hentry hperforms hmem form).of_run hrun ⟨"", "", by simp⟩
  · intro hgiven
    have hsourced := sourced_of_collect hperforms _ hmem
    rcases hsourced.exists_resolve hvariadic htype hopen hgiven with
      ⟨source, hsource⟩
    rw [hsource] at hparse ⊢
    exact parse_resolve_append_brackets hparse
  · rcases parse_append_brackets hparse with
      ⟨ts, others, l, last, hts, hends, hlast, rfl, hreads⟩
    refine ⟨ts, others, l, last, hts, hends, hlast, rfl, ?_⟩
    rcases hreads with
      ⟨hread, hplain, hend⟩ | ⟨hread, hreturning⟩ | ⟨⟨fault, hread⟩, hend⟩
    · refine ⟨fun h => ?_, fun _ _ => hread, fun h hmark =>
        absurd hmark (hplain h), fun h hmark => ?_⟩
      · exact eq_nil_of_unionOf_eq_array (Except.ok.inj (hread.symm.trans h))
      · exact absurd (hend h) hmark
    · refine ⟨fun h => ?_, fun h => absurd hreturning h, fun h =>
        absurd hreturning h, fun _ _ => hread⟩
      exact absurd (Except.ok.inj (hread.symm.trans h)) (ne_array_self _)
    · refine ⟨fun h => ?_, fun _ hmark => absurd hend hmark, fun _ _ =>
        ⟨fault, hread⟩, fun _ hmark => absurd hend.of_cons hmark⟩
      rw [hread] at h
      contradiction

/-- A function with a rest parameter of which a part is described. -/
def spread : Doclet :=
  { Doclet.plain "function" "f" none with
    params :=
      [⟨"rest", ["string"], .null, false, true, none, .null⟩,
        ⟨"rest.deep", ["number"], .null, false, false, none, .null⟩] }

theorem rest_reads_mapping :
    let param : Param := ⟨.str mappingType, true, false⟩
    let e : TypeExpr := .record [.index "k" (.name "string") (.name "any")]
    (exists s, (collect spread).run Session.start = .ok [("rest", param)] s) ∧
      parse mappingType = .ok e ∧ mappingType.toList.head? ≠ some '(' ∧
      exists written,
        Performs (writeParam "rest" param)
          [.write ("..." ++ "rest" ++ ": " ++ written)] (.ok ()) ∧
        parse written = .ok (.array e) := by
  intro param e
  have hcollect : exists s,
      (collect spread).run Session.start = .ok [("rest", param)] s := by
    have hroot : dottedRoot? "rest" = none := by decide +kernel
    have hdeep : dottedRoot? "rest.deep" = some ("rest", false) := by
      decide +kernel
    refine (performs_collect_fields spread Session.start).imp fun s h =>
      h.1.trans ?_
    simp [spread, Doclet.plain, thisParams, Value.truthy, Except.map, addParam,
      hroot, hdeep, Keyed.put, Keyed.get?, Emit.ended, param]
  have hparse : parse mappingType = .ok e :=
    parse_eq_ok_iff.mpr ⟨_, tokenize_eq_ok_iff.mp
      (by decide +kernel : tokenize mappingType =
        .ok [.mark '{', .mark '[', .name "k", .mark ':', .name "string",
          .mark ']', .mark ':', .name "any", .mark '}']), rfl⟩
  have hopen : mappingType.toList.head? ≠ some '(' := by decide
  have hmem : ("rest", param) ∈ [("rest", param)] := List.mem_singleton.mpr rfl
  have htype : param.type = .str mappingType := rfl
  rcases hcollect with ⟨s, hrun⟩
  rcases rest_reads spread hrun hmem rfl htype hparse hopen with
    ⟨written, hentry, _, hreads, _⟩
  refine ⟨⟨s, hrun⟩, hparse, hopen, written, hentry, hreads ?_⟩
  simp [spread]

/-- A function with a rest parameter of several types. -/
def several : Doclet :=
  { Doclet.plain "function" "f" none with
    params := [⟨"rest", [], .str "string | number", false, true, none, .null⟩] }

/-- Of several types that are given as they are, only the last becomes an
array. -/
theorem not_rest_reads_several :
    (Document.publish ⟨true, none, true⟩ [several]).text =
        "function f(...rest: string | number[]): void;\n" ∧
      parse "string | number" = .ok (.union [.name "string", .name "number"]) ∧
      parse "string | number[]" =
        .ok (.union [.name "string", .array (.name "number")]) ∧
      parse "string | number[]" ≠
        .ok (.array (.union [.name "string", .name "number"])) := by
  have hwhole : tokenize "string | number" =
      .ok [.name "string", .mark '|', .name "number"] := by
    decide +kernel
  have hpair : tokenize "string | number[]" =
      .ok [.name "string", .mark '|', .name "number", .mark '[',
        .mark ']'] := by
    decide +kernel
  have hread : parse "string | number[]" =
      .ok (.union [.name "string", .array (.name "number")]) :=
    parse_eq_ok_iff.mpr ⟨_, tokenize_eq_ok_iff.mp hpair, rfl⟩
  refine ⟨by decide +kernel,
    parse_eq_ok_iff.mpr ⟨_, tokenize_eq_ok_iff.mp hwhole, rfl⟩, hread, ?_⟩
  rw [hread]
  intro h
  cases h

end Signature
end Ambient
