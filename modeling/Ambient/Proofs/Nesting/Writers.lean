import Ambient.Proofs.Nesting.Cursor
import Ambient.Proofs.Quiet
import Ambient.Proofs.TypeExpr.Closed

/-!
# The nesting of what is written

The texts of a tidy doclet cannot be taken for the frame around them: they stand
on one line, and those that may fill a line of their own do not look like one
that opens or closes a block.  Then every writer leaves the page as it found it,
with no block open that it has opened.
-/

namespace Ambient

open Text Nesting

/-!
## Tidy doclets
-/

/-- A value that meets a condition if it is a text. -/
def Value.WhenText (P : String -> Prop) : Value -> Prop
  | .str s => P s
  | _ => True

@[simp] theorem Value.whenText_str
    (P : String -> Prop)
    (s : String) :
    (Value.str s).WhenText P ↔ P s :=
  Iff.rfl

instance Value.decidableWhenText
    (P : String -> Prop)
    [DecidablePred P]
    (v : Value) :
    Decidable (v.WhenText P) :=
  match v with
  | .str s => inferInstanceAs (Decidable (P s))
  | .null | .bool _ | .int _ | .double _ | .moment _ | .bytes _ | .list _
  | .map _ | .set _
  | .pair _ _ | .tied _ _ | .again _ => isTrue trivial

/-- The lines of a comment neither open nor close blocks. -/
def Nesting.HarmlessComment (comment : Value) : Prop :=
  comment.WhenText fun s =>
    forall line, line ∈ Page.commentLines s -> Harmless line.toList

instance (comment : Value) : Decidable (HarmlessComment comment) :=
  Value.decidableWhenText _ comment

/-- A field whose texts stand on one line. -/
@[mk_iff] structure Field.Plain (f : Field) : Prop where
  name : OneLine f.name
  typeNames : forall n, n ∈ f.typeNames -> OneLine n
  tsType : f.tsType.WhenText OneLine

/-- A property whose texts cannot be taken for the frame around them. -/
@[mk_iff] structure Field.Tidy (f : Field) : Prop extends f.Plain where
  harmless : Harmless f.name.toList
  tsType_opens : f.tsType.WhenText fun t => opens t.toList = false
  comment : HarmlessComment f.comment

/-- A doclet whose texts cannot be taken for the frame around them. -/
@[mk_iff] structure Doclet.Tidy (d : Doclet) : Prop where
  name : OneLine d.name
  access : d.access.WhenText fun a => OneLine a ∧ a.toList.head? ≠ some ' '
  typeNames : forall n, n ∈ d.typeNames -> OneLine n
  tsType : d.tsType.WhenText OneLine
  thisType : d.thisType.WhenText OneLine
  augments : forall t, t ∈ d.augments -> OneLine t
  implements : forall t, t ∈ d.implements -> OneLine t
  mixes : forall t, t ∈ d.mixes -> OneLine t
  templates : forall t, t ∈ d.templates -> OneLine t
  properties : forall f, f ∈ d.properties -> f.Tidy
  params : forall f, f ∈ d.params -> f.Plain
  returns : forall f, f ∈ d.returns -> f.Plain
  comment : HarmlessComment d.comment

instance (f : Field) : Decidable f.Plain :=
  decidable_of_iff' _ (Field.plain_iff f)

instance (f : Field) : Decidable f.Tidy :=
  decidable_of_iff' _ (Field.tidy_iff f)

instance (d : Doclet) : Decidable d.Tidy :=
  decidable_of_iff' _ (Doclet.tidy_iff d)

/-!
## Comments
-/

theorem Text.notMem_of_mem_splitLines
    {cs line : List Char}
    (h : line ∈ splitLines cs) :
    '\n' ∉ line := by
  fun_induction splitLines cs generalizing line with
  | case1 => simp_all
  | case2 rest ih =>
      rcases List.mem_cons.mp h with rfl | h
      · simp
      · exact ih h
  | case3 rest ih =>
      rcases List.mem_cons.mp h with rfl | h
      · simp
      · exact ih h
  | case4 c rest hfeed _ _ _ =>
      rw [List.mem_singleton.mp h, List.mem_singleton]
      exact Ne.symm hfeed
  | case5 c rest hfeed _ first lines hlines ih =>
      rw [hlines] at ih
      rcases List.mem_cons.mp h with rfl | h
      · rw [List.mem_cons, not_or]
        exact ⟨Ne.symm hfeed, ih List.mem_cons_self⟩
      · exact ih (List.mem_cons_of_mem first h)

theorem Page.oneLine_of_mem_commentLines
    {comment line : String}
    (h : line ∈ commentLines comment) :
    OneLine line ∧ line ≠ "" := by
  rw [commentLines, List.mem_filter, List.mem_map] at h
  rcases h with ⟨⟨cs, hcs, rfl⟩, hne⟩
  refine ⟨?_, by simpa using hne⟩
  have hstrip : '\n' ∉ stripChars cs :=
    fun hmem => notMem_of_mem_splitLines hcs (mem_of_mem_stripChars hmem)
  rw [OneLine, String.toList_ofList, commentLine]
  split
  · rename_i rest heq
    simpa [heq] using hstrip
  · exact hstrip

section

variable {stack : List Nat} {depth : Nat}

theorem Nesting.AtLine.writeLines
    {lines : List String} {p : Page}
    (h : AtLine stack depth p)
    (hlines : forall line, line ∈ lines ->
      (OneLine line ∧ line ≠ "") ∧ Harmless line.toList) :
    AtLine stack depth (p.writeLines lines) := by
  have hfold : forall p, AtLine stack depth p ->
      AtLine stack depth (lines.foldl (fun p line => p.writeln line) p) := by
    induction lines with
    | nil => exact fun p hp => hp
    | cons line lines ih =>
        intro p hp
        rcases hlines line List.mem_cons_self with ⟨⟨hline, hne⟩, hopen, hclose⟩
        refine ih (fun l hl => hlines l (List.mem_cons_of_mem line hl)) _ ?_
        exact hp.onLine.writeln hline hne (readLine_plain _ hopen hclose)
  unfold Page.writeLines
  split
  · exact h
  · exact hfold _ h.writeln_empty

theorem Nesting.AtLine.writeComment
    {comments spacer : Bool} {comment : Value} {p p' : Page}
    (h : AtLine stack depth p)
    (hcomment : HarmlessComment comment)
    (hwrite : p.writeComment comments comment spacer = .ok p') :
    AtLine stack depth p' := by
  unfold Page.writeComment at hwrite
  split at hwrite
  · split at hwrite
    · cases hwrite
      refine h.writeLines fun line hline => ?_
      exact ⟨Page.oneLine_of_mem_commentLines hline, hcomment line hline⟩
    · contradiction
  · cases hwrite
    split
    · exact h.writeln_empty
    · exact h

theorem leads_writeComment
    {settings : Settings} {comment : Value} {spacer : Bool}
    (hcomment : HarmlessComment comment) :
    Leads (AtLine stack depth) (Emit.writeComment settings comment spacer)
      fun _ => AtLine stack depth := by
  intro s h
  refine (Emit.ends_get (R := fun a s' => s = a ∧ s = s') ⟨rfl, rfl⟩).bind ?_
  rintro _ _ ⟨rfl, rfl⟩
  refine (Emit.ends_modify (R := fun _ _ => True) trivial).bind fun _ s' _ => ?_
  cases hwrite : s.page.writeComment settings.comments comment spacer with
  | ok p => exact .answer rfl (h.writeComment hcomment hwrite)
  | error fault => exact .fault rfl trivial

/-!
## Types
-/

theorem Nesting.opens_of_closed
    {t : String}
    (h : Closed t) :
    opens t.toList = false := by
  simpa [opens] using h.getLast

theorem Value.whenText_typeOf
    {R : String -> Prop} {tsType : Value} {typeNames : List String}
    (htsType : tsType.WhenText R)
    (hnames : R (TypeExpr.resolveAll typeNames)) :
    (typeOf tsType typeNames).WhenText R := by
  unfold typeOf
  split
  · exact htsType
  · exact hnames

theorem oneLine_typeOf
    {tsType : Value} {typeNames : List String}
    (htsType : tsType.WhenText OneLine)
    (hnames : forall n, n ∈ typeNames -> OneLine n) :
    (typeOf tsType typeNames).WhenText OneLine :=
  Value.whenText_typeOf htsType (TypeExpr.closed_resolveAll hnames).oneLine

theorem Field.Tidy.closed_type
    {f : Field}
    (h : f.Tidy) :
    (typeOf f.tsType f.typeNames).WhenText Closed := by
  refine Value.whenText_typeOf ?_ (TypeExpr.closed_resolveAll h.typeNames)
  have hline := h.tsType
  have hopens := h.tsType_opens
  cases htype : f.tsType with
  | str t =>
      rw [htype] at hline hopens
      exact ⟨hline, by simpa [Value.WhenText, opens] using hopens⟩
  | _ => trivial

variable {P : Page -> Prop}

theorem leads_text
    {R : String -> Prop} {v : Value}
    (h : v.WhenText R) :
    Leads P (Emit.textOf v) fun t p => R t ∧ P p := by
  refine (leads_textOf v).mono ?_
  rintro t p ⟨rfl, hp⟩
  exact ⟨h, hp⟩

theorem leads_typeText
    {R : String -> Prop} {tsType : Value} {typeNames : List String}
    (h : (typeOf tsType typeNames).WhenText R) :
    Leads P (Emit.typeOf tsType typeNames >>= Emit.textOf) fun t p =>
      R t ∧ P p := by
  refine Leads.bind ((leads_report _).bind fun _ => leads_pure _) fun v =>
    Leads.of_fact ?_
  rintro rfl
  exact leads_text h

theorem Field.Tidy.leads_fieldType
    {f : Field}
    (h : f.Tidy) :
    Leads P (Emit.fieldType f) fun t p => Closed t ∧ P p :=
  leads_typeText h.closed_type

theorem Doclet.Tidy.leads_docletType
    {d : Doclet}
    (h : d.Tidy) :
    Leads P (Emit.docletType d) fun t p => OneLine t ∧ P p :=
  leads_typeText (oneLine_typeOf h.tsType h.typeNames)

/-!
## Interfaces
-/

/-- The page is behind the brace that closes a block, with nothing else on its
line. -/
abbrev Nesting.AfterBody (stack : List Nat) (depth : Nat) : Page -> Prop :=
  InLine (4 * depth :: stack) depth ['}']

theorem leads_writeln_afterBody :
    Leads (AfterBody stack depth) (Emit.writeln []) fun _ =>
      AtLine stack depth :=
  fun _ h => .answer rfl (h.writeln_empty (readLine_closes _ (Or.inl rfl)))

theorem leads_writeln_afterBody_semicolon :
    Leads (AfterBody stack depth) (Emit.writeln [";"]) fun _ =>
      AtLine stack depth :=
  fun s h =>
    leads_writeln (by decide) (by decide) (readLine_closes _ (Or.inr rfl)) s
      h.onLine

namespace Interface

theorem leads_writeGenerics
    {d : Doclet} {S : List Char -> Prop}
    (htidy : d.Tidy)
    (hS : forall cs ds, S cs -> S (cs ++ ds)) :
    Leads (Holding S stack depth) (writeGenerics d) fun _ =>
      Holding S stack depth := by
  refine leads_ite (fun _ => leads_skip) fun _ => leads_write_on ?_ fun cs h =>
    hS cs _ h
  have hnames := oneLine_intercalate (by decide : OneLine ", ") htidy.templates
  simp +decide [hnames]

theorem leads_writeProperty
    {settings : Settings} {f : Field}
    (htidy : f.Tidy) :
    Leads (AtLine stack depth) (writeProperty settings f) fun _ =>
      AtLine stack depth := by
  refine (leads_writeComment htidy.comment).bind fun _ => ?_
  have hname : Leads (AtLine stack depth) (Emit.write [f.name]) fun _ =>
      Midline stack depth :=
    leads_write_at (by simpa using htidy.name) trivial
  refine hname.bind fun _ => ?_
  refine Leads.optional (fun _ => leads_write_on (by decide) fun _ _ => trivial)
    (fun _ _ h => h) ?_
  refine htidy.leads_fieldType.bind fun t => Leads.of_fact fun ht => ?_
  -- The colon tells the line from one that closes a block, whatever the name
  -- is.
  have hline : OneLine (String.join [": ", t, ";"]) := by
    simp +decide [ht.oneLine]
  refine leads_writeln_on (by simp) hline (by simp) fun cs _ => ?_
  exact closes_eq_false (c := ':') (by simp) (by decide)

theorem leads_writeProperties
    {settings : Settings} {fs : List Field}
    (htidy : forall f, f ∈ fs -> f.Tidy) :
    Leads (AtLine stack depth) (writeProperties settings fs) fun _ =>
      AtLine stack depth := by
  induction fs with
  | nil => exact leads_skip
  | cons f fs ih =>
      refine (leads_writeProperty (htidy f List.mem_cons_self)).bind fun _ => ?_
      exact ih fun f' hf => htidy f' (List.mem_cons_of_mem f hf)

theorem leads_writeBody
    {settings : Settings} {d : Doclet}
    (htidy : d.Tidy) :
    Leads (InWords stack depth) (writeBody settings d) fun _ =>
      AfterBody stack depth := by
  refine leads_writeln_brace.bind fun _ => leads_push.bind fun _ => ?_
  refine (leads_writeProperties htidy.properties).bind fun _ =>
    leads_pop.bind fun _ => ?_
  exact fun s h => leads_write (by decide) s h.onLine

theorem leads_write
    {settings : Settings} {d : Doclet}
    (htidy : d.Tidy) :
    Leads (AtWords stack depth) (write settings d) fun _ =>
      AtLine stack depth := by
  refine (leads_write_start ?_ ?_).bind fun _ => ?_
  · simp
  · simp +decide [htidy.name]
  refine (leads_writeGenerics htidy fun _ ds h => h.append ds).bind fun _ => ?_
  refine (leads_write_more (by decide)).bind fun _ => ?_
  exact (leads_writeBody htidy).bind fun _ => leads_writeln_afterBody

end Interface

/-!
## Signatures
-/

theorem Keyed.forall_put
    {α : Type} {R : String × α -> Prop} {key : String} {value : α} {d : Keyed α}
    (hnew : R (key, value))
    (h : forall e, e ∈ d -> R e) :
    forall e, e ∈ put key value d -> R e := by
  induction d with
  | nil => simpa [put] using hnew
  | cons entry rest ih =>
      rw [put]
      rw [List.forall_mem_cons] at h
      split
      · rename_i hkey
        exact List.forall_mem_cons.mpr ⟨hkey ▸ hnew, h.2⟩
      · exact List.forall_mem_cons.mpr ⟨h.1, ih h.2⟩

namespace Signature

/-- Parameters whose names and types stand on one line. -/
def Plain (params : Keyed Param) : Prop :=
  forall e, e ∈ params -> OneLine e.1 ∧ e.2.type.WhenText OneLine

theorem mem_of_mem_dropBrackets
    {cs root : List Char} {c : Char}
    (hroot : dropBrackets cs = some root)
    (h : c ∈ root) :
    c ∈ cs := by
  unfold dropBrackets at hroot
  split at hroot
  · rename_i rest heq
    cases hroot
    rw [← List.mem_reverse, heq]
    simp [List.mem_reverse.mp h]
  · contradiction

theorem oneLine_dottedRoot
    {name root : String} {bracketed : Bool}
    (hname : OneLine name)
    (hroot : dottedRoot? name = some (root, bracketed)) :
    OneLine root := by
  unfold dottedRoot? at hroot
  split at hroot
  · contradiction
  · rename_i front rest hcut
    have hfront : forall c, c ∈ front -> c ∈ name.toList := by
      intro c hc
      exact (cutAt_front '.' name.toList).mem (by rwa [hcut])
    split at hroot
    · rename_i bare hbare
      cases hroot
      rw [OneLine, String.toList_ofList]
      exact fun hmem => hname (hfront _ (mem_of_mem_dropBrackets hbare hmem))
    · cases hroot
      rw [OneLine, String.toList_ofList]
      exact fun hmem => hname (hfront _ hmem)

theorem Plain.addParam
    {f : Field} {params : Keyed Param}
    (h : Plain params)
    (hf : f.Plain) :
    Plain (addParam f params) := by
  unfold Signature.addParam
  split
  · exact Keyed.forall_put ⟨hf.name, oneLine_typeOf hf.tsType hf.typeNames⟩ h
  · rename_i root bracketed hroot
    refine Keyed.forall_put ⟨oneLine_dottedRoot hf.name hroot, ?_⟩ h
    cases bracketed
    · exact (by decide : OneLine mappingType)
    · exact (by decide : OneLine (mappingType ++ "[]"))

theorem Plain.addParams
    {fields : List Field} {params : Keyed Param}
    (h : Plain params)
    (hfields : forall f, f ∈ fields -> f.Plain) :
    Plain
      (fields.foldl (fun params f => Signature.addParam f params) params) := by
  induction fields generalizing params with
  | nil => exact h
  | cons f fields ih =>
      rw [List.forall_mem_cons] at hfields
      exact ih (h.addParam hfields.1) hfields.2

theorem mem_of_mem_dropFront
    {c d : Char} {cs : List Char}
    (h : d ∈ dropFront c cs) :
    d ∈ cs := by
  unfold dropFront at h
  split at h
  · split at h
    · exact List.mem_cons_of_mem _ h
    · exact h
  · exact h

theorem oneLine_bareThis
    {t : String}
    (h : OneLine t) :
    OneLine (bareThis t) := by
  rw [OneLine, bareThis, String.toList_ofList, dropBack, List.mem_reverse]
  intro hmem
  exact h
    (mem_of_mem_dropFront (List.mem_reverse.mp (mem_of_mem_dropFront hmem)))

theorem plain_thisParams
    {thisType : Value} {params : Keyed Param}
    (h : thisType.WhenText OneLine)
    (hparams : thisParams thisType = .ok params) :
    Plain params := by
  unfold thisParams at hparams
  split at hparams
  · split at hparams
    · cases hparams
      rintro e he
      rw [List.mem_singleton.mp he]
      exact ⟨(by decide : OneLine "this"), oneLine_bareThis h⟩
    · contradiction
    · contradiction
  · cases hparams
    simp [Plain]

theorem leads_collect
    {d : Doclet}
    (htidy : d.Tidy) :
    Leads P (collect d) fun params p => Plain params ∧ P p := by
  refine (leads_lift _).bind fun params => Leads.of_fact fun hthis => ?_
  refine (leads_report _).bind fun _ => (leads_pure _).mono ?_
  rintro _ p ⟨rfl, hp⟩
  refine ⟨?_, hp⟩
  exact (plain_thisParams htidy.thisType hthis).addParams htidy.params

theorem leads_returnType
    {d : Doclet}
    (htidy : d.Tidy) :
    Leads P (returnType d) fun type p => type.WhenText OneLine ∧ P p := by
  have hvoid : (Value.str "void").WhenText OneLine := by simp +decide
  have hreturns := htidy.returns
  unfold returnType
  split
  · exact (leads_pure _).mono fun _ _ h => ⟨h.1 ▸ hvoid, h.2⟩
  · rename_i f fs heq
    have hf := hreturns f (heq ▸ List.mem_cons_self)
    refine ((leads_report _).bind fun _ => leads_pure _).bind fun type =>
      Leads.of_fact ?_
    rintro rfl
    split
    · exact (leads_pure _).mono fun _ _ h => ⟨h.1 ▸ hvoid, h.2⟩
    · exact (leads_pure _).mono fun _ _ h =>
        ⟨h.1 ▸ oneLine_typeOf hf.tsType hf.typeNames, h.2⟩

theorem oneLine_restType
    {v : Value} {t : String}
    (h : v.WhenText OneLine)
    (ht : restType v = .ok t) :
    OneLine t := by
  cases v with
  | str s =>
      rw [restType] at ht
      cases ht
      split
      · decide
      · simpa +decide using h
  | _ => contradiction

theorem leads_writeParam
    {name : String} {param : Param}
    (hname : OneLine name)
    (htype : param.type.WhenText OneLine) :
    Leads (InWords stack depth) (writeParam name param) fun _ =>
      InWords stack depth := by
  refine leads_ite (fun _ => ?_) fun _ => ?_
  · refine (leads_lift _).bind fun t => Leads.of_fact fun ht =>
      leads_write_more ?_
    simp +decide [hname, oneLine_restType htype ht]
  · refine (leads_text htype).bind fun t => Leads.of_fact fun ht =>
      leads_write_more ?_
    split <;> simp +decide [hname, ht]

theorem leads_writeParams
    {params : Keyed Param}
    (h : Plain params) :
    Leads (InWords stack depth) (writeParams params) fun _ =>
      InWords stack depth := by
  fun_induction writeParams params with
  | case1 => exact leads_skip
  | case2 name param =>
      have hparam := h (name, param) List.mem_cons_self
      exact leads_writeParam hparam.1 hparam.2
  | case3 name param rest _ ih =>
      have hparam := h (name, param) List.mem_cons_self
      refine (leads_writeParam hparam.1 hparam.2).bind fun _ => ?_
      refine (leads_write_more (by decide)).bind fun _ => ?_
      exact ih fun e he => h e (List.mem_cons_of_mem _ he)

theorem leads_write
    {d : Doclet} {form : Form}
    (htidy : d.Tidy) :
    Leads (Begun stack depth) (write d form) fun _ => InWords stack depth := by
  have hreturn (mark : String) (hmark : OneLine mark) :
      Leads (InWords stack depth)
        (do
          let type ← Emit.textOf (← returnType d)
          Emit.write [mark, type])
        fun _ => InWords stack depth := by
    refine (leads_returnType htidy).bind fun v => Leads.of_fact fun hv => ?_
    refine (leads_text hv).bind fun t => Leads.of_fact fun ht =>
      leads_write_more ?_
    simp [hmark, ht]
  refine (leads_write_word (c := '(') (by decide) (by decide) (by decide)).bind
    fun _ => ?_
  refine (leads_collect htidy).bind fun params =>
    Leads.of_fact fun hparams => ?_
  refine (leads_writeParams hparams).bind fun _ => ?_
  refine (leads_write_more (by decide)).bind fun _ => ?_
  cases form with
  | function => exact hreturn ": " (by decide)
  | constructor => exact leads_skip
  | arrow => exact hreturn " => " (by decide)

end Signature

/-!
## Declarations
-/

namespace Declaration

theorem leads_write_export :
    Leads (AtLine stack depth) (Emit.write ["export "]) fun _ =>
      AtWords stack depth :=
  (leads_write_at (by decide) (by simp)).mono fun _ _ h => Or.inr h

theorem leads_writeLead
    {settings : Settings} {d : Doclet} {spacer : Bool}
    (htidy : d.Tidy) :
    Leads (AtLine stack depth) (writeLead settings d spacer) fun _ =>
      AtWords stack depth := by
  refine (leads_writeComment htidy.comment).bind fun _ => ?_
  exact leads_ite (fun _ => leads_write_export) fun _ =>
    leads_skip.mono fun _ _ h => Or.inl h

theorem whenText_accessOf
    {d : Doclet}
    (htidy : d.Tidy) :
    (accessOf d).WhenText fun a => OneLine a ∧ Begins a.toList := by
  have haccess := htidy.access
  unfold accessOf Value.orElse
  split
  · rename_i htruthy
    cases hvalue : d.access with
    | str a =>
        rw [hvalue] at haccess htruthy
        rcases haccess with ⟨hline, hspace⟩
        refine ⟨hline, ?_⟩
        cases hchars : a.toList with
        | nil =>
            simp [Value.truthy, String.toList_eq_nil_iff.mp hchars] at htruthy
        | cons c cs => exact ⟨c, cs, rfl, by simpa [hchars] using hspace⟩
    | _ => trivial
  · exact ⟨by decide, by simp⟩

theorem leads_writeAccess
    {d : Doclet}
    (htidy : d.Tidy) :
    Leads (AtWords stack depth) (writeAccess d) fun _ => Begun stack depth := by
  refine (leads_text (whenText_accessOf htidy)).bind fun a =>
    Leads.of_fact fun ha => ?_
  refine (leads_write_begin ?_ ?_).bind fun _ => ?_
  · simpa using ha.2.append [' ']
  · simp +decide [ha.1]
  · split
    · exact leads_write_begun (by decide)
    · exact leads_skip

theorem leads_writeFunction
    {settings : Settings} {d : Doclet} {parent : Option Doclet}
    (htidy : d.Tidy) :
    Leads (AtLine stack depth) (writeFunction settings d parent) fun _ =>
      AtLine stack depth := by
  refine (leads_writeLead htidy).bind fun _ => ?_
  refine Leads.either (fun _ => leads_writeAccess htidy) (fun _ => ?_) ?_
  · exact leads_write_begin (by simp) (by decide)
  refine (leads_write_begun (by simp [htidy.name])).bind fun _ => ?_
  refine (Interface.leads_writeGenerics htidy fun _ ds h => h.append ds).bind
    fun _ => ?_
  -- The access word and the name may be braces; only the signature makes it a
  -- line of words.
  refine (Signature.leads_write htidy).bind fun _ => ?_
  exact leads_writeln_end (by decide) (by decide) (by decide)

theorem leads_writeConstructor
    {settings : Settings} {d : Doclet}
    (htidy : d.Tidy) :
    Leads (AtLine stack depth) (writeConstructor settings d) fun _ =>
      AtLine stack depth := by
  refine (leads_writeComment htidy.comment).bind fun _ => ?_
  refine (leads_write_at (S := Begins) (by decide) (by simp)).bind fun _ => ?_
  refine (Signature.leads_write htidy).bind fun _ => ?_
  exact leads_writeln_end (by decide) (by decide) (by decide)

theorem leads_writeHeritage
    {d : Doclet}
    (htidy : d.Tidy) :
    Leads (InWords stack depth) (writeHeritage d) fun _ =>
      InWords stack depth := by
  have hbases : forall t,
      t ∈ (d.implements ++ d.mixes).filter Doclet.isPlainReference ->
      OneLine t := by
    intro t ht
    rcases List.mem_append.mp (List.mem_of_mem_filter ht) with ht | ht
    · exact htidy.implements t ht
    · exact htidy.mixes t ht
  have hline := oneLine_intercalate (by decide : OneLine ", ") hbases
  unfold writeHeritage
  -- The second clause comes after the first, so its cases are the same in both.
  generalize (d.implements ++ d.mixes).filter Doclet.isPlainReference =
    bases at hline
  cases haugments : d.augments.filter Doclet.isPlainReference with
  | nil =>
      cases bases with
      | nil => exact leads_skip
      | cons first rest => exact leads_write_more (by simpa +decide using hline)
  | cons base _ =>
      have hbase : base ∈ d.augments :=
        List.mem_of_mem_filter (haugments ▸ List.mem_cons_self)
      refine (leads_write_more ?_).bind fun _ => ?_
      · simp +decide [htidy.augments base hbase]
      · cases bases with
        | nil => exact leads_skip
        | cons first rest =>
            exact leads_write_more (by simpa +decide using hline)

theorem leads_writeHead
    {settings : Settings} {d : Doclet}
    (htidy : d.Tidy) :
    Leads (AtLine stack depth) (writeHead settings d)
      fun _ => AtLine (4 * depth :: stack) depth := by
  have hrest : Leads (InWords stack depth)
      (do
        Emit.write [d.name]
        Interface.writeGenerics d
        Emit.write [" "]
        writeHeritage d
        Emit.writeln ["\x7b"])
      fun _ => AtLine (4 * depth :: stack) depth := by
    refine (leads_write_more (by simp [htidy.name])).bind fun _ => ?_
    refine (Interface.leads_writeGenerics htidy fun _ ds h => h.append ds).bind
      fun _ => ?_
    refine (leads_write_more (by decide)).bind fun _ => ?_
    exact (leads_writeHeritage htidy).bind fun _ => leads_writeln_brace
  refine (leads_writeLead htidy).bind fun _ => ?_
  refine leads_ite (fun _ => ?_) fun _ => ?_
  · exact (leads_write_start (by simp) (by decide)).bind fun _ => hrest
  · refine Leads.optional (M := AtWords stack depth) (fun _ => ?_)
      (fun _ _ h => h) ?_
    · exact (leads_write_start (by simp) (by decide)).mono fun _ _ h => Or.inr h
    · exact (leads_write_start (by simp) (by decide)).bind fun _ => hrest

theorem leads_writeCase
    {f : Field}
    (htidy : f.Tidy) :
    Leads (AtLine stack depth) (writeCase f) fun _ =>
      Holding Harmless stack depth := by
  have hname : Leads (AtLine stack depth) (Emit.write [f.name])
      fun _ => Holding Harmless stack depth :=
    leads_write_at (by simpa using htidy.name) (by simpa using htidy.harmless)
  refine hname.bind fun _ => ?_
  split
  · exact leads_skip
  · refine (leads_lift _).bind fun t => Leads.of_fact fun ht => ?_
    have hclosed : Closed (String.join [" = ", t]) :=
      closed_join (by simp +decide [Json.closed_text ht])
    refine leads_write_on hclosed.oneLine fun cs _ => ⟨?_, ?_⟩
    · rw [opens_append cs (by simp)]
      exact opens_of_closed hclosed
    · exact closes_eq_false (c := '=') (by simp) (by decide)

theorem leads_writeCases
    {fs : List Field}
    (htidy : forall f, f ∈ fs -> f.Tidy) :
    Leads (AtLine stack depth) (writeCases fs) fun _ => AtLine stack depth := by
  fun_induction writeCases fs with
  | case1 => exact leads_skip
  | case2 f =>
      refine (leads_writeCase (htidy f List.mem_cons_self)).bind fun _ => ?_
      rintro s ⟨cs, hcs, h⟩
      exact .answer rfl (h.writeln_empty (readLine_plain _ hcs.1 hcs.2))
  | case3 f fs _ ih =>
      refine (leads_writeCase (htidy f List.mem_cons_self)).bind fun _ => ?_
      refine Leads.bind ?_ fun _ => ih fun f' hf =>
        htidy f' (List.mem_cons_of_mem f hf)
      refine leads_writeln_on (by decide) (by decide) (by decide) fun cs _ => ?_
      exact closes_eq_false (c := ',') (by simp) (by decide)

theorem leads_writeEnum
    {d : Doclet}
    (htidy : d.Tidy) :
    Leads (AtWords stack depth) (writeEnum d) fun _ => AtLine stack depth := by
  refine (leads_writeln_open ?_ ?_ ?_).bind fun _ => leads_push.bind fun _ => ?_
  · simp
  · simp +decide [htidy.name]
  · simp
  refine (leads_writeCases htidy.properties).bind fun _ =>
    leads_pop.bind fun _ => ?_
  exact leads_writeln_close (Or.inl rfl)

theorem leads_writePart
    {f : Field} {t : String} {mark : List String}
    (ht : Closed t)
    (hmark : forall m, m ∈ mark -> Closed m) :
    Leads (AtLine stack depth)
      (Emit.writeln (Json.quote f.name :: ": " :: t :: mark))
      fun _ => AtLine stack depth := by
  have hclosed :
      Closed (String.join (Json.quote f.name :: ": " :: t :: mark)) :=
    closed_join (by simpa +decide [Json.closed_quote, ht] using hmark)
  refine leads_writeln_whole ?_ hclosed.oneLine (opens_of_closed hclosed) ?_
  · simp
  · exact closes_eq_false (c := ':') (by simp) (by decide)

theorem leads_writeParts
    {fs : List Field}
    (htidy : forall f, f ∈ fs -> f.Tidy) :
    Leads (AtLine stack depth) (writeParts fs) fun _ => AtLine stack depth := by
  fun_induction writeParts fs with
  | case1 => exact leads_skip
  | case2 f =>
      refine (htidy f List.mem_cons_self).leads_fieldType.bind fun t =>
        Leads.of_fact fun ht => ?_
      exact leads_writePart ht (by simp)
  | case3 f fs _ ih =>
      refine (htidy f List.mem_cons_self).leads_fieldType.bind fun t =>
        Leads.of_fact fun ht => ?_
      refine (leads_writePart ht (by simp +decide)).bind fun _ => ?_
      exact ih fun f' hf => htidy f' (List.mem_cons_of_mem f hf)

theorem leads_writeMemberType
    {d : Doclet}
    (htidy : d.Tidy) :
    Leads (InWords stack depth) (writeMemberType d) fun _ =>
      AtLine stack depth := by
  refine leads_ite (fun _ => ?_) fun _ => ?_
  · refine leads_writeln_brace.bind fun _ => leads_push.bind fun _ => ?_
    refine (leads_writeParts htidy.properties).bind fun _ =>
      leads_pop.bind fun _ => ?_
    exact leads_writeln_close (Or.inr rfl)
  · refine htidy.leads_docletType.bind fun t => Leads.of_fact fun ht => ?_
    exact leads_writeln_end (by simp) (by simp +decide [ht]) (by simp)

theorem leads_writeVariable
    {d : Doclet} {parent : Option Doclet}
    (htidy : d.Tidy) :
    Leads (AtWords stack depth) (writeVariable d parent) fun _ =>
      AtLine stack depth := by
  have hrest : Leads (Begun stack depth)
      (do
        Emit.write [d.name]
        if d.optional then Emit.write ["?"]
        Emit.write [": "]
        writeMemberType d)
      fun _ => AtLine stack depth := by
    refine (leads_write_begun (by simp [htidy.name])).bind fun _ => ?_
    refine Leads.optional (fun _ => leads_write_begun (by decide))
      (fun _ _ h => h) ?_
    refine (leads_write_word (c := ':') (by decide) (by decide)
      (by decide)).bind fun _ => ?_
    exact leads_writeMemberType htidy
  refine leads_ite (fun _ => ?_) fun _ => ?_
  · refine (leads_writeAccess htidy).bind fun _ => ?_
    exact Leads.optional (fun _ => leads_write_begun (by decide))
      (fun _ _ h => h) hrest
  · refine Leads.bind (Q := fun _ => Begun stack depth) ?_ fun _ => hrest
    split
    · exact leads_write_begin (by simp) (by decide)
    · exact leads_write_begin (by simp) (by decide)

theorem leads_writeMember
    {settings : Settings} {d : Doclet} {parent : Option Doclet}
    (htidy : d.Tidy) :
    Leads (AtLine stack depth) (writeMember settings d parent) fun _ =>
      AtLine stack depth := by
  refine (leads_writeLead htidy).bind fun _ => ?_
  exact leads_ite (fun _ => leads_writeEnum htidy) fun _ =>
    leads_writeVariable htidy

theorem leads_writeAliasType
    {settings : Settings} {d : Doclet}
    (htidy : d.Tidy) :
    Leads (InWords stack depth) (writeAliasType settings d)
      fun _ p => InWords stack depth p ∨ AfterBody stack depth p := by
  refine leads_ite (fun _ => ?_) fun _ => ?_
  · refine (leads_text htidy.tsType).bind fun t => Leads.of_fact fun ht => ?_
    exact (leads_write_more (by simpa using ht)).mono fun _ _ h => Or.inl h
  refine htidy.leads_docletType.bind fun t => Leads.of_fact fun ht => ?_
  refine leads_ite (fun _ => ?_) fun _ =>
    leads_ite (fun _ => leads_ite (fun _ => ?_) fun _ => ?_)
    fun _ => ?_
  · exact ((Signature.leads_write htidy).of_imp fun _ h => h.begun).mono
      fun _ _ h => Or.inl h
  · exact (leads_write_more (by decide)).mono fun _ _ h => Or.inl h
  · exact (Interface.leads_writeBody htidy).mono fun _ _ h => Or.inr h
  · exact (leads_write_more (by simpa using ht)).mono fun _ _ h => Or.inl h

theorem leads_writeAlias
    {settings : Settings} {d : Doclet}
    (htidy : d.Tidy) :
    Leads (AtLine stack depth) (writeAlias settings d) fun _ =>
      AtLine stack depth := by
  refine leads_writeln_blank.bind fun _ => ?_
  refine (leads_write_at (S := Worded) ?_ ?_).bind fun _ => ?_
  · simp +decide [htidy.name]
  · simp
  refine (Interface.leads_writeGenerics htidy fun _ ds h => h.append ds).bind
    fun _ => ?_
  refine (leads_write_more (by decide)).bind fun _ => ?_
  refine (leads_writeAliasType htidy).bind fun _ => ?_
  -- The semicolon ends a line of words, or it stands behind the brace that
  -- closes the body.
  rintro s (h | h)
  · exact leads_writeln_end (by decide) (by decide) (by decide) s h
  · exact leads_writeln_afterBody_semicolon s h

theorem leads_writeShape
    {settings : Settings} {d : Doclet}
    (htidy : d.Tidy) :
    Leads (AtLine stack depth) (writeShape settings d) fun _ =>
      AtLine stack depth :=
  (leads_writeLead htidy).bind fun _ => Interface.leads_write htidy

end Declaration

end

end Ambient
