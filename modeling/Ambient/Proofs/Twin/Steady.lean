import Ambient.Proofs.Script.Piece

/-!
# Steady writers

What can be seen of a session from outside is its page, its notices and where
its page is first broken.  A steady step depends on nothing else: on two
sessions that look the same it has the same result, and it leaves two sessions
that look the same.  All writers are steady.  If the values of a doclet that are
written as they come are texts, the writers of that doclet do not fail either.
-/

namespace Ambient

open Emit

/-!
## Values that can be written
-/

namespace Value

def isTextOrNull : Value -> Bool
  | null => true
  | str _ => true
  | _ => false

mutual

/-- Whether a value can be told in JSON, given which integers can. -/
def isJson (allowed : Int -> Bool) : Value -> Bool
  | null => true
  | bool _ => true
  | int n => allowed n
  | double _ => true
  | str _ => true
  | list items => areJson allowed items
  | map entries => entriesAreJson allowed entries
  | _ => false

def areJson (allowed : Int -> Bool) : List Value -> Bool
  | [] => true
  | v :: vs => isJson allowed v && areJson allowed vs

def entriesAreJson (allowed : Int -> Bool) : List (Value × Value) -> Bool
  | [] => true
  | (str _, v) :: rest => isJson allowed v && entriesAreJson allowed rest
  | _ :: _ => false

end

end Value

/-- An integer that has not too many digits to be written. -/
def Numeral.isShort (n : Int) : Bool := !isTooLong n

/-- A field whose values can be written, given which integers can. -/
@[mk_iff] structure Field.Texted (allowed : Int -> Bool) (f : Field) :
    Prop where
  tsType : f.tsType.isTextOrNull = true
  comment : f.comment.isTextOrNull = true
  defaultValue : f.defaultValue.all (Value.isJson allowed) = true

/-- A doclet whose values can be written, given which integers can. -/
@[mk_iff] structure Doclet.Texted (allowed : Int -> Bool) (d : Doclet) :
    Prop where
  access : d.access.isTextOrNull = true
  comment : d.comment.isTextOrNull = true
  tsType : d.tsType.isTextOrNull = true
  thisType : d.thisType.isTextOrNull = true
  properties : forall f, f ∈ d.properties -> f.Texted allowed
  params : forall f, f ∈ d.params -> f.Texted allowed
  returns : forall f, f ∈ d.returns -> f.Texted allowed

instance (allowed : Int -> Bool) (f : Field) : Decidable (f.Texted allowed) :=
  decidable_of_iff' _ (Field.texted_iff allowed f)

instance (allowed : Int -> Bool) (d : Doclet) : Decidable (d.Texted allowed) :=
  decidable_of_iff' _ (Doclet.texted_iff allowed d)

theorem Value.exists_eq_str
    {v : Value}
    (h : v.isTextOrNull = true)
    (htruthy : v.truthy = true) :
    exists t, v = .str t := by
  cases v with
  | str t => exact ⟨t, rfl⟩
  | null => contradiction
  | _ => contradiction

theorem exists_typeOf_eq_str
    {tsType : Value}
    (h : tsType.isTextOrNull = true)
    (typeNames : List String) :
    exists t, typeOf tsType typeNames = .str t := by
  unfold typeOf
  split
  · exact Value.exists_eq_str h ‹_›
  · exact ⟨_, rfl⟩

namespace Json

theorem exists_scalar_int
    {n : Int}
    (h : Numeral.isShort n = true) :
    exists t, scalar (.int n) = .ok t := by
  rw [Numeral.isShort, Bool.not_eq_true'] at h
  exact ⟨_, by rw [scalar, Value.shortIntText, h]; rfl⟩

mutual

theorem exists_textIn
    (around : List Nat)
    {v : Value}
    (h : v.isJson Numeral.isShort = true) :
    exists t, textIn around v = .ok t := by
  cases v with
  | int n =>
      rw [Value.isJson] at h
      simpa only [textIn] using exists_scalar_int h
  | list items =>
      rw [Value.isJson] at h
      rcases exists_itemTexts around h with ⟨ts, hts⟩
      exact ⟨_, by rw [textIn, hts]; rfl⟩
  | map entries =>
      rw [Value.isJson] at h
      rcases exists_entryTexts around h with ⟨ts, hts⟩
      exact ⟨_, by rw [textIn, hts]; rfl⟩
  | null => exact ⟨_, rfl⟩
  | bool b => exact ⟨_, rfl⟩
  | double x => exact ⟨_, rfl⟩
  | str s => exact ⟨_, rfl⟩
  | _ => simp [Value.isJson] at h

theorem exists_itemTexts
    (around : List Nat)
    {vs : List Value}
    (h : Value.areJson Numeral.isShort vs = true) :
    exists ts, itemTexts around vs = .ok ts := by
  cases vs with
  | nil => exact ⟨_, rfl⟩
  | cons v vs =>
      rw [Value.areJson, Bool.and_eq_true] at h
      rcases exists_textIn around h.1 with ⟨t, ht⟩
      rcases exists_itemTexts around h.2 with ⟨ts, hts⟩
      exact ⟨_, by rw [itemTexts, ht, hts]; rfl⟩

theorem exists_entryTexts
    (around : List Nat)
    {entries : List (Value × Value)}
    (h : Value.entriesAreJson Numeral.isShort entries = true) :
    exists ts, entryTexts around entries = .ok ts := by
  cases entries with
  | nil => exact ⟨_, rfl⟩
  | cons entry rest =>
      cases entry with
      | mk k v =>
          cases k with
          | str s =>
              rw [Value.entriesAreJson, Bool.and_eq_true] at h
              rcases exists_textIn around h.1 with ⟨t, ht⟩
              rcases exists_entryTexts around h.2 with ⟨ts, hts⟩
              exact ⟨_, by rw [entryTexts, ht, hts]; rfl⟩
          | _ => simp [Value.entriesAreJson] at h

end

end Json

/-!
## Steps
-/

/-- Two sessions look the same from outside. -/
structure Session.SameView (s s' : Session) : Prop where
  page : s'.page = s.page
  notices : s'.notices = s.notices
  breach : s'.breach = s.breach

namespace Emit

/-- A step that does the same on sessions that look the same.  A strict one does
not fail. -/
class Steady (strict : Prop) {α : Type} (x : Emit α) : Prop where
  runs : forall s s', s.SameView s' -> exists result t t',
    x.run s = ended result t ∧ x.run s' = ended result t' ∧ t.SameView t' ∧
      (strict -> exists a, result = .ok a)

variable {strict : Prop} {α β : Type}

theorem Steady.bind_of
    {x : Emit α} {f : α -> Emit β} {R : α -> Prop}
    (hx : Steady strict x)
    (hR : forall s a t, x.run s = .ok a t -> R a)
    (hf : forall a, R a -> Steady strict (f a)) :
    Steady strict (x >>= f) := by
  constructor
  intro s s' hview
  rcases hx.runs s s' hview with ⟨result, t, t', hrun, hrun', hview₁, hstrict⟩
  cases result with
  | ok a =>
      rcases (hf a (hR s a t hrun)).runs t t' hview₁ with
        ⟨result, u, u', hrun₁, hrun₁', hview₂, hstrict₁⟩
      refine ⟨result, u, u', ?_, ?_, hview₂, hstrict₁⟩
      · rw [EStateM.run_bind, hrun]
        exact hrun₁
      · rw [EStateM.run_bind, hrun']
        exact hrun₁'
  | error fault =>
      refine ⟨.error fault, t, t', ?_, ?_, hview₁, ?_⟩
      · rw [EStateM.run_bind, hrun]
        rfl
      · rw [EStateM.run_bind, hrun']
        rfl
      · intro h
        rcases hstrict h with ⟨a, ha⟩
        contradiction

instance steady_pure (a : α) : Steady strict (pure a : Emit α) :=
  ⟨fun s s' h => ⟨.ok a, s, s', rfl, rfl, h, fun _ => ⟨a, rfl⟩⟩⟩

instance steady_bind (x : Emit α) (f : α -> Emit β) [hx : Steady strict x]
    [hf : forall a, Steady strict (f a)] : Steady strict (x >>= f) :=
  Steady.bind_of (R := fun _ => True) hx (fun _ _ _ _ => trivial) fun a _ =>
    hf a

instance steady_ite (c : Prop) [Decidable c] (x y : Emit α)
    [hx : Steady strict x]
    [hy : Steady strict y] : Steady strict (if c then x else y) := by
  split
  · exact hx
  · exact hy

theorem steady_modify
    {f : Session -> Session}
    (h : forall s s' : Session, s.SameView s' -> (f s).SameView (f s')) :
    Steady strict (modify f : Emit Unit) :=
  ⟨fun s s' hview =>
    ⟨.ok (), f s, f s', rfl, rfl, h s s' hview, fun _ => ⟨(), rfl⟩⟩⟩

theorem steady_lift
    {result : Except Fault α}
    (h : strict -> exists a, result = .ok a) :
    Steady strict (lift result) := by
  constructor
  intro s s' hview
  cases result with
  | ok a => exact ⟨.ok a, s, s', rfl, rfl, hview, h⟩
  | error fault => exact ⟨.error fault, s, s', rfl, rfl, hview, h⟩

/-- A step may look at the page. -/
theorem steady_get
    {f : Page -> Emit β}
    (h : forall p, Steady strict (f p)) :
    Steady strict (get >>= fun s => f s.page) := by
  constructor
  intro s s' hview
  rcases (h s.page).runs s s' hview with ⟨result, t, t', hrun, hrun', hrest⟩
  refine ⟨result, t, t', hrun, ?_, hrest⟩
  rw [← hview.page] at hrun'
  exact hrun'

instance steady_onPage (f : Page -> Page) : Steady strict (onPage f) :=
  steady_modify fun _ _ h => ⟨congrArg f h.page, h.notices, h.breach⟩

instance steady_noteBreach (text? : Option String) :
    Steady strict (modify (Session.noteBreach text?)) := by
  apply steady_modify
  intro s s' h
  refine ⟨h.page, h.notices, ?_⟩
  simp only [Session.noteBreach, h.notices, h.breach]

instance steady_noteHalf (text : String) :
    Steady strict (modify (Session.noteHalf text)) := by
  apply steady_modify
  intro s s' h
  refine ⟨h.page, h.notices, ?_⟩
  simp only [Session.noteHalf, Session.noteBreach, h.page, h.notices, h.breach]

instance steady_write (fragments : List String) :
    Steady strict (write fragments) := by
  unfold write
  infer_instance

instance steady_writeln (fragments : List String) :
    Steady strict (writeln fragments) := by
  unfold writeln
  infer_instance

instance steady_push : Steady strict push := steady_onPage _

instance steady_pop : Steady strict pop := steady_onPage _

instance steady_report (notices : List Notice) :
    Steady strict (report notices) := by
  apply steady_modify
  intro s s' h
  refine ⟨h.page, ?_, h.breach⟩
  simp only [h.notices]

theorem steady_textOf
    {v : Value}
    (h : strict -> exists t, v = .str t) :
    Steady strict (textOf v) := by
  unfold textOf
  split
  · exact steady_pure _
  · rename_i hv
    show Steady strict (lift (.error .nonText))
    apply steady_lift
    intro hs
    rcases h hs with ⟨t, ht⟩
    exact absurd ht (hv t)

theorem steady_writeComment
    {comment : Value}
    (settings : Settings)
    (spacer : Bool)
    (h : strict -> comment.isTextOrNull = true) :
    Steady strict (writeComment settings comment spacer) := by
  unfold writeComment
  refine steady_get (f := fun page => do
    modify (Session.noteBreach
      (page.textBeforeHalf? (commentLines settings comment)))
    let page ← lift (page.writeComment settings.comments comment spacer)
    modify fun s => { s with page := page }) fun p => ?_
  have hlift : Steady strict
      (lift (p.writeComment settings.comments comment spacer)) := by
    apply steady_lift
    intro hs
    unfold Page.writeComment
    split
    · rename_i hwritten
      rw [Bool.and_eq_true] at hwritten
      rcases Value.exists_eq_str (h hs) hwritten.1 with ⟨t, rfl⟩
      exact ⟨_, rfl⟩
    · exact ⟨_, rfl⟩
  have hpage (p : Page) :
      Steady strict (modify fun s => { s with page := p }) :=
    steady_onPage fun _ => p
  infer_instance

instance steady_typeOf (tsType : Value) (typeNames : List String) :
    Steady strict (typeOf tsType typeNames) := by
  unfold typeOf
  infer_instance

theorem steady_typeText
    {tsType : Value}
    (typeNames : List String)
    (h : strict -> tsType.isTextOrNull = true) :
    Steady strict (typeOf tsType typeNames >>= textOf) := by
  refine Steady.bind_of (R := fun v => v = Ambient.typeOf tsType typeNames)
    inferInstance ?_ ?_
  · intro s v t hrun
    cases hrun
    rfl
  · rintro _ rfl
    exact steady_textOf fun hs => exists_typeOf_eq_str (h hs) typeNames

end Emit

/-!
## Signatures and interfaces
-/

section

variable {strict : Prop} {d : Doclet} {f : Field}

theorem Field.steady_type
    (h : strict -> f.Texted Numeral.isShort) :
    Steady strict (fieldType f) :=
  steady_typeText f.typeNames fun hs => (h hs).tsType

theorem Doclet.steady_type
    (h : strict -> d.Texted Numeral.isShort) :
    Steady strict (docletType d) :=
  steady_typeText d.typeNames fun hs => (h hs).tsType

namespace Signature

/-- The types of parameters are texts. -/
def TextTypes (params : Keyed Param) : Prop :=
  forall e, e ∈ params -> exists t, e.2.type = .str t

theorem exists_thisParams
    {v : Value}
    (h : v.isTextOrNull = true) :
    exists params, thisParams v = .ok params ∧ TextTypes params := by
  unfold thisParams
  split
  · rcases Value.exists_eq_str h ‹_› with ⟨t, rfl⟩
    refine ⟨_, rfl, ?_⟩
    intro e he
    rw [List.mem_singleton.mp he]
    exact ⟨_, rfl⟩
  · exact ⟨_, rfl, List.forall_mem_nil _⟩

theorem TextTypes.addParams
    {fields : List Field} {params : Keyed Param}
    (h : TextTypes params)
    (hfields : forall f, f ∈ fields -> f.Texted Numeral.isShort) :
    TextTypes (fields.foldl (fun params f => addParam f params) params) := by
  induction fields generalizing params with
  | nil => exact h
  | cons f fields ih =>
      rw [List.forall_mem_cons] at hfields
      refine ih ?_ hfields.2
      show TextTypes (addParam f params)
      unfold addParam
      split
      · exact Keyed.forall_put
          (exists_typeOf_eq_str hfields.1.tsType f.typeNames) h
      · exact Keyed.forall_put ⟨_, rfl⟩ h

theorem textTypes_of_collect
    {s s' : Session} {params : Keyed Param}
    (h : d.Texted Numeral.isShort)
    (hrun : (collect d).run s = .ok params s') :
    TextTypes params := by
  rcases exists_thisParams h.thisType with ⟨first, hfirst, htexts⟩
  unfold collect at hrun
  rw [hfirst] at hrun
  cases hrun
  exact htexts.addParams h.params

theorem steady_collect
    (h : strict -> d.Texted Numeral.isShort) :
    Steady strict (collect d) := by
  have hthis : Steady strict (lift (thisParams d.thisType)) := by
    apply steady_lift
    intro hs
    rcases exists_thisParams (h hs).thisType with ⟨params, hparams, _⟩
    exact ⟨params, hparams⟩
  unfold collect
  infer_instance

instance steady_returnType (d : Doclet) : Steady strict (returnType d) := by
  unfold returnType
  split
  · exact steady_pure _
  · refine @steady_bind _ _ _ _ _ (steady_typeOf _ _) fun type => ?_
    split <;> exact steady_pure _

theorem exists_returnType
    {s s' : Session} {type : Value}
    (h : d.Texted Numeral.isShort)
    (hrun : (returnType d).run s = .ok type s') :
    exists t, type = .str t := by
  unfold returnType at hrun
  split at hrun
  · cases hrun
    exact ⟨_, rfl⟩
  · rename_i f fs heq
    have hf := h.returns f (heq ▸ List.mem_cons_self)
    rcases exists_typeOf_eq_str hf.tsType f.typeNames with ⟨t, ht⟩
    rcases exists_of_run_bind hrun with ⟨_, _, htype, hrest⟩
    cases htype
    rw [ht] at hrest
    split at hrest
    · cases hrest
      exact ⟨_, rfl⟩
    · cases hrest
      exact ⟨_, rfl⟩

theorem steady_returnText
    (h : strict -> d.Texted Numeral.isShort) :
    Steady strict (returnType d >>= textOf) := by
  refine Steady.bind_of (R := fun type => strict -> exists t, type = .str t)
    inferInstance ?_ ?_
  · exact fun s type t hrun hs => exists_returnType (h hs) hrun
  · exact fun type htype => steady_textOf htype

theorem steady_writeParam
    (name : String)
    {param : Param}
    (h : strict -> exists t, param.type = .str t) :
    Steady strict (writeParam name param) := by
  have htext : Steady strict (textOf param.type) := steady_textOf h
  have hrest : Steady strict (lift (restType param.type)) := by
    apply steady_lift
    intro hs
    rcases h hs with ⟨t, ht⟩
    exact ⟨_, by rw [ht]; rfl⟩
  unfold writeParam
  infer_instance

theorem steady_writeParams
    {params : Keyed Param}
    (h : strict -> TextTypes params) :
    Steady strict (writeParams params) := by
  fun_induction writeParams params with
  | case1 => exact steady_pure _
  | case2 name param =>
      exact steady_writeParam name fun hs => h hs _ List.mem_cons_self
  | case3 name param rest _ ih =>
      have hfirst : Steady strict (writeParam name param) :=
        steady_writeParam name fun hs => h hs _ List.mem_cons_self
      have hrest := ih fun hs e he => h hs e (List.mem_cons_of_mem _ he)
      infer_instance

theorem steady_write
    (h : strict -> d.Texted Numeral.isShort)
    (form : Form) :
    Steady strict (write d form) := by
  unfold write
  refine @steady_bind _ _ _ _ _ inferInstance fun _ => ?_
  refine Steady.bind_of (R := fun params => strict -> TextTypes params)
    (steady_collect h) ?_ ?_
  · exact fun s params t hrun hs => textTypes_of_collect (h hs) hrun
  · intro params htypes
    have hwrite := steady_writeParams htypes
    have hreturn (g : String -> Emit Unit) [forall t, Steady strict (g t)] :
        Steady strict (returnType d >>= fun type => textOf type >>= g) := by
      rw [← bind_assoc]
      have htext := steady_returnText h
      infer_instance
    cases form with
    | constructor => infer_instance
    | function => infer_instance
    | arrow => infer_instance

end Signature

namespace Interface

instance steady_writeGenerics (d : Doclet) :
    Steady strict (writeGenerics d) := by
  unfold writeGenerics
  infer_instance

theorem steady_writeProperties
    {fs : List Field}
    (settings : Settings)
    (h : strict -> forall f, f ∈ fs -> f.Texted Numeral.isShort) :
    Steady strict (writeProperties settings fs) := by
  induction fs with
  | nil => exact steady_pure _
  | cons f fs ih =>
      have hf : strict -> f.Texted Numeral.isShort :=
        fun hs => h hs f List.mem_cons_self
      have hcomment := steady_writeComment settings false fun hs =>
          (hf hs).comment
      have htype := Field.steady_type hf
      have hrest := ih fun hs g hg => h hs g (List.mem_cons_of_mem f hg)
      unfold writeProperties writeProperty
      infer_instance

theorem steady_writeBody
    (h : strict -> d.Texted Numeral.isShort)
    (settings : Settings) :
    Steady strict (writeBody settings d) := by
  have hproperties := steady_writeProperties settings fun hs =>
      (h hs).properties
  unfold writeBody
  infer_instance

theorem steady_write
    (h : strict -> d.Texted Numeral.isShort)
    (settings : Settings) :
    Steady strict (write settings d) := by
  have hbody := steady_writeBody h settings
  unfold write
  infer_instance

end Interface

/-!
## Declarations
-/

namespace Declaration

theorem steady_writeLead
    (h : strict -> d.Texted Numeral.isShort)
    (settings : Settings)
    (spacer : Bool) :
    Steady strict (writeLead settings d spacer) := by
  have hcomment (spacer : Bool) :=
    steady_writeComment settings spacer fun hs => (h hs).comment
  unfold writeLead
  infer_instance

theorem steady_writeAccess
    (h : strict -> d.Texted Numeral.isShort) :
    Steady strict (writeAccess d) := by
  have haccess : Steady strict (textOf (accessOf d)) := by
    apply steady_textOf
    intro hs
    unfold accessOf Value.orElse
    split
    · exact Value.exists_eq_str (h hs).access ‹_›
    · exact ⟨_, rfl⟩
  unfold writeAccess
  refine @steady_bind _ _ _ _ _ haccess fun access => ?_
  refine @steady_bind _ _ _ _ _ inferInstance fun _ => ?_
  split <;> infer_instance

theorem steady_writeConstructor
    (h : strict -> d.Texted Numeral.isShort)
    (settings : Settings) :
    Steady strict (writeConstructor settings d) := by
  have hcomment := steady_writeComment settings false fun hs => (h hs).comment
  have hsignature := Signature.steady_write h .constructor
  unfold writeConstructor
  infer_instance

instance steady_writeHeritage (d : Doclet) :
    Steady strict (writeHeritage d) := by
  unfold writeHeritage
  split <;> split <;> infer_instance

theorem steady_writeHead
    (h : strict -> d.Texted Numeral.isShort)
    (settings : Settings) :
    Steady strict (writeHead settings d) := by
  have hlead (spacer : Bool) := steady_writeLead h settings spacer
  have hrest : Steady strict (do
      Emit.write [d.name]
      Interface.writeGenerics d
      Emit.write [" "]
      writeHeritage d
      Emit.writeln ["\x7b"]) := by
    infer_instance
  unfold writeHead
  infer_instance

theorem steady_writeCases
    {fs : List Field}
    (h : strict -> forall f, f ∈ fs -> f.Texted Numeral.isShort) :
    Steady strict (writeCases fs) := by
  have hcase (f : Field) (hf : strict -> f.Texted Numeral.isShort) :
      Steady strict (writeCase f) := by
    unfold writeCase
    split
    · infer_instance
    · rename_i v hv
      have hjson : Steady strict (lift (Json.text v)) := by
        apply steady_lift
        intro hs
        have hvalue := (hf hs).defaultValue
        rw [hv] at hvalue
        exact Json.exists_textIn [] hvalue
      infer_instance
  fun_induction writeCases fs with
  | case1 => exact steady_pure _
  | case2 f =>
      have hfirst := hcase f fun hs => h hs f List.mem_cons_self
      infer_instance
  | case3 f fs _ ih =>
      have hfirst := hcase f fun hs => h hs f List.mem_cons_self
      have hrest := ih fun hs g hg => h hs g (List.mem_cons_of_mem f hg)
      infer_instance

theorem steady_writeEnum
    (h : strict -> d.Texted Numeral.isShort) :
    Steady strict (writeEnum d) := by
  have hcases := steady_writeCases fun hs => (h hs).properties
  unfold writeEnum
  infer_instance

theorem steady_writeParts
    {fs : List Field}
    (h : strict -> forall f, f ∈ fs -> f.Texted Numeral.isShort) :
    Steady strict (writeParts fs) := by
  fun_induction writeParts fs with
  | case1 => exact steady_pure _
  | case2 f =>
      have htype := Field.steady_type fun hs => h hs f List.mem_cons_self
      infer_instance
  | case3 f fs _ ih =>
      have htype := Field.steady_type fun hs => h hs f List.mem_cons_self
      have hrest := ih fun hs g hg => h hs g (List.mem_cons_of_mem f hg)
      infer_instance

theorem steady_writeMemberType
    (h : strict -> d.Texted Numeral.isShort) :
    Steady strict (writeMemberType d) := by
  have hparts := steady_writeParts fun hs => (h hs).properties
  have htype := Doclet.steady_type h
  unfold writeMemberType
  infer_instance

instance steady_isShape (settings : Settings) (d : Doclet) :
    Steady strict (isShape settings d) := by
  unfold isShape
  infer_instance

theorem steady_writeAlias
    (h : strict -> d.Texted Numeral.isShort)
    (settings : Settings) :
    Steady strict (writeAlias settings d) := by
  have htext (htruthy : d.tsType.truthy = true) :
      Steady strict (textOf d.tsType) :=
    steady_textOf fun hs => Value.exists_eq_str (h hs).tsType htruthy
  have htype := Doclet.steady_type h
  have hsignature := Signature.steady_write h .arrow
  have hbody := Interface.steady_writeBody h settings
  have halias : Steady strict (writeAliasType settings d) := by
    unfold writeAliasType
    split
    · have hts := htext ‹_›
      infer_instance
    · infer_instance
  unfold writeAlias
  infer_instance

theorem steady_writeShape
    (h : strict -> d.Texted Numeral.isShort)
    (settings : Settings) :
    Steady strict (writeShape settings d) := by
  have hlead := steady_writeLead h settings true
  have hwrite := Interface.steady_write h settings
  unfold writeShape
  infer_instance

end Declaration

/-!
## Pieces and documents
-/

namespace Piece

/-- The doclet of a piece. -/
def doclet? : Piece -> Option Doclet
  | field d => some d
  | method d => some d
  | binding d => some d
  | function d => some d
  | enumeration d => some d
  | typeAlias d => some d
  | shape d => some d
  | openClass d => some d
  | closeClass => none
  | openSpace d => some d
  | openCompanion d => some d
  | closeSpace => none

theorem steady_writeCall
    (h : strict -> d.Texted Numeral.isShort) :
    Steady strict (writeCall d) := by
  have hsignature := Signature.steady_write h .function
  unfold writeCall
  infer_instance

theorem steady_writeTyped
    (h : strict -> d.Texted Numeral.isShort) :
    Steady strict (writeTyped d) := by
  have htype := Declaration.steady_writeMemberType h
  unfold writeTyped
  infer_instance

theorem steady_program
    (settings : Settings)
    (k : Piece)
    (h : strict -> forall d, k.doclet? = some d -> d.Texted Numeral.isShort) :
    Steady strict (k.program settings) := by
  cases k with
  | closeClass =>
      unfold program
      infer_instance
  | closeSpace =>
      unfold program
      infer_instance
  | field d =>
      have hd : strict -> d.Texted Numeral.isShort := fun hs => h hs d rfl
      have hlead := Declaration.steady_writeLead hd settings false
      have haccess := Declaration.steady_writeAccess hd
      have htyped := steady_writeTyped hd
      unfold program
      infer_instance
  | method d =>
      have hd : strict -> d.Texted Numeral.isShort := fun hs => h hs d rfl
      have hlead := Declaration.steady_writeLead hd settings false
      have haccess := Declaration.steady_writeAccess hd
      have hcall := steady_writeCall hd
      unfold program
      infer_instance
  | binding d =>
      have hd : strict -> d.Texted Numeral.isShort := fun hs => h hs d rfl
      have hlead := Declaration.steady_writeLead hd settings false
      have htyped := steady_writeTyped hd
      unfold program
      infer_instance
  | function d =>
      have hd : strict -> d.Texted Numeral.isShort := fun hs => h hs d rfl
      have hlead := Declaration.steady_writeLead hd settings false
      have hcall := steady_writeCall hd
      unfold program
      infer_instance
  | enumeration d =>
      have hd : strict -> d.Texted Numeral.isShort := fun hs => h hs d rfl
      have hlead := Declaration.steady_writeLead hd settings false
      have henum := Declaration.steady_writeEnum hd
      unfold program
      infer_instance
  | typeAlias d =>
      exact Declaration.steady_writeAlias (fun hs => h hs d rfl) settings
  | shape d =>
      exact Declaration.steady_writeShape (fun hs => h hs d rfl) settings
  | openClass d =>
      have hd : strict -> d.Texted Numeral.isShort := fun hs => h hs d rfl
      have hhead := Declaration.steady_writeHead hd settings
      have hconstructor := Declaration.steady_writeConstructor hd settings
      have hproperties := Interface.steady_writeProperties settings fun hs =>
          (hd hs).properties
      unfold program
      infer_instance
  | openSpace d =>
      have hlead :=
        Declaration.steady_writeLead (fun hs => h hs d rfl) settings false
      unfold program
      infer_instance
  | openCompanion d =>
      unfold program
      infer_instance

end Piece

theorem steady_writeAll
    {ks : List Piece}
    (settings : Settings)
    (h : strict -> forall k, k ∈ ks -> forall d, k.doclet? = some d ->
      d.Texted Numeral.isShort) :
    Steady strict (writeAll settings ks) := by
  induction ks with
  | nil => exact steady_pure _
  | cons k ks ih =>
      have hfirst := k.steady_program settings fun hs =>
          h hs k List.mem_cons_self
      have hrest := ih fun hs k' hk => h hs k' (List.mem_cons_of_mem k hk)
      unfold writeAll
      infer_instance

namespace Document

instance steady_openModule (name : String) :
    Steady strict (openModule name) := by
  unfold openModule
  infer_instance

instance steady_closeModule : Steady strict closeModule := by
  unfold closeModule
  infer_instance

end Document

end
end Ambient
