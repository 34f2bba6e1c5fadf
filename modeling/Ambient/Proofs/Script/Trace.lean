import Mathlib.Data.List.TakeWhile
import Ambient.Proofs.Script.CommentLines

/-!
# Runs stroke by stroke

A run of the publisher makes one stroke after the other, until it ends or fails.
A page takes all of them.  A file takes a stroke only if it can be encoded: one
that holds a half of a surrogate pair is refused, and ends the run.  The session
remembers what has been written before that, so that it tells what a file holds
although its page has taken the rest as well.
-/

namespace Ambient

open Emit

/-!
## What a file takes
-/

namespace Stroke

/-- The text that a stroke writes. -/
def text : Stroke -> String
  | .write s => s
  | .line s => s
  | .push => ""
  | .pop => ""

/-- A stroke that a file takes. -/
def isWhole (k : Stroke) : Bool := !Text.hasHalf k.text

end Stroke

namespace Page

/-- The text on a page before the first stroke that a file refuses, if there is
one. -/
def refusal? (strokes : List Stroke) (p : Page) : Option String :=
  if strokes.all Stroke.isWhole then none
  else some (p.draw (strokes.takeWhile Stroke.isWhole)).text

@[simp] theorem refusal?_nil (p : Page) : p.refusal? [] = none := rfl

theorem refusal?_cons
    (k : Stroke)
    (strokes : List Stroke)
    (p : Page) :
    p.refusal? (k :: strokes) =
      if k.isWhole then (p.stroke k).refusal? strokes else some p.text := by
  cases hk : k.isWhole <;> simp [refusal?, hk]

theorem refusal?_append
    (strokes strokes' : List Stroke)
    (p : Page) :
    p.refusal? (strokes ++ strokes') =
      (p.refusal? strokes).or ((p.draw strokes).refusal? strokes') := by
  induction strokes generalizing p with
  | nil => simp
  | cons k strokes ih =>
      rw [List.cons_append, refusal?_cons, refusal?_cons]
      split
      · exact ih _
      · rfl

theorem refusal?_singleton
    (k : Stroke)
    (p : Page) :
    p.refusal? [k] = if Text.hasHalf k.text then some p.text else none := by
  rw [refusal?_cons, Stroke.isWhole]
  cases Text.hasHalf k.text <;> rfl

/-- A file takes a comment line by line. -/
theorem textBeforeHalf?_eq_refusal?
    (lines : List String)
    (p : Page) :
    p.textBeforeHalf? lines = p.refusal? (commentStrokes lines) := by
  cases lines with
  | nil => rfl
  | cons line lines =>
      have hblank : (Stroke.line "").isWhole = true := by decide
      have hall : (line :: lines).all (Stroke.isWhole ∘ Stroke.line) =
          !(line :: lines).any Text.hasHalf :=
        List.not_any_eq_all_not.symm
      change _ = p.refusal? (.line "" :: (line :: lines).map .line)
      rw [refusal?_cons, if_pos hblank, refusal?, List.takeWhile_map,
        List.all_map, hall, draw, List.foldl_map, textBeforeHalf?]
      cases (line :: lines).any Text.hasHalf <;> rfl

end Page

/-!
## Sessions
-/

/-- Strokes lead from one session to another: its page has taken them all, and
it remembers what a file held when it refused the first. -/
structure Session.Drawn (s s' : Session) (strokes : List Stroke) : Prop where
  page : s'.page = s.page.draw strokes
  breach : s'.breach.map Breach.text =
    (s.breach.map Breach.text).or (s.page.refusal? strokes)

namespace Session

theorem drawn_of_same
    {s s' : Session}
    (hpage : s'.page = s.page)
    (hbreach : s'.breach = s.breach) :
    s.Drawn s' [] :=
  ⟨hpage, by rw [hbreach, Page.refusal?_nil, Option.or_none]⟩

theorem Drawn.trans
    {s s' s'' : Session} {strokes strokes' : List Stroke}
    (h : s.Drawn s' strokes)
    (h' : s'.Drawn s'' strokes') :
    s.Drawn s'' (strokes ++ strokes') where
  page := by rw [h'.page, h.page, Page.draw_append]
  breach := by
    rw [h'.breach, h.breach, h.page, Page.refusal?_append, Option.or_assoc]

theorem breach_noteBreach
    (text? : Option String)
    (s : Session) :
    (s.noteBreach text?).breach.map Breach.text =
      (s.breach.map Breach.text).or text? := by
  simp [noteBreach, Option.map_or, Function.comp_def]

theorem drawn_noteHalf
    (k : Stroke)
    (s : Session) :
    s.Drawn { s.noteHalf k.text with page := s.page.stroke k } [k] where
  page := rfl
  breach := by
    rw [Page.refusal?_singleton]
    exact breach_noteBreach _ s

end Session

/-!
## Traces
-/

namespace Emit

variable {α β : Type}

/-- The strokes for a comment: those of its lines, or a blank line in its place,
or none. -/
def commentStrokes (settings : Settings) (comment : Value) (spacer : Bool) :
    List Stroke :=
  if comment.truthy && settings.comments then
    Page.commentStrokes (commentLines settings comment)
  else if spacer then [.line ""] else []

/-- The strokes that a run makes from a session until it ends or fails, each
call of a writer being one, and each line of a comment. -/
inductive Makes : {α : Type} -> Emit α -> Session -> List Stroke -> Prop where
  | pure {α s} (a : α) :
      Makes (pure a) s []
  | throw {α s} (fault : Fault) :
      Makes (throw fault : Emit α) s []
  | get {s} :
      Makes get s []
  | note {s} {f : Session -> Session}
      (hpage : (f s).page = s.page)
      (hbreach : (f s).breach = s.breach) :
      Makes (modify f) s []
  | write {s} (fragments : List String) :
      Makes (write fragments) s [.write (String.join fragments)]
  | writeln {s} (fragments : List String) :
      Makes (writeln fragments) s [.line (String.join fragments)]
  | push {s} :
      Makes push s [.push]
  | pop {s} :
      Makes pop s [.pop]
  | comment {s} (settings : Settings) (comment : Value) (spacer : Bool) :
      Makes (writeComment settings comment spacer) s
        (commentStrokes settings comment spacer)
  | bind {α β s s' a strokes strokes'} {x : Emit α} {f : α -> Emit β}
      (hx : Makes x s strokes)
      (hrun : x.run s = .ok a s')
      (hf : Makes (f a) s' strokes') :
      Makes (x >>= f) s (strokes ++ strokes')
  | fault {α β s s' fault strokes} {x : Emit α} {f : α -> Emit β}
      (hx : Makes x s strokes)
      (hrun : x.run s = .error fault s') :
      Makes (x >>= f) s strokes

theorem after_bind_ok
    {x : Emit α} {f : α -> Emit β} {a : α} {s s' : Session}
    (h : x.run s = .ok a s') :
    (x >>= f).after s = (f a).after s' := by
  rw [after, EStateM.run_bind, h]
  rfl

theorem after_bind_error
    {x : Emit α} {f : α -> Emit β} {fault : Fault} {s s' : Session}
    (h : x.run s = .error fault s') :
    (x >>= f).after s = x.after s := by
  rw [after, EStateM.run_bind, h, after, h]

theorem after_of_ok
    {x : Emit α} {a : α} {s s' : Session}
    (h : x.run s = .ok a s') :
    x.after s = s' := by
  rw [after, h]

theorem after_writeComment
    (settings : Settings)
    (comment : Value)
    (spacer : Bool)
    (s : Session) :
    (writeComment settings comment spacer).after s =
      { s.noteBreach (s.page.textBeforeHalf? (commentLines settings comment))
        with
        page :=
          (s.page.writeComment settings.comments comment spacer).toOption.getD
            s.page } := by
  have hrun : (writeComment settings comment spacer).run s =
      (lift (s.page.writeComment settings.comments comment spacer) >>=
        fun page =>
        modify fun s => { s with page := page }).run
          (s.noteBreach
            (s.page.textBeforeHalf? (commentLines settings comment))) :=
    rfl
  rw [after, hrun]
  cases s.page.writeComment settings.comments comment spacer <;> rfl

theorem drawn_writeComment
    (settings : Settings)
    (comment : Value)
    (spacer : Bool)
    (s : Session) :
    s.Drawn ((writeComment settings comment spacer).after s)
      (commentStrokes settings comment spacer) := by
  rw [after_writeComment]
  cases hwritten : comment.truthy && settings.comments with
  | false =>
      have hlines : commentLines settings comment = [] :=
        Page.commentLines_of_missing (Bool.and_comm _ _ ▸ hwritten)
      refine ⟨?_, ?_⟩
      · simp only [Page.writeComment, commentStrokes, hwritten]
        cases spacer <;> rfl
      · refine (Session.breach_noteBreach _ s).trans (congrArg _ ?_)
        rw [hlines, commentStrokes, hwritten]
        cases spacer <;> rfl
  | true =>
      have hstrokes : commentStrokes settings comment spacer =
          Page.commentStrokes (commentLines settings comment) := if_pos hwritten
      rw [hstrokes]
      refine ⟨?_, ?_⟩
      · have hcomments : settings.comments = true :=
          (Bool.and_eq_true_iff.mp hwritten).2
        cases comment with
        | str t =>
            have hlines : commentLines settings (.str t) =
                Page.commentLines t := if_pos hcomments
            have hpage : s.page.writeComment settings.comments (.str t) spacer =
                .ok (s.page.writeLines (Page.commentLines t)) := if_pos hwritten
            rw [hlines, hpage]
            exact Page.writeLines_eq_draw _ _
        | _ =>
            simp only [Page.writeComment, hwritten]
            rfl
      · rw [← Page.textBeforeHalf?_eq_refusal?]
        exact Session.breach_noteBreach _ s

/-- A run leaves the page with its strokes, and remembers what a file holds of
them. -/
theorem Makes.drawn
    {x : Emit α} {s : Session} {strokes : List Stroke}
    (h : Makes x s strokes) :
    s.Drawn (x.after s) strokes := by
  induction h with
  | pure => exact Session.drawn_of_same rfl rfl
  | throw => exact Session.drawn_of_same rfl rfl
  | get => exact Session.drawn_of_same rfl rfl
  | note hpage hbreach => exact Session.drawn_of_same hpage hbreach
  | write fragments =>
      exact Session.drawn_noteHalf (.write (String.join fragments)) _
  | writeln fragments =>
      exact Session.drawn_noteHalf (.line (String.join fragments)) _
  | push => exact ⟨rfl, (Option.or_none).symm⟩
  | pop => exact ⟨rfl, (Option.or_none).symm⟩
  | comment settings comment spacer =>
      exact drawn_writeComment settings comment spacer _
  | bind _ hrun _ ih ih' =>
      rw [after_bind_ok hrun]
      rw [after_of_ok hrun] at ih
      exact ih.trans ih'
  | fault _ hrun ih =>
      rw [after_bind_error hrun]
      exact ih

/-!
## Steps with a trace
-/

/-- A step that makes strokes, from every session. -/
class Traced {α : Type} (x : Emit α) : Prop where
  exists_makes : forall s, exists strokes, Makes x s strokes

instance traced_pure (a : α) : Traced (pure a : Emit α) :=
  ⟨fun _ => ⟨[], .pure a⟩⟩

instance traced_throw (fault : Fault) : Traced (throw fault : Emit α) :=
  ⟨fun _ => ⟨[], .throw fault⟩⟩

instance traced_get : Traced (get : Emit Session) := ⟨fun _ => ⟨[], .get⟩⟩

instance traced_bind (x : Emit α) (f : α -> Emit β) [hx : Traced x]
    [hf : forall a, Traced (f a)] :
    Traced (x >>= f) := by
  constructor
  intro s
  rcases hx.exists_makes s with ⟨strokes, hstrokes⟩
  cases hrun : x.run s with
  | ok a s' =>
      rcases (hf a).exists_makes s' with ⟨strokes', hstrokes'⟩
      exact ⟨strokes ++ strokes', .bind hstrokes hrun hstrokes'⟩
  | error fault s' => exact ⟨strokes, .fault hstrokes hrun⟩

instance traced_ite (c : Prop) [Decidable c] (x y : Emit α) [hx : Traced x]
    [hy : Traced y] :
    Traced (if c then x else y) := by
  split
  · exact hx
  · exact hy

instance traced_write (fragments : List String) : Traced (write fragments) :=
  ⟨fun _ => ⟨_, .write fragments⟩⟩

instance traced_writeln (fragments : List String) :
    Traced (writeln fragments) :=
  ⟨fun _ => ⟨_, .writeln fragments⟩⟩

instance traced_push : Traced push := ⟨fun _ => ⟨_, .push⟩⟩

instance traced_pop : Traced pop := ⟨fun _ => ⟨_, .pop⟩⟩

instance traced_writeComment (settings : Settings) (comment : Value)
    (spacer : Bool) :
    Traced (writeComment settings comment spacer) :=
  ⟨fun _ => ⟨_, .comment settings comment spacer⟩⟩

instance traced_report (notices : List Notice) : Traced (report notices) :=
  ⟨fun _ => ⟨[], .note rfl rfl⟩⟩

instance traced_lift (result : Except Fault α) : Traced (lift result) := by
  cases result with
  | ok a => exact traced_pure a
  | error fault => exact traced_throw fault

instance traced_textOf (v : Value) : Traced (textOf v) := by
  unfold textOf
  split <;> infer_instance

instance traced_typeOf (tsType : Value) (typeNames : List String) :
    Traced (typeOf tsType typeNames) := by
  unfold typeOf
  infer_instance

instance traced_fieldType (f : Field) : Traced (fieldType f) := by
  unfold fieldType
  infer_instance

instance traced_docletType (d : Doclet) : Traced (docletType d) := by
  unfold docletType
  infer_instance

end Emit

/-!
## The writers
-/

namespace Signature

instance traced_collect (d : Doclet) : Traced (collect d) := by
  unfold collect
  infer_instance

instance traced_returnType (d : Doclet) : Traced (returnType d) := by
  unfold returnType
  split
  · infer_instance
  · refine @traced_bind _ _ _ _ inferInstance fun type => ?_
    split <;> infer_instance

instance traced_writeParam (name : String) (param : Param) :
    Traced (writeParam name param) := by
  unfold writeParam
  infer_instance

instance traced_writeParams (params : Keyed Param) :
    Traced (writeParams params) := by
  fun_induction writeParams params with
  | case1 => infer_instance
  | case2 name param => infer_instance
  | case3 name param rest _ ih => infer_instance

instance traced_write (d : Doclet) (form : Form) : Traced (write d form) := by
  unfold write
  cases form <;> infer_instance

end Signature

namespace Interface

instance traced_writeGenerics (d : Doclet) : Traced (writeGenerics d) := by
  unfold writeGenerics
  infer_instance

instance traced_writeProperty (settings : Settings) (f : Field) :
    Traced (writeProperty settings f) := by
  unfold writeProperty
  infer_instance

instance traced_writeProperties (settings : Settings) (fs : List Field) :
    Traced (writeProperties settings fs) := by
  induction fs with
  | nil => exact traced_pure _
  | cons f fs ih =>
      unfold writeProperties
      infer_instance

instance traced_writeBody (settings : Settings) (d : Doclet) :
    Traced (writeBody settings d) := by
  unfold writeBody
  infer_instance

instance traced_write (settings : Settings) (d : Doclet) :
    Traced (write settings d) := by
  unfold write
  infer_instance

end Interface

namespace Declaration

instance traced_writeLead (settings : Settings) (d : Doclet) (spacer : Bool) :
    Traced (writeLead settings d spacer) := by
  unfold writeLead
  infer_instance

instance traced_writeAccess (d : Doclet) : Traced (writeAccess d) := by
  have hstatic : Traced (match d.scope with
      | .str "static" => Emit.write ["static "]
      | _ => pure ()) := by
    split <;> infer_instance
  unfold writeAccess
  infer_instance

instance traced_writeFunction (settings : Settings) (d : Doclet)
    (parent : Option Doclet) :
    Traced (writeFunction settings d parent) := by
  unfold writeFunction
  infer_instance

instance traced_writeConstructor (settings : Settings) (d : Doclet) :
    Traced (writeConstructor settings d) := by
  unfold writeConstructor
  infer_instance

instance traced_writeHeritage (d : Doclet) : Traced (writeHeritage d) := by
  unfold writeHeritage
  split <;> split <;> infer_instance

instance traced_writeHead (settings : Settings) (d : Doclet) :
    Traced (writeHead settings d) := by
  have hrest : Traced (do
      Emit.write [d.name]
      Interface.writeGenerics d
      Emit.write [" "]
      writeHeritage d
      Emit.writeln ["\x7b"]) := by
    infer_instance
  unfold writeHead
  infer_instance

instance traced_writeCase (f : Field) : Traced (writeCase f) := by
  unfold writeCase
  split <;> infer_instance

instance traced_writeCases (fs : List Field) : Traced (writeCases fs) := by
  fun_induction writeCases fs with
  | case1 => infer_instance
  | case2 f => infer_instance
  | case3 f fs _ ih => infer_instance

instance traced_writeEnum (d : Doclet) : Traced (writeEnum d) := by
  unfold writeEnum
  infer_instance

instance traced_writeParts (fs : List Field) : Traced (writeParts fs) := by
  fun_induction writeParts fs with
  | case1 => infer_instance
  | case2 f => infer_instance
  | case3 f fs _ ih => infer_instance

instance traced_writeMemberType (d : Doclet) : Traced (writeMemberType d) := by
  unfold writeMemberType
  infer_instance

instance traced_writeVariable (d : Doclet) (parent : Option Doclet) :
    Traced (writeVariable d parent) := by
  unfold writeVariable
  infer_instance

instance traced_writeMember (settings : Settings) (d : Doclet)
    (parent : Option Doclet) :
    Traced (writeMember settings d parent) := by
  unfold writeMember
  infer_instance

instance traced_writeAliasType (settings : Settings) (d : Doclet) :
    Traced (writeAliasType settings d) := by
  unfold writeAliasType
  infer_instance

instance traced_writeAlias (settings : Settings) (d : Doclet) :
    Traced (writeAlias settings d) := by
  unfold writeAlias
  infer_instance

instance traced_writeShape (settings : Settings) (d : Doclet) :
    Traced (writeShape settings d) := by
  unfold writeShape
  infer_instance

instance traced_writeTypedef (settings : Settings) (e : Entry)
    (parent : Option Doclet) :
    Traced (writeTypedef settings e parent) := by
  have hdefer :
      Traced (modify fun s => { s with deferred := s.deferred ++ [e] }) :=
    ⟨fun _ => ⟨[], .note rfl rfl⟩⟩
  unfold writeTypedef isShape
  infer_instance

section

variable {visit : Visitor}
  [hvisit : forall e parent inside, Traced (visit e parent inside)]

instance traced_visitAll (parent : Doclet) (es : List Entry) :
    Traced (visitAll visit parent es) := by
  induction es with
  | nil => exact traced_pure _
  | cons e es ih =>
      unfold visitAll
      infer_instance

instance traced_visitBody (parent : Doclet) (es : List Entry) :
    Traced (visitBody visit parent es) := by
  induction es with
  | nil => exact traced_pure _
  | cons e es ih =>
      unfold visitBody
      infer_instance

instance traced_writeSpace (d : Doclet) (children : List Entry) :
    Traced (writeSpace visit d children) := by
  unfold writeSpace
  infer_instance

instance traced_writeCompanion (settings : Settings) (d : Doclet)
    (refused : List Entry) :
    Traced (writeCompanion visit settings d refused) := by
  unfold writeCompanion
  infer_instance

instance traced_writeClass (job : Job) (d : Doclet) :
    Traced (writeClass visit job d) := by
  have hrest : Traced (do
      let refused ← visitBody visit d (job.children (some d))
      Emit.pop
      Emit.writeln ["\x7d"]
      writeCompanion visit job.settings d refused) := by
    infer_instance
  unfold writeClass
  infer_instance

instance traced_declare (job : Job) (e : Entry) (parent : Option Doclet) :
    Traced (declare visit job e parent) := by
  unfold declare writeNamespace
  split <;> infer_instance

end

instance traced_noteOffer (o : Offer) : Traced (noteOffer o) :=
  ⟨fun _ => ⟨[], .note rfl rfl⟩⟩

instance traced_noteSeen (e : Entry) : Traced (noteSeen e) :=
  ⟨fun _ => ⟨[], .note rfl rfl⟩⟩

/-- An offer makes strokes as soon as the offers of the children do, so all do
by induction on the fuel. -/
instance traced_offer (job : Job) (fuel : Nat) (e : Entry)
    (parent : Option Doclet)
    (inside : Bool) : Traced (offer job fuel e parent inside) := by
  induction fuel generalizing e parent inside with
  | zero => exact traced_throw _
  | succ fuel ih =>
      unfold offer
      infer_instance

end Declaration

/-!
## Documents
-/

namespace Document

instance traced_visitRoots (job : Job) (es : List Entry) :
    Traced (visitRoots (Declaration.visit job) es) := by
  unfold Declaration.visit
  induction es with
  | nil => exact traced_pure _
  | cons e es ih =>
      unfold visitRoots
      infer_instance

instance traced_writeSome (settings : Settings) (fuel : Nat) :
    Traced (writeSome settings fuel) := by
  induction fuel with
  | zero => exact traced_pure _
  | succ fuel ih =>
      have hnote (rest : List Entry) :
          Traced (modify fun s => { s with deferred := rest }) :=
        ⟨fun _ => ⟨[], .note rfl rfl⟩⟩
      unfold writeSome
      refine @traced_bind _ _ _ _ inferInstance fun s => ?_
      split <;> infer_instance

instance traced_write (job : Job) : Traced (write job) := by
  unfold write writeContent writeRoots writeDeferred openModule closeModule
  split <;> infer_instance

section

variable {settings : Settings} {table : List Doclet} {strokes : List Stroke}

theorem after_write :
    let s := (write (Job.ofTable settings table)).after Session.start
    (publish settings table).text = s.page.text ∧
      (publish settings table).breach = s.breach := by
  unfold publish after
  cases (write (Job.ofTable settings table)).run Session.start
    <;> exact ⟨rfl, rfl⟩

variable (h : Makes (write (Job.ofTable settings table)) Session.start strokes)

include h

theorem text_of_makes :
    (publish settings table).text = (Page.empty.draw strokes).text := by
  rw [after_write.1, h.drawn.page]
  rfl

theorem breach_of_makes :
    (publish settings table).breach.map Breach.text =
      Page.empty.refusal? strokes := by
  rw [after_write.2, h.drawn.breach]
  rfl

theorem encoded_of_whole
    (hwhole : strokes.all Stroke.isWhole = true) :
    (publish settings table).encoded = publish settings table := by
  have hbreach := breach_of_makes h
  rw [Page.refusal?, if_pos hwhole, Option.map_eq_none_iff] at hbreach
  rw [Published.encoded, hbreach]

theorem encoded_of_refused
    (hrefused : strokes.all Stroke.isWhole = false) :
    (publish settings table).encoded.text =
        (Page.empty.draw (strokes.takeWhile Stroke.isWhole)).text ∧
      (publish settings table).encoded.fault = some .halfPair := by
  have hbreach := breach_of_makes h
  rw [Page.refusal?, hrefused, if_neg Bool.false_ne_true,
    Option.map_eq_some_iff] at hbreach
  rcases hbreach with ⟨breach, hbreach, htext⟩
  rw [Published.encoded, hbreach]
  exact ⟨htext, rfl⟩

/-- A file holds what the strokes before the first that it refuses have
written. -/
theorem text_encoded :
    (publish settings table).encoded.text =
      (Page.empty.draw (strokes.takeWhile Stroke.isWhole)).text := by
  cases hall : strokes.all Stroke.isWhole with
  | true =>
      rw [encoded_of_whole h hall, text_of_makes h,
        List.takeWhile_eq_self_iff.mpr (List.all_eq_true.mp hall)]
  | false => exact (encoded_of_refused h hall).1

end

end Document
end Ambient
