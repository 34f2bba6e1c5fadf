import Ambient.Session

/-!
# Runs of the publisher

A step of the publisher is described by how it ends from a state: with an answer
and a next state that meet a condition, or in a fault of an allowed kind.  Most
steps only write.  They are quiet: the record of what has been offered, declared
and put off stays as it is, and they never run out of fuel.
-/

namespace Ambient

/-!
## Endings
-/

namespace Emit

variable {α β : Type} {E : Fault -> Prop} {s : Session}

/-- The run of `x` from `s` ends with an answer and a state that meet `R`, or in
a fault that `E` allows. -/
inductive Ends (E : Fault -> Prop) (x : Emit α) (s : Session)
    (R : α -> Session -> Prop) : Prop where
  | answer {a s'}
      (hrun : x.run s = .ok a s')
      (h : R a s') :
      Ends E x s R
  | fault {fault s'}
      (hrun : x.run s = .error fault s')
      (h : E fault) :
      Ends E x s R

theorem Ends.bind
    {x : Emit α} {f : α -> Emit β} {P : α -> Session -> Prop}
    {R : β -> Session -> Prop}
    (hx : Ends E x s P)
    (hf : forall a s', P a s' -> Ends E (f a) s' R) :
    Ends E (x >>= f) s R := by
  cases hx with
  | answer hrun hP =>
      cases hf _ _ hP with
      | answer hrun' hR =>
          exact .answer (by simp only [EStateM.run_bind, hrun, hrun']) hR
      | fault hrun' hE =>
          exact .fault (by simp only [EStateM.run_bind, hrun, hrun']; rfl) hE
  | fault hrun hE =>
      exact .fault (by simp only [EStateM.run_bind, hrun]; rfl) hE

theorem Ends.mono
    {x : Emit α} {P R : α -> Session -> Prop}
    (hx : Ends E x s P)
    (h : forall a s', P a s' -> R a s') :
    Ends E x s R := by
  cases hx with
  | answer hrun hP => exact .answer hrun (h _ _ hP)
  | fault hrun hE => exact .fault hrun hE

theorem Ends.weaken
    {E' : Fault -> Prop} {x : Emit α} {R : α -> Session -> Prop}
    (hx : Ends E x s R)
    (hE : forall fault, E fault -> E' fault) :
    Ends E' x s R := by
  cases hx with
  | answer hrun hR => exact .answer hrun hR
  | fault hrun hfault => exact .fault hrun (hE _ hfault)

theorem ends_pure
    {R : α -> Session -> Prop} {a : α}
    (h : R a s) :
    Ends E (pure a) s R :=
  .answer rfl h

theorem ends_modify
    {f : Session -> Session} {R : Unit -> Session -> Prop}
    (h : R () (f s)) :
    Ends E (modify f) s R :=
  .answer rfl h

theorem ends_get
    {R : Session -> Session -> Prop}
    (h : R s s) :
    Ends E (get : Emit Session) s R :=
  .answer rfl h

end Emit

/-!
## Quiet steps
-/

/-- Nothing is offered, declared or put off between two states. -/
structure Session.SameRecord (s s' : Session) : Prop where
  seen : s'.seen = s.seen
  offers : s'.offers = s.offers
  deferred : s'.deferred = s.deferred

theorem Session.SameRecord.refl (s : Session) : s.SameRecord s :=
  ⟨rfl, rfl, rfl⟩

theorem Session.SameRecord.trans
    {s s' s'' : Session}
    (h : s.SameRecord s')
    (h' : s'.SameRecord s'') :
    s.SameRecord s'' :=
  ⟨h'.seen.trans h.seen, h'.offers.trans h.offers, h'.deferred.trans h.deferred⟩

namespace Emit

/-- A step that keeps the record and does not run out of fuel. -/
class Quiet {α : Type} (x : Emit α) : Prop where
  ends : forall s, Ends (· ≠ .endless) x s fun _ s' => s.SameRecord s'

variable {α β : Type}

instance quiet_pure (a : α) : Quiet (pure a : Emit α) :=
  ⟨fun s => .answer rfl (.refl s)⟩

instance quiet_get : Quiet (get : Emit Session) :=
  ⟨fun s => .answer rfl (.refl s)⟩

instance quiet_bind (x : Emit α) (f : α -> Emit β) [hx : Quiet x]
    [hf : forall a, Quiet (f a)] :
    Quiet (x >>= f) where
  ends s := (hx.ends s).bind fun a s' h => ((hf a).ends s').mono fun _ _ h' =>
    h.trans h'

instance quiet_ite (c : Prop) [Decidable c] (x y : Emit α) [hx : Quiet x]
    [hy : Quiet y] :
    Quiet (if c then x else y) := by
  split
  · exact hx
  · exact hy

theorem quiet_throw
    {fault : Fault}
    (h : fault ≠ .endless) :
    Quiet (throw fault : Emit α) :=
  ⟨fun _ => .fault rfl h⟩

theorem quiet_modify
    {f : Session -> Session}
    (h : forall s : Session, s.SameRecord (f s)) :
    Quiet (modify f : Emit Unit) :=
  ⟨fun s => ends_modify (h s)⟩

theorem quiet_lift
    {result : Except Fault α}
    (h : result ≠ .error .endless) :
    Quiet (lift result) := by
  cases result with
  | ok a => exact quiet_pure a
  | error fault =>
      exact quiet_throw fun hfault => h (congrArg Except.error hfault)

instance quiet_onPage (f : Page -> Page) : Quiet (onPage f) :=
  quiet_modify fun _ => ⟨rfl, rfl, rfl⟩

instance quiet_noteHalf (text : String) :
    Quiet (modify (Session.noteHalf text)) :=
  quiet_modify fun _ => ⟨rfl, rfl, rfl⟩

instance quiet_noteBreach (text? : Option String) :
    Quiet (modify (Session.noteBreach text?)) :=
  quiet_modify fun _ => ⟨rfl, rfl, rfl⟩

instance quiet_write (fragments : List String) : Quiet (write fragments) := by
  unfold write
  infer_instance

instance quiet_writeln (fragments : List String) :
    Quiet (writeln fragments) := by
  unfold writeln
  infer_instance

instance quiet_push : Quiet push := quiet_onPage _

instance quiet_pop : Quiet pop := quiet_onPage _

instance quiet_report (notices : List Notice) : Quiet (report notices) :=
  quiet_modify fun _ => ⟨rfl, rfl, rfl⟩

theorem writeComment_ne_endless
    (comments : Bool)
    (comment : Value)
    (spacer : Bool)
    (p : Page) :
    p.writeComment comments comment spacer ≠ .error .endless := by
  unfold Page.writeComment
  split
  · cases comment <;> simp
  · simp

instance quiet_writeComment (settings : Settings) (comment : Value)
    (spacer : Bool) :
    Quiet (writeComment settings comment spacer) := by
  have hlift (p : Page) :=
    quiet_lift (writeComment_ne_endless settings.comments comment spacer p)
  have hpage (p : Page) : Quiet (modify fun s => { s with page := p }) :=
    quiet_onPage fun _ => p
  unfold writeComment
  infer_instance

instance quiet_textOf (v : Value) : Quiet (textOf v) := by
  unfold textOf
  split
  · exact quiet_pure _
  · exact quiet_throw (by decide)

instance quiet_typeOf (tsType : Value) (typeNames : List String) :
    Quiet (typeOf tsType typeNames) := by
  unfold typeOf
  infer_instance

instance quiet_fieldType (f : Field) : Quiet (fieldType f) := by
  unfold fieldType
  infer_instance

instance quiet_docletType (d : Doclet) : Quiet (docletType d) := by
  unfold docletType
  infer_instance

end Emit
end Ambient
