import Mathlib.Data.List.Forall2
import Ambient.Proofs.Script.Wrapping
import Ambient.Proofs.Twin.Steady

/-!
# Runs in step

Two runs of the publisher are in step if each does what the other does: they end
in the same way, and the sessions look the same after it.  Two jobs are run in
step as soon as the roots of one match those of the other and the children of
matching containers match again.  The doclets need not be the same, if only the
change from one to the other does not show in what is written of them.
-/

namespace Ambient

open Emit Declaration

/-!
## Two sessions
-/

/-- The same long names are declared in two sessions.  If they have the same
history, they also look the same and have put off the same interfaces, up to a
change of the doclets. -/
structure Session.Alike (f : Doclet -> Doclet) (same : Prop) (s s' : Session) :
    Prop where
  seen : forall name, s'.seen.has name = s.seen.has name
  view : same -> s.SameView s'
  queue : same -> s'.deferred.map Entry.doclet = s.deferred.map fun e =>
    f e.doclet

/-- What has been declared, put off and offered is not seen from outside. -/
theorem Session.SameView.record
    {s s' : Session}
    (h : s.SameView s')
    (seen seen' : Keyed Entry)
    (deferred deferred' : List Entry)
    (offers offers' : List Offer) :
    SameView { s with seen := seen, deferred := deferred, offers := offers }
      { s' with seen := seen', deferred := deferred', offers := offers' } :=
  ⟨h.page, h.notices, h.breach⟩

theorem Session.Alike.of_sameRecord
    {f : Doclet -> Doclet} {same : Prop} {s s' t t' : Session}
    (h : s.Alike f same s')
    (ht : s.SameRecord t)
    (ht' : s'.SameRecord t')
    (hview : same -> t.SameView t') :
    t.Alike f same t' := by
  constructor
  · rw [ht.seen, ht'.seen]
    exact h.seen
  · exact hview
  · rw [ht.deferred, ht'.deferred]
    exact h.queue

namespace Emit

variable {α β α' β' : Type} {f : Doclet -> Doclet} {same : Prop}

/-- The runs of `x` and `y` from two sessions end alike. -/
inductive EndAlike (f : Doclet -> Doclet) (same : Prop) (x : Emit α)
    (y : Emit β) (s s' : Session)
    (R : α -> β -> Prop) : Prop where
  | answer {a b t t'}
      (hx : x.run s = .ok a t)
      (hy : y.run s' = .ok b t')
      (hR : R a b)
      (halike : t.Alike f same t') :
      EndAlike f same x y s s' R
  | fault {fault t t'}
      (hx : x.run s = .error fault t)
      (hy : y.run s' = .error fault t')
      (hview : same -> t.SameView t') :
      EndAlike f same x y s s' R

theorem EndAlike.of_run
    {x x₀ : Emit α} {y y₀ : Emit β} {s s' t t' : Session} {R : α -> β -> Prop}
    (h : EndAlike f same x₀ y₀ t t' R)
    (hx : x.run s = x₀.run t)
    (hy : y.run s' = y₀.run t') :
    EndAlike f same x y s s' R := by
  cases h with
  | answer hx₀ hy₀ hR halike =>
      exact .answer (hx.trans hx₀) (hy.trans hy₀) hR halike
  | fault hx₀ hy₀ hview => exact .fault (hx.trans hx₀) (hy.trans hy₀) hview

theorem EndAlike.mono
    {x : Emit α} {y : Emit β} {s s' : Session} {P R : α -> β -> Prop}
    (h : EndAlike f same x y s s' P)
    (hR : forall a b, P a b -> R a b) :
    EndAlike f same x y s s' R := by
  cases h with
  | answer hx hy hP halike => exact .answer hx hy (hR _ _ hP) halike
  | fault hx hy hview => exact .fault hx hy hview

/-- From sessions that are alike, `x` and `y` are run in step. -/
def InStep (f : Doclet -> Doclet) (same : Prop) (x : Emit α) (y : Emit β)
    (R : α -> β -> Prop) :
    Prop :=
  forall s s' : Session, s.Alike f same s' -> EndAlike f same x y s s' R

theorem InStep.bind
    {x : Emit α} {y : Emit β} {g : α -> Emit α'} {g' : β -> Emit β'}
    {P : α -> β -> Prop} {R : α' -> β' -> Prop}
    (hx : InStep f same x y P)
    (hg : forall a b, P a b -> InStep f same (g a) (g' b) R) :
    InStep f same (x >>= g) (y >>= g') R := by
  intro s s' h
  cases hx s s' h with
  | @fault fault t t' hx hy hview =>
      have hbind : (x >>= g).run s = .error fault t := by
        rw [EStateM.run_bind, hx]
      have hbind' : (y >>= g').run s' = .error fault t' := by
        rw [EStateM.run_bind, hy]
      exact .fault hbind hbind' hview
  | @answer a b t t' hx hy hP halike =>
      have hbind : (x >>= g).run s = (g a).run t := by rw [EStateM.run_bind, hx]
      have hbind' : (y >>= g').run s' = (g' b).run t' := by
        rw [EStateM.run_bind, hy]
      exact (hg a b hP t t' halike).of_run hbind hbind'

theorem inStep_pure
    {R : α -> β -> Prop} {a : α} {b : β}
    (h : R a b) :
    InStep f same (pure a) (pure b) R :=
  fun _ _ halike => .answer rfl rfl h halike

theorem inStep_throw
    {R : α -> β -> Prop}
    (fault : Fault) :
    InStep f same (throw fault) (throw fault) R :=
  fun _ _ halike => .fault rfl rfl halike.view

theorem inStep_modify
    {g g' : Session -> Session}
    (h : forall s s', s.Alike f same s' -> (g s).Alike f same (g' s')) :
    InStep f same (modify g) (modify g') fun _ _ => True :=
  fun s s' halike => .answer rfl rfl trivial (h s s' halike)

/-- A writer is in step with itself. -/
theorem inStep_writer
    {x : Emit α}
    (hperforms : exists strokes result, Performs x strokes result)
    (hsteady : Steady False x) :
    InStep f same x x Eq := by
  intro s s' h
  rcases hperforms with ⟨strokes, result, hperforms⟩
  rcases hperforms s with ⟨t, hrun, -, hrecord⟩
  rcases hperforms s' with ⟨t', hrun', -, hrecord'⟩
  have hview : same -> t.SameView t' := by
    intro hsame
    rcases hsteady.runs s s' (h.view hsame) with
      ⟨result', u, u', hu, hu', hview, -⟩
    rw [hrun] at hu
    rw [hrun'] at hu'
    cases result <;> cases result' <;> cases hu <;> cases hu' <;> exact hview
  cases result with
  | ok a =>
      exact .answer hrun hrun' rfl (h.of_sameRecord hrecord hrecord' hview)
  | error fault => exact .fault hrun hrun' hview

theorem inStep_report
    (notices : List Notice) :
    InStep f same (report notices) (report notices) Eq :=
  inStep_writer ⟨_, _, performs_report notices⟩ inferInstance

end Emit

/-!
## Declarations in step
-/

section

variable {settings settings' : Settings} {f : Doclet -> Doclet} {same : Prop}
  {Q : Entry -> Entry -> Prop} {visit visit' : Visitor}

theorem inStep_writeAll
    (settings : Settings)
    (ks : List Piece) :
    InStep f same (writeAll settings ks) (writeAll settings ks) Eq :=
  inStep_writer (exists_performs_writeAll settings ks)
    (steady_writeAll settings False.elim)

theorem inStep_noteOffer (o o' : Offer) :
    InStep f same (noteOffer o) (noteOffer o') fun _ _ => True :=
  inStep_modify fun _ _ h => ⟨h.seen, fun hs => (h.view hs).record .., h.queue⟩

theorem inStep_noteSeen
    {e e' : Entry}
    (hname : e'.longname = e.longname) :
    InStep f same (noteSeen e) (noteSeen e') fun _ _ => True := by
  apply inStep_modify
  intro s s' h
  refine ⟨?_, fun hs => (h.view hs).record .., h.queue⟩
  intro name
  show (s'.seen.put e'.longname e').has name =
    (s.seen.put e.longname e).has name
  rw [hname]
  exact Keyed.has_put_congr h.seen _ _ _ name

theorem inStep_prepare
    {e e' : Entry} {parent parent' : Option Doclet}
    (hf : Faithful settings settings' f)
    (he : e'.doclet = f e.doclet)
    (hparent : e.doclet.isContainer = false ->
      isInClass parent' = isInClass parent) :
    InStep f same (prepare settings e parent) (prepare settings' e' parent')
      fun _ _ => True := by
  unfold prepare
  rw [he, hf.role]
  cases hrole : e.doclet.role with
  | typedef =>
      have hclass := hparent (by
        simp [Doclet.isContainer, Doclet.isClassLike, Doclet.isNamespace,
          hrole])
      dsimp only
      rw [hf.isShape, hf.longname, hclass]
      refine (inStep_writer ⟨_, _, performs_isShape settings e.doclet⟩
        inferInstance).bind ?_
      rintro shape _ rfl
      split
      · refine (inStep_report _).bind fun _ _ _ =>
          inStep_modify fun s s' h => ?_
        refine ⟨h.seen, fun hs => (h.view hs).record .., ?_⟩
        intro hs
        simp [h.queue hs, he]
      · exact inStep_pure trivial
  | unknown =>
      dsimp only
      rw [hf.longname, hf.kind]
      exact fun s s' h => (inStep_report _ s s' h).mono fun _ _ _ => trivial
  | _ => exact inStep_pure trivial

theorem inStep_visitBody
    {d d' : Doclet} {es es' : List Entry}
    (hes : List.Forall₂ Q es es')
    (hvisit : forall e e', Q e e' ->
      InStep f same (visit e (some d) true) (visit' e' (some d') true) Eq) :
    InStep f same (visitBody visit d es) (visitBody visit' d' es')
      (List.Forall₂ Q) := by
  induction hes with
  | nil => exact inStep_pure .nil
  | cons he _ ih =>
      refine (hvisit _ _ he).bind ?_
      rintro taken _ rfl
      refine ih.bind fun refused refused' hrefused => ?_
      cases taken with
      | true => exact inStep_pure hrefused
      | false => exact inStep_pure (.cons he hrefused)

theorem inStep_visitAll
    {d d' : Doclet} {es es' : List Entry}
    (hes : List.Forall₂ Q es es')
    (hvisit : forall e e', Q e e' ->
      InStep f same (visit e (some d) false) (visit' e' (some d') false) Eq) :
    InStep f same (visitAll visit d es) (visitAll visit' d' es') fun _ _ =>
      True := by
  induction hes with
  | nil => exact inStep_pure trivial
  | cons he _ ih => exact (hvisit _ _ he).bind fun _ _ _ => ih

/-- The entries of two jobs that match: the doclet of the one is that of the
other after a change, and if they are containers, their children match. -/
structure Matching (f : Doclet -> Doclet) (job job' : Job)
    (Q : Entry -> Entry -> Prop) : Prop where
  doclet : forall e e', Q e e' -> e'.doclet = f e.doclet
  children : forall e e', Q e e' -> e.doclet.isContainer = true ->
    List.Forall₂ Q (job.children (some e.doclet))
      (job'.children (some e'.doclet))

theorem Entry.forall₂_of_map_doclet
    {es es' : List Entry}
    (h : es'.map Entry.doclet = es.map fun e => f e.doclet) :
    List.Forall₂ (fun e e' => e'.doclet = f e.doclet) es es' := by
  have hsame : List.Forall₂ (fun d d' => d' = d) (es.map fun e => f e.doclet)
      (es'.map Entry.doclet) := by
    rw [h]
    exact List.forall₂_same.mpr fun _ _ => rfl
  rwa [List.forall₂_map_left_iff, List.forall₂_map_right_iff] at hsame

end

section

variable {job job' : Job} {f : Doclet -> Doclet} {same : Prop}
  {Q : Entry -> Entry -> Prop} {visit visit' : Visitor} {e e' : Entry}

theorem Matching.bodyOf
    (h : Matching f job job' Q)
    (hf : Faithful job.settings job'.settings f)
    (he : Q e e') :
    List.Forall₂ Q (job.bodyOf e) (job'.bodyOf e') := by
  unfold Job.bodyOf
  rw [h.doclet e e' he, hf.role]
  split
  · rename_i hrole
    rw [← h.doclet e e' he]
    exact h.children e e' he
      (by simp [Doclet.isContainer, Doclet.isClassLike, hrole])
  · exact .nil

theorem Matching.spaceOf
    {hoisted hoisted' : List Entry}
    (h : Matching f job job' Q)
    (hf : Faithful job.settings job'.settings f)
    (he : Q e e')
    (hhoisted : List.Forall₂ Q hoisted hoisted') :
    List.Forall₂ Q (job.spaceOf e hoisted) (job'.spaceOf e' hoisted') := by
  unfold Job.spaceOf
  rw [h.doclet e e' he, hf.role]
  split
  · rename_i hrole
    rw [← h.doclet e e' he]
    exact h.children e e' he
      (by simp [Doclet.isContainer, Doclet.isNamespace, hrole])
  · exact hhoisted

@[simp] theorem Job.bodyOf_settled (job : Job) (e : Entry) :
    job.bodyOf e.settled = job.bodyOf e := by
  simp [bodyOf]

@[simp] theorem Job.spaceOf_settled
    (job : Job)
    (e : Entry)
    (hoisted : List Entry) :
    job.spaceOf e.settled hoisted = job.spaceOf e hoisted := by
  simp [spaceOf]

theorem Doclet.isContainer_settle (d : Doclet) :
    d.settle.isContainer = d.isContainer := by
  simp [isContainer, isClassLike, isNamespace]

/-- Matching entries are declared in step if their children are offered in
step. -/
theorem inStep_declare
    {parent parent' : Option Doclet}
    (h : Matching f job job' Q)
    (hf : Faithful job.settings job'.settings f)
    (he : Q e e')
    (hparent : e.doclet.isContainer = false ->
      isInClass parent' = isInClass parent)
    (hvisit : forall c c' inside, Q c c' ->
      InStep f same (visit c (some e.settled.doclet) inside)
        (visit' c' (some e'.settled.doclet) inside) Eq) :
    InStep f same (declare visit job e.settled parent)
      (declare visit' job' e'.settled parent')
      fun _ _ => True := by
  have hdoclet : e'.settled.doclet = f e.settled.doclet := by
    rw [Entry.settled_doclet, h.doclet e e' he, hf.settle, Entry.settled_doclet]
  have hparent' : e.settled.doclet.isContainer = false ->
      isInClass parent' = isInClass parent := by
    rw [Entry.settled_doclet, Doclet.isContainer_settle]
    exact hparent
  rw [declare_eq, declare_eq]
  refine (inStep_prepare hf hdoclet hparent').bind fun _ _ _ => ?_
  rw [hdoclet, hf.opening hparent', hf.writeAll, ← hdoclet]
  refine (inStep_writeAll job.settings _).bind fun _ _ _ => ?_
  rw [Job.bodyOf_settled, Job.bodyOf_settled]
  refine (inStep_visitBody (h.bodyOf hf he) fun c c' hc =>
    hvisit c c' true hc).bind ?_
  intro hoisted hoisted' hhoisted
  have hempty : hoisted'.isEmpty = hoisted.isEmpty := by
    cases hhoisted <;> rfl
  rw [hdoclet, hf.turn e.settled.doclet hempty,
    hf.closing e.settled.doclet hempty, hf.writeAll, hf.writeAll, ← hdoclet,
    Job.spaceOf_settled, Job.spaceOf_settled]
  refine (inStep_writeAll job.settings _).bind fun _ _ _ => ?_
  refine (inStep_visitAll (h.spaceOf hf he hhoisted) fun c c' hc =>
    hvisit c c' false hc).bind ?_
  intro _ _ _ s s' halike
  exact (inStep_writeAll job.settings _ s s' halike).mono fun _ _ _ => trivial

/-- What an offer does when it is known whether the long name has been declared
before. -/
def Declaration.respond (visit : Visitor) (job : Job) (e : Entry)
    (parent : Option Doclet)
    (inside known : Bool) : Emit Bool :=
  if known then do
    noteOffer ⟨e, parent, inside, .known⟩
    return true
  else if inside && e.doclet.isDetached then do
    noteOffer ⟨e, parent, inside, .refused⟩
    report [.moved e.doclet.longname]
    return false
  else do
    noteOffer ⟨e, parent, inside, .declared⟩
    declare visit job e parent
    noteSeen e
    return true

theorem Declaration.run_offer_succ
    (job : Job)
    (fuel : Nat)
    (e : Entry)
    (parent : Option Doclet)
    (inside : Bool)
    (s : Session) :
    (offer job (fuel + 1) e parent inside).run s =
      (respond (offer job fuel) job e.settled parent inside
        (s.seen.has e.longname)).run s := by
  rw [← e.longname_settled]
  unfold offer respond
  rfl

/-- Matching entries are offered in step, by induction on the fuel. -/
theorem inStep_offer
    (h : Matching f job job' Q)
    (hf : Faithful job.settings job'.settings f)
    (fuel : Nat)
    {parent parent' : Option Doclet}
    (he : Q e e')
    (hparent : e.doclet.isContainer = false ->
      isInClass parent' = isInClass parent)
    (inside : Bool) :
    InStep f same (offer job fuel e parent inside)
      (offer job' fuel e' parent' inside) Eq := by
  induction fuel generalizing e e' parent parent' inside with
  | zero => exact inStep_throw .endless
  | succ fuel ih =>
      have hdoclet := h.doclet e e' he
      have hvisit (c c' : Entry) (inside : Bool) (hc : Q c c') :
          InStep f same (offer job fuel c (some e.settled.doclet) inside)
            (offer job' fuel c' (some e'.settled.doclet) inside) Eq := by
        refine ih hc (fun _ => ?_) inside
        rw [Entry.settled_doclet, hdoclet, hf.settle]
        exact hf.isInClass e.doclet.settle
      intro s s' halike
      have hname : e'.settled.doclet.longname = e.settled.doclet.longname := by
        simp [hdoclet, hf.longname]
      have hdetached : e'.settled.doclet.isDetached =
          e.settled.doclet.isDetached := by
        simp [hdoclet, hf.isDetached]
      have hknown : s'.seen.has e'.longname = s.seen.has e.longname := by
        rw [halike.seen, Entry.longname, hdoclet, hf.longname]
      have hrespond : InStep f same
          (respond (offer job fuel) job e.settled parent inside
            (s.seen.has e.longname))
          (respond (offer job' fuel) job' e'.settled parent' inside
            (s'.seen.has e'.longname))
          Eq := by
        unfold respond
        rw [hname, hdetached, hknown]
        split
        · exact (inStep_noteOffer _ _).bind fun _ _ _ => inStep_pure rfl
        · split
          · refine (inStep_noteOffer _ _).bind fun _ _ _ => ?_
            exact (inStep_report _).bind fun _ _ _ => inStep_pure rfl
          · refine (inStep_noteOffer _ _).bind fun _ _ _ => ?_
            refine (inStep_declare h hf he hparent hvisit).bind fun _ _ _ => ?_
            exact (inStep_noteSeen hname).bind fun _ _ _ => inStep_pure rfl
      exact (hrespond s s' halike).of_run (run_offer_succ ..)
        (run_offer_succ ..)

end

/-!
## Documents in step
-/

namespace Document

/-- Writes a document with a way to offer its roots. -/
def writeWith (visit : Visitor) (job : Job) : Emit Unit := do
  writeHeader job.settings
  visitRoots visit (job.children none)
  let deferred ← writeDeferred job.settings
  Emit.report [.published (job.children none).length deferred]
  writeFooter job.settings

theorem write_eq_writeWith (job : Job) :
    write job = writeWith (Declaration.visit job) job := by
  rw [write_eq]
  unfold writeRoots writeWith
  simp only [bind_assoc, pure_bind]

/-- What becomes of a document that is written by `x`. -/
def publishBy (x : Emit Unit) : Published :=
  match x.run Session.start with
  | .ok _ s => ⟨s.page.text, s.notices, none, s.breach⟩
  | .error fault s => ⟨s.page.text, s.notices, some fault, s.breach⟩

theorem publish_eq_publishBy
    (settings : Settings)
    (table : List Doclet) :
    publish settings table =
      publishBy (writeWith (Declaration.visit (Job.ofTable settings table))
        (Job.ofTable settings table)) := by
  rw [← write_eq_writeWith]
  rfl

theorem publishBy_eq_of_inStep
    {f : Doclet -> Doclet} {x y : Emit Unit} {R : Unit -> Unit -> Prop}
    (h : InStep f True x y R) :
    publishBy y = publishBy x := by
  have hstart : Session.start.Alike f True Session.start :=
    ⟨fun _ => rfl, fun _ => ⟨rfl, rfl, rfl⟩, fun _ => rfl⟩
  unfold publishBy
  cases h Session.start Session.start hstart with
  | answer hx hy _ halike =>
      have hview := halike.view trivial
      simp only [hx, hy, hview.page, hview.notices, hview.breach]
  | fault hx hy hview =>
      simp only [hx, hy, (hview trivial).page, (hview trivial).notices,
        (hview trivial).breach]

section

variable {settings settings' : Settings} {job job' : Job} {f : Doclet -> Doclet}
  {Q : Entry -> Entry -> Prop} {visit visit' : Visitor}

theorem inStep_visitRoots
    {es es' : List Entry}
    (hes : List.Forall₂ Q es es')
    (hvisit : forall e e', Q e e' ->
      InStep f True (visit e none false) (visit' e' none false) Eq) :
    InStep f True (visitRoots visit es) (visitRoots visit' es') fun _ _ =>
      True := by
  induction hes with
  | nil => exact inStep_pure trivial
  | cons he _ ih => exact (hvisit _ _ he).bind fun _ _ _ => ih

/-- Writes the interfaces of a queue that is put in place of what was put off,
as far as the fuel lasts. -/
def drain (settings : Settings) (fuel : Nat) : List Entry -> Emit Nat
  | [] => return 0
  | e :: queue => do
      modify fun s => { s with deferred := queue }
      writeShape settings e.doclet
      return (← writeSome settings fuel) + 1

theorem run_writeSome_succ
    (settings : Settings)
    (fuel : Nat)
    (s : Session) :
    (writeSome settings (fuel + 1)).run s =
      (drain settings fuel s.deferred).run s := by
  unfold writeSome drain
  rfl

theorem inStep_drain
    {fuel : Nat} {queue queue' : List Entry}
    (hf : Faithful settings settings' f)
    (hqueue : queue'.map Entry.doclet = queue.map fun e => f e.doclet)
    (hlater : InStep f True (writeSome settings fuel)
      (writeSome settings' fuel) Eq) :
    InStep f True (drain settings fuel queue) (drain settings' fuel queue')
      Eq := by
  cases queue with
  | nil =>
      rw [List.map_nil, List.map_eq_nil_iff] at hqueue
      rw [hqueue]
      exact inStep_pure rfl
  | cons e queue =>
      rw [List.map_cons, List.map_eq_cons_iff] at hqueue
      rcases hqueue with ⟨e', queue', rfl, he, htail⟩
      have hshape : writeShape settings' e'.doclet =
          writeShape settings e.doclet := by
        rw [he]
        exact hf.program (.shape e.doclet)
      have hwriter : InStep f True (writeShape settings e.doclet)
          (writeShape settings e.doclet) Eq :=
        inStep_writer ((Piece.shape e.doclet).exists_performs settings)
          (steady_writeShape False.elim settings)
      rw [drain, drain, hshape]
      refine (inStep_modify fun s s' h => ?_).bind fun _ _ _ =>
        hwriter.bind fun _ _ _ => ?_
      · exact ⟨h.seen, fun hs => (h.view hs).record .., fun _ => htail⟩
      · refine hlater.bind ?_
        rintro count _ rfl
        exact inStep_pure rfl

theorem inStep_writeSome
    (hf : Faithful settings settings' f)
    (fuel : Nat) :
    InStep f True (writeSome settings fuel) (writeSome settings' fuel) Eq := by
  induction fuel with
  | zero => exact inStep_pure rfl
  | succ fuel ih =>
      intro s s' h
      have hdrain := inStep_drain hf (h.queue trivial) ih
      exact (hdrain s s' h).of_run (run_writeSome_succ ..)
        (run_writeSome_succ ..)

theorem inStep_writeDeferred
    (hf : Faithful settings settings' f) :
    InStep f True (writeDeferred settings) (writeDeferred settings') Eq := by
  intro s s' h
  have hlength : s'.deferred.length = s.deferred.length := by
    simpa using congrArg List.length (h.queue trivial)
  have hsome := inStep_writeSome hf s.deferred.length s s' h
  refine hsome.of_run rfl ?_
  rw [← hlength]
  rfl

theorem inStep_writeHeader
    (settings : Settings) :
    InStep f True (writeHeader settings) (writeHeader settings) Eq := by
  unfold writeHeader
  cases settings.module with
  | none => exact inStep_pure rfl
  | some m =>
      cases m with
      | str name =>
          simp only [textOf, pure_bind]
          exact inStep_writer ⟨_, _, performs_openModule name⟩ inferInstance
      | _ => exact inStep_throw .nonText

theorem inStep_writeFooter
    (settings : Settings) :
    InStep f True (writeFooter settings) (writeFooter settings) Eq := by
  unfold writeFooter
  split
  · exact inStep_writer ⟨_, _, performs_closeModule⟩ inferInstance
  · exact inStep_pure rfl

/-- Documents are written in step if their roots are offered in step. -/
theorem inStep_writeWith
    (hf : Faithful job.settings job'.settings f)
    (hmodule : job'.settings.module = job.settings.module)
    (hroots : List.Forall₂ Q (job.children none) (job'.children none))
    (hvisit : forall e e', Q e e' ->
      InStep f True (visit e none false) (visit' e' none false) Eq) :
    InStep f True (writeWith visit job) (writeWith visit' job') Eq := by
  have hheader : writeHeader job'.settings = writeHeader job.settings := by
    rw [writeHeader, hmodule, writeHeader]
  have hfooter : writeFooter job'.settings = writeFooter job.settings := by
    rw [writeFooter, hmodule, writeFooter]
  unfold writeWith
  rw [hheader, hfooter, ← hroots.length_eq]
  refine (inStep_writeHeader job.settings).bind fun _ _ _ => ?_
  refine (inStep_visitRoots hroots hvisit).bind fun _ _ _ => ?_
  refine (inStep_writeDeferred hf).bind ?_
  rintro count _ rfl
  exact (inStep_report _).bind fun _ _ _ => inStep_writeFooter job.settings

end

end Document

end Ambient
