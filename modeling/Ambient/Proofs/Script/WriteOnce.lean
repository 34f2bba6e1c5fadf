import Ambient.Proofs.Script.Course

/-!
# Records that are written once

A declared entry is recorded under its long name after its children have been
visited.  Until then its name counts as free, so a descendant of the same name
is declared and recorded as well, and its record is replaced when the ancestor
is done.  Nothing else is ever replaced: a run writes each record once if and
only if it declares no long name twice.

That a run never writes over a record is said without a trace of the run:
nothing about it changes if entries are recorded in another way wherever there
is a record already.
-/

namespace Ambient

open Emit Declaration

/-!
## Other ways to record
-/

namespace Declaration

/-- Offers an entry like `offer`, with another way to record it when it is
declared. -/
def offerWith (record : Entry -> Emit Unit) (job : Job) : Nat -> Visitor
  | 0, _, _, _ => throw .endless
  | fuel + 1, e, parent, insideClass => do
      let e : Entry := { e with doclet := e.doclet.settle }
      let known := (← get).seen.has e.doclet.longname
      if known then
        noteOffer ⟨e, parent, insideClass, .known⟩
        return true
      else if insideClass && e.doclet.isDetached then
        noteOffer ⟨e, parent, insideClass, .refused⟩
        Emit.report [.moved e.doclet.longname]
        return false
      else
        noteOffer ⟨e, parent, insideClass, .declared⟩
        declare (offerWith record job fuel) job e parent
        record e
        return true

theorem offerWith_noteSeen (job : Job) (fuel : Nat) :
    offerWith noteSeen job fuel = offer job fuel := by
  induction fuel with
  | zero => rfl
  | succ fuel ih =>
      funext e parent inside
      rw [offerWith, offer, ih]

theorem run_offerWith_succ
    (record : Entry -> Emit Unit)
    (job : Job)
    (fuel : Nat)
    (e : Entry)
    (parent : Option Doclet)
    (inside : Bool)
    (s : Session) :
    (offerWith record job (fuel + 1) e parent inside).run s =
      EStateM.run
        (if s.seen.has e.settled.longname then do
          noteOffer ⟨e.settled, parent, inside, .known⟩
          return true
        else if inside && e.settled.doclet.isDetached then do
          noteOffer ⟨e.settled, parent, inside, .refused⟩
          Emit.report [.moved e.settled.longname]
          return false
        else do
          noteOffer ⟨e.settled, parent, inside, .declared⟩
          declare (offerWith record job fuel) job e.settled parent
          record e.settled
          return true) s := by
  rw [offerWith]
  rfl

/-- A way to record an entry that is the usual one as long as there is no record
of its name. -/
def RecordsFresh (record : Entry -> Emit Unit) : Prop :=
  forall e s, s.seen.has e.longname = false ->
    (record e).run s = (noteSeen e).run s

/-- Records an entry, and fails if there is a record of its name. -/
def recordOnce (e : Entry) : Emit Unit := do
  if (← get).seen.has e.longname then throw .endless else noteSeen e

theorem recordsFresh_recordOnce : RecordsFresh recordOnce := by
  intro e s hfresh
  change (if s.seen.has e.longname = true then throw .endless
    else noteSeen e : Emit Unit).run s = _
  rw [hfresh]
  rfl

theorem run_recordOnce
    {e : Entry} {s s' : Session}
    (h : (recordOnce e).run s = .ok () s') :
    s.seen.has e.longname = false ∧ (noteSeen e).run s = .ok () s' := by
  change (if s.seen.has e.longname = true then throw .endless
    else noteSeen e : Emit Unit).run s = _
    at h
  split at h
  · contradiction
  · rename_i hfree
    exact ⟨Bool.not_eq_true _ ▸ hfree, h⟩

end Declaration

/-- The run over the roots of a job never writes over a record: it stays the
same whatever is done instead. -/
def WriteOnce (job : Job) : Prop :=
  forall record, RecordsFresh record ->
    (Document.visitRoots (offerWith record job (fuelFor job))
      (job.children none)).run
        Session.start =
      (Document.visitRoots (visit job) (job.children none)).run Session.start

/-!
## What is declared between two sessions
-/

/-- The long names that are declared between two sessions, in order. -/
structure Session.Declared (s : Session) (names : List String) (s' : Session) :
    Prop where
  offers : exists offers, s'.offers = s.offers ++ offers ∧
    (declarations offers).map Entry.longname = names
  seen : forall name, s'.seen.has name = true ↔
    s.seen.has name = true ∨ name ∈ names

theorem Session.Declared.trans
    {s s₁ s' : Session} {names names' : List String}
    (h : s.Declared names s₁)
    (h' : s₁.Declared names' s') :
    s.Declared (names ++ names') s' := by
  rcases h.offers with ⟨offers, hoffers, hnames⟩
  rcases h'.offers with ⟨offers', hoffers', hnames'⟩
  constructor
  · refine ⟨offers ++ offers', by rw [hoffers', hoffers, List.append_assoc], ?_⟩
    rw [declarations_append, List.map_append, hnames, hnames']
  · intro name
    rw [h'.seen, h.seen, List.mem_append, or_assoc]

/-- An entry is declared, and recorded after what is declared inside it. -/
theorem Session.Declared.around
    {s s₁ s' : Session} {names : List String} {e : Entry}
    {parent : Option Doclet} {inside : Bool}
    (h : Session.Declared
      { s with offers := s.offers ++ [⟨e, parent, inside, .declared⟩] }
      names s₁)
    (hrun : (noteSeen e).run s₁ = .ok () s') :
    s.Declared (e.longname :: names) s' := by
  cases hrun
  rcases h.offers with ⟨offers, hoffers, hnames⟩
  constructor
  · refine ⟨⟨e, parent, inside, .declared⟩ :: offers, ?_, ?_⟩
    · rw [hoffers, List.append_assoc]
      rfl
    · rw [declarations_declared, List.map_cons, hnames]
  · intro name
    rw [Keyed.has_put, h.seen, List.mem_cons]
    exact or_left_comm

theorem Session.Declared.of_same
    {s s' : Session}
    (hseen : s'.seen = s.seen)
    (hoffers : s'.offers = s.offers) :
    s.Declared [] s' :=
  ⟨⟨[], by rw [hoffers, List.append_nil], rfl⟩, fun name => by simp [hseen]⟩

/-!
## Runs side by side
-/

/-- A relation between the ends of two runs from the same session, where entries
are recorded in the usual way and in another way.  It is kept by what does not
declare anything, by sequences, and by the declaration of an entry whose name is
free. -/
structure SideBySide (record : Entry -> Emit Unit)
    (K : Session -> forall {α : Type}, EStateM.Result Fault Session α ->
      EStateM.Result Fault Session α -> Prop) : Prop where
  silent : forall {s : Session} {α : Type} {x : Emit α},
    (forall a s', x.run s = .ok a s' -> s.Declared [] s') ->
      K s (x.run s) (x.run s)
  bind : forall {s : Session} {α β : Type} {x y : Emit α} {f g : α -> Emit β},
    K s (x.run s) (y.run s) ->
      (forall a s', K s' ((f a).run s') ((g a).run s')) ->
      K s ((x >>= f).run s) ((y >>= g).run s)
  declared :
    forall {s : Session} {e : Entry} (parent : Option Doclet) (inside : Bool)
      {x y : Emit Unit},
    s.seen.has e.longname = false -> (forall s', K s' (x.run s') (y.run s')) ->
      K s
        (EStateM.run (do
          noteOffer ⟨e, parent, inside, .declared⟩
          x
          noteSeen e
          return true) s)
        (EStateM.run (do
          noteOffer ⟨e, parent, inside, .declared⟩
          y
          record e
          return true) s)

namespace SideBySide

variable {record : Entry -> Emit Unit}
  {K : Session -> forall {α : Type}, EStateM.Result Fault Session α ->
    EStateM.Result Fault Session α -> Prop}
  (hK : SideBySide record K)

include hK

theorem pure
    {α : Type}
    (a : α)
    (s : Session) :
    K s ((Pure.pure a : Emit α).run s) ((Pure.pure a : Emit α).run s) := by
  refine hK.silent fun b s' hrun => ?_
  cases hrun
  exact .of_same rfl rfl

theorem writeAll
    (settings : Settings)
    (ks : List Piece)
    (s : Session) :
    K s ((writeAll settings ks).run s) ((writeAll settings ks).run s) := by
  refine hK.silent fun a s' hrun => ?_
  rcases exists_performs_writeAll settings ks with ⟨strokes, result, hperforms⟩
  rcases hperforms.of_run hrun with ⟨_, _, hsame⟩
  exact .of_same hsame.seen hsame.offers

theorem prepare
    (settings : Settings)
    (e : Entry)
    (parent : Option Doclet)
    (s : Session) :
    K s ((prepare settings e parent).run s)
      ((prepare settings e parent).run s) := by
  refine hK.silent fun a s' hrun => ?_
  cases ends_prepare settings e parent s with
  | answer hrun' hsame =>
      cases hrun'.symm.trans hrun
      exact .of_same hsame.2.1 hsame.2.2.1
  | fault _ hfalse => exact hfalse.elim

section

variable {visit visit' : Visitor}
  (hvisit : forall e parent inside s,
    K s ((visit e parent inside).run s) ((visit' e parent inside).run s))

include hvisit

theorem visitBody
    (d : Doclet)
    (es : List Entry)
    (s : Session) :
    K s ((visitBody visit d es).run s) ((visitBody visit' d es).run s) := by
  induction es generalizing s with
  | nil => exact hK.pure [] s
  | cons e es ih =>
      refine hK.bind (hvisit e (some d) true s) fun taken s₁ => ?_
      exact hK.bind (ih s₁) fun refused s₂ => hK.pure _ s₂

theorem visitAll
    (d : Doclet)
    (es : List Entry)
    (s : Session) :
    K s ((visitAll visit d es).run s) ((visitAll visit' d es).run s) := by
  induction es generalizing s with
  | nil => exact hK.pure () s
  | cons e es ih => exact hK.bind (hvisit e (some d) false s) fun _ s₁ => ih s₁

theorem visitRoots
    (es : List Entry)
    (s : Session) :
    K s ((Document.visitRoots visit es).run s)
      ((Document.visitRoots visit' es).run s) := by
  induction es generalizing s with
  | nil => exact hK.pure () s
  | cons e es ih => exact hK.bind (hvisit e none false s) fun _ s₁ => ih s₁

theorem declare
    (job : Job)
    (e : Entry)
    (parent : Option Doclet)
    (s : Session) :
    K s ((declare visit job e parent).run s)
      ((declare visit' job e parent).run s) := by
  rw [declare_eq, declare_eq]
  refine hK.bind (hK.prepare _ _ _ _) fun _ s₁ => ?_
  refine hK.bind (hK.writeAll _ _ _) fun _ s₂ => ?_
  refine hK.bind (hK.visitBody hvisit _ _ _) fun hoisted s₃ => ?_
  refine hK.bind (hK.writeAll _ _ _) fun _ s₄ => ?_
  exact hK.bind (hK.visitAll hvisit _ _ _) fun _ s₅ => hK.writeAll _ _ _

end

theorem offer
    (job : Job)
    (fuel : Nat) :
    forall e parent inside s, K s ((offer job fuel e parent inside).run s)
      ((offerWith record job fuel e parent inside).run s) := by
  rw [← offerWith_noteSeen]
  induction fuel with
  | zero =>
      intro e parent inside s
      refine hK.silent fun a s' hrun => ?_
      cases hrun
  | succ fuel ih =>
      intro e parent inside s
      rw [run_offerWith_succ, run_offerWith_succ]
      split
      · refine hK.silent fun a s' hrun => ?_
        cases hrun
        exact ⟨⟨[_], rfl, by simp [declarations]⟩, by simp⟩
      · rename_i hfresh
        rw [Bool.not_eq_true] at hfresh
        split
        · refine hK.silent fun a s' hrun => ?_
          cases hrun
          exact ⟨⟨[_], rfl, by simp [declarations]⟩, by simp⟩
        · exact hK.declared parent inside hfresh fun s₁ =>
            hK.declare ih job e.settled parent s₁

end SideBySide

/-!
## Records and declarations
-/

/-- The run of a declaration with what is declared inside it. -/
theorem run_declared_iff
    {o : Offer} {x y : Emit Unit} {s s' : Session} {taken : Bool} :
    EStateM.run (do
        noteOffer o
        x
        y
        return true) s = .ok taken s' ↔
      taken = true ∧ exists s₁, x.run { s with offers := s.offers ++ [o] } =
        .ok () s₁ ∧
        y.run s₁ = .ok () s' := by
  constructor
  · intro hrun
    rcases exists_of_run_bind hrun with ⟨_, s₀, hnote, hrun⟩
    cases hnote
    rcases exists_of_run_bind hrun with ⟨_, s₁, hx, hrun⟩
    rcases exists_of_run_bind hrun with ⟨_, s₂, hy, hrun⟩
    cases hrun
    exact ⟨rfl, s₁, hx, hy⟩
  · rintro ⟨rfl, s₁, hx, hy⟩
    rw [EStateM.run_bind]
    change (x >>= _).run _ = _
    rw [EStateM.run_bind, hx]
    change (y >>= _).run _ = _
    rw [EStateM.run_bind, hy]
    rfl

/-- What ends well in the usual way without declaring a name twice ends in the
same way if only the records of free names are as usual. -/
def Agrees (s : Session) {α : Type}
    (r r' : EStateM.Result Fault Session α) : Prop :=
  forall a s', r = .ok a s' ->
    exists names, s.Declared names s' ∧ (names.Nodup -> r' = .ok a s')

theorem sideBySide_agrees
    {record : Entry -> Emit Unit}
    (h : RecordsFresh record) :
    SideBySide record Agrees where
  silent := by
    intro s α x hsilent a s' hrun
    exact ⟨[], hsilent a s' hrun, fun _ => hrun⟩
  bind := by
    intro s α β x y f g hx hf b s' hrun
    rcases exists_of_run_bind hrun with ⟨a, s₁, hfirst, hrest⟩
    rcases hx a s₁ hfirst with ⟨names, hnames, hsame⟩
    rcases hf a s₁ b s' hrest with ⟨names', hnames', hsame'⟩
    refine ⟨names ++ names', hnames.trans hnames', fun hnodup => ?_⟩
    rw [EStateM.run_bind, hsame hnodup.of_append_left]
    exact hsame' hnodup.of_append_right
  declared := by
    intro s e parent inside x y hfresh hx taken s' hrun
    rcases run_declared_iff.mp hrun with ⟨rfl, s₁, hinner, hseen⟩
    rcases hx _ () s₁ hinner with ⟨names, hnames, hsame⟩
    refine ⟨e.longname :: names, hnames.around hseen, fun hnodup => ?_⟩
    rw [List.nodup_cons] at hnodup
    -- the name is free before the descent, and nothing of that name is declared
    -- on it
    have hfree : s₁.seen.has e.longname = false := by
      rw [← Bool.not_eq_true, hnames.seen]
      simp [hfresh, hnodup.1]
    exact run_declared_iff.mpr
      ⟨rfl, s₁, hsame hnodup.2, (h e s₁ hfree).trans hseen⟩

/-- What ends well although no record may be replaced declares no name twice,
and none that has a record. -/
def DeclaresOnce (s : Session) {α : Type}
    (_ r' : EStateM.Result Fault Session α) : Prop :=
  forall a s', r' = .ok a s' ->
    exists names, s.Declared names s' ∧ names.Nodup ∧
    forall name, name ∈ names -> s.seen.has name = false

theorem sideBySide_declaresOnce : SideBySide recordOnce DeclaresOnce where
  silent := by
    intro s α x hsilent a s' hrun
    exact ⟨[], hsilent a s' hrun, List.nodup_nil, by simp⟩
  bind := by
    intro s α β x y f g hx hf b s' hrun
    rcases exists_of_run_bind hrun with ⟨a, s₁, hfirst, hrest⟩
    rcases hx a s₁ hfirst with ⟨names, hnames, hnodup, hfree⟩
    rcases hf a s₁ b s' hrest with ⟨names', hnames', hnodup', hfree'⟩
    refine ⟨names ++ names', hnames.trans hnames', ?_, ?_⟩
    · refine List.nodup_append'.mpr
        ⟨hnodup, hnodup', fun name hname hname' => ?_⟩
      have hrecorded : s₁.seen.has name = true :=
        (hnames.seen name).mpr (Or.inr hname)
      rw [hfree' name hname'] at hrecorded
      contradiction
    · intro name hname
      rcases List.mem_append.mp hname with hname | hname
      · exact hfree name hname
      · have hfresh := hfree' name hname
        rw [← Bool.not_eq_true, hnames.seen, not_or] at hfresh
        exact Bool.not_eq_true _ ▸ hfresh.1
  declared := by
    intro s e parent inside x y hfresh hx taken s' hrun
    rcases run_declared_iff.mp hrun with ⟨rfl, s₁, hinner, hrecord⟩
    rcases hx _ () s₁ hinner with ⟨names, hnames, hnodup, hfree⟩
    rcases run_recordOnce hrecord with ⟨hfree₁, hseen⟩
    have hnew : e.longname ∉ names := by
      intro hname
      rw [(hnames.seen _).mpr (Or.inr hname)] at hfree₁
      contradiction
    refine ⟨e.longname :: names, hnames.around hseen,
      List.nodup_cons.mpr ⟨hnew, hnodup⟩, ?_⟩
    exact List.forall_mem_cons.mpr ⟨hfresh, hfree⟩

theorem Session.Declared.eq_of_start
    {s : Session} {names : List String}
    (h : Session.start.Declared names s) :
    (declarations s.offers).map Entry.longname = names := by
  rcases h.offers with ⟨offers, hoffers, hnames⟩
  rw [hoffers]
  exact hnames

/-- A run that ends well writes each record once if and only if it declares no
long name twice. -/
theorem writeOnce_iff_nodup
    {job : Job} {s : Session}
    (hrun : (Document.visitRoots (visit job) (job.children none)).run
      Session.start = .ok () s) :
    WriteOnce job ↔ ((declarations s.offers).map Entry.longname).Nodup := by
  constructor
  · -- the strict way to record gives the same run, so it never finds a record
    intro honce
    have hrun' := (honce recordOnce recordsFresh_recordOnce).trans hrun
    have hboth := sideBySide_declaresOnce.visitRoots
      (sideBySide_declaresOnce.offer job (fuelFor job))
      (job.children none) Session.start
    rcases hboth () s hrun' with ⟨names, hnames, hnodup, _⟩
    rw [hnames.eq_of_start]
    exact hnodup
  · intro hnodup record hrecord
    have hK := sideBySide_agrees hrecord
    have hboth :=
      hK.visitRoots (hK.offer job (fuelFor job)) (job.children none)
        Session.start
    rcases hboth () s hrun with ⟨names, hnames, hsame⟩
    rw [hnames.eq_of_start] at hnodup
    exact (hsame hnodup).trans hrun.symm

/-!
## Walks
-/

namespace Walk

variable {job : Job} {parent : Option Doclet} {inside : Bool}
  {es refused : List Entry} {seen seen' : Keyed Entry} {offers : List Offer}

/-- What is recorded before a walk is not replaced on it. -/
theorem get?_mono
    (h : Walk job parent inside es seen offers refused seen')
    {name : String} {d : Entry}
    (hname : seen.get? name = some d) :
    seen'.get? name = some d := by
  induction h with
  | nil => exact hname
  | known _ _ ih => exact ih hname
  | refused _ _ _ ih => exact ih hname
  | @declared _ _ e _ _ _ _ _ _ _ _ _ _ hfresh _ _ _ _ ihbody ihspace ihrest =>
      have hother : name ≠ e.doclet.longname := by
        rintro rfl
        simp [Keyed.has, hname] at hfresh
      apply ihrest
      rw [Keyed.get?_put_of_ne _ _ hother]
      exact ihspace (ihbody hname)

/-- If no long name is declared twice, the records hold every entry that is
declared. -/
theorem get?_of_mem_declarations
    (h : Walk job parent inside es seen offers refused seen')
    (hnodup : ((declarations offers).map Entry.longname).Nodup)
    {e : Entry}
    (he : e ∈ declarations offers) :
    seen'.get? e.longname = some e := by
  induction h with
  | nil => contradiction
  | known _ _ ih => exact ih (by simpa using hnodup) (by simpa using he)
  | refused _ _ _ ih => exact ih (by simpa using hnodup) (by simpa using he)
  | @declared _ _ x _ _ body _ _ space seen₂ _ _ seen' _ _ _ hspace hrest ihbody
      ihspace ihrest =>
      simp only [declarations_declared, declarations_append, List.map_cons,
        List.map_append, List.nodup_cons, Entry.longname_settled] at hnodup
      rcases hnodup with ⟨hnew, hnodup⟩
      simp only [declarations_declared, declarations_append, List.mem_cons,
        List.mem_append] at he
      -- a record of what is declared inside the entry stands beside that of the
      -- entry
      have hinner (hmem : e ∈ declarations body ++ declarations space)
          (hseen : seen₂.get? e.longname = some e) : seen'.get? e.longname =
            some e := by
        have hother : e.longname ≠ x.longname := by
          intro heq
          apply hnew
          rw [← heq, ← List.map_append]
          exact List.mem_append_left _ (List.mem_map_of_mem hmem)
        exact hrest.get?_mono ((Keyed.get?_put_of_ne _ _ hother).trans hseen)
      rcases he with rfl | (hmem | hmem) | hmem
      · rw [Entry.longname_settled]
        exact hrest.get?_mono (Keyed.get?_put_self _ _ _)
      · refine hinner (List.mem_append_left _ hmem) (hspace.get?_mono ?_)
        exact ihbody hnodup.of_append_left.of_append_left hmem
      · refine hinner (List.mem_append_right _ hmem) ?_
        exact ihspace hnodup.of_append_left.of_append_right hmem
      · exact ihrest hnodup.of_append_right hmem

end Walk

/-!
## Runs over the roots
-/

theorem exists_walk_of_writeRoots
    {job : Job} {n : Nat} {s : Session}
    (hrun : (Document.writeRoots job).run Session.start = .ok n s) :
    (Document.visitRoots (visit job) (job.children none)).run Session.start =
      .ok () s ∧
      Walk job none false (job.children none) [] s.offers [] s.seen := by
  rcases exists_of_run_bind hrun with ⟨_, _, hroots, hrest⟩
  cases hrest
  refine ⟨hroots, ?_⟩
  cases takes_visitRoots (takes_offer job (fuelFor job)) (job.children none)
    Session.start with
  | fault hfault =>
      cases hfault.symm.trans hroots
  | answer hanswer hcourse =>
      cases hanswer.symm.trans hroots
      rcases hcourse with ⟨offers, pieces, hcourse, htraces⟩
      have hoffers : s.offers = offers := by
        simpa [Session.start] using htraces.offers
      rw [hoffers]
      exact hcourse.walk

/-- A run over the roots that ends well writes each record once if and only if
it declares no long name twice.  In this case the records hold all entries that
are declared, and it is so whenever no long name is its own ancestor.  In any
case an offer leaves the records alone that it finds. -/
theorem writeRoots_writeOnce
    {settings : Settings} {table : List Doclet} {n : Nat} {s : Session}
    (hrun : (Document.writeRoots (Job.ofTable settings table)).run
      Session.start = .ok n s) :
    (WriteOnce (Job.ofTable settings table) ↔
        ((declarations s.offers).map Entry.longname).Nodup) ∧
      (WriteOnce (Job.ofTable settings table) ->
        forall e, e ∈ declarations s.offers ->
          s.seen.get? e.longname = some e) ∧
      ((forall name, ¬ Relation.TransGen (IsParent table) name name) ->
        WriteOnce (Job.ofTable settings table)) ∧
      forall fuel e parent inside s₁ taken s₂,
        (offer (Job.ofTable settings table) fuel e parent inside).run s₁ =
          .ok taken s₂ ->
          forall name d, s₁.seen.get? name = some d ->
          s₂.seen.get? name = some d := by
  rcases exists_walk_of_writeRoots hrun with ⟨hroots, hwalk⟩
  have hiff := writeOnce_iff_nodup hroots
  refine ⟨hiff, ?_, ?_, ?_⟩
  · intro honce e he
    exact hwalk.get?_of_mem_declarations (hiff.mp honce) he
  · intro hacyclic
    have hjob := grounded_of_acyclic settings hacyclic
    exact hiff.mpr (hwalk.nodup_declarations hjob fun e he => .root he)
  · intro fuel e parent inside s₁ taken s₂ hoffer name d hname
    cases takes_offer (Job.ofTable settings table) fuel e parent inside s₁ with
    | fault hfault => cases hfault.symm.trans hoffer
    | answer hanswer hcourse =>
        cases hanswer.symm.trans hoffer
        rcases hcourse with ⟨offers, pieces, hcourse, _⟩
        exact hcourse.walk.get?_mono hname

theorem writeRoots_writeOnce_sharedChildren :
    exists n s,
      (Document.writeRoots (Job.ofTable ⟨true, none, true⟩ sharedChildren)).run
        Session.start = .ok n s ∧
      WriteOnce (Job.ofTable ⟨true, none, true⟩ sharedChildren) ∧
        forall e, e ∈ declarations s.offers ->
          s.seen.get? e.longname = some e := by
  have hrun := run_of_answer? (s := Session.start) (a := 2)
    (x := Document.writeRoots (Job.ofTable ⟨true, none, true⟩ sharedChildren))
    (by decide +kernel)
  rcases writeRoots_writeOnce hrun with ⟨_, hrecords, hacyclic, _⟩
  have honce := hacyclic (acyclic_of_length_lt (by decide))
  exact ⟨2, _, hrun, honce, hrecords honce⟩

/-- A namespace with a function of its own name. -/
def namesakes : List Doclet :=
  [.plain "namespace" "A" none, .plain "function" "A" (some "A")]

/-- Both namesakes are declared, and the record of the inner one is replaced. -/
theorem not_writeOnce_namesakes :
    exists n s,
      (Document.writeRoots (Job.ofTable ⟨true, none, true⟩ namesakes)).run
        Session.start = .ok n s ∧
      (declarations s.offers).map Entry.longname = ["A", "A"] ∧
      (declarations s.offers).map Entry.place = [0, 1] ∧
      (s.seen.get? "A").map Entry.place = some 0 ∧
      ¬ WriteOnce (Job.ofTable ⟨true, none, true⟩ namesakes) := by
  have hrun := run_of_answer? (s := Session.start) (a := 1)
    (x := Document.writeRoots (Job.ofTable ⟨true, none, true⟩ namesakes))
    (by decide +kernel)
  refine ⟨1, _, hrun,
    by decide +kernel, by decide +kernel, by decide +kernel, ?_⟩
  rw [writeOnce_iff_nodup (exists_walk_of_writeRoots hrun).1]
  decide +kernel

end Ambient
