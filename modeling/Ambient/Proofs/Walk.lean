import Ambient.Proofs.Quiet

/-!
# Walks

A run of the publisher offers the doclets of the table to each other's places.
What is offered, refused and declared, and in which order, depends on the table
and on the names declared before, not on what is written nor on the fuel.  A
walk is such a sequence of offers, and every run follows one.
-/

namespace Ambient

open Emit

/-!
## Settled doclets
-/

/-- An entry as it is offered. -/
def Entry.settled (e : Entry) : Entry := { e with doclet := e.doclet.settle }

namespace Doclet

theorem settle_cases
    (d : Doclet) :
    d.settle = d ∨
      exists kept, (forall n, n ∈ kept -> n ∈ d.typeNames) ∧
        d.settle = { d with optional := true, typeNames := kept } := by
  unfold settle
  split
  · exact Or.inl rfl
  · dsimp only
    split
    · exact Or.inl rfl
    · exact Or.inr ⟨_, fun _ hn => (List.mem_filter.mp hn).1, rfl⟩

@[simp] theorem longname_settle (d : Doclet) :
    d.settle.longname = d.longname := by
  rcases d.settle_cases with h | ⟨_, _, h⟩ <;> rw [h]

@[simp] theorem role_settle (d : Doclet) : d.settle.role = d.role := by
  rcases d.settle_cases with h | ⟨_, _, h⟩ <;> rw [h]
  rfl

@[simp] theorem isDetached_settle (d : Doclet) :
    d.settle.isDetached = d.isDetached := by
  rcases d.settle_cases with h | ⟨_, _, h⟩ <;> rw [h]
  rfl

/-- A doclet of which only the kind and the place are known. -/
def plain (kind longname : String) (memberof : Option String) : Doclet where
  longname := longname
  name := longname
  kind := kind
  memberof := memberof
  scope := .null
  access := .null
  virtual := false
  readonly := false
  optional := false
  isEnum := false
  typeNames := []
  tsType := .null
  augments := []
  implements := []
  mixes := []
  properties := []
  params := []
  returns := []
  templates := []
  comment := .null
  thisType := .null
  raw := []

end Doclet

@[simp] theorem Entry.settled_doclet (e : Entry) :
    e.settled.doclet = e.doclet.settle := rfl

namespace Job

@[simp] theorem children_settle
    (job : Job)
    (d : Doclet) :
    job.children (some d.settle) = job.children (some d) := by
  simp [children]

/-- The entries that are offered inside the body of an entry: the children of a
class. -/
def bodyOf (job : Job) (e : Entry) : List Entry :=
  if e.doclet.role = .classLike then job.children (some e.doclet) else []

/-- The entries that are offered in the namespace of an entry: all children of a
namespace, or those that the body of a class has refused. -/
def spaceOf (job : Job) (e : Entry) (refused : List Entry) : List Entry :=
  if e.doclet.role = .nameSpace then job.children (some e.doclet) else refused

end Job

/-!
## Sequences of offers
-/

/-- The walk over some entries, given their parent and whether they stand inside
a class body: from the names declared before it to its offers, the entries that
it refuses, and the names declared after it. -/
inductive Walk (job : Job) : Option Doclet -> Bool -> List Entry ->
    Keyed Entry -> List Offer ->
    List Entry -> Keyed Entry -> Prop where
  | nil {parent inside seen} :
      Walk job parent inside [] seen [] [] seen
  | known {parent inside e es seen offers refused seen'}
      (hseen : seen.has e.doclet.longname = true)
      (hrest : Walk job parent inside es seen offers refused seen') :
      Walk job parent inside (e :: es) seen
        (⟨e.settled, parent, inside, .known⟩ :: offers)
        refused seen'
  | refused {parent e es seen offers refused seen'}
      (hfresh : seen.has e.doclet.longname = false)
      (hdetached : e.doclet.isDetached = true)
      (hrest : Walk job parent true es seen offers refused seen') :
      Walk job parent true (e :: es) seen
        (⟨e.settled, parent, true, .refused⟩ :: offers)
        (e :: refused) seen'
  | declared {parent inside e es seen body hoisted seen₁ space seen₂ offers
      refused seen'}
      (hfresh : seen.has e.doclet.longname = false)
      (hfits : (inside && e.doclet.isDetached) = false)
      (hbody : Walk job (some e.doclet.settle) true (job.bodyOf e) seen body
        hoisted seen₁)
      (hspace : Walk job (some e.doclet.settle) false (job.spaceOf e hoisted)
        seen₁ space [] seen₂)
      (hrest : Walk job parent inside es (seen₂.put e.doclet.longname e.settled)
        offers refused
        seen') :
      Walk job parent inside (e :: es) seen
        (⟨e.settled, parent, inside, .declared⟩ :: (body ++ space ++ offers))
          refused seen'

namespace Walk

theorem append
    {job : Job} {parent : Option Doclet} {inside : Bool}
    {es es' refused refused' : List Entry}
    {seen seen₁ seen' : Keyed Entry} {offers offers' : List Offer}
    (h : Walk job parent inside es seen offers refused seen₁)
    (h' : Walk job parent inside es' seen₁ offers' refused' seen') :
    Walk job parent inside (es ++ es') seen (offers ++ offers')
      (refused ++ refused') seen' := by
  induction h with
  | nil => exact h'
  | known hseen _ ih => exact .known hseen (ih h')
  | refused hfresh hdetached _ ih => exact .refused hfresh hdetached (ih h')
  | declared hfresh hfits hbody hspace _ _ _ ih =>
      simpa only [List.cons_append, List.append_assoc] using
        Walk.declared hfresh hfits hbody hspace (ih h')

theorem refused_eq_nil
    {job : Job} {parent : Option Doclet} {es refused : List Entry}
    {seen seen' : Keyed Entry} {offers : List Offer}
    (h : Walk job parent false es seen offers refused seen') :
    refused = [] := by
  generalize hinside : false = inside at h
  induction h with
  | nil => rfl
  | known _ _ ih => exact ih hinside
  | refused => contradiction
  | declared _ _ _ _ _ _ _ ih => exact ih hinside

theorem refused_subset
    {job : Job} {parent : Option Doclet} {inside : Bool}
    {es refused : List Entry} {seen seen' : Keyed Entry} {offers : List Offer}
    (h : Walk job parent inside es seen offers refused seen') :
    refused ⊆ es := by
  induction h with
  | nil => exact List.Subset.refl []
  | known _ _ ih => exact List.subset_cons_of_subset _ ih
  | refused _ _ _ ih => exact List.cons_subset_cons _ ih
  | declared _ _ _ _ _ _ _ ih => exact List.subset_cons_of_subset _ ih

end Walk

/-!
## Runs follow walks
-/

/-- Every run of `x` makes the offers of a walk over some entries; `refused`
tells which of them an answer leaves out. -/
def Follows {α : Type} (E : Fault -> Prop) (job : Job) (parent : Option Doclet)
    (inside : Bool)
    (es : List Entry) (x : Emit α) (refused : α -> List Entry) : Prop :=
  forall s, Ends E x s fun a s' =>
    exists offers, s'.offers = s.offers ++ offers ∧
      Walk job parent inside es s.seen offers (refused a) s'.seen

/-- The answer to an offer as the entries that it leaves out. -/
def leftOut (e : Entry) (taken : Bool) : List Entry := if taken then [] else [e]

section

variable {α β : Type} {E : Fault -> Prop} {job : Job} {parent : Option Doclet}
  {inside : Bool} {es es' : List Entry}

theorem Follows.bind
    {x : Emit α} {f : α -> Emit β} {refused : β -> List Entry}
    (hx : Follows E job parent inside es x fun _ => [])
    (hf : forall a, Follows E job parent inside es' (f a) refused) :
    Follows E job parent inside (es ++ es') (x >>= f) refused := by
  intro s
  refine (hx s).bind fun a s₁ hfirst => (hf a s₁).mono fun b s₂ hrest => ?_
  rcases hfirst with ⟨offers, hoffers, hwalk⟩
  rcases hrest with ⟨offers', hoffers', hwalk'⟩
  exact ⟨offers ++ offers',
    by rw [hoffers', hoffers, List.append_assoc], hwalk.append hwalk'⟩

theorem Follows.outside
    {x : Emit α} {refused : α -> List Entry}
    (hx : Follows E job parent false es x refused) :
    Follows E job parent false es x fun _ => [] := by
  intro s
  refine (hx s).mono fun a s' hfollow => ?_
  rcases hfollow with ⟨offers, hoffers, hwalk⟩
  refine ⟨offers, hoffers, ?_⟩
  rwa [hwalk.refused_eq_nil] at hwalk

variable (hE : forall fault, fault ≠ .endless -> E fault)
include hE

theorem follows_quiet
    (x : Emit α)
    [hx : Quiet x] :
    Follows E job parent inside [] x fun _ => [] := by
  intro s
  refine ((hx.ends s).weaken hE).mono fun a s' hsame => ⟨[], ?_, ?_⟩
  · rw [hsame.offers, List.append_nil]
  · rw [hsame.seen]
    exact .nil

theorem Follows.quiet_bind
    {x : Emit α} {f : α -> Emit β} {refused : β -> List Entry} [Quiet x]
    (hf : forall a, Follows E job parent inside es (f a) refused) :
    Follows E job parent inside es (x >>= f) refused :=
  (follows_quiet hE x).bind hf

theorem Follows.bind_quiet
    {x : Emit α} {f : α -> Emit β} [forall a, Quiet (f a)]
    (hx : Follows E job parent inside es x fun _ => []) :
    Follows E job parent inside es (x >>= f) fun _ => [] := by
  have hboth := hx.bind fun a => follows_quiet hE (f a)
  rwa [List.append_nil] at hboth

end

/-!
## The children of an entry
-/

/-- A visitor makes the offers of a walk over an entry, wherever the entry is
offered. -/
def Visits (E : Fault -> Prop) (job : Job) (visit : Declaration.Visitor)
    (e : Entry) : Prop :=
  forall parent inside,
    Follows E job parent inside [e] (visit e parent inside) (leftOut e)

namespace Declaration

section

variable {E : Fault -> Prop} {job : Job} {visit : Visitor} {es : List Entry}

theorem follows_visitBody
    {d : Doclet}
    (h : forall e, e ∈ es -> Visits E job visit e) :
    Follows E job (some d) true es (visitBody visit d es) id := by
  induction es with
  | nil => exact fun s => .answer rfl ⟨[], by simp, .nil⟩
  | cons e es ih =>
      have hes := ih fun c hc => h c (List.mem_cons_of_mem e hc)
      intro s
      refine (h e List.mem_cons_self (some d) true s).bind
        fun taken s₁ hfirst => ?_
      refine (hes s₁).bind fun refused s₂ hrest => ?_
      rcases hfirst with ⟨offers, hoffers, hwalk⟩
      rcases hrest with ⟨offers', hoffers', hwalk'⟩
      refine ends_pure ⟨offers ++ offers',
        by rw [hoffers', hoffers, List.append_assoc], ?_⟩
      cases taken with
      | true => exact hwalk.append hwalk'
      | false => exact hwalk.append hwalk'

theorem follows_visitAll
    {d : Doclet}
    (h : forall e, e ∈ es -> Visits E job visit e) :
    Follows E job (some d) false es (visitAll visit d es) fun _ => [] := by
  induction es with
  | nil => exact fun s => .answer rfl ⟨[], by simp, .nil⟩
  | cons e es ih =>
      have hfirst := (h e List.mem_cons_self (some d) false).outside
      exact hfirst.bind fun _ => ih fun c hc => h c (List.mem_cons_of_mem e hc)

variable (hE : forall fault, fault ≠ .endless -> E fault)
include hE

theorem follows_writeSpace
    {d : Doclet}
    (h : forall e, e ∈ es -> Visits E job visit e) :
    Follows E job (some d) false es (writeSpace visit d es) fun _ => [] :=
  .quiet_bind hE fun _ => .quiet_bind hE fun _ =>
    .bind_quiet hE (follows_visitAll h)

theorem follows_writeCompanion
    {d : Doclet}
    (h : forall e, e ∈ es -> Visits E job visit e) :
    Follows E job (some d) false es (writeCompanion visit job.settings d es)
      fun _ => [] := by
  unfold writeCompanion
  split
  · rename_i hempty
    rw [List.isEmpty_iff.mp hempty]
    exact follows_quiet hE _
  · have hspace := follows_writeSpace hE (d := d) h
    refine .quiet_bind hE fun _ => ?_
    split
    · exact .quiet_bind hE fun _ => hspace
    · exact hspace

end

/-- Every run of `x` makes the offers of the walks inside an entry: over its
body, then over its namespace. -/
def Declares (E : Fault -> Prop) (job : Job) (e : Entry)
    (x : Emit Unit) : Prop :=
  forall s, Ends E x s fun _ s' =>
    exists body hoisted seen₁ space, s'.offers = s.offers ++ (body ++ space) ∧
      Walk job (some e.doclet.settle) true (job.bodyOf e) s.seen body
        hoisted seen₁ ∧
      Walk job (some e.doclet.settle) false (job.spaceOf e hoisted) seen₁ space
        [] s'.seen

section

variable {α : Type} {E : Fault -> Prop} {job : Job} {visit : Visitor}
  {e : Entry}

theorem Declares.of_follows
    {x : Emit Unit}
    (hrole : e.doclet.role ≠ .classLike)
    (hx : Follows E job (some e.doclet.settle) false (job.spaceOf e []) x
      fun _ => []) :
    Declares E job e x := by
  intro s
  refine (hx s).mono fun _ s' hfollow => ?_
  rcases hfollow with ⟨offers, hoffers, hwalk⟩
  refine ⟨[], [], s.seen, offers, hoffers, ?_, hwalk⟩
  rw [Job.bodyOf, if_neg hrole]
  exact .nil

theorem declares_leaf
    {x : Emit Unit}
    (hclass : e.doclet.role ≠ .classLike)
    (hspace : e.doclet.role ≠ .nameSpace)
    (hx : Follows E job (some e.doclet.settle) false [] x fun _ => []) :
    Declares E job e x := by
  apply Declares.of_follows hclass
  rw [Job.spaceOf, if_neg hspace]
  exact hx

variable (hE : forall fault, fault ≠ .endless -> E fault)
include hE

theorem Declares.quiet_bind
    {x : Emit α} {f : α -> Emit Unit} [hx : Quiet x]
    (hf : forall a, Declares E job e (f a)) :
    Declares E job e (x >>= f) := by
  intro s
  refine ((hx.ends s).weaken hE).bind fun a s₁ hsame => ?_
  have hrest := hf a s₁
  rw [hsame.seen, hsame.offers] at hrest
  exact hrest

theorem declares_writeClass
    (hrole : e.doclet.role = .classLike)
    (h : forall c, c ∈ job.children (some e.doclet) -> Visits E job visit c) :
    Declares E job e (writeClass visit job e.doclet.settle) := by
  have hinside : Declares E job e (do
      let refused ← visitBody visit e.doclet.settle
        (job.children (some e.doclet.settle))
      Emit.pop
      Emit.writeln ["\x7d"]
      writeCompanion visit job.settings e.doclet.settle refused) := by
    intro s
    rw [Job.children_settle]
    refine (follows_visitBody h s).bind fun refused s₁ hbody => ?_
    rcases hbody with ⟨body, hoffers, hwalk⟩
    have hsub := hwalk.refused_subset
    have hspace := follows_writeCompanion hE (d := e.doclet.settle) fun c hc =>
        h c (hsub hc)
    have hafter : Follows E job (some e.doclet.settle) false refused (do
        Emit.pop
        Emit.writeln ["\x7d"]
        writeCompanion visit job.settings e.doclet.settle refused) fun _ =>
          [] :=
      .quiet_bind hE fun _ => .quiet_bind hE fun _ => hspace
    refine (hafter s₁).mono fun _ s₂ hfollow => ?_
    rcases hfollow with ⟨space, hoffers', hwalk'⟩
    refine ⟨body, refused, s₁.seen, space,
      by rw [hoffers', hoffers, List.append_assoc], ?_, ?_⟩
    · rw [Job.bodyOf, if_pos hrole]
      exact hwalk
    · rw [Job.spaceOf, if_neg (by rw [hrole]; decide)]
      exact hwalk'
  unfold writeClass
  refine .quiet_bind hE fun _ => .quiet_bind hE fun _ => ?_
  dsimp only
  split <;> split
  · exact .quiet_bind hE fun _ => .quiet_bind hE fun _ => hinside
  · exact .quiet_bind hE fun _ => hinside
  · exact .quiet_bind hE fun _ => hinside
  · exact hinside

theorem declares_writeNamespace
    (hrole : e.doclet.role = .nameSpace)
    (h : forall c, c ∈ job.children (some e.doclet) -> Visits E job visit c) :
    Declares E job e (writeNamespace visit job e.doclet.settle) := by
  apply Declares.of_follows (by rw [hrole]; decide)
  rw [Job.spaceOf, if_pos hrole]
  refine .quiet_bind hE fun _ => ?_
  rw [Job.children_settle]
  exact follows_writeSpace hE h

theorem follows_writeTypedef
    (settings : Settings)
    (parent : Option Doclet)
    (d : Doclet) :
    Follows E job (some d) false [] (writeTypedef settings e.settled parent)
      fun _ => [] := by
  refine .quiet_bind hE fun shape => ?_
  split
  · split
    · refine .quiet_bind hE fun _ => ?_
      intro s
      exact ends_modify ⟨[], by simp, .nil⟩
    · exact follows_quiet hE _
  · exact follows_quiet hE _

theorem declares_declare
    (parent : Option Doclet)
    (h : e.doclet.isContainer = true ->
      forall c, c ∈ job.children (some e.doclet) -> Visits E job visit c) :
    Declares E job e (declare visit job e.settled parent) := by
  unfold declare
  rw [Entry.settled_doclet, Doclet.role_settle]
  cases hrole : e.doclet.role with
  | classLike =>
      have hcontainer :=
        h (by simp [Doclet.isContainer, Doclet.isClassLike, hrole])
      exact declares_writeClass hE hrole hcontainer
  | nameSpace =>
      exact declares_writeNamespace hE hrole
        (h (by simp [Doclet.isContainer, Doclet.isNamespace, hrole]))
  | typedef =>
      exact declares_leaf (by simp [hrole]) (by simp [hrole])
        (follows_writeTypedef hE job.settings parent _)
  | _ =>
      exact declares_leaf (by simp [hrole]) (by simp [hrole])
        (follows_quiet hE _)

theorem visits_offer
    {fuel : Nat}
    (h : e.doclet.isContainer = true ->
      forall c, c ∈ job.children (some e.doclet) ->
        Visits E job (offer job fuel) c) :
    Visits E job (offer job (fuel + 1)) e := by
  intro parent inside s
  unfold offer
  refine (ends_get (R := fun a s' => s = a ∧ s = s') ⟨rfl, rfl⟩).bind ?_
  rintro _ _ ⟨rfl, rfl⟩
  simp only [Doclet.longname_settle, Doclet.isDetached_settle]
  split
  · rename_i hseen
    exact .answer rfl ⟨[_], rfl, .known hseen .nil⟩
  · rename_i hfresh
    rw [Bool.not_eq_true] at hfresh
    split
    · rename_i hdetached
      rw [Bool.and_eq_true] at hdetached
      rcases hdetached with ⟨rfl, hdetached⟩
      exact .answer rfl ⟨[_], rfl, .refused hfresh hdetached .nil⟩
    · rename_i hfits
      rw [Bool.not_eq_true] at hfits
      refine Ends.bind (P := fun _ s' => s'.seen = s.seen ∧
        s'.offers = s.offers ++ [⟨e.settled, parent, inside, .declared⟩])
        (.answer rfl ⟨rfl, rfl⟩) ?_
      rintro _ s₁ ⟨hseen, hoffers⟩
      refine (declares_declare hE parent h s₁).bind fun _ s₂ hinside => ?_
      rcases hinside with ⟨body, hoisted, seen₁, space, hoffers', hbody, hspace⟩
      rw [hseen] at hbody
      refine .answer rfl
        ⟨⟨e.settled, parent, inside, .declared⟩ :: (body ++ space ++ []), ?_,
          .declared hfresh hfits hbody hspace ?_⟩
      · change s₂.offers = _
        rw [hoffers', hoffers]
        simp
      · simp only [Doclet.longname_settle]
        exact .nil

/-- Offers follow walks as long as the fuel lasts: `Good` is kept from an entry
to its children, and without fuel it fails or running out of fuel is allowed. -/
theorem visits_of_good
    (Good : Nat -> Entry -> Prop)
    (hzero : forall e, Good 0 e -> E .endless)
    (hstep : forall fuel p c, Good (fuel + 1) p ->
      p.doclet.isContainer = true ->
      c ∈ job.children (some p.doclet) -> Good fuel c)
    (fuel : Nat) :
    forall e, Good fuel e -> Visits E job (offer job fuel) e := by
  induction fuel with
  | zero => exact fun e hgood _ _ _ => .fault rfl (hzero e hgood)
  | succ fuel ih =>
      intro e hgood
      exact visits_offer hE fun hcontainer c hc =>
        ih c (hstep fuel e c hgood hcontainer hc)

end
end Declaration

/-!
## Documents
-/

namespace Document

section

variable {E : Fault -> Prop} {job : Job}

theorem follows_visitRoots
    {visit : Declaration.Visitor} {es : List Entry}
    (h : forall e, e ∈ es -> Visits E job visit e) :
    Follows E job none false es (visitRoots visit es) fun _ => [] := by
  induction es with
  | nil => exact fun s => .answer rfl ⟨[], by simp, .nil⟩
  | cons e es ih =>
      have hfirst := (h e List.mem_cons_self none false).outside
      exact hfirst.bind fun _ => ih fun c hc => h c (List.mem_cons_of_mem e hc)

variable (hE : forall fault, fault ≠ .endless -> E fault)
include hE

theorem follows_writeSome
    (settings : Settings)
    (fuel : Nat) :
    Follows E job none false [] (writeSome settings fuel) fun _ => [] := by
  induction fuel with
  | zero => exact fun s => .answer rfl ⟨[], by simp, .nil⟩
  | succ fuel ih =>
      refine .quiet_bind hE fun s => ?_
      split
      · exact follows_quiet hE _
      · rename_i e rest _
        have htake : Follows E job none false [] (modify fun s =>
            { s with deferred := rest })
            fun _ => [] :=
          fun s => ends_modify ⟨[], by simp, .nil⟩
        exact htake.bind fun _ => .quiet_bind hE fun _ => .bind_quiet hE ih

theorem follows_writeContent
    (h : forall e, e ∈ job.children none ->
      Visits E job (Declaration.visit job) e) :
    Follows E job none false (job.children none) (writeContent job) fun _ =>
      [] := by
  have hroots : Follows E job none false (job.children none) (writeRoots job)
      fun _ => [] :=
    .bind_quiet hE (follows_visitRoots h)
  have hdeferred : Follows E job none false [] (writeDeferred job.settings)
      fun _ => [] :=
    .quiet_bind hE fun s => follows_writeSome hE job.settings s.deferred.length
  have hboth := hroots.bind fun roots =>
    Follows.bind_quiet hE
      (f := fun deferred => report [.published roots deferred]) hdeferred
  rwa [List.append_nil] at hboth

theorem follows_write
    (h : forall e, e ∈ job.children none ->
      Visits E job (Declaration.visit job) e) :
    Follows E job none false (job.children none) (write job) fun _ => [] := by
  unfold write
  split
  · exact follows_writeContent hE h
  · exact .quiet_bind hE fun _ => .quiet_bind hE fun _ =>
      .bind_quiet hE (follows_writeContent hE h)

end
end Document
end Ambient
