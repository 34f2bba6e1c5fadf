import Mathlib.Data.Finset.Card
import Ambient.Proofs.Twin.Step

/-!
# Fuel

The fuel of a run bounds how deep the doclets are nested.  More fuel changes
nothing about a run that lasts, and a run that lasts with some fuel lasts with
that of the publisher.  For suppose that a container is offered again inside
itself before anything new is declared: then it needs more fuel than itself.  So
the containers around an offer differ until a long name is declared, and there
are only so many names.
-/

namespace Ambient

open Emit Declaration

/-!
## Runs that last
-/

namespace Emit

variable {α β : Type} {x : Emit α} {f : α -> Emit β} {s t : Session}

/-- The run of `x` from `s` does not run out of fuel. -/
def Lasts (x : Emit α) (s : Session) : Prop :=
  forall t, x.run s ≠ .error .endless t

theorem Lasts.of_bind
    (h : Lasts (x >>= f) s) :
    Lasts x s := by
  intro t hrun
  apply h t
  rw [EStateM.run_bind, hrun]

theorem Lasts.rest
    {a : α}
    (h : Lasts (x >>= f) s)
    (hrun : x.run s = .ok a t) :
    Lasts (f a) t := by
  intro u hrun'
  apply h u
  rw [EStateM.run_bind, hrun]
  exact hrun'

theorem Lasts.of_run
    {y : Emit α}
    (h : Lasts x s)
    (hrun : y.run t = x.run s) :
    Lasts y t := by
  intro u hu
  exact h u (hrun.symm.trans hu)

end Emit

/-- Between two sessions, only long names of the job are declared, and none is
forgotten. -/
structure Session.Grows (job : Job) (s t : Session) : Prop where
  kept : forall name, s.seen.has name = true -> t.seen.has name = true
  new : forall name, t.seen.has name = true ->
    s.seen.has name = true ∨ name ∈ job.entries.map Entry.longname

theorem Session.Grows.refl (job : Job) (s : Session) : s.Grows job s :=
  ⟨fun _ h => h, fun _ h => .inl h⟩

theorem Session.Grows.of_seen
    {job : Job} {start s t : Session}
    (h : start.Grows job s)
    (hseen : t.seen = s.seen) :
    start.Grows job t := by
  constructor
  · rw [hseen]
    exact h.kept
  · rw [hseen]
    exact h.new

namespace Emit

variable {α β : Type} {job : Job} {start : Session}

/-- Wherever `x` lasts, `y` does the same, and the answer meets `R`. -/
def Outlasts (job : Job) (start : Session) (x y : Emit α)
    (R : α -> Prop) : Prop :=
  forall s, start.Grows job s -> Lasts x s ->
    y.run s = x.run s ∧ forall a t, x.run s = .ok a t -> start.Grows job t ∧ R a

theorem Outlasts.bind
    {x y : Emit α} {f g : α -> Emit β} {P : α -> Prop} {R : β -> Prop}
    (hx : Outlasts job start x y P)
    (hf : forall a, P a -> Outlasts job start (f a) (g a) R) :
    Outlasts job start (x >>= f) (y >>= g) R := by
  intro s hs hlasts
  rcases hx s hs hlasts.of_bind with ⟨hrun, hok⟩
  simp only [EStateM.run_bind]
  rw [hrun]
  cases hfirst : x.run s with
  | ok a t =>
      rcases hok a t hfirst with ⟨ht, hP⟩
      exact hf a hP t ht (hlasts.rest hfirst)
  | error fault t =>
      refine ⟨rfl, ?_⟩
      intro b u hrun'
      contradiction

theorem outlasts_self
    {x : Emit α} {R : α -> Prop}
    (hseen : forall s a t, x.run s = .ok a t -> t.seen = s.seen ∧ R a) :
    Outlasts job start x x R := by
  intro s hs _
  refine ⟨rfl, ?_⟩
  intro a t hrun
  rcases hseen s a t hrun with ⟨hsame, hR⟩
  exact ⟨hs.of_seen hsame, hR⟩

theorem outlasts_quiet
    (x : Emit α)
    [hx : Quiet x] :
    Outlasts job start x x fun _ => True := by
  apply outlasts_self
  intro s a t hrun
  cases hx.ends s with
  | answer hrun' hsame =>
      cases hrun'.symm.trans hrun
      exact ⟨hsame.seen, trivial⟩
  | fault hrun' => cases hrun'.symm.trans hrun

theorem outlasts_pure
    {R : α -> Prop} {a : α}
    (h : R a) :
    Outlasts job start (pure a) (pure a) R := by
  apply outlasts_self
  intro s b t hrun
  cases hrun
  exact ⟨rfl, h⟩

end Emit

/-!
## More fuel
-/

section

variable {job : Job} {start : Session} {visit visit' : Visitor}

theorem outlasts_visitBody
    {d : Doclet} {es : List Entry}
    (h : forall c, c ∈ es ->
      Outlasts job start (visit c (some d) true) (visit' c (some d) true)
        fun _ => True) :
    Outlasts job start (visitBody visit d es) (visitBody visit' d es)
      (· ⊆ es) := by
  induction es with
  | nil => exact outlasts_pure (List.Subset.refl [])
  | cons c es ih =>
      rw [List.forall_mem_cons] at h
      refine h.1.bind fun taken _ => (ih h.2).bind fun refused hrefused =>
        outlasts_pure ?_
      cases taken with
      | true => exact List.subset_cons_of_subset c hrefused
      | false => exact List.cons_subset_cons c hrefused

theorem outlasts_visitAll
    {d : Doclet} {es : List Entry}
    (h : forall c, c ∈ es ->
      Outlasts job start (visit c (some d) false) (visit' c (some d) false)
        fun _ => True) :
    Outlasts job start (visitAll visit d es) (visitAll visit' d es) fun _ =>
      True := by
  induction es with
  | nil => exact outlasts_pure trivial
  | cons c es ih =>
      rw [List.forall_mem_cons] at h
      exact h.1.bind fun _ _ => ih h.2

theorem outlasts_writeAll
    (settings : Settings)
    (ks : List Piece) :
    Outlasts job start (writeAll settings ks) (writeAll settings ks) fun _ =>
      True := by
  rcases exists_performs_writeAll settings ks with ⟨strokes, result, hperforms⟩
  apply outlasts_self
  intro s a t hrun
  exact ⟨(hperforms.of_run hrun).2.2.seen, trivial⟩

theorem Job.mem_children_of_mem_bodyOf
    {e c : Entry}
    (hc : c ∈ job.bodyOf e) :
    e.doclet.isContainer = true ∧ c ∈ job.children (some e.doclet) := by
  unfold bodyOf at hc
  split at hc
  · rename_i hrole
    exact ⟨by simp [Doclet.isContainer, Doclet.isClassLike, hrole], hc⟩
  · contradiction

theorem Job.mem_children_of_mem_spaceOf
    {e c : Entry} {hoisted : List Entry}
    (hhoisted : hoisted ⊆ job.bodyOf e)
    (hc : c ∈ job.spaceOf e hoisted) :
    e.doclet.isContainer = true ∧ c ∈ job.children (some e.doclet) := by
  unfold spaceOf at hc
  split at hc
  · rename_i hrole
    exact ⟨by simp [Doclet.isContainer, Doclet.isNamespace, hrole], hc⟩
  · exact mem_children_of_mem_bodyOf (hhoisted hc)

theorem outlasts_declare
    {e : Entry}
    (parent : Option Doclet)
    (h : e.doclet.isContainer = true ->
      forall c, c ∈ job.children (some e.doclet) ->
      forall parent inside,
        Outlasts job start (visit c parent inside) (visit' c parent inside)
          fun _ => True) :
    Outlasts job start (declare visit job e parent)
      (declare visit' job e parent)
      fun _ => True := by
  have hprepare : Outlasts job start (prepare job.settings e parent)
      (prepare job.settings e parent) fun _ => True := by
    apply outlasts_self
    intro s a t hrun
    cases ends_prepare job.settings e parent s with
    | answer hrun' hsame =>
        cases hrun'.symm.trans hrun
        exact ⟨hsame.2.1, trivial⟩
    | fault _ hfalse => exact hfalse.elim
  rw [declare_eq, declare_eq]
  refine hprepare.bind fun _ _ => (outlasts_writeAll _ _).bind fun _ _ => ?_
  refine (outlasts_visitBody fun c hc => ?_).bind fun hoisted hhoisted => ?_
  · rcases Job.mem_children_of_mem_bodyOf hc with ⟨hcontainer, hchild⟩
    exact h hcontainer c hchild _ _
  · refine (outlasts_writeAll _ _).bind fun _ _ => ?_
    refine (outlasts_visitAll fun c hc => ?_).bind fun _ _ =>
      outlasts_writeAll _ _
    rcases Job.mem_children_of_mem_spaceOf hhoisted hc with ⟨hcontainer, hchild⟩
    exact h hcontainer c hchild _ _

theorem outlasts_noteOffer
    (o : Offer) :
    Outlasts job start (noteOffer o) (noteOffer o) fun _ => True := by
  apply outlasts_self
  intro s a t hrun
  cases hrun
  exact ⟨rfl, trivial⟩

theorem outlasts_noteSeen
    {e : Entry}
    (he : e.longname ∈ job.entries.map Entry.longname) :
    Outlasts job start (noteSeen e) (noteSeen e) fun _ => True := by
  intro s hs _
  refine ⟨rfl, ?_⟩
  intro a t hrun
  cases hrun
  refine ⟨⟨fun name hname => ?_, fun name hname => ?_⟩, trivial⟩
  · exact (Keyed.has_put _ _ _ _).mpr (.inr (hs.kept name hname))
  · rcases (Keyed.has_put _ _ _ _).mp hname with rfl | hname
    · exact .inr he
    · exact hs.new name hname

theorem Doclet.isDetached_of_isContainer
    {d : Doclet}
    (h : d.isContainer = true) :
    d.isDetached = true := by
  unfold isContainer isClassLike isNamespace at h
  unfold isDetached
  cases hrole : d.role <;> simp_all

/-- An offer depends on those of the children of the entry only.  A container is
not declared inside a class body. -/
theorem outlasts_offer
    {n m : Nat} {e : Entry}
    (he : e ∈ job.entries)
    (parent : Option Doclet)
    (inside : Bool)
    (h : e.doclet.isContainer = true -> inside = false ->
      forall c, c ∈ job.children (some e.doclet) -> forall parent inside,
        Outlasts job start (offer job n c parent inside)
          (offer job m c parent inside)
          fun _ => True) :
    Outlasts job start (offer job (n + 1) e parent inside)
      (offer job (m + 1) e parent inside)
      fun _ => True := by
  intro s hs hlasts
  have hrespond : Outlasts job start
      (respond (offer job n) job e.settled parent inside
        (s.seen.has e.longname))
      (respond (offer job m) job e.settled parent inside
        (s.seen.has e.longname))
      fun _ => True := by
    unfold respond
    split
    · exact (outlasts_noteOffer _).bind fun _ _ => outlasts_pure trivial
    · split
      · refine (outlasts_noteOffer _).bind fun _ _ => ?_
        exact (outlasts_quiet _).bind fun _ _ => outlasts_pure trivial
      · rename_i hfits
        refine (outlasts_noteOffer _).bind fun _ _ =>
          (outlasts_declare parent ?_).bind fun _ _ => ?_
        · intro hcontainer c hc
          rw [Entry.settled_doclet, Doclet.isContainer_settle] at hcontainer
          rw [Entry.settled_doclet, Job.children_settle] at hc
          rw [Entry.settled_doclet, Doclet.isDetached_settle,
            Doclet.isDetached_of_isContainer hcontainer, Bool.and_true,
            Bool.not_eq_true] at hfits
          exact h hcontainer hfits c hc
        · have hname : e.settled.longname ∈ job.entries.map Entry.longname := by
            rw [e.longname_settled]
            exact List.mem_map_of_mem he
          exact (outlasts_noteSeen hname).bind fun _ _ => outlasts_pure trivial
  have hrun := run_offer_succ job n e parent inside s
  rw [run_offer_succ job m, hrun]
  exact hrespond s hs (hlasts.of_run hrun.symm)

/-- More fuel changes nothing about an offer that lasts. -/
theorem outlasts_offer_of_le
    {n m : Nat} {e : Entry}
    (hle : n ≤ m)
    (he : e ∈ job.entries)
    (parent : Option Doclet)
    (inside : Bool) :
    Outlasts job start (offer job n e parent inside)
      (offer job m e parent inside)
      fun _ => True := by
  induction n generalizing m e parent inside with
  | zero => exact fun s _ hlasts => (hlasts s rfl).elim
  | succ n ih =>
      cases m with
      | zero => omega
      | succ m =>
          refine outlasts_offer he parent inside
            fun _ _ c hc parent inside => ?_
          exact ih (by omega) (Job.mem_entries_of_mem_children hc) parent inside

theorem Emit.Lasts.of_le
    {n m : Nat} {e : Entry} {parent : Option Doclet} {inside : Bool}
    {s : Session}
    (h : Lasts (offer job n e parent inside) s)
    (hle : n ≤ m)
    (he : e ∈ job.entries) :
    Lasts (offer job m e parent inside) s :=
  h.of_run (outlasts_offer_of_le hle he parent inside s (.refl job s) h).1

theorem outlasts_offer_of_lasts
    {n m : Nat} {e : Entry} {parent : Option Doclet} {inside : Bool}
    (he : e ∈ job.entries)
    (h : forall s, start.Grows job s -> Lasts (offer job n e parent inside) s ->
      Lasts (offer job m e parent inside) s) :
    Outlasts job start (offer job n e parent inside)
      (offer job m e parent inside)
      fun _ => True := by
  intro s hs hlasts
  rcases Nat.le_total n m with hle | hle
  · exact outlasts_offer_of_le hle he parent inside s hs hlasts
  · rcases outlasts_offer_of_le hle he parent inside s hs (h s hs hlasts) with
      ⟨hrun, hok⟩
    rw [← hrun] at hok
    exact ⟨hrun.symm, hok⟩

/-- What is not a container, or is inside a class body, needs fuel for itself
only. -/
theorem Emit.Lasts.of_leaf
    {n m : Nat} {e : Entry} {parent : Option Doclet} {inside : Bool}
    {s : Session}
    (h : Lasts (offer job n e parent inside) s)
    (he : e ∈ job.entries)
    (hleaf : ¬ (e.doclet.isContainer = true ∧ inside = false)) :
    Lasts (offer job (m + 1) e parent inside) s := by
  cases n with
  | zero => exact (h s rfl).elim
  | succ n =>
      refine h.of_run (outlasts_offer he parent inside ?_ s (.refl job s) h).1
      exact fun hcontainer hinside => (hleaf ⟨hcontainer, hinside⟩).elim

/-- Whether the offer of a container lasts depends on the names that are
declared before it. -/
theorem Emit.Lasts.congr
    {n : Nat} {e : Entry} {parent : Option Doclet} {inside : Bool}
    {s t : Session}
    (h : Lasts (offer job n e parent inside) s)
    (hcontainer : e.doclet.isContainer = true)
    (hseen : forall name, t.seen.has name = s.seen.has name)
    (parent' : Option Doclet) :
    Lasts (offer job n e parent' inside) t := by
  have hmatching : Matching id job job Eq := by
    constructor
    · rintro e _ rfl
      rfl
    · rintro e _ rfl _
      exact List.forall₂_same.mpr fun _ _ => rfl
  have hstep : InStep id False (offer job n e parent inside)
      (offer job n e parent' inside) Eq :=
    inStep_offer hmatching (.id _) n rfl (by simp [hcontainer]) inside
  intro u hu
  cases hstep s t ⟨hseen, False.elim, False.elim⟩ with
  | answer _ hy _ _ => cases hy.symm.trans hu
  | fault hx hy _ =>
      cases hy.symm.trans hu
      exact h _ hx

end

/-!
## Enough fuel
-/

section

variable {job : Job}

/-- How many long names of a job are not declared yet. -/
def Job.unseen (job : Job) (s : Session) : Nat :=
  ((job.entries.map Entry.longname).toFinset.filter fun name =>
    s.seen.has name = false).card

theorem Job.unseen_le (job : Job) (s : Session) :
    job.unseen s ≤ job.entries.length := by
  calc
    job.unseen s ≤ (job.entries.map Entry.longname).toFinset.card :=
      Finset.card_filter_le _ _
    _ ≤ (job.entries.map Entry.longname).length := List.toFinset_card_le _
    _ = job.entries.length := List.length_map _

theorem Session.Grows.unseen_lt
    {s t : Session}
    (h : s.Grows job t)
    (hne : ¬ forall name, t.seen.has name = s.seen.has name) :
    job.unseen t < job.unseen s := by
  rw [not_forall] at hne
  rcases hne with ⟨name, hne⟩
  have hold : s.seen.has name = false := by
    by_contra hseen
    rw [Bool.not_eq_false] at hseen
    exact hne ((h.kept name hseen).trans hseen.symm)
  have hnew : t.seen.has name = true := by
    by_contra hseen
    rw [Bool.not_eq_true] at hseen
    exact hne (hseen.trans hold.symm)
  have hname : name ∈ job.entries.map Entry.longname := by
    rcases h.new name hnew with hseen | hmem
    · rw [hold] at hseen
      contradiction
    · exact hmem
  apply Finset.card_lt_card
  rw [Finset.ssubset_iff_of_subset]
  · refine ⟨name, ?_, ?_⟩
    · simp only [Finset.mem_filter, List.mem_toFinset]
      exact ⟨hname, hold⟩
    · simp [hnew]
  · intro other hother
    simp only [Finset.mem_filter, List.mem_toFinset] at hother ⊢
    refine ⟨hother.1, ?_⟩
    by_contra hseen
    rw [Bool.not_eq_false] at hseen
    rw [h.kept other hseen] at hother
    exact Bool.noConfusion hother.2

theorem Job.unseen_congr
    {s t : Session}
    (h : forall name, t.seen.has name = s.seen.has name) :
    job.unseen t = job.unseen s := by
  unfold unseen
  simp only [h]

/-- Fuel for the offer of a container.  The path has containers around it that,
as long as nothing new is declared, need more fuel than there is; so the
container is not one of them. -/
theorem lasts_offer_of_path
    {n : Nat} {e : Entry} {parent : Option Doclet} {s : Session}
    {path : List Entry}
    (he : e ∈ job.entries)
    (hcontainer : e.doclet.isContainer = true)
    (hnodup : path.Nodup)
    (hpath : forall p, p ∈ path ->
      p ∈ job.entries ∧ p.doclet.isContainer = true ∧
      forall parent, ¬ Lasts (offer job n p parent false) s)
    (h : Lasts (offer job n e parent false) s) :
    Lasts
      (offer job (job.unseen s * job.entries.length +
        (job.entries.length - path.length) + 1) e
      parent false) s := by
  induction n generalizing e parent s path with
  | zero => exact (h s rfl).elim
  | succ n ih =>
      by_cases hless : Lasts (offer job n e parent false) s
      · refine ih he hcontainer hnodup ?_ hless
        intro p hp
        rcases hpath p hp with ⟨hmem, hc, hlost⟩
        exact ⟨hmem, hc, fun parent hlasts =>
          hlost parent (hlasts.of_le (Nat.le_succ n) hmem)⟩
      · have hnew : (e :: path).Nodup :=
          List.nodup_cons.mpr ⟨fun hmem => (hpath e hmem).2.2 parent h, hnodup⟩
        have hsubset : e :: path ⊆ job.entries :=
          List.cons_subset.mpr ⟨he, fun p hp => (hpath p hp).1⟩
        have hlength := (List.subperm_of_subset hnew hsubset).length_le
        rw [List.length_cons] at hlength
        generalize hb : job.unseen s * job.entries.length +
          (job.entries.length - path.length) = b
        have hchild (c : Entry) (hc : c ∈ job.children (some e.doclet))
            (parent' : Option Doclet)
            (inside : Bool) :
            Outlasts job s (offer job n c parent' inside)
              (offer job b c parent' inside)
              fun _ => True := by
          refine outlasts_offer_of_lasts (Job.mem_entries_of_mem_children hc)
            fun t ht hlasts => ?_
          have hmem := Job.mem_entries_of_mem_children hc
          by_cases hleaf : c.doclet.isContainer = true ∧ inside = false
          · rcases hleaf with ⟨hcontainer', rfl⟩
            by_cases hsame : forall name, t.seen.has name = s.seen.has name
            · -- nothing new is declared, so the entry itself is on the path of
              -- the child
              have hpath' : forall p, p ∈ e :: path -> p ∈ job.entries ∧
                  p.doclet.isContainer = true ∧
                  forall parent, ¬ Lasts (offer job n p parent false) t := by
                have hback (name : String) := (hsame name).symm
                rw [List.forall_mem_cons]
                refine ⟨⟨he, hcontainer, fun _ hlong => ?_⟩, fun p hp => ?_⟩
                · exact hless (hlong.congr hcontainer hback parent)
                · rcases hpath p hp with ⟨hp, hpc, hlost⟩
                  refine ⟨hp, hpc, fun parent hlong => hlost parent ?_⟩
                  exact (hlong.congr hpc hback parent).of_le (Nat.le_succ n) hp
              refine (ih hmem hcontainer' hnew hpath' hlasts).of_le ?_ hmem
              rw [Job.unseen_congr hsame, List.length_cons]
              omega
            · have hunseen :=
                Nat.mul_le_mul_right job.entries.length (ht.unseen_lt hsame)
              rw [Nat.succ_mul] at hunseen
              refine (ih hmem hcontainer' List.nodup_nil (List.forall_mem_nil _)
                hlasts).of_le ?_ hmem
              rw [List.length_nil]
              omega
          · have hb' : b = b - 1 + 1 := by omega
            rw [hb']
            exact hlasts.of_leaf hmem hleaf
        exact h.of_run (outlasts_offer he parent false (fun _ _ => hchild) s
          (.refl job s) h).1

/-- The fuel of the publisher lasts if any fuel does, and then the run is the
same. -/
theorem outlasts_visit
    (start : Session)
    (n : Nat)
    {e : Entry}
    (he : e ∈ job.entries)
    (parent : Option Doclet)
    (inside : Bool) :
    Outlasts job start (offer job n e parent inside) (visit job e parent inside)
      fun _ => True := by
  refine outlasts_offer_of_lasts he fun s _ hlasts => ?_
  by_cases hleaf : e.doclet.isContainer = true ∧ inside = false
  · rcases hleaf with ⟨hcontainer, rfl⟩
    have hbound := Nat.mul_le_mul_right job.entries.length (job.unseen_le s)
    refine (lasts_offer_of_path he hcontainer List.nodup_nil
      (List.forall_mem_nil _)
      hlasts).of_le ?_ he
    rw [fuelFor, Nat.mul_add, List.length_nil]
    omega
  · exact hlasts.of_leaf he hleaf

theorem Document.outlasts_visitRoots
    {visit visit' : Visitor} {start : Session} {es : List Entry}
    (h : forall e, e ∈ es ->
      Outlasts job start (visit e none false) (visit' e none false)
        fun _ => True) :
    Outlasts job start (visitRoots visit es) (visitRoots visit' es) fun _ =>
      True := by
  induction es with
  | nil => exact outlasts_pure trivial
  | cons e es ih =>
      rw [List.forall_mem_cons] at h
      exact h.1.bind fun _ _ => ih h.2

/-- A document that can be written with some fuel is written with that of the
publisher. -/
theorem Document.run_write_of_lasts
    {n : Nat}
    (h : Lasts (writeWith (offer job n) job) Session.start) :
    (write job).run Session.start =
      (writeWith (offer job n) job).run Session.start := by
  have hroots (start : Session) :
      Outlasts job start (visitRoots (offer job n) (job.children none))
        (visitRoots (Declaration.visit job) (job.children none)) fun _ =>
          True :=
    outlasts_visitRoots fun e he =>
      outlasts_visit start n (Job.mem_entries_of_mem_children he) none false
  rw [write_eq_writeWith]
  unfold writeWith at h ⊢
  rw [EStateM.run_bind, EStateM.run_bind]
  cases hheader : (writeHeader job.settings).run Session.start with
  | error fault s => rfl
  | ok _ s =>
      have hrest := h.rest hheader
      dsimp only
      rw [EStateM.run_bind, EStateM.run_bind,
        (hroots s s (.refl job s) hrest.of_bind).1]

end

end Ambient
