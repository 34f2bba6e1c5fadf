import Ambient.Proofs.Script.Course

/-!
# Places

The words before a member depend on its parent, and whether it may stand where
it is offered depends on the place.  The two never disagree: fields and methods
stand in bodies of classes and nothing else does, at every moment of every run,
also of one that fails or runs out of fuel.
-/

namespace Ambient

open Emit Declaration

/-!
## Rules for pieces
-/

/-- What surrounds a piece, apart from the document itself. -/
inductive Place where
  | body
  | space
deriving DecidableEq, Repr

def isBody (places : List Place) : Bool := places.head? = some .body

/-- The places around what follows a piece, if the piece may stand where it
does. -/
def Piece.step : Piece -> List Place -> Option (List Place)
  | field _, places => if isBody places then some places else none
  | method _, places => if isBody places then some places else none
  | openClass _, places =>
      if isBody places then none else some (.body :: places)
  | openSpace _, places =>
      if isBody places then none else some (.space :: places)
  | openCompanion _, places =>
      if isBody places then none else some (.space :: places)
  | closeClass, .body :: places => some places
  | closeClass, _ => none
  | closeSpace, .space :: places => some places
  | closeSpace, _ => none
  | binding _, places => if isBody places then none else some places
  | function _, places => if isBody places then none else some places
  | enumeration _, places => if isBody places then none else some places
  | typeAlias _, places => if isBody places then none else some places
  | shape _, places => if isBody places then none else some places

/-- The places around what follows some pieces, if each may stand where it
does. -/
def standing (places : List Place) (pieces : List Piece) :
    Option (List Place) :=
  pieces.foldlM (fun places k => k.step places) places

theorem standing_append
    {places places₁ places' : List Place} {ks ks' : List Piece}
    (h : standing places ks = some places₁)
    (h' : standing places₁ ks' = some places') :
    standing places (ks ++ ks') = some places' := by
  rw [standing, List.foldlM_append]
  change standing places ks >>= _ = _
  rw [h]
  exact h'

theorem standing_singleton
    (places : List Place)
    (k : Piece) :
    standing places [k] = k.step places := by
  simp [standing]

/-- A piece belongs to a doclet that some offers have declared: it is written
before the children of that doclet or, for a class, behind its body. -/
inductive Piece.Accounted (settings : Settings) (offers : List Offer) : Piece ->
    Prop where
  | opening {o k}
      (ho : o ∈ offers)
      (hdeclared : o.outcome = .declared)
      (hk : k ∈ opening settings o.entry.doclet o.parent) :
      Accounted settings offers k
  | companion {o}
      (ho : o ∈ offers)
      (hdeclared : o.outcome = .declared)
      (hrole : o.entry.doclet.role = .classLike) :
      Accounted settings offers (.openCompanion o.entry.doclet)
  | closeClass : Accounted settings offers .closeClass
  | closeSpace : Accounted settings offers .closeSpace

theorem Piece.Accounted.mono
    {settings : Settings} {offers offers' : List Offer} {k : Piece}
    (h : k.Accounted settings offers)
    (hsub : offers ⊆ offers') :
    k.Accounted settings offers' := by
  cases h with
  | opening ho hdeclared hk => exact .opening (hsub ho) hdeclared hk
  | companion ho hdeclared hrole => exact .companion (hsub ho) hdeclared hrole
  | closeClass => exact .closeClass
  | closeSpace => exact .closeSpace

/-!
## Rules for offers
-/

/-- A member or a function that is declared stands in a body exactly if its
parent is a class, and everything else stands outside of bodies. -/
structure Offer.Placed (o : Offer) : Prop where
  modified : o.outcome = .declared ->
    o.entry.doclet.role = .function ∨
      o.entry.doclet.role = .member ∧ o.entry.doclet.isEnum = false ->
      (o.insideClass = true ↔ isInClass o.parent = true)
  outside : o.outcome = .declared ->
    o.entry.doclet.role = .classLike ∨ o.entry.doclet.role = .nameSpace ∨
      o.entry.doclet.role = .typedef ∨
        o.entry.doclet.role = .member ∧ o.entry.doclet.isEnum = true ->
      o.insideClass = false

/-- An entry may be offered at a place: bodies are those of classes, and outside
of its body a class offers only what may not stand in it. -/
structure Suits (parent : Option Doclet) (inside : Bool) (e : Entry) :
    Prop where
  body : inside = true -> isInClass parent = true
  detached : inside = false -> isInClass parent = true ->
    e.doclet.isDetached = true

theorem Offer.placed_of_outcome
    {o : Offer}
    (h : o.outcome ≠ .declared) :
    o.Placed :=
  ⟨fun hdeclared => absurd hdeclared h, fun hdeclared => absurd hdeclared h⟩

section

variable {d : Doclet}

theorem isDetached_of_modified
    (h : d.role = .function ∨ d.role = .member ∧ d.isEnum = false) :
    d.isDetached = false := by
  rcases h with hrole | ⟨hrole, henum⟩
  · simp [Doclet.isDetached, hrole]
  · simp [Doclet.isDetached, hrole, henum]

theorem isDetached_of_outside
    (h : d.role = .classLike ∨ d.role = .nameSpace ∨ d.role = .typedef ∨
      d.role = .member ∧ d.isEnum = true) :
    d.isDetached = true := by
  rcases h with hrole | hrole | hrole | ⟨hrole, henum⟩
  · simp [Doclet.isDetached, hrole]
  · simp [Doclet.isDetached, hrole]
  · simp [Doclet.isDetached, hrole]
  · simp [Doclet.isDetached, hrole, henum]

end

section

variable {e : Entry} {parent : Option Doclet} {inside : Bool}
  (hsuits : Suits parent inside e)
  (hfits : (inside && e.doclet.isDetached) = false)

include hsuits

theorem Suits.inside_iff
    (hattached : e.doclet.isDetached = false) :
    inside = true ↔ isInClass parent = true := by
  constructor
  · exact hsuits.body
  · intro hclass
    by_contra hinside
    rw [Bool.not_eq_true] at hinside
    rw [hsuits.detached hinside hclass] at hattached
    contradiction

include hfits

theorem Suits.placed : Offer.Placed ⟨e.settled, parent, inside, .declared⟩ := by
  constructor
  · intro _ hrole
    have hattached := isDetached_of_modified hrole
    rw [Entry.settled_doclet, Doclet.isDetached_settle] at hattached
    exact hsuits.inside_iff hattached
  · intro _ hrole
    have hdetached := isDetached_of_outside hrole
    rw [Entry.settled_doclet, Doclet.isDetached_settle] at hdetached
    rwa [hdetached, Bool.and_true] at hfits

end

/-!
## The pieces of a declaration
-/

/-- The places around the body of a doclet. -/
def bodyPlaces (d : Doclet) (places : List Place) : List Place :=
  match d.role with
  | .classLike => .body :: places
  | .nameSpace => .space :: places
  | _ => places

/-- The places around the namespace of a doclet. -/
def spacePlaces (d : Doclet) (hoisted : List Entry) (places : List Place) :
    List Place :=
  if d.role = .nameSpace || !hoisted.isEmpty then .space :: places else places

theorem standing_opening
    {d : Doclet} {parent : Option Doclet} {places : List Place}
    (settings : Settings)
    (hsuits : d.isDetached = false ->
      (isBody places = true ↔ isInClass parent = true))
    (hfits : d.isDetached = true -> isBody places = false) :
    standing places (opening settings d parent) =
      some (bodyPlaces d places) := by
  unfold opening bodyPlaces
  cases hrole : d.role with
  | classLike =>
      have hplace := hfits (isDetached_of_outside (Or.inl hrole))
      simp [standing_singleton, Piece.step, hplace]
  | nameSpace =>
      have hplace := hfits (isDetached_of_outside (Or.inr (Or.inl hrole)))
      simp [standing_singleton, Piece.step, hplace]
  | member =>
      cases henum : d.isEnum with
      | true =>
          have hplace :=
            hfits
              (isDetached_of_outside (Or.inr (Or.inr (Or.inr ⟨hrole, henum⟩))))
          simp [standing_singleton, Piece.step, hplace]
      | false =>
          have hplace := hsuits (isDetached_of_modified (Or.inr ⟨hrole, henum⟩))
          cases hclass : isInClass parent
            <;> simp_all [standing_singleton, Piece.step]
  | function =>
      have hplace := hsuits (isDetached_of_modified (Or.inl hrole))
      cases hclass : isInClass parent
        <;> simp_all [standing_singleton, Piece.step]
  | typedef =>
      have hplace :=
        hfits (isDetached_of_outside (Or.inr (Or.inr (Or.inl hrole))))
      dsimp only
      split
      · split
        · rfl
        · simp [standing_singleton, Piece.step, hplace]
      · simp [standing_singleton, Piece.step, hplace]
  | package => rfl
  | unknown => rfl

theorem standing_turn
    {d : Doclet} {hoisted : List Entry} {places : List Place}
    (hhoisted : d.role ≠ .classLike -> hoisted = [])
    (hfits : d.isDetached = true -> isBody places = false) :
    standing (bodyPlaces d places) (turn d hoisted) =
      some (spacePlaces d hoisted places) := by
  unfold bodyPlaces turn spacePlaces
  by_cases hclass : d.role = .classLike
  · have hplace := hfits (isDetached_of_outside (Or.inl hclass))
    cases hoisted with
    | nil => simp [standing, Piece.step, hclass]
    | cons c hoisted => simp [standing, Piece.step, hclass, hplace]
  · rw [hhoisted hclass, if_neg hclass]
    cases hrole : d.role with
    | classLike => contradiction
    | _ => rfl

theorem standing_closing
    (d : Doclet)
    (hoisted : List Entry)
    (places : List Place) :
    standing (spacePlaces d hoisted places) (closing d hoisted) =
      some places := by
  unfold spacePlaces closing
  split
  · rfl
  · rfl

theorem accounted_turn
    {settings : Settings} {offers : List Offer} {o : Offer}
    {hoisted : List Entry}
    (ho : o ∈ offers)
    (hdeclared : o.outcome = .declared) :
    forall k, k ∈ turn o.entry.doclet hoisted ->
      k.Accounted settings offers := by
  intro k hk
  unfold turn at hk
  split at hk
  · rename_i hrole
    rcases List.mem_cons.mp hk with rfl | hk
    · exact .closeClass
    · split at hk
      · contradiction
      · rw [List.mem_singleton.mp hk]
        exact .companion ho hdeclared hrole
  · contradiction

theorem accounted_closing
    {settings : Settings} {offers : List Offer} {d : Doclet}
    {hoisted : List Entry} :
    forall k, k ∈ closing d hoisted -> k.Accounted settings offers := by
  intro k hk
  unfold closing at hk
  split at hk
  · rw [List.mem_singleton.mp hk]
    exact .closeSpace
  · contradiction

/-!
## Runs

The invariant holds when a run ends, well or not, so it also speaks of runs that
fail half way.
-/

/-- What has happened since the first session: the offers that were made, the
pieces that were written and how the last of them ended, and the places around
what follows. -/
structure Laid (settings : Settings) (start : Session) (offers : List Offer)
    (pieces : List Piece)
    (places : List Place) (result : Except Fault Unit)
    (s : Session) : Prop where
  made : s.offers = start.offers ++ offers
  placed : forall o, o ∈ offers -> o.Placed
  stands : standing [] pieces = some places
  accounted : forall k, k ∈ pieces -> k.Accounted settings offers
  written : exists strokes,
    Performs (writeAll settings pieces) strokes result ∧
      s.page = start.page.draw strokes

/-- A run of `x` leads from some places to others, if some offers are known to
have been made. -/
def Lays {α : Type} (settings : Settings) (known : List Offer)
    (places : List Place) (x : Emit α)
    (places' : List Place) (R : α -> Prop) : Prop :=
  forall start offers pieces s,
    Laid settings start offers pieces places (.ok ()) s -> known ⊆ offers ->
      match x.run s with
      | .ok a s' => R a ∧ exists offers' pieces', offers ⊆ offers' ∧
          Laid settings start offers' pieces' places' (.ok ()) s'
      | .error _ s' => exists offers' pieces' places' result,
          Laid settings start offers' pieces' places' result s'

section

variable {α β : Type} {settings : Settings} {known : List Offer}
  {places places₁ places' : List Place}

theorem laid_start (settings : Settings) (s : Session) :
    Laid settings s [] [] [] (.ok ()) s :=
  ⟨(List.append_nil _).symm, List.forall_mem_nil _, rfl,
    List.forall_mem_nil _, [], performs_pure (), rfl⟩

theorem Lays.exists_laid
    {x : Emit α} {R : α -> Prop}
    (h : Lays settings [] [] x places' R)
    (s : Session) :
    exists offers pieces places result,
      Laid settings s offers pieces places result (x.after s) ∧
      forall a s', x.run s = .ok a s' -> places = places' := by
  have hend := h s [] [] s (laid_start settings s) (List.Subset.refl _)
  unfold Emit.after
  cases hrun : x.run s with
  | ok a s' =>
      rw [hrun] at hend
      rcases hend with ⟨_, offers, pieces, _, hlaid⟩
      exact ⟨offers, pieces, places', .ok (), hlaid, fun _ _ _ => rfl⟩
  | error fault s' =>
      rw [hrun] at hend
      rcases hend with ⟨offers, pieces, places, result, hlaid⟩
      exact ⟨offers, pieces, places, result, hlaid, fun _ _ h =>
        by contradiction⟩

theorem lays_pure
    {R : α -> Prop} {a : α}
    (h : R a) :
    Lays settings known places (pure a) places R :=
  fun _ offers pieces _ hlaid _ =>
    ⟨h, offers, pieces, List.Subset.refl _, hlaid⟩

theorem Lays.bind
    {x : Emit α} {f : α -> Emit β} {Q : α -> Prop} {R : β -> Prop}
    (hx : Lays settings known places x places₁ Q)
    (hf : forall a, Q a -> Lays settings known places₁ (f a) places' R) :
    Lays settings known places (x >>= f) places' R := by
  intro start offers pieces s hlaid hknown
  have hfirst := hx start offers pieces s hlaid hknown
  rw [EStateM.run_bind]
  cases hrun : x.run s with
  | ok a s₁ =>
      rw [hrun] at hfirst
      rcases hfirst with ⟨hQ, offers₁, pieces₁, hsub, hlaid₁⟩
      have hrest :=
        hf a hQ start offers₁ pieces₁ s₁ hlaid₁ (List.Subset.trans hknown hsub)
      dsimp only
      cases hrun' : (f a).run s₁ with
      | ok b s₂ =>
          rw [hrun'] at hrest
          rcases hrest with ⟨hR, offers₂, pieces₂, hsub', hlaid₂⟩
          exact ⟨hR, offers₂, pieces₂, List.Subset.trans hsub hsub', hlaid₂⟩
      | error fault s₂ =>
          rw [hrun'] at hrest
          exact hrest
  | error fault s₁ =>
      rw [hrun] at hfirst
      exact hfirst

theorem lays_writeAll
    {ks : List Piece}
    (hstanding : standing places ks = some places')
    (hks : forall k, k ∈ ks -> k.Accounted settings known) :
    Lays settings known places (writeAll settings ks) places' fun _ =>
      True := by
  intro start offers pieces s hlaid hknown
  rcases hlaid.written with ⟨strokes, hperforms, hpage⟩
  rcases exists_performs_writeAll settings ks with
    ⟨strokes', result, hperforms'⟩
  rcases hperforms' s with ⟨s', hrun, hpage', hsame⟩
  have hnext : Laid settings start offers (pieces ++ ks) places' result s' := by
    constructor
    · exact hsame.offers.trans hlaid.made
    · exact hlaid.placed
    · exact standing_append hlaid.stands hstanding
    · intro k hk
      rcases List.mem_append.mp hk with hk | hk
      · exact hlaid.accounted k hk
      · exact (hks k hk).mono hknown
    · refine ⟨strokes ++ strokes', ?_, ?_⟩
      · rw [writeAll_append]
        exact hperforms.bind hperforms'
      · rw [hpage', hpage, Page.draw_append]
  rw [hrun]
  cases result with
  | ok => exact ⟨trivial, offers, _, List.Subset.refl _, hnext⟩
  | error fault => exact ⟨offers, _, places', _, hnext⟩

theorem lays_get
    {R : Session -> Prop}
    (h : forall s, R s) :
    Lays settings known places get places R :=
  fun _ offers pieces s hlaid _ =>
    ⟨h s, offers, pieces, List.Subset.refl _, hlaid⟩

theorem lays_noteSeen (e : Entry) :
    Lays settings known places (noteSeen e) places fun _ => True :=
  fun _ offers pieces _ hlaid _ =>
    ⟨trivial, offers, pieces, List.Subset.refl _, { hlaid with }⟩

/-- Notes write nothing; after them, the offers that they make are known. -/
theorem lays_note_bind
    {x : Emit Unit} {y : Emit α} {R : α -> Prop} {o : Offer}
    (hplaced : o.Placed)
    (hx : forall s, Ends (fun _ => False) x s fun _ s' =>
      s'.page = s.page ∧ s'.offers = s.offers ++ [o])
    (hy : Lays settings [o] places y places' R) :
    Lays settings known places (x >>= fun _ => y) places' R := by
  intro start offers pieces s hlaid hknown
  cases hx s with
  | answer hrun h =>
      rename_i s₁
      have hnext : Laid settings start (offers ++ [o]) pieces places (.ok ())
          s₁ := by
        constructor
        · rw [h.2, hlaid.made, List.append_assoc]
        · exact List.forall_mem_append.mpr
            ⟨hlaid.placed, List.forall_mem_singleton.mpr hplaced⟩
        · exact hlaid.stands
        · exact fun k hk =>
            (hlaid.accounted k hk).mono (List.subset_append_left _ _)
        · rw [h.1]
          exact hlaid.written
      have hrest := hy start _ pieces s₁ hnext (List.subset_append_right _ _)
      rw [EStateM.run_bind, hrun]
      dsimp only
      cases hrun' : y.run s₁ with
      | ok a s₂ =>
          rw [hrun'] at hrest
          rcases hrest with ⟨hR, offers', pieces', hsub, hlaid'⟩
          exact ⟨hR, offers', pieces',
            List.Subset.trans (List.subset_append_left _ _) hsub, hlaid'⟩
      | error fault s₂ =>
          rw [hrun'] at hrest
          exact hrest
  | fault _ h => exact h.elim

end

namespace Declaration

/-- A visitor that keeps to the rules where an entry suits the place, and leaves
out only what may not stand in a body. -/
def Orderly (job : Job) (visit : Visitor) : Prop :=
  forall e parent inside known places, Suits parent inside e ->
    isBody places = inside ->
    Lays job.settings known places (visit e parent inside) places fun taken =>
      taken = false -> e.doclet.isDetached = true

section

variable {job : Job} {visit : Visitor} {known : List Offer}
  {places : List Place}
  (hvisit : Orderly job visit)

include hvisit

theorem lays_visitBody
    {d : Doclet} {es : List Entry}
    (hes : forall e, e ∈ es -> Suits (some d) true e ∧ isBody places = true) :
    Lays job.settings known places (visitBody visit d es) places fun refused =>
      refused ⊆ es ∧ forall e, e ∈ refused -> e.doclet.isDetached = true := by
  induction es with
  | nil => exact lays_pure ⟨List.Subset.refl _, List.forall_mem_nil _⟩
  | cons e es ih =>
      rcases List.forall_mem_cons.mp hes with ⟨⟨hsuits, hbody⟩, hrest⟩
      refine (hvisit e (some d) true known places hsuits hbody).bind
        fun taken htaken => ?_
      refine (ih hrest).bind fun refused hrefused => lays_pure ?_
      cases taken with
      | true => exact ⟨List.subset_cons_of_subset e hrefused.1, hrefused.2⟩
      | false =>
          exact ⟨List.cons_subset_cons e hrefused.1,
            List.forall_mem_cons.mpr ⟨htaken rfl, hrefused.2⟩⟩

theorem lays_visitOutside
    {parent : Option Doclet} {e : Entry} {x : Emit Unit}
    (hsuits : Suits parent false e)
    (hbody : isBody places = false)
    (hx : Lays job.settings known places x places fun _ => True) :
    Lays job.settings known places (visit e parent false >>= fun _ => x) places
      fun _ => True :=
  (hvisit e parent false known places hsuits hbody).bind fun _ _ => hx

theorem lays_visitAll
    {d : Doclet} {es : List Entry}
    (hes : forall e, e ∈ es -> Suits (some d) false e ∧ isBody places = false) :
    Lays job.settings known places (visitAll visit d es) places fun _ =>
      True := by
  induction es with
  | nil => exact lays_pure trivial
  | cons e es ih =>
      rcases List.forall_mem_cons.mp hes with ⟨⟨hsuits, hbody⟩, hrest⟩
      exact lays_visitOutside hvisit hsuits hbody (ih hrest)

theorem lays_visitRoots
    (es : List Entry) :
    Lays job.settings known [] (Document.visitRoots visit es) [] fun _ =>
      True := by
  induction es with
  | nil => exact lays_pure trivial
  | cons e es ih =>
      have hsuits : Suits none false e :=
        ⟨fun h => by contradiction, fun _ h => by contradiction⟩
      exact lays_visitOutside hvisit hsuits rfl ih

end

/-- What is offered in the body of an entry suits it. -/
theorem suits_of_mem_bodyOf
    {job : Job} {e c : Entry}
    (hc : c ∈ job.bodyOf e)
    (places : List Place) :
    Suits (some e.doclet) true c ∧
      isBody (bodyPlaces e.doclet places) = true := by
  unfold Job.bodyOf at hc
  split at hc
  · rename_i hrole
    refine ⟨⟨fun _ => ?_, fun h => by contradiction⟩, ?_⟩
    · simp [isInClass, Doclet.isClassLike, hrole]
    · simp [bodyPlaces, hrole, isBody]
  · contradiction

/-- What is offered in the namespace of an entry suits it. -/
theorem suits_of_mem_spaceOf
    {job : Job} {e c : Entry} {hoisted : List Entry}
    (hhoisted : forall c, c ∈ hoisted -> c.doclet.isDetached = true)
    (hc : c ∈ job.spaceOf e hoisted)
    (places : List Place) :
    Suits (some e.doclet) false c ∧
      isBody (spacePlaces e.doclet hoisted places) = false := by
  unfold Job.spaceOf at hc
  split at hc
  · rename_i hrole
    refine ⟨⟨fun h => by contradiction, fun _ hclass => ?_⟩, ?_⟩
    · simp [isInClass, Doclet.isClassLike, hrole] at hclass
    · simp [spacePlaces, hrole, isBody]
  · refine ⟨⟨fun h => by contradiction, fun _ _ => hhoisted c hc⟩, ?_⟩
    have hsome : hoisted.isEmpty = false := by
      cases hoisted with
      | nil => contradiction
      | cons => rfl
    simp [spacePlaces, hsome, isBody]

section

variable {job : Job} {visit : Visitor} {e : Entry} {parent : Option Doclet}
  {inside : Bool} {places : List Place}

theorem lays_declared
    (hvisit : Orderly job visit)
    (known : List Offer)
    (hsuits : Suits parent inside e)
    (hfits : (inside && e.doclet.isDetached) = false)
    (hplace : isBody places = inside) :
    Lays job.settings known places
      (do
        noteOffer ⟨e.settled, parent, inside, .declared⟩
        declare visit job e.settled parent
        noteSeen e.settled
        return true)
      places fun taken => taken = false -> e.doclet.isDetached = true := by
  have hattached (h : e.settled.doclet.isDetached = false) :
      isBody places = true ↔ isInClass parent = true := by
    rw [Entry.settled_doclet, Doclet.isDetached_settle] at h
    rw [hplace]
    exact hsuits.inside_iff h
  have hdetached (h : e.settled.doclet.isDetached = true) : isBody places =
      false := by
    rw [Entry.settled_doclet, Doclet.isDetached_settle] at h
    rwa [h, Bool.and_true, ← hplace] at hfits
  have hmem :=
    List.mem_singleton_self (⟨e.settled, parent, inside, .declared⟩ : Offer)
  rw [declare_eq]
  simp only [bind_assoc]
  rw [← bind_assoc]
  refine lays_note_bind (hsuits.placed hfits) ?_ ?_
  · intro s
    refine (ends_noteOffer_prepare job.settings
      ⟨e.settled, parent, inside, .declared⟩ rfl s).mono ?_
    rintro _ s' ⟨_, htraces⟩
    rcases htraces.page with ⟨strokes, hperforms, hpage⟩
    refine ⟨hpage.trans ?_, htraces.offers⟩
    exact ((performs_pure ()).unique hperforms).2 s.page |>.symm
  refine (lays_writeAll (standing_opening _ hattached hdetached)
    fun k hk => .opening hmem rfl hk).bind fun _ _ => ?_
  refine (lays_visitBody hvisit fun c hc =>
    suits_of_mem_bodyOf hc places).bind ?_
  rintro hoisted ⟨hsub, hhoisted⟩
  have hnone (hrole : e.settled.doclet.role ≠ .classLike) : hoisted = [] := by
    rw [Job.bodyOf, if_neg hrole] at hsub
    exact List.subset_nil.mp hsub
  refine (lays_writeAll (standing_turn hnone hdetached)
    (accounted_turn hmem rfl)).bind fun _ _ => ?_
  refine (lays_visitAll hvisit fun c hc =>
    suits_of_mem_spaceOf hhoisted hc places).bind
    fun _ _ => ?_
  refine (lays_writeAll (standing_closing _ hoisted places)
    accounted_closing).bind fun _ _ => ?_
  exact (lays_noteSeen e.settled).bind fun _ _ => lays_pure fun h => by
    contradiction

end

theorem orderly_offer
    (job : Job)
    (fuel : Nat) :
    Orderly job (offer job fuel) := by
  induction fuel with
  | zero => exact fun _ _ _ _ _ _ _ _ offers pieces s hlaid _ =>
      ⟨offers, pieces, _, _, hlaid⟩
  | succ fuel ih =>
      intro e parent inside known places hsuits hplace
      unfold offer
      refine (lays_get fun _ => trivial).bind fun s _ => ?_
      simp only [Doclet.isDetached_settle]
      split
      · exact lays_note_bind (o := ⟨e.settled, parent, inside, .known⟩)
          (Offer.placed_of_outcome (by simp)) (fun s => .answer rfl ⟨rfl, rfl⟩)
          (lays_pure fun h => by contradiction)
      · split
        · rename_i hdetached
          rw [Bool.and_eq_true] at hdetached
          rw [← bind_assoc]
          exact lays_note_bind (o := ⟨e.settled, parent, inside, .refused⟩)
            (Offer.placed_of_outcome (by simp))
            (fun s => .answer rfl ⟨rfl, rfl⟩)
            (lays_pure fun _ => hdetached.2)
        · rename_i hfits
          rw [Bool.not_eq_true] at hfits
          exact lays_declared ih known hsuits hfits hplace

end Declaration

/-!
## Modifiers and bodies
-/

/-- Whatever a walk over the roots does, and whether or not it ends well, each
of its offers stands at the right place, and all it writes is a sequence of
pieces of declared doclets in which only fields and methods stand directly in
the body of a class, and nowhere else. -/
theorem visitRoots_places
    (job : Job)
    (fuel : Nat)
    (s : Session) :
    exists offers pieces places,
      let walk := Document.visitRoots (offer job fuel) (job.children none)
      (walk.after s).offers = s.offers ++ offers ∧
      (forall o, o ∈ offers -> o.Placed) ∧
      (walk.after s).page = ((writeAll job.settings pieces).after s).page ∧
      (forall k, k ∈ pieces -> k.Accounted job.settings offers) ∧
      standing [] pieces = some places ∧
      ((exists s', walk.run s = .ok () s') -> places = []) := by
  have hlays : Lays job.settings [] []
      (Document.visitRoots (offer job fuel) (job.children none)) []
      fun _ => True :=
    lays_visitRoots (orderly_offer job fuel) (job.children none)
  rcases hlays.exists_laid s with
    ⟨offers, pieces, places, result, hlaid, hplaces⟩
  rcases hlaid.written with ⟨strokes, hperforms, hpage⟩
  refine ⟨offers, pieces, places, hlaid.made, hlaid.placed, ?_, hlaid.accounted,
    hlaid.stands, ?_⟩
  · rw [hpage, hperforms.page_after]
  · rintro ⟨s', hrun⟩
    exact hplaces () s' hrun

end Ambient
