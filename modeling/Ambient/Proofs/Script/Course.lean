import Ambient.Proofs.Lineage
import Ambient.Proofs.Script.Piece

/-!
# Courses

A course is a walk together with the pieces that are written on it.  A run of
the publisher that ends well takes a course: it makes the offers, writes the
pieces and puts off the interfaces of the course, wherever it starts.
-/

namespace Ambient

open Emit Declaration

/-- The course over some entries, given their parent and whether they stand
inside a class body: from the names declared before it to its offers, its
pieces, the entries that it refuses, and the names declared after it. -/
inductive Course (job : Job) : Option Doclet -> Bool -> List Entry ->
    Keyed Entry -> List Offer ->
    List Piece -> List Entry -> Keyed Entry -> Prop where
  | nil {parent inside seen} :
      Course job parent inside [] seen [] [] [] seen
  | known {parent inside e es seen offers pieces refused seen'}
      (hseen : seen.has e.doclet.longname = true)
      (hrest : Course job parent inside es seen offers pieces refused seen') :
      Course job parent inside (e :: es) seen
        (⟨e.settled, parent, inside, .known⟩ :: offers)
        pieces refused seen'
  | refused {parent e es seen offers pieces refused seen'}
      (hfresh : seen.has e.doclet.longname = false)
      (hdetached : e.doclet.isDetached = true)
      (hrest : Course job parent true es seen offers pieces refused seen') :
      Course job parent true (e :: es) seen
        (⟨e.settled, parent, true, .refused⟩ :: offers)
        pieces (e :: refused) seen'
  | declared {parent inside e es seen body bodyPieces hoisted seen₁ space
      spacePieces seen₂ offers
        pieces refused seen'}
      (hfresh : seen.has e.doclet.longname = false)
      (hfits : (inside && e.doclet.isDetached) = false)
      (hbody : Course job (some e.doclet.settle) true (job.bodyOf e) seen body
        bodyPieces hoisted
        seen₁)
      (hspace : Course job (some e.doclet.settle) false (job.spaceOf e hoisted)
        seen₁ space
        spacePieces [] seen₂)
      (hrest : Course job parent inside es
        (seen₂.put e.doclet.longname e.settled) offers pieces
        refused seen') :
      Course job parent inside (e :: es) seen
        (⟨e.settled, parent, inside, .declared⟩ :: (body ++ space ++ offers))
        (opening job.settings e.doclet.settle parent ++ (bodyPieces ++
          (turn e.doclet.settle hoisted ++ (spacePieces ++
            (closing e.doclet.settle hoisted ++ pieces)))))
        refused seen'

/-!
## Walks
-/

namespace Course

variable {job : Job} {parent : Option Doclet} {inside : Bool}
  {es es' refused refused' : List Entry}
  {seen seen₁ seen' : Keyed Entry} {offers offers' : List Offer}
    {pieces pieces' : List Piece}

theorem walk
    (h : Course job parent inside es seen offers pieces refused seen') :
    Walk job parent inside es seen offers refused seen' := by
  induction h with
  | nil => exact .nil
  | known hseen _ ih => exact .known hseen ih
  | refused hfresh hdetached _ ih => exact .refused hfresh hdetached ih
  | declared hfresh hfits _ _ _ ihbody ihspace ih =>
      exact .declared hfresh hfits ihbody ihspace ih

theorem append
    (h : Course job parent inside es seen offers pieces refused seen₁)
    (h' : Course job parent inside es' seen₁ offers' pieces' refused' seen') :
    Course job parent inside (es ++ es') seen (offers ++ offers')
      (pieces ++ pieces')
      (refused ++ refused') seen' := by
  induction h with
  | nil => exact h'
  | known hseen _ ih => exact .known hseen (ih h')
  | refused hfresh hdetached _ ih => exact .refused hfresh hdetached (ih h')
  | declared hfresh hfits hbody hspace _ _ _ ih =>
      simpa only [List.cons_append, List.append_assoc] using
        Course.declared hfresh hfits hbody hspace (ih h')

end Course

/-!
## Traces
-/

/-- Whether an offer puts off an interface: that of a typedef that belongs to a
class. -/
def Offer.isPutOff (settings : Settings) (o : Offer) : Bool :=
  o.outcome = .declared && o.entry.doclet.isShape settings.typedefInterfaces &&
    isInClass o.parent

/-- The interfaces that are put off by some offers, in order. -/
def putOff (settings : Settings) (offers : List Offer) : List Entry :=
  (offers.filter fun o => o.isPutOff settings).map Offer.entry

@[simp] theorem putOff_nil (settings : Settings) :
    putOff settings [] = [] := rfl

@[simp] theorem putOff_append
    (settings : Settings)
    (offers offers' : List Offer) :
    putOff settings (offers ++ offers') =
      putOff settings offers ++ putOff settings offers' := by
  simp [putOff]

theorem putOff_cons
    (settings : Settings)
    (o : Offer)
    (offers : List Offer) :
    putOff settings (o :: offers) =
      putOff settings [o] ++ putOff settings offers :=
  putOff_append settings [o] offers

/-- What a run leaves behind that makes some offers and writes some pieces. -/
structure Session.Traces (settings : Settings) (s : Session)
    (offers : List Offer)
    (pieces : List Piece) (s' : Session) : Prop where
  deferred : s'.deferred = s.deferred ++ putOff settings offers
  offers : s'.offers = s.offers ++ offers
  page : exists strokes, Performs (writeAll settings pieces) strokes (.ok ()) ∧
    s'.page = s.page.draw strokes

namespace Session.Traces

variable {settings : Settings} {s s₁ s' : Session} {offers offers' : List Offer}
  {pieces pieces' : List Piece}

theorem refl (settings : Settings) (s : Session) : s.Traces settings [] [] s :=
  ⟨by simp, by simp, [], performs_pure (), rfl⟩

theorem trans
    (h : s.Traces settings offers pieces s₁)
    (h' : s₁.Traces settings offers' pieces' s') :
    s.Traces settings (offers ++ offers') (pieces ++ pieces') s' := by
  constructor
  · rw [h'.deferred, h.deferred, putOff_append, List.append_assoc]
  · rw [h'.offers, h.offers, List.append_assoc]
  · rcases h.page with ⟨strokes, hperforms, hpage⟩
    rcases h'.page with ⟨strokes', hperforms', hpage'⟩
    refine ⟨strokes ++ strokes', ?_, ?_⟩
    · rw [writeAll_append]
      exact hperforms.bind hperforms'
    · rw [hpage', hpage, Page.draw_append]

/-- A note that changes neither the page nor what is put off. -/
theorem of_note
    (hoffers : s'.offers = s.offers ++ offers)
    (hdeferred : s'.deferred = s.deferred ++ putOff settings offers)
    (hpage : s'.page = s.page) :
    s.Traces settings offers [] s' :=
  ⟨hdeferred, hoffers, [], performs_pure (), hpage⟩

end Session.Traces

theorem exists_performs_writeAll
    (settings : Settings)
    (ks : List Piece) :
    exists strokes result, Performs (writeAll settings ks) strokes result := by
  induction ks with
  | nil => exact ⟨[], .ok (), performs_pure ()⟩
  | cons k ks ih =>
      rcases k.exists_performs settings with ⟨strokes, result, hk⟩
      rcases ih with ⟨strokes', result', hks⟩
      cases result with
      | ok => exact ⟨strokes ++ strokes', result', hk.bind hks⟩
      | error fault => exact ⟨strokes, .error fault, hk.bind_error _⟩

/-!
## Runs take courses
-/

/-- Every run of `x` that ends well takes a course over some entries; `refused`
tells which of them an answer leaves out. -/
def Takes {α : Type} (job : Job) (parent : Option Doclet) (inside : Bool)
    (es : List Entry)
    (x : Emit α) (refused : α -> List Entry) : Prop :=
  forall s, Ends (fun _ => True) x s fun a s' => exists offers pieces,
    Course job parent inside es s.seen offers pieces (refused a) s'.seen ∧
      s.Traces job.settings offers pieces s'

theorem ends_writeAll
    (settings : Settings)
    (ks : List Piece)
    (s : Session) :
    Ends (fun _ => True) (writeAll settings ks) s fun _ s' =>
      s'.seen = s.seen ∧ s.Traces settings [] ks s' := by
  rcases exists_performs_writeAll settings ks with ⟨strokes, result, hperforms⟩
  rcases hperforms s with ⟨s', hrun, hpage, hsame⟩
  cases result with
  | ok =>
      refine .answer hrun ⟨hsame.seen, ?_, ?_, strokes, hperforms, hpage⟩
      · rw [hsame.deferred, putOff_nil, List.append_nil]
      · rw [hsame.offers, List.append_nil]
  | error fault => exact .fault hrun trivial

theorem Emit.Performs.ends
    {α : Type} {x : Emit α} {strokes : List Stroke} {a : α}
    (h : Performs x strokes (.ok a))
    (s : Session) :
    Ends (fun _ => False) x s fun b s' =>
      a = b ∧ s'.page = s.page.draw strokes ∧ s.SameRecord s' := by
  rcases h s with ⟨s', hrun, hpage, hsame⟩
  exact .answer hrun ⟨rfl, hpage, hsame⟩

theorem performs_isShape
    (settings : Settings)
    (d : Doclet) :
    Performs (isShape settings d) []
      (.ok (d.isShape settings.typedefInterfaces)) := by
  unfold isShape
  split
  · exact (performs_report _).bind (performs_pure _)
  · exact performs_pure _

theorem isShape_of_role
    {d : Doclet}
    (h : d.role ≠ .typedef)
    (typedefInterfaces : Bool) :
    d.isShape typedefInterfaces = false := by
  simp [Doclet.isShape, Doclet.mayBeShape, h]

/-- Nothing is written of an entry before its pieces. -/
theorem ends_prepare
    (settings : Settings)
    (e : Entry)
    (parent : Option Doclet)
    (s : Session) :
    Ends (fun _ => False) (prepare settings e parent) s fun _ s' =>
      s'.page = s.page ∧ s'.seen = s.seen ∧ s'.offers = s.offers ∧
        s'.deferred = s.deferred ++
          if e.doclet.isShape settings.typedefInterfaces && isInClass parent
            then [e] else [] := by
  unfold prepare
  split
  · refine ((performs_isShape settings e.doclet).ends s).bind ?_
    rintro _ s₁ ⟨rfl, hpage, hsame⟩
    split
    · refine .answer rfl ⟨hpage, hsame.seen, hsame.offers, ?_⟩
      rw [← hsame.deferred]
    · refine .answer rfl ⟨hpage, hsame.seen, hsame.offers, ?_⟩
      rw [List.append_nil, hsame.deferred]
  · rename_i hrole
    refine .answer rfl ⟨rfl, rfl, rfl, ?_⟩
    rw [isShape_of_role (by rw [hrole]; decide)]
    exact (List.append_nil _).symm
  · rename_i hrole _
    refine .answer rfl ⟨rfl, rfl, rfl, ?_⟩
    rw [isShape_of_role hrole]
    exact (List.append_nil _).symm

/-- The offer of an entry that is declared puts it off if it is to be put
off. -/
theorem ends_noteOffer_prepare
    (settings : Settings)
    (o : Offer)
    (houtcome : o.outcome = .declared)
    (s : Session) :
    Ends (fun _ => False)
      (noteOffer o >>= fun _ => prepare settings o.entry o.parent) s
      fun _ s' => s'.seen = s.seen ∧ s.Traces settings [o] [] s' := by
  refine (ends_modify
    (R := fun _ s' => s' = { s with offers := s.offers ++ [o] }) rfl).bind ?_
  rintro _ _ rfl
  refine (ends_prepare settings o.entry o.parent _).mono ?_
  rintro _ s' ⟨hpage, hseen, hoffers, hdeferred⟩
  refine ⟨hseen, .of_note hoffers ?_ hpage⟩
  rw [hdeferred]
  cases hput : (o.entry.doclet.isShape settings.typedefInterfaces &&
    isInClass o.parent) <;>
    simp [putOff, Offer.isPutOff, houtcome, hput]

namespace Declaration

section

variable {job : Job} {visit : Visitor} {es : List Entry}
  (hvisit : forall e parent inside,
    Takes job parent inside [e] (visit e parent inside) (leftOut e))

include hvisit

theorem takes_visitBody
    (d : Doclet)
    (es : List Entry) :
    Takes job (some d) true es (visitBody visit d es) id := by
  induction es with
  | nil => exact fun s => .answer rfl ⟨[], [], .nil, .refl _ s⟩
  | cons e es ih =>
      intro s
      refine (hvisit e (some d) true s).bind fun taken s₁ hfirst => ?_
      refine (ih s₁).bind fun refused s₂ hrest => ?_
      rcases hfirst with ⟨offers, pieces, hcourse, htraces⟩
      rcases hrest with ⟨offers', pieces', hcourse', htraces'⟩
      refine ends_pure ⟨offers ++ offers', pieces ++ pieces', ?_,
        htraces.trans htraces'⟩
      cases taken with
      | true => exact hcourse.append hcourse'
      | false => exact hcourse.append hcourse'

theorem takes_visitOutside
    {parent : Option Doclet} {e : Entry} {x : Emit Unit}
    (hx : Takes job parent false es x fun _ => []) :
    Takes job parent false (e :: es) (visit e parent false >>= fun _ => x)
      fun _ => [] := by
  intro s
  refine (hvisit e parent false s).bind fun taken s₁ hfirst =>
    (hx s₁).mono fun _ s₂ hrest => ?_
  rcases hfirst with ⟨offers, pieces, hcourse, htraces⟩
  rcases hrest with ⟨offers', pieces', hcourse', htraces'⟩
  rw [hcourse.walk.refused_eq_nil] at hcourse
  exact ⟨offers ++ offers', pieces ++ pieces', hcourse.append hcourse',
    htraces.trans htraces'⟩

theorem takes_visitAll
    (d : Doclet)
    (es : List Entry) :
    Takes job (some d) false es (visitAll visit d es) fun _ => [] := by
  induction es with
  | nil => exact fun s => .answer rfl ⟨[], [], .nil, .refl _ s⟩
  | cons e es ih => exact takes_visitOutside hvisit ih

theorem takes_visitRoots
    (es : List Entry) :
    Takes job none false es (Document.visitRoots visit es) fun _ => [] := by
  induction es with
  | nil => exact fun s => .answer rfl ⟨[], [], .nil, .refl _ s⟩
  | cons e es ih => exact takes_visitOutside hvisit ih

theorem takes_declare
    {e : Entry} {parent : Option Doclet} {inside : Bool} {s : Session}
    (hfresh : s.seen.has e.doclet.longname = false)
    (hfits : (inside && e.doclet.isDetached) = false) :
    Ends (fun _ => True)
      (do
        noteOffer ⟨e.settled, parent, inside, .declared⟩
        declare visit job e.settled parent
        noteSeen e.settled
        return true)
      s fun taken s' => exists offers pieces,
        Course job parent inside [e] s.seen offers pieces (leftOut e taken)
          s'.seen ∧
          s.Traces job.settings offers pieces s' := by
  rw [declare_eq]
  simp only [bind_assoc]
  rw [← bind_assoc]
  have hnote :=
    ends_noteOffer_prepare job.settings
      ⟨e.settled, parent, inside, .declared⟩ rfl s
  refine (hnote.weaken fun _ => False.elim).bind ?_
  rintro _ s₁ ⟨hseen₁, htraces₁⟩
  refine (ends_writeAll job.settings _ s₁).bind ?_
  rintro _ s₂ ⟨hseen₂, htraces₂⟩
  refine (takes_visitBody hvisit e.settled.doclet (job.bodyOf e.settled)
    s₂).bind ?_
  rintro hoisted s₃ ⟨body, bodyPieces, hbody, htraces₃⟩
  refine (ends_writeAll job.settings _ s₃).bind ?_
  rintro _ s₄ ⟨hseen₄, htraces₄⟩
  refine (takes_visitAll hvisit e.settled.doclet (job.spaceOf e.settled hoisted)
    s₄).bind ?_
  rintro _ s₅ ⟨space, spacePieces, hspace, htraces₅⟩
  refine (ends_writeAll job.settings _ s₅).bind ?_
  rintro _ s₆ ⟨hseen₆, htraces₆⟩
  have hall := htraces₁.trans (htraces₂.trans (htraces₃.trans (htraces₄.trans
    (htraces₅.trans htraces₆))))
  have hbodyOf : job.bodyOf e.settled = job.bodyOf e := by simp [Job.bodyOf]
  have hspaceOf : job.spaceOf e.settled hoisted = job.spaceOf e hoisted := by
    simp [Job.spaceOf]
  rw [hseen₂, hseen₁, hbodyOf] at hbody
  rw [hseen₄, hspaceOf] at hspace
  have hlast : Course job parent inside []
      (s₅.seen.put e.doclet.longname e.settled) [] [] []
      (s₆.seen.put e.settled.doclet.longname e.settled) := by
    rw [hseen₆, Entry.settled_doclet, Doclet.longname_settle]
    exact .nil
  refine .answer rfl ⟨_, _, .declared hfresh hfits hbody hspace hlast, ?_⟩
  constructor
  · simpa using hall.deferred
  · simpa using hall.offers
  · simpa using hall.page

end

theorem takes_offer
    (job : Job)
    (fuel : Nat) :
    forall e parent inside,
      Takes job parent inside [e] (offer job fuel e parent inside)
      (leftOut e) := by
  induction fuel with
  | zero => exact fun _ _ _ _ => .fault rfl trivial
  | succ fuel ih =>
      intro e parent inside s
      unfold offer
      refine (ends_get (R := fun a s' => s = a ∧ s = s') ⟨rfl, rfl⟩).bind ?_
      rintro _ _ ⟨rfl, rfl⟩
      simp only [Doclet.longname_settle, Doclet.isDetached_settle]
      split
      · rename_i hseen
        refine .answer rfl ⟨_, _, .known hseen .nil, .of_note rfl ?_ rfl⟩
        exact (List.append_nil _).symm
      · rename_i hfresh
        rw [Bool.not_eq_true] at hfresh
        split
        · rename_i hdetached
          rw [Bool.and_eq_true] at hdetached
          rcases hdetached with ⟨rfl, hdetached⟩
          refine .answer rfl ⟨_, _, .refused hfresh hdetached .nil,
            .of_note rfl ?_ rfl⟩
          exact (List.append_nil _).symm
        · rename_i hfits
          rw [Bool.not_eq_true] at hfits
          exact takes_declare ih hfresh hfits

end Declaration

/-!
## Levels

The body of a class and the namespace after it are one level deeper than the
class, and so are the children of a namespace.
-/

section

variable {plain : Prop} {n : Nat} {d : Doclet}

/-- The levels between a doclet and its body. -/
def bodyDepth (d : Doclet) : Nat := if d.isContainer then 1 else 0

/-- The levels between a doclet and its namespace. -/
def spaceDepth (d : Doclet) (hoisted : List Entry) : Nat :=
  if d.role = .nameSpace || !hoisted.isEmpty then 1 else 0

theorem draws_writeAll_singleton
    {k : Piece} {m : Nat}
    (settings : Settings)
    (hk : plain -> k.Plain)
    (hlevel : k.level n = some m) :
    Draws plain (Pen.AtStart n) (writeAll settings [k]) (Pen.AtStart m) := by
  rw [writeAll_singleton]
  exact Piece.draws_program settings hk hlevel

theorem draws_opening
    (settings : Settings)
    (parent : Option Doclet)
    (hd : plain -> d.Plain) :
    Draws plain (Pen.AtStart n) (writeAll settings (opening settings d parent))
      (Pen.AtStart (n + bodyDepth d)) := by
  unfold opening bodyDepth Doclet.isContainer Doclet.isClassLike
    Doclet.isNamespace
  cases d.role with
  | classLike => exact draws_writeAll_singleton settings hd rfl
  | nameSpace => exact draws_writeAll_singleton settings hd rfl
  | member =>
      dsimp only
      split
      · exact draws_writeAll_singleton settings hd rfl
      · split
        · exact draws_writeAll_singleton settings hd rfl
        · exact draws_writeAll_singleton settings hd rfl
  | function =>
      dsimp only
      split
      · exact draws_writeAll_singleton settings hd rfl
      · exact draws_writeAll_singleton settings hd rfl
  | typedef =>
      dsimp only
      split
      · split
        · exact draws_skip
        · exact draws_writeAll_singleton settings hd rfl
      · exact draws_writeAll_singleton settings hd rfl
  | package => exact draws_skip
  | unknown => exact draws_skip

theorem draws_turn
    {hoisted : List Entry}
    (settings : Settings)
    (hd : plain -> d.Plain)
    (hhoisted : d.role ≠ .classLike -> hoisted = []) :
    Draws plain (Pen.AtStart (n + bodyDepth d))
      (writeAll settings (turn d hoisted))
      (Pen.AtStart (n + spaceDepth d hoisted)) := by
  unfold turn bodyDepth spaceDepth Doclet.isContainer Doclet.isClassLike
    Doclet.isNamespace
  by_cases hclass : d.role = .classLike
  · simp only [hclass, if_true, decide_true, Bool.true_or, reduceCtorEq,
      decide_false, Bool.false_or]
    refine Draws.bind
      (Piece.draws_program (m := n) settings (fun _ => trivial) rfl) ?_
    cases hoisted with
    | nil => exact draws_skip
    | cons c hoisted => exact draws_writeAll_singleton settings hd rfl
  · rw [hhoisted hclass]
    simp only [hclass, if_false, decide_false, Bool.false_or, List.isEmpty_nil,
      Bool.not_true, Bool.or_false]
    exact draws_skip

theorem draws_closing
    (settings : Settings)
    (d : Doclet)
    (hoisted : List Entry) :
    Draws plain (Pen.AtStart (n + spaceDepth d hoisted))
      (writeAll settings (closing d hoisted))
      (Pen.AtStart n) := by
  unfold closing spaceDepth
  split
  · exact draws_writeAll_singleton settings (fun _ => trivial) rfl
  · exact draws_skip

theorem Doclet.Plain.settle
    (h : d.Plain) :
    d.settle.Plain := by
  rcases d.settle_cases with heq | ⟨kept, hkept, heq⟩ <;> rw [heq]
  · exact h
  · exact { h with typeNames := fun n hn => h.typeNames n (hkept n hn) }

end

theorem Job.bodyOf_subset
    (job : Job)
    (e : Entry) :
    job.bodyOf e ⊆ job.entries := by
  unfold bodyOf
  split
  · exact fun _ hc => mem_entries_of_mem_children hc
  · exact List.nil_subset _

theorem Job.spaceOf_subset
    {job : Job} {hoisted : List Entry}
    (e : Entry)
    (hhoisted : hoisted ⊆ job.entries) :
    job.spaceOf e hoisted ⊆ job.entries := by
  unfold spaceOf
  split
  · exact fun _ hc => mem_entries_of_mem_children hc
  · exact hhoisted

/-- Only the body of a class refuses something. -/
theorem Walk.hoisted_eq_nil
    {job : Job} {e : Entry} {parent : Option Doclet} {seen seen' : Keyed Entry}
    {offers : List Offer} {hoisted : List Entry}
    (h : Walk job parent true (job.bodyOf e) seen offers hoisted seen')
    (hrole : e.doclet.role ≠ .classLike) :
    hoisted = [] := by
  have hsub := h.refused_subset
  rw [Job.bodyOf, if_neg hrole] at hsub
  exact List.subset_nil.mp hsub

/-- The pieces of a course begin and end at the start of a line, on the same
level. -/
theorem Course.draws
    {plain : Prop} {job : Job} {parent : Option Doclet} {inside : Bool}
    {es refused : List Entry}
    {seen seen' : Keyed Entry} {offers : List Offer} {pieces : List Piece}
    (h : Course job parent inside es seen offers pieces refused seen')
    (hplain : plain -> forall e, e ∈ job.entries -> e.doclet.Plain)
    (hes : plain -> es ⊆ job.entries)
    (n : Nat) :
    Draws plain (Pen.AtStart n) (writeAll job.settings pieces)
      (Pen.AtStart n) := by
  induction h generalizing n with
  | nil => exact draws_skip
  | known _ _ ih => exact ih (fun hp => (List.cons_subset.mp (hes hp)).2) n
  | refused _ _ _ ih => exact ih (fun hp => (List.cons_subset.mp (hes hp)).2) n
  | @declared _ _ e es _ _ _ hoisted _ _ _ _ _ _ _ _ _ _ hbody _ _ ihbody
      ihspace ihrest =>
      have hsub : plain -> e ∈ job.entries ∧ es ⊆ job.entries :=
        fun hp => List.cons_subset.mp (hes hp)
      have hd : plain -> e.doclet.settle.Plain :=
        fun hp => (hplain hp e (hsub hp).1).settle
      have hhoisted : hoisted ⊆ job.entries :=
        List.Subset.trans hbody.walk.refused_subset (job.bodyOf_subset e)
      have hnone : e.doclet.settle.role ≠ .classLike -> hoisted = [] := by
        rw [Doclet.role_settle]
        exact hbody.walk.hoisted_eq_nil
      refine draws_writeAll_append (draws_opening job.settings _ hd) ?_
      refine draws_writeAll_append (ihbody (fun _ => job.bodyOf_subset e) _) ?_
      refine draws_writeAll_append (draws_turn job.settings hd hnone) ?_
      refine draws_writeAll_append
        (ihspace (fun _ => job.spaceOf_subset e hhoisted) _) ?_
      exact draws_writeAll_append (draws_closing job.settings _ _)
        (ihrest (fun hp => (hsub hp).2) n)

end Ambient
