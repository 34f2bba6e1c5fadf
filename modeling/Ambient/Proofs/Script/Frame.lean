import Ambient.Proofs.Script.Ink

/-!
# What an offer leaves alone

An offer starts and ends at the start of a line, on the same level.  In between
it only adds: to the text, to the names that are declared and to the interfaces
that are put off.  Of the doclets, those that are offered are settled, and
nothing else about them changes.  An offer that is refused leaves no trace but
this.
-/

namespace Ambient

open Emit Declaration

/-!
## Fresh pages
-/

namespace Page

variable {p : Page} {s : String}

/-- A page that is fresh as long as nothing is written on it, and no longer. -/
def Honest (p : Page) : Prop := p.fresh = true ↔ p.text = ""

/-- A page with some text that is no longer fresh. -/
def Marked (p : Page) : Prop := p.fresh = false ∧ p.text ≠ ""

theorem Marked.honest
    (h : p.Marked) :
    p.Honest := by
  simp [Honest, h.1, h.2]

theorem Marked.draw
    (strokes : List Stroke)
    (p : Page)
    (h : p.Marked) :
    (p.draw strokes).Marked := by
  rcases exists_text_draw strokes p with ⟨written, hwritten⟩
  refine ⟨fresh_draw strokes h.1, ?_⟩
  rw [hwritten]
  simp [h.2]

theorem Honest.marked
    (h : p.Honest)
    (hfresh : p.fresh = false) :
    p.Marked := by
  refine ⟨hfresh, fun htext => ?_⟩
  rw [h.mpr htext] at hfresh
  contradiction

theorem marked_write
    (hs : s ≠ "") :
    (p.write s).Marked := by
  refine ⟨rfl, ?_⟩
  simp only [write]
  split
  · simp [hs]
  · simp [hs]

theorem marked_writeln
    (hs : s ≠ "") :
    (p.writeln s).Marked := by
  rw [writeln, if_neg hs]
  exact marked_write (by simp)

theorem Honest.writeln
    (h : p.Honest)
    (s : String) :
    (p.writeln s).Honest := by
  by_cases hs : s = ""
  · cases hfresh : p.fresh with
    | true => simpa [Page.writeln, hs, hfresh, endLine, Honest] using h
    | false => exact ((h.marked hfresh).draw [.line s]).honest
  · exact (marked_writeln hs).honest

theorem Honest.lines
    {strokes : List Stroke}
    (h : p.Honest)
    (hstrokes : forall k, k ∈ strokes -> exists s, k = .line s) :
    (p.draw strokes).Honest := by
  induction strokes generalizing p with
  | nil => exact h
  | cons k strokes ih =>
      rw [List.forall_mem_cons] at hstrokes
      rcases hstrokes.1 with ⟨s, rfl⟩
      exact ih (h.writeln s) hstrokes.2

end Page

/-!
## Pieces

A piece may begin with a comment, which may be empty, and then comes a word.
-/

namespace Emit

/-- A writer that leaves something on every page. -/
def Marks (x : Emit Unit) : Prop := Turns Page.Honest x Page.Marked

theorem marks_write
    {fragments : List String}
    (h : String.join fragments ≠ "") :
    Marks (write fragments) :=
  ⟨_, _, performs_write _, fun _ _ _ => Page.marked_write h⟩

theorem marks_writeln
    {fragments : List String}
    (h : String.join fragments ≠ "") :
    Marks (writeln fragments) :=
  ⟨_, _, performs_writeln _, fun _ _ _ => Page.marked_writeln h⟩

theorem Marks.bind
    {x : Emit Unit}
    (hx : Marks x)
    (f : Unit -> Emit Unit)
    [Scripted (f ())] :
    Marks (x >>= f) :=
  hx.bind_scripted Page.Marked.draw f

theorem Marks.after
    {x : Emit Unit} {f : Unit -> Emit Unit}
    (hf : Marks (f ()))
    (hx : Turns Page.Honest x Page.Honest) :
    Marks (x >>= f) :=
  Turns.bind hx hf

theorem Marks.honest
    {x : Emit Unit}
    (hx : Marks x) :
    Turns Page.Honest x Page.Honest := by
  rcases hx with ⟨strokes, result, hperforms, hpage⟩
  exact ⟨strokes, result, hperforms, fun hok p hp => (hpage hok p hp).honest⟩

theorem Yields.marks
    {α : Type} {x : Emit α} {f : α -> Emit Unit} {R : α -> Prop}
    (hx : Yields x R)
    (hf : forall a, R a -> Marks (f a)) :
    Marks (x >>= f) := by
  rcases hx with ⟨result, hperforms, hR⟩
  cases result with
  | ok a =>
      rcases hf a (hR a rfl) with ⟨strokes, result', hperforms', hpage⟩
      exact ⟨strokes, result', hperforms.bind hperforms', hpage⟩
  | error fault => exact turns_error (hperforms.bind_error f)

theorem honest_skip : Turns Page.Honest (pure ()) Page.Honest :=
  ⟨[], .ok (), performs_pure (), fun _ _ hp => hp⟩

theorem honest_writeln (fragments : List String) :
    Turns Page.Honest (writeln fragments) Page.Honest :=
  ⟨_, _, performs_writeln fragments, fun _ _ hp => hp.writeln _⟩

theorem honest_pop : Turns Page.Honest pop Page.Honest :=
  ⟨_, _, performs_pop, fun _ _ hp => hp⟩

theorem honest_writeComment
    (settings : Settings)
    (comment : Value)
    (spacer : Bool) :
    Turns Page.Honest (writeComment settings comment spacer) Page.Honest := by
  rcases exists_performs_writeComment settings comment spacer with
    ⟨strokes, result, hperforms, hstrokes⟩
  refine ⟨strokes, result, hperforms, fun _ p hp => hp.lines ?_⟩
  rcases hstrokes with ⟨text, rfl⟩ | rfl | rfl
  · cases Page.commentLines text with
    | nil => simp [Page.commentStrokes]
    | cons line lines => simp [Page.commentStrokes]
  · simp
  · simp

end Emit

section

variable (settings : Settings) (d : Doclet)

theorem honest_writeLead
    (spacer : Bool) :
    Turns Page.Honest (writeLead settings d spacer) Page.Honest := by
  refine (honest_writeComment settings d.comment _).bind ?_
  split
  · exact (marks_write (by decide)).honest
  · exact honest_skip

theorem marks_writeAccess : Marks (writeAccess d) := by
  have haccess : Yields (textOf (accessOf d)) fun _ => True :=
    yields_textOf fun _ _ => trivial
  refine haccess.marks fun access _ => Turns.bind (marks_write (by simp)) ?_
  split
  · exact turns_scripted Page.Marked.draw _
  · exact turns_scripted Page.Marked.draw _

/-- Every piece leaves something on the page. -/
theorem Piece.marks_program
    (k : Piece) :
    Marks (k.program settings) := by
  cases k with
  | field d =>
      exact ((marks_writeAccess d).bind _).after
        (honest_writeLead settings d false)
  | method d =>
      exact ((marks_writeAccess d).bind _).after
        (honest_writeLead settings d false)
  | binding d =>
      refine Marks.after (Marks.bind (marks_write ?_) _)
        (honest_writeLead settings d false)
      split
      · decide
      · decide
  | function d =>
      exact ((marks_write (by decide)).bind _).after
        (honest_writeLead settings d false)
  | enumeration d =>
      exact ((marks_writeln (by simp)).bind _).after
        (honest_writeLead settings d false)
  | typeAlias d =>
      exact ((marks_write (by simp)).bind _).after (honest_writeln [])
  | shape d =>
      exact ((marks_write (by simp)).bind _).after
        (honest_writeLead settings d true)
  | openClass d =>
      simp only [program, writeHead, bind_assoc]
      refine Marks.after (Marks.bind ?_ _)
        (honest_writeLead settings d d.isInterface)
      split
      · exact (marks_write (by decide)).bind _
      · split
        · exact (marks_write (by decide)).bind _
        · exact (marks_write (by decide)).bind _
  | openSpace d =>
      exact ((marks_writeln (by simp)).bind _).after
        (honest_writeLead settings d false)
  | openCompanion d =>
      refine Marks.after ?_ (honest_writeln [])
      split
      · exact (marks_write (by decide)).bind _
      · exact (marks_writeln (by simp)).bind _
  | closeClass => exact (marks_writeln (by decide)).after honest_pop
  | closeSpace => exact (marks_writeln (by decide)).after honest_pop

end

/-!
## Courses
-/

namespace Course

variable {job : Job} {parent : Option Doclet} {inside : Bool}
  {es refused : List Entry}
  {seen seen' : Keyed Entry} {offers : List Offer} {pieces : List Piece}
    {strokes : List Stroke}
  {p : Page}

/-- A course comes back to the level where it started, to the start of a
line. -/
theorem page_draw
    (h : Course job parent inside es seen offers pieces refused seen')
    (hstrokes : Performs (writeAll job.settings pieces) strokes (.ok ()))
    (hp : p.indented = false) :
    (p.draw strokes).depth = p.depth ∧ (p.draw strokes).indented = false := by
  -- the pieces of a course are balanced on every level, so also on the level of
  -- the page
  have hdraws : Draws False (Pen.AtStart 0) (writeAll job.settings pieces)
      (Pen.AtStart 0) :=
    h.draws False.elim False.elim 0
  rcases hdraws with ⟨strokes', result, hperforms, hpath⟩
  rcases hstrokes.unique hperforms with ⟨hresult, hdraw⟩
  rcases hpath hresult.symm ⟨0, .start⟩ rfl with ⟨_, hpath', rfl⟩
  rw [hdraw]
  simpa using hpath'.page p.depth (by simp) (by simpa using hp)

end Course

theorem honest_writeAll
    (settings : Settings)
    (pieces : List Piece) :
    Turns Page.Honest (writeAll settings pieces) Page.Honest := by
  cases pieces with
  | nil => exact honest_skip
  | cons k ks =>
      -- the first piece leaves something, and what is written cannot be taken
      -- back
      have hrest : Scripted (writeAll settings ks) :=
        ⟨exists_performs_writeAll settings ks⟩
      exact ((k.marks_program settings).bind _).honest

/-!
## Doclets
-/

namespace Doclet

/-- A doclet is settled by its flag and its types alone. -/
theorem settle_fields (d : Doclet) :
    { d.settle with optional := d.optional, typeNames := d.typeNames } = d := by
  rcases d.settle_cases with h | ⟨_, _, h⟩
  · rw [h]
  · rw [h]

theorem settle_settle (d : Doclet) : d.settle.settle = d.settle := by
  rcases d.settle_cases with h | ⟨_, _, h⟩
  · rw [h, h]
  · rw [h]
    rfl

end Doclet

theorem Session.current_of_offers
    {s s' : Session} {offers : List Offer}
    (h : s'.offers = s.offers ++ offers)
    (e : Entry) :
    s'.current e =
      if offers.any fun o => o.entry.place == e.place then (s.current e).settle
      else s.current e := by
  unfold current
  rw [h, List.any_append]
  cases s.offers.any fun o => o.entry.place == e.place with
  | false => simp
  | true => simp [Doclet.settle_settle]

/-!
## Offers
-/

/-- A session to which an offer has added something at most, back at the start
of a line. -/
structure Session.Extends (s s' : Session) : Prop where
  depth : s'.page.depth = s.page.depth
  indented : s'.page.indented = false
  text : exists written, s'.page.text = s.page.text ++ written
  fresh : s.page.Honest -> s'.page.Honest
  deferred : s.deferred <+: s'.deferred
  seen : forall name, s.seen.has name = true -> s'.seen.has name = true
  settled : forall e, s'.current e = s.current e ∨
    s'.current e = (s.current e).settle
  fields : forall e,
    { s'.current e with
      optional := (s.current e).optional
      typeNames := (s.current e).typeNames } = s.current e

namespace Declaration

variable {job : Job} {fuel : Nat} {e : Entry} {parent : Option Doclet}
  {inside taken : Bool} {s s' : Session}

/-- An offer that ends well takes a course. -/
theorem exists_course_of_run
    (hrun : (offer job fuel e parent inside).run s = .ok taken s') :
    exists offers pieces,
      Course job parent inside [e] s.seen offers pieces (leftOut e taken)
        s'.seen ∧
      s.Traces job.settings offers pieces s' := by
  cases takes_offer job fuel e parent inside s with
  | fault hfault =>
      rw [hrun] at hfault
      contradiction
  | answer hanswer hcourse =>
      rw [hrun] at hanswer
      cases hanswer
      exact hcourse

theorem extends_offer
    (hline : s.page.indented = false)
    (hrun : (offer job fuel e parent inside).run s = .ok taken s') :
    s.Extends s' := by
  rcases exists_course_of_run hrun with ⟨offers, pieces, hcourse, htraces⟩
  rcases htraces.page with ⟨strokes, hperforms, hpage⟩
  have hcurrent := Session.current_of_offers htraces.offers
  rcases hcourse.page_draw hperforms hline with ⟨hdepth, hindented⟩
  constructor
  · rw [hpage, hdepth]
  · rw [hpage, hindented]
  · rw [hpage]
    exact Page.exists_text_draw strokes s.page
  · intro hhonest
    rw [hpage]
    exact (honest_writeAll job.settings pieces).of_performs hperforms hhonest
  · rw [htraces.deferred]
    exact List.prefix_append _ _
  · exact fun name hname => hcourse.walk.has_mono hname
  · intro x
    rw [hcurrent x]
    split
    · exact Or.inr rfl
    · exact Or.inl rfl
  · intro x
    rw [hcurrent x]
    split
    · exact Doclet.settle_fields _
    · rfl

/-- The doclets that the visits store are that of the offer and those of the
table, settled. -/
theorem exists_offers_of_run
    (hrun : (offer job fuel e parent inside).run s = .ok taken s') :
    exists offers, s'.offers = s.offers ++ offers ∧
      forall o, o ∈ offers ->
        exists x, x ∈ e :: job.entries ∧ o.entry = x.settled := by
  rcases exists_course_of_run hrun with ⟨offers, _, hcourse, htraces⟩
  refine ⟨offers, htraces.offers, fun o ho => ?_⟩
  exact hcourse.walk.exists_entry (by simp) (List.subset_cons_self _ _) ho

/-- An offer that is refused is noted, and that is all. -/
theorem eq_of_refused
    (hrun : (offer job fuel e parent inside).run s = .ok false s') :
    s' = { s with
      offers := s.offers ++ [⟨e.settled, parent, inside, .refused⟩]
      notices := s.notices ++ [.moved e.doclet.longname] } := by
  cases fuel with
  | zero => contradiction
  | succ fuel =>
      unfold offer at hrun
      rcases exists_of_run_bind hrun with ⟨s₀, s₁, hget, hrest⟩
      cases hget
      dsimp only at hrest
      split at hrest
      · cases hrest
      · split at hrest
        · cases hrest
          simp [Entry.settled]
        · -- an entry that is declared is taken
          rcases exists_of_run_bind hrest with ⟨_, s₁, _, hrest⟩
          rcases exists_of_run_bind hrest with ⟨_, s₂, _, hrest⟩
          cases hrest

/-- An offer at the start of a line that ends well comes back to the start of a
line on the same level, and it only adds to the session.  The doclets are
settled at most, and what the visits store of them are doclets of the table,
settled.  If the entry is refused, it is settled and this is all: the page, the
declared names, the interfaces that are put off and the other doclets are as
before.  The table and the settings are not part of a session. -/
theorem offer_frame
    (hline : s.page.indented = false)
    (hrun : (offer job fuel e parent inside).run s = .ok taken s') :
    s.Extends s' ∧
      (exists offers, s'.offers = s.offers ++ offers ∧
        forall o, o ∈ offers ->
          exists x, x ∈ e :: job.entries ∧ o.entry = x.settled) ∧
      (taken = false ->
        s' = { s with
          offers := s.offers ++ [⟨e.settled, parent, inside, .refused⟩]
          notices := s.notices ++ [.moved e.doclet.longname] } ∧
        s'.current e = e.doclet.settle ∧
        forall x, x.place ≠ e.place -> s'.current x = s.current x) := by
  refine ⟨extends_offer hline hrun, exists_offers_of_run hrun, ?_⟩
  rintro rfl
  have hrefused := eq_of_refused hrun
  have hoffers : s'.offers =
      s.offers ++ [⟨e.settled, parent, inside, .refused⟩] := by
    rw [hrefused]
  refine ⟨hrefused, ?_, fun x hx => ?_⟩
  · simp [hrefused, Session.current, Entry.settled]
  · rw [Session.current_of_offers hoffers x]
    simp [Entry.settled, Ne.symm hx]

/-- A session below the outermost level. -/
def sunkSession : Session :=
  { Session.start with page := ⟨"", -1, false, true⟩ }

theorem offer_frame_sharedChildren :
    let job := Job.ofTable ⟨true, none, true⟩ sharedChildren
    let outer : Entry := ⟨0, .plain "class" "A" none⟩
    let inner : Entry := ⟨6, .plain "class" "A.B" (some "A")⟩
    (exists s', (offer job 3 outer none false).run sunkSession = .ok true s' ∧
      s'.page.text ≠ "" ∧ sunkSession.Extends s') ∧
    exists s', (offer job 3 inner (some outer.doclet) true).run sunkSession =
      .ok false s' ∧
      s'.page = sunkSession.page := by
  intro job outer inner
  constructor
  · have hrun : (offer job 3 outer none false).run sunkSession = .ok true _ :=
      run_of_answer? (by decide +kernel)
    exact ⟨_, hrun, by decide +kernel, (offer_frame rfl hrun).1⟩
  · have hrun : (offer job 3 inner (some outer.doclet) true).run sunkSession =
        .ok false _ :=
      run_of_answer? (by decide +kernel)
    rcases (offer_frame rfl hrun).2.2 rfl with ⟨hrefused, _, _⟩
    exact ⟨_, hrun, by rw [hrefused]⟩

end Declaration

end Ambient
