import Ambient.Proofs.Script.Course

/-!
# Interfaces that are put off

The interface of a typedef that belongs to a class cannot stand in the class.
It is put off and written behind all roots, where nothing of what surrounded the
typedef is left: neither the level nor the line nor the text before it has a
bearing on it.
-/

namespace Ambient

open Emit Declaration

/-!
## Names
-/

theorem role_of_isPutOff
    {settings : Settings} {o : Offer}
    (h : o.isPutOff settings = true) :
    o.entry.doclet.role = .typedef := by
  by_contra hrole
  simp [Offer.isPutOff, isShape_of_role hrole] at h

theorem putOff_subset_declarations
    (settings : Settings)
    (offers : List Offer) :
    putOff settings offers ⊆ declarations offers := by
  intro e he
  rcases List.mem_map.mp he with ⟨o, ho, rfl⟩
  rcases List.mem_filter.mp ho with ⟨hmem, hput⟩
  simp only [Offer.isPutOff, Bool.and_eq_true, decide_eq_true_eq] at hput
  exact List.mem_map_of_mem
    (List.mem_filter.mpr ⟨hmem, decide_eq_true hput.1.1⟩)

namespace Walk

variable {job : Job} {parent : Option Doclet} {inside : Bool}
  {es refused : List Entry} {seen seen' : Keyed Entry} {offers : List Offer}

theorem has_of_mem_putOff
    (h : Walk job parent inside es seen offers refused seen')
    {settings : Settings} {name : String}
    (hname : name ∈ (putOff settings offers).map Entry.longname) :
    seen.has name = false ∧ seen'.has name = true := by
  rcases List.mem_map.mp hname with ⟨e, he, rfl⟩
  have hdeclared := putOff_subset_declarations settings offers he
  constructor
  · exact eq_false_of_ne_true (h.fresh_of_mem_declarations hdeclared)
  · exact (h.has_seen e.longname).mpr (Or.inr (List.mem_map_of_mem hdeclared))

theorem eq_nil
    (h : Walk job parent inside [] seen offers refused seen') :
    offers = [] ∧ refused = [] := by
  cases h with
  | nil => exact ⟨rfl, rfl⟩

/-- No name is put off twice: a typedef is declared before anything else is
offered. -/
theorem nodup_putOff
    (h : Walk job parent inside es seen offers refused seen')
    (settings : Settings) :
    ((putOff settings offers).map Entry.longname).Nodup := by
  induction h with
  | nil => exact List.nodup_nil
  | known _ _ ih => exact ih
  | refused _ _ _ ih => exact ih
  | @declared parent inside e es seen body hoisted seen₁ space seen₂ offers
      refused seen' _ _ hbody
      hspace hrest ihbody ihspace ih =>
      rw [putOff_cons, putOff_append, putOff_append, List.map_append,
        List.map_append, List.map_append]
      have hlater {name : String}
          (hname : name ∈ (putOff settings offers).map Entry.longname) :
          ¬ (name = e.doclet.longname ∨ seen₂.has name = true) := by
        rw [← Keyed.has_put e.doclet.longname name e.settled,
          (hrest.has_of_mem_putOff hname).1]
        exact Bool.false_ne_true
      have hinside : ((putOff settings body).map Entry.longname ++
          (putOff settings space).map Entry.longname).Nodup := by
        refine List.nodup_append.mpr ⟨ihbody, ihspace, ?_⟩
        rintro name hname _ hname' rfl
        have hseen := (hbody.has_of_mem_putOff hname).2
        rw [(hspace.has_of_mem_putOff hname').1] at hseen
        contradiction
      have hchildren : ((putOff settings body).map Entry.longname ++
          (putOff settings space).map Entry.longname ++
          (putOff settings offers).map Entry.longname).Nodup := by
        refine List.nodup_append.mpr ⟨hinside, ih, ?_⟩
        rintro name hname _ hname' rfl
        refine hlater hname' (Or.inr ?_)
        rcases List.mem_append.mp hname with hname | hname
        · exact hspace.has_mono (hbody.has_of_mem_putOff hname).2
        · exact (hspace.has_of_mem_putOff hname).2
      cases hput : Offer.isPutOff settings
        ⟨e.settled, parent, inside, .declared⟩ with
      | false => simpa [putOff, hput] using hchildren
      | true =>
          -- A typedef has no children, so only the names of the rest could
          -- equal its own.
          have hrole : e.doclet.role = .typedef := by
            rw [← e.doclet.role_settle]
            exact role_of_isPutOff hput
          rw [Job.bodyOf, if_neg (by simp [hrole])] at hbody
          rcases hbody.eq_nil with ⟨rfl, rfl⟩
          rw [Job.spaceOf, if_neg (by simp [hrole])] at hspace
          rcases hspace.eq_nil with ⟨rfl, -⟩
          have hfirst :
              (putOff settings [⟨e.settled, parent, inside, .declared⟩]).map
              Entry.longname = [e.doclet.longname] := by
            simp [putOff, hput]
          rw [hfirst]
          refine List.nodup_append.mpr ⟨List.nodup_singleton _, hchildren, ?_⟩
          rintro name hname _ hname' rfl
          exact hlater hname' (Or.inl (List.mem_singleton.mp hname))

end Walk

/-!
## Dispatch
-/

/-- Nothing is written, whether or not the run ends well. -/
def Emit.Still {α : Type} (x : Emit α) : Prop :=
  forall s, (x.after s).page = s.page

section

variable {α β : Type}

theorem still_pure (a : α) : Still (pure a) := fun _ => rfl

theorem Emit.Still.bind
    {x : Emit α} {f : α -> Emit β}
    (hx : Still x)
    (hf : forall a, Still (f a)) :
    Still (x >>= f) := by
  intro s
  have hfirst := hx s
  unfold Emit.after at hfirst ⊢
  rw [EStateM.run_bind]
  cases hrun : x.run s with
  | ok a s₁ =>
      rw [hrun] at hfirst
      exact (hf a s₁).trans hfirst
  | error fault s₁ =>
      rw [hrun] at hfirst
      exact hfirst

end

theorem still_prepare
    (settings : Settings)
    (e : Entry)
    (parent : Option Doclet) :
    Still (prepare settings e parent) := by
  intro s
  unfold Emit.after
  cases ends_prepare settings e parent s with
  | answer hrun h =>
      rw [hrun]
      exact h.1
  | fault _ h => exact h.elim

theorem still_declare
    {job : Job} {o : Offer}
    (h : o.isPutOff job.settings = true)
    (visit : Visitor) :
    Still (declare visit job o.entry o.parent) := by
  have hrole := role_of_isPutOff h
  simp only [Offer.isPutOff, Bool.and_eq_true] at h
  have hopening : opening job.settings o.entry.doclet o.parent = [] := by
    simp [opening, hrole, h.1.2, h.2]
  have hbody : job.bodyOf o.entry = [] := if_neg (by simp [hrole])
  have hturn : turn o.entry.doclet [] = [] := if_neg (by simp [hrole])
  have hspace : job.spaceOf o.entry [] = [] := if_neg (by simp [hrole])
  have hclosing : closing o.entry.doclet [] = [] := if_neg (by simp [hrole])
  rw [declare_eq, hopening, hbody]
  refine (still_prepare job.settings o.entry o.parent).bind fun _ => ?_
  change Still (writeAll job.settings (turn o.entry.doclet []) >>= _)
  rw [hturn, hspace, hclosing]
  exact still_pure ()

/-- To dispatch what is put off writes nothing. -/
theorem still_offer
    {job : Job} {o : Offer} {e : Entry}
    (h : o.isPutOff job.settings = true)
    (he : e.settled = o.entry)
    (fuel : Nat) :
    Still (offer job fuel e o.parent o.insideClass) := by
  cases fuel with
  | zero => exact fun _ => rfl
  | succ fuel =>
      unfold offer
      refine Still.bind (fun _ => rfl) fun s => ?_
      change Still (if s.seen.has e.settled.doclet.longname then _ else _)
      split
      · exact fun _ => rfl
      · split
        · exact fun _ => rfl
        · refine Still.bind (fun _ => rfl) fun _ => Still.bind ?_ fun _ =>
            fun _ => rfl
          change Still (declare _ job e.settled o.parent)
          rw [he]
          exact still_declare h _

/-!
## Ink
-/

theorem Course.closeClass_mem
    {job : Job} {parent : Option Doclet} {inside : Bool}
    {es refused : List Entry}
    {seen seen' : Keyed Entry} {offers : List Offer} {pieces : List Piece}
    (h : Course job parent inside es seen offers pieces refused seen')
    (hparent : isInClass parent = false)
    (hput : putOff job.settings offers ≠ []) :
    Piece.closeClass ∈ pieces := by
  induction h with
  | nil => contradiction
  | known _ _ ih => exact ih hparent hput
  | refused _ _ _ ih => exact ih hparent hput
  | @declared parent inside e es seen body bodyPieces hoisted seen₁ space
      spacePieces seen₂ offers
      pieces refused seen' _ _ hbody hspace hrest _ ihspace ihrest =>
      by_cases hclass : e.doclet.role = .classLike
      · simp [turn, hclass]
      · have hbodyOf : job.bodyOf e = [] := if_neg hclass
        rw [hbodyOf] at hbody
        rcases hbody.walk.eq_nil with ⟨rfl, rfl⟩
        have hinside : isInClass (some e.doclet.settle) = false := by
          simp [isInClass, Doclet.isClassLike, hclass]
        have hfirst : putOff job.settings
            [⟨e.settled, parent, inside, .declared⟩] = [] := by
          simp [putOff, Offer.isPutOff, hparent]
        rw [putOff_cons, putOff_append, hfirst, List.nil_append,
          List.nil_append] at hput
        by_cases hnone : putOff job.settings space = []
        · rw [hnone, List.nil_append] at hput
          simp [ihrest hparent hput]
        · simp [ihspace hinside hnone]

/-- The end of a class leaves ink on the page. -/
theorem fresh_of_closeClass_mem
    {settings : Settings} {pieces : List Piece} {s s' : Session}
    (h : Piece.closeClass ∈ pieces)
    (hrun : (writeAll settings pieces).run s = .ok () s') :
    s'.page.fresh = false := by
  induction pieces generalizing s with
  | nil => contradiction
  | cons k ks ih =>
      rcases exists_of_run_bind hrun with ⟨_, s₁, hfirst, hrest⟩
      rcases List.mem_cons.mp h with rfl | hks
      · rcases exists_performs_writeAll settings ks with
          ⟨strokes, result, hperforms⟩
        have hpage := (hperforms.of_run hrest).2.1
        have hfresh : s₁.page.fresh = false := by
          cases hfirst
          rfl
        rw [hpage]
        exact Page.fresh_draw strokes hfresh
      · exact ih hks hrest

/-!
## Frames
-/

/-- The level of the content of a document. -/
def outerLevel (settings : Settings) : Nat :=
  if settings.module.isSome then 1 else 0

/-- The text before the content of a document. -/
def headerText (settings : Settings) : String :=
  match settings.module with
  | some (.str name) =>
      "export = " ++ name ++ ";\n\ndeclare namespace " ++ name ++ " \x7b\n\n"
  | _ => ""

/-- The text behind the content of a document. -/
def footerText (settings : Settings) : String :=
  if settings.module.isSome then "\x7d\n" else ""

/-- Writes what stands before the content of a document. -/
def Document.writeHeader (settings : Settings) : Emit Unit :=
  match settings.module with
  | none => pure ()
  | some m => do openModule (← Emit.textOf m)

/-- Writes what stands behind the content of a document. -/
def Document.writeFooter (settings : Settings) : Emit Unit :=
  if settings.module.isSome then closeModule else pure ()

theorem Document.write_eq
    (job : Job) :
    write job =
      (do
        writeHeader job.settings
        let roots ← writeRoots job
        let deferred ← writeDeferred job.settings
        Emit.report [.published roots deferred]
        writeFooter job.settings) := by
  unfold write writeHeader writeFooter writeContent
  cases job.settings.module with
  | none => simp
  | some m => simp

theorem Document.run_of_publish
    {settings : Settings} {table : List Doclet}
    (h : (publish settings table).fault = none) :
    exists s,
      (write (Job.ofTable settings table)).run Session.start = .ok () s ∧
      (publish settings table).text = s.page.text := by
  unfold publish at h ⊢
  cases hrun : (write (Job.ofTable settings table)).run Session.start with
  | ok a s => exact ⟨s, rfl, rfl⟩
  | error fault s =>
      rw [hrun] at h
      contradiction

/-- The stages of a run that ends well. -/
theorem Document.exists_stages
    {job : Job} {s : Session}
    (h : (write job).run Session.start = .ok () s) :
    exists s₀ s₁ s₂ s₃ roots count,
      (writeHeader job.settings).run Session.start = .ok () s₀ ∧
      (writeRoots job).run s₀ = .ok roots s₁ ∧
      (writeSome job.settings s₁.deferred.length).run s₁ = .ok count s₂ ∧
      s₃.page = s₂.page ∧ s₂.SameRecord s₃ ∧
      (writeFooter job.settings).run s₃ = .ok () s := by
  rw [write_eq] at h
  rcases exists_of_run_bind h with ⟨_, s₀, hheader, h⟩
  rcases exists_of_run_bind h with ⟨roots, s₁, hroots, h⟩
  rcases exists_of_run_bind h with ⟨count, s₂, hdeferred, h⟩
  rcases exists_of_run_bind h with ⟨_, s₃, hreport, hfooter⟩
  rcases (performs_report [.published roots count]).of_run hreport with
    ⟨-, hpage, hsame⟩
  exact ⟨s₀, s₁, s₂, s₃, roots, count, hheader, hroots, hdeferred, hpage, hsame,
    hfooter⟩

theorem performs_openModule
    (name : String) :
    Performs (Document.openModule name)
      [.line (String.join ["export = ", name, ";"]), .line "",
        .line (String.join ["declare namespace ", name, " \x7b"]), .line "",
        .push] (.ok ()) :=
  (performs_writeln _).bind
    ((performs_writeln []).bind
      ((performs_writeln _).bind ((performs_writeln []).bind performs_push)))

theorem performs_closeModule :
    Performs Document.closeModule [.pop, .line (String.join ["\x7d"])]
      (.ok ()) :=
  performs_pop.bind (performs_writeln _)

theorem Document.page_writeHeader
    {settings : Settings} {s : Session}
    (h : (writeHeader settings).run Session.start = .ok () s) :
    s.page = ⟨headerText settings, outerLevel settings, false,
      settings.module.isNone⟩ ∧
      Session.start.SameRecord s := by
  unfold writeHeader at h
  unfold headerText outerLevel
  cases hmodule : settings.module with
  | none =>
      rw [hmodule] at h
      cases h
      exact ⟨rfl, .refl _⟩
  | some m =>
      rw [hmodule] at h
      cases m with
      | str name =>
          change (pure name >>= fun name => openModule name).run Session.start =
            _ at h
          rw [pure_bind] at h
          rcases (performs_openModule name).of_run h with ⟨-, hpage, hsame⟩
          refine ⟨hpage.trans ?_, hsame⟩
          simp only [Session.start, Page.empty, Page.draw_cons, Page.stroke,
            Page.writeln]
          simp [Page.write, Page.endLine, Page.push, Page.indentation,
            ← String.toList_inj]
      | _ => cases h

theorem Document.page_writeFooter
    {settings : Settings} {s s' : Session} {text : String} {fresh : Bool}
    (hpage : s.page = ⟨text, outerLevel settings, false, fresh⟩)
    (h : (writeFooter settings).run s = .ok () s') :
    s'.page.text = text ++ footerText settings ∧ s.SameRecord s' := by
  unfold writeFooter at h
  unfold outerLevel at hpage
  unfold footerText
  cases hmodule : settings.module.isSome with
  | false =>
      rw [hmodule] at h
      cases h
      simp [hpage, Session.SameRecord.refl]
  | true =>
      rw [hmodule] at h hpage
      rcases performs_closeModule.of_run h with ⟨-, hpage', hsame⟩
      refine ⟨?_, hsame⟩
      rw [hpage', hpage]
      simp [Page.stroke, Page.pop, Page.writeln, Page.write, Page.endLine,
        Page.indentation]

/-!
## Drain
-/

/-- What is written at the start of a line on a level, on a page that is fresh
or not. -/
def Emit.textFrom (x : Emit Unit) (level : Nat) (fresh : Bool) : String :=
  (x.after { Session.start with page := ⟨"", level, false, fresh⟩ }).page.text

/-- What is written from line to line on one level does not depend on the text
before it. -/
theorem Emit.Draws.page
    {x : Emit Unit} {n : Nat} {text : String} {fresh : Bool} {s s' : Session}
    (hx : Draws False (Pen.AtStart n) x (Pen.AtStart n))
    (hpage : s.page = ⟨text, n, false, fresh⟩)
    (hrun : x.run s = .ok () s') :
    s'.page = ⟨text ++ x.textFrom n fresh, n, false, s'.page.fresh⟩ ∧
      (fresh = false -> s'.page.fresh = false) := by
  rcases hx with ⟨strokes, result, hperforms, hpath⟩
  rcases hperforms.of_run hrun with ⟨hresult, hdraw, -⟩
  rcases hpath hresult ⟨n, .start⟩ rfl with ⟨_, hstrokes, rfl⟩
  have hunder := hstrokes.under (p := s.page) (by rw [hpage]; exact ⟨rfl, rfl⟩)
  rw [← hdraw] at hunder
  have hbehind : s.page = Page.behind text ⟨"", n, false, fresh⟩ := by
    rw [hpage, Page.behind, String.append_empty]
  have htext : s'.page.text = text ++ x.textFrom n fresh := by
    rw [hdraw, hbehind, Page.draw_behind, textFrom, hperforms.page_after]
    rfl
  constructor
  · calc
      s'.page = ⟨s'.page.text, s'.page.depth, s'.page.indented,
        s'.page.fresh⟩ := rfl
      _ = _ := by rw [htext, hunder.1, hunder.2]; rfl
  · intro hfresh
    rw [hdraw]
    exact Page.fresh_draw strokes (by rw [hpage, hfresh])

/-- The text of an interface on a level, after something else. -/
def shapeText (settings : Settings) (level : Nat) (d : Doclet) : String :=
  (writeShape settings d).textFrom level false

/-- The pieces of a queue. -/
def shapes (queue : List Entry) : List Piece :=
  queue.map fun e => .shape e.doclet

theorem page_writeShapes
    {settings : Settings} {n : Nat} {fresh : Bool}
    (queue : List Entry)
    {text : String} {s s' : Session}
    (hfresh : queue ≠ [] -> fresh = false)
    (hpage : s.page = ⟨text, n, false, fresh⟩)
    (hrun : (writeAll settings (shapes queue)).run s = .ok () s') :
    s'.page =
      ⟨text ++ String.join (queue.map fun e => shapeText settings n e.doclet),
        n, false,
      fresh⟩ := by
  induction queue generalizing s text with
  | nil =>
      cases hrun
      simp [hpage]
  | cons e queue ih =>
      cases hfresh (List.cons_ne_nil e queue)
      rcases exists_of_run_bind hrun with ⟨_, s₁, hshape, hrest⟩
      rcases (draws_writeShape False.elim settings).page hpage hshape with
        ⟨hpage₁, hfresh₁⟩
      rw [hfresh₁ rfl] at hpage₁
      rw [ih (fun _ => rfl) hpage₁ hrest]
      simp [shapeText, String.append_assoc]

/-- The queue is drained: its pieces are written, in order. -/
theorem Document.exists_performs_writeSome
    {settings : Settings}
    (queue : List Entry)
    {s s' : Session} {count : Nat}
    (hqueue : s.deferred = queue)
    (hrun : (writeSome settings queue.length).run s = .ok count s') :
    exists strokes,
      Performs (writeAll settings (shapes queue)) strokes (.ok ()) ∧
      s'.page = s.page.draw strokes ∧ s'.deferred = [] ∧
      s'.offers = s.offers := by
  induction queue generalizing s s' count with
  | nil =>
      cases hrun
      exact ⟨[], performs_pure (), rfl, hqueue, rfl⟩
  | cons e queue ih =>
      rcases exists_of_run_bind hrun with ⟨_, _, hget, hrest⟩
      cases hget
      rw [hqueue] at hrest
      rcases exists_of_run_bind hrest with ⟨_, s₁, htake, hrest⟩
      cases htake
      rcases exists_of_run_bind hrest with ⟨_, s₂, hshape, hrest⟩
      rcases exists_of_run_bind hrest with ⟨_, s₃, hlater, hend⟩
      cases hend
      rcases (Piece.shape e.doclet).exists_performs settings with
        ⟨strokes, result, hperforms⟩
      rcases hperforms.of_run hshape with ⟨rfl, hpage, hsame⟩
      rcases ih hsame.deferred hlater with
        ⟨strokes', hperforms', hpage', hdeferred, hoffers⟩
      refine ⟨strokes ++ strokes', hperforms.bind hperforms', ?_, hdeferred,
        hoffers.trans hsame.offers⟩
      rw [hpage', hpage, Page.draw_append]

/-- A walk over the roots that ends well takes a course. -/
theorem Document.exists_course_writeRoots
    {job : Job} {roots : Nat} {s s' : Session}
    (hrun : (writeRoots job).run s = .ok roots s') :
    exists offers pieces,
      Course job none false (job.children none) s.seen offers pieces []
        s'.seen ∧
        s.Traces job.settings offers pieces s' := by
  rcases exists_of_run_bind hrun with ⟨_, s₁, hwalk, hend⟩
  cases hend
  cases takes_visitRoots (takes_offer job (fuelFor job))
    (job.children none) s with
  | fault hfault _ => cases hfault.symm.trans hwalk
  | answer hanswer h =>
      cases hanswer.symm.trans hwalk
      exact h

/-- The pieces of the roots end where they began, and the page is not empty if
something was put off. -/
theorem Course.page
    {job : Job} {n : Nat} {text : String} {fresh : Bool}
    {seen seen' : Keyed Entry}
    {offers : List Offer} {pieces : List Piece} {s s' : Session}
    (h : Course job none false (job.children none) seen offers pieces [] seen')
    (htraces : s.Traces job.settings offers pieces s')
    (hpage : s.page = ⟨text, n, false, fresh⟩) :
    exists written fresh', s'.page = ⟨text ++ written, n, false, fresh'⟩ ∧
      (putOff job.settings offers ≠ [] -> fresh' = false) := by
  have hdraws : Draws False (Pen.AtStart n) (writeAll job.settings pieces)
      (Pen.AtStart n) :=
    h.draws False.elim False.elim n
  rcases htraces.page with ⟨strokes, hperforms, hdraw⟩
  rcases hperforms s with ⟨s₁, hwrite, hpage₁, -⟩
  have hsame : s'.page = s₁.page := hdraw.trans hpage₁.symm
  refine ⟨_, s₁.page.fresh, hsame.trans (hdraws.page hpage hwrite).1, ?_⟩
  intro hput
  exact fresh_of_closeClass_mem (h.closeClass_mem rfl hput) hwrite

/-- A published document is its header, the roots with all they contain, the
interfaces that were put off, in the order in which they were found, and its
footer.  To find an interface writes nothing, and no name is found twice. -/
theorem publish_factors
    (settings : Settings)
    (table : List Doclet)
    (h : (Document.publish settings table).fault = none) :
    exists s₀ s₁ s₂ roots written,
      let job := Job.ofTable settings table
      let queue := putOff settings s₁.offers
      (Document.writeHeader settings).run Session.start = .ok () s₀ ∧
      s₀.page.text = headerText settings ∧
      (Document.writeRoots job).run s₀ = .ok roots s₁ ∧
      s₁.page.text = headerText settings ++ written ∧
      s₁.deferred = queue ∧
      (Document.write job).run Session.start = .ok () s₂ ∧
      s₂.offers = s₁.offers ∧
      s₂.deferred = [] ∧
      (Document.publish settings table).text = headerText settings ++ written ++
        String.join (queue.map fun e =>
          shapeText settings (outerLevel settings) e.doclet) ++
          footerText settings ∧
      (queue.map Entry.longname).Nodup ∧
      (forall o, o ∈ s₁.offers -> o.isPutOff settings = true ->
        forall e, e.settled = o.entry -> forall fuel s,
          ((offer job fuel e o.parent o.insideClass).after s).page =
            s.page) := by
  rcases Document.run_of_publish h with ⟨s₂, hrun, htext⟩
  rcases Document.exists_stages hrun with
    ⟨s₀, s₁, s₃, s₄, roots, count, hheader, hroots, hdrain, hpage₄, hsame₄,
      hfooter⟩
  rcases Document.page_writeHeader hheader with ⟨hpage₀, hsame₀⟩
  rcases Document.exists_course_writeRoots hroots with
    ⟨offers, pieces, hcourse, htraces⟩
  rcases hcourse.page htraces hpage₀ with ⟨written, fresh, hpage₁, hfresh⟩
  have hall : s₁.offers = offers := by
    rw [htraces.offers, hsame₀.offers, Session.start, List.nil_append]
  have hqueue : s₁.deferred = putOff settings s₁.offers := by
    rw [htraces.deferred, hsame₀.deferred, hall]
    rfl
  rw [hqueue] at hdrain
  rw [← hall] at hfresh hcourse
  rcases Document.exists_performs_writeSome _ hqueue hdrain with
    ⟨strokes, hperforms, hdraw, hdeferred₃, hoffers₃⟩
  rcases hperforms s₁ with ⟨s₅, hrun₅, hpage₅, -⟩
  have hpage₃ :=
    (hdraw.trans hpage₅.symm).trans (page_writeShapes _ hfresh hpage₁ hrun₅)
  rcases Document.page_writeFooter (hpage₄.trans hpage₃) hfooter with
    ⟨htext₂, hsame⟩
  refine ⟨s₀, s₁, s₂, roots, written, hheader, ?_, hroots, ?_, hqueue, hrun,
    ?_, ?_, ?_, hcourse.walk.nodup_putOff settings, ?_⟩
  · rw [hpage₀]
    rfl
  · rw [hpage₁]
    rfl
  · rw [hsame.offers, hsame₄.offers, hoffers₃]
  · rw [hsame.deferred, hsame₄.deferred, hdeferred₃]
  · exact htext.trans htext₂
  · intro o _ hput e he fuel s
    exact @still_offer (Job.ofTable settings table) o e hput he fuel s

/-- Interfaces of a class and, before them in the table and in the document, of
a class in it; one of them is there twice. -/
def buriedShapes : List Doclet :=
  let shape (longname : String) (parent : String) : Doclet :=
    { Doclet.plain "typedef" longname (some parent) with
      typeNames := ["Object"]
      properties := [⟨"x", ["number"], .null, false, false, none, .null⟩] }
  [shape "A.B.S" "A.B", .plain "namespace" "N" none,
    .plain "class" "N.A" (some "N"), .plain "class" "A.B" (some "N.A"),
    shape "A.T" "N.A", shape "A.B.S" "N.A", shape "N.U" "N"]

theorem publish_factors_buriedShapes :
    let settings : Settings := ⟨true, some (.str "m"), true⟩
    (Document.publish settings buriedShapes).fault = none ∧
      exists (queue : List Entry) (written : String),
        queue.map Entry.longname = ["A.B.S", "A.T"] ∧
        (Document.publish settings buriedShapes).text =
          headerText settings ++ written ++
          String.join (queue.map fun e => shapeText settings 1 e.doclet) ++
          footerText settings := by
  intro settings
  have hend : (Document.publish settings buriedShapes).fault = none :=
    Option.isNone_iff_eq_none.mp (by decide +kernel)
  rcases publish_factors settings buriedShapes hend with
    ⟨_, s₁, s₂, _, written, _, _, _, _, _, hrun, hoffers, _, htext, _⟩
  have hafter : (Document.write (Job.ofTable settings buriedShapes)).after
      Session.start = s₂ := by
    rw [Emit.after, hrun]
  refine ⟨hend, putOff settings s₁.offers, written, ?_, htext⟩
  rw [← hoffers, ← hafter]
  decide +kernel

end Ambient
