import Ambient.Proofs.Script.Deferral
import Ambient.Proofs.Script.Faithful
import Ambient.Proofs.Script.Shift

/-!
# Documents inside a module

A module moves its content one level to the right and changes nothing else about
it, apart from the words for an export.  Both documents take the same course:
the doclets differ in their scopes, but no piece is written differently for
that.
-/

namespace Ambient

open Emit Declaration

/-!
## Doclets without a global scope
-/

/-- A doclet that is no longer global. -/
def Doclet.unscoped (d : Doclet) : Doclet :=
  { d with
    scope :=
      match d.scope with
      | .str scope => if scope = "global" then .null else .str scope
      | scope => scope }

def Entry.unscoped (e : Entry) : Entry := { e with doclet := e.doclet.unscoped }

def Offer.unscoped (o : Offer) : Offer :=
  { o with entry := o.entry.unscoped, parent := o.parent.map Doclet.unscoped }

def Piece.unscoped : Piece -> Piece
  | field d => field d.unscoped
  | method d => method d.unscoped
  | binding d => binding d.unscoped
  | function d => function d.unscoped
  | enumeration d => enumeration d.unscoped
  | typeAlias d => typeAlias d.unscoped
  | shape d => shape d.unscoped
  | openClass d => openClass d.unscoped
  | closeClass => closeClass
  | openSpace d => openSpace d.unscoped
  | openCompanion d => openCompanion d.unscoped
  | closeSpace => closeSpace

theorem Piece.unscoped_eq_map : Piece.unscoped = Piece.map Doclet.unscoped := by
  funext k
  cases k <;> rfl

/-- A job outside of a module, where no doclet is global. -/
def Job.bare (job : Job) : Job :=
  ⟨{ job.settings with module := none }, job.entries.map Entry.unscoped⟩

theorem Job.bare_ofTable
    (settings : Settings)
    (table : List Doclet) :
    (ofTable settings table).bare =
      ofTable { settings with module := none } (table.map Doclet.unscoped) := by
  unfold bare ofTable
  congr 1
  apply List.ext_getElem
  · simp
  · intro i hi hi'
    simp [Entry.unscoped]

theorem Doclet.settle_unscoped (d : Doclet) :
    d.unscoped.settle = d.settle.unscoped :=
  settle_comm unscoped (fun _ => rfl) (fun _ => rfl) (fun _ _ => rfl) d

theorem Entry.settled_unscoped (e : Entry) :
    e.unscoped.settled = e.settled.unscoped := by
  unfold settled unscoped
  rw [Doclet.settle_unscoped]

theorem isInClass_unscoped
    (parent : Option Doclet) :
    isInClass (parent.map Doclet.unscoped) = isInClass parent := by
  cases parent <;> rfl

theorem Job.children_bare
    (job : Job)
    (parent : Option Doclet) :
    job.bare.children (parent.map Doclet.unscoped) =
      (job.children parent).map Entry.unscoped := by
  have hname : (parent.map Doclet.unscoped).map Doclet.longname =
      parent.map Doclet.longname := by
    cases parent <;> rfl
  rw [children, hname, bare, List.filter_map]
  rfl

theorem Job.bodyOf_bare
    (job : Job)
    (e : Entry) :
    job.bare.bodyOf e.unscoped = (job.bodyOf e).map Entry.unscoped := by
  unfold bodyOf
  change (if e.doclet.role = .classLike then _ else _) = _
  split
  · exact job.children_bare (some e.doclet)
  · rfl

theorem Job.spaceOf_bare
    (job : Job)
    (e : Entry)
    (hoisted : List Entry) :
    job.bare.spaceOf e.unscoped (hoisted.map Entry.unscoped) =
      (job.spaceOf e hoisted).map Entry.unscoped := by
  unfold spaceOf
  change (if e.doclet.role = .nameSpace then _ else _) = _
  split
  · exact job.children_bare (some e.doclet)
  · rfl

section

variable {settings : Settings} {m : Value}
  (hmodule : settings.module = some m)

theorem isExported_unscoped
    (settings : Settings)
    (d : Doclet) :
    isExported settings d.unscoped = false := by
  unfold isExported Doclet.unscoped
  cases d.scope with
  | str scope =>
      by_cases h : scope = "global"
      · simp [h]
      · simp [h]
  | _ => simp

include hmodule

theorem isExported_eq_false (d : Doclet) : isExported settings d = false := by
  simp [isExported, hmodule]

theorem writeLead_unscoped
    (d : Doclet)
    (spacer : Bool) :
    writeLead { settings with module := none } d.unscoped spacer =
      writeLead settings d spacer := by
  unfold writeLead
  rw [isExported_unscoped, isExported_eq_false hmodule]
  rfl

omit hmodule in
theorem Interface.writeProperties_bare
    (fs : List Field) :
    writeProperties { settings with module := none } fs =
      writeProperties settings fs := by
  induction fs with
  | nil => rfl
  | cons f fs ih =>
      unfold writeProperties
      rw [ih]
      rfl

omit hmodule in
theorem Interface.writeBody_unscoped
    (d : Doclet) :
    writeBody { settings with module := none } d.unscoped =
      writeBody settings d := by
  unfold writeBody
  rw [writeProperties_bare]
  rfl

theorem writeShape_unscoped
    (d : Doclet) :
    writeShape { settings with module := none } d.unscoped =
      writeShape settings d := by
  unfold writeShape Interface.write
  rw [writeLead_unscoped hmodule, Interface.writeBody_unscoped]
  rfl

omit hmodule in
theorem writeAlias_unscoped
    (d : Doclet) :
    writeAlias { settings with module := none } d.unscoped =
      writeAlias settings d := by
  unfold writeAlias writeAliasType
  rw [Interface.writeBody_unscoped]
  rfl

omit hmodule in
theorem writeAccess_unscoped (d : Doclet) :
    writeAccess d.unscoped = writeAccess d := by
  have haccess : accessOf d.unscoped = accessOf d := rfl
  unfold writeAccess
  rw [haccess]
  unfold Doclet.unscoped
  cases d.scope with
  | str scope =>
      by_cases h : scope = "global"
      · simp [h]
      · simp [h]
  | _ => rfl

theorem writeHead_unscoped
    (d : Doclet) :
    writeHead { settings with module := none } d.unscoped =
      writeHead settings d := by
  unfold writeHead
  rw [writeLead_unscoped hmodule]
  rfl

theorem Piece.program_unscoped
    (k : Piece) :
    k.unscoped.program { settings with module := none } =
      k.program settings := by
  cases k with
  | field d =>
      simp only [unscoped, program, writeLead_unscoped hmodule,
        writeAccess_unscoped]
      rfl
  | method d =>
      simp only [unscoped, program, writeLead_unscoped hmodule,
        writeAccess_unscoped]
      rfl
  | binding d =>
      simp only [unscoped, program, writeLead_unscoped hmodule]
      rfl
  | function d =>
      simp only [unscoped, program, writeLead_unscoped hmodule]
      rfl
  | enumeration d =>
      simp only [unscoped, program, writeLead_unscoped hmodule]
      rfl
  | typeAlias d => exact writeAlias_unscoped d
  | shape d => exact writeShape_unscoped hmodule d
  | openClass d =>
      simp only [unscoped, program, writeHead_unscoped hmodule,
        Interface.writeProperties_bare]
      rfl
  | closeClass => rfl
  | openSpace d =>
      simp only [unscoped, program, writeLead_unscoped hmodule]
      rfl
  | openCompanion d =>
      simp only [unscoped, program, isExported_unscoped,
        isExported_eq_false hmodule]
      rfl
  | closeSpace => rfl

/-- Inside of a module, it does not show whether a doclet is global. -/
theorem faithful_unscoped :
    Faithful settings { settings with module := none } Doclet.unscoped where
  settle := Doclet.settle_unscoped
  longname _ := rfl
  kind _ := rfl
  isEnum _ := rfl
  isShape _ := rfl
  program k := by
    rw [← Piece.unscoped_eq_map]
    exact Piece.program_unscoped hmodule k

end

/-!
## Two runs
-/

theorem Keyed.has_put_congr
    {α : Type} {d d₀ : Keyed α}
    (h : forall name, d₀.has name = d.has name)
    (key : String)
    (value value₀ : α)
    (name : String) :
    (d₀.put key value₀).has name = (d.put key value).has name := by
  rw [Bool.eq_iff_iff, has_put, has_put, h]

/-- The course of a job inside of a module tells that of the job outside of
it. -/
theorem Course.unscoped
    {job : Job} {parent : Option Doclet} {inside : Bool}
    {es refused refused₀ : List Entry}
    {seen seen' seen₀ seen₀' : Keyed Entry} {offers offers₀ : List Offer}
    {pieces pieces₀ : List Piece}
    (hfaithful : Faithful job.settings job.bare.settings Doclet.unscoped)
    (h : Course job parent inside es seen offers pieces refused seen')
    (h₀ : Course job.bare (parent.map Doclet.unscoped) inside
      (es.map Entry.unscoped) seen₀ offers₀
      pieces₀ refused₀ seen₀')
    (hseen : forall name, seen₀.has name = seen.has name) :
    offers₀ = offers.map Offer.unscoped ∧ pieces₀ = pieces.map Piece.unscoped ∧
      refused₀ = refused.map Entry.unscoped ∧
        forall name, seen₀'.has name = seen'.has name := by
  induction h generalizing refused₀ seen₀ seen₀' offers₀ pieces₀ with
  | nil =>
      cases h₀ with
      | nil => exact ⟨rfl, rfl, rfl, hseen⟩
  | known hknown _ ih =>
      cases h₀ with
      | known _ hrest =>
          rcases ih hrest hseen with ⟨rfl, rfl, rfl, hafter⟩
          refine ⟨?_, rfl, rfl, hafter⟩
          rw [Entry.settled_unscoped]
          rfl
      | refused hfresh => cases hfresh.symm.trans ((hseen _).trans hknown)
      | declared hfresh => cases hfresh.symm.trans ((hseen _).trans hknown)
  | refused hfresh hdetached _ ih =>
      cases h₀ with
      | known hknown => cases hknown.symm.trans ((hseen _).trans hfresh)
      | refused _ _ hrest =>
          rcases ih hrest hseen with ⟨rfl, rfl, rfl, hafter⟩
          refine ⟨?_, rfl, rfl, hafter⟩
          rw [Entry.settled_unscoped]
          rfl
      | declared _ hfits => cases hfits.symm.trans hdetached
  | @declared _ _ e _ _ _ _ _ _ _ _ _ _ _ _ _ hfresh hfits _ _ _ ihbody
      ihspace ih =>
      cases h₀ with
      | known hknown => cases hknown.symm.trans ((hseen _).trans hfresh)
      | refused _ hdetached => cases hfits.symm.trans hdetached
      | declared _ _ hbody₀ hspace₀ hrest₀ =>
          have hsettle : e.unscoped.doclet.settle = e.doclet.settle.unscoped :=
            e.doclet.settle_unscoped
          rw [hsettle, job.bodyOf_bare] at hbody₀
          rcases ihbody hbody₀ hseen with ⟨rfl, rfl, rfl, hafter₁⟩
          rw [hsettle, job.spaceOf_bare] at hspace₀
          rcases ihspace hspace₀ hafter₁ with ⟨rfl, rfl, -, hafter₂⟩
          rcases ih hrest₀ (Keyed.has_put_congr hafter₂ _ _ _) with
            ⟨rfl, rfl, rfl, hafter₃⟩
          refine ⟨?_, ?_, rfl, hafter₃⟩
          · rw [Entry.settled_unscoped]
            simp [Offer.unscoped]
          · rw [hsettle, hfaithful.opening fun _ => isInClass_unscoped _,
              hfaithful.turn _ List.isEmpty_map,
              hfaithful.closing _ List.isEmpty_map, Piece.unscoped_eq_map]
            simp only [List.map_append]

theorem putOff_unscoped
    (settings : Settings)
    (offers : List Offer) :
    putOff { settings with module := none } (offers.map Offer.unscoped) =
      (putOff settings offers).map Entry.unscoped := by
  have hput (o : Offer) :
      o.unscoped.isPutOff { settings with module := none } =
        o.isPutOff settings := by
    unfold Offer.isPutOff
    rw [Offer.unscoped, isInClass_unscoped]
    rfl
  unfold putOff
  rw [List.filter_map, List.map_map, List.map_map]
  simp only [Function.comp_def, hput]
  rfl

theorem shapes_unscoped
    (queue : List Entry) :
    shapes (queue.map Entry.unscoped) = (shapes queue).map Piece.unscoped := by
  simp [shapes, Piece.unscoped, Entry.unscoped]

/-- What is offered is one of the entries that the walk starts with, or comes
from the table, and it is settled. -/
theorem Walk.exists_entry
    {job : Job} {parent : Option Doclet} {inside : Bool}
    {es refused known : List Entry} {seen seen' : Keyed Entry}
    {offers : List Offer} {o : Offer}
    (h : Walk job parent inside es seen offers refused seen')
    (hes : es ⊆ known)
    (hjob : job.entries ⊆ known)
    (ho : o ∈ offers) :
    exists e, e ∈ known ∧ o.entry = e.settled := by
  induction h with
  | nil => contradiction
  | known _ _ ih =>
      rcases List.cons_subset.mp hes with ⟨he, hrest⟩
      rcases List.mem_cons.mp ho with rfl | ho
      · exact ⟨_, he, rfl⟩
      · exact ih hrest ho
  | refused _ _ _ ih =>
      rcases List.cons_subset.mp hes with ⟨he, hrest⟩
      rcases List.mem_cons.mp ho with rfl | ho
      · exact ⟨_, he, rfl⟩
      · exact ih hrest ho
  | declared _ _ hbody _ _ ihbody ihspace ih =>
      rcases List.cons_subset.mp hes with ⟨he, hrest⟩
      have hhoisted :=
        List.Subset.trans hbody.refused_subset (job.bodyOf_subset _)
      rcases List.mem_cons.mp ho with rfl | ho
      · exact ⟨_, he, rfl⟩
      · rcases List.mem_append.mp ho with ho | ho
        · rcases List.mem_append.mp ho with ho | ho
          · exact ihbody (List.Subset.trans (job.bodyOf_subset _) hjob) ho
          · exact ihspace
              (List.Subset.trans (job.spaceOf_subset _ hhoisted) hjob) ho
        · exact ih hrest ho

theorem draws_shapes
    {plain : Prop} {n : Nat} {queue : List Entry}
    (settings : Settings)
    (h : plain -> forall e, e ∈ queue -> e.doclet.Plain) :
    Draws plain (Pen.AtStart n) (writeAll settings (shapes queue))
      (Pen.AtStart n) := by
  induction queue with
  | nil => exact draws_skip
  | cons e queue ih =>
      have he : plain -> e.doclet.Plain :=
        fun hplain => (List.forall_mem_cons.mp (h hplain)).1
      exact (draws_writeShape he settings).bind
        (ih fun hplain => (List.forall_mem_cons.mp (h hplain)).2)

/-- The script of a document: the pieces of its roots and then those of its
queue. -/
theorem Document.exists_script
    {job : Job} {s : Session}
    (h : (write job).run Session.start = .ok () s) :
    exists s₀ s₁ offers pieces seen strokes,
      (writeHeader job.settings).run Session.start = .ok () s₀ ∧
      Course job none false (job.children none) [] offers pieces [] seen ∧
      Performs (writeAll job.settings
        (pieces ++ shapes (putOff job.settings offers))) strokes
        (.ok ()) ∧
      s₁.page = s₀.page.draw strokes ∧
      (writeFooter job.settings).run s₁ = .ok () s := by
  rcases exists_stages h with
    ⟨s₀, s₁, s₂, s₃, roots, count, hheader, hroots, hdrain, hpage₃, -, hfooter⟩
  rcases page_writeHeader hheader with ⟨-, hsame₀⟩
  rcases exists_course_writeRoots hroots with ⟨offers, pieces, hcourse, htraces⟩
  have hqueue : s₁.deferred = putOff job.settings offers := by
    rw [htraces.deferred, hsame₀.deferred]
    rfl
  rw [hqueue] at hdrain
  rw [hsame₀.seen] at hcourse
  rcases htraces.page with ⟨strokes, hperforms, hpage₁⟩
  rcases exists_performs_writeSome _ hqueue hdrain with
    ⟨strokes', hperforms', hpage₂, -, -⟩
  refine ⟨s₀, s₃, offers, pieces, s₁.seen, strokes ++ strokes', hheader,
    hcourse, ?_, ?_, hfooter⟩
  · rw [writeAll_append]
    exact hperforms.bind hperforms'
  · rw [hpage₃, hpage₂, hpage₁, Page.draw_append]

/-- The pieces of a course and of what it puts off keep to the line. -/
theorem Course.draws_script
    {plain : Prop} {job : Job} {seen : Keyed Entry} {offers : List Offer}
    {pieces : List Piece}
    (h : Course job none false (job.children none) [] offers pieces [] seen)
    (hplain : plain -> forall e, e ∈ job.entries -> e.doclet.Plain)
    (n : Nat) :
    Draws plain (Pen.AtStart n)
      (writeAll job.settings (pieces ++ shapes (putOff job.settings offers)))
      (Pen.AtStart n) := by
  have hroots : job.children none ⊆ job.entries :=
    fun _ he => Job.mem_entries_of_mem_children he
  refine draws_writeAll_append (h.draws hplain (fun _ => hroots) n) ?_
  refine draws_shapes _ fun hp e he => ?_
  rcases List.mem_map.mp he with ⟨o, ho, rfl⟩
  rcases h.walk.exists_entry hroots (List.Subset.refl _)
    (List.mem_of_mem_filter ho) with ⟨e, he, heq⟩
  rw [heq]
  exact (hplain hp e he).settle

/-- Inside a module and on its own, a document makes the same strokes. -/
theorem Document.exists_shifted
    {job : Job} {m : Value} {s s' : Session}
    (hmodule : job.settings.module = some m)
    (hplain : forall e, e ∈ job.entries -> e.doclet.Plain)
    (hrun : (write job).run Session.start = .ok () s)
    (hrun' : (write job.bare).run Session.start = .ok () s') :
    exists lead lines line wrapped,
      Shifted (headerText job.settings) ⟨0, .start⟩ s'.page wrapped.page
      lead lines line ∧ (writeFooter job.settings).run wrapped = .ok () s := by
  rcases exists_script hrun with
    ⟨s₀, s₁, offers, pieces, seen, strokes, hheader, hcourse, hperforms, hpage,
      hfooter⟩
  rcases exists_script hrun' with
    ⟨s₀', s₁', offers', pieces', seen', strokes', hheader', hcourse',
      hperforms', hpage', hfooter'⟩
  have hroots : job.bare.children none =
      (job.children none).map Entry.unscoped :=
    job.children_bare none
  rw [hroots] at hcourse'
  have hfaithful := faithful_unscoped hmodule
  rcases hcourse.unscoped hfaithful hcourse' fun _ => rfl with ⟨rfl, rfl, -, -⟩
  change Performs
    (writeAll { job.settings with module := none }
      (_ ++ shapes (putOff { job.settings with module := none } _)))
    _ _ at hperforms'
  rw [putOff_unscoped, shapes_unscoped, ← List.map_append,
    Piece.unscoped_eq_map, hfaithful.writeAll] at hperforms'
  rcases hcourse.draws_script (fun _ : True => hplain) 0 with
    ⟨common, result, hcommon, hpath⟩
  rcases hperforms.unique hcommon with ⟨hresult, hdraw⟩
  rcases hpath hresult.symm ⟨0, .start⟩ rfl with ⟨_, hstrokes, rfl⟩
  have hbare : s'.page = Page.empty.draw common := by
    cases hheader'
    cases hfooter'
    rw [hpage', (hperforms'.unique hcommon).2]
    rfl
  have hwrapped : s₁.page =
      Page.draw common ⟨headerText job.settings, 1, false, false⟩ := by
    rw [hpage, hdraw, (page_writeHeader hheader).1, outerLevel, hmodule]
    rfl
  rcases hstrokes.shifted (shifted_start (headerText job.settings)) with
    ⟨lead, lines, line, hshifted⟩
  rw [← hbare, ← hwrapped] at hshifted
  exact ⟨lead, lines, line, s₁, hshifted, hfooter⟩

/-- A document inside a module is the document on its own, without the words for
an export, one level to the right.  Only the blank line with which it may begin
is left out on its own. -/
theorem publish_module
    (settings : Settings)
    (name : String)
    (table : List Doclet)
    (hplain : forall d, d ∈ table -> d.Plain)
    (hwrapped :
      (Document.publish { settings with module := some (.str name) }
        table).fault = none)
    (hbare : (Document.publish { settings with module := none }
      (table.map Doclet.unscoped)).fault = none) :
    exists lead, (lead = "" ∨ lead = "\n") ∧
      (Document.publish { settings with module := some (.str name) }
        table).text =
        "export = " ++ name ++ ";\n\ndeclare namespace " ++ name ++
          " \x7b\n\n" ++
          (lead ++ shift (Document.publish { settings with module := none }
            (table.map Doclet.unscoped)).text) ++ "\x7d\n" := by
  rcases Document.run_of_publish hwrapped with ⟨s, hrun, htext⟩
  rcases Document.run_of_publish hbare with ⟨s', hrun', htext'⟩
  have hentries (e : Entry)
      (he : e ∈
        (Job.ofTable { settings with module := some (.str name) }
          table).entries) :
      e.doclet.Plain :=
    hplain e.doclet (Job.mem_table_of_mem_entries he)
  rw [← Job.bare_ofTable { settings with module := some (.str name) }] at hrun'
  rcases Document.exists_shifted rfl hentries hrun hrun' with
    ⟨lead, lines, line, wrapped, hshifted, hfooter⟩
  have hpage : wrapped.page =
      ⟨wrapped.page.text, 1, false, wrapped.page.fresh⟩ := by
    calc
      wrapped.page =
          ⟨wrapped.page.text, wrapped.page.depth, wrapped.page.indented,
            wrapped.page.fresh⟩ := rfl
      _ = _ := by rw [hshifted.wrapped_under.1, hshifted.wrapped_under.2]; rfl
  refine ⟨lead, hshifted.lead_eq, ?_⟩
  rw [htext, htext', (Document.page_writeFooter hpage hfooter).1, hshifted.text]
  rfl

/-- A global class with a comment and an interface that is put off, and a global
function. -/
def globalBlocks : List Doclet :=
  [{ Doclet.plain "class" "C" none with
      scope := .str "global", comment := .str "/**\n * A class.\n */" },
    { Doclet.plain "typedef" "C.T" (some "C") with
      typeNames := ["Object"]
      properties :=
        [⟨"x", ["number"], .null, false, false, none, .str "/** A number. */"⟩]
          },
    { Doclet.plain "function" "C.f" (some "C") with scope := .str "static" },
    { Doclet.plain "function" "g" none with scope := .str "global" }]

theorem publish_module_globalBlocks :
    let wrapped := Document.publish ⟨true, some (.str "m"), true⟩ globalBlocks
    let bare :=
      Document.publish ⟨true, none, true⟩ (globalBlocks.map Doclet.unscoped)
    (forall d, d ∈ globalBlocks -> d.Plain) ∧ wrapped.fault = none ∧
      bare.fault = none ∧
      exists lead, (lead = "" ∨ lead = "\n") ∧
        wrapped.text = "export = m;\n\ndeclare namespace m \x7b\n\n" ++
          (lead ++ shift bare.text) ++
          "\x7d\n" := by
  intro wrapped bare
  have hplain : forall d, d ∈ globalBlocks -> d.Plain := by decide
  have hwrapped : wrapped.fault = none :=
    Option.isNone_iff_eq_none.mp (by decide +kernel)
  have hbare : bare.fault = none :=
    Option.isNone_iff_eq_none.mp (by decide +kernel)
  exact ⟨hplain, hwrapped, hbare,
    publish_module ⟨true, none, true⟩ "m" globalBlocks hplain hwrapped hbare⟩

end Ambient
