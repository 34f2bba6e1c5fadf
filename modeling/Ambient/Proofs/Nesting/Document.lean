import Ambient.Proofs.Nesting.Writers
import Ambient.Proofs.Walk

/-!
# Balanced documents

An offer of a tidy doclet leaves the page at the start of a line, in the blocks
where it began; this goes by the fuel, since the children of a namespace or a
class are offered inside a block of its own. What is put off on the way is tidy
too, so the interfaces at the end do the same.
-/

namespace Ambient

open Text Nesting Emit

/-!
## Runs that keep what is put off tidy
-/

/-- All doclets of some entries are tidy. -/
def AllTidy (es : List Entry) : Prop := forall e, e ∈ es -> e.doclet.Tidy

namespace Nesting

/-- Every run of `x` that starts with a page of the first kind and ends with an
answer ends with a page of the second kind, and puts off nothing but tidy
doclets. -/
def Carries {α : Type} (P : Page -> Prop) (x : Emit α)
    (Q : α -> Page -> Prop) : Prop :=
  forall s, P s.page -> AllTidy s.deferred ->
    Ends (fun _ => True) x s fun a s' => Q a s'.page ∧ AllTidy s'.deferred

section

variable {α β : Type} {P P' : Page -> Prop} {Q : α -> Page -> Prop}
  {R : β -> Page -> Prop}

theorem Leads.carries
    {x : Emit α}
    [hquiet : Quiet x]
    (h : Leads P x Q) :
    Carries P x Q := by
  intro s hP htidy
  cases h s hP with
  | answer hrun hQ =>
      cases hquiet.ends s with
      | answer hrun' hsame =>
          rw [hrun] at hrun'
          cases hrun'
          exact .answer hrun ⟨hQ, hsame.deferred ▸ htidy⟩
      | fault hrun' _ =>
          rw [hrun] at hrun'
          contradiction
  | fault hrun _ => exact .fault hrun trivial

theorem Carries.bind
    {x : Emit α} {f : α -> Emit β}
    (hx : Carries P x Q)
    (hf : forall a, Carries (Q a) (f a) R) :
    Carries P (x >>= f) R :=
  fun s hP htidy => (hx s hP htidy).bind fun a s' h => hf a s' h.1 h.2

theorem Carries.mono
    {x : Emit α} {Q' : α -> Page -> Prop}
    (hx : Carries P x Q)
    (h : forall a p, Q a p -> Q' a p) :
    Carries P x Q' :=
  fun s hP htidy => (hx s hP htidy).mono fun a s' hQ => ⟨h a s'.page hQ.1, hQ.2⟩

theorem Carries.of_imp
    {x : Emit α}
    (hx : Carries P x Q)
    (h : forall p, P' p -> P p) :
    Carries P' x Q :=
  fun s hP => hx s (h s.page hP)

theorem Carries.of_fact
    {c : Prop} {x : Emit α}
    (h : c -> Carries P x Q) :
    Carries (fun p => c ∧ P p) x Q :=
  fun s hP => h hP.1 s hP.2

theorem carries_ite
    {c : Prop} [Decidable c] {x y : Emit α}
    (hx : Carries P x Q)
    (hy : Carries P y Q) :
    Carries P (if c then x else y) Q := by
  split
  · exact hx
  · exact hy

theorem Carries.optional
    {c : Prop} [Decidable c] {x : Emit Unit} {k : Unit -> Emit β}
    (hx : Carries P x fun _ => P)
    (hk : Carries P (k ()) R) :
    Carries P (if c then x >>= k else k ()) R :=
  carries_ite (hx.bind fun _ => hk) hk

end
end Nesting

/-!
## Offers
-/

theorem Doclet.Tidy.settle
    {d : Doclet}
    (h : d.Tidy) :
    d.settle.Tidy := by
  rcases d.settle_cases with heq | ⟨kept, hkept, heq⟩ <;> rw [heq]
  · exact h
  · exact { h with typeNames := fun n hn => h.typeNames n (hkept n hn) }

namespace Declaration

/-- Every offer of a tidy doclet leaves the page where it was. -/
def Balances (visit : Visitor) : Prop :=
  forall (stack : List Nat) (depth : Nat) (e : Entry) (parent : Option Doclet)
    (inside : Bool),
    e.doclet.Tidy ->
      Carries (AtLine stack depth) (visit e parent inside) fun _ =>
        AtLine stack depth

section

variable {visit : Visitor} {job : Job} {stack : List Nat} {depth : Nat}

theorem carries_visitAll
    {parent : Doclet} {es : List Entry}
    (hvisit : Balances visit)
    (hes : AllTidy es) :
    Carries (AtLine stack depth) (visitAll visit parent es) fun _ =>
      AtLine stack depth := by
  induction es with
  | nil => exact leads_skip.carries
  | cons e es ih =>
      refine (hvisit stack depth e _ _ (hes e List.mem_cons_self)).bind
        fun _ => ?_
      exact ih fun e' he => hes e' (List.mem_cons_of_mem e he)

theorem carries_visitBody
    {parent : Doclet} {es : List Entry}
    (hvisit : Balances visit)
    (hes : AllTidy es) :
    Carries (AtLine stack depth) (visitBody visit parent es)
      fun refused p => AllTidy refused ∧ AtLine stack depth p := by
  induction es with
  | nil =>
      refine (leads_pure _).carries.mono ?_
      rintro _ p ⟨rfl, hp⟩
      exact ⟨hes, hp⟩
  | cons e es ih =>
      refine (hvisit stack depth e _ _ (hes e List.mem_cons_self)).bind
        fun taken => ?_
      refine (ih fun e' he => hes e' (List.mem_cons_of_mem e he)).bind
        fun refused => ?_
      refine Carries.of_fact fun hrefused => (leads_pure _).carries.mono ?_
      rintro _ p ⟨rfl, hp⟩
      refine ⟨?_, hp⟩
      split
      · exact hrefused
      · exact List.forall_mem_cons.mpr ⟨hes e List.mem_cons_self, hrefused⟩

theorem carries_writeSpace
    {d : Doclet} {es : List Entry}
    (hvisit : Balances visit)
    (hd : d.Tidy)
    (hes : AllTidy es) :
    Carries (AtWords stack depth) (writeSpace visit d es) fun _ =>
      AtLine stack depth := by
  have hopen : Leads (AtWords stack depth)
      (Emit.writeln ["namespace ", d.name, " \x7b"])
      fun _ => AtLine (4 * depth :: stack) depth :=
    leads_writeln_open (by simp) (by simp +decide [hd.name]) (by simp)
  refine hopen.carries.bind fun _ => leads_push.carries.bind fun _ => ?_
  refine (carries_visitAll hvisit hes).bind fun _ =>
    leads_pop.carries.bind fun _ => ?_
  exact (leads_writeln_close (Or.inl rfl)).carries

theorem allTidy_children
    (hjob : AllTidy job.entries)
    (parent : Option Doclet) :
    AllTidy (job.children parent) :=
  fun e he => hjob e (List.mem_of_mem_filter he)

theorem carries_writeNamespace
    {d : Doclet}
    (hvisit : Balances visit)
    (hjob : AllTidy job.entries)
    (hd : d.Tidy) :
    Carries (AtLine stack depth) (writeNamespace visit job d) fun _ =>
      AtLine stack depth :=
  (leads_writeLead hd).carries.bind fun _ =>
    carries_writeSpace hvisit hd (allTidy_children hjob _)

theorem carries_writeCompanion
    {settings : Settings} {d : Doclet} {refused : List Entry}
    (hvisit : Balances visit)
    (hd : d.Tidy)
    (hrefused : AllTidy refused) :
    Carries (AtLine stack depth) (writeCompanion visit settings d refused)
      fun _ => AtLine stack depth := by
  have hspace := @carries_writeSpace _ stack depth _ _ hvisit hd hrefused
  refine carries_ite leads_skip.carries ?_
  refine leads_writeln_blank.carries.bind fun _ => carries_ite ?_ ?_
  · exact leads_write_export.carries.bind fun _ => hspace
  · exact hspace.of_imp fun _ h => Or.inl h

theorem carries_writeClass
    {d : Doclet}
    (hvisit : Balances visit)
    (hjob : AllTidy job.entries)
    (hd : d.Tidy) :
    Carries (AtLine stack depth) (writeClass visit job d) fun _ =>
      AtLine stack depth := by
  refine (leads_writeHead hd).carries.bind fun _ =>
    leads_push.carries.bind fun _ => ?_
  refine Carries.optional (leads_writeConstructor hd).carries ?_
  refine Carries.optional
    (Interface.leads_writeProperties hd.properties).carries ?_
  refine (carries_visitBody hvisit (allTidy_children hjob _)).bind
    fun refused => ?_
  refine Carries.of_fact fun hrefused => leads_pop.carries.bind fun _ => ?_
  refine (leads_writeln_close (Or.inl rfl)).carries.bind fun _ => ?_
  exact carries_writeCompanion hvisit hd hrefused

theorem leads_isShape
    {P : Page -> Prop}
    (settings : Settings)
    (d : Doclet) :
    Leads P (isShape settings d) fun _ => P := by
  unfold isShape
  exact Leads.optional (fun _ => leads_report _) (fun _ _ h => h) leads_skip

theorem carries_writeTypedef
    {settings : Settings} {e : Entry} {parent : Option Doclet}
    (he : e.doclet.Tidy) :
    Carries (AtLine stack depth) (writeTypedef settings e parent) fun _ =>
      AtLine stack depth := by
  refine (leads_isShape settings e.doclet).carries.bind fun _ => ?_
  refine carries_ite (carries_ite ?_ (leads_writeShape he).carries)
    (leads_writeAlias he).carries
  refine (leads_report _).carries.bind fun _ => fun s hline htidy =>
    .answer rfl ⟨hline, ?_⟩
  exact List.forall_mem_append.mpr ⟨htidy, by simpa using he⟩

theorem carries_declare
    {e : Entry} {parent : Option Doclet}
    (hvisit : Balances visit)
    (hjob : AllTidy job.entries)
    (he : e.doclet.Tidy) :
    Carries (AtLine stack depth) (declare visit job e parent) fun _ =>
      AtLine stack depth := by
  unfold declare
  cases e.doclet.role with
  | classLike => exact carries_writeClass hvisit hjob he
  | nameSpace => exact carries_writeNamespace hvisit hjob he
  | member => exact (leads_writeMember he).carries
  | function => exact (leads_writeFunction he).carries
  | typedef => exact carries_writeTypedef he
  | package => exact leads_skip.carries
  | unknown => exact (leads_report _).carries

theorem carries_noteOffer
    {P : Page -> Prop}
    (o : Offer) :
    Carries P (noteOffer o) fun _ => P :=
  fun _ hP htidy => .answer rfl ⟨hP, htidy⟩

theorem carries_noteSeen
    {P : Page -> Prop}
    (e : Entry) :
    Carries P (noteSeen e) fun _ => P :=
  fun _ hP htidy => .answer rfl ⟨hP, htidy⟩

theorem balances_offer
    (hjob : AllTidy job.entries)
    (fuel : Nat) :
    Balances (offer job fuel) := by
  induction fuel with
  | zero => exact fun _ _ _ _ _ _ _ _ _ => .fault rfl trivial
  | succ fuel ih =>
      intro stack depth e parent inside he
      refine leads_get.carries.bind fun s => carries_ite ?_ (carries_ite ?_ ?_)
      · exact (carries_noteOffer _).bind fun _ => leads_skip.carries
      · refine (carries_noteOffer _).bind fun _ => ?_
        exact (leads_report _).carries.bind fun _ => leads_skip.carries
      · refine (carries_noteOffer _).bind fun _ => ?_
        refine (carries_declare ih hjob he.settle).bind fun _ => ?_
        exact (carries_noteSeen _).bind fun _ => leads_skip.carries

end
end Declaration

/-!
## Documents
-/

namespace Document

variable {stack : List Nat} {depth : Nat}

theorem carries_visitRoots
    {visit : Declaration.Visitor} {es : List Entry}
    (hvisit : Declaration.Balances visit)
    (hes : AllTidy es) :
    Carries (AtLine stack depth) (visitRoots visit es) fun _ =>
      AtLine stack depth := by
  induction es with
  | nil => exact leads_skip.carries
  | cons e es ih =>
      refine (hvisit stack depth e _ _ (hes e List.mem_cons_self)).bind
        fun _ => ?_
      exact ih fun e' he => hes e' (List.mem_cons_of_mem e he)

theorem carries_writeSome
    (settings : Settings)
    (fuel : Nat) :
    Carries (AtLine stack depth) (writeSome settings fuel) fun _ =>
      AtLine stack depth := by
  induction fuel with
  | zero => exact leads_skip.carries
  | succ fuel ih =>
      intro s hline htidy
      refine (ends_get (R := fun a s' => s = a ∧ s = s') ⟨rfl, rfl⟩).bind ?_
      rintro _ _ ⟨rfl, rfl⟩
      cases hdeferred : s.deferred with
      | nil => exact leads_skip.carries s hline htidy
      | cons e rest =>
          rw [hdeferred, AllTidy, List.forall_mem_cons] at htidy
          have hmodify : Ends (fun _ => True)
              (modify fun s : Session => { s with deferred := rest }) s
              fun _ s' => AtLine stack depth s'.page ∧ AllTidy s'.deferred :=
            ends_modify ⟨hline, htidy.2⟩
          refine hmodify.bind fun _ s' h => ?_
          have hrest : Carries (AtLine stack depth)
              (do
                Declaration.writeShape settings e.doclet
                return (← writeSome settings fuel) + 1)
              fun _ => AtLine stack depth := by
            refine (Declaration.leads_writeShape htidy.1).carries.bind
              fun _ => ?_
            exact ih.bind fun _ => leads_skip.carries
          exact hrest s' h.1 h.2

theorem carries_writeContent
    {job : Job}
    (hjob : AllTidy job.entries) :
    Carries (AtLine stack depth) (writeContent job) fun _ =>
      AtLine stack depth := by
  have hoffer := Declaration.balances_offer hjob (Declaration.fuelFor job)
  have hroots : Carries (AtLine stack depth) (writeRoots job) fun _ =>
      AtLine stack depth := by
    refine (carries_visitRoots hoffer
      (Declaration.allTidy_children hjob none)).bind fun _ => ?_
    exact leads_skip.carries
  have hdeferred : Carries (AtLine stack depth) (writeDeferred job.settings)
      fun _ => AtLine stack depth :=
    leads_get.carries.bind fun s =>
      carries_writeSome job.settings s.deferred.length
  exact hroots.bind fun _ => hdeferred.bind fun _ => (leads_report _).carries

theorem leads_openModule
    {name : String}
    (hname : OneLine name) :
    Leads (AtLine stack depth) (openModule name)
      fun _ => AtLine (4 * depth :: stack) (depth + 1) := by
  have hexport : Leads (AtLine stack depth)
      (Emit.writeln ["export = ", name, ";"])
      fun _ => AtLine stack depth := by
    refine leads_writeln_whole (by simp) (by simp +decide [hname]) (by simp) ?_
    exact closes_eq_false (c := '=') (by simp) (by decide)
  have hopen : Leads (AtLine stack depth)
      (Emit.writeln ["declare namespace ", name, " \x7b"])
      fun _ => AtLine (4 * depth :: stack) depth := by
    refine (leads_writeln_open (by simp) ?_ (by simp)).of_imp fun _ h =>
      Or.inl h
    simp +decide [hname]
  refine hexport.bind fun _ => leads_writeln_blank.bind fun _ =>
    hopen.bind fun _ => ?_
  exact leads_writeln_blank.bind fun _ => leads_push

theorem leads_closeModule :
    Leads (AtLine (4 * depth :: stack) (depth + 1)) closeModule fun _ =>
      AtLine stack depth :=
  leads_pop.bind fun _ => leads_writeln_close (Or.inl rfl)

theorem carries_write
    {job : Job}
    (hmodule : forall m, job.settings.module = some m -> m.WhenText OneLine)
    (hjob : AllTidy job.entries) :
    Carries (AtLine stack depth) (write job) fun _ => AtLine stack depth := by
  unfold write
  split
  · exact carries_writeContent hjob
  · rename_i m heq
    refine (leads_text (hmodule m heq)).carries.bind fun name =>
      Carries.of_fact fun hname => ?_
    refine (leads_openModule hname).carries.bind fun _ => ?_
    exact (carries_writeContent hjob).bind fun _ => leads_closeModule.carries

theorem allTidy_ofTable
    {settings : Settings} {table : List Doclet}
    (htable : forall d, d ∈ table -> d.Tidy) :
    AllTidy (Job.ofTable settings table).entries := by
  intro e he
  rcases List.mem_mapIdx.mp he with ⟨place, hplace, rfl⟩
  exact htable _ (List.getElem_mem hplace)

/-- A document of tidy doclets that is written to its end has balanced
blocks. -/
theorem balanced_publish
    {settings : Settings} {table : List Doclet}
    (hmodule : forall m, settings.module = some m -> m.WhenText OneLine)
    (htable : forall d, d ∈ table -> d.Tidy)
    (hend : (publish settings table).fault = none) :
    Balanced (publish settings table).text := by
  have hstart : AtLine [] 0 Session.start.page := ⟨rfl, rfl, read_empty⟩
  have hwrite :=
    carries_write hmodule (allTidy_ofTable htable) Session.start hstart nofun
  unfold publish at hend ⊢
  cases hwrite with
  | answer hrun h =>
      rw [hrun]
      exact h.1.read.balanced
  | fault hrun _ =>
      rw [hrun] at hend
      contradiction

/-- A property of which only the name and the type are known. -/
def sampleField (name : String) (typeNames : List String) : Field :=
  ⟨name, typeNames, .null, false, false, none, .null⟩

/-- A class in a namespace, with a comment, an interface that is put off, an
enumeration beside the body and a field whose type is written out. -/
def nestedBlocks : List Doclet :=
  [.plain "namespace" "N" none,
    { Doclet.plain "class" "N.C" (some "N")
      with comment := .str "/**\n * A class.\n */" },
    { Doclet.plain "typedef" "N.C.T" (some "N.C") with
      typeNames := ["Object"], properties :=
        [sampleField "x" ["Array<string>"]] },
    { Doclet.plain "member" "N.C#f" (some "N.C") with
      typeNames := ["Object"], properties :=
        [sampleField "\x7b\x7d" ["Object"]] },
    { Doclet.plain "member" "N.C.E" (some "N.C") with
      isEnum := true, properties := [sampleField "a" [], sampleField "b" []] }]

theorem balanced_publish_nestedBlocks :
    (forall d, d ∈ nestedBlocks -> d.Tidy) ∧
      (publish ⟨true, some (.str "m"), true⟩ nestedBlocks).fault = none ∧
      Balanced (publish ⟨true, some (.str "m"), true⟩ nestedBlocks).text := by
  have htable : forall d, d ∈ nestedBlocks -> d.Tidy := by decide
  have hmodule : forall m : Value, some (.str "m") = some m ->
      m.WhenText OneLine := by
    rintro _ ⟨⟩
    decide
  have hend : (publish ⟨true, some (.str "m"), true⟩ nestedBlocks).fault =
      none :=
    Option.isNone_iff_eq_none.mp (by decide +kernel)
  exact ⟨htable, hend, balanced_publish hmodule htable hend⟩

/-- An enumeration with a value that is a closing brace after a space. -/
def spacedBrace : Doclet :=
  { Doclet.plain "member" "E" none
    with isEnum := true, properties := [sampleField " \x7d" []] }

/-- It is not enough that the names of properties are no closing braces
themselves: spaces around a closing brace do not keep its line from closing a
block. -/
theorem not_balanced_spacedBrace :
    (forall f, f ∈ spacedBrace.properties ->
      f.Plain ∧ f.name ≠ "\x7d" ∧ f.name ≠ "\x7d;" ∧
        opens f.name.toList = false) ∧
      (publish ⟨true, none, true⟩ [spacedBrace]).fault = none ∧
      ¬ Balanced (publish ⟨true, none, true⟩ [spacedBrace]).text := by
  have hfields : forall f, f ∈ spacedBrace.properties ->
      f.Plain ∧ f.name ≠ "\x7d" ∧ f.name ≠ "\x7d;" ∧
        opens f.name.toList = false := by
    decide
  have hend : (publish ⟨true, none, true⟩ [spacedBrace]).fault = none :=
    Option.isNone_iff_eq_none.mp (by decide +kernel)
  have hunbalanced : ¬ Balanced
      (publish ⟨true, none, true⟩ [spacedBrace]).text := by
    decide +kernel
  exact ⟨hfields, hend, hunbalanced⟩

end Document
end Ambient
