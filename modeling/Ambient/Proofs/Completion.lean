import Ambient.Proofs.Script.Ink
import Ambient.Proofs.Twin.Forest

/-!
# Documents that are complete

If the values that are written as they come are texts, no writer fails, whatever
the kinds, the names and the annotations are.  Then only an endless nesting
could keep a document from its end, and there is none if the long names differ.
-/

namespace Ambient

open Emit Declaration

/-!
## Steps that do not fail
-/

/-- The interfaces that are put off can be written. -/
def Session.QueueTexted (s : Session) : Prop :=
  forall e, e ∈ s.deferred -> e.doclet.Texted Numeral.isShort

namespace Emit

variable {α β : Type}

theorem Ends.of_run
    {E : Fault -> Prop} {x y : Emit α} {s : Session} {R : α -> Session -> Prop}
    (h : Ends E y s R)
    (hrun : x.run s = y.run s) :
    Ends E x s R := by
  cases h with
  | answer hy hR => exact .answer (hrun.trans hy) hR
  | fault hy hE => exact .fault (hrun.trans hy) hE

/-- A step that ends well unless it runs out of fuel, with an answer that meets
`R`. -/
def Safe (x : Emit α) (R : α -> Prop) : Prop :=
  forall s, s.QueueTexted -> Ends (· = .endless) x s fun a s' =>
    s'.QueueTexted ∧ R a

theorem Safe.bind
    {x : Emit α} {f : α -> Emit β} {P : α -> Prop} {R : β -> Prop}
    (hx : Safe x P)
    (hf : forall a, P a -> Safe (f a) R) :
    Safe (x >>= f) R :=
  fun s hs => (hx s hs).bind fun a s' h => hf a h.2 s' h.1

theorem safe_pure
    {R : α -> Prop} {a : α}
    (h : R a) :
    Safe (pure a) R :=
  fun _ hs => ends_pure ⟨hs, h⟩

theorem safe_modify
    {f : Session -> Session}
    (h : forall s : Session, s.QueueTexted -> (f s).QueueTexted) :
    Safe (modify f) fun _ => True :=
  fun s hs => ends_modify ⟨h s hs, trivial⟩

/-- A writer that is strict does not fail. -/
theorem safe_writer
    {x : Emit α}
    (hperforms : exists strokes result, Performs x strokes result)
    (hsteady : Steady True x) :
    Safe x fun _ => True := by
  intro s hs
  rcases hperforms with ⟨strokes, result, hperforms⟩
  rcases hperforms s with ⟨t, hrun, -, hrecord⟩
  rcases hsteady.runs s s ⟨rfl, rfl, rfl⟩ with ⟨result', u, -, hrun', -, -, hok⟩
  rcases hok trivial with ⟨a, rfl⟩
  rw [hrun'] at hrun
  refine .answer hrun' ⟨?_, trivial⟩
  cases result with
  | ok b =>
      cases hrun
      rw [Session.QueueTexted, hrecord.deferred]
      exact hs
  | error fault => cases hrun

end Emit

/-!
## Declarations
-/

theorem Doclet.Texted.settle
    {allowed : Int -> Bool} {d : Doclet}
    (h : d.Texted allowed) :
    d.settle.Texted allowed := by
  rcases d.settle_cases with hsettle | ⟨_, _, hsettle⟩
  · rwa [hsettle]
  · rw [hsettle]
    exact ⟨h.access, h.comment, h.tsType, h.thisType, h.properties, h.params,
      h.returns⟩

theorem doclet_of_mem_opening
    {settings : Settings} {d d' : Doclet} {parent : Option Doclet} {k : Piece}
    (hk : k ∈ opening settings d parent)
    (hd : k.doclet? = some d') :
    d' = d := by
  have hsome (x : Piece) (hx : x.doclet? = some d) (hmem : k ∈ [x]) :
      d' = d := by
    rw [List.mem_singleton.mp hmem, hx] at hd
    exact (Option.some.inj hd).symm
  unfold opening at hk
  cases hrole : d.role with
  | package => simp [hrole] at hk
  | unknown => simp [hrole] at hk
  | classLike => exact hsome _ rfl (by simpa only [hrole] using hk)
  | nameSpace => exact hsome _ rfl (by simpa only [hrole] using hk)
  | member =>
      simp only [hrole] at hk
      refine hsome _ ?_ hk
      split
      · rfl
      · split <;> rfl
  | function =>
      simp only [hrole] at hk
      refine hsome _ ?_ hk
      split <;> rfl
  | typedef =>
      simp only [hrole] at hk
      split at hk
      · split at hk
        · contradiction
        · exact hsome _ rfl hk
      · exact hsome _ rfl hk

section

variable {settings : Settings} {d : Doclet}
  (hd : d.Texted Numeral.isShort)

include hd

theorem safe_opening
    (parent : Option Doclet) :
    Safe (writeAll settings (opening settings d parent)) fun _ => True := by
  refine safe_writer (exists_performs_writeAll _ _)
    (steady_writeAll _ fun _ k hk d' hd' => ?_)
  rw [doclet_of_mem_opening hk hd']
  exact hd

theorem safe_turn
    (hoisted : List Entry) :
    Safe (writeAll settings (turn d hoisted)) fun _ => True := by
  refine safe_writer (exists_performs_writeAll _ _)
    (steady_writeAll _ fun _ k hk d' hd' => ?_)
  unfold turn at hk
  split at hk
  · rcases List.mem_cons.mp hk with rfl | hk
    · contradiction
    · split at hk
      · contradiction
      · rw [List.mem_singleton.mp hk] at hd'
        cases hd'
        exact hd
  · contradiction

omit hd in
theorem safe_closing
    (d : Doclet)
    (hoisted : List Entry) :
    Safe (writeAll settings (closing d hoisted)) fun _ => True := by
  refine safe_writer (exists_performs_writeAll _ _)
    (steady_writeAll _ fun _ k hk d' hd' => ?_)
  unfold closing at hk
  split at hk
  · rw [List.mem_singleton.mp hk] at hd'
    contradiction
  · contradiction

end

theorem safe_prepare
    {e : Entry}
    (he : e.doclet.Texted Numeral.isShort)
    (settings : Settings)
    (parent : Option Doclet) :
    Safe (prepare settings e parent) fun _ => True := by
  intro s hs
  refine ((ends_prepare settings e parent s).weaken fun _ => False.elim).mono ?_
  rintro _ s' ⟨-, -, -, hdeferred⟩
  refine ⟨?_, trivial⟩
  intro c hc
  rw [hdeferred] at hc
  rcases List.mem_append.mp hc with hc | hc
  · exact hs c hc
  · split at hc
    · rw [List.mem_singleton.mp hc]
      exact he
    · contradiction

section

variable {job : Job} {visit : Visitor}

theorem safe_visitBody
    {d : Doclet} {es : List Entry}
    (h : forall c, c ∈ es -> Safe (visit c (some d) true) fun _ => True) :
    Safe (visitBody visit d es) (· ⊆ es) := by
  induction es with
  | nil => exact safe_pure (List.Subset.refl [])
  | cons c es ih =>
      rw [List.forall_mem_cons] at h
      refine h.1.bind fun taken _ => (ih h.2).bind fun refused hrefused =>
        safe_pure ?_
      cases taken with
      | true => exact List.subset_cons_of_subset c hrefused
      | false => exact List.cons_subset_cons c hrefused

theorem safe_visitAll
    {d : Doclet} {es : List Entry}
    (h : forall c, c ∈ es -> Safe (visit c (some d) false) fun _ => True) :
    Safe (visitAll visit d es) fun _ => True := by
  induction es with
  | nil => exact safe_pure trivial
  | cons c es ih =>
      rw [List.forall_mem_cons] at h
      exact h.1.bind fun _ _ => ih h.2

theorem safe_declare
    {e : Entry}
    (he : e.doclet.Texted Numeral.isShort)
    (parent : Option Doclet)
    (h : forall c, c ∈ job.entries -> forall parent inside,
      Safe (visit c parent inside) fun _ => True) :
    Safe (declare visit job e parent) fun _ => True := by
  rw [declare_eq]
  refine (safe_prepare he _ parent).bind fun _ _ =>
    (safe_opening he parent).bind fun _ _ => ?_
  refine (safe_visitBody fun c hc => ?_).bind fun hoisted hhoisted => ?_
  · exact h c (job.bodyOf_subset e hc) _ _
  · refine (safe_turn he hoisted).bind fun _ _ =>
      (safe_visitAll fun c hc => ?_).bind fun _ _ => ?_
    · have hentries := List.Subset.trans hhoisted (job.bodyOf_subset e)
      exact h c (job.spaceOf_subset e hentries hc) _ _
    · exact safe_closing e.doclet hoisted

/-- No offer fails for another reason than that the fuel does not last. -/
theorem safe_offer
    (hjob : forall e, e ∈ job.entries -> e.doclet.Texted Numeral.isShort)
    (fuel : Nat)
    {e : Entry}
    (he : e ∈ job.entries)
    (parent : Option Doclet)
    (inside : Bool) :
    Safe (offer job fuel e parent inside) fun _ => True := by
  induction fuel generalizing e parent inside with
  | zero => exact fun _ _ => .fault rfl rfl
  | succ fuel ih =>
      have hnote (o : Offer) : Safe (noteOffer o) fun _ => True :=
        safe_modify fun _ hs => hs
      have hreport (notices : List Notice) : Safe (report notices) fun _ =>
          True :=
        safe_modify fun _ hs => hs
      have hseen (e : Entry) : Safe (noteSeen e) fun _ => True :=
        safe_modify fun _ hs => hs
      have hrespond (known : Bool) :
          Safe (respond (offer job fuel) job e.settled parent inside known)
            fun _ => True := by
        unfold respond
        split
        · exact (hnote _).bind fun _ _ => safe_pure trivial
        · split
          · refine (hnote _).bind fun _ _ => (hreport _).bind fun _ _ =>
              safe_pure trivial
          · refine (hnote _).bind fun _ _ => ?_
            refine (safe_declare (hjob e he).settle parent fun c hc =>
              ih hc).bind fun _ _ => ?_
            exact (hseen _).bind fun _ _ => safe_pure trivial
      exact fun s hs =>
        (hrespond (s.seen.has e.longname) s hs).of_run (run_offer_succ ..)

end

/-!
## Documents
-/

namespace Document

theorem safe_writeSome
    (settings : Settings)
    (fuel : Nat) :
    Safe (writeSome settings fuel) fun _ => True := by
  induction fuel with
  | zero => exact safe_pure trivial
  | succ fuel ih =>
      intro s hs
      have hdrain : Safe (drain settings fuel s.deferred) fun _ => True := by
        cases hqueue : s.deferred with
        | nil => exact safe_pure trivial
        | cons e queue =>
            rw [Session.QueueTexted, hqueue, List.forall_mem_cons] at hs
            refine (safe_modify (f := fun s => { s with deferred := queue })
              fun _ _ => hs.2).bind
              fun _ _ => ?_
            refine (safe_writer
              ((Piece.shape e.doclet).exists_performs settings)
              (steady_writeShape (fun _ => hs.1) settings)).bind fun _ _ => ?_
            exact ih.bind fun _ _ => safe_pure trivial
      exact (hdrain s hs).of_run (run_writeSome_succ ..)

theorem safe_visitRoots
    {visit : Visitor} {es : List Entry}
    (h : forall e, e ∈ es -> Safe (visit e none false) fun _ => True) :
    Safe (visitRoots visit es) fun _ => True := by
  induction es with
  | nil => exact safe_pure trivial
  | cons e es ih =>
      rw [List.forall_mem_cons] at h
      exact h.1.bind fun _ _ => ih h.2

theorem safe_writeWith
    {job : Job}
    (hmodule : forall m, job.settings.module = some m ->
      exists name, m = .str name)
    (hjob : forall e, e ∈ job.entries -> e.doclet.Texted Numeral.isShort)
    (fuel : Nat) :
    Safe (writeWith (offer job fuel) job) fun _ => True := by
  have hheader : Safe (writeHeader job.settings) fun _ => True := by
    unfold writeHeader
    cases hm : job.settings.module with
    | none => exact safe_pure trivial
    | some m =>
        rcases hmodule m hm with ⟨name, rfl⟩
        simp only [textOf, pure_bind]
        exact safe_writer ⟨_, _, performs_openModule name⟩ inferInstance
  have hfooter : Safe (writeFooter job.settings) fun _ => True := by
    unfold writeFooter
    split
    · exact safe_writer ⟨_, _, performs_closeModule⟩ inferInstance
    · exact safe_pure trivial
  refine hheader.bind fun _ _ =>
    (safe_visitRoots fun e he => ?_).bind fun _ _ => ?_
  · exact safe_offer hjob fuel (Job.mem_entries_of_mem_children he) none false
  · have hdeferred : Safe (writeDeferred job.settings) fun _ => True :=
      fun s hs =>
        (safe_writeSome job.settings s.deferred.length s hs).of_run rfl
    refine hdeferred.bind fun count _ => ?_
    exact (safe_writer ⟨_, _, performs_report _⟩ inferInstance).bind fun _ _ =>
      hfooter

theorem fault_publish_eq_none
    {settings : Settings} {table : List Doclet}
    (hmodule : forall m, settings.module = some m -> exists name, m = .str name)
    (hnodup : (table.map Doclet.longname).Nodup)
    (htable : forall d, d ∈ table -> d.Texted Numeral.isShort) :
    (publish settings table).fault = none := by
  have hlasts := fault_publish_ne_endless settings hnodup
  have hjob (e : Entry) (he : e ∈ (Job.ofTable settings table).entries) :
      e.doclet.Texted Numeral.isShort :=
    htable e.doclet (Job.mem_table_of_mem_entries he)
  rw [publish_eq_publishBy] at hlasts ⊢
  unfold publishBy at hlasts ⊢
  cases safe_writeWith hmodule hjob (fuelFor _) Session.start
    (List.forall_mem_nil _) with
  | answer hrun _ =>
      unfold visit
      rw [hrun]
  | fault hrun hfault =>
      unfold visit at hlasts
      rw [hrun, hfault] at hlasts
      exact (hlasts rfl).elim

end Document

theorem Settings.exists_module_eq_str
    {options : Options.Entries}
    (h : forall m, Value.get? "module" options = some m -> m.truthy = true ->
      exists name, m = .str name)
    (m : Value)
    (hm : (ofOptions options).module = some m) :
    exists name, m = .str name := by
  unfold ofOptions at hm
  dsimp only at hm
  split at hm
  · rename_i m' hget
    split at hm
    · cases hm
      exact h m hget ‹_›
    · contradiction
  · contradiction

/-- A document is written to its end if the long names differ and what is
written as it comes is a text, with numbers that are not too long.  It does not
begin with a line break, and it ends with one unless it is empty. -/
theorem publish_complete
    (options : Options.Entries)
    (table : List Doclet)
    (hmodule : forall m, Value.get? "module" options = some m ->
      m.truthy = true ->
      exists name, m = .str name)
    (hnodup : (table.map Doclet.longname).Nodup)
    (htable : forall d, d ∈ table -> d.Texted Numeral.isShort) :
    let published := Document.publish (Settings.ofOptions options) table
    published.fault = none ∧
      (published.text = "" ∨ published.text.toList.getLast? = some '\n') ∧
      published.text.toList.head? ≠ some '\n' := by
  have hfault :=
    Document.fault_publish_eq_none (Settings.exists_module_eq_str hmodule)
      hnodup htable
  exact ⟨hfault, Document.text_publish hfault⟩

/-- A field of which only the name, the annotations and the default are
known. -/
def Field.plain (name : String) (typeNames : List String)
    (defaultValue : Option Value) : Field :=
  ⟨name, typeNames, .null, false, false, defaultValue, .null⟩

/-- Doclets with annotations that are malformed, an enumeration with defaults of
several sorts, an interface that is put off, and doclets of an unknown kind or
without a parent. -/
def oddParts : List Doclet :=
  [{ Doclet.plain "class" "C" none with
      comment := .str "\n\n * A class.", scope := .int 3, params :=
        [.plain "x." ["function("] none] },
    { Doclet.plain "typedef" "C.T" (some "C") with
      typeNames := ["Object"], properties := [.plain "y" ["Array.<"] none] },
    { Doclet.plain "member" "E" none with
      isEnum := true
      properties :=
        [.plain "A" [] (some (.int (-12))),
          .plain "B" [] (some (.map [(.str "k", .list [.null, .bool true])]))]
            },
    .plain "event" "C#e" (some "C"), .plain "function" "X.f" (some "X")]

theorem publish_complete_oddParts :
    let published :=
      Document.publish (Settings.ofOptions [(.str "module", .str "m")]) oddParts
    (oddParts.map Doclet.longname).Nodup ∧
      (forall d, d ∈ oddParts -> d.Texted Numeral.isShort) ∧
      published.fault = none ∧
      (published.text = "" ∨ published.text.toList.getLast? = some '\n') ∧
      published.text.toList.head? ≠ some '\n' := by
  intro published
  have hmodule : forall m,
      Value.get? "module" [(.str "module", .str "m")] = some m ->
      m.truthy = true -> exists name, m = .str name := by
    rintro _ ⟨⟩ _
    exact ⟨"m", rfl⟩
  have hnodup : (oddParts.map Doclet.longname).Nodup := by decide
  have htable : forall d, d ∈ oddParts -> d.Texted Numeral.isShort := by
    decide +kernel
  exact ⟨hnodup, htable,
    publish_complete [(.str "module", .str "m")] oddParts hmodule hnodup htable⟩

/-- An enumeration with an integer of more digits than are written as its
default. -/
def longDefault : Doclet :=
  { Doclet.plain "member" "E" none with
    isEnum := true
    properties :=
      [.plain "A" [] (some (.int (Int.ofNat (Nat.pow 16 3600 - 1))))] }

/-- It is not enough that the default values can be told in JSON: an integer may
be too long. -/
theorem fault_publish_longDefault :
    let published := Document.publish (Settings.ofOptions []) [longDefault]
    ([longDefault].map Doclet.longname).Nodup ∧
      (forall d, d ∈ [longDefault] -> d.Texted fun _ => true) ∧
      published.fault = some .longNumber ∧
      published.text = "enum E \x7b\n    A" := by
  intro published
  have htable : forall d, d ∈ [longDefault] -> d.Texted fun _ => true := by
    decide +kernel
  have hfault : published.fault = some .longNumber := by decide +kernel
  have htext : published.text = "enum E \x7b\n    A" := by decide +kernel
  exact ⟨by decide, htable, hfault, htext⟩

end Ambient
