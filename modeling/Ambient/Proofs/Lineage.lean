import Mathlib.Data.List.Nodup
import Mathlib.Data.List.Perm.Subperm
import Mathlib.Logic.Relation
import Ambient.Proofs.Walk

/-!
# Lines of ancestors

An entry is reached from a root through containers, each among the children of
the one before.  In a grounded table no entry has the long name of one of its
ancestors.  Then a run never gets lost, since its nesting is bounded by the size
of the table; and it declares no long name twice, since whatever is declared
inside an entry lies below it.
-/

namespace Ambient

/-- The long name of an entry. -/
abbrev Entry.longname (e : Entry) : String := e.doclet.longname

@[simp] theorem Entry.longname_settled (e : Entry) :
    e.settled.longname = e.longname :=
  e.doclet.longname_settle

/-!
## Lines
-/

/-- An entry with its ancestors, the nearest first and a root last. -/
inductive Lineage (job : Job) : List Entry -> Prop where
  | root {e}
      (hroot : e ∈ job.children none) :
      Lineage job [e]
  | child {e p line}
      (hline : Lineage job (p :: line))
      (hcontainer : p.doclet.isContainer = true)
      (hchild : e ∈ job.children (some p.doclet)) :
      Lineage job (e :: p :: line)

/-- No entry has the long name of one of its ancestors. -/
def Grounded (job : Job) : Prop :=
  forall line, Lineage job line -> (line.map Entry.longname).Nodup

theorem Job.mem_entries_of_mem_children
    {job : Job} {parent : Option Doclet} {e : Entry}
    (h : e ∈ job.children parent) :
    e ∈ job.entries :=
  List.mem_of_mem_filter h

theorem Lineage.subset
    {job : Job} {line : List Entry}
    (h : Lineage job line) :
    line ⊆ job.entries := by
  induction h with
  | root hroot => simpa using Job.mem_entries_of_mem_children hroot
  | child _ _ hchild ih =>
      exact List.cons_subset.mpr ⟨Job.mem_entries_of_mem_children hchild, ih⟩

theorem Grounded.length_le
    {job : Job} {line : List Entry}
    (hjob : Grounded job)
    (h : Lineage job line) :
    line.length ≤ job.entries.length :=
  (List.subperm_of_subset (List.Nodup.of_map Entry.longname (hjob line h))
    h.subset).length_le

/-- The fuel of a run lasts in a grounded table. -/
theorem Grounded.visits
    {job : Job}
    (hjob : Grounded job)
    (e : Entry)
    (he : e ∈ job.children none) :
    Visits (· ≠ .endless) job (Declaration.visit job) e := by
  -- the fuel that is left makes up for the ancestors so far
  refine Declaration.visits_of_good (fun _ h => h)
    (fun fuel e => exists line, Lineage job (e :: line) ∧
      job.entries.length ≤ fuel + line.length) ?_ ?_ _ e ?_
  · rintro e ⟨line, hline, hlength⟩
    have hbound := hjob.length_le hline
    rw [List.length_cons] at hbound
    omega
  · rintro fuel p c ⟨line, hline, hlength⟩ hcontainer hc
    refine ⟨p :: line, .child hline hcontainer hc, ?_⟩
    rw [List.length_cons]
    omega
  · refine ⟨[], .root he, ?_⟩
    have hfuel : job.entries.length * 1 ≤
        job.entries.length * (job.entries.length + 1) :=
      Nat.mul_le_mul_left _ (by omega)
    unfold Declaration.fuelFor
    omega

/-!
## What a walk declares
-/

/-- The entries that are declared by some offers, in order. -/
def declarations (offers : List Offer) : List Entry :=
  (offers.filter fun o => o.outcome = .declared).map Offer.entry

@[simp] theorem declarations_append
    (offers offers' : List Offer) :
    declarations (offers ++ offers') =
      declarations offers ++ declarations offers' := by
  simp [declarations]

@[simp] theorem declarations_known
    (e : Entry)
    (parent : Option Doclet)
    (inside : Bool)
    (offers : List Offer) :
    declarations (⟨e, parent, inside, .known⟩ :: offers) =
      declarations offers := by
  simp [declarations]

@[simp] theorem declarations_refused
    (e : Entry)
    (parent : Option Doclet)
    (inside : Bool)
    (offers : List Offer) :
    declarations (⟨e, parent, inside, .refused⟩ :: offers) =
      declarations offers := by
  simp [declarations]

@[simp] theorem declarations_declared
    (e : Entry)
    (parent : Option Doclet)
    (inside : Bool)
    (offers : List Offer) :
    declarations (⟨e, parent, inside, .declared⟩ :: offers) =
      e :: declarations offers := by
  simp [declarations]

theorem Keyed.has_put
    {α : Type}
    (key name : String)
    (value : α)
    (d : Keyed α) :
    (d.put key value).has name = true ↔ name = key ∨ d.has name = true := by
  by_cases h : name = key
  · subst h
    simp [has, get?_put_self]
  · simp [has, get?_put_of_ne value d h, h]

namespace Walk

variable {job : Job} {parent : Option Doclet} {inside : Bool}
  {es refused : List Entry} {seen seen' : Keyed Entry} {offers : List Offer}

theorem has_seen
    (h : Walk job parent inside es seen offers refused seen')
    (name : String) :
    seen'.has name = true ↔
      seen.has name = true ∨
        name ∈ (declarations offers).map Entry.longname := by
  induction h with
  | nil => simp [declarations]
  | known _ _ ih => simpa using ih
  | refused _ _ _ ih => simpa using ih
  | declared _ _ _ _ _ ihbody ihspace ihrest =>
      rw [ihrest, Keyed.has_put, ihspace, ihbody]
      simp only [declarations_declared, declarations_append, List.map_cons,
        List.map_append, List.mem_cons, List.mem_append, Entry.longname_settled,
        or_assoc]
      exact or_left_comm

theorem has_mono
    (h : Walk job parent inside es seen offers refused seen')
    {name : String}
    (hname : seen.has name = true) :
    seen'.has name = true :=
  (h.has_seen name).mpr (Or.inl hname)

theorem fresh_of_mem_declarations
    (h : Walk job parent inside es seen offers refused seen')
    {e : Entry}
    (he : e ∈ declarations offers) :
    ¬ seen.has e.longname = true := by
  induction h with
  | nil => contradiction
  | known _ _ ih => exact ih (by simpa using he)
  | refused _ _ _ ih => exact ih (by simpa using he)
  | declared hfresh _ hbody hspace _ ihbody ihspace ihrest =>
      simp only [declarations_declared, declarations_append, List.mem_cons,
        List.mem_append] at he
      intro hseen
      rcases he with rfl | (hmem | hmem) | hmem
      · rw [Entry.longname_settled, hfresh] at hseen
        contradiction
      · exact ihbody hmem hseen
      · exact ihspace hmem (hbody.has_mono hseen)
      · have hlater := hspace.has_mono (hbody.has_mono hseen)
        exact ihrest hmem ((Keyed.has_put _ _ _ _).mpr (Or.inr hlater))

end Walk

/-!
## Below an entry
-/

/-- An entry at or below some entries that have a line of ancestors in
common. -/
def Under (job : Job) (line es : List Entry) (x : Entry) : Prop :=
  exists e, e ∈ es ∧ exists above, (e :: line) <:+ (x :: above) ∧
    Lineage job (x :: above)

theorem Under.mono
    {job : Job} {line es es' : List Entry} {x : Entry}
    (h : Under job line es x)
    (hsub : es ⊆ es') :
    Under job line es' x := by
  rcases h with ⟨e, he, habove⟩
  exact ⟨e, hsub he, habove⟩

theorem Under.of_child
    {job : Job} {line es children : List Entry} {e x : Entry}
    (h : Under job (e :: line) children x)
    (he : e ∈ es) :
    Under job line es x := by
  rcases h with ⟨c, _, above, hsuffix, hline⟩
  exact ⟨e, he, above, (List.suffix_cons c (e :: line)).trans hsuffix, hline⟩

/-- In a grounded table, what lies below an entry has another name. -/
theorem Grounded.longname_ne
    {job : Job} {line children : List Entry} {e x : Entry}
    (hjob : Grounded job)
    (h : Under job (e :: line) children x) :
    x.longname ≠ e.longname := by
  rcases h with ⟨c, _, above, hsuffix, hline⟩
  have hnodup := List.nodup_cons.mp (hjob _ hline)
  have hmem : e ∈ above := by
    rcases List.suffix_cons_iff.mp hsuffix with heq | htail
    · rw [← (List.cons.inj heq).2]
      exact List.mem_cons_self
    · exact htail.subset (by simp)
  intro heq
  exact hnodup.1 (heq ▸ List.mem_map_of_mem hmem)

theorem Job.lineage_of_mem_bodyOf
    {job : Job} {line : List Entry} {e c : Entry}
    (hline : Lineage job (e :: line))
    (hc : c ∈ job.bodyOf e) :
    Lineage job (c :: e :: line) := by
  unfold bodyOf at hc
  split at hc
  · rename_i hrole
    exact .child hline (by simp [Doclet.isContainer, Doclet.isClassLike, hrole])
      hc
  · contradiction

theorem Job.lineage_of_mem_spaceOf
    {job : Job} {line refused : List Entry} {e c : Entry}
    (hline : Lineage job (e :: line))
    (hrefused : refused ⊆ job.bodyOf e)
    (hc : c ∈ job.spaceOf e refused) :
    Lineage job (c :: e :: line) := by
  unfold spaceOf at hc
  split at hc
  · rename_i hrole
    exact .child hline (by simp [Doclet.isContainer, Doclet.isNamespace, hrole])
      hc
  · exact lineage_of_mem_bodyOf hline (hrefused hc)

namespace Walk

variable {job : Job} {parent : Option Doclet} {inside : Bool}
  {es refused : List Entry} {seen seen' : Keyed Entry} {offers : List Offer}

theorem under_of_mem_declarations
    (h : Walk job parent inside es seen offers refused seen')
    {line : List Entry}
    (hline : forall e, e ∈ es -> Lineage job (e :: line))
    {x : Entry}
    (hx : x ∈ declarations offers) :
    exists y, x = y.settled ∧ Under job line es y := by
  induction h generalizing line with
  | nil => contradiction
  | known _ _ ih =>
      rcases ih (fun c hc => hline c (List.mem_cons_of_mem _ hc))
        (by simpa using hx) with
        ⟨y, hy, hunder⟩
      exact ⟨y, hy, hunder.mono (List.subset_cons_self _ _)⟩
  | refused _ _ _ ih =>
      rcases ih (fun c hc => hline c (List.mem_cons_of_mem _ hc))
        (by simpa using hx) with
        ⟨y, hy, hunder⟩
      exact ⟨y, hy, hunder.mono (List.subset_cons_self _ _)⟩
  | @declared _ _ e es _ _ _ _ _ _ _ _ _ _ _ hbody _ _ ihbody ihspace ihrest =>
      have hhead := hline e List.mem_cons_self
      have hbelow {children : List Entry}
          (h : exists y, x = y.settled ∧ Under job (e :: line) children y) :
          exists y, x = y.settled ∧ Under job line (e :: es) y := by
        rcases h with ⟨y, hy, hunder⟩
        exact ⟨y, hy, hunder.of_child List.mem_cons_self⟩
      simp only [declarations_declared, declarations_append, List.mem_cons,
        List.mem_append] at hx
      rcases hx with rfl | (hmem | hmem) | hmem
      · exact ⟨e, rfl, e, List.mem_cons_self, line, List.suffix_refl _, hhead⟩
      · exact hbelow
          (ihbody (fun c hc => Job.lineage_of_mem_bodyOf hhead hc) hmem)
      · exact hbelow (ihspace
          (fun c hc => Job.lineage_of_mem_spaceOf hhead hbody.refused_subset hc)
            hmem)
      · rcases ihrest (fun c hc => hline c (List.mem_cons_of_mem _ hc)) hmem
          with ⟨y, hy, hunder⟩
        exact ⟨y, hy, hunder.mono (List.subset_cons_self _ _)⟩

/-- What is declared inside an entry, in its body and in its namespace, lies
below it. -/
theorem under_of_mem_inside
    {e : Entry} {line hoisted : List Entry} {body space : List Offer}
    {seen₁ seen₂ : Keyed Entry}
    (hline : Lineage job (e :: line))
    (hbody : Walk job (some e.doclet.settle) true (job.bodyOf e) seen body
      hoisted seen₁)
    (hspace : Walk job (some e.doclet.settle) false (job.spaceOf e hoisted)
      seen₁ space [] seen₂)
    {x : Entry}
    (hx : x ∈ declarations body ++ declarations space) :
    exists y, x = y.settled ∧
      exists children, Under job (e :: line) children y := by
  rcases List.mem_append.mp hx with hmem | hmem
  · rcases hbody.under_of_mem_declarations
      (fun c hc => Job.lineage_of_mem_bodyOf hline hc) hmem with ⟨y, hy, hunder⟩
    exact ⟨y, hy, _, hunder⟩
  · rcases hspace.under_of_mem_declarations
      (fun c hc => Job.lineage_of_mem_spaceOf hline hbody.refused_subset hc)
        hmem with
      ⟨y, hy, hunder⟩
    exact ⟨y, hy, _, hunder⟩

theorem nodup_inside
    {e : Entry} {line hoisted : List Entry} {body space : List Offer}
    {seen₁ seen₂ : Keyed Entry}
    (hjob : Grounded job)
    (hline : Lineage job (e :: line))
    (hbody : Walk job (some e.doclet.settle) true (job.bodyOf e) seen body
      hoisted seen₁)
    (hspace : Walk job (some e.doclet.settle) false (job.spaceOf e hoisted)
      seen₁ space [] seen₂)
    (hnodup : ((declarations body).map Entry.longname).Nodup)
    (hnodup' : ((declarations space).map Entry.longname).Nodup) :
    ((e.settled :: (declarations body ++ declarations space)).map
      Entry.longname).Nodup := by
  have hne : forall x, x ∈ declarations body ++ declarations space ->
      x.longname ≠ e.settled.longname := by
    intro x hx
    rcases under_of_mem_inside hline hbody hspace hx with ⟨y, rfl, _, hunder⟩
    simpa using hjob.longname_ne hunder
  rw [List.map_cons, List.nodup_cons, List.map_append, List.nodup_append]
  refine ⟨?_, hnodup, hnodup', ?_⟩
  · rw [← List.map_append, List.mem_map]
    rintro ⟨x, hx, heq⟩
    exact hne x hx heq
  · rintro name hname name' hname' rfl
    rcases List.mem_map.mp hname' with ⟨x, hx, rfl⟩
    exact hspace.fresh_of_mem_declarations hx
      ((hbody.has_seen _).mpr (Or.inr hname))

theorem nodup_declarations
    (hjob : Grounded job)
    (h : Walk job parent inside es seen offers refused seen')
    {line : List Entry}
    (hline : forall e, e ∈ es -> Lineage job (e :: line)) :
    ((declarations offers).map Entry.longname).Nodup := by
  induction h generalizing line with
  | nil => exact List.nodup_nil
  | known _ _ ih =>
      simpa using ih fun c hc => hline c (List.mem_cons_of_mem _ hc)
  | refused _ _ _ ih =>
      simpa using ih fun c hc => hline c (List.mem_cons_of_mem _ hc)
  | @declared _ _ e es seen body hoisted seen₁ space seen₂ offers _ _ _ _ hbody
      hspace hrest
      ihbody ihspace ihrest =>
      have hhead := hline e List.mem_cons_self
      have hinside := nodup_inside hjob hhead hbody hspace
        (ihbody fun c hc => Job.lineage_of_mem_bodyOf hhead hc)
        (ihspace fun c hc =>
          Job.lineage_of_mem_spaceOf hhead hbody.refused_subset hc)
      have hafter := ihrest fun c hc => hline c (List.mem_cons_of_mem _ hc)
      rw [declarations_declared, declarations_append, declarations_append,
        ← List.cons_append, List.map_append, List.nodup_append]
      refine ⟨hinside, hafter, ?_⟩
      rintro name hname name' hname' rfl
      rcases List.mem_map.mp hname' with ⟨x, hx, rfl⟩
      refine hrest.fresh_of_mem_declarations hx ((Keyed.has_put _ _ _ _).mpr ?_)
      rw [List.map_cons, List.mem_cons, Entry.longname_settled, List.map_append,
        List.mem_append] at hname
      rw [hspace.has_seen, hbody.has_seen]
      rcases hname with heq | hmem | hmem
      · exact Or.inl heq
      · exact Or.inr (Or.inl (Or.inr hmem))
      · exact Or.inr (Or.inr hmem)

end Walk

/-!
## Tables without circles
-/

/-- One long name is that of a parent of a doclet with another. -/
def IsParent (table : List Doclet) (parent name : String) : Prop :=
  exists d, d ∈ table ∧ d.memberof = some parent ∧ d.longname = name

theorem Job.mem_table_of_mem_entries
    {settings : Settings} {table : List Doclet} {e : Entry}
    (h : e ∈ (ofTable settings table).entries) :
    e.doclet ∈ table := by
  rcases List.mem_mapIdx.mp h with ⟨i, hi, rfl⟩
  exact List.getElem_mem hi

theorem isParent_of_mem_children
    {settings : Settings} {table : List Doclet} {p e : Entry}
    (h : e ∈ (Job.ofTable settings table).children (some p.doclet)) :
    IsParent table p.longname e.longname := by
  refine ⟨e.doclet,
    Job.mem_table_of_mem_entries (Job.mem_entries_of_mem_children h), ?_, rfl⟩
  simpa using (List.mem_filter.mp h).2

theorem Lineage.transGen_isParent
    {settings : Settings} {table : List Doclet} {e : Entry} {line : List Entry}
    (h : Lineage (Job.ofTable settings table) (e :: line))
    {a : Entry}
    (ha : a ∈ line) :
    Relation.TransGen (IsParent table) a.longname e.longname := by
  induction line generalizing e with
  | nil => contradiction
  | cons p line ih =>
      cases h with
      | child hline _ hchild =>
          have hparent := isParent_of_mem_children hchild
          rcases List.mem_cons.mp ha with rfl | hmem
          · exact .single hparent
          · exact (ih hline hmem).tail hparent

theorem grounded_of_acyclic
    {table : List Doclet}
    (settings : Settings)
    (h : forall name, ¬ Relation.TransGen (IsParent table) name name) :
    Grounded (Job.ofTable settings table) := by
  intro line hline
  induction hline with
  | root => exact List.nodup_singleton _
  | child hline hcontainer hchild ih =>
      refine List.nodup_cons.mpr ⟨fun hmem => ?_, ih⟩
      rcases List.mem_map.mp hmem with ⟨a, ha, heq⟩
      have hcircle :=
        (Lineage.child hline hcontainer hchild).transGen_isParent ha
      rw [heq] at hcircle
      exact h _ hcircle

/-- A run over a table without circles does not run out of fuel, and it declares
no long name twice, whether or not the long names in the table differ. -/
theorem nodup_longnames_of_acyclic
    (settings : Settings)
    (table : List Doclet)
    (hacyclic : forall name, ¬ Relation.TransGen (IsParent table) name name) :
    Emit.Ends (· ≠ .endless) (Document.write (Job.ofTable settings table))
      Session.start
      fun _ s => ((declarations s.offers).map Entry.longname).Nodup := by
  have hjob := grounded_of_acyclic settings hacyclic
  have hrun := Document.follows_write (fun _ h => h) hjob.visits Session.start
  refine hrun.mono fun _ s hfollow => ?_
  rcases hfollow with ⟨offers, hoffers, hwalk⟩
  have hall : s.offers = offers := by simpa [Session.start] using hoffers
  rw [hall]
  exact hwalk.nodup_declarations hjob fun e he => .root he

/-- There are no circles when every long name is longer than that of its parent,
as it is when it extends it. -/
theorem acyclic_of_length_lt
    {table : List Doclet}
    (h : table.all fun d => d.memberof.all fun parent =>
      parent.length < d.longname.length)
    (name : String) :
    ¬ Relation.TransGen (IsParent table) name name := by
  have hstep : forall a b, IsParent table a b -> a.length < b.length := by
    rintro a _ ⟨d, hd, hparent, rfl⟩
    have hlength := List.all_eq_true.mp h d hd
    simpa [hparent] using hlength
  have hrun : forall a b, Relation.TransGen (IsParent table) a b ->
      a.length < b.length := by
    intro a b hab
    induction hab with
    | single hparent => exact hstep _ _ hparent
    | tail _ hparent ih => exact Nat.lt_trans ih (hstep _ _ hparent)
  exact fun hcircle => Nat.lt_irrefl _ (hrun name name hcircle)

/-- A class and a namespace that share children, some of them twice. -/
def sharedChildren : List Doclet :=
  [.plain "class" "A" none, .plain "namespace" "N" none,
    .plain "function" "A#f" (some "A"), .plain "function" "A#f" (some "N"),
    .plain "typedef" "A.T" (some "A"), .plain "typedef" "A.T" (some "A"),
    .plain "class" "A.B" (some "A"), .plain "function" "A.B#g" (some "A.B"),
    .plain "class" "A.B" (some "N")]

theorem nodup_longnames_sharedChildren :
    ¬ (sharedChildren.map Doclet.longname).Nodup ∧
      Emit.Ends (· ≠ .endless)
        (Document.write (Job.ofTable ⟨true, none, true⟩ sharedChildren))
        Session.start fun _ s =>
          ((declarations s.offers).map Entry.longname).Nodup := by
  have hrun := nodup_longnames_of_acyclic ⟨true, none, true⟩ sharedChildren
    (acyclic_of_length_lt (by decide))
  constructor
  · decide
  · assumption

end Ambient
