import Ambient.Doclet.Table
import Ambient.Proofs.Traversal
import Ambient.Proofs.Twin.Fuel

/-!
# The reachable forest

A document depends on the doclets that are reached from the roots through
containers, and on the order among siblings.  Neither the places of the doclets
in the table nor the doclets that are not reached have a bearing on it.  In
particular, nothing is told of what belongs to a hidden doclet.
-/

namespace Ambient

open Emit Declaration

namespace Table

/-!
## Reached doclets
-/

/-- The doclets with a parent of some long name, or those without a parent. -/
def under (parent : Option String) (table : List Doclet) : List Doclet :=
  table.filter fun d => d.memberof == parent

/-- A doclet to which containers lead from a root. -/
inductive Reached (table : List Doclet) : Doclet -> Prop where
  | root {d}
      (hd : d ∈ under none table) :
      Reached table d
  | child {p d}
      (hp : Reached table p)
      (hcontainer : p.isContainer = true)
      (hd : d ∈ under (some p.longname) table) :
      Reached table d

/-- Two tables have the same roots, and every container that is reached has the
same children in both, in the same order. -/
structure SameForest (table table' : List Doclet) : Prop where
  roots : under none table' = under none table
  children : forall p, Reached table p -> p.isContainer = true ->
    under (some p.longname) table' = under (some p.longname) table

/-- A doclet from which parents lead to a root, whether or not they are
containers. -/
inductive Attached (table : List Doclet) : Doclet -> Prop where
  | root {d}
      (hd : d ∈ under none table) :
      Attached table d
  | child {p d}
      (hp : Attached table p)
      (hd : d ∈ under (some p.longname) table) :
      Attached table d

/-- The doclets of a table that are attached to a root, in order. -/
noncomputable def attached (table : List Doclet) : List Doclet := by
  classical
  exact table.filter fun d => Attached table d

theorem Reached.attached
    {table : List Doclet} {d : Doclet}
    (h : Reached table d) :
    Attached table d := by
  induction h with
  | root hd => exact .root hd
  | child _ _ hd ih => exact .child ih hd

/-- Every reached doclet is among some doclets that have the roots and all
children of their own. -/
theorem Reached.mem_of_closed
    {table inner : List Doclet} {d : Doclet}
    (h : Reached table d)
    (hroots : under none table ⊆ inner)
    (hchildren : forall p, p ∈ inner -> under (some p.longname) table ⊆ inner) :
    d ∈ inner := by
  induction h with
  | root hd => exact hroots hd
  | child _ _ hd ih => exact hchildren _ ih hd

theorem mem_of_mem_under
    {parent : Option String} {table : List Doclet} {d : Doclet}
    (h : d ∈ under parent table) :
    d ∈ table ∧ d.memberof = parent := by
  rcases List.mem_filter.mp h with ⟨hmem, hparent⟩
  exact ⟨hmem, eq_of_beq hparent⟩

theorem Attached.mem
    {table : List Doclet} {d : Doclet}
    (h : Attached table d) :
    d ∈ table := by
  cases h with
  | root hd => exact (mem_of_mem_under hd).1
  | child _ hd => exact (mem_of_mem_under hd).1

theorem mem_attached
    {table : List Doclet} {d : Doclet} :
    d ∈ attached table ↔ Attached table d := by
  classical
  unfold attached
  rw [List.mem_filter, decide_eq_true_iff]
  exact ⟨fun h => h.2, fun h => ⟨h.mem, h⟩⟩

/-- Filters that keep the same siblings leave the same siblings. -/
theorem under_filter_of_forall
    {parent : Option String} {table : List Doclet} {keep : Doclet -> Bool}
    (h : forall d, d ∈ under parent table -> keep d = true) :
    under parent (table.filter keep) = under parent table := by
  unfold under at h ⊢
  rw [List.filter_filter]
  apply List.filter_congr
  intro d hd
  cases hparent : d.memberof == parent with
  | false => exact Bool.false_and _
  | true =>
      rw [h d (List.mem_filter.mpr ⟨hd, hparent⟩)]
      rfl

theorem under_attached
    {parent : Option String} {table : List Doclet}
    (h : forall d, d ∈ under parent table -> Attached table d) :
    under parent (attached table) = under parent table := by
  classical
  unfold attached
  exact under_filter_of_forall fun d hd => decide_eq_true (h d hd)

/-- Tables with the same attached doclets have the same forest. -/
theorem SameForest.of_attached
    {table table' : List Doclet}
    (h : attached table' = attached table) :
    SameForest table table' := by
  constructor
  · rw [← under_attached fun _ hd => Attached.root hd, h,
      under_attached fun _ hd => Attached.root hd]
  · intro p hp _
    have hp' : Attached table' p := by
      rw [← mem_attached, h, mem_attached]
      exact hp.attached
    rw [← under_attached fun _ hd => hp'.child hd, h,
      under_attached fun _ hd => hp.attached.child hd]

end Table

/-!
## Documents of a forest
-/

theorem Job.map_doclet_entries
    (settings : Settings)
    (table : List Doclet) :
    (ofTable settings table).entries.map Entry.doclet = table := by
  apply List.ext_getElem
  · simp [ofTable]
  · intro i hi hi'
    simp [ofTable]

theorem Job.map_doclet_children
    (settings : Settings)
    (table : List Doclet)
    (parent : Option Doclet) :
    ((ofTable settings table).children parent).map Entry.doclet =
      Table.under (parent.map Doclet.longname) table := by
  have hentries := map_doclet_entries settings table
  unfold Table.under
  rw [← hentries, List.filter_map, hentries]
  rfl

theorem Emit.lasts_of_publishBy
    {x : Emit Unit}
    (h : (Document.publishBy x).fault ≠ some .endless) :
    Lasts x Session.start := by
  intro t hrun
  apply h
  rw [Document.publishBy, hrun]

theorem Document.publishBy_congr
    {x y : Emit Unit}
    (h : y.run Session.start = x.run Session.start) :
    publishBy y = publishBy x := by
  rw [publishBy, h, publishBy]

/-- Entries of two tables that match: they have the same doclet, and it is
reached. -/
def Entry.SameReached (table : List Doclet) (e e' : Entry) : Prop :=
  Table.Reached table e.doclet ∧ e'.doclet = e.doclet

namespace Table.SameForest

variable {table table' : List Doclet}

theorem forall₂_children
    {parent parent' : Option Doclet}
    (settings : Settings)
    (hunder : under (parent'.map Doclet.longname) table' =
      under (parent.map Doclet.longname) table)
    (hreached : forall d, d ∈ under (parent.map Doclet.longname) table ->
      Reached table d) :
    List.Forall₂ (Entry.SameReached table)
      ((Job.ofTable settings table).children parent)
      ((Job.ofTable settings table').children parent') := by
  unfold Entry.SameReached
  rw [← Job.map_doclet_children settings, ← Job.map_doclet_children settings]
    at hunder
  rw [← Job.map_doclet_children settings] at hreached
  rw [List.forall₂_and_left]
  constructor
  · intro e he
    exact hreached e.doclet (List.mem_map_of_mem he)
  · exact Entry.forall₂_of_map_doclet (f := id) hunder

theorem matching
    (h : SameForest table table')
    (settings : Settings) :
    Matching id (Job.ofTable settings table) (Job.ofTable settings table')
      (Entry.SameReached table) := by
  constructor
  · intro e e' he
    exact he.2
  · rintro e e' ⟨hreached, hdoclet⟩ hcontainer
    rw [hdoclet]
    exact forall₂_children settings (h.children e.doclet hreached hcontainer)
      fun d hd => .child hreached hcontainer hd

/-- The same forest gives the same document, as soon as there is one. -/
theorem publish_eq
    (h : SameForest table table')
    {settings : Settings}
    (hfinishes : (Document.publish settings table).fault ≠ some .endless) :
    Document.publish settings table' = Document.publish settings table := by
  -- both runs are in step as long as they have the same fuel, which is then
  -- enough for both
  have hstep : InStep id True
      (Document.writeWith (visit (Job.ofTable settings table))
        (Job.ofTable settings table))
      (Document.writeWith
        (offer (Job.ofTable settings table')
          (fuelFor (Job.ofTable settings table)))
        (Job.ofTable settings table')) Eq := by
    refine Document.inStep_writeWith (.id settings) rfl
      (forall₂_children settings h.roots fun d hd => .root hd) fun e e' he => ?_
    exact inStep_offer (h.matching settings) (.id settings) _ he
      (fun _ => rfl) false
  have hsame := Document.publishBy_eq_of_inStep hstep
  rw [← Document.publish_eq_publishBy] at hsame
  have hlasts : Lasts (Document.writeWith (offer (Job.ofTable settings table')
      (fuelFor (Job.ofTable settings table))) (Job.ofTable settings table'))
        Session.start := by
    apply lasts_of_publishBy
    rw [hsame]
    exact hfinishes
  calc
    Document.publish settings table' =
        Document.publishBy (Document.write (Job.ofTable settings table')) := rfl
    _ = Document.publishBy
      (Document.writeWith (offer (Job.ofTable settings table')
        (fuelFor (Job.ofTable settings table)))
          (Job.ofTable settings table')) :=
      Document.publishBy_congr (Document.run_write_of_lasts hlasts)
    _ = Document.publish settings table := hsame

end Table.SameForest

/-- A document that is written to its end, well or not, depends on the reachable
forest only: its text, how it ends and its notices, which tell how many roots
and interfaces there are.  So it does not change when the table is arranged anew
with siblings in the same order, nor when doclets come or go that are not
attached to a root. -/
theorem publish_eq_of_same_forest
    (settings : Settings)
    (table : List Doclet)
    (hfinishes : (Document.publish settings table).fault ≠ some .endless) :
    (forall table', Table.SameForest table table' ->
      Document.publish settings table' = Document.publish settings table) ∧
    (forall table',
      (forall parent, Table.under parent table' = Table.under parent table) ->
      Document.publish settings table' = Document.publish settings table) ∧
    (forall table', Table.attached table' = Table.attached table ->
      Document.publish settings table' = Document.publish settings table) := by
  refine ⟨fun table' h => h.publish_eq hfinishes, fun table' h =>
    ?_, fun table' h => ?_⟩
  · have hforest : Table.SameForest table table' :=
      ⟨h none, fun p _ _ => h (some p.longname)⟩
    exact hforest.publish_eq hfinishes
  · exact (Table.SameForest.of_attached h).publish_eq hfinishes

/-- A class and a namespace that share a child, and a class that is not attached
to a root. -/
def sharedForest : List Doclet :=
  [.plain "class" "C" none, .plain "function" "C#f" (some "C"),
    .plain "namespace" "N" none, .plain "typedef" "C.T" (some "C"),
    .plain "function" "C#f" (some "N"), .plain "class" "X" (some "Y"),
    .plain "function" "X#g" (some "X")]

/-- The same forest arranged anew, with other doclets that are not attached to a
root. -/
def rearrangedForest : List Doclet :=
  [.plain "function" "C#f" (some "N"), .plain "member" "X#h" (some "X"),
    .plain "class" "C" none, .plain "namespace" "N" none,
    .plain "function" "C#f" (some "C"), .plain "enum" "Z.E" (some "Z"),
    .plain "typedef" "C.T" (some "C")]

theorem sameForest_rearrangedForest :
    Table.SameForest sharedForest rearrangedForest := by
  have hclosed : forall p, p ∈ sharedForest.take 5 ->
      Table.under (some p.longname) sharedForest ⊆ sharedForest.take 5 ∧
        Table.under (some p.longname) rearrangedForest =
          Table.under (some p.longname) sharedForest := by
    simp only [sharedForest, List.take_succ_cons, List.take_zero,
      List.forall_mem_cons]
    simp [Table.under, Doclet.plain, rearrangedForest]
  constructor
  · rfl
  · intro p hp _
    refine (hclosed p (hp.mem_of_closed ?_ fun q hq => (hclosed q hq).1)).2
    simp [Table.under, sharedForest, Doclet.plain]

theorem publish_rearrangedForest :
    (Document.publish ⟨true, none, true⟩ sharedForest).fault ≠ some .endless ∧
      Table.SameForest sharedForest rearrangedForest ∧
      Document.publish ⟨true, none, true⟩ rearrangedForest =
        Document.publish ⟨true, none, true⟩ sharedForest := by
  have hfinishes : (Document.publish ⟨true, none, true⟩ sharedForest).fault ≠
      some .endless := by
    decide +kernel
  have hsame :=
    publish_eq_of_same_forest ⟨true, none, true⟩ sharedForest hfinishes
  exact ⟨hfinishes, sameForest_rearrangedForest,
    hsame.1 rearrangedForest sameForest_rearrangedForest⟩

/-!
## Hidden doclets
-/

/-- Whether a doclet is not part of the public documentation. -/
def Doclet.isHidden (includePrivate : Bool) (d : Doclet) : Bool :=
  d.hasFlag "undocumented" || d.hasFlag "ignore" || d.hasFlag "inherited" ||
    (!includePrivate && d.isPrivate)

namespace Table

/-- The removals one after the other leave what none of them drops. -/
theorem stripHidden_eq_filter
    (includePrivate : Bool)
    (table : List Doclet) :
    stripHidden includePrivate table =
      table.filter fun d => !d.isHidden includePrivate := by
  cases includePrivate with
  | true =>
      simp only [stripHidden, remove, List.foldl_cons, List.foldl_nil, if_pos,
        List.filter_filter, Doclet.isHidden]
      exact List.filter_congr fun d _ => by grind
  | false =>
      simp only [stripHidden, remove, List.foldl_cons, List.foldl_nil,
        Bool.false_eq_true, if_false, List.filter_filter, Doclet.isHidden]
      exact List.filter_congr fun d _ => by grind

/-- A doclet that is hidden or that has a hidden ancestor in the table. -/
inductive Covered (includePrivate : Bool) (table : List Doclet) : Doclet ->
    Prop where
  | hidden {d}
      (hhidden : d.isHidden includePrivate = true) :
      Covered includePrivate table d
  | child {p d}
      (hp : p ∈ table)
      (hmember : d.memberof = some p.longname)
      (hcovered : Covered includePrivate table p) :
      Covered includePrivate table d

/-- The doclets of a table that are not covered, in order. -/
noncomputable def uncovered (includePrivate : Bool) (table : List Doclet) :
    List Doclet := by
  classical
  exact table.filter fun d => ¬ Covered includePrivate table d

variable {includePrivate : Bool} {table table' : List Doclet} {p d : Doclet}

theorem mem_uncovered :
    d ∈ uncovered includePrivate table ↔
      d ∈ table ∧ ¬ Covered includePrivate table d := by
  classical
  unfold uncovered
  rw [List.mem_filter, decide_eq_true_iff]

/-- If long names differ, a doclet has one parent, and it is not covered if its
parent is not. -/
theorem not_covered_of_parent
    (hnodup : (table.map Doclet.longname).Nodup)
    (hp : p ∈ uncovered includePrivate table)
    (hmember : d.memberof = some p.longname)
    (hvisible : d.isHidden includePrivate = false) :
    ¬ Covered includePrivate table d := by
  rw [mem_uncovered] at hp
  intro hd
  cases hd with
  | hidden hhidden =>
      rw [hvisible] at hhidden
      contradiction
  | child hq hmember' hcovered =>
      rw [hmember, Option.some_inj] at hmember'
      rw [← List.inj_on_of_nodup_map hnodup hp.1 hq hmember'] at hcovered
      exact hp.2 hcovered

theorem not_covered_of_root
    (hroot : d.memberof = none)
    (hvisible : d.isHidden includePrivate = false) :
    ¬ Covered includePrivate table d := by
  intro hd
  cases hd with
  | hidden hhidden =>
      rw [hvisible] at hhidden
      contradiction
  | child _ hmember =>
      rw [hroot] at hmember
      contradiction

theorem under_stripHidden
    {parent : Option String}
    (h : forall d, d ∈ table -> d.memberof = parent ->
      d.isHidden includePrivate = false ->
      ¬ Covered includePrivate table d) :
    under parent (stripHidden includePrivate table) =
      under parent (uncovered includePrivate table) := by
  classical
  rw [stripHidden_eq_filter]
  unfold uncovered under
  rw [List.filter_filter, List.filter_filter]
  apply List.filter_congr
  intro d hd
  by_cases hparent : d.memberof = parent
  · cases hhidden : d.isHidden includePrivate with
    | true =>
        have hcovered : Covered includePrivate table d := .hidden hhidden
        simp [hcovered]
    | false => simp [h d hd hparent hhidden]
  · rw [beq_false_of_ne hparent]
    rfl

theorem Reached.mem_uncovered
    (hnodup : (table.map Doclet.longname).Nodup)
    (h : Reached (stripHidden includePrivate table) d) :
    d ∈ uncovered includePrivate table := by
  have hmem {parent : Option String} {d : Doclet}
      (hd : d ∈ under parent (stripHidden includePrivate table)) :
      d ∈ table ∧ d.memberof = parent ∧ d.isHidden includePrivate = false := by
    rcases mem_of_mem_under hd with ⟨hkept, hparent⟩
    rw [stripHidden_eq_filter] at hkept
    rcases List.mem_filter.mp hkept with ⟨hmem, hvisible⟩
    exact ⟨hmem, hparent, by simpa using hvisible⟩
  induction h with
  | root hd =>
      rcases hmem hd with ⟨hd, hroot, hvisible⟩
      exact Table.mem_uncovered.mpr ⟨hd, not_covered_of_root hroot hvisible⟩
  | child _ _ hd ih =>
      rcases hmem hd with ⟨hd, hmember, hvisible⟩
      exact Table.mem_uncovered.mpr
        ⟨hd, not_covered_of_parent hnodup ih hmember hvisible⟩

/-- Without hidden doclets, the forest is that of the doclets that are not
covered. -/
theorem SameForest.of_uncovered
    (hnodup : (table.map Doclet.longname).Nodup)
    (hnodup' : (table'.map Doclet.longname).Nodup)
    (h : uncovered includePrivate table' = uncovered includePrivate table) :
    SameForest (stripHidden includePrivate table)
      (stripHidden includePrivate table') := by
  constructor
  · rw [under_stripHidden fun _ _ hroot hvisible =>
      not_covered_of_root hroot hvisible, h,
      under_stripHidden fun _ _ hroot hvisible =>
        not_covered_of_root hroot hvisible]
  · intro p hp _
    have hvisible := hp.mem_uncovered hnodup
    have hvisible' := hvisible
    rw [← h] at hvisible'
    rw [under_stripHidden fun _ _ hmember =>
      not_covered_of_parent hnodup' hvisible' hmember, h,
      under_stripHidden fun _ _ hmember =>
        not_covered_of_parent hnodup hvisible hmember]

end Table

theorem Table.Covered.of_hidden
    {includePrivate : Bool} {table : List Doclet} {d : Doclet}
    (h : d.isHidden includePrivate = true ∨
      exists p, p ∈ table ∧ d.memberof = some p.longname ∧
      p.isHidden includePrivate = true) :
    Covered includePrivate table d := by
  rcases h with hhidden | ⟨p, hp, hmember, hhidden⟩
  · exact .hidden hhidden
  · exact .child hp hmember (.hidden hhidden)

/-- The doclets that are not covered are those in a set of visible doclets with
all their parents, given that everything outside of the set is covered. -/
theorem Table.uncovered_eq_filter
    {includePrivate : Bool} {table : List Doclet} {keep : Doclet -> Bool}
    (hkeep : forall d, d ∈ table -> keep d = true ->
      d.isHidden includePrivate = false ∧
      forall p, p ∈ table -> d.memberof = some p.longname -> keep p = true)
    (hdrop : forall d, d ∈ table -> keep d = false ->
      Covered includePrivate table d) :
    uncovered includePrivate table = table.filter keep := by
  classical
  have hclosed {d : Doclet} (hcovered : Covered includePrivate table d) :
      d ∈ table -> keep d = false := by
    induction hcovered with
    | hidden hhidden =>
        intro hd
        by_contra hk
        rw [(hkeep _ hd (Bool.not_eq_false _ ▸ hk)).1] at hhidden
        contradiction
    | child hp hmember _ ih =>
        intro hd
        by_contra hk
        have hparent := (hkeep _ hd (Bool.not_eq_false _ ▸ hk)).2 _ hp hmember
        rw [ih hp] at hparent
        contradiction
  unfold uncovered
  apply List.filter_congr
  intro d hd
  cases hk : keep d with
  | true =>
      have hvisible : ¬ Covered includePrivate table d := by
        intro hcovered
        rw [hclosed hcovered hd] at hk
        contradiction
      exact decide_eq_true hvisible
  | false => exact decide_eq_false (not_not_intro (hdrop d hd hk))

/-- The fuel lasts if long names differ. -/
theorem Document.fault_publish_ne_endless
    {table : List Doclet}
    (settings : Settings)
    (hnodup : (table.map Doclet.longname).Nodup) :
    (publish settings table).fault ≠ some .endless := by
  have hjob := (Job.distinct_ofTable settings hnodup).grounded
  unfold publish
  cases follows_write (fun _ h => h) hjob.visits Session.start with
  | answer hrun _ =>
      rw [hrun]
      simp
  | fault hrun hfault =>
      rw [hrun]
      simpa using hfault

/-- Nothing is told of the doclets that are hidden, nor of what belongs to
them. -/
theorem publish_stripHidden_eq
    (includePrivate : Bool)
    (settings : Settings)
    (table table' : List Doclet)
    (hnodup : (table.map Doclet.longname).Nodup)
    (hnodup' : (table'.map Doclet.longname).Nodup)
    (huncovered : Table.uncovered includePrivate table' =
      Table.uncovered includePrivate table) :
    Document.publish settings (Table.stripHidden includePrivate table') =
      Document.publish settings (Table.stripHidden includePrivate table) := by
  have hkept :
      ((Table.stripHidden includePrivate table).map Doclet.longname).Nodup := by
    rw [Table.stripHidden_eq_filter]
    exact hnodup.sublist ((List.filter_sublist).map Doclet.longname)
  exact (Table.SameForest.of_uncovered hnodup hnodup' huncovered).publish_eq
    (Document.fault_publish_ne_endless settings hkept)

/-- A class with a private method, and a namespace that is not documented with a
class in it. -/
def privateParts : List Doclet :=
  [.plain "class" "C" none, .plain "function" "C#f" (some "C"),
    { Doclet.plain "function" "C#g" (some "C") with access := .str "private" },
    { Doclet.plain "namespace" "H" none
      with raw := [(.str "undocumented", .bool true)] },
    .plain "class" "H.K" (some "H")]

/-- The same class without a private method, and a namespace that is ignored
with functions in it. -/
def ignoredParts : List Doclet :=
  [.plain "function" "H.f" (some "H"), .plain "class" "C" none,
    { Doclet.plain "namespace" "H" none
      with raw := [(.str "ignore", .bool true)] },
    .plain "function" "H.g" (some "H"), .plain "function" "C#f" (some "C")]

/-- What both have in common: the class and its public method. -/
def isPublicPart (d : Doclet) : Bool := d.longname == "C" || d.longname == "C#f"

theorem uncovered_privateParts :
    Table.uncovered false privateParts = privateParts.filter isPublicPart := by
  apply Table.uncovered_eq_filter
  · decide
  · have hdrop : forall d, d ∈ privateParts -> isPublicPart d = false ->
        d.isHidden false = true ∨
          exists p, p ∈ privateParts ∧ d.memberof = some p.longname ∧
          p.isHidden false = true := by
      decide
    exact fun d hd hk => .of_hidden (hdrop d hd hk)

theorem uncovered_ignoredParts :
    Table.uncovered false ignoredParts = ignoredParts.filter isPublicPart := by
  apply Table.uncovered_eq_filter
  · decide
  · have hdrop : forall d, d ∈ ignoredParts -> isPublicPart d = false ->
        d.isHidden false = true ∨
          exists p, p ∈ ignoredParts ∧ d.memberof = some p.longname ∧
          p.isHidden false = true := by
      decide
    exact fun d hd hk => .of_hidden (hdrop d hd hk)

theorem publish_stripHidden_ignoredParts :
    (privateParts.map Doclet.longname).Nodup ∧
      (ignoredParts.map Doclet.longname).Nodup ∧
      Table.uncovered false ignoredParts = Table.uncovered false privateParts ∧
      Document.publish ⟨true, none, true⟩
        (Table.stripHidden false ignoredParts) =
        Document.publish ⟨true, none, true⟩
          (Table.stripHidden false privateParts) := by
  have hnodup : (privateParts.map Doclet.longname).Nodup := by decide
  have hnodup' : (ignoredParts.map Doclet.longname).Nodup := by decide
  have huncovered : Table.uncovered false ignoredParts =
      Table.uncovered false privateParts := by
    rw [uncovered_ignoredParts, uncovered_privateParts]
    rfl
  exact ⟨hnodup, hnodup', huncovered,
    publish_stripHidden_eq false ⟨true, none, true⟩ privateParts ignoredParts
      hnodup hnodup'
      huncovered⟩

end Ambient
