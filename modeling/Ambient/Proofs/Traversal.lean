import Ambient.Proofs.Lineage

/-!
# The order of declarations

When the long names in a table differ, the entries form a forest, since each is
reached along one line of ancestors only.  A run declares the whole forest in
order: every entry before what it contains, the children of a namespace as they
come, and the children of a class with those first that may stand in its body.
-/

namespace Ambient

/-!
## Traversals
-/

/-- Whether a doclet may stand in the body of a class: functions, members that
are no enumerations, and what is not written at all. -/
def Doclet.standsInBody (d : Doclet) : Bool :=
  match d.role with
  | .function => true
  | .member => !d.isEnum
  | .package => true
  | .unknown => true
  | _ => false

theorem Doclet.standsInBody_eq (d : Doclet) :
    d.standsInBody = !d.isDetached := by
  unfold standsInBody isDetached
  cases d.role <;> rfl

/-- The entries that are declared directly inside an entry, in order. -/
def Job.branches (job : Job) (e : Entry) : List Entry :=
  let children := job.children (some e.doclet)
  match e.doclet.role with
  | .nameSpace => children
  | .classLike =>
      children.filter (fun c => c.doclet.standsInBody) ++
        children.filter (fun c => !c.doclet.standsInBody)
  | _ => []

/-- The traversal of some entries: each is followed by the traversal of its
branches. -/
inductive Traversal (job : Job) : List Entry -> List Entry -> Prop where
  | nil :
      Traversal job [] []
  | cons {e es inner order}
      (hinner : Traversal job (job.branches e) inner)
      (hrest : Traversal job es order) :
      Traversal job (e :: es) (e :: (inner ++ order))

/-- An entry to which a line of containers leads from a root. -/
def Reachable (job : Job) (e : Entry) : Prop :=
  exists line, Lineage job (e :: line)

namespace Traversal

variable {job : Job} {es es' order order' : List Entry}

theorem append
    (h : Traversal job es order)
    (h' : Traversal job es' order') :
    Traversal job (es ++ es') (order ++ order') := by
  induction h with
  | nil => exact h'
  | cons hinner _ _ ih =>
      simpa only [List.cons_append, List.append_assoc]
        using Traversal.cons hinner ih

theorem unique
    (h : Traversal job es order)
    (h' : Traversal job es order') :
    order' = order := by
  induction h generalizing order' with
  | nil =>
      cases h' with
      | nil => rfl
  | cons _ _ ihinner ihrest =>
      cases h' with
      | cons hinner hrest => rw [ihinner hinner, ihrest hrest]

end Traversal

/-!
## Lines in a table with different long names
-/

theorem Lineage.of_suffix
    {job : Job} {line above : List Entry} {e : Entry}
    (h : Lineage job above)
    (hsuffix : (e :: line) <:+ above) :
    Lineage job (e :: line) := by
  induction h with
  | root hroot =>
      rcases List.suffix_cons_iff.mp hsuffix with heq | hnil
      · rw [heq]
        exact .root hroot
      · simp at hnil
  | child hline hcontainer hchild ih =>
      rcases List.suffix_cons_iff.mp hsuffix with heq | htail
      · rw [heq]
        exact .child hline hcontainer hchild
      · exact ih htail

theorem Lineage.exists_root
    {job : Job} {line : List Entry}
    (h : Lineage job line) :
    exists r, r ∈ job.children none ∧ [r] <:+ line := by
  induction h with
  | root hroot => exact ⟨_, hroot, List.suffix_refl _⟩
  | child _ _ _ ih =>
      rcases ih with ⟨r, hr, hsuffix⟩
      exact ⟨r, hr, hsuffix.trans (List.suffix_cons _ _)⟩

/-- At or below an entry is the entry itself or what lies at or below one of its
children. -/
theorem Lineage.eq_or_child
    {job : Job} {line above : List Entry} {e : Entry}
    (h : Lineage job above)
    (hsuffix : (e :: line) <:+ above) :
    e :: line = above ∨ exists c, e.doclet.isContainer = true ∧
      c ∈ job.children (some e.doclet) ∧ (c :: e :: line) <:+ above := by
  induction h with
  | root =>
      rcases List.suffix_cons_iff.mp hsuffix with heq | hnil
      · exact Or.inl heq
      · simp at hnil
  | @child x p above _ hcontainer hchild ih =>
      rcases List.suffix_cons_iff.mp hsuffix with heq | htail
      · exact Or.inl heq
      · right
        rcases ih htail with heq | ⟨c, hc, hmem, hbelow⟩
        · cases heq
          exact ⟨x, hcontainer, hchild, List.suffix_refl _⟩
        · exact ⟨c, hc, hmem, hbelow.trans (List.suffix_cons x _)⟩

theorem Job.mem_branches
    {job : Job} {e c : Entry} :
    c ∈ job.branches e ↔
      e.doclet.isContainer = true ∧ c ∈ job.children (some e.doclet) := by
  unfold branches Doclet.isContainer Doclet.isClassLike Doclet.isNamespace
  cases hrole : e.doclet.role <;> simp
  case classLike =>
    rw [← and_or_left]
    simp

theorem Job.notMem_children_of_root
    {job : Job} {e : Entry}
    (h : e ∈ job.children none)
    (d : Doclet) :
    e ∉ job.children (some d) := by
  intro hchild
  have hnone := (List.mem_filter.mp h).2
  have hsome := (List.mem_filter.mp hchild).2
  simp only [Option.map_none, Option.map_some, beq_iff_eq] at hnone hsome
  rw [hnone] at hsome
  contradiction

theorem Job.longname_eq_of_mem_children
    {job : Job} {d d' : Doclet} {e : Entry}
    (h : e ∈ job.children (some d))
    (h' : e ∈ job.children (some d')) :
    d.longname = d'.longname := by
  have hparent := (List.mem_filter.mp h).2
  have hparent' := (List.mem_filter.mp h').2
  simp only [Option.map_some, beq_iff_eq] at hparent hparent'
  exact Option.some.inj (hparent.symm.trans hparent')

namespace Traversal

variable {job : Job} {es order line : List Entry}

theorem under
    (h : Traversal job es order)
    (hline : forall e, e ∈ es -> Lineage job (e :: line))
    {x : Entry}
    (hx : x ∈ order) :
    Under job line es x := by
  induction h generalizing line with
  | nil => contradiction
  | @cons e es inner order _ _ ihinner ihrest =>
      have hhead := hline e List.mem_cons_self
      rcases List.mem_cons.mp hx with rfl | hx
      · exact ⟨x, List.mem_cons_self, line, List.suffix_refl _, hhead⟩
      · rcases List.mem_append.mp hx with hmem | hmem
        · have hchildren : forall c, c ∈ job.branches e ->
              Lineage job (c :: e :: line) := by
            intro c hc
            rcases Job.mem_branches.mp hc with ⟨hcontainer, hchild⟩
            exact .child hhead hcontainer hchild
          exact (ihinner hchildren hmem).of_child List.mem_cons_self
        · exact (ihrest (fun c hc => hline c (List.mem_cons_of_mem e hc))
            hmem).mono
            (List.subset_cons_self e es)

theorem mem_of_under
    (h : Traversal job es order)
    {x : Entry}
    (hx : Under job line es x) :
    x ∈ order := by
  induction h generalizing line with
  | nil =>
      rcases hx with ⟨e, he, _⟩
      contradiction
  | @cons e es inner order _ _ ihinner ihrest =>
      rcases hx with ⟨a, ha, above, hsuffix, habove⟩
      rcases List.mem_cons.mp ha with rfl | ha
      · rcases habove.eq_or_child hsuffix with
          heq | ⟨c, hcontainer, hchild, hbelow⟩
        · rw [(List.cons.inj heq).1]
          exact List.mem_cons_self
        · have hbranch := Job.mem_branches.mpr ⟨hcontainer, hchild⟩
          have hinner := ihinner ⟨c, hbranch, above, hbelow, habove⟩
          exact List.mem_cons_of_mem a (List.mem_append_left order hinner)
      · have hrest := ihrest ⟨a, ha, above, hsuffix, habove⟩
        exact List.mem_cons_of_mem e (List.mem_append_right inner hrest)

end Traversal
/-!
## Tables with different long names
-/

/-- The long names of the entries differ. -/
def Distinct (job : Job) : Prop := (job.entries.map Entry.longname).Nodup

namespace Distinct

variable {job : Job} {line es es' : List Entry}

theorem eq_of_longname
    (hjob : Distinct job)
    {x y : Entry}
    (hx : x ∈ job.entries)
    (hy : y ∈ job.entries)
    (heq : x.longname = y.longname) :
    x = y :=
  List.inj_on_of_nodup_map hjob hx hy heq

/-- An entry has one line of ancestors. -/
theorem lineage_unique
    (hjob : Distinct job)
    {x y : Entry} {xs ys : List Entry}
    (hx : Lineage job (x :: xs))
    (hy : Lineage job (y :: ys))
    (heq : x.longname = y.longname) :
    x :: xs = y :: ys := by
  have hentry : x = y :=
    hjob.eq_of_longname (hx.subset List.mem_cons_self)
      (hy.subset List.mem_cons_self) heq
  subst hentry
  induction xs generalizing x ys with
  | nil =>
      cases hx with
      | root hroot =>
          cases hy with
          | root => rfl
          | child _ _ hchild =>
              exact absurd hchild (Job.notMem_children_of_root hroot _)
  | cons p xs ih =>
      cases hx with
      | child hline _ hchild =>
          cases hy with
          | root hroot =>
              exact absurd hchild (Job.notMem_children_of_root hroot _)
          | @child _ q ys hline' _ hchild' =>
              have hparent := Job.longname_eq_of_mem_children hchild hchild'
              have hsame : p = q :=
                hjob.eq_of_longname (hline.subset List.mem_cons_self)
                  (hline'.subset List.mem_cons_self) hparent
              subst hsame
              rw [ih hline hline' rfl]

/-- Below siblings that differ lies nothing in common. -/
theorem exists_common_of_under
    (hjob : Distinct job)
    {x y : Entry}
    (hx : Under job line es x)
    (hy : Under job line es' y)
    (heq : x.longname = y.longname) :
    exists a, a ∈ es ∧ a ∈ es' := by
  rcases hx with ⟨a, ha, xs, hsuffix, hline⟩
  rcases hy with ⟨b, hb, ys, hsuffix', hline'⟩
  rw [← hjob.lineage_unique hline hline' heq] at hsuffix'
  have hsame : a :: line = b :: line :=
    (List.suffix_of_suffix_length_le hsuffix hsuffix' (by simp)).eq_of_length
      (by simp)
  rw [← (List.cons.inj hsame).1] at hb
  exact ⟨a, ha, hb⟩

theorem grounded (hjob : Distinct job) : Grounded job := by
  intro above habove
  induction habove with
  | root => exact List.nodup_singleton _
  | @child e p above hline hcontainer hchild ih =>
      refine List.nodup_cons.mpr ⟨fun hmem => ?_, ih⟩
      rcases List.mem_map.mp hmem with ⟨a, ha, heq⟩
      rcases List.append_of_mem ha with ⟨front, rest, hsplit⟩
      have hsuffix : (a :: rest) <:+ (p :: above) :=
        hsplit ▸ List.suffix_append front (a :: rest)
      have hsame := hjob.lineage_unique (hline.of_suffix hsuffix)
        (.child hline hcontainer hchild) heq
      have hlength := hsuffix.length_le
      rw [hsame, List.length_cons] at hlength
      omega

theorem nodup_children
    (hjob : Distinct job)
    (parent : Option Doclet) :
    (job.children parent).Nodup :=
  (List.Nodup.of_map Entry.longname hjob).filter _

theorem nodup_bodyOf
    (hjob : Distinct job)
    (e : Entry) :
    (job.bodyOf e).Nodup := by
  unfold Job.bodyOf
  split
  · exact hjob.nodup_children _
  · exact List.nodup_nil

theorem nodup_spaceOf
    (hjob : Distinct job)
    (e : Entry)
    {refused : List Entry}
    (h : refused.Nodup) :
    (job.spaceOf e refused).Nodup := by
  unfold Job.spaceOf
  split
  · exact hjob.nodup_children _
  · exact h

end Distinct
/-!
## Walks are traversals
-/

/-- Whether an entry is not taken, given whether the place is inside a class
body. -/
def isTurnedDown (inside : Bool) (e : Entry) : Bool :=
  inside && e.doclet.isDetached

theorem filter_isTurnedDown_false
    (es : List Entry) :
    es.filter (fun e => !isTurnedDown false e) = es := by
  simp [isTurnedDown]

theorem Job.branches_eq
    (job : Job)
    (e : Entry) :
    job.branches e = (job.bodyOf e).filter (fun c => !isTurnedDown true c) ++
      job.spaceOf e ((job.bodyOf e).filter (isTurnedDown true)) := by
  unfold branches bodyOf spaceOf isTurnedDown
  cases hrole : e.doclet.role <;> simp [Doclet.standsInBody_eq]

/-- Nothing at or below some entries has been declared. -/
def Unseen (job : Job) (line es : List Entry) (seen : Keyed Entry) : Prop :=
  forall x, Under job line es x -> ¬ seen.has x.longname = true

theorem Unseen.mono
    {job : Job} {line es es' : List Entry} {seen : Keyed Entry}
    (h : Unseen job line es seen)
    (hsub : es' ⊆ es) :
    Unseen job line es' seen :=
  fun x hx => h x (hx.mono hsub)

/-- What a walk is to declare: the traversal of the entries that are not turned
down. -/
def Covers (job : Job) (inside : Bool) (es refused : List Entry)
    (offers : List Offer) : Prop :=
  refused = es.filter (isTurnedDown inside) ∧
    exists order,
      Traversal job (es.filter fun e => !isTurnedDown inside e) order ∧
      declarations offers = order.map Entry.settled

theorem Covers.under
    {job : Job} {inside : Bool} {es refused line : List Entry}
    {offers : List Offer}
    (h : Covers job inside es refused offers)
    (hline : forall e, e ∈ es -> Lineage job (e :: line))
    {x : Entry}
    (hx : x ∈ declarations offers) :
    exists y, x = y.settled ∧
      Under job line (es.filter fun e => !isTurnedDown inside e) y := by
  rcases h with ⟨_, order, horder, hdeclared⟩
  rw [hdeclared] at hx
  rcases List.mem_map.mp hx with ⟨y, hy, rfl⟩
  exact ⟨y, rfl,
    horder.under (fun e he => hline e (List.mem_of_mem_filter he)) hy⟩

theorem mem_body_of_mem_space
    {job : Job} {e c : Entry}
    (hspace : c ∈ job.spaceOf e ((job.bodyOf e).filter (isTurnedDown true)))
    (hbody : c ∈ job.bodyOf e) :
    isTurnedDown true c = true := by
  unfold Job.spaceOf at hspace
  split at hspace
  · rename_i hrole
    simp [Job.bodyOf, hrole] at hbody
  · exact (List.mem_filter.mp hspace).2

/-- The children that a class body turns down are unseen after it. -/
theorem Unseen.after_body
    {job : Job} {e : Entry} {line hoisted : List Entry}
    {seen seen₁ : Keyed Entry} {body : List Offer}
    (hjob : Distinct job)
    (hline : Lineage job (e :: line))
    (hbody : Walk job (some e.doclet.settle) true (job.bodyOf e) seen body
      hoisted seen₁)
    (hcovers : Covers job true (job.bodyOf e) hoisted body)
    (hunseen : Unseen job line [e] seen) :
    Unseen job (e :: line) (job.spaceOf e hoisted) seen₁ := by
  intro x hx hseen
  rcases (hbody.has_seen _).mp hseen with hbefore | hinside
  · exact hunseen x (hx.of_child List.mem_cons_self) hbefore
  · rcases List.mem_map.mp hinside with ⟨d, hd, heq⟩
    rcases hcovers.under (fun c hc => Job.lineage_of_mem_bodyOf hline hc) hd
      with ⟨y, rfl, hy⟩
    rw [Entry.longname_settled] at heq
    rcases hjob.exists_common_of_under hy hx heq with ⟨c, hc, hc'⟩
    rcases List.mem_filter.mp hc with ⟨hchild, htaken⟩
    rw [hcovers.1] at hc'
    simp [mem_body_of_mem_space hc' hchild] at htaken

/-- The entries after one are unseen when it has been declared with all it
contains. -/
theorem Unseen.after_entry
    {job : Job} {e : Entry} {line es hoisted : List Entry}
    {seen seen₁ seen₂ : Keyed Entry} {body space : List Offer}
    (hjob : Distinct job)
    (hline : Lineage job (e :: line))
    (hbody : Walk job (some e.doclet.settle) true (job.bodyOf e) seen body
      hoisted seen₁)
    (hspace : Walk job (some e.doclet.settle) false (job.spaceOf e hoisted)
      seen₁ space [] seen₂)
    (he : e ∉ es)
    (hunseen : Unseen job line es seen) :
    Unseen job line es (seen₂.put e.doclet.longname e.settled) := by
  intro x hx hseen
  have hne : forall y, Under job line [e] y -> y.longname ≠ x.longname := by
    intro y hy heq
    rcases hjob.exists_common_of_under hy hx heq with ⟨a, ha, ha'⟩
    rw [List.mem_singleton.mp ha] at ha'
    exact he ha'
  have hinside : x.longname ∉
      (declarations body ++ declarations space).map Entry.longname := by
    intro hmem
    rcases List.mem_map.mp hmem with ⟨d, hd, heq⟩
    rcases Walk.under_of_mem_inside hline hbody hspace hd with ⟨y, rfl, _, hy⟩
    rw [Entry.longname_settled] at heq
    exact hne y (hy.of_child List.mem_cons_self) heq
  rw [List.map_append, List.mem_append, not_or] at hinside
  rw [Keyed.has_put, hspace.has_seen, hbody.has_seen] at hseen
  rcases hseen with heq | (hbefore | hmem) | hmem
  · exact hne e ⟨e, List.mem_cons_self, line, List.suffix_refl _, hline⟩
      heq.symm
  · exact hunseen x hx hbefore
  · exact hinside.1 hmem
  · exact hinside.2 hmem

theorem Covers.declared
    {job : Job} {inside : Bool} {e : Entry} {es hoisted refused : List Entry}
    {body space offers : List Offer}
    (parent : Option Doclet)
    (hfits : isTurnedDown inside e = false)
    (hbody : Covers job true (job.bodyOf e) hoisted body)
    (hspace : Covers job false (job.spaceOf e hoisted) [] space)
    (hrest : Covers job inside es refused offers) :
    Covers job inside (e :: es) refused
      (⟨e.settled, parent, inside, .declared⟩ ::
        (body ++ space ++ offers)) := by
  rcases hbody with ⟨hhoisted, order₁, horder₁, hdeclared₁⟩
  rcases hspace with ⟨_, order₂, horder₂, hdeclared₂⟩
  rcases hrest with ⟨hrefused, order, horder, hdeclared⟩
  refine ⟨by simp [hfits, hrefused], e :: (order₁ ++ order₂ ++ order), ?_, ?_⟩
  · have hinner : Traversal job (job.branches e) (order₁ ++ order₂) := by
      rw [Job.branches_eq, ← hhoisted]
      rw [filter_isTurnedDown_false] at horder₂
      exact horder₁.append horder₂
    rw [List.filter_cons_of_pos (by simp [hfits])]
    exact .cons hinner horder
  · simp [hdeclared₁, hdeclared₂, hdeclared]

theorem covers_of_walk
    {job : Job} {parent : Option Doclet} {inside : Bool}
    {es refused line : List Entry}
    {seen seen' : Keyed Entry} {offers : List Offer}
    (hjob : Distinct job)
    (h : Walk job parent inside es seen offers refused seen')
    (hline : forall e, e ∈ es -> Lineage job (e :: line))
    (hnodup : es.Nodup)
    (hunseen : Unseen job line es seen) :
    Covers job inside es refused offers := by
  induction h generalizing line with
  | nil => exact ⟨rfl, [], .nil, rfl⟩
  | @known _ _ e es _ _ _ _ hseen _ _ =>
      have hself : Under job line (e :: es) e :=
        ⟨e, List.mem_cons_self, line, List.suffix_refl _,
          hline e List.mem_cons_self⟩
      exact absurd hseen (hunseen e hself)
  | @refused _ e es _ _ _ _ _ hdetached _ ih =>
      rcases ih (fun c hc => hline c (List.mem_cons_of_mem e hc))
        (List.nodup_cons.mp hnodup).2
        (hunseen.mono (List.subset_cons_self e es))
          with ⟨hrefused, order, horder, hdeclared⟩
      have hdown : isTurnedDown true e = true := hdetached
      refine ⟨by simp [hdown, hrefused], order, ?_, by simpa using hdeclared⟩
      simpa [hdown] using horder
  | @declared _ inside e es _ body hoisted _ space _ offers _ _ _ hfits hbody
      hspace _ ihbody
      ihspace ihrest =>
      have hhead := hline e List.mem_cons_self
      have hhere : Unseen job line [e] _ := hunseen.mono (by simp)
      have hcovers := ihbody (fun c hc => Job.lineage_of_mem_bodyOf hhead hc)
        (hjob.nodup_bodyOf e) fun x hx =>
          hhere x (hx.of_child List.mem_cons_self)
      have hhoisted : hoisted.Nodup :=
        hcovers.1 ▸ (hjob.nodup_bodyOf e).filter _
      have hcovers' := ihspace
        (fun c hc => Job.lineage_of_mem_spaceOf hhead hbody.refused_subset hc)
        (hjob.nodup_spaceOf e hhoisted)
        (hhere.after_body hjob hhead hbody hcovers)
      have hrest :=
        (hunseen.mono (List.subset_cons_self e es)).after_entry hjob hhead
          hbody hspace
        (List.nodup_cons.mp hnodup).1
      have hcovers'' := ihrest (fun c hc => hline c (List.mem_cons_of_mem e hc))
        (List.nodup_cons.mp hnodup).2 hrest
      exact .declared _ hfits hcovers hcovers' hcovers''

/-- The traversal of the roots has the entries that can be reached. -/
theorem Traversal.mem_iff_reachable
    {job : Job} {order : List Entry}
    (h : Traversal job (job.children none) order)
    (e : Entry) :
    e ∈ order ↔ Reachable job e := by
  constructor
  · intro he
    rcases h.under (fun r hr => .root hr) he with ⟨_, _, above, _, hline⟩
    exact ⟨above, hline⟩
  · rintro ⟨above, hline⟩
    rcases hline.exists_root with ⟨r, hr, hsuffix⟩
    exact h.mem_of_under ⟨r, hr, above, hsuffix, hline⟩

theorem Job.distinct_ofTable
    {table : List Doclet}
    (settings : Settings)
    (h : (table.map Doclet.longname).Nodup) :
    Distinct (ofTable settings table) := by
  have hnames : (ofTable settings table).entries.map Entry.longname =
      table.map Doclet.longname := by
    apply List.ext_getElem <;> simp [ofTable]
  rw [Distinct, hnames]
  exact h

/-- When the long names in a table differ, a run does not run out of fuel.  It
declares the traversal of the roots: every entry that can be reached from a root
once, and nothing else.  The long names that it has seen in the end are those of
the entries that it has declared. -/
theorem declarations_eq_traversal
    (settings : Settings)
    (table : List Doclet)
    (hdistinct : (table.map Doclet.longname).Nodup) :
    let job := Job.ofTable settings table
    Emit.Ends (· ≠ .endless) (Document.write job) Session.start fun _ s =>
      exists order, (forall order', Traversal job (job.children none) order' ↔
        order' = order) ∧
        declarations s.offers = order.map Entry.settled ∧
        order.Nodup ∧ (forall e, e ∈ order ↔ Reachable job e) ∧
        forall name, s.seen.has name = true ↔
          name ∈ order.map Entry.longname := by
  intro job
  have hjob : Distinct job := Job.distinct_ofTable settings hdistinct
  have hrun :=
    Document.follows_write (fun _ h => h) hjob.grounded.visits Session.start
  refine hrun.mono fun _ s hfollow => ?_
  rcases hfollow with ⟨offers, hoffers, hwalk⟩
  have hall : s.offers = offers := by simpa [Session.start] using hoffers
  have hroots : forall e, e ∈ job.children none -> Lineage job [e] :=
    fun e he => .root he
  have hempty (name : String) : ¬ Session.start.seen.has name = true := by
    simp [Session.start, Keyed.has, Keyed.get?]
  rcases covers_of_walk hjob hwalk hroots (hjob.nodup_children none) fun x _ =>
    hempty x.longname
    with ⟨_, order, horder, hdeclared⟩
  rw [filter_isTurnedDown_false] at horder
  have hnames : (declarations offers).map Entry.longname =
      order.map Entry.longname := by
    simp [hdeclared]
  refine ⟨order, fun order' =>
    ⟨horder.unique, fun heq => heq ▸ horder⟩, ?_, ?_, ?_, ?_⟩
  · rw [hall, hdeclared]
  · have hnodup := hwalk.nodup_declarations hjob.grounded hroots
    rw [hnames] at hnodup
    exact List.Nodup.of_map Entry.longname hnodup
  · exact horder.mem_iff_reachable
  · intro name
    rw [hwalk.has_seen, hnames]
    exact or_iff_right (hempty name)

/-- A class with children of every role inside a namespace, and two doclets that
contain each other. -/
def mixedChildren : List Doclet :=
  [.plain "typedef" "N.A.T" (some "N.A"),
    .plain "function" "N.A#f" (some "N.A"), .plain "class" "N.A.B" (some "N.A"),
    .plain "class" "N.A" (some "N"), .plain "member" "N.A.B#m" (some "N.A.B"),
    .plain "namespace" "N" none, .plain "package" "N.A.P" (some "N.A"),
    .plain "class" "X" (some "Y"), .plain "class" "Y" (some "X")]

theorem declarations_mixedChildren :
    let job := Job.ofTable ⟨true, none, true⟩ mixedChildren
    Emit.Ends (· ≠ .endless) (Document.write job) Session.start fun _ s =>
      exists order, (forall order', Traversal job (job.children none) order' ↔
        order' = order) ∧
        declarations s.offers = order.map Entry.settled ∧
        order.Nodup ∧ (forall e, e ∈ order ↔ Reachable job e) ∧
        forall name, s.seen.has name = true ↔
          name ∈ order.map Entry.longname := by
  apply declarations_eq_traversal
  decide

end Ambient
