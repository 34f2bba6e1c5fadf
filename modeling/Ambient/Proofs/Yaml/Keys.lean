import Ambient.Yaml.Document
import Ambient.Proofs.Outcome
import Ambient.Proofs.Value.Key

/-!
# Keys of mappings that are read

No mapping of a document has a key twice, wherever it stands and whatever holds
it.  While the values of a document are made, this is true of everything that
has been made so far.
-/

namespace Ambient

/-!
## Values with distinct keys
-/

namespace Value

mutual

/-- A value in which no mapping has a key twice. -/
def WellKeyed : Value -> Prop
  | list items => WellKeyedItems items
  | map entries => DistinctKeys entries ∧ WellKeyedEntries entries
  | pair first second => first.WellKeyed ∧ second.WellKeyed
  | tied _ body => body.WellKeyed
  | _ => True

/-- Values in which no mapping has a key twice. -/
def WellKeyedItems : List Value -> Prop
  | [] => True
  | v :: items => v.WellKeyed ∧ WellKeyedItems items

/-- Entries in whose values no mapping has a key twice. -/
def WellKeyedEntries : List (Value × Value) -> Prop
  | [] => True
  | (_, v) :: entries => v.WellKeyed ∧ WellKeyedEntries entries

end

theorem wellKeyedItems_iff
    {items : List Value} :
    WellKeyedItems items ↔ forall v, v ∈ items -> v.WellKeyed := by
  induction items with
  | nil => simp [WellKeyedItems]
  | cons v items ih => simp [WellKeyedItems, ih]

theorem wellKeyedEntries_iff
    {entries : List (Value × Value)} :
    WellKeyedEntries entries ↔ forall e, e ∈ entries -> e.2.WellKeyed := by
  induction entries with
  | nil => simp [WellKeyedEntries]
  | cons e entries ih => simp [WellKeyedEntries, ih]

theorem keys_substituteEntries
    (label : Nat)
    (whole : Value)
    (entries : List (Value × Value)) :
    (substituteEntries label whole entries).map Prod.fst =
      entries.map Prod.fst := by
  induction entries with
  | nil => rfl
  | cons e entries ih => simp [substituteEntries, ih]

theorem distinctKeys_of_keys_eq
    {entries entries' : List (Value × Value)}
    (h : entries.map Prod.fst = entries'.map Prod.fst)
    (hdistinct : DistinctKeys entries) :
    DistinctKeys entries' := by
  unfold DistinctKeys at hdistinct ⊢
  rw [← List.pairwise_map (f := Prod.fst)
    (R := fun k k' => sameKey k k' = false)] at hdistinct ⊢
  rwa [← h]

mutual

theorem WellKeyed.substitute
    {label : Nat} {whole : Value}
    (hwhole : whole.WellKeyed)
    (v : Value)
    (h : v.WellKeyed) :
    (Value.substitute label whole v).WellKeyed := by
  cases v with
  | again l =>
      rw [Value.substitute]
      split
      · exact hwhole
      · trivial
  | tied l body =>
      rw [Value.substitute]
      split
      · exact h
      · exact WellKeyed.substitute hwhole body h
  | list items => exact WellKeyed.substituteItems hwhole items h
  | map entries =>
      exact ⟨distinctKeys_of_keys_eq
        (keys_substituteEntries label whole entries).symm h.1,
        WellKeyed.substituteEntries hwhole entries h.2⟩
  | pair first second =>
      exact ⟨WellKeyed.substitute hwhole first h.1,
        WellKeyed.substitute hwhole second h.2⟩
  | _ => exact h

theorem WellKeyed.substituteItems
    {label : Nat} {whole : Value}
    (hwhole : whole.WellKeyed)
    (items : List Value)
    (h : WellKeyedItems items) :
    WellKeyedItems (Value.substituteItems label whole items) := by
  cases items with
  | nil => trivial
  | cons v items =>
      exact ⟨WellKeyed.substitute hwhole v h.1,
        WellKeyed.substituteItems hwhole items h.2⟩

theorem WellKeyed.substituteEntries
    {label : Nat} {whole : Value}
    (hwhole : whole.WellKeyed)
    (entries : List (Value × Value))
    (h : WellKeyedEntries entries) :
    WellKeyedEntries (Value.substituteEntries label whole entries) := by
  match entries with
  | [] => trivial
  | (k, v) :: entries =>
      exact ⟨WellKeyed.substitute hwhole v h.1,
        WellKeyed.substituteEntries hwhole entries h.2⟩

end

/-- The mapping that a value is, its loops unfolded, has no key twice, and
neither has any mapping in it. -/
theorem WellKeyed.entries
    {v : Value} {entries : List (Value × Value)}
    (h : v.WellKeyed)
    (hentries : v.entries? = some entries) :
    DistinctKeys entries ∧ forall e, e ∈ entries -> e.2.WellKeyed := by
  have hunfold : v.unfold.WellKeyed := by
    cases v with
    | tied label body => exact WellKeyed.substitute h body h
    | _ => exact h
  unfold entries? at hentries
  split at hentries
  · rename_i entries' hmap
    cases hentries
    rw [hmap] at hunfold
    exact ⟨hunfold.1, wellKeyedEntries_iff.mp hunfold.2⟩
  · cases hentries

end Value

/-!
## Making values
-/

namespace Yaml
namespace Document

/-- What may be made of a node: a value or a mapping without a key twice. -/
def Made.Fair : Made -> Prop
  | value v => v.WellKeyed
  | map entries => entries.Pairwise fun e e' => Value.sameKey e.1 e'.1 = false
  | _ => True

/-- Everything made so far is fair. -/
def State.Fair (s : State) : Prop := forall m, some m ∈ s.made -> m.Fair

/-- From a fair state, `x` leads to a fair state, with an answer that meets
`R`. -/
def Keeps {α : Type} (x : Maker α) (R : α -> Prop) : Prop :=
  forall s a s', s.Fair -> x.run s = .ok (a, s') -> s'.Fair ∧ R a

variable {α β : Type} {R : β -> Prop}

theorem Keeps.bind
    {x : Maker α} {f : α -> Maker β} {P : α -> Prop}
    (hx : Keeps x P)
    (hf : forall a, P a -> Keeps (f a) R) :
    Keeps (x >>= f) R := by
  intro s b s' hs hrun
  rw [StateT.run_bind] at hrun
  cases hfirst : x.run s with
  | error problem =>
      rw [hfirst] at hrun
      cases hrun
  | ok result =>
      obtain ⟨a, s''⟩ := result
      rw [hfirst] at hrun
      obtain ⟨hfair, ha⟩ := hx s a s'' hs hfirst
      exact hf a ha s'' b s' hfair hrun

theorem keeps_pure
    {b : β}
    (h : R b) :
    Keeps (pure b) R := by
  intro s b' s' hs hrun
  cases hrun
  exact ⟨hs, h⟩

theorem keeps_throw (problem : Problem) :
    Keeps (throw problem : Maker β) R := by
  intro s b s' hs hrun
  cases hrun

theorem keeps_get : Keeps (get : Maker State) fun _ => True := by
  intro s a s' hs hrun
  cases hrun
  exact ⟨hs, trivial⟩

theorem keeps_lift
    {result : Except Problem β}
    (h : forall b, result = .ok b -> R b) :
    Keeps (result : Maker β) R := by
  intro s b s' hs hrun
  cases result with
  | error problem => cases hrun
  | ok b' =>
      cases hrun
      exact ⟨hs, h _ rfl⟩

/-- A step that leaves what has been made as it is. -/
theorem keeps_modify
    {f : State -> State}
    (h : forall s, (f s).made = s.made) :
    Keeps (modify f) fun _ => True := by
  intro s a s' hs hrun
  cases hrun
  refine ⟨?_, trivial⟩
  intro m hm
  rw [h] at hm
  exact hs m hm

theorem keeps_setMade
    {m : Made}
    (h : m.Fair)
    (number : Nat) :
    Keeps (setMade number m) fun _ => True := by
  intro s a s' hs hrun
  cases hrun
  refine ⟨?_, trivial⟩
  intro m' hm'
  rcases Array.mem_or_eq_of_mem_setIfInBounds hm' with hm' | hm'
  · exact hs m' hm'
  · cases hm'
    exact h

theorem keeps_nodeAt (number : Nat) : Keeps (nodeAt number) fun _ => True :=
  keeps_get.bind fun _ _ => keeps_pure trivial

theorem keeps_setNode (number : Nat) (n : Node) :
    Keeps (setNode number n) fun _ => True :=
  keeps_modify fun _ => rfl

theorem keeps_findKind
    (kind : Kind)
    (entries : List (Nat × Nat)) :
    Keeps (findKind kind entries) fun _ => True := by
  induction entries with
  | nil => exact keeps_pure trivial
  | cons e entries ih =>
      refine (keeps_nodeAt e.1).bind fun n _ => ?_
      split
      · exact keeps_pure trivial
      · exact ih

theorem keeps_textOf (fuel number : Nat) : Keeps (textOf fuel number) fun _ =>
    True := by
  induction fuel generalizing number with
  | zero => exact keeps_throw _
  | succ fuel ih =>
      refine (keeps_nodeAt number).bind fun n _ => ?_
      split
      · exact keeps_pure trivial
      · exact keeps_throw _
      · refine (keeps_findKind .equals _).bind fun value _ => ?_
        split
        · exact ih _
        · exact keeps_throw _

theorem wellKeyed_valueOf
    {origin : Nat} {kind : Kind} {text : String} {v : Value}
    (h : Meaning.valueOf origin kind text = .ok v) :
    v.WellKeyed := by
  cases kind with
  | text =>
      cases h
      trivial
  | null =>
      cases h
      trivial
  | bool | int | float | moment | bytes =>
      obtain ⟨x, _, rfl⟩ := map_eq_ok h
      trivial
  | _ => cases h

theorem keeps_scalarValue (number : Nat) :
    Keeps (scalarValue number) Value.WellKeyed := by
  refine (keeps_nodeAt number).bind fun n _ => ?_
  split
  · exact keeps_throw _
  · refine keeps_get.bind fun s _ =>
      (keeps_textOf _ number).bind fun text _ => ?_
    split
    · exact keeps_throw _
    · exact keeps_lift fun v hv => wellKeyed_valueOf hv

/-- Merge keys are replaced in the nodes only. -/
theorem keeps_merges
    (fuel : Nat) :
    (forall number, Keeps (flatten fuel number) fun _ => True) ∧
      (forall number position merged,
        Keeps (flattenFrom fuel number position merged) fun _ => True) ∧
      (forall number, Keeps (mergedEntries fuel number) fun _ => True) ∧
      forall numbers, Keeps (mergedLists fuel numbers) fun _ => True := by
  induction fuel with
  | zero =>
      refine ⟨fun _ => ?_, fun _ _ _ => ?_, fun _ => ?_, fun _ => ?_⟩
      all_goals
        first
        | rw [flatten]
        | rw [flattenFrom]
        | rw [mergedEntries]
        | rw [mergedLists]
        exact keeps_throw _
  | succ fuel ih =>
      obtain ⟨hflatten, hfrom, hentries, hlists⟩ := ih
      refine ⟨fun number => ?_, fun number position merged =>
        ?_, fun number => ?_, ?_⟩
      · rw [flatten]
        exact (hfrom number 0 []).bind fun _ _ =>
          (keeps_nodeAt number).bind fun _ _ =>
          keeps_setNode number _
      · rw [flattenFrom]
        refine (keeps_nodeAt number).bind fun n _ => ?_
        split
        · exact keeps_pure trivial
        · refine (keeps_nodeAt _).bind fun key _ => ?_
          split
          · exact (keeps_setNode number _).bind fun _ _ =>
              (hentries _).bind fun _ _ => hfrom _ _ _
          · exact (keeps_setNode _ _).bind fun _ _ => hfrom _ _ _
          · exact hfrom _ _ _
      · rw [mergedEntries]
        refine (keeps_nodeAt number).bind fun n _ => ?_
        split
        · exact (hflatten number).bind fun _ _ =>
            (keeps_nodeAt number).bind fun _ _ =>
            keeps_pure trivial
        · exact hlists _
        · exact keeps_throw _
      · rintro (_ | ⟨number, numbers⟩)
        · rw [mergedLists]
          exact keeps_pure trivial
        · rw [mergedLists]
          refine (keeps_nodeAt number).bind fun n _ => ?_
          split
          · exact (hflatten number).bind fun _ _ =>
              (keeps_nodeAt number).bind fun _ _ =>
              (hlists numbers).bind fun _ _ => keeps_pure trivial
          · exact keeps_throw _

theorem keeps_make (number : Nat) : Keeps (make number) fun _ => True := by
  refine keeps_get.bind fun s _ => ?_
  split
  · refine (keeps_nodeAt number).bind fun n _ => ?_
    split
    · exact (keeps_setMade (by trivial) number).bind fun _ _ =>
        keeps_modify fun _ => rfl
    · exact (keeps_scalarValue number).bind fun v hv =>
        keeps_setMade (m := .value v) hv number
  · exact keeps_pure trivial

theorem keeps_makeAll (numbers : List Nat) : Keeps (makeAll numbers) fun _ =>
    True := by
  induction numbers with
  | nil => exact keeps_pure trivial
  | cons number numbers ih => exact (keeps_make number).bind fun _ _ => ih

theorem keeps_makeKey (number : Nat) : Keeps (makeKey number) fun _ =>
    True := by
  refine (keeps_make number).bind fun _ _ => keeps_get.bind fun s _ => ?_
  split
  · split
    · exact keeps_pure trivial
    · exact keeps_throw _
  · exact keeps_throw _

theorem mem_place
    {key : Value} {number : Nat} {entries : List (Value × Nat)}
    {e : Value × Nat}
    (h : e ∈ place key number entries) :
    e.1 = key ∨ exists n, (e.1, n) ∈ entries := by
  induction entries with
  | nil =>
      rw [place, List.mem_singleton] at h
      exact .inl (congrArg Prod.fst h)
  | cons e' entries ih =>
      obtain ⟨k, n⟩ := e'
      rw [place] at h
      split at h
      · rcases List.mem_cons.mp h with rfl | h
        · exact .inr ⟨n, List.mem_cons_self⟩
        · exact .inr ⟨e.2, List.mem_cons_of_mem _ h⟩
      · rcases List.mem_cons.mp h with rfl | h
        · exact .inr ⟨n, List.mem_cons_self⟩
        · refine (ih h).imp_right ?_
          rintro ⟨n', hn'⟩
          exact ⟨n', List.mem_cons_of_mem _ hn'⟩

/-- A key that is there keeps its place, and a new one differs from all that are
there. -/
theorem pairwise_place
    {entries : List (Value × Nat)}
    (h : entries.Pairwise fun e e' => Value.sameKey e.1 e'.1 = false)
    (key : Value)
    (number : Nat) :
    (place key number entries).Pairwise fun e e' =>
      Value.sameKey e.1 e'.1 = false := by
  induction entries with
  | nil => exact List.pairwise_singleton _ _
  | cons e entries ih =>
      obtain ⟨k, n⟩ := e
      obtain ⟨hfirst, hrest⟩ := List.pairwise_cons.mp h
      rw [place]
      split
      · exact List.pairwise_cons.mpr ⟨hfirst, hrest⟩
      · rename_i hk
        refine List.pairwise_cons.mpr ⟨fun e he => ?_, ih hrest⟩
        rcases mem_place he with heq | ⟨n', hn'⟩
        · rw [heq]
          exact Bool.eq_false_iff.mpr hk
        · exact hfirst (e.1, n') hn'

theorem keeps_makeEntries
    (entries : List (Nat × Nat))
    {made : List (Value × Nat)}
    (h : made.Pairwise fun e e' => Value.sameKey e.1 e'.1 = false) :
    Keeps (makeEntries entries made) fun made' =>
      made'.Pairwise fun e e' => Value.sameKey e.1 e'.1 = false := by
  induction entries generalizing made with
  | nil => exact keeps_pure h
  | cons e entries ih =>
      refine (keeps_makeKey e.1).bind fun key _ =>
        (keeps_make e.2).bind fun _ _ => ?_
      exact ih (pairwise_place h key e.2)

theorem keeps_fillEntries
    (fuel number : Nat) :
    Keeps (fillEntries fuel number) fun made =>
      made.Pairwise fun e e' => Value.sameKey e.1 e'.1 = false := by
  refine (keeps_nodeAt number).bind fun n _ => ?_
  split
  · refine ((keeps_merges fuel).1 number).bind fun _ _ =>
      (keeps_nodeAt number).bind fun n _ => ?_
    exact keeps_makeEntries _ List.Pairwise.nil
  · exact keeps_throw _

theorem keeps_makePairs (numbers : List Nat) :
    Keeps (makePairs numbers) fun _ => True := by
  induction numbers with
  | nil => exact keeps_pure trivial
  | cons number numbers ih =>
      refine (keeps_nodeAt number).bind fun n _ => ?_
      split
      · exact (keeps_make _).bind fun _ _ => (keeps_make _).bind fun _ _ =>
          ih.bind fun _ _ =>
          keeps_pure trivial
      · exact keeps_throw _

theorem keeps_fill (fuel number : Nat) : Keeps (fill fuel number) fun _ =>
    True := by
  refine (keeps_nodeAt number).bind fun n _ => ?_
  split
  · exact (keeps_fillEntries fuel number).bind fun made hmade =>
      keeps_setMade (m := .map made) hmade number
  · exact (keeps_fillEntries fuel number).bind fun made _ =>
      keeps_setMade (by trivial) number
  · exact (keeps_makePairs _).bind fun _ _ => keeps_setMade (by trivial) number
  · exact (keeps_makeAll _).bind fun _ _ => keeps_setMade (by trivial) number
  · exact keeps_throw _

theorem keeps_fillAll
    (fuel : Nat)
    (numbers : List Nat) :
    Keeps (fillAll fuel numbers) fun _ => True := by
  induction numbers with
  | nil => exact keeps_pure trivial
  | cons number numbers ih => exact (keeps_fill fuel number).bind fun _ _ => ih

theorem keeps_fillWaiting (fuel rounds : Nat) :
    Keeps (fillWaiting fuel rounds) fun _ => True := by
  induction rounds with
  | zero => exact keeps_pure trivial
  | succ rounds ih =>
      refine keeps_get.bind fun s _ => ?_
      split
      · exact keeps_pure trivial
      · refine Keeps.bind (P := fun _ => True) (keeps_modify ?_) fun _ _ => ?_
        · exact fun _ => rfl
        · exact (keeps_fillAll fuel _).bind fun _ _ => ih

/-!
## Values of documents
-/

theorem wellKeyed_assemble
    {made : Array (Option Made)}
    (h : forall m, some m ∈ made -> m.Fair)
    (loops : Bool)
    (fuel : Nat)
    (around : List Nat)
    (number : Nat) :
    (assemble made loops fuel around number).WellKeyed := by
  induction fuel generalizing around number with
  | zero => trivial
  | succ fuel ih =>
      have hfair (m : Made) (hm : made.getD number none = some m) : m.Fair := by
        rw [Array.getD_eq_getD_getElem?] at hm
        cases hget : made[number]? with
        | none =>
            rw [hget] at hm
            cases hm
        | some entry =>
            rw [hget, Option.getD_some] at hm
            exact h m (hm ▸ Array.mem_of_getElem? hget)
      have htie (v : Value) (hv : v.WellKeyed) :
          (if loops = true then Value.tied number v else v).WellKeyed := by
        split
        · exact hv
        · exact hv
      rw [assemble]
      split
      · trivial
      · rename_i v hv
        exact hfair _ hv
      · rename_i m _ hm
        split
        · trivial
        · split
          · exact hfair _ hm
          · refine htie _ (Value.wellKeyedItems_iff.mpr fun v hv => ?_)
            obtain ⟨n, _, rfl⟩ := List.mem_map.mp hv
            exact ih _ n
          · rename_i entries _
            refine htie _ ⟨?_, Value.wellKeyedEntries_iff.mpr fun e he => ?_⟩
            · exact List.pairwise_map.mpr (hfair _ hm)
            · obtain ⟨e', _, rfl⟩ := List.mem_map.mp he
              exact ih _ e'.2
          · trivial
          · refine htie _ (Value.wellKeyedItems_iff.mpr fun v hv => ?_)
            obtain ⟨e, _, rfl⟩ := List.mem_map.mp hv
            exact ⟨ih _ e.1, ih _ e.2⟩

theorem wellKeyed_documentValue
    {g : Graph} {v : Value}
    (h : Document.valueOf g = .ok v) :
    v.WellKeyed := by
  have hkeeps :
      Keeps (do make g.root; fillWaiting (mergeFuel g.nodes) (g.nodes.size + 1))
      fun _ => True :=
    (keeps_make g.root).bind fun _ _ => keeps_fillWaiting _ _
  have hstart : State.Fair ⟨g.nodes, Array.replicate g.nodes.size none,
      []⟩ := by
    intro m hm
    cases (Array.mem_replicate.mp hm).2
  obtain ⟨⟨_, s⟩, hrun, h⟩ := bind_eq_ok h
  cases h
  exact wellKeyed_assemble (hkeeps _ _ s hstart hrun).1 _ _ _ _

end Document

/-- No mapping of a YAML text has a key twice. -/
theorem wellKeyed_read
    {source : String} {v : Value}
    (h : read source = .ok v) :
    v.WellKeyed := by
  obtain ⟨graph?, _, h⟩ := bind_eq_ok h
  cases graph? with
  | none =>
      cases h
      trivial
  | some g => exact Document.wellKeyed_documentValue h

theorem wellKeyed_load
    {source : String} {v : Value}
    (h : load source = .ok v) :
    v.WellKeyed := by
  rw [load] at h
  cases hread : read source with
  | error problem =>
      rw [hread] at h
      contradiction
  | ok v' =>
      rw [hread] at h
      rw [← Except.ok.inj h]
      exact wellKeyed_read hread

end Yaml
end Ambient
