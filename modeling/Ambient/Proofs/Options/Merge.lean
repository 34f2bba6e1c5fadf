import Ambient.Options
import Ambient.Proofs.Value.Key

/-!
# Deep merges

The merge of two mappings follows the paths of both.  A path to a value of the
update that is no mapping leads to it in the merge, a path of the base that
leaves the update at one of its mappings leads where it led, and there are no
other paths.  The keys of the base keep their places, with the new ones behind
them.  To merge an update once more changes nothing.
-/

namespace Ambient

namespace Value

/-- Where a path of keys leads from a value, through mappings only. -/
def at? : List Value -> Value -> Option Value
  | [], v => some v
  | key :: path, v => v.entries?.bind fun entries =>
      (find? key entries).bind (at? path)

@[simp] theorem entries?_map (entries : List (Value × Value)) :
    (map entries).entries? = some entries :=
  rfl

mutual

/-- A value whose mappings, as far as paths lead, have distinct keys and do not
hold themselves. -/
def Tree : Value -> Prop
  | map entries => DistinctKeys entries ∧ TreeEntries entries
  | tied label body => (tied label body).entries? = none
  | _ => True

/-- Entries whose values are trees. -/
def TreeEntries : List (Value × Value) -> Prop
  | [] => True
  | (key, value) :: entries =>
      key.isKey = true ∧ value.Tree ∧ TreeEntries entries

end

theorem treeEntries_iff
    {entries : List (Value × Value)} :
    TreeEntries entries ↔ forall e, e ∈ entries ->
      e.1.isKey = true ∧ e.2.Tree := by
  induction entries with
  | nil => simp [TreeEntries]
  | cons e entries ih => simp [TreeEntries, ih, and_assoc]

theorem mem_of_find?
    {key value : Value} {entries : List (Value × Value)}
    (h : find? key entries = some value) :
    exists k, (k, value) ∈ entries ∧ sameKey k key = true := by
  induction entries with
  | nil => contradiction
  | cons e entries ih =>
      obtain ⟨k, x⟩ := e
      rw [find?] at h
      split at h
      · rename_i hk
        cases h
        exact ⟨k, List.mem_cons_self, hk⟩
      · obtain ⟨k', hmem, hk'⟩ := ih h
        exact ⟨k', List.mem_cons_of_mem _ hmem, hk'⟩

/-- A key of a tree leads to the value that stands beside it. -/
theorem Tree.find?_of_mem
    {entries : List (Value × Value)} {e : Value × Value}
    (h : (map entries).Tree)
    (he : e ∈ entries) :
    Value.find? e.1 entries = some e.2 := by
  obtain ⟨hdistinct, htrees⟩ := h
  induction entries with
  | nil => contradiction
  | cons e' entries ih =>
      obtain ⟨hfirst, hrest⟩ := List.pairwise_cons.mp hdistinct
      rcases List.mem_cons.mp he with rfl | he
      · rw [Value.find?, if_pos (sameKey_self htrees.1)]
      · rw [Value.find?, if_neg (Bool.eq_false_iff.mp (hfirst e he)),
          ih he hrest htrees.2.2]

theorem Tree.eq_map
    {v : Value} {entries : List (Value × Value)}
    (h : v.Tree)
    (hentries : v.entries? = some entries) :
    v = map entries := by
  cases v with
  | map entries' => exact congrArg map (Option.some.inj hentries)
  | tied label body => cases h.symm.trans hentries
  | _ => cases hentries

theorem Tree.find?
    {key value : Value} {entries : List (Value × Value)}
    (h : (map entries).Tree)
    (hfind : Value.find? key entries = some value) :
    value.Tree := by
  obtain ⟨k, hmem, _⟩ := mem_of_find? hfind
  exact (treeEntries_iff.mp h.2 _ hmem).2

/-- Trees are mappings of trees and values that are no mapping. -/
@[elab_as_elim] theorem Tree.induction
    {P : Value -> Prop}
    (leaf : forall v, v.entries? = none -> P v)
    (node : forall entries, (map entries).Tree ->
      (forall e, e ∈ entries -> P e.2) ->
      P (map entries))
    (v : Value)
    (h : v.Tree) :
    P v := by
  match v with
  | map entries =>
      refine node entries h fun e he => ?_
      have hsize : sizeOf e.2 < 1 + sizeOf entries := by
        have hmem := List.sizeOf_lt_of_mem he
        have hpair : sizeOf e = 1 + sizeOf e.1 + sizeOf e.2 := by cases e; rfl
        omega
      exact Tree.induction leaf node e.2 (treeEntries_iff.mp h.2 e he).2
  | tied label body => exact leaf _ h
  | null | bool _ | int _ | double _ | str _ | moment _ | bytes _ | list _
  | set _ | pair _ _
  | again _ => exact leaf _ rfl
termination_by sizeOf v

end Value

namespace Options

open Value

theorem find?_merge_of_none
    {key : Value} {update : Entries}
    (h : find? key update = none)
    (base : Entries) :
    find? key (merge base update) = find? key base := by
  induction update generalizing base with
  | nil => rfl
  | cons e update ih =>
      obtain ⟨k, x⟩ := e
      rw [find?] at h
      split at h
      · contradiction
      · rename_i hk
        rw [merge, ih h, find?_put, if_neg hk]

theorem find?_merge_of_some
    {key value : Value} {update : Entries}
    (hdistinct : DistinctKeys update)
    (h : find? key update = some value)
    (base : Entries) :
    find? key (merge base update) =
      some (mergeValue ((find? key base).getD .null) value) := by
  induction update generalizing base with
  | nil => contradiction
  | cons e update ih =>
      obtain ⟨k, x⟩ := e
      rw [find?] at h
      split at h
      · rename_i hk
        cases h
        rw [merge, find?_merge_of_none (hdistinct.find?_eq_none hk), find?_put,
          if_pos hk, find?_congr hk]
      · rename_i hk
        rw [merge, ih (List.pairwise_cons.mp hdistinct).2 h, find?_put,
          if_neg hk]

theorem keys_merge
    {update : Entries}
    (h : DistinctKeys update)
    (base : Entries) :
    (merge base update).map Prod.fst =
      base.map Prod.fst ++ (update.map Prod.fst).filter fun key =>
        (find? key base).isNone := by
  induction update generalizing base with
  | nil => simp [merge]
  | cons e update ih =>
      obtain ⟨k, x⟩ := e
      obtain ⟨hk, hupdate⟩ := List.pairwise_cons.mp h
      rw [merge, ih hupdate, keys_put]
      -- No later key of the update is the one that has just been set.
      have hrest (value : Value) : (update.map Prod.fst).filter
          (fun key => (find? key (put k value base)).isNone) =
            (update.map Prod.fst).filter fun key =>
              (find? key base).isNone := by
        refine List.filter_congr fun key hkey => ?_
        obtain ⟨e, he, rfl⟩ := List.mem_map.mp hkey
        rw [find?_put, hk e he]
        rfl
      rw [hrest]
      cases hfind : find? k base <;> simp [hfind]

theorem mergeValue_of_not_mapping
    {old : Value}
    (h : old.entries? = none)
    (v : Value) :
    mergeValue old v = v := by
  cases v <;> simp [mergeValue, h]

theorem mergeValue_leaf
    {v : Value}
    (h : v.entries? = none)
    (old : Value) :
    mergeValue old v = v := by
  cases v with
  | map entries => cases h
  | tied label body => simp [mergeValue, h]
  | _ => rfl

theorem mergeValue_map
    {old : Value} {base : Entries}
    (h : old.entries? = some base)
    (update : Entries) :
    mergeValue old (.map update) = .map (merge base update) := by
  simp [mergeValue, h]

/-!
## Paths
-/

theorem at?_cons
    {key v : Value} {path : List Value} {entries : Entries}
    (h : v.entries? = some entries) :
    at? (key :: path) v = (find? key entries).bind (at? path) := by
  rw [at?, h, Option.bind_some]

/-- A path with a first key starts at a mapping that has it. -/
theorem exists_of_at?_cons
    {key v w : Value} {path : List Value}
    (h : at? (key :: path) v = some w) :
    exists entries x,
      v.entries? = some entries ∧ find? key entries = some x ∧
        at? path x = some w := by
  rw [at?, Option.bind_eq_some_iff] at h
  obtain ⟨entries, hentries, h⟩ := h
  obtain ⟨x, hx, h⟩ := Option.bind_eq_some_iff.mp h
  exact ⟨entries, x, hentries, hx, h⟩

theorem at?_mergeValue_leaf
    {v w : Value}
    (hv : v.Tree)
    {path : List Value}
    (h : at? path v = some w)
    (hw : w.entries? = none)
    (old : Value) :
    at? path (mergeValue old v) = some w := by
  induction path generalizing v old with
  | nil =>
      cases h
      rw [mergeValue_leaf hw]
      rfl
  | cons key path ih =>
      obtain ⟨update, x, hupdate, hx, hpath⟩ := exists_of_at?_cons h
      cases hv.eq_map hupdate
      cases hbase : old.entries? with
      | none => rw [mergeValue_of_not_mapping hbase, h]
      | some base =>
          rw [mergeValue_map hbase, at?_cons rfl, find?_merge_of_some hv.1 hx]
          exact ih (hv.find? hx) hpath _

theorem at?_mergeValue_base
    {old v w x : Value}
    (hv : v.Tree)
    {front back : List Value} {key : Value} {update : Entries}
    (h : at? (front ++ key :: back) old = some w)
    (hfront : at? front v = some x)
    (hx : x.entries? = some update)
    (hkey : find? key update = none) :
    at? (front ++ key :: back) (mergeValue old v) = some w := by
  induction front generalizing old v with
  | nil =>
      cases hfront
      cases hv.eq_map hx
      obtain ⟨base, y, hbase, hy, hpath⟩ := exists_of_at?_cons h
      rw [mergeValue_map hbase, List.nil_append, at?_cons rfl,
        find?_merge_of_none hkey, hy]
      exact hpath
  | cons first front ih =>
      obtain ⟨update', y, hupdate', hy, hpath⟩ := exists_of_at?_cons hfront
      cases hv.eq_map hupdate'
      obtain ⟨base, z, hbase, hz, hrest⟩ := exists_of_at?_cons h
      rw [mergeValue_map hbase, List.cons_append, at?_cons rfl,
        find?_merge_of_some hv.1 hy, hz]
      exact ih (hv.find? hy) hrest hpath

theorem isSome_at?_of_mergeValue
    {old v : Value}
    (hv : v.Tree)
    {path : List Value}
    (h : (at? path (mergeValue old v)).isSome = true) :
    (at? path old).isSome = true ∨ (at? path v).isSome = true := by
  induction path generalizing old v with
  | nil => exact .inl rfl
  | cons key path ih =>
      cases hupdate : v.entries? with
      | none =>
          rw [mergeValue_leaf hupdate] at h
          exact .inr h
      | some update =>
          cases hbase : old.entries? with
          | none =>
              rw [mergeValue_of_not_mapping hbase] at h
              exact .inr h
          | some base =>
              cases hv.eq_map hupdate
              rw [mergeValue_map hbase, at?_cons rfl] at h
              rw [at?_cons hbase, at?_cons hupdate]
              cases hy : Value.find? key update with
              | none =>
                  rw [find?_merge_of_none hy] at h
                  exact .inl h
              | some y =>
                  rw [find?_merge_of_some hv.1 hy, Option.bind_some] at h
                  cases hz : Value.find? key base with
                  | none =>
                      have hnull : Value.null.entries? = none := rfl
                      rw [hz, Option.getD_none,
                        mergeValue_of_not_mapping hnull] at h
                      exact .inr h
                  | some z =>
                      rw [hz] at h
                      exact ih (hv.find? hy) h

theorem at?_mergeValue_mappings
    {old v x y : Value}
    (hv : v.Tree)
    {path : List Value} {base update : Entries}
    (hold : at? path old = some x)
    (hbase : x.entries? = some base)
    (hpath : at? path v = some y)
    (hupdate : y.entries? = some update) :
    at? path (mergeValue old v) = some (.map (merge base update)) ∧
      DistinctKeys update := by
  induction path generalizing old v with
  | nil =>
      cases hold
      cases hpath
      cases hv.eq_map hupdate
      exact ⟨congrArg some (mergeValue_map hbase update), hv.1⟩
  | cons key path ih =>
      obtain ⟨base', z, hbase', hz, hrest⟩ := exists_of_at?_cons hold
      obtain ⟨update', z', hupdate', hz', hrest'⟩ := exists_of_at?_cons hpath
      cases hv.eq_map hupdate'
      rw [mergeValue_map hbase', at?_cons rfl, find?_merge_of_some hv.1 hz', hz]
      exact ih (hv.find? hz') hrest hrest'

/-!
## Repeated merges
-/

/-- An update changes nothing if it changes no value. -/
theorem merge_eq_self
    {base update : Entries}
    (h : forall e, e ∈ update ->
      exists x, find? e.1 base = some x ∧ mergeValue x e.2 = x) :
    merge base update = base := by
  induction update with
  | nil => rfl
  | cons e update ih =>
      obtain ⟨x, hx, hmerge⟩ := h e List.mem_cons_self
      rw [merge, hx, Option.getD_some, hmerge, put_eq_self hx]
      exact ih fun e' he' => h e' (List.mem_cons_of_mem _ he')

theorem mergeValue_self
    {v : Value}
    (h : v.Tree) :
    mergeValue v v = v := by
  refine Tree.induction ?leaf ?node v h
  case leaf => exact fun v hv => mergeValue_leaf hv v
  case node =>
    intro entries htree ih
    rw [mergeValue_map rfl, merge_eq_self]
    exact fun e he => ⟨e.2, htree.find?_of_mem he, ih e he⟩

theorem mergeValue_mergeValue
    {v : Value}
    (h : v.Tree) :
    forall old, mergeValue (mergeValue old v) v = mergeValue old v := by
  refine Tree.induction ?leaf ?node v h
  case leaf =>
    exact fun v hv old => by rw [mergeValue_leaf hv, mergeValue_leaf hv]
  case node =>
    intro update htree ih old
    cases hbase : old.entries? with
    | none => rw [mergeValue_of_not_mapping hbase, mergeValue_self htree]
    | some base =>
        rw [mergeValue_map hbase, mergeValue_map rfl, merge_eq_self]
        exact fun e he =>
          ⟨_, find?_merge_of_some htree.1 (htree.find?_of_mem he) base,
            ih e he _⟩

/-!
## The laws of a merge
-/

/-- The merge of two mappings follows the paths of both and keeps the order of
their keys; it is settled after the first time. -/
theorem merge_paths
    (base update : Entries)
    (h : (Value.map update).Tree) :
    (forall path v, at? path (.map update) = some v -> v.entries? = none ->
      at? path (.map (merge base update)) = some v) ∧
    (forall front key back v w entries,
      at? (front ++ key :: back) (.map base) = some v ->
      at? front (.map update) = some w -> w.entries? = some entries ->
      find? key entries = none ->
        at? (front ++ key :: back) (.map (merge base update)) = some v) ∧
    (forall path, (at? path (.map (merge base update))).isSome = true ->
      (at? path (.map base)).isSome = true ∨
        (at? path (.map update)).isSome = true) ∧
    (forall path v w base' update', at? path (.map base) = some v ->
      v.entries? = some base' ->
      at? path (.map update) = some w -> w.entries? = some update' ->
        exists entries,
          at? path (.map (merge base update)) = some (.map entries) ∧
          entries.map Prod.fst = base'.map Prod.fst ++
            (update'.map Prod.fst).filter fun key => (find? key base').isNone) ∧
    merge (merge base update) update = merge base update ∧
    merge update update = update := by
  have hmerge : Value.map (merge base update) =
      mergeValue (.map base) (.map update) :=
    (mergeValue_map rfl update).symm
  rw [hmerge]
  refine ⟨?_, ?_, ?_, ?_, ?_, ?_⟩
  · exact fun path v hpath hv => at?_mergeValue_leaf h hpath hv _
  · exact fun front key back v w entries hbase hfront hw hkey =>
      at?_mergeValue_base h hbase hfront hw hkey
  · exact fun path hpath => isSome_at?_of_mergeValue h hpath
  · intro path v w base' update' hold hbase' hpath hupdate'
    obtain ⟨hmappings, hdistinct⟩ :=
      at?_mergeValue_mappings h hold hbase' hpath hupdate'
    exact ⟨_, hmappings, keys_merge hdistinct base'⟩
  · have hsettled := mergeValue_mergeValue h (.map base)
    rw [← hmerge, mergeValue_map rfl] at hsettled
    exact Value.map.inj hsettled
  · have hself := mergeValue_self h
    rw [mergeValue_map rfl] at hself
    exact Value.map.inj hself

/-- A base in which the style and the width are mappings. -/
def wideStyle : Entries :=
  [(.str "style",
    .map [(.str "indent", .int 4),
      (.str "quote", .map [(.str "kind", .int 2)])]),
    (.str "width", .map [(.str "most", .int 80)])]

/-- An update that adds to the style, and puts a truth value and a number over
mappings. -/
def narrowStyle : Entries :=
  [(.int 1, .null),
    (.str "style", .map [(.str "quote", .bool false),
      (.str "tabs", .map [(.str "size", .int 8)])]),
    (.str "width", .int 60)]

theorem merge_paths_narrowStyle :
    (Value.map narrowStyle).Tree ∧
      at? [.str "style", .str "quote"] (.map (merge wideStyle narrowStyle)) =
        some (.bool false) ∧
      at? [.str "style", .str "indent"] (.map (merge wideStyle narrowStyle)) =
        some (.int 4) ∧
      merge (merge wideStyle narrowStyle) narrowStyle =
        merge wideStyle narrowStyle := by
  have htree : (Value.map narrowStyle).Tree := by
    simp [narrowStyle, Value.Tree, TreeEntries, DistinctKeys, sameKey, isKey,
      integer?]
  have hpaths := merge_paths wideStyle narrowStyle htree
  exact ⟨htree, hpaths.1 [.str "style", .str "quote"] _ rfl rfl,
    hpaths.2.1 [.str "style"] (.str "indent") [] _ _ _ rfl rfl rfl rfl,
    hpaths.2.2.2.2.1⟩

end Options
end Ambient
