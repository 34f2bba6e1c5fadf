import Ambient.Conversion
import Ambient.Host
import Ambient.Proofs.Options.Merge
import Ambient.Proofs.Yaml.Keys

/-!
# Precedence of options

An option can be set by the options file, by a flag of its own, by the query of
the file and by a pair on the command line.  A pair on the command line beats
all others, and the last pair counts.  A flag beats the entry of the file, but
the query of the file beats the flag.
-/

namespace Ambient

open CommandLine

/-!
## What the command line sets
-/

namespace CommandLine.ConverterArgs

/-- The value that a flag of its own gives to an option. -/
def flagOption? (args : ConverterArgs) (key : String) : Option Value :=
  if key = "destination" then (FlagValue.text? args.destination).map .str
  else if key = "module" then (FlagValue.text? args.module).map .str
  else if key = "private" then
    (if args.includePrivate then some (.bool true) else none)
  else if key = "comments" then
    (if args.noComments then some (.bool false) else none)
  else if key = "typedef_interfaces" then
    (if args.noTypedefInterfaces then some (.bool false) else none)
  else none

/-- A pair of the query: what stands before and after the first equals sign. -/
def pair? : FlagValue -> Option (String × String)
  | .text word => some ((cutValue word).1, (cutValue word).2.getD "")
  | .missing => none

/-- The pairs of the query in order. -/
def pairs (args : ConverterArgs) : List (String × String) :=
  (args.query.getD []).filterMap pair?

/-- The value that the last pair with a key gives to it. -/
def queried? (args : ConverterArgs) (key : String) : Option String :=
  args.pairs.reverse.lookup key

end CommandLine.ConverterArgs

/-!
## What the file sets
-/

namespace Options

open Value

/-- The entries of an options file; there are none if it is missing or is no
mapping. -/
def fileEntries (file : Option Value) : Entries := (file.bind entries?).getD []

/-- The query of an options file; null if it is missing. -/
def fileQuery (file : Option Value) : Value := getD "query" (fileEntries file)

/-- The value that the query of an options file gives to a key. -/
def fileQueried? (file : Option Value) (key : String) : Option Value :=
  (fileQuery file).entries?.bind (get? key)

theorem get?_override
    {query : Entries} {key : String}
    (h : DistinctKeys query)
    (hkey : key ≠ "query")
    (options : Entries) :
    get? key (override options query) =
      ((get? key query).map literal).or (get? key options) := by
  induction query generalizing options with
  | nil => rfl
  | cons e query ih =>
      obtain ⟨k, x⟩ := e
      rw [override, ih (List.pairwise_cons.mp h).2, get?, get?, get?, get?,
        find?]
      by_cases hk : sameKey k (str key) = true
      · cases sameKey_str.mp hk
        have hquery : isQueryKey (str key) = false := by
          refine Bool.eq_false_iff.mpr fun hsame => ?_
          cases sameKey_str.mp hsame
          exact hkey rfl
        rw [h.find?_eq_none hk, hquery, if_neg Bool.false_ne_true, find?_put,
          if_pos hk, if_pos hk]
        rfl
      · rw [if_neg hk]
        split
        · rfl
        · rw [find?_put, if_neg hk]

/-!
## The layers
-/

theorem entries_eq_nil
    {v : Value} {entries : Entries}
    (h : v.truthy = false)
    (hentries : v.entries? = some entries) :
    entries = [] := by
  cases v with
  | map entries' =>
      cases hentries
      simpa [truthy] using h
  | tied label body =>
      cases body with
      | map entries' =>
          have hnil : entries' = [] := by simpa [truthy] using h
          cases hnil
          cases hentries
          rfl
      | again label' => contradiction
      | tied label' body' =>
          simp only [entries?, unfold, substitute] at hentries
          by_cases hlabel : label' = label <;> simp [hlabel] at hentries
      | _ => contradiction
  | _ => contradiction

/-- The options file over the defaults. -/
theorem mergeWith_file
    {v : Value}
    (h : v.truthy = false ∨ v.entries?.isSome = true) :
    mergeWith defaults (v.orElse (.map [])) =
      .ok (merge defaults (fileEntries (some v))) := by
  have hentries : (v.orElse (.map [])).entries? =
      some (fileEntries (some v)) := by
    cases htruthy : v.truthy with
    | false =>
        rw [orElse, htruthy, if_neg Bool.false_ne_true]
        cases hv : v.entries? with
        | none => simp [fileEntries, hv]
        | some entries => simp [fileEntries, hv, entries_eq_nil htruthy hv]
    | true =>
        obtain ⟨entries, hv⟩ :=
          Option.isSome_iff_exists.mp (h.resolve_left (by simp [htruthy]))
        rw [orElse, htruthy, if_pos rfl]
        simp [fileEntries, hv]
  simp only [mergeWith, hentries]

end Options

namespace CommandLine.ConverterArgs

open Value

/-- The options that flags of their own set. -/
def flagEntries (args : ConverterArgs) : Options.Entries :=
  textEntry "destination" args.destination ++ textEntry "module" args.module ++
    switchEntry "private" args.includePrivate true ++
    switchEntry "comments" args.noComments false ++
    switchEntry "typedef_interfaces" args.noTypedefInterfaces false

/-- The pairs of the query, set one after the other. -/
def queryEntries (args : ConverterArgs) : Options.Entries :=
  (args.pairs.map fun pair => (str pair.1, str pair.2)).foldl
    (fun acc entry => put entry.1 entry.2 acc) []

/-- The options that are set at all, the query among them if there is a pair. -/
def optionEntries (args : ConverterArgs) : Options.Entries :=
  args.flagEntries ++
    if args.query.isSome then [(str "query", .map args.queryEntries)] else []

theorem mapM_queryPair
    {values : List FlagValue}
    (h : .missing ∉ values) :
    values.mapM queryPair =
      .ok ((values.filterMap pair?).map fun pair =>
        (str pair.1, str pair.2)) := by
  induction values with
  | nil => rfl
  | cons value values ih =>
      rw [List.mem_cons, not_or] at h
      rw [List.mapM_cons, ih h.2]
      cases value with
      | missing => exact absurd rfl h.1
      | text word => rfl

theorem overrides_eq
    {args : ConverterArgs}
    (h : forall values, args.query = some values -> .missing ∉ values) :
    args.overrides = .ok (.map args.optionEntries) := by
  unfold overrides optionEntries
  cases hquery : args.query with
  | none => rfl
  | some values =>
      rw [queryEntry, mapM_queryPair (h values hquery)]
      simp only [queryEntries, pairs, hquery]
      rfl

theorem get?_singleton
    (key other : String)
    (value : Value) :
    get? other [(str key, value)] =
      if other = key then some value else none := by
  rw [get?, find?, sameKey, beq_eq_decide]
  by_cases h : key = other
  · simp [h]
  · simp [h, Ne.symm h, find?]

theorem get?_append
    (key : String)
    (entries entries' : Options.Entries) :
    get? key (entries ++ entries') =
      (get? key entries).or (get? key entries') :=
  find?_append (str key) entries entries'

theorem get?_textEntry
    (key other : String)
    (value : Option FlagValue) :
    get? other (textEntry key value) =
      if other = key then (FlagValue.text? value).map .str else none := by
  unfold textEntry
  cases FlagValue.text? value with
  | none => simp [get?, find?]
  | some s => exact get?_singleton key other (.str s)

theorem get?_switchEntry
    (key other : String)
    (given value : Bool) :
    get? other (switchEntry key given value) =
      if other = key then (if given then some (.bool value) else none)
      else none := by
  unfold switchEntry
  cases given with
  | false => simp [get?, find?]
  | true => exact get?_singleton key other (.bool value)

theorem get?_flagEntries
    (args : ConverterArgs)
    (key : String) :
    get? key args.flagEntries = args.flagOption? key := by
  simp only [flagEntries, flagOption?, get?_append, get?_textEntry,
    get?_switchEntry]
  by_cases hdestination : key = "destination"
  · simp [hdestination]
  by_cases hmodule : key = "module"
  · simp [hmodule]
  by_cases hprivate : key = "private"
  · simp [hprivate]
  by_cases hcomments : key = "comments"
  · simp [hcomments]
  by_cases hinterfaces : key = "typedef_interfaces"
  · simp [hinterfaces]
  simp [hdestination, hmodule, hprivate, hcomments, hinterfaces]

/-- The last pair with a key counts. -/
theorem get?_queryEntries
    (args : ConverterArgs)
    (key : String) :
    get? key args.queryEntries = (args.queried? key).map .str := by
  rw [queryEntries, get?, find?_putAll, ← List.map_reverse, queried?, find?,
    Option.or_none]
  induction args.pairs.reverse with
  | nil => rfl
  | cons pair pairs ih =>
      rw [List.map_cons, find?, ih, List.lookup_cons, sameKey, beq_eq_decide,
        beq_eq_decide]
      by_cases h : key = pair.1
      · simp [h]
      · simp [h, Ne.symm h]

theorem leaf_queryEntries
    {args : ConverterArgs} {key : String} {v : Value}
    (h : get? key args.queryEntries = some v) :
    v.entries? = none := by
  rw [get?_queryEntries] at h
  obtain ⟨s, _, rfl⟩ := Option.map_eq_some_iff.mp h
  rfl

theorem distinctKeys_queryEntries (args : ConverterArgs) :
    DistinctKeys args.queryEntries :=
  DistinctKeys.putAll List.Pairwise.nil _

theorem distinctKeys_optionEntries
    (args : ConverterArgs) :
    DistinctKeys args.optionEntries := by
  have htext (key : String) (value : Option FlagValue) :
      ((textEntry key value).map Prod.fst).Sublist [str key] := by
    unfold textEntry
    split <;> simp
  have hswitch (key : String) (given value : Bool) :
      ((switchEntry key given value).map Prod.fst).Sublist [str key] := by
    unfold switchEntry
    split <;> simp
  have hquery :
      ((if args.query.isSome then [(str "query", Value.map args.queryEntries)]
        else []).map Prod.fst).Sublist [str "query"] := by
    split <;> simp
  -- All keys are different texts, and each is there once at most.
  have hkeys : (args.optionEntries.map Prod.fst).Sublist
      ([str "destination"] ++ [str "module"] ++ [str "private"] ++
        [str "comments"] ++ [str "typedef_interfaces"] ++
        [str "query"]) := by
    simp only [optionEntries, flagEntries, List.map_append]
    exact (((((htext _ _).append (htext _ _)).append (hswitch _ _ _)).append
      (hswitch _ _ _)).append (hswitch _ _ _)).append hquery
  unfold DistinctKeys
  rw [← List.pairwise_map (f := Prod.fst)
    (R := fun k k' => sameKey k k' = false)]
  exact List.Pairwise.sublist hkeys (by decide)

end CommandLine.ConverterArgs

namespace Options

open Value

theorem distinctKeys_merge
    {base : Entries}
    (h : DistinctKeys base)
    (update : Entries) :
    DistinctKeys (merge base update) := by
  induction update generalizing base with
  | nil => exact h
  | cons e update ih =>
      rw [merge]
      exact ih (h.put _ _)

/-- What stands in the place of an empty mapping once it is updated by a value:
the value, except that a mapping that holds itself is taken apart. -/
theorem mergeValue_nil
    {v : Value}
    (h : v.WellKeyed) :
    (v.entries? = none ∧ mergeValue (.map []) v = v) ∨
      exists entries entries', v.entries? = some entries ∧
        mergeValue (.map []) v = .map entries' ∧ DistinctKeys entries' ∧
          forall key, find? key entries' = find? key entries := by
  cases hentries : v.entries? with
  | none => exact .inl ⟨rfl, mergeValue_leaf hentries _⟩
  | some entries =>
      have hdistinct := (h.entries hentries).1
      refine .inr ⟨entries, ?_⟩
      cases v with
      | map entries' =>
          cases hentries
          refine ⟨merge [] entries, rfl, mergeValue_map rfl entries, ?_,
            fun key => ?_⟩
          · exact distinctKeys_merge List.Pairwise.nil entries
          · cases hkey : find? key entries with
            | none => exact find?_merge_of_none hkey []
            | some x =>
                rw [find?_merge_of_some hdistinct hkey,
                  mergeValue_of_not_mapping rfl]
      | tied label body =>
          refine ⟨_, rfl, ?_, DistinctKeys.putAll List.Pairwise.nil entries,
            fun key => ?_⟩
          · simp [mergeValue, hentries]
          · rw [find?_putAll, hdistinct.find?_reverse]
            exact Option.or_none
      | _ => contradiction

theorem wellKeyed_getD
    {entries : Entries}
    (h : forall e, e ∈ entries -> e.2.WellKeyed)
    (key : String) :
    (getD key entries).WellKeyed := by
  rw [getD, get?]
  cases hfind : find? (str key) entries with
  | none => trivial
  | some x =>
      obtain ⟨k, hmem, _⟩ := mem_of_find? hfind
      exact h _ hmem

/-- What is known of the query once the file is merged into the defaults. -/
structure Layered (file : Option Value) (query : Value) : Prop where
  distinct : forall entries, query.entries? = some entries ->
    DistinctKeys entries
  get : forall key, query.entries?.bind (get? key) = fileQueried? file key
  faulty : query.truthy = true ∧ query.entries? = none ↔
    (fileQuery file).truthy = true ∧ (fileQuery file).entries? = none

theorem wellKeyed_fileEntries
    {file : Option Value}
    (h : forall v, file = some v -> v.WellKeyed) :
    DistinctKeys (fileEntries file) ∧
      forall e, e ∈ fileEntries file -> e.2.WellKeyed := by
  unfold fileEntries
  cases hentries : file.bind entries? with
  | none => exact ⟨List.Pairwise.nil, by simp⟩
  | some entries =>
      obtain ⟨v, hv, hentries⟩ := Option.bind_eq_some_iff.mp hentries
      exact (h v hv).entries hentries

theorem layered_file
    {file : Option Value}
    (h : forall v, file = some v -> v.WellKeyed) :
    Layered file (getD "query" (merge defaults (fileEntries file))) := by
  obtain ⟨hdistinct, hvalues⟩ := wellKeyed_fileEntries h
  cases hquery : get? "query" (fileEntries file) with
  | none =>
      have hfile : fileQuery file = .null := by
        rw [fileQuery, getD, hquery, Option.getD_none]
      have hmerge : getD "query" (merge defaults (fileEntries file)) =
          .map [] := by
        rw [getD, get?, find?_merge_of_none hquery]
        rfl
      rw [hmerge]
      constructor
      · rintro entries ⟨⟩
        exact List.Pairwise.nil
      · intro key
        rw [fileQueried?, hfile]
        rfl
      · rw [hfile]
        simp [truthy]
  | some v =>
      have hfile : fileQuery file = v := by
        rw [fileQuery, getD, hquery, Option.getD_some]
      have hmerge : getD "query" (merge defaults (fileEntries file)) =
          mergeValue (.map []) v := by
        rw [getD, get?, find?_merge_of_some hdistinct hquery]
        rfl
      rw [hmerge]
      have hv : v.WellKeyed := by
        rw [← hfile]
        exact wellKeyed_getD hvalues "query"
      rcases mergeValue_nil hv with
        ⟨hleaf, hvalue⟩ | ⟨entries, entries', hentries, hvalue,
          hdistinct', hfind⟩
      · rw [hvalue]
        constructor
        · exact fun entries hentries =>
            absurd (hleaf.symm.trans hentries) (by simp)
        · exact fun key => by rw [fileQueried?, hfile]
        · rw [hfile]
      · rw [hvalue]
        constructor
        · rintro entries ⟨⟩
          exact hdistinct'
        · intro key
          rw [fileQueried?, hfile, hentries]
          exact hfind (str key)
        · rw [hfile, hentries]
          simp

/-- The entries that override the options: the pairs of the command line over
the query of the file. -/
structure Query (args : ConverterArgs) (file : Option Value) (query : Entries) :
    Prop where
  distinct : DistinctKeys query
  get : forall key, get? key query =
    ((args.queried? key).map Value.str).or (fileQueried? file key)

theorem query_merged
    {file : Option Value} {query : Value}
    (h : Layered file query)
    (args : ConverterArgs) :
    exists entries, mergeValue query (.map args.queryEntries) = .map entries ∧
      Query args file entries := by
  have hdistinct := args.distinctKeys_queryEntries
  cases hentries : query.entries? with
  | none =>
      refine ⟨_, mergeValue_of_not_mapping hentries _, hdistinct, fun key => ?_⟩
      rw [args.get?_queryEntries, ← h.get, hentries, Option.bind_none,
        Option.or_none]
  | some entries =>
      refine ⟨_, mergeValue_map hentries _,
        distinctKeys_merge (h.distinct entries hentries) _, fun key => ?_⟩
      rw [← args.get?_queryEntries, ← h.get, hentries, Option.bind_some]
      cases hkey : get? key args.queryEntries with
      | none => exact find?_merge_of_none hkey entries
      | some x =>
          rw [get?, find?_merge_of_some hdistinct hkey,
            mergeValue_leaf (args.leaf_queryEntries hkey)]
          rfl

theorem query_file
    {args : ConverterArgs} {file : Option Value} {query : Value}
    (h : Layered file query)
    (hargs : args.query = none)
    (husable : ¬ (query.truthy = true ∧ query.entries? = none)) :
    exists entries, (query.orElse (.map [])).entries? = some entries ∧
      Query args file entries := by
  have hqueried (key : String) : args.queried? key = none := by
    simp [ConverterArgs.queried?, ConverterArgs.pairs, hargs]
  cases htruthy : query.truthy with
  | false =>
      refine ⟨[],
        by rw [orElse, htruthy]; rfl, List.Pairwise.nil, fun key => ?_⟩
      rw [hqueried, ← h.get]
      cases hentries : query.entries? with
      | none => rfl
      | some entries =>
          cases entries_eq_nil htruthy hentries
          rfl
  | true =>
      cases hentries : query.entries? with
      | none => exact absurd ⟨htruthy, hentries⟩ husable
      | some entries =>
          have hused : (query.orElse (.map [])).entries? = some entries := by
            rw [orElse, htruthy]
            exact hentries
          refine ⟨entries, hused, h.distinct entries hentries, fun key => ?_⟩
          rw [hqueried, ← h.get, hentries]
          rfl

theorem resolve_eq
    {file : Option Value}
    (h : forall v, file = some v -> v.truthy = false ∨ v.entries?.isSome = true)
    (entries : Entries) :
    resolve file (.map entries) =
      applyQuery (merge (merge defaults (fileEntries file)) entries) := by
  unfold resolve
  cases file with
  | none => cases entries <;> rfl
  | some v =>
      simp only [mergeWith_file (h v rfl)]
      cases entries <;> rfl

theorem get?_query_optionEntries
    (args : ConverterArgs) :
    get? "query" args.optionEntries =
      if args.query.isSome then some (.map args.queryEntries) else none := by
  have hflag : args.flagOption? "query" = none := by
    simp [ConverterArgs.flagOption?]
  rw [ConverterArgs.optionEntries, ConverterArgs.get?_append,
    args.get?_flagEntries, hflag]
  split <;> rfl

theorem resolve_layers
    (args : ConverterArgs)
    {file : Option Value}
    (hkeys : forall v, file = some v -> v.WellKeyed)
    (hmapping : forall v, file = some v ->
      v.truthy = false ∨ v.entries?.isSome = true) :
    (args.query = none ∧ (fileQuery file).truthy = true ∧
      (fileQuery file).entries? = none ->
      resolve file (.map args.optionEntries) = .error .nonMapping) ∧
    (¬ (args.query = none ∧ (fileQuery file).truthy = true ∧
      (fileQuery file).entries? = none) ->
      exists query, Query args file query ∧
        resolve file (.map args.optionEntries) =
          .ok (override
            (merge (merge defaults (fileEntries file)) args.optionEntries)
            query)) := by
  have hlayered := layered_file hkeys
  have hget := get?_query_optionEntries args
  rw [resolve_eq hmapping, applyQuery]
  cases hargs : args.query with
  | none =>
      -- Without a pair, the query is that of the file.
      rw [hargs] at hget
      rw [getD, get?, find?_merge_of_none hget, ← get?, ← getD,
        ← hlayered.faulty]
      constructor
      · rintro ⟨_, htruthy, hnone⟩
        rw [orElse, htruthy, if_pos rfl, hnone]
      · intro husable
        obtain ⟨query, hentries, hquery⟩ :=
          query_file hlayered hargs fun hfaulty => husable ⟨rfl, hfaulty⟩
        exact ⟨query, hquery, by rw [hentries]⟩
  | some values =>
      rw [hargs] at hget
      obtain ⟨query, hmerge, hquery⟩ := query_merged hlayered args
      constructor
      · rintro ⟨hnone, _⟩
        contradiction
      · intro _
        refine ⟨query, hquery, ?_⟩
        have horElse : ((Value.map query).orElse (.map [])).entries? =
            some query := by
          cases query <;> rfl
        rw [getD, get?, find?_merge_of_some args.distinctKeys_optionEntries
          hget, Option.getD_some, ← get?, ← getD, hmerge, horElse]

theorem leaf_flagOption
    {args : ConverterArgs} {key : String} {value : Value}
    (h : args.flagOption? key = some value) :
    value.entries? = none := by
  have htext {given : Option FlagValue}
      (h : (FlagValue.text? given).map Value.str = some value) :
      value.entries? = none := by
    obtain ⟨s, _, rfl⟩ := Option.map_eq_some_iff.mp h
    rfl
  have hswitch {given b : Bool}
      (h : (if given then some (Value.bool b) else none) = some value) :
      value.entries? = none := by
    split at h
    · cases h
      rfl
    · contradiction
  unfold ConverterArgs.flagOption? at h
  split at h
  · exact htext h
  split at h
  · exact htext h
  split at h
  · exact hswitch h
  split at h
  · exact hswitch h
  split at h
  · exact hswitch h
  · contradiction

theorem ne_query_of_flagOption
    {args : ConverterArgs} {key : String} {value : Value}
    (h : args.flagOption? key = some value) :
    key ≠ "query" := by
  rintro rfl
  simp [ConverterArgs.flagOption?] at h

/-- A flag sets its option over all that is there. -/
theorem get?_flag
    {args : ConverterArgs} {key : String} {value : Value}
    (h : args.flagOption? key = some value)
    (base : Entries) :
    get? key (merge base args.optionEntries) = some value := by
  have hget : get? key args.optionEntries = some value := by
    rw [ConverterArgs.optionEntries, ConverterArgs.get?_append,
      args.get?_flagEntries, h]
    rfl
  rw [get?, find?_merge_of_some args.distinctKeys_optionEntries hget,
    mergeValue_leaf (leaf_flagOption h)]

end Options

/-!
## What a run takes
-/

/-- No mapping in a value that is read has a key twice. -/
def Dump.Loader.WellKeyed (yaml : Dump.Loader) : Prop :=
  forall source v, yaml source = .ok v -> v.WellKeyed

theorem Yaml.wellKeyed_loader : Dump.Loader.WellKeyed Yaml.load :=
  fun _ _ => Yaml.wellKeyed_load

section

variable {State Sink : Type} {fs : FileSystem State Sink} {yaml : Dump.Loader}

theorem wellKeyed_readOptions
    {s : State} {path : Option String} {file : Option Value}
    (hyaml : yaml.WellKeyed)
    (h : Conversion.readOptions fs yaml s path = .ok file) :
    forall v, file = some v -> v.WellKeyed := by
  rintro v rfl
  unfold Conversion.readOptions at h
  split at h
  · cases h
  · cases h
  · obtain ⟨there, _, h⟩ := bind_eq_ok h
    cases there with
    | false => cases h
    | true =>
        obtain ⟨content, _, h⟩ := bind_eq_ok h
        obtain ⟨source, _, h⟩ := bind_eq_ok h
        obtain ⟨_, hread, h⟩ := bind_eq_ok h
        cases h
        exact hyaml source _ hread

open Options Value in
/-- The options are loaded unless there is no pair on the command line and the
query of the file is neither empty nor a mapping.  Then a pair on the command
line gives its option the value, whatever the file holds; a flag gives it to its
own if neither a pair nor the query of the file does, and the query of the file
beats the flag. -/
theorem loadOptions_precedence
    (fs : FileSystem State Sink)
    (yaml : Dump.Loader)
    (hyaml : yaml.WellKeyed)
    (args : ConverterArgs)
    (hargs : forall values, args.query = some values -> .missing ∉ values)
    (s : State)
    (file : Option Value)
    (hfile : Conversion.readOptions fs yaml s (FlagValue.text? args.config) =
      .ok file)
    (hmapping : forall v, file = some v ->
      v.truthy = false ∨ v.entries?.isSome = true) :
    exists overrides, args.overrides = .ok overrides ∧
      let loaded :=
        Conversion.loadOptions fs yaml s (FlagValue.text? args.config) overrides
      (args.query = none ∧ (fileQuery file).truthy = true ∧
        (fileQuery file).entries? = none ->
        loaded = .error .nonMapping) ∧
      (¬ (args.query = none ∧ (fileQuery file).truthy = true ∧
          (fileQuery file).entries? = none) ->
        exists options, loaded = .ok options ∧
          (forall key value, key ≠ "query" -> args.queried? key = some value ->
            get? key options = some (literal (.str value))) ∧
          (forall key value, args.flagOption? key = some value ->
            args.queried? key = none -> fileQueried? file key = none ->
            get? key options = some value) ∧
          (forall key value other, args.flagOption? key = some value ->
            args.queried? key = none -> fileQueried? file key = some other ->
            get? key options = some (literal other))) := by
  have hkeys := wellKeyed_readOptions hyaml hfile
  refine ⟨_, ConverterArgs.overrides_eq hargs, ?_⟩
  have hload (overrides : Value) :
      Conversion.loadOptions fs yaml s (FlagValue.text? args.config) overrides =
        resolve file overrides := by
    rw [Conversion.loadOptions, hfile]
    rfl
  simp only [hload]
  obtain ⟨hfaulty, hlayers⟩ := resolve_layers args hkeys hmapping
  refine ⟨hfaulty, fun husable => ?_⟩
  obtain ⟨query, hquery, hresolve⟩ := hlayers husable
  refine ⟨_, hresolve, ?_, ?_, ?_⟩
  · intro key value hkey hqueried
    rw [get?_override hquery.distinct hkey, hquery.get, hqueried]
    rfl
  · intro key value hflag hqueried hother
    rw [get?_override hquery.distinct (ne_query_of_flagOption hflag),
      hquery.get, hqueried, hother, get?_flag hflag]
    rfl
  · intro key value other hflag hqueried hother
    rw [get?_override hquery.distinct (ne_query_of_flagOption hflag),
      hquery.get, hqueried, hother]
    rfl

end

/-- A host with an options file that sets a module, and whose query sets another
one. -/
def queryHost : Host :=
  Host.ofDisk ⟨[(["options.yml"],
    .file "module: M\nquery:\n  private: no\n  module: B\n".toUTF8)]⟩

open Options Value in
theorem readOptions_queryHost :
    exists file,
      Conversion.readOptions Host.fileSystem Yaml.load queryHost
        (some "options.yml") = .ok (some file) ∧
      file.entries?.isSome = true ∧
      fileQueried? (some file) "destination" = none ∧
      fileQueried? (some file) "module" = some (.str "B") := by
  have hcheck : (Conversion.readOptions Host.fileSystem Yaml.load queryHost
      (some "options.yml")).toOption.any (fun file =>
      file.any (·.entries?.isSome) &&
        (fileQueried? file "destination").isNone &&
        (fileQueried? file "module").any (sameKey · (.str "B"))) = true := by
    decide +kernel
  obtain ⟨file, hfile, hcheck⟩ := exists_ok_of_any hcheck
  simp only [Bool.and_eq_true] at hcheck
  obtain ⟨⟨hmapping, hdestination⟩, hmodule⟩ := hcheck
  obtain ⟨file, rfl, hmapping⟩ := (Option.any_eq_true _ _).mp hmapping
  obtain ⟨other, hother, hB⟩ := (Option.any_eq_true _ _).mp hmodule
  cases sameKey_str.mp hB
  exact ⟨file, hfile, hmapping, Option.isNone_iff_eq_none.mp hdestination,
    hother⟩

/-- A command line with a flag for the module, and with two pairs for one
option. -/
def pairedWords : List String :=
  ["d.json", "--config", "options.yml", "--destination", "out.d.ts",
    "--module", "A", "--query", "private=false", "--query", "private=true"]

/-- What the command line asks for. -/
def pairedArgs : ConverterArgs where
  doclets := "d.json"
  destination := some (.text "out.d.ts")
  module := some (.text "A")
  includePrivate := false
  noComments := false
  noTypedefInterfaces := false
  config := some (.text "options.yml")
  query := some [.text "private=false", .text "private=true"]
  verbose := false

open Options Value in
theorem loadOptions_precedence_paired :
    ConverterArgs.parse pairedWords = .ok pairedArgs ∧
      exists overrides options, pairedArgs.overrides = .ok overrides ∧
        Conversion.loadOptions Host.fileSystem Yaml.load queryHost
          (some "options.yml") overrides = .ok options ∧
        get? "private" options = some (.bool true) ∧
        get? "destination" options = some (.str "out.d.ts") ∧
        get? "module" options = some (.str "B") := by
  obtain ⟨file, hfile, hmapping, hdestination, hmodule⟩ := readOptions_queryHost
  have hargs : forall values, pairedArgs.query = some values ->
      .missing ∉ values := by
    rintro values ⟨⟩
    decide
  have hfileMapping : forall v, some file = some v ->
      v.truthy = false ∨ v.entries?.isSome = true := by
    rintro v ⟨⟩
    exact .inr hmapping
  obtain ⟨overrides, hoverrides, _, hlayers⟩ :=
    loadOptions_precedence Host.fileSystem Yaml.load Yaml.wellKeyed_loader
      pairedArgs hargs queryHost (some file) hfile hfileMapping
  obtain ⟨options, hoptions, hpair, hflag, hquery⟩ :=
    hlayers (by simp [pairedArgs])
  refine ⟨by decide +kernel, overrides, options, hoverrides, hoptions, ?_, ?_,
    ?_⟩
  · exact hpair "private" "true" (by decide) (by decide +kernel)
  · exact hflag "destination" (.str "out.d.ts") rfl (by decide +kernel)
      hdestination
  · exact hquery "module" (.str "A") _ rfl (by decide +kernel) hmodule

/-- The same command line without the pairs. -/
def flaggedArgs : ConverterArgs := { pairedArgs with query := none }

open Options Value in
/-- A module that is set by a flag, and by no pair on the command line, is not
that of the flag. -/
theorem not_flag_over_fileQuery :
    ConverterArgs.parse (pairedWords.take 7) = .ok flaggedArgs ∧
      flaggedArgs.flagOption? "module" = some (.str "A") ∧
      flaggedArgs.queried? "module" = none ∧
      (exists file,
        Conversion.readOptions Host.fileSystem Yaml.load queryHost
          (some "options.yml") = .ok (some file) ∧
        file.entries?.isSome = true) ∧
      exists overrides options, flaggedArgs.overrides = .ok overrides ∧
        Conversion.loadOptions Host.fileSystem Yaml.load queryHost
          (some "options.yml") overrides = .ok options ∧
        get? "module" options ≠ some (.str "A") := by
  obtain ⟨file, hfile, hmapping, _⟩ := readOptions_queryHost
  have hcheck : flaggedArgs.overrides.toOption.any (fun overrides =>
      (Conversion.loadOptions Host.fileSystem Yaml.load queryHost
        (some "options.yml") overrides).toOption.any fun options =>
        (get? "module" options).any (sameKey · (.str "B"))) = true := by
    decide +kernel
  obtain ⟨overrides, hoverrides, hcheck⟩ := exists_ok_of_any hcheck
  obtain ⟨options, hoptions, hcheck⟩ := exists_ok_of_any hcheck
  obtain ⟨value, hvalue, hB⟩ := (Option.any_eq_true _ _).mp hcheck
  cases sameKey_str.mp hB
  refine ⟨by decide +kernel, rfl, by decide +kernel, ⟨file, hfile, hmapping⟩,
    overrides, options, hoverrides, hoptions, ?_⟩
  rw [hvalue]
  simp

end Ambient
