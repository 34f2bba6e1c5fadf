import Mathlib.Data.List.Infix
import Ambient.Disk
import Ambient.Proofs.Outcome

/-!
# Files on a disk

A path leads along directories, so that those above its names are there.  A file
put at such names stands there, and everything else on the disk is as before.
-/

namespace Ambient

theorem lookup_replace
    {α β : Type} [BEq α] [LawfulBEq α] [DecidableEq α]
    (entries : List (α × β))
    (key other : α)
    (value : β) :
    (entries.map fun entry =>
        if entry.1 == key then (key, value) else entry).lookup other =
      if other = key then (entries.lookup key).map fun _ => value
      else entries.lookup other := by
  induction entries with
  | nil => simp
  | cons entry entries ih =>
      obtain ⟨first, old⟩ := entry
      rw [List.map_cons, List.lookup_cons, List.lookup_cons]
      by_cases hfirst : first = key
      · rw [if_pos (beq_iff_eq.mpr hfirst), List.lookup_cons, ih]
        grind
      · rw [if_neg (mt beq_iff_eq.mp hfirst), List.lookup_cons, ih]
        grind

namespace Disk

variable {disk : Disk} {names other here : List String} {path : String}
  {content : ByteArray}

/-!
## The way to some names
-/

theorem node?_of_isBase
    (h : Path.isBase names = true) :
    disk.node? names = some .directory := by
  rw [node?, if_pos h]

/-- All directories above some names are there. -/
def HasWay (disk : Disk) (names : List String) : Prop :=
  forall above, above <+: names -> above ≠ names ->
    disk.node? above = some .directory

theorem hasWay_start (disk : Disk) (path : String) :
    disk.HasWay (Path.start path) := by
  have hstart : Path.start path = ["/"] ∨ Path.start path = [] := by
    unfold Path.start
    split <;> simp
  intro above habove hne
  refine node?_of_isBase ?_
  rcases hstart with hstart | hstart
  · rw [hstart] at habove hne
    rcases List.prefix_cons_iff.mp habove with rfl | ⟨rest, rfl, hrest⟩
    · rfl
    · rw [List.prefix_nil.mp hrest] at hne
      exact absurd rfl hne
  · rw [hstart] at habove
    rw [List.prefix_nil.mp habove]
    rfl

theorem HasWay.step
    (h : disk.HasWay here)
    (hhere : disk.node? here = some .directory)
    (part : String) :
    disk.HasWay (Path.step here part) := by
  have hupTo (above : List String) (habove : above <+: here) :
      disk.node? above = some .directory := by
    by_cases heq : above = here
    · rw [heq, hhere]
    · exact h above habove heq
  have hdown : disk.HasWay (here ++ [part]) := by
    intro above habove hne
    rcases List.prefix_concat_iff.mp habove with rfl | habove
    · exact absurd rfl hne
    · exact hupTo above habove
  unfold Path.step
  split
  · exact hdown
  · split
    · exact h
    · split
      · exact hdown
      · -- one directory up, where all that is above lies above the old names as
        -- well
        intro above habove _
        exact hupTo above (habove.trans (List.dropLast_prefix here))

/-- A walk ends at names to which there is a way. -/
theorem HasWay.walk
    {parts : List String}
    (h : disk.HasWay here)
    (hwalk : disk.walk here parts = .ok names) :
    disk.HasWay names := by
  induction parts generalizing here with
  | nil =>
      cases hwalk
      exact h
  | cons part parts ih =>
      unfold Disk.walk at hwalk
      split at hwalk
      · rename_i hhere
        split at hwalk
        · contradiction
        · exact ih (h.step hhere part) hwalk
      · contradiction
      · contradiction

theorem hasWay_of_locate
    (h : disk.locate path = .ok names) :
    disk.HasWay names := by
  obtain ⟨_, _, hwalk⟩ := bind_eq_ok h
  exact (hasWay_start disk path).walk hwalk

/-!
## Files that are put on a disk
-/

theorem lookup_put
    (disk : Disk)
    (names other : List String)
    (content : ByteArray) :
    (disk.put names content).nodes.lookup other =
      if other = names then some (.file content)
      else disk.nodes.lookup other := by
  unfold put
  split
  · rename_i hany
    have hsome : (disk.nodes.lookup names).isSome = true := by
      rw [List.any_eq_true] at hany
      rcases hany with ⟨entry, hmem, hentry⟩
      rw [List.lookup_isSome_iff]
      exact ⟨entry, hmem, by simpa using (beq_iff_eq.mp hentry).symm⟩
    rw [lookup_replace]
    split
    · rcases Option.isSome_iff_exists.mp hsome with ⟨node, hnode⟩
      rw [hnode, Option.map_some]
    · rfl
  · rename_i hany
    rw [List.lookup_append]
    by_cases hother : other = names
    · have hnone : disk.nodes.lookup names = none := by
        rw [List.lookup_eq_none_iff]
        intro entry hmem
        rw [bne_iff_ne]
        rintro rfl
        exact hany (List.any_eq_true.mpr ⟨entry, hmem, beq_self_eq_true _⟩)
      rw [hother, hnone, List.lookup_cons_self, if_pos rfl, Option.none_or]
    · rw [List.lookup_cons, beq_eq_false_iff_ne.mpr hother, if_neg hother]
      exact Option.or_none

theorem any_put
    (disk : Disk)
    (names : List String)
    (content : ByteArray)
    (test : List String -> Bool) :
    ((disk.put names content).nodes.any fun entry => test entry.1) =
      ((disk.nodes.any fun entry => test entry.1) || test names) := by
  unfold put
  split
  · rename_i hany
    have hkey (entry : List String × DiskNode) :
        (if entry.1 == names then (names, .file content) else entry).1 =
          entry.1 := by
      split
      · rename_i hentry
        exact (beq_iff_eq.mp hentry).symm
      · rfl
    simp only [List.any_map, Function.comp_def, hkey]
    rw [List.any_eq_true] at hany
    rcases hany with ⟨entry, hmem, hentry⟩
    cases htest : test names with
    | false => rw [Bool.or_false]
    | true =>
        rw [Bool.or_true, List.any_eq_true]
        exact ⟨entry, hmem, by rw [beq_iff_eq.mp hentry, htest]⟩
  · simp

theorem node?_put_self
    (h : disk.node? names ≠ some .directory) :
    (disk.put names content).node? names = some (.file content) := by
  have hbase : ¬ Path.isBase names = true :=
    fun hbase => h (node?_of_isBase hbase)
  rw [node?, if_neg hbase, lookup_put, if_pos rfl]

/-- A file changes nothing at other names.  Its names bring the directories
above it with them, but those are there already. -/
theorem node?_put_of_ne
    (h : disk.HasWay names)
    (hne : other ≠ names) :
    (disk.put names content).node? other = disk.node? other := by
  unfold node?
  rw [lookup_put, if_neg hne, any_put disk names content other.isPrefixOf]
  split
  · rfl
  · rename_i hbase
    cases hlookup : disk.nodes.lookup other with
    | some node => rfl
    | none =>
        cases hany : disk.nodes.any fun entry => other.isPrefixOf entry.1 with
        | true => rfl
        | false =>
            -- nothing stands at the other names, so they are not above the file
            have hnone : disk.node? other = none := by
              simp [node?, hbase, hlookup, hany]
            have habove : other.isPrefixOf names = false := by
              rw [← Bool.not_eq_true, List.isPrefixOf_iff_prefix]
              intro habove
              have hdirectory := h other habove hne
              rw [hnone] at hdirectory
              contradiction
            rw [habove]
            rfl

theorem HasWay.put
    (h : disk.HasWay names)
    (content : ByteArray) :
    (disk.put names content).HasWay names := by
  intro above habove hne
  rw [node?_put_of_ne h hne]
  exact h above habove hne

/-!
## Files that can be written
-/

/-- A path can be opened for writing: it leads to names where there is no
directory, and does not ask for one by its spelling. -/
structure Opens (disk : Disk) (path : String) (names : List String) : Prop where
  leads : disk.locate path = .ok names
  bare : Path.ending path = []
  free : disk.node? names ≠ some .directory

theorem Opens.hasWay
    (h : disk.Opens path names) :
    disk.HasWay names :=
  hasWay_of_locate h.leads

theorem target_eq_ok_iff : disk.target path = .ok names ↔
    disk.Opens path names := by
  constructor
  · intro h
    obtain ⟨found, hlocate, h⟩ := bind_eq_ok h
    have hopens (hnode : disk.node? found ≠ some .directory)
        (hending : (Path.ending path).isEmpty = true)
        (hfound : (pure found : Except Fault _) = .ok names) :
          disk.Opens path names := by
      cases hfound
      exact ⟨hlocate, List.isEmpty_iff.mp hending, hnode⟩
    dsimp only at h
    split at h
    · contradiction
    · rename_i hnode
      split at h
      · exact hopens (by simp [hnode]) ‹_› h
      · contradiction
    · rename_i hnode
      split at h
      · contradiction
      · split at h
        · exact hopens (by simp [hnode]) ‹_› h
        · contradiction
  · rintro ⟨hleads, hbare, hfree⟩
    rw [target, hleads, ok_bind, hbare]
    cases hnode : disk.node? names with
    | none => rfl
    | some node =>
        cases node with
        | directory => exact absurd hnode hfree
        | file old => rfl

end Disk
end Ambient
