import Ambient.Disk

/-!
# Normal paths

A normal path is its root and its names with a slash between each two.  It has
the same root and the same names again, so that a path in this form stays as it
is.
-/

namespace Ambient
namespace Path

/-- A part of a path that has a meaning. -/
structure IsName (name : String) : Prop where
  ne_empty : name ≠ ""
  ne_dot : name ≠ "."
  slash : '/' ∉ name.toList

/-!
## Parts
-/

theorem parts_eq_splitOn (cs : List Char) : parts cs = cs.splitOn '/' := by
  induction cs with
  | nil => rfl
  | cons c cs ih =>
      rw [parts, ih, List.splitOn_cons_eq_if_modifyHead]
      cases h : cs.splitOn '/' with
      | nil => exact absurd h (List.splitOn_ne_nil _ _)
      | cons part more => rfl

theorem parts_slash (cs : List Char) : parts ('/' :: cs) = [] :: parts cs := by
  rw [parts_eq_splitOn, parts_eq_splitOn, List.splitOn_cons_eq_if_modifyHead]
  rfl

theorem slash_not_mem_parts
    {cs part : List Char}
    (h : part ∈ parts cs) :
    '/' ∉ part := by
  rw [parts_eq_splitOn] at h
  induction cs generalizing part with
  | nil =>
      cases List.mem_singleton.mp h
      exact List.not_mem_nil
  | cons c cs ih =>
      rw [List.splitOn_cons_eq_if_modifyHead] at h
      cases hparts : cs.splitOn '/' with
      | nil => exact absurd hparts (List.splitOn_ne_nil _ _)
      | cons first more =>
          rw [hparts] at h ih
          split at h
          · rcases List.mem_cons.mp h with rfl | hmem
            · exact List.not_mem_nil
            · exact ih hmem
          · next hc =>
            rcases List.mem_cons.mp h with rfl | hmem
            · have hfirst := ih List.mem_cons_self
              rw [List.mem_cons, not_or]
              exact ⟨fun heq => hc (beq_iff_eq.mpr heq.symm), hfirst⟩
            · exact ih (List.mem_cons_of_mem first hmem)

theorem isName_of_mem_components
    {path name : String}
    (h : name ∈ components path) :
    IsName name := by
  obtain ⟨part, hpart, rfl⟩ := List.mem_map.mp h
  obtain ⟨hmem, hmeaning⟩ := List.mem_filter.mp hpart
  simp only [bne_iff_ne, Bool.and_eq_true, ne_eq] at hmeaning
  refine ⟨fun hempty => hmeaning.1 ?_, fun hdot => hmeaning.2 ?_, ?_⟩
  · simpa using congrArg String.toList hempty
  · simpa using congrArg String.toList hdot
  · simpa using slash_not_mem_parts hmem

/-!
## Roots and names
-/

/-- The slashes that a normal path may start with. -/
def IsRoot (start : String) : Prop := start = "" ∨ start = "/" ∨ start = "//"

theorem isRoot_root (path : String) : IsRoot (root path) := by
  unfold root
  split <;> simp [IsRoot]

theorem parts_join
    {names : List String}
    (h : forall name, name ∈ names -> IsName name)
    (hne : names ≠ []) :
    parts ("/".intercalate names).toList = names.map String.toList := by
  rw [parts_eq_splitOn, String.toList_intercalate]
  refine List.splitOn_intercalate '/' (fun part hpart => ?_)
    (by simpa using hne)
  obtain ⟨name, hname, rfl⟩ := List.mem_map.mp hpart
  exact (h name hname).slash

theorem components_join
    {names : List String}
    (h : forall name, name ∈ names -> IsName name) :
    components ("/".intercalate names) = names := by
  cases hnames : names with
  | nil => rfl
  | cons first more =>
      have hall : forall part, part ∈ names.map String.toList ->
          (part != [] && part != ['.']) = true := by
        intro part hpart
        obtain ⟨name, hname, rfl⟩ := List.mem_map.mp hpart
        have hne := (h name hname).ne_empty
        have hdot := (h name hname).ne_dot
        simp only [bne_iff_ne, Bool.and_eq_true, ne_eq]
        exact ⟨by simpa using hne,
          fun heq => hdot (String.toList_injective heq)⟩
      rw [← hnames, components, parts_join h (by simp [hnames]),
        List.filter_eq_self.mpr hall, List.map_map]
      simp [Function.comp_def]

theorem components_root_join
    {start : String} {names : List String}
    (hstart : IsRoot start)
    (h : forall name, name ∈ names -> IsName name) :
    components (start ++ "/".intercalate names) = names := by
  have hslash (path : String) : components ("/" ++ path) = components path := by
    simp [components, parts_slash]
  rcases hstart with rfl | rfl | rfl
  · rw [String.empty_append, components_join h]
  · rw [hslash, components_join h]
  · rw [show "//" = "/" ++ "/" from rfl, String.append_assoc, hslash, hslash,
      components_join h]

theorem takeWhile_slash_join
    {names : List String}
    (h : forall name, name ∈ names -> IsName name) :
    ("/".intercalate names).toList.takeWhile (· == '/') = [] := by
  cases names with
  | nil => rfl
  | cons first more =>
      have hfirst := h first List.mem_cons_self
      rw [String.toList_intercalate, List.map_cons]
      cases hchars : first.toList with
      | nil => exact absurd (String.toList_injective hchars) hfirst.ne_empty
      | cons c cs =>
          have hc : c ≠ '/' := by
            rintro rfl
            exact hfirst.slash (by simp [hchars])
          cases more <;> simp [List.intercalate, hc]

theorem root_root_join
    {start : String} {names : List String}
    (hstart : IsRoot start)
    (h : forall name, name ∈ names -> IsName name) :
    root (start ++ "/".intercalate names) = start := by
  have hjoin := takeWhile_slash_join h
  rcases hstart with rfl | rfl | rfl
    <;> simp [root, hjoin, -String.toList_intercalate]

/-- A normal path stays as it is. -/
theorem normalize_normalize (path : String) :
    normalize (normalize path) = normalize path := by
  have hroot := isRoot_root path
  have hnames : forall name, name ∈ components path -> IsName name :=
    fun _ hname => isName_of_mem_components hname
  by_cases hempty : root path ++ "/".intercalate (components path) = ""
  · have hdot : normalize path = "." := if_pos hempty
    rw [hdot]
    decide
  · have hplain : normalize path =
        root path ++ "/".intercalate (components path) := if_neg hempty
    rw [hplain, normalize, root_root_join hroot hnames,
      components_root_join hroot hnames]
    exact if_neg hempty

end Path
end Ambient
