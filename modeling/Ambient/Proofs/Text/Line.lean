import Ambient.Text.Lines

/-!
# Texts on one line

A text that is written within a line has no line break.  If it may stand at the
end of the line, it must not end in an opening brace either, since such a line
opens a block.
-/

namespace Ambient
namespace Text

/-- A text without a line break. -/
def OneLine (s : String) : Prop := '\n' ∉ s.toList

instance (s : String) : Decidable (OneLine s) :=
  inferInstanceAs (Decidable ('\n' ∉ s.toList))

/-- A text without a line break that does not end in an opening brace. -/
structure Closed (s : String) : Prop where
  oneLine : OneLine s
  getLast : s.toList.getLast? ≠ some '{'

instance (s : String) : Decidable (Closed s) :=
  decidable_of_iff (OneLine s ∧ s.toList.getLast? ≠ some '{')
    ⟨fun h => ⟨h.1, h.2⟩, fun h => ⟨h.oneLine, h.getLast⟩⟩

@[simp] theorem oneLine_empty : OneLine "" := by simp [OneLine]

@[simp] theorem oneLine_append
    (s t : String) :
    OneLine (s ++ t) ↔ OneLine s ∧ OneLine t := by
  simp [OneLine]

@[simp] theorem oneLine_join
    (ts : List String) :
    OneLine (String.join ts) ↔ forall t, t ∈ ts -> OneLine t := by
  induction ts with
  | nil => simp
  | cons t ts ih => simp [ih]

theorem oneLine_intercalate
    {sep : String} {ts : List String}
    (hsep : OneLine sep)
    (h : forall t, t ∈ ts -> OneLine t) :
    OneLine (sep.intercalate ts) := by
  induction ts with
  | nil => simp
  | cons t ts ih =>
      have ht := h t List.mem_cons_self
      have hts := ih fun u hu => h u (List.mem_cons_of_mem t hu)
      cases ts with
      | nil => simpa using ht
      | cons u us =>
          rw [String.intercalate_cons_cons]
          simp [ht, hsep, hts]

/-- Characters that neither end a line nor open a block. -/
def Inert (cs : List Char) : Prop := forall c, c ∈ cs -> c ≠ '\n' ∧ c ≠ '{'

@[simp] theorem inert_nil : Inert [] := by simp [Inert]

@[simp] theorem inert_cons
    (c : Char)
    (cs : List Char) :
    Inert (c :: cs) ↔ (c ≠ '\n' ∧ c ≠ '{') ∧ Inert cs :=
  List.forall_mem_cons

@[simp] theorem inert_append
    (cs ds : List Char) :
    Inert (cs ++ ds) ↔ Inert cs ∧ Inert ds :=
  List.forall_mem_append

theorem Inert.take
    {cs : List Char}
    (h : Inert cs)
    (n : Nat) :
    Inert (cs.take n) :=
  fun c hc => h c (List.mem_of_mem_take hc)

theorem Inert.drop
    {cs : List Char}
    (h : Inert cs)
    (n : Nat) :
    Inert (cs.drop n) :=
  fun c hc => h c (List.mem_of_mem_drop hc)

theorem closed_of_inert
    {s : String}
    (h : Inert s.toList) :
    Closed s := by
  constructor
  · intro hmem
    exact (h '\n' hmem).1 rfl
  · intro hlast
    exact (h '{' (List.mem_of_getLast? hlast)).2 rfl

theorem closed_append
    {s t : String}
    (hs : OneLine s)
    (ht : Closed t)
    (hne : t ≠ "") :
    Closed (s ++ t) := by
  constructor
  · exact (oneLine_append s t).mpr ⟨hs, ht.oneLine⟩
  · rw [String.toList_append, List.getLast?_append]
    cases hlast : t.toList.getLast? with
    | none => exact absurd (by simpa using hlast) hne
    | some c => simpa [hlast] using ht.getLast

theorem closed_join
    {ts : List String}
    (h : forall t, t ∈ ts -> Closed t) :
    Closed (String.join ts) := by
  induction ts with
  | nil => decide
  | cons t ts ih =>
      rw [List.forall_mem_cons] at h
      rw [String.join_cons]
      by_cases hrest : String.join ts = ""
      · simpa [hrest] using h.1
      · exact closed_append h.1.oneLine (ih h.2) hrest

/-!
## Texts cut at a character
-/

theorem cutAt_eq
    (sep : Char)
    (cs : List Char) :
    (cutAt sep cs).1 = cs.takeWhile (· != sep) ∧
      (cutAt sep cs).2.isSome = cs.contains sep := by
  induction cs with
  | nil => exact ⟨rfl, rfl⟩
  | cons c cs ih =>
      by_cases h : c = sep
      · subst h
        simp [cutAt]
      · have hne : sep ≠ c := Ne.symm h
        simp [cutAt, h, hne, ih]

theorem cutAt_front
    (sep : Char)
    (cs : List Char) :
    (cutAt sep cs).1 <+: cs := by
  rw [(cutAt_eq sep cs).1]
  exact List.takeWhile_prefix _

end Text
end Ambient
