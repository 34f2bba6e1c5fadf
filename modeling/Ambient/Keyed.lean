/-!
# Keyed entries

Entries under text keys, in the order in which the keys first came.
-/

namespace Ambient

abbrev Keyed (α : Type) := List (String × α)

namespace Keyed

def get? {α : Type} (key : String) : Keyed α -> Option α
  | [] => none
  | (k, v) :: rest => if k = key then some v else get? key rest

def has {α : Type} (key : String) (d : Keyed α) : Bool := (get? key d).isSome

/-- The entries with that of a key set: in its place if there is one, at the end
if not. -/
def put {α : Type} (key : String) (value : α) : Keyed α -> Keyed α
  | [] => [(key, value)]
  | (k, v) :: rest =>
      if k = key then (k, value) :: rest else (k, v) :: put key value rest

theorem get?_put_self {α : Type} (key : String) (value : α) (d : Keyed α) :
    get? key (put key value d) = some value := by
  induction d with
  | nil => simp [put, get?]
  | cons entry rest ih =>
      cases entry with
      | mk k v =>
          by_cases h : k = key
          · simp [put, get?, h]
          · simp [put, get?, h, ih]

theorem get?_put_of_ne {α : Type} {key other : String} (value : α) (d : Keyed α)
    (h : other ≠ key) : get? other (put key value d) = get? other d := by
  induction d with
  | nil => simp [put, get?, Ne.symm h]
  | cons entry rest ih =>
      cases entry with
      | mk k v =>
          by_cases hk : k = key
          · simp [put, get?, hk, Ne.symm h]
          · by_cases ho : k = other
            · simp [put, get?, ho, h]
            · simp [put, get?, hk, ho, ih]

end Keyed
end Ambient
