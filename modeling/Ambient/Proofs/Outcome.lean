/-!
# Computations that may fail

What is known of the parts of a computation that ends well.
-/

namespace Ambient

variable {ε α β : Type}

theorem bind_eq_ok
    {x : Except ε α} {f : α -> Except ε β} {b : β}
    (h : x >>= f = .ok b) :
    exists a, x = .ok a ∧ f a = .ok b := by
  cases x with
  | error e => contradiction
  | ok a => exact ⟨a, rfl, h⟩

theorem ok_bind (a : α) (f : α -> Except ε β) : (Except.ok a >>= f) = f a := rfl

theorem map_eq_ok
    {x : Except ε α} {f : α -> β} {b : β}
    (h : x.map f = .ok b) :
    exists a, x = .ok a ∧ f a = b := by
  cases x with
  | error e => contradiction
  | ok a => exact ⟨a, rfl, Except.ok.inj h⟩

/-- A test that only a result can pass. -/
theorem exists_ok_of_any
    {x : Except ε α} {p : α -> Bool}
    (h : x.toOption.any p = true) :
    exists a, x = .ok a ∧ p a = true := by
  cases x with
  | error e => contradiction
  | ok a => exact ⟨a, rfl, h⟩

end Ambient
