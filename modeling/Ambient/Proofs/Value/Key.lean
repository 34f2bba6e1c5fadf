import Ambient.Value
import Mathlib.Algebra.Order.Field.Rat
import Mathlib.Data.Int.CharZero

/-!
# Keys of mappings

Keys are compared as values, across the kinds of numbers: each key belongs to a
class, and two keys are the same when they are of one class.  So to be the same
key is symmetric and transitive, and the entry that a key finds after another
one has been set is known.
-/

namespace Ambient

/-!
## Numbers
-/

namespace Double

theorem signed_mul
    (negative : Bool)
    (m k : Nat) :
    signed negative (m * k) = signed negative m * k := by
  cases negative <;> simp [signed]

theorem scaled
    (negative : Bool)
    (m : Nat)
    {e least : Int}
    (h : least ≤ e) :
    (signed negative (m * Nat.pow 2 (e - least).toNat) : ℚ) * 2 ^ least =
      signed negative m * 2 ^ e := by
  have hpow : ((Nat.pow 2 (e - least).toNat : Nat) : ℚ) * 2 ^ least =
      2 ^ e := by
    have hexp : e = ((e - least).toNat : Int) + least := by omega
    conv_rhs => rw [hexp, zpow_add₀ two_ne_zero, zpow_natCast]
    simp
  rw [signed_mul, Int.cast_mul, Int.cast_natCast, mul_assoc, hpow]

theorem sameNumber_finite
    (s t : Bool)
    (m n : Nat)
    (e f : Int) :
    sameNumber (finite s m e) (finite t n f) = true ↔
      (signed s m : ℚ) * 2 ^ e = signed t n * 2 ^ f := by
  rw [sameNumber, beq_iff_eq, ← scaled s m (min_le_left e f),
    ← scaled t n (min_le_right e f), mul_left_inj' (zpow_ne_zero _ two_ne_zero),
    Int.cast_inj]

theorem integer?_finite
    (s : Bool)
    (m : Nat)
    (e n : Int) :
    (finite s m e).integer? = some n ↔ (signed s m : ℚ) * 2 ^ e = n := by
  by_cases he : 0 ≤ e
  · rw [integer?, if_pos he, ← scaled s m he, zpow_zero, mul_one, Int.cast_inj,
      sub_zero]
    exact Option.some_inj
  · -- With a negative exponent the number is an integer when the mantissa is a
    -- multiple.
    obtain ⟨j, rfl⟩ : exists j : Nat, e = -j := ⟨(-e).toNat, by omega⟩
    have hcross : (signed s m : ℚ) * 2 ^ (-j : Int) = n ↔
        signed s m = n * Nat.pow 2 j := by
      rw [zpow_neg, ← div_eq_mul_inv, div_eq_iff (zpow_ne_zero _ two_ne_zero),
        zpow_natCast, ← Int.cast_inj (α := ℚ)]
      simp
    have hpos : 0 < Nat.pow 2 j := Nat.pow_pos Nat.two_pos
    rw [hcross, integer?, if_neg he, neg_neg, Int.toNat_natCast]
    generalize Nat.pow 2 j = k at hpos
    by_cases hdvd : k ∣ m
    · obtain ⟨q, rfl⟩ := hdvd
      have hk : (k : Int) ≠ 0 := by exact_mod_cast hpos.ne'
      rw [if_pos (Nat.mul_mod_right k q), Nat.mul_div_cancel_left q hpos,
        mul_comm k q, signed_mul, mul_left_inj' hk]
      exact Option.some_inj
    · rw [if_neg fun h => hdvd (Nat.dvd_of_mod_eq_zero h)]
      refine iff_of_false (by simp) fun h => hdvd ?_
      have hsigned : (k : Int) ∣ signed s m := h ▸ dvd_mul_left _ _
      rw [Int.natCast_dvd] at hsigned
      cases s <;> simpa [signed] using hsigned

/-- What numbers that are the same key have in common. -/
inductive KeyClass where
  | nan (origin : Nat)
  | infinity (negative : Bool)
  | finite (q : ℚ)

/-- The class of a number as a key. -/
def keyClass : Double -> KeyClass
  | nan origin => .nan origin
  | infinity negative => .infinity negative
  | finite negative mantissa exponent =>
      .finite (signed negative mantissa * 2 ^ exponent)

theorem sameKey_iff
    {x y : Double} :
    x.sameKey y = true ↔ x.keyClass = y.keyClass := by
  rw [sameKey, Bool.or_eq_true, beq_iff_eq]
  cases x with
  | finite s m e =>
      cases y with
      | finite t n f =>
          rw [sameNumber_finite, keyClass, keyClass, KeyClass.finite.injEq,
            or_iff_left_iff_imp]
          rintro ⟨⟩
          rfl
      | _ => simp [sameNumber, keyClass]
  | _ => cases y <;> simp [sameNumber, keyClass]

theorem integer?_iff
    {x : Double} {n : Int} :
    x.integer? = some n ↔ x.keyClass = .finite n := by
  cases x with
  | finite s m e => rw [integer?_finite, keyClass, KeyClass.finite.injEq]
  | _ => simp [integer?, keyClass]

end Double

namespace Moment

/-- The class of a moment as a key: its instant, if that is known. -/
def keyClass (t : Moment) : Int ⊕ Moment := t.instant?.elim (.inr t) .inl

theorem same_iff
    {s t : Moment} :
    s.same t = true ↔ s.keyClass = t.keyClass := by
  unfold same keyClass
  cases hs : s.instant? <;> cases ht : t.instant? <;> simp
  all_goals
    rintro rfl
    cases hs.symm.trans ht

end Moment

namespace Value

/-- What keys that are the same have in common. -/
inductive KeyClass where
  | null
  | number (c : Double.KeyClass)
  | text (s : String)
  | moment (c : Int ⊕ Moment)
  | bytes (bs : Bytes)

/-- The class of a value as a key. -/
def keyClass : Value -> Option KeyClass
  | null => some .null
  | bool b => some (.number (.finite (if b then 1 else 0)))
  | int n => some (.number (.finite n))
  | double x => some (.number x.keyClass)
  | str s => some (.text s)
  | moment t => some (.moment t.keyClass)
  | bytes bs => some (.bytes bs)
  | _ => none

theorem integer?_iff
    {v : Value} {n : Int} :
    v.integer? = some n ↔ v.keyClass = some (.number (.finite n)) := by
  cases v with
  | bool b => cases b <;> simp [integer?, keyClass, eq_comm]
  | double x => simp [integer?, keyClass, Double.integer?_iff]
  | _ => simp [integer?, keyClass]

theorem sameKey_iff
    {v w : Value} :
    sameKey v w = true ↔ v.keyClass.isSome ∧ v.keyClass = w.keyClass := by
  unfold sameKey
  split
  · simp [keyClass]
  · simp [keyClass]
  · simp [keyClass, Moment.same_iff]
  · simp [keyClass]
  · simp [keyClass, Double.sameKey_iff]
  · rename_i hnull hstr hmoment hbytes hdouble
    split
    · rename_i m n hv hw
      rw [integer?_iff] at hv hw
      simp [hv, hw]
    · rename_i hnone
      -- Of one class are only numbers now, and these are the same integer if
      -- one of them is one.
      refine iff_of_false Bool.false_ne_true ?_
      rintro ⟨hsome, heq⟩
      have hinteger : v.integer? = w.integer? := by
        ext n
        rw [integer?_iff, integer?_iff, heq]
      have hv : v.integer? = none :=
        Option.eq_none_iff_forall_ne_some.mpr fun n hn =>
          hnone n n hn (hinteger ▸ hn)
      have hw : w.integer? = none := hinteger ▸ hv
      cases v <;> cases w <;> simp_all [keyClass, integer?]

theorem sameKey_symm
    {v w : Value}
    (h : sameKey v w = true) :
    sameKey w v = true := by
  rw [sameKey_iff] at h ⊢
  exact ⟨h.2 ▸ h.1, h.2.symm⟩

theorem sameKey_trans
    {u v w : Value}
    (h : sameKey u v = true)
    (h' : sameKey v w = true) :
    sameKey u w = true := by
  rw [sameKey_iff] at h h' ⊢
  exact ⟨h.1, h.2.trans h'.2⟩

/-- The same keys are the same as any other one, or are not. -/
theorem sameKey_congr
    {v w : Value}
    (h : sameKey v w = true)
    (u : Value) :
    sameKey u v = sameKey u w := by
  rw [Bool.eq_iff_iff]
  exact ⟨fun hu => sameKey_trans hu h, fun hu =>
    sameKey_trans hu (sameKey_symm h)⟩

theorem sameKey_self
    {v : Value}
    (h : v.isKey = true) :
    sameKey v v = true := by
  rw [sameKey_iff]
  refine ⟨?_, rfl⟩
  cases v <;> first | rfl | contradiction

theorem sameKey_str
    {k : Value} {s : String} :
    sameKey k (str s) = true ↔ k = str s := by
  cases k <;> simp [sameKey, integer?]

/-!
## Entries
-/

/-- Entries no two of which have the same key. -/
def DistinctKeys (entries : List (Value × Value)) : Prop :=
  entries.Pairwise fun e e' => sameKey e.1 e'.1 = false

theorem find?_congr
    {v w : Value}
    (h : sameKey v w = true)
    (entries : List (Value × Value)) :
    find? v entries = find? w entries := by
  induction entries with
  | nil => rfl
  | cons e entries ih =>
      obtain ⟨k, x⟩ := e
      rw [find?, find?, sameKey_congr h, ih]

theorem find?_eq_none_iff
    {key : Value} {entries : List (Value × Value)} :
    find? key entries = none ↔
      forall e, e ∈ entries -> sameKey e.1 key = false := by
  induction entries with
  | nil => simp [find?]
  | cons e entries ih =>
      obtain ⟨k, x⟩ := e
      cases hk : sameKey k key <;> simp [find?, hk, ih]

/-- The key of the first of some entries is that of no other. -/
theorem DistinctKeys.find?_eq_none
    {e : Value × Value} {entries : List (Value × Value)} {key : Value}
    (h : DistinctKeys (e :: entries))
    (hkey : sameKey e.1 key = true) :
    find? key entries = none := by
  rw [← find?_congr hkey, find?_eq_none_iff]
  intro e' he'
  refine Bool.eq_false_iff.mpr fun hsame => ?_
  exact Bool.eq_false_iff.mp ((List.pairwise_cons.mp h).1 e' he')
    (sameKey_symm hsame)

/-- A key that is set has its value, and all others keep theirs. -/
theorem find?_put
    (key other value : Value)
    (entries : List (Value × Value)) :
    find? other (put key value entries) =
      if sameKey key other then some value else find? other entries := by
  induction entries with
  | nil => rfl
  | cons e entries ih =>
      obtain ⟨k, x⟩ := e
      rw [put]
      by_cases hk : sameKey k key
      · have hother : sameKey k other = sameKey key other := by
          rw [Bool.eq_iff_iff]
          exact ⟨sameKey_trans (sameKey_symm hk), sameKey_trans hk⟩
        rw [if_pos hk, find?, find?, hother]
        split <;> rfl
      · rw [if_neg hk, find?, find?, ih]
        -- The entry in front is another one.
        by_cases hother : sameKey k other
        · have hne : ¬ sameKey key other = true := fun h =>
            hk (sameKey_trans hother (sameKey_symm h))
          rw [if_pos hother, if_neg hne, if_pos hother]
        · rw [if_neg hother, if_neg hother]

theorem get?_put_str
    (key : String)
    (value : Value)
    (entries : List (Value × Value)) :
    get? key (put (str key) value entries) = some value := by
  rw [get?, find?_put, if_pos (sameKey_str.mpr rfl)]

theorem get?_put_str_of_ne
    {key other : String}
    (h : other ≠ key)
    (value : Value)
    (entries : List (Value × Value)) :
    get? other (put (str key) value entries) = get? other entries := by
  rw [get?, find?_put, if_neg, get?]
  rw [sameKey_str]
  rintro ⟨⟩
  exact h rfl

theorem put_eq_self
    {key value : Value} {entries : List (Value × Value)}
    (h : find? key entries = some value) :
    put key value entries = entries := by
  induction entries with
  | nil => contradiction
  | cons e entries ih =>
      obtain ⟨k, x⟩ := e
      rw [find?] at h
      rw [put]
      split at h
      · rw [if_pos ‹_›, Option.some.inj h]
      · rw [if_neg ‹_›, ih h]

theorem keys_put
    (key value : Value)
    (entries : List (Value × Value)) :
    (put key value entries).map Prod.fst =
      entries.map Prod.fst ++
        if (find? key entries).isSome then [] else [key] := by
  induction entries with
  | nil => rfl
  | cons e entries ih =>
      obtain ⟨k, x⟩ := e
      by_cases hk : sameKey k key <;> simp [put, find?, hk, ih]

/-- To set a key makes no key stand twice. -/
theorem DistinctKeys.put
    {entries : List (Value × Value)}
    (h : DistinctKeys entries)
    (key value : Value) :
    DistinctKeys (Value.put key value entries) := by
  unfold DistinctKeys at h ⊢
  rw [← List.pairwise_map (f := Prod.fst)
    (R := fun k k' => sameKey k k' = false)] at h ⊢
  rw [keys_put]
  split
  · rwa [List.append_nil]
  · rename_i hnone
    rw [Option.not_isSome_iff_eq_none, find?_eq_none_iff] at hnone
    refine List.pairwise_append.mpr
      ⟨h, List.pairwise_singleton _ _, fun k hk k' hk' => ?_⟩
    obtain ⟨e, he, rfl⟩ := List.mem_map.mp hk
    rw [List.mem_singleton.mp hk']
    exact hnone e he

theorem DistinctKeys.putAll
    {entries : List (Value × Value)}
    (h : DistinctKeys entries)
    (added : List (Value × Value)) :
    DistinctKeys
      (added.foldl (fun acc e => Value.put e.1 e.2 acc) entries) := by
  induction added generalizing entries with
  | nil => exact h
  | cons e added ih => exact ih (h.put e.1 e.2)

theorem find?_append
    (key : Value)
    (entries entries' : List (Value × Value)) :
    find? key (entries ++ entries') =
      (find? key entries).or (find? key entries') := by
  induction entries with
  | nil => rfl
  | cons e entries ih =>
      rw [List.cons_append, find?, find?, ih]
      split <;> rfl

/-- Of the entries that are set one after the other, the last with a key
counts. -/
theorem find?_putAll
    (key : Value)
    (added entries : List (Value × Value)) :
    find? key (added.foldl (fun acc e => put e.1 e.2 acc) entries) =
      (find? key added.reverse).or (find? key entries) := by
  induction added generalizing entries with
  | nil => rfl
  | cons e added ih =>
      rw [List.foldl_cons, ih, find?_put, List.reverse_cons, find?_append,
        Option.or_assoc, find?]
      split <;> rfl

theorem DistinctKeys.find?_reverse
    {entries : List (Value × Value)}
    (h : DistinctKeys entries)
    (key : Value) :
    find? key entries.reverse = find? key entries := by
  induction entries with
  | nil => rfl
  | cons e entries ih =>
      rw [List.reverse_cons, find?_append, ih (List.pairwise_cons.mp h).2,
        find?, find?, find?]
      split
      · rename_i hkey
        rw [h.find?_eq_none hkey]
        rfl
      · rw [Option.or_none]

end Value
end Ambient
