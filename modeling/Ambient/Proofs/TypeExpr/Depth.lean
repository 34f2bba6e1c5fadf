import Ambient.Proofs.TypeExpr.Soundness

/-!
# The depth of the descent

Every rule takes a token before the descent comes back to it, so that the number
of tokens bounds the depth.  With the fuel that is meant for them no rule gives
up, and more fuel changes nothing.
-/

namespace Ambient
namespace TypeExpr

def SyntaxError.isTooDeep : SyntaxError -> Bool
  | .near .tooDeep _ => true
  | _ => false

theorem SyntaxError.isTooDeep_near
    {reason : Reason}
    (h : reason ≠ .tooDeep)
    (token : Option Token) :
    (SyntaxError.near reason token).isTooDeep = false := by
  unfold isTooDeep
  split
  · rename_i heq
    cases heq
    contradiction
  · rfl

/-!
## Results that are settled
-/

section Settles

variable {α β : Type}

/-- With enough fuel a run has one and the same result, and does not give up. -/
def Settles (need : Nat) (run : Nat -> Except SyntaxError α) : Prop :=
  exists result, (forall fuel, need ≤ fuel -> run fuel = result) ∧
    forall fault, result = .error fault -> fault.isTooDeep = false

theorem settles_of_const
    {result : Except SyntaxError α}
    (h : forall fault, result = .error fault -> fault.isTooDeep = false)
    (need : Nat) :
    Settles need fun _ => result :=
  ⟨result, fun _ _ => rfl, h⟩

theorem settles_ok
    (a : α)
    (need : Nat) :
    Settles need fun _ => (.ok a : Except SyntaxError α) :=
  settles_of_const (fun _ h => by contradiction) need

theorem settles_failAt
    {reason : Reason}
    (h : reason ≠ .tooDeep)
    (ts : List Token)
    (need : Nat) :
    Settles need fun _ => (failAt reason ts : Except SyntaxError α) := by
  apply settles_of_const
  intro fault hfault
  cases hfault
  exact SyntaxError.isTooDeep_near h _

theorem Settles.mono
    {need more : Nat} {run : Nat -> Except SyntaxError α}
    (h : Settles need run)
    (hle : need ≤ more) :
    Settles more run := by
  rcases h with ⟨result, hrun, hfault⟩
  exact ⟨result, fun fuel hfuel => hrun fuel (Nat.le_trans hle hfuel), hfault⟩

/-- A rule takes one step of fuel for itself. -/
theorem Settles.step
    {need : Nat} {rule : Nat -> Except SyntaxError α}
    (h : Settles need fun fuel => rule (fuel + 1)) :
    Settles (need + 1) rule := by
  rcases h with ⟨result, hrun, hfault⟩
  refine ⟨result, ?_, hfault⟩
  intro fuel hfuel
  cases fuel with
  | zero => omega
  | succ fuel => exact hrun fuel (Nat.le_of_succ_le_succ hfuel)

theorem Settles.bind
    {need : Nat} {x : Nat -> Except SyntaxError α}
    {f : Nat -> α -> Except SyntaxError β}
    (hx : Settles need x)
    (hf : forall a, (exists fuel, x fuel = .ok a) ->
      Settles need fun fuel => f fuel a) :
    Settles need fun fuel => x fuel >>= f fuel := by
  rcases hx with ⟨result, hrun, hfault⟩
  cases result with
  | error fault =>
      refine ⟨.error fault, ?_, ?_⟩
      · intro fuel hfuel
        change x fuel >>= f fuel = _
        rw [hrun fuel hfuel]
        rfl
      · intro fault' heq
        cases heq
        exact hfault fault rfl
  | ok a =>
      rcases hf a ⟨need, hrun need (Nat.le_refl need)⟩ with
        ⟨result', hrun', hfault'⟩
      refine ⟨result', ?_, hfault'⟩
      intro fuel hfuel
      change x fuel >>= f fuel = _
      rw [hrun fuel hfuel, ok_bind]
      exact hrun' fuel hfuel

end Settles

/-!
## Steps without fuel
-/

theorem settles_expect
    (c : Char)
    (ts : List Token)
    (need : Nat) :
    Settles need fun _ => expect c ts := by
  unfold expect
  split
  · split
    · exact settles_ok _ _
    · exact settles_failAt (by simp) _ _
  · exact settles_failAt (by simp) _ _

theorem settles_arrays
    (e : TypeExpr)
    (ts : List Token)
    (need : Nat) :
    Settles need fun _ => arrays e ts := by
  fun_induction arrays e ts with
  | case1 e ts ih => exact ih
  | case2 e ts _ => exact settles_failAt (by simp) _ _
  | case3 e ts _ _ => exact settles_ok _ _

theorem settles_skipSignature
    (depth : Nat)
    (ts : List Token)
    (need : Nat) :
    Settles need fun _ => skipSignature depth ts := by
  fun_induction skipSignature depth ts with
  | case1 ts => exact settles_ok _ _
  | case2 depth => exact settles_failAt (by simp) _ _
  | case3 depth t ts _ ih => exact ih
  | case4 depth t ts _ _ ih => exact ih
  | case5 depth t ts _ _ ih => exact ih

theorem length_skipMark_le
    (c : Char)
    (ts : List Token) :
    (skipMark c ts).length ≤ ts.length := by
  unfold skipMark
  split
  · split
    · exact Nat.le_succ _
    · exact Nat.le_refl _
  · exact Nat.le_refl _

theorem length_skipMark_lt
    {c : Char} {ts : List Token}
    (h : startsWith c ts = true) :
    (skipMark c ts).length < ts.length := by
  conv_rhs => rw [eq_cons_of_startsWith h]
  exact Nat.lt_succ_self _

theorem length_expect
    {c : Char} {ts rest : List Token}
    (h : expect c ts = .ok rest) :
    rest.length < ts.length := by
  rw [eq_cons_of_expect h]
  exact Nat.lt_succ_self _

theorem length_skipSignature
    {depth : Nat} {ts rest : List Token}
    (h : skipSignature depth ts = .ok rest) :
    rest.length ≤ ts.length := by
  rcases skipSignature_iff.mp h with ⟨sig, rfl, _⟩
  rw [List.length_append]
  exact Nat.le_add_left _ _

/-!
## Rules

The induction is on the number of tokens.  Before it takes a token a rule calls
only rules that stand further inside, so that five steps bring every rule to
fewer tokens.
-/

/-- What every rule needs before some tokens. -/
structure RulesSettle (need : Nat) (ts : List Token) : Prop where
  union : Settles need fun fuel => unionRule fuel ts
  alternatives : Settles need fun fuel => alternatives fuel ts
  suffixed : Settles need fun fuel => suffixedRule fuel ts
  prefixed : Settles need fun fuel => prefixedRule fuel ts
  primary : Settles need fun fuel => primaryRule fuel ts
  name : forall text, Settles need fun fuel => nameRule fuel text ts
  arguments : Settles need fun fuel => argumentsRule fuel ts
  record : Settles need fun fuel => recordRule fuel ts
  entry : Settles need fun fuel => entryRule fuel ts

theorem RulesSettle.mono
    {need more : Nat} {ts : List Token}
    (h : RulesSettle need ts)
    (hle : need ≤ more) :
    RulesSettle more ts where
  union := h.union.mono hle
  alternatives := h.alternatives.mono hle
  suffixed := h.suffixed.mono hle
  prefixed := h.prefixed.mono hle
  primary := h.primary.mono hle
  name text := (h.name text).mono hle
  arguments := h.arguments.mono hle
  record := h.record.mono hle
  entry := h.entry.mono hle

section Step

variable {need : Nat} {ts : List Token}
  (hshort : forall us : List Token, us.length < ts.length ->
    RulesSettle need us)

include hshort

theorem nameRule_settles
    (text : String) :
    Settles (need + 1) fun fuel => nameRule fuel text ts := by
  apply Settles.step
  unfold nameRule
  split
  · rename_i hfunction
    have hopen := length_skipMark_lt hfunction.2
    refine Settles.bind (settles_skipSignature _ _ _) ?_
    rintro more ⟨_, hskip⟩
    have hmore := length_skipSignature hskip
    split
    · rename_i hcolon
      have hresult := length_skipMark_lt hcolon
      refine Settles.bind (hshort _ (by omega)).suffixed ?_
      intro parsed _
      exact settles_ok _ _
    · exact settles_ok _ _
  · split
    · refine Settles.bind (hshort _ (Nat.lt_succ_self _)).arguments ?_
      intro parsed _
      exact settles_ok _ _
    · refine Settles.bind (hshort _ (Nat.lt_succ_self _)).arguments ?_
      intro parsed _
      exact settles_ok _ _
    · exact settles_ok _ _

theorem primaryRule_settles : Settles (need + 1) fun fuel =>
    primaryRule fuel ts := by
  apply Settles.step
  unfold primaryRule
  split
  · refine Settles.bind (hshort _ (Nat.lt_succ_self _)).union ?_
    intro parsed _
    refine Settles.bind (settles_expect _ _ _) ?_
    intro rest _
    exact settles_ok _ _
  · exact settles_ok _ _
  · split
    · exact settles_ok _ _
    · refine Settles.bind (hshort _ (Nat.lt_succ_self _)).record ?_
      intro parsed _
      exact settles_ok _ _
  · exact settles_failAt (by simp) _ _
  · exact settles_ok _ _
  · exact settles_ok _ _
  · exact (hshort _ (Nat.lt_succ_self _)).name _
  · exact settles_failAt (by simp) _ _
  · exact settles_failAt (by simp) _ _

theorem prefixedRule_settles : Settles (need + 2) fun fuel =>
    prefixedRule fuel ts := by
  have hprimary := primaryRule_settles hshort
  have hless : need ≤ need + 1 := Nat.le_succ need
  apply Settles.step
  unfold prefixedRule
  split
  · split
    · exact settles_ok _ _
    · refine Settles.bind
        ((hshort _ (Nat.lt_succ_self _)).prefixed.mono hless) ?_
      intro parsed _
      exact settles_ok _ _
  · exact (hshort _ (Nat.lt_succ_self _)).prefixed.mono hless
  · exact (hshort _ (Nat.lt_succ_self _)).prefixed.mono hless
  · exact hprimary

theorem suffixedRule_settles : Settles (need + 3) fun fuel =>
    suffixedRule fuel ts := by
  apply Settles.step
  unfold suffixedRule
  refine Settles.bind (prefixedRule_settles hshort) ?_
  rintro ⟨e, more⟩ _
  refine Settles.bind (settles_arrays e more _) ?_
  intro parsed _
  exact settles_ok _ _

theorem alternatives_settles : Settles (need + 1) fun fuel =>
    alternatives fuel ts := by
  apply Settles.step
  unfold alternatives
  split
  · rename_i hbar
    have hlength := length_skipMark_lt hbar
    refine Settles.bind (hshort _ hlength).suffixed ?_
    rintro ⟨e, more⟩ ⟨fuel, hfirst⟩
    have hmore := ((rulesDerive fuel).suffixed hfirst).length_lt
    refine Settles.bind
      (hshort more (Nat.lt_trans hmore hlength)).alternatives ?_
    intro parsed _
    exact settles_ok _ _
  · exact settles_ok _ _

theorem unionRule_settles : Settles (need + 4) fun fuel =>
    unionRule fuel ts := by
  apply Settles.step
  unfold unionRule
  refine Settles.bind (suffixedRule_settles hshort) ?_
  rintro ⟨first, more⟩ ⟨fuel, hfirst⟩
  have hmore := ((rulesDerive fuel).suffixed hfirst).length_lt
  refine Settles.bind
    ((hshort more hmore).alternatives.mono (Nat.le_add_right _ _)) ?_
  intro parsed _
  exact settles_ok _ _

theorem argumentsRule_settles : Settles (need + 5) fun fuel =>
    argumentsRule fuel ts := by
  apply Settles.step
  unfold argumentsRule
  refine Settles.bind (unionRule_settles hshort) ?_
  rintro ⟨e, more⟩ ⟨fuel, hfirst⟩
  have hmore := ((rulesDerive fuel).union hfirst).length_lt
  dsimp only
  split
  · rename_i hcomma
    have hothers := Nat.lt_trans (length_skipMark_lt hcomma) hmore
    refine Settles.bind
      ((hshort _ hothers).arguments.mono (Nat.le_add_right _ _)) ?_
    intro parsed _
    exact settles_ok _ _
  · refine Settles.bind (settles_expect _ _ _) ?_
    intro rest _
    exact settles_ok _ _

theorem entryRule_settles : Settles (need + 1) fun fuel =>
    entryRule fuel ts := by
  apply Settles.step
  unfold entryRule
  split
  · split
    · refine Settles.bind (settles_expect _ _ _) ?_
      rintro ts₁ ⟨_, hcolon⟩
      have hlength₁ := length_expect hcolon
      simp only [List.length_cons] at hshort
      refine Settles.bind (hshort ts₁ (by omega)).union ?_
      rintro ⟨keyType, ts₂⟩ ⟨fuel, hkeyType⟩
      have hlength₂ := ((rulesDerive fuel).union hkeyType).length_lt
      refine Settles.bind (settles_expect _ _ _) ?_
      rintro ts₃ ⟨_, hclose⟩
      have hlength₃ := length_expect hclose
      refine Settles.bind (settles_expect _ _ _) ?_
      rintro ts₄ ⟨_, hcolon'⟩
      have hlength₄ := length_expect hcolon'
      refine Settles.bind (hshort ts₄ (by omega)).union ?_
      intro parsed _
      exact settles_ok _ _
    · exact settles_failAt (by simp) _ _
  · exact settles_failAt (by simp) _ _
  · rename_i t us _
    split
    · exact settles_failAt (by simp) _ _
    · have hquestion := length_skipMark_le '?' us
      dsimp only
      split
      · rename_i hcolon
        have hvalue := Nat.lt_of_lt_of_le (length_skipMark_lt hcolon) hquestion
        refine Settles.bind (hshort _ (Nat.lt_succ_of_lt hvalue)).union ?_
        intro parsed _
        exact settles_ok _ _
      · exact settles_ok _ _

theorem recordRule_settles : Settles (need + 2) fun fuel =>
    recordRule fuel ts := by
  apply Settles.step
  unfold recordRule
  refine Settles.bind (entryRule_settles hshort) ?_
  rintro ⟨entry, more⟩ ⟨fuel, hentry⟩
  have hmore := ((rulesDerive fuel).entry hentry).length_lt
  dsimp only
  split
  · exact settles_ok _ _
  · refine Settles.bind (settles_expect _ _ _) ?_
    rintro more' ⟨_, hcomma⟩
    have hmore' := Nat.lt_trans (length_expect hcomma) hmore
    refine Settles.bind
      ((hshort more' hmore').record.mono (Nat.le_succ need)) ?_
    intro parsed _
    exact settles_ok _ _

theorem RulesSettle.next : RulesSettle (need + 5) ts where
  union := (unionRule_settles hshort).mono (by omega)
  alternatives := (alternatives_settles hshort).mono (by omega)
  suffixed := (suffixedRule_settles hshort).mono (by omega)
  prefixed := (prefixedRule_settles hshort).mono (by omega)
  primary := (primaryRule_settles hshort).mono (by omega)
  name text := (nameRule_settles hshort text).mono (by omega)
  arguments := argumentsRule_settles hshort
  record := (recordRule_settles hshort).mono (by omega)
  entry := (entryRule_settles hshort).mono (by omega)

end Step

theorem rulesSettle (ts : List Token) : RulesSettle (fuelFor ts) ts := by
  induction hlength : ts.length using Nat.strongRecOn generalizing ts with
  | ind n ih =>
      subst hlength
      have hshort (us : List Token) (hus : us.length < ts.length) :
          RulesSettle (8 * ts.length) us := by
        refine (ih us.length hus us rfl).mono ?_
        rw [fuelFor]
        omega
      refine (RulesSettle.next hshort).mono ?_
      rw [fuelFor]
      omega

/-- The fuel for a list of tokens is fuel enough. -/
theorem unionRule_eq_of_fuelFor_le
    {ts : List Token} {fuel : Nat}
    (h : fuelFor ts ≤ fuel) :
    unionRule fuel ts = unionRule (fuelFor ts) ts := by
  rcases (rulesSettle ts).union with ⟨result, hrun, _⟩
  exact (hrun fuel h).trans (hrun (fuelFor ts) (Nat.le_refl _)).symm

theorem isTooDeep_ofTokens
    {ts : List Token} {fault : SyntaxError}
    (h : ofTokens ts = .error fault) :
    fault.isTooDeep = false := by
  have hwhole : Settles (fuelFor ts) fun fuel =>
      unionRule fuel ts >>= fun parsed =>
      if parsed.2.isEmpty then pure parsed.1
      else failAt .trailing parsed.2 := by
    refine Settles.bind (rulesSettle ts).union ?_
    intro parsed _
    split
    · exact settles_ok _ _
    · exact settles_failAt (by simp) _ _
  rcases hwhole with ⟨result, hrun, hfault⟩
  exact hfault fault ((hrun (fuelFor ts) (Nat.le_refl _)).symm.trans h)

end TypeExpr
end Ambient
