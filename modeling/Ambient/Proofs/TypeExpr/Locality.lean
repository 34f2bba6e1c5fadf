import Ambient.Proofs.TypeExpr.InStep

/-!
# Reading no further than needed

A rule looks at the first of the tokens that it leaves, and at none behind it.
So more tokens at the end make no difference to it, unless it leaves none.  The
rules for type arguments and for the entries of a record end with a bracket, and
do not even look at the token behind it.
-/

namespace Ambient
namespace TypeExpr

/-!
## Steps without fuel
-/

theorem startsWith_append
    {ts : List Token}
    (h : ts ≠ [])
    (c : Char)
    (more : List Token) :
    startsWith c (ts ++ more) = startsWith c ts := by
  cases ts with
  | nil => contradiction
  | cons t ts => cases t <;> rfl

theorem skipMark_append
    {ts : List Token}
    (h : ts ≠ [])
    (c : Char)
    (more : List Token) :
    skipMark c (ts ++ more) = skipMark c ts ++ more := by
  cases ts with
  | nil => contradiction
  | cons t ts =>
      cases t with
      | mark d =>
          simp only [List.cons_append, skipMark]
          split <;> rfl
      | _ => rfl

theorem endsUnknown_append
    {ts : List Token}
    (h : ts ≠ [])
    (more : List Token) :
    endsUnknown (ts ++ more) = endsUnknown ts := by
  cases ts with
  | nil => contradiction
  | cons t ts => cases t <;> rfl

theorem ne_nil_of_startsWith
    {c : Char} {ts : List Token}
    (h : startsWith c ts = true) :
    ts ≠ [] := by
  rintro rfl
  contradiction

theorem expect_append
    {c : Char} {ts rest : List Token}
    (h : expect c ts = .ok rest)
    (more : List Token) :
    expect c (ts ++ more) = .ok (rest ++ more) := by
  rw [eq_cons_of_expect h]
  simp [expect]

theorem ne_nil_of_expect
    {c : Char} {ts rest : List Token}
    (h : expect c ts = .ok rest) :
    ts ≠ [] := by
  rw [eq_cons_of_expect h]
  exact List.cons_ne_nil _ _

theorem skipSignature_append
    {depth : Nat} {ts rest : List Token}
    (h : skipSignature depth ts = .ok rest)
    (more : List Token) :
    skipSignature depth (ts ++ more) = .ok (rest ++ more) := by
  rcases skipSignature_iff.mp h with ⟨sig, rfl, hsig⟩
  exact skipSignature_iff.mpr ⟨sig, List.append_assoc _ _ _, hsig⟩

theorem arrays_append
    {e e' : TypeExpr} {ts rest : List Token}
    (h : arrays e ts = .ok (e', rest))
    (hrest : rest ≠ [])
    (more : List Token) :
    arrays e (ts ++ more) = .ok (e', rest ++ more) := by
  induction e, ts using arrays.induct with
  | case1 e ts ih =>
      rw [arrays] at h
      rw [List.cons_append, List.cons_append, arrays]
      exact ih h
  | case2 e ts hbracket =>
      rw [arrays] at h
      · contradiction
      · exact hbracket
  | case3 e ts hpair hbracket =>
      rw [arrays] at h
      · have hstart : startsWith '[' ts = false := by
          cases hstart : startsWith '[' ts with
          | true => exact absurd (eq_cons_of_startsWith hstart) (hbracket _)
          | false => rfl
        cases h
        exact arrays_of_startsWith _
          ((startsWith_append hrest _ _).trans hstart)
      · exact hpair
      · exact hbracket

theorem markers_append
    {e e' : TypeExpr} {ts rest : List Token}
    (h : markers e ts = (e', rest))
    (hrest : rest ≠ [])
    (more : List Token) :
    markers e (ts ++ more) = (e', rest ++ more) := by
  have hskip (c : Char) {us : List Token} (hus : skipMark c us ≠ []) : us ≠
      [] := by
    rintro rfl
    exact hus rfl
  unfold markers at h ⊢
  split at h
  · rename_i hquestion
    cases h
    have hne := ne_nil_of_startsWith hquestion
    rw [startsWith_append hne, hquestion, if_pos rfl, skipMark_append hne,
      skipMark_append (hskip '=' hrest)]
  · rename_i hquestion
    cases h
    have hne := hskip '!' (hskip '=' hrest)
    rw [startsWith_append hne, if_neg hquestion, skipMark_append hne,
      skipMark_append (hskip '=' hrest)]

/-!
## Rules

The descent is by fuel, as for rules in step.
-/

/-- A rule to which more tokens make no difference if it leaves some. -/
def Local {α : Type}
    (rule : List Token -> Except SyntaxError (α × List Token)) : Prop :=
  forall {ts : List Token} {a : α} {rest : List Token},
    rule ts = .ok (a, rest) -> rest ≠ [] ->
    forall more, rule (ts ++ more) = .ok (a, rest ++ more)

/-- A rule to which more tokens make no difference. -/
def Delimited {α : Type}
    (rule : List Token -> Except SyntaxError (α × List Token)) : Prop :=
  forall {ts : List Token} {a : α} {rest : List Token},
    rule ts = .ok (a, rest) ->
    forall more, rule (ts ++ more) = .ok (a, rest ++ more)

structure RulesLocal (fuel : Nat) : Prop where
  union : Local (unionRule fuel)
  alternatives : Local (alternatives fuel)
  suffixed : Local (suffixedRule fuel)
  prefixed : Local (prefixedRule fuel)
  primary : Local (primaryRule fuel)
  name : forall text, Local (nameRule fuel text)
  arguments : Delimited (argumentsRule fuel)
  record : Delimited (recordRule fuel)
  entry : Local (entryRule fuel)

theorem rulesLocal_zero : RulesLocal 0 := by
  constructor <;> intros <;> intro ts a rest h <;> contradiction

theorem bind_eq_of_ok
    {ε α β : Type} {x : Except ε α} {f : α -> Except ε β} {a : α}
    {result : Except ε β}
    (hx : x = .ok a)
    (h : f a = result) :
    x >>= f = result := by
  rw [hx]
  exact h

theorem Derives.ne_nil
    {phrase : Phrase} {ts rest : List Token}
    (h : Derives phrase ts rest) :
    ts ≠ [] := by
  rintro rfl
  exact Nat.not_lt_zero _ h.length_lt

theorem ne_nil_of_alternatives
    {fuel : Nat} {ts rest : List Token} {es : List TypeExpr}
    (h : alternatives fuel ts = .ok (es, rest))
    (hrest : rest ≠ []) :
    ts ≠ [] := by
  rcases (rulesDerive fuel).alternatives h with ⟨_, rfl⟩ | hderives
  · exact hrest
  · exact hderives.ne_nil

section Rules

variable {fuel : Nat} (hrules : RulesLocal fuel)

include hrules

theorem alternatives_local : Local (alternatives (fuel + 1)) := by
  intro ts es rest h hrest more
  rw [alternatives] at h ⊢
  split at h
  · rename_i hbar
    rcases bind_eq_ok h with ⟨⟨e, mid⟩, hfirst, h⟩
    rcases bind_eq_ok h with ⟨⟨others, rest'⟩, hothers, h⟩
    cases h
    have hmid := ne_nil_of_alternatives hothers hrest
    have hne := ne_nil_of_startsWith hbar
    rw [startsWith_append hne, if_pos hbar, skipMark_append hne]
    refine bind_eq_of_ok (hrules.suffixed hfirst hmid more) ?_
    exact bind_eq_of_ok (hrules.alternatives hothers hrest more) rfl
  · rename_i hbar
    cases h
    rw [startsWith_append hrest, if_neg hbar]

theorem unionRule_local : Local (unionRule (fuel + 1)) := by
  intro ts e rest h hrest more
  rw [unionRule] at h ⊢
  rcases bind_eq_ok h with ⟨⟨first, mid⟩, hfirst, h⟩
  rcases bind_eq_ok h with ⟨⟨others, rest'⟩, hothers, h⟩
  cases h
  have hmid := ne_nil_of_alternatives hothers hrest
  refine bind_eq_of_ok (hrules.suffixed hfirst hmid more) ?_
  exact bind_eq_of_ok (hrules.alternatives hothers hrest more) rfl

theorem suffixedRule_local : Local (suffixedRule (fuel + 1)) := by
  intro ts e rest h hrest more
  rw [suffixedRule] at h ⊢
  rcases bind_eq_ok h with ⟨⟨core, mid⟩, hcore, h⟩
  rcases bind_eq_ok h with ⟨⟨array, mid'⟩, harray, h⟩
  have hmarkers : markers array mid' = (e, rest) := Except.ok.inj h
  have hmid' : mid' ≠ [] := by
    rintro rfl
    cases hmarkers
    exact hrest rfl
  have hmid : mid ≠ [] := by
    rintro rfl
    cases harray
    exact hmid' rfl
  refine bind_eq_of_ok (hrules.prefixed hcore hmid more) ?_
  refine bind_eq_of_ok (arrays_append harray hmid' more) ?_
  exact congrArg Except.ok (markers_append hmarkers hrest more)

theorem prefixedRule_local : Local (prefixedRule (fuel + 1)) := by
  intro ts e rest h hrest more
  cases ts with
  | nil => exact absurd rfl ((rulesDerive (fuel + 1)).prefixed h).ne_nil
  | cons t ts =>
      by_cases hquestion : t = .mark '?'
      · subst hquestion
        rw [prefixedRule_question] at h
        rw [List.cons_append, prefixedRule_question]
        split at h
        · rename_i hunknown
          cases h
          rw [endsUnknown_append hrest, if_pos hunknown]
        · rename_i hunknown
          rcases bind_eq_ok h with ⟨⟨e, mid⟩, hinner, h⟩
          cases h
          have hne := ((rulesDerive fuel).prefixed hinner).ne_nil
          rw [endsUnknown_append hne, if_neg hunknown]
          exact bind_eq_of_ok (hrules.prefixed hinner hrest more) rfl
      by_cases hbang : t = .mark '!'
      · subst hbang
        exact hrules.prefixed h hrest more
      by_cases hellipsis : t = .ellipsis
      · subst hellipsis
        exact hrules.prefixed h hrest more
      rw [prefixedRule_other (by simpa) (by simpa) (by simpa)] at h
      rw [List.cons_append, prefixedRule_other (by simpa) (by simpa) (by simpa)]
      exact hrules.primary h hrest more

theorem primaryRule_local : Local (primaryRule (fuel + 1)) := by
  intro ts e rest h hrest more
  cases ts with
  | nil => contradiction
  | cons t ts =>
      cases t with
      | mark c =>
          by_cases hparen : c = '('
          · subst hparen
            rw [primaryRule] at h
            rw [List.cons_append, primaryRule]
            rcases bind_eq_ok h with ⟨⟨inner, mid⟩, hinner, h⟩
            rcases bind_eq_ok h with ⟨rest', hclose, h⟩
            cases h
            refine bind_eq_of_ok
              (hrules.union hinner (ne_nil_of_expect hclose) more) ?_
            exact bind_eq_of_ok (expect_append hclose more) rfl
          by_cases hstar : c = '*'
          · subst hstar
            cases h
            rfl
          by_cases hbrace : c = '{'
          · subst hbrace
            rw [primaryRule] at h
            rw [List.cons_append, primaryRule]
            split at h
            · rename_i hclose
              cases h
              have hne := ne_nil_of_startsWith hclose
              rw [startsWith_append hne, if_pos hclose, skipMark_append hne]
            · rename_i hclose
              rcases bind_eq_ok h with ⟨⟨entries, rest'⟩, hentries, h⟩
              cases h
              have hne := ((rulesDerive fuel).entries hentries).ne_nil
              rw [startsWith_append hne, if_neg hclose]
              exact bind_eq_of_ok (hrules.record hentries more) rfl
          rw [primaryRule_mark hparen hstar hbrace] at h
          contradiction
      | quoted text =>
          cases h
          rfl
      | number text =>
          cases h
          rfl
      | name text => exact hrules.name text h hrest more
      | ellipsis => contradiction
      | genericOpen => contradiction

theorem nameRule_local
    (text : String) :
    Local (nameRule (fuel + 1) text) := by
  intro ts e rest h hrest more
  have hts : ts ≠ [] := by
    rintro rfl
    rw [nameRule_other (by simp [startsWith]) (by simp)] at h
    cases h
    exact hrest rfl
  by_cases hfunction : text = "function" ∧ startsWith '(' ts = true
  · rcases hfunction with ⟨rfl, hopen⟩
    rw [nameRule_function fuel hopen] at h
    rw [nameRule_function fuel ((startsWith_append hts _ _).trans hopen)]
    rcases bind_eq_ok h with ⟨mid, hskip, h⟩
    rw [skipMark_append hts]
    refine bind_eq_of_ok (skipSignature_append hskip more) ?_
    split at h
    · rename_i hcolon
      rcases bind_eq_ok h with ⟨⟨e, mid'⟩, hreturn, h⟩
      cases h
      have hne := ne_nil_of_startsWith hcolon
      rw [startsWith_append hne, if_pos hcolon, skipMark_append hne]
      exact bind_eq_of_ok (hrules.suffixed hreturn hrest more) rfl
    · -- something is left behind the signature, so a colon further on is not
      -- seen
      rename_i hcolon
      cases h
      rw [startsWith_append hrest, if_neg hcolon]
  have hfunction' :
      ¬ (text = "function" ∧ startsWith '(' (ts ++ more) = true) := by
    rwa [startsWith_append hts]
  cases ts with
  | nil => contradiction
  | cons t ts =>
      by_cases hopener : IsOpener t
      · rw [nameRule_opener fuel text hopener] at h
        rw [List.cons_append, nameRule_opener fuel text hopener]
        rcases bind_eq_ok h with ⟨⟨args, rest'⟩, hargs, h⟩
        cases h
        exact bind_eq_of_ok (hrules.arguments hargs more) rfl
      · rw [nameRule_other hfunction (by simpa using hopener)] at h
        rw [nameRule_other hfunction' (by simpa using hopener)]
        cases h
        rfl

theorem argumentsRule_delimited : Delimited (argumentsRule (fuel + 1)) := by
  intro ts es rest h more
  rw [argumentsRule] at h ⊢
  rcases bind_eq_ok h with ⟨⟨e, mid⟩, hfirst, h⟩
  dsimp only at h
  split at h
  · rename_i hcomma
    have hne := ne_nil_of_startsWith hcomma
    rcases bind_eq_ok h with ⟨⟨others, rest'⟩, hothers, h⟩
    cases h
    refine bind_eq_of_ok (hrules.union hfirst hne more) ?_
    dsimp only
    rw [startsWith_append hne, if_pos hcomma, skipMark_append hne]
    exact bind_eq_of_ok (hrules.arguments hothers more) rfl
  · rename_i hcomma
    rcases bind_eq_ok h with ⟨rest', hclose, h⟩
    cases h
    have hne := ne_nil_of_expect hclose
    refine bind_eq_of_ok (hrules.union hfirst hne more) ?_
    dsimp only
    rw [startsWith_append hne, if_neg hcomma]
    exact bind_eq_of_ok (expect_append hclose more) rfl

theorem recordRule_delimited : Delimited (recordRule (fuel + 1)) := by
  intro ts entries rest h more
  rw [recordRule] at h ⊢
  rcases bind_eq_ok h with ⟨⟨entry, mid⟩, hfirst, h⟩
  dsimp only at h
  split at h
  · rename_i hclose
    have hne := ne_nil_of_startsWith hclose
    cases h
    refine bind_eq_of_ok (hrules.entry hfirst hne more) ?_
    dsimp only
    rw [startsWith_append hne, if_pos hclose, skipMark_append hne]
    rfl
  · rename_i hclose
    rcases bind_eq_ok h with ⟨next, hcomma, h⟩
    rcases bind_eq_ok h with ⟨⟨others, rest'⟩, hothers, h⟩
    cases h
    have hne := ne_nil_of_expect hcomma
    refine bind_eq_of_ok (hrules.entry hfirst hne more) ?_
    dsimp only
    rw [startsWith_append hne, if_neg hclose]
    refine bind_eq_of_ok (expect_append hcomma more) ?_
    exact bind_eq_of_ok (hrules.record hothers more) rfl

theorem entryRule_local : Local (entryRule (fuel + 1)) := by
  intro ts entry rest h hrest more
  cases ts with
  | nil => contradiction
  | cons t ts =>
      cases hkey : recordKey? t with
      | some key =>
          rw [entryRule_key fuel hkey] at h
          rw [List.cons_append, entryRule_key fuel hkey]
          have hmid : skipMark '?' ts ≠ [] -> ts ≠ [] := by
            rintro hskip rfl
            exact hskip rfl
          split at h
          · rename_i hcolon
            rcases bind_eq_ok h with ⟨⟨value, rest'⟩, hvalue, h⟩
            cases h
            have hne := ne_nil_of_startsWith hcolon
            rw [skipMark_append (hmid hne), startsWith_append hne,
              if_pos hcolon, skipMark_append hne, startsWith_append (hmid hne)]
            exact bind_eq_of_ok (hrules.union hvalue hrest more) rfl
          · rename_i hcolon
            cases h
            rw [skipMark_append (hmid hrest), startsWith_append hrest,
              if_neg hcolon, startsWith_append (hmid hrest)]
      | none =>
          by_cases hname : exists key ts', t = .mark '[' ∧ ts = .name key :: ts'
          · rcases hname with ⟨key, ts, rfl, rfl⟩
            rw [entryRule_name] at h
            rw [List.cons_append, List.cons_append, entryRule_name]
            rcases bind_eq_ok h with ⟨ts₁, hcolon, h⟩
            rcases bind_eq_ok h with ⟨⟨keyType, ts₂⟩, hkeyType, h⟩
            rcases bind_eq_ok h with ⟨ts₃, hclose, h⟩
            rcases bind_eq_ok h with ⟨ts₄, hcolon', h⟩
            rcases bind_eq_ok h with ⟨⟨value, rest'⟩, hvalue, h⟩
            cases h
            refine bind_eq_of_ok (expect_append hcolon more) ?_
            refine bind_eq_of_ok
              (hrules.union hkeyType (ne_nil_of_expect hclose) more) ?_
            refine bind_eq_of_ok (expect_append hclose more) ?_
            refine bind_eq_of_ok (expect_append hcolon' more) ?_
            exact bind_eq_of_ok (hrules.union hvalue hrest more) rfl
          · rcases entryRule_other fuel hkey hname with ⟨fault, hfault⟩
            rw [hfault] at h
            contradiction

end Rules

theorem rulesLocal (fuel : Nat) : RulesLocal fuel := by
  induction fuel with
  | zero => exact rulesLocal_zero
  | succ fuel ih =>
      exact {
        union := unionRule_local ih
        alternatives := alternatives_local ih
        suffixed := suffixedRule_local ih
        prefixed := prefixedRule_local ih
        primary := primaryRule_local ih
        name := nameRule_local ih
        arguments := argumentsRule_delimited ih
        record := recordRule_delimited ih
        entry := entryRule_local ih }

end TypeExpr
end Ambient
