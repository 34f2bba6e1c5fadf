import Ambient.Proofs.TypeExpr.Depth

/-!
# Reading in step

Two lists of tokens are read in step as long as no rule can tell them apart.
The two spellings of the bracket that opens type arguments are never told apart,
and the end of the tokens looks to every rule like a closing parenthesis that
none of them has opened.
-/

namespace Ambient
namespace TypeExpr

/-!
## Tokens that look the same
-/

def IsOpener (t : Token) : Prop := t = .genericOpen ∨ t = .mark '<'

/-- Tokens that are the same or both open type arguments. -/
inductive Alike : Token -> Token -> Prop where
  | same {t} :
      Alike t t
  | openers {t u}
      (ht : IsOpener t)
      (hu : IsOpener u) :
      Alike t u

/-- A relation between lists that are read in step.  The first may end where the
second goes on with a closing parenthesis. -/
structure InStep (R : List Token -> List Token -> Prop) : Prop where
  nil {us : List Token} : R [] us -> FollowedBy [')'] us
  cons {t : Token} {ts us : List Token} :
    R (t :: ts) us -> exists u us', us = u :: us' ∧ Alike t u ∧ R ts us'

/-- If the first computation gives something, the second gives something related
to it. -/
def Simulates {ε α β : Type} (S : α -> β -> Prop) (x : Except ε α)
    (y : Except ε β) : Prop :=
  forall a, x = .ok a -> exists b, y = .ok b ∧ S a b

theorem simulates_ok
    {ε α β : Type} {S : α -> β -> Prop} {a : α} {b : β}
    (h : S a b) :
    Simulates S (.ok a : Except ε α) (.ok b : Except ε β) := by
  rintro _ ⟨⟩
  exact ⟨b, rfl, h⟩

theorem simulates_error
    {ε α β : Type} {S : α -> β -> Prop}
    (e : ε)
    (y : Except ε β) :
    Simulates S (.error e : Except ε α) y := by
  intro a h
  contradiction

theorem Simulates.bind
    {ε α β γ δ : Type} {S : α -> β -> Prop} {T : γ -> δ -> Prop}
    {x : Except ε α} {y : Except ε β}
    {f : α -> Except ε γ} {g : β -> Except ε δ}
    (hx : Simulates S x y)
    (hf : forall a b, S a b -> Simulates T (f a) (g b)) :
    Simulates T (x >>= f) (y >>= g) := by
  intro c hc
  rcases bind_eq_ok hc with ⟨a, ha, hc⟩
  rcases hx a ha with ⟨b, rfl, hab⟩
  exact hf a b hab c hc

/-!
## Steps without fuel
-/

theorem startsWith_opener
    {c : Char} {t : Token}
    (hc : c ≠ '<')
    (h : IsOpener t)
    (ts : List Token) :
    startsWith c (t :: ts) = false := by
  rcases h with rfl | rfl
  · rfl
  · simp [startsWith, hc.symm]

theorem prefixedRule_question
    (fuel : Nat)
    (ts : List Token) :
    prefixedRule (fuel + 1) (.mark '?' :: ts) =
      if endsUnknown ts then .ok (.any, ts)
      else prefixedRule fuel ts >>= fun parsed =>
        .ok (.nullable parsed.1, parsed.2) := by
  rw [prefixedRule]
  rfl

theorem prefixedRule_other
    {fuel : Nat} {ts : List Token}
    (hquestion : ts.head? ≠ some (.mark '?'))
    (hbang : ts.head? ≠ some (.mark '!'))
    (hellipsis : ts.head? ≠ some .ellipsis) :
    prefixedRule (fuel + 1) ts = primaryRule fuel ts := by
  unfold prefixedRule
  split
  · exact absurd rfl hquestion
  · exact absurd rfl hbang
  · exact absurd rfl hellipsis
  · rfl

/-- Tokens that are at an end or start with a bracket that opens type
arguments. -/
def Barred (ts : List Token) : Prop := forall t, ts.head? = some t -> IsOpener t

theorem primaryRule_of_barred
    (fuel : Nat) {ts : List Token}
    (h : Barred ts) :
    exists fault, primaryRule fuel ts = .error fault := by
  cases fuel with
  | zero => exact ⟨_, rfl⟩
  | succ fuel =>
      cases ts with
      | nil => exact ⟨_, rfl⟩
      | cons t ts => rcases h t rfl with rfl | rfl <;> exact ⟨_, rfl⟩

theorem prefixedRule_of_barred
    (fuel : Nat) {ts : List Token}
    (h : Barred ts) :
    exists fault, prefixedRule fuel ts = .error fault := by
  cases fuel with
  | zero => exact ⟨_, rfl⟩
  | succ fuel =>
      have hother {t : Token} (ht : ¬ IsOpener t) : ts.head? ≠ some t :=
        fun heq => ht (h t heq)
      rw [prefixedRule_other (hother (by simp [IsOpener]))
        (hother (by simp [IsOpener]))
        (hother (by simp [IsOpener]))]
      exact primaryRule_of_barred fuel h

theorem entryRule_of_barred
    (fuel : Nat) {ts : List Token}
    (h : Barred ts) :
    exists fault, entryRule fuel ts = .error fault := by
  cases fuel with
  | zero => exact ⟨_, rfl⟩
  | succ fuel =>
      cases ts with
      | nil => exact ⟨_, rfl⟩
      | cons t ts => rcases h t rfl with rfl | rfl <;> exact ⟨_, rfl⟩

theorem primaryRule_mark
    {fuel : Nat} {c : Char} {ts : List Token}
    (hparen : c ≠ '(')
    (hstar : c ≠ '*')
    (hbrace : c ≠ '{') :
    primaryRule (fuel + 1) (.mark c :: ts) =
      failAt .unexpectedToken (.mark c :: ts) := by
  rw [primaryRule]
  · exact hparen
  · exact hstar
  · exact hbrace

theorem nameRule_function
    (fuel : Nat) {ts : List Token}
    (h : startsWith '(' ts = true) :
    nameRule (fuel + 1) "function" ts =
      skipSignature 1 (skipMark '(' ts) >>= fun more =>
        if startsWith ':' more then
          suffixedRule fuel (skipMark ':' more) >>= fun parsed =>
            .ok (.function, parsed.2)
        else .ok (.function, more) := by
  unfold nameRule
  rw [if_pos ⟨rfl, h⟩]
  rfl

theorem nameRule_opener
    (fuel : Nat) (text : String) {opener : Token}
    (h : IsOpener opener)
    (ts : List Token) :
    nameRule (fuel + 1) text (opener :: ts) =
      argumentsRule fuel ts >>= fun parsed =>
        .ok (.generic text parsed.1, parsed.2) := by
  have hstart := startsWith_opener (c := '(') (by decide) h ts
  unfold nameRule
  rw [hstart, if_neg fun hboth => Bool.false_ne_true hboth.2]
  rcases h with rfl | rfl
  · rfl
  · rfl

theorem nameRule_other
    {fuel : Nat} {text : String} {ts : List Token}
    (hfunction : ¬ (text = "function" ∧ startsWith '(' ts = true))
    (h : forall t, ts.head? = some t -> ¬ IsOpener t) :
    nameRule (fuel + 1) text ts = .ok (.name text, ts) := by
  unfold nameRule
  rw [if_neg hfunction]
  split
  · exact absurd (Or.inl rfl) (h _ rfl)
  · exact absurd (Or.inr rfl) (h _ rfl)
  · rfl

theorem entryRule_name
    (fuel : Nat)
    (key : String)
    (ts : List Token) :
    entryRule (fuel + 1) (.mark '[' :: .name key :: ts) =
      expect ':' ts >>= fun ts => unionRule fuel ts >>= fun keyType =>
        expect ']' keyType.2 >>= fun ts => expect ':' ts >>= fun ts =>
          unionRule fuel ts >>= fun value =>
            .ok (.index key keyType.1 value.1, value.2) := by
  rw [entryRule]
  rfl

theorem entryRule_key
    (fuel : Nat) {t : Token} {key : String} {ts : List Token}
    (h : recordKey? t = some key) :
    entryRule (fuel + 1) (t :: ts) =
      if startsWith ':' (skipMark '?' ts) then
        unionRule fuel (skipMark ':' (skipMark '?' ts)) >>= fun value =>
          .ok (.field key (startsWith '?' ts) value.1, value.2)
      else .ok (.bare key (startsWith '?' ts), skipMark '?' ts) := by
  unfold entryRule
  split
  · rename_i heq
    cases heq
    contradiction
  · contradiction
  · rename_i heq
    cases heq
    rw [h]
    rfl

theorem entryRule_other
    (fuel : Nat) {t : Token} {ts : List Token}
    (hkey : recordKey? t = none)
    (hname : ¬ exists key ts', t = .mark '[' ∧ ts = .name key :: ts') :
    exists fault, entryRule (fuel + 1) (t :: ts) = .error fault := by
  unfold entryRule
  split
  · rename_i heq
    cases heq
    split
    · exact absurd ⟨_, _, rfl, rfl⟩ hname
    · exact ⟨_, rfl⟩
  · exact ⟨_, rfl⟩
  · rename_i heq
    cases heq
    rw [hkey]
    exact ⟨_, rfl⟩

variable {R : List Token -> List Token -> Prop}

/-- The same result, and what is left in step. -/
def Beside {α : Type} (R : List Token -> List Token -> Prop)
    (p q : α × List Token) : Prop :=
  p.1 = q.1 ∧ R p.2 q.2

section Steps

variable {ts us : List Token} (hR : InStep R)

include hR

theorem InStep.startsWith
    {c : Char}
    (hparen : c ≠ ')')
    (hangle : c ≠ '<')
    (h : R ts us) :
    TypeExpr.startsWith c us = TypeExpr.startsWith c ts := by
  cases ts with
  | nil => exact startsWith_of_followedBy (hR.nil h) (by simpa using hparen)
  | cons t ts =>
      rcases hR.cons h with ⟨u, us', rfl, halike, _⟩
      cases halike with
      | same =>
          cases t <;> rfl
      | openers ht hu =>
          rw [startsWith_opener hangle ht, startsWith_opener hangle hu]

/-- A token that is no opener is taken from both. -/
theorem InStep.tail
    {t : Token}
    (ht : ¬ IsOpener t)
    (h : R (t :: ts) us) :
    exists us', us = t :: us' ∧ R ts us' := by
  rcases hR.cons h with ⟨u, us', rfl, halike, hrest⟩
  cases halike with
  | same => exact ⟨us', rfl, hrest⟩
  | openers hopener _ => exact absurd hopener ht

theorem InStep.barred_or
    (h : R ts us) :
    Barred ts ∨ exists t ts' us', ts = t :: ts' ∧ us = t :: us' ∧
      R ts' us' := by
  cases ts with
  | nil =>
      left
      intro t ht
      contradiction
  | cons t ts =>
      by_cases hopener : IsOpener t
      · left
        intro t' ht
        cases ht
        exact hopener
      · right
        rcases hR.tail hopener h with ⟨us', rfl, hrest⟩
        exact ⟨t, ts, us', rfl, rfl, hrest⟩

theorem InStep.skipMark
    {c : Char}
    (hparen : c ≠ ')')
    (hangle : c ≠ '<')
    (h : R ts us) :
    R (TypeExpr.skipMark c ts) (TypeExpr.skipMark c us) := by
  have hsame := hR.startsWith hparen hangle h
  cases hstart : TypeExpr.startsWith c ts with
  | false =>
      rw [hstart] at hsame
      rw [skipMark_of_startsWith hstart, skipMark_of_startsWith hsame]
      exact h
  | true =>
      rw [eq_cons_of_startsWith hstart] at h
      rcases hR.tail (by simpa [IsOpener] using hangle) h with ⟨us', rfl, hrest⟩
      simpa [TypeExpr.skipMark] using hrest

theorem InStep.expect
    {c : Char}
    (hangle : c ≠ '<')
    (h : R ts us) :
    Simulates R (TypeExpr.expect c ts) (TypeExpr.expect c us) := by
  intro rest hexpect
  rw [eq_cons_of_expect hexpect] at h
  rcases hR.tail (by simpa [IsOpener] using hangle) h with ⟨us', rfl, hrest⟩
  exact ⟨us', by simp [TypeExpr.expect], hrest⟩

theorem InStep.endsUnknown
    (h : R ts us) :
    TypeExpr.endsUnknown us = TypeExpr.endsUnknown ts := by
  cases ts with
  | nil => exact endsUnknown_iff.mpr ((hR.nil h).mono (by decide))
  | cons t ts =>
      rcases hR.cons h with ⟨u, us', rfl, halike, _⟩
      cases halike with
      | same =>
          cases t <;> rfl
      | openers ht hu =>
          rcases ht with rfl | rfl <;> rcases hu with rfl | rfl <;> rfl

theorem InStep.arrays
    (e : TypeExpr)
    (h : R ts us) :
    Simulates (Beside R) (TypeExpr.arrays e ts) (TypeExpr.arrays e us) := by
  induction e, ts using arrays.induct generalizing us with
  | case1 e ts ih =>
      rcases hR.tail (by simp [IsOpener]) h with ⟨us₁, rfl, h₁⟩
      rcases hR.tail (by simp [IsOpener]) h₁ with ⟨us₂, rfl, h₂⟩
      rw [TypeExpr.arrays, TypeExpr.arrays]
      exact ih h₂
  | case2 e ts hclose =>
      rw [TypeExpr.arrays.eq_2 e ts hclose]
      exact simulates_error _ _
  | case3 e ts hopen hother =>
      have hstart : TypeExpr.startsWith '[' ts = false := by
        cases hstart : TypeExpr.startsWith '[' ts with
        | false => rfl
        | true => exact (hother _ (eq_cons_of_startsWith hstart)).elim
      have hstart' := hR.startsWith (c := '[') (by decide) (by decide) h
      rw [hstart] at hstart'
      rw [arrays_of_startsWith e hstart, arrays_of_startsWith e hstart']
      exact simulates_ok ⟨rfl, h⟩

theorem InStep.markers
    (e : TypeExpr)
    (h : R ts us) :
    Beside R (TypeExpr.markers e ts) (TypeExpr.markers e us) := by
  have hquestion := hR.skipMark (c := '?') (by decide) (by decide) h
  have hbang := hR.skipMark (c := '!') (by decide) (by decide) h
  unfold TypeExpr.markers
  rw [hR.startsWith (by decide) (by decide) h]
  split
  · exact ⟨rfl, hR.skipMark (by decide) (by decide) hquestion⟩
  · exact ⟨rfl, hR.skipMark (by decide) (by decide) hbang⟩

theorem InStep.skipSignature
    (depth : Nat)
    (h : R ts us) :
    Simulates R (TypeExpr.skipSignature depth ts)
      (TypeExpr.skipSignature depth us) := by
  induction ts generalizing depth us with
  | nil =>
      cases depth with
      | zero =>
          rw [TypeExpr.skipSignature, TypeExpr.skipSignature]
          exact simulates_ok h
      | succ depth => exact simulates_error _ _
  | cons t ts ih =>
      cases depth with
      | zero =>
          rw [TypeExpr.skipSignature, TypeExpr.skipSignature]
          exact simulates_ok h
      | succ depth =>
          rcases hR.cons h with ⟨u, us', rfl, halike, hrest⟩
          have hsame : opens u = opens t ∧ closes u = closes t := by
            cases halike with
            | same => exact ⟨rfl, rfl⟩
            | openers ht hu =>
                rcases ht with rfl | rfl <;> rcases hu with rfl | rfl <;> decide
          rw [TypeExpr.skipSignature, TypeExpr.skipSignature, hsame.1, hsame.2]
          split
          · exact ih _ hrest
          · split
            · exact ih _ hrest
            · exact ih _ hrest

end Steps

/-!
## Rules

The descent is by fuel: what the rules do with less fuel is assumed.
-/

/-- A rule that reads lists in step alike. -/
def Follows {α : Type} (R : List Token -> List Token -> Prop)
    (rule : List Token -> Except SyntaxError (α × List Token)) : Prop :=
  forall {ts us : List Token}, R ts us ->
    Simulates (Beside R) (rule ts) (rule us)

structure RulesFollow (R : List Token -> List Token -> Prop) (fuel : Nat) :
    Prop where
  union : Follows R (unionRule fuel)
  alternatives : Follows R (alternatives fuel)
  suffixed : Follows R (suffixedRule fuel)
  prefixed : Follows R (prefixedRule fuel)
  primary : Follows R (primaryRule fuel)
  name : forall text, Follows R (nameRule fuel text)
  arguments : Follows R (argumentsRule fuel)
  record : Follows R (recordRule fuel)
  entry : Follows R (entryRule fuel)

theorem rulesFollow_zero : RulesFollow R 0 := by
  constructor <;> intros <;> intro ts us _ a h <;> contradiction

section Rules

variable {fuel : Nat} (hR : InStep R) (hrules : RulesFollow R fuel)

include hrules

theorem unionRule_follows : Follows R (unionRule (fuel + 1)) := by
  intro ts us h
  rw [unionRule, unionRule]
  refine (hrules.suffixed h).bind ?_
  rintro ⟨first, more⟩ ⟨_, more'⟩ ⟨rfl, hmore⟩
  refine (hrules.alternatives hmore).bind ?_
  rintro ⟨others, rest⟩ ⟨_, rest'⟩ ⟨rfl, hrest⟩
  exact simulates_ok ⟨rfl, hrest⟩

include hR

theorem alternatives_follows : Follows R (alternatives (fuel + 1)) := by
  intro ts us h
  have hbar := hR.skipMark (c := '|') (by decide) (by decide) h
  rw [alternatives, alternatives, hR.startsWith (by decide) (by decide) h]
  split
  · refine (hrules.suffixed hbar).bind ?_
    rintro ⟨e, more⟩ ⟨_, more'⟩ ⟨rfl, hmore⟩
    refine (hrules.alternatives hmore).bind ?_
    rintro ⟨es, rest⟩ ⟨_, rest'⟩ ⟨rfl, hrest⟩
    exact simulates_ok ⟨rfl, hrest⟩
  · exact simulates_ok ⟨rfl, h⟩

theorem suffixedRule_follows : Follows R (suffixedRule (fuel + 1)) := by
  intro ts us h
  rw [suffixedRule, suffixedRule]
  refine (hrules.prefixed h).bind ?_
  rintro ⟨core, more⟩ ⟨_, more'⟩ ⟨rfl, hmore⟩
  refine (hR.arrays core hmore).bind ?_
  rintro ⟨array, rest⟩ ⟨_, rest'⟩ ⟨rfl, hrest⟩
  exact simulates_ok (hR.markers array hrest)

theorem prefixedRule_follows : Follows R (prefixedRule (fuel + 1)) := by
  intro ts us h
  rcases hR.barred_or h with hbarred | ⟨t, ts, us, rfl, rfl, hrest⟩
  · rcases prefixedRule_of_barred (fuel + 1) hbarred with ⟨fault, hfault⟩
    rw [hfault]
    exact simulates_error _ _
  by_cases hquestion : t = .mark '?'
  · subst hquestion
    rw [prefixedRule_question, prefixedRule_question, hR.endsUnknown hrest]
    split
    · exact simulates_ok ⟨rfl, hrest⟩
    · refine (hrules.prefixed hrest).bind ?_
      rintro ⟨e, rest⟩ ⟨_, rest'⟩ ⟨rfl, hrest'⟩
      exact simulates_ok ⟨rfl, hrest'⟩
  by_cases hbang : t = .mark '!'
  · subst hbang
    exact hrules.prefixed hrest
  by_cases hellipsis : t = .ellipsis
  · subst hellipsis
    exact hrules.prefixed hrest
  rw [prefixedRule_other (by simpa) (by simpa) (by simpa),
    prefixedRule_other (by simpa) (by simpa) (by simpa)]
  exact hrules.primary h

theorem primaryRule_follows : Follows R (primaryRule (fuel + 1)) := by
  intro ts us h
  rcases hR.barred_or h with hbarred | ⟨t, ts, us, rfl, rfl, hrest⟩
  · rcases primaryRule_of_barred (fuel + 1) hbarred with ⟨fault, hfault⟩
    rw [hfault]
    exact simulates_error _ _
  cases t with
  | mark c =>
      by_cases hparen : c = '('
      · subst hparen
        rw [primaryRule, primaryRule]
        refine (hrules.union hrest).bind ?_
        rintro ⟨e, more⟩ ⟨_, more'⟩ ⟨rfl, hmore⟩
        refine (hR.expect (by decide) hmore).bind ?_
        intro rest rest' hrest'
        exact simulates_ok ⟨rfl, hrest'⟩
      by_cases hstar : c = '*'
      · subst hstar
        exact simulates_ok ⟨rfl, hrest⟩
      by_cases hbrace : c = '{'
      · subst hbrace
        rw [primaryRule, primaryRule,
          hR.startsWith (by decide) (by decide) hrest]
        split
        · exact simulates_ok ⟨rfl, hR.skipMark (by decide) (by decide) hrest⟩
        · refine (hrules.record hrest).bind ?_
          rintro ⟨entries, rest⟩ ⟨_, rest'⟩ ⟨rfl, hrest'⟩
          exact simulates_ok ⟨rfl, hrest'⟩
      rw [primaryRule_mark hparen hstar hbrace]
      exact simulates_error _ _
  | quoted text => exact simulates_ok ⟨rfl, hrest⟩
  | number text => exact simulates_ok ⟨rfl, hrest⟩
  | name text => exact hrules.name text hrest
  | ellipsis => exact simulates_error _ _
  | genericOpen => exact simulates_error _ _

theorem nameRule_follows
    (text : String) :
    Follows R (nameRule (fuel + 1) text) := by
  intro ts us h
  have hstart := hR.startsWith (c := '(') (by decide) (by decide) h
  by_cases hfunction : text = "function" ∧ startsWith '(' ts = true
  · rcases hfunction with ⟨rfl, hopen⟩
    have hsig := hR.skipMark (c := '(') (by decide) (by decide) h
    rw [nameRule_function fuel hopen,
      nameRule_function fuel (hstart.trans hopen)]
    refine (hR.skipSignature 1 hsig).bind ?_
    intro more more' hmore
    have hcolon := hR.skipMark (c := ':') (by decide) (by decide) hmore
    rw [hR.startsWith (by decide) (by decide) hmore]
    split
    · refine (hrules.suffixed hcolon).bind ?_
      rintro ⟨e, rest⟩ ⟨_, rest'⟩ ⟨_, hrest⟩
      exact simulates_ok ⟨rfl, hrest⟩
    · exact simulates_ok ⟨rfl, hmore⟩
  have hfunction' : ¬ (text = "function" ∧ startsWith '(' us = true) := by
    rwa [hstart]
  cases ts with
  | nil =>
      have hplain (us : List Token) (hus : FollowedBy [')'] us) :
          nameRule (fuel + 1) text us = .ok (.name text, us) :=
        nameRule_of_followedBy text (by decide) (by decide) hus
      rw [hplain [] trivial, hplain us (hR.nil h)]
      exact simulates_ok ⟨rfl, h⟩
  | cons t ts =>
      rcases hR.cons h with ⟨u, us', rfl, halike, hrest⟩
      by_cases hopener : IsOpener t
      · have hopener' : IsOpener u := by
          cases halike with
          | same => exact hopener
          | openers _ hu => exact hu
        rw [nameRule_opener fuel text hopener,
          nameRule_opener fuel text hopener']
        refine (hrules.arguments hrest).bind ?_
        rintro ⟨args, rest⟩ ⟨_, rest'⟩ ⟨rfl, hrest'⟩
        exact simulates_ok ⟨rfl, hrest'⟩
      · cases halike with
        | openers ht _ => exact absurd ht hopener
        | same =>
            rw [nameRule_other hfunction (by simpa using hopener),
              nameRule_other hfunction' (by simpa using hopener)]
            exact simulates_ok ⟨rfl, h⟩

theorem entryRule_follows : Follows R (entryRule (fuel + 1)) := by
  intro ts us h
  rcases hR.barred_or h with hbarred | ⟨t, ts, us, rfl, rfl, hrest⟩
  · rcases entryRule_of_barred (fuel + 1) hbarred with ⟨fault, hfault⟩
    rw [hfault]
    exact simulates_error _ _
  cases hkey : recordKey? t with
  | some key =>
      have hquestion := hR.skipMark (c := '?') (by decide) (by decide) hrest
      have hcolon := hR.skipMark (c := ':') (by decide) (by decide) hquestion
      rw [entryRule_key fuel hkey, entryRule_key fuel hkey,
        hR.startsWith (by decide) (by decide) hrest,
        hR.startsWith (by decide) (by decide) hquestion]
      split
      · refine (hrules.union hcolon).bind ?_
        rintro ⟨value, rest⟩ ⟨_, rest'⟩ ⟨rfl, hrest'⟩
        exact simulates_ok ⟨rfl, hrest'⟩
      · exact simulates_ok ⟨rfl, hquestion⟩
  | none =>
      by_cases hname : exists key ts', t = .mark '[' ∧ ts = .name key :: ts'
      · rcases hname with ⟨key, ts, rfl, rfl⟩
        rcases hR.tail (by simp [IsOpener]) hrest with ⟨us, rfl, hname⟩
        rw [entryRule_name, entryRule_name]
        refine (hR.expect (by decide) hname).bind ?_
        intro ts₁ us₁ h₁
        refine (hrules.union h₁).bind ?_
        rintro ⟨keyType, ts₂⟩ ⟨_, us₂⟩ ⟨rfl, h₂⟩
        refine (hR.expect (by decide) h₂).bind ?_
        intro ts₃ us₃ h₃
        refine (hR.expect (by decide) h₃).bind ?_
        intro ts₄ us₄ h₄
        refine (hrules.union h₄).bind ?_
        rintro ⟨value, rest⟩ ⟨_, rest'⟩ ⟨rfl, hrest'⟩
        exact simulates_ok ⟨rfl, hrest'⟩
      · rcases entryRule_other fuel hkey hname with ⟨fault, hfault⟩
        rw [hfault]
        exact simulates_error _ _

theorem argumentsRule_follows : Follows R (argumentsRule (fuel + 1)) := by
  intro ts us h
  rw [argumentsRule, argumentsRule]
  refine (hrules.union h).bind ?_
  rintro ⟨e, more⟩ ⟨_, more'⟩ ⟨rfl, hmore⟩
  dsimp only
  rw [hR.startsWith (by decide) (by decide) hmore]
  have hcomma := hR.skipMark (c := ',') (by decide) (by decide) hmore
  split
  · refine (hrules.arguments hcomma).bind ?_
    rintro ⟨es, rest⟩ ⟨_, rest'⟩ ⟨rfl, hrest⟩
    exact simulates_ok ⟨rfl, hrest⟩
  · refine (hR.expect (by decide) hmore).bind ?_
    intro rest rest' hrest
    exact simulates_ok ⟨rfl, hrest⟩

theorem recordRule_follows : Follows R (recordRule (fuel + 1)) := by
  intro ts us h
  rw [recordRule, recordRule]
  refine (hrules.entry h).bind ?_
  rintro ⟨entry, more⟩ ⟨_, more'⟩ ⟨rfl, hmore⟩
  dsimp only
  rw [hR.startsWith (by decide) (by decide) hmore]
  split
  · exact simulates_ok ⟨rfl, hR.skipMark (by decide) (by decide) hmore⟩
  · refine (hR.expect (by decide) hmore).bind ?_
    intro next next' hnext
    refine (hrules.record hnext).bind ?_
    rintro ⟨entries, rest⟩ ⟨_, rest'⟩ ⟨rfl, hrest⟩
    exact simulates_ok ⟨rfl, hrest⟩

end Rules

theorem rulesFollow
    (hR : InStep R)
    (fuel : Nat) :
    RulesFollow R fuel := by
  induction fuel with
  | zero => exact rulesFollow_zero
  | succ fuel ih =>
      exact {
        union := unionRule_follows ih
        alternatives := alternatives_follows hR ih
        suffixed := suffixedRule_follows hR ih
        prefixed := prefixedRule_follows hR ih
        primary := primaryRule_follows hR ih
        name := nameRule_follows hR ih
        arguments := argumentsRule_follows hR ih
        record := recordRule_follows hR ih
        entry := entryRule_follows hR ih }

/-!
## The dot before type arguments
-/

/-- The tokens with the dot left out of the chosen `.<`. -/
def undotted (chosen : Nat -> Bool) (ts : List Token) : List Token :=
  ts.mapIdx fun i t => if chosen i ∧ t = .genericOpen then .mark '<' else t

example :
    undotted (· == 3) [.name "a", .genericOpen, .name "b", .genericOpen] =
      [.name "a", .genericOpen, .name "b", .mark '<'] := by
  decide

theorem alike_undotted
    (chosen : Nat -> Bool)
    (ts : List Token) :
    List.Forall₂ Alike ts (undotted chosen ts) := by
  induction ts generalizing chosen with
  | nil => exact List.Forall₂.nil
  | cons t ts ih =>
      unfold undotted
      rw [List.mapIdx_cons]
      refine List.Forall₂.cons ?_ (ih fun i => chosen (i + 1))
      split
      · rename_i h
        exact Alike.openers (Or.inl h.2) (Or.inr rfl)
      · exact Alike.same

theorem Alike.symm
    {t u : Token}
    (h : Alike t u) :
    Alike u t := by
  cases h with
  | same => exact Alike.same
  | openers ht hu => exact Alike.openers hu ht

theorem inStep_forall₂_alike : InStep (List.Forall₂ Alike) where
  nil := by
    rintro _ ⟨⟩
    trivial
  cons := by
    rintro t ts _ (_ | @⟨_, u, _, us, hhead, htail⟩)
    exact ⟨u, us, rfl, hhead, htail⟩

theorem ofTokens_of_alike
    {ts us : List Token} {e : TypeExpr}
    (halike : List.Forall₂ Alike ts us)
    (h : ofTokens ts = .ok e) :
    ofTokens us = .ok e := by
  have hfuel : fuelFor us = fuelFor ts := by
    unfold fuelFor
    rw [halike.length_eq]
  rcases (rulesFollow inStep_forall₂_alike (fuelFor ts)).union halike _
      (ofTokens_eq_ok_iff.mp h) with ⟨⟨_, rest⟩, hread, rfl, hrest⟩
  cases hrest
  rw [ofTokens_eq_ok_iff, hfuel]
  exact hread

/-- The dot of `.<` is immaterial: wherever it is left out, the same tree is
read or nothing is. -/
theorem ofTokens_undotted
    (chosen : Nat -> Bool)
    (ts : List Token) :
    (exists e, ofTokens ts = .ok e ∧ ofTokens (undotted chosen ts) = .ok e) ∨
      exists fault fault', ofTokens ts = .error fault ∧
        fault.isTooDeep = false ∧
        ofTokens (undotted chosen ts) = .error fault' ∧
        fault'.isTooDeep = false := by
  have halike := alike_undotted chosen ts
  cases h : ofTokens ts with
  | ok e => exact Or.inl ⟨e, rfl, ofTokens_of_alike halike h⟩
  | error fault =>
      cases h' : ofTokens (undotted chosen ts) with
      | ok e =>
          -- What is read without the dots is read with them.
          have hread :=
            ofTokens_of_alike (halike.flip.imp fun _ _ => Alike.symm) h'
          rw [h] at hread
          contradiction
      | error fault' =>
          exact Or.inr ⟨fault, fault', rfl, isTooDeep_ofTokens h, rfl,
            isTooDeep_ofTokens h'⟩

end TypeExpr
end Ambient
