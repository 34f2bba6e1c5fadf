import Ambient.Proofs.TypeExpr.Grammar

/-!
# What is parsed is derived

Every rule of the parser that gives a tree follows rules of the grammar.
-/

namespace Ambient
namespace TypeExpr

/-!
## Marks
-/

theorem eq_cons_of_startsWith
    {c : Char} {ts : List Token}
    (h : startsWith c ts = true) :
    ts = .mark c :: skipMark c ts := by
  unfold startsWith at h
  split at h
  · rename_i d rest
    have hd : d = c := by simpa using h
    subst hd
    simp [skipMark]
  · contradiction

theorem eq_cons_of_expect
    {c : Char} {ts rest : List Token}
    (h : expect c ts = .ok rest) :
    ts = .mark c :: rest := by
  unfold expect at h
  split at h
  · split at h
    · rename_i heq
      cases h
      rw [heq]
    · contradiction
  · contradiction

theorem endsUnknown_iff
    {ts : List Token} :
    endsUnknown ts = true ↔ FollowedBy unknownFollowers ts := by
  cases ts with
  | nil => simp [endsUnknown, FollowedBy]
  | cons t ts => cases t <;> simp [endsUnknown, FollowedBy, unknownFollowers]

/-!
## Suffixes
-/

theorem arrays_derives
    {e e' : TypeExpr} {ts rest : List Token}
    (h : arrays e ts = .ok (e', rest)) :
    exists n, ts = SuffixMark.spell (List.replicate n .brackets) ++ rest ∧
      e' = arrayOf n e := by
  induction e, ts using arrays.induct with
  | case1 e ts ih =>
      rw [arrays] at h
      rcases ih h with ⟨n, hts, he⟩
      refine ⟨n + 1, ?_, he⟩
      rw [List.replicate_succ, SuffixMark.spell_cons, List.append_assoc, ← hts]
      rfl
  | case2 e ts hclose =>
      rw [arrays] at h
      · contradiction
      · exact hclose
  | case3 e ts hopen hother =>
      rw [arrays] at h
      · cases h
        exact ⟨0, rfl, rfl⟩
      · exact hopen
      · exact hother

theorem skipMark_equals
    (ts : List Token) :
    exists optional : Bool, ts =
      SuffixMark.spell (if optional then [.equals] else []) ++
        skipMark '=' ts := by
  cases hstart : startsWith '=' ts with
  | true => exact ⟨true, eq_cons_of_startsWith hstart⟩
  | false => exact ⟨false, (skipMark_of_startsWith hstart).symm⟩

theorem markers_derives
    (e : TypeExpr) (ts : List Token) :
    exists (nullness : Nullness) (optional : Bool),
      ts = SuffixMark.spell
          (nullness.marks ++ if optional then [.equals] else []) ++
        (markers e ts).2 ∧ (markers e ts).1 = nullness.apply e := by
  unfold markers
  split
  · rename_i hquestion
    rcases skipMark_equals (skipMark '?' ts) with ⟨optional, hequals⟩
    refine ⟨.nullable, optional, ?_, rfl⟩
    rw [SuffixMark.spell_append, List.append_assoc, ← hequals]
    exact eq_cons_of_startsWith hquestion
  · rcases skipMark_equals (skipMark '!' ts) with ⟨optional, hequals⟩
    cases hbang : startsWith '!' ts with
    | true =>
        refine ⟨.nonNull, optional, ?_, rfl⟩
        rw [SuffixMark.spell_append, List.append_assoc, ← hequals]
        exact eq_cons_of_startsWith hbang
    | false =>
        refine ⟨.unsaid, optional, ?_, rfl⟩
        rw [SuffixMark.spell_append, List.append_assoc, ← hequals]
        exact (skipMark_of_startsWith hbang).symm

/-!
## Rules

The descent is by fuel: what each rule derives is assumed of all rules with less
fuel.
-/

/-- Whatever a rule gives is derived as a phrase of one sort. -/
def RuleDerives {α : Type} (phrase : α -> Phrase)
    (rule : List Token -> Except SyntaxError (α × List Token)) : Prop :=
  forall {ts : List Token} {a : α} {rest : List Token},
    rule ts = .ok (a, rest) -> Derives (phrase a) ts rest

/-- What the rules derive with some fuel.  Only the rule for further
alternatives may give nothing, and the rule for what follows a name needs the
name. -/
structure RulesDerive (fuel : Nat) : Prop where
  union : RuleDerives .union (unionRule fuel)
  alternatives : forall {ts es rest}, alternatives fuel ts = .ok (es, rest) ->
    (es = [] ∧ rest = ts) ∨ Derives (.alternatives es) ts rest
  suffixed : RuleDerives .suffixed (suffixedRule fuel)
  prefixed : RuleDerives .prefixed (prefixedRule fuel)
  primary : RuleDerives .primary (primaryRule fuel)
  name : forall {text ts e rest}, nameRule fuel text ts = .ok (e, rest) ->
    Derives (.primary e) (.name text :: ts) rest
  arguments : RuleDerives .arguments (argumentsRule fuel)
  entries : RuleDerives .entries (recordRule fuel)
  entry : RuleDerives .entry (entryRule fuel)

theorem rulesDerive_zero : RulesDerive 0 := by
  constructor <;> intro ts a rest <;> intros <;> contradiction

section Step

variable {fuel : Nat} (hrules : RulesDerive fuel)

include hrules

theorem unionRule_derives : RuleDerives .union (unionRule (fuel + 1)) := by
  intro ts e rest h
  rw [unionRule] at h
  rcases bind_eq_ok h with ⟨⟨first, more⟩, hfirst, h⟩
  rcases bind_eq_ok h with ⟨⟨others, rest'⟩, hothers, h⟩
  have hsuffixed := hrules.suffixed hfirst
  cases h
  rcases hrules.alternatives hothers with ⟨rfl, rfl⟩ | hmore
  · exact .single hsuffixed
  · cases others with
    | nil => cases hmore
    | cons second others => exact .union hsuffixed hmore

theorem alternatives_derives
    {ts : List Token} {es : List TypeExpr} {rest : List Token}
    (h : alternatives (fuel + 1) ts = .ok (es, rest)) :
    (es = [] ∧ rest = ts) ∨ Derives (.alternatives es) ts rest := by
  rw [alternatives] at h
  split at h
  · rename_i hbar
    right
    rcases bind_eq_ok h with ⟨⟨e, more⟩, hfirst, h⟩
    rcases bind_eq_ok h with ⟨⟨others, rest'⟩, hothers, h⟩
    have hsuffixed := hrules.suffixed hfirst
    cases h
    rw [eq_cons_of_startsWith hbar]
    rcases hrules.alternatives hothers with ⟨rfl, rfl⟩ | hmore
    · exact .lastAlternative hsuffixed
    · exact .moreAlternatives hsuffixed hmore
  · left
    cases h
    exact ⟨rfl, rfl⟩

theorem suffixedRule_derives :
    RuleDerives .suffixed (suffixedRule (fuel + 1)) := by
  intro ts e rest h
  rw [suffixedRule] at h
  rcases bind_eq_ok h with ⟨⟨core, more⟩, hcore, h⟩
  rcases bind_eq_ok h with ⟨⟨array, more'⟩, harray, h⟩
  have hprefixed := hrules.prefixed hcore
  rcases arrays_derives harray with ⟨n, hmore, rfl⟩
  rcases markers_derives (arrayOf n core) more' with
    ⟨nullness, optional, hmore', happly⟩
  have hmarkers : markers (arrayOf n core) more' = (e, rest) := Except.ok.inj h
  rw [hmarkers] at hmore' happly
  have hspell : more =
      SuffixMark.spell (Suffix.marks ⟨n, nullness, optional⟩) ++ rest := by
    rw [Suffix.marks, SuffixMark.spell_append, List.append_assoc, ← hmore']
    exact hmore
  rw [show e = Suffix.apply ⟨n, nullness, optional⟩ core from happly]
  rw [hspell] at hprefixed
  exact .suffixed _ hprefixed

theorem prefixedRule_derives :
    RuleDerives .prefixed (prefixedRule (fuel + 1)) := by
  intro ts e rest h
  unfold prefixedRule at h
  split at h
  · split at h
    · rename_i hnext
      cases h
      exact .unknown (endsUnknown_iff.mp hnext)
    · rename_i hnext
      rcases bind_eq_ok h with ⟨⟨inner, rest'⟩, hinner, h⟩
      cases h
      exact .nullable (mt endsUnknown_iff.mpr hnext) (hrules.prefixed hinner)
  · exact .nonNull (hrules.prefixed h)
  · exact .repeated (hrules.prefixed h)
  · exact .bare (hrules.primary h)

theorem primaryRule_derives :
    RuleDerives .primary (primaryRule (fuel + 1)) := by
  intro ts e rest h
  unfold primaryRule at h
  split at h
  · rcases bind_eq_ok h with ⟨⟨inner, more⟩, hinner, h⟩
    rcases bind_eq_ok h with ⟨rest', hclose, h⟩
    have hunion := hrules.union hinner
    cases h
    rw [eq_cons_of_expect hclose] at hunion
    exact .group hunion
  · cases h
    exact .star
  · split at h
    · rename_i hclose
      cases h
      rw [eq_cons_of_startsWith hclose]
      exact .emptyRecord
    · rcases bind_eq_ok h with ⟨⟨entries, rest'⟩, hentries, h⟩
      cases h
      exact .record (hrules.entries hentries)
  · contradiction
  · cases h
    exact .quoted
  · cases h
    exact .number
  · exact hrules.name h
  · contradiction
  · contradiction

theorem nameRule_derives
    {text : String} {ts : List Token} {e : TypeExpr} {rest : List Token}
    (h : nameRule (fuel + 1) text ts = .ok (e, rest)) :
    Derives (.primary e) (.name text :: ts) rest := by
  unfold nameRule at h
  split at h
  · rename_i hfunction
    rcases hfunction with ⟨rfl, hopen⟩
    rcases bind_eq_ok h with ⟨more, hskip, h⟩
    rcases skipSignature_iff.mp hskip with ⟨sig, hmore, hsig⟩
    rw [eq_cons_of_startsWith hopen, hmore]
    split at h
    · rename_i hcolon
      rcases bind_eq_ok h with ⟨⟨result, rest'⟩, hresult, h⟩
      have hsuffixed := hrules.suffixed hresult
      cases h
      rw [eq_cons_of_startsWith hcolon]
      exact .returning hsig hsuffixed
    · cases h
      exact .function hsig
  · split at h
    · rcases bind_eq_ok h with ⟨⟨args, rest'⟩, hargs, h⟩
      cases h
      exact .generic (Or.inl rfl) (hrules.arguments hargs)
    · rcases bind_eq_ok h with ⟨⟨args, rest'⟩, hargs, h⟩
      cases h
      exact .generic (Or.inr rfl) (hrules.arguments hargs)
    · cases h
      exact .name

theorem argumentsRule_derives :
    RuleDerives .arguments (argumentsRule (fuel + 1)) := by
  intro ts es rest h
  rw [argumentsRule] at h
  rcases bind_eq_ok h with ⟨⟨e, more⟩, hfirst, h⟩
  have hunion := hrules.union hfirst
  dsimp only at h
  split at h
  · rename_i hcomma
    rcases bind_eq_ok h with ⟨⟨others, rest'⟩, hothers, h⟩
    cases h
    rw [eq_cons_of_startsWith hcomma] at hunion
    exact .moreArguments hunion (hrules.arguments hothers)
  · rcases bind_eq_ok h with ⟨rest', hclose, h⟩
    cases h
    rw [eq_cons_of_expect hclose] at hunion
    exact .lastArgument hunion

theorem recordRule_derives : RuleDerives .entries (recordRule (fuel + 1)) := by
  intro ts entries rest h
  rw [recordRule] at h
  rcases bind_eq_ok h with ⟨⟨entry, more⟩, hfirst, h⟩
  have hentry := hrules.entry hfirst
  dsimp only at h
  split at h
  · rename_i hclose
    cases h
    rw [eq_cons_of_startsWith hclose] at hentry
    exact .lastEntry hentry
  · rcases bind_eq_ok h with ⟨more', hcomma, h⟩
    rcases bind_eq_ok h with ⟨⟨others, rest'⟩, hothers, h⟩
    cases h
    rw [eq_cons_of_expect hcomma] at hentry
    exact .moreEntries hentry (hrules.entries hothers)

theorem entryRule_derives : RuleDerives .entry (entryRule (fuel + 1)) := by
  intro ts entry rest h
  unfold entryRule at h
  split at h
  · split at h
    · rcases bind_eq_ok h with ⟨ts1, hcolon, h⟩
      rcases bind_eq_ok h with ⟨⟨keyType, ts2⟩, hkeyType, h⟩
      rcases bind_eq_ok h with ⟨ts3, hclose, h⟩
      rcases bind_eq_ok h with ⟨ts4, hcolon', h⟩
      rcases bind_eq_ok h with ⟨⟨value, rest'⟩, hvalue, h⟩
      have hunion := hrules.union hkeyType
      cases h
      rw [eq_cons_of_expect hclose, eq_cons_of_expect hcolon'] at hunion
      rw [eq_cons_of_expect hcolon]
      exact .index hunion (hrules.union hvalue)
    · contradiction
  · contradiction
  · rename_i t ts _
    split at h
    · contradiction
    · rename_i key hkey
      have hoptional : ts = optionalMark (startsWith '?' ts) ++
          skipMark '?' ts := by
        cases hquestion : startsWith '?' ts with
        | true => exact eq_cons_of_startsWith hquestion
        | false => exact (skipMark_of_startsWith hquestion).symm
      dsimp only at h
      split at h
      · rename_i hcolon
        rcases bind_eq_ok h with ⟨⟨value, rest'⟩, hvalue, h⟩
        have hunion := hrules.union hvalue
        cases h
        rw [eq_cons_of_startsWith hcolon] at hoptional
        nth_rewrite 2 [hoptional]
        exact .field _ hkey hunion
      · cases h
        nth_rewrite 2 [hoptional]
        exact .bareKey _ hkey

end Step

theorem rulesDerive (fuel : Nat) : RulesDerive fuel := by
  induction fuel with
  | zero => exact rulesDerive_zero
  | succ fuel ih =>
      exact {
        union := unionRule_derives ih
        alternatives := alternatives_derives ih
        suffixed := suffixedRule_derives ih
        prefixed := prefixedRule_derives ih
        primary := primaryRule_derives ih
        name := nameRule_derives ih
        arguments := argumentsRule_derives ih
        entries := recordRule_derives ih
        entry := entryRule_derives ih }

theorem ofTokens_derives
    {ts : List Token} {e : TypeExpr}
    (h : ofTokens ts = .ok e) :
    Derives (.union e) ts [] :=
  (rulesDerive (fuelFor ts)).union (ofTokens_eq_ok_iff.mp h)

end TypeExpr
end Ambient
