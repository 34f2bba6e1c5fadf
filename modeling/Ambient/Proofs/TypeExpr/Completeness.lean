import Ambient.Proofs.TypeExpr.Soundness

/-!
# What is derived is parsed

Where the grammar leaves a choice the parser takes what it can: the marks after
a function type go to the type that it returns.  No text is lost that way.  A
phrase that takes more than a derivation gives to it takes marks of a suffix,
and what is left of a suffix is a suffix.
-/

namespace Ambient
namespace TypeExpr

open SuffixMark (spell)

/-!
## Suffixes taken as far as they go
-/

def afterNullness : List SuffixMark -> List SuffixMark
  | .question :: ms => ms
  | .bang :: ms => ms
  | ms => ms

def afterEquals : List SuffixMark -> List SuffixMark
  | .equals :: ms => ms
  | ms => ms

def isBrackets (m : SuffixMark) : Bool := m = .brackets

/-- The marks behind the longest suffix that some marks start with. -/
def afterSuffix (ms : List SuffixMark) : List SuffixMark :=
  afterEquals (afterNullness (ms.dropWhile isBrackets))

theorem afterNullness_suffix (ms : List SuffixMark) :
    afterNullness ms <:+ ms := by
  unfold afterNullness
  split
  · exact List.suffix_cons _ _
  · exact List.suffix_cons _ _
  · exact List.suffix_refl _

theorem afterEquals_suffix (ms : List SuffixMark) : afterEquals ms <:+ ms := by
  unfold afterEquals
  split
  · exact List.suffix_cons _ _
  · exact List.suffix_refl _

theorem dropWhile_isBrackets_suffix
    {n : Nat} {ns ms : List SuffixMark}
    (h : ns <:+ List.replicate n .brackets ++ ms) :
    ns.dropWhile isBrackets <:+ ms := by
  induction n generalizing ns with
  | zero => exact (List.dropWhile_suffix isBrackets).trans h
  | succ n ih =>
      rw [List.replicate_succ, List.cons_append] at h
      rcases List.suffix_cons_iff.mp h with rfl | hshort
      · rw [List.dropWhile_cons_of_pos rfl]
        exact ih (List.suffix_refl _)
      · exact ih hshort

theorem afterNullness_suffix_of_marks
    {nullness : Nullness} {ns ms : List SuffixMark}
    (h : ns <:+ nullness.marks ++ ms) :
    afterNullness ns <:+ ms := by
  cases nullness with
  | unsaid => exact (afterNullness_suffix ns).trans h
  | nullable =>
      rcases List.suffix_cons_iff.mp h with rfl | hshort
      · exact List.suffix_refl _
      · exact (afterNullness_suffix ns).trans hshort
  | nonNull =>
      rcases List.suffix_cons_iff.mp h with rfl | hshort
      · exact List.suffix_refl _
      · exact (afterNullness_suffix ns).trans hshort

theorem afterEquals_suffix_of_optional
    {optional : Bool} {ns ms : List SuffixMark}
    (h : ns <:+ (if optional then [.equals] else []) ++ ms) :
    afterEquals ns <:+ ms := by
  cases optional with
  | false => exact (afterEquals_suffix ns).trans h
  | true =>
      rcases List.suffix_cons_iff.mp h with rfl | hshort
      · exact List.suffix_refl _
      · exact (afterEquals_suffix ns).trans hshort

/-- Of a suffix and further marks, also when some are missing in front, nothing
of the suffix is left behind. -/
theorem afterSuffix_suffix
    {suffix : Suffix} {ns ms : List SuffixMark}
    (h : ns <:+ suffix.marks ++ ms) :
    afterSuffix ns <:+ ms := by
  rw [Suffix.marks, List.append_assoc, List.append_assoc] at h
  have hbrackets := dropWhile_isBrackets_suffix h
  have hnullness := afterNullness_suffix_of_marks hbrackets
  exact afterEquals_suffix_of_optional hnullness

/-!
## Reading suffixes
-/

/-- The marks that a suffix starts with. -/
def suffixStarts : List Char := ['[', '?', '!', '=']

section Reading

variable {more : List Token} (hmore : FollowedBy ('|' :: closers) more)

include hmore

theorem followedBy_spell
    (ms : List SuffixMark) :
    FollowedBy (suffixStarts ++ '|' :: closers) (spell ms ++ more) := by
  cases ms with
  | nil => exact hmore.mono (List.subset_append_right _ _)
  | cons m ms => cases m <;> exact followedBy_mark (by decide) _

theorem arrays_spell
    (e : TypeExpr) (ms : List SuffixMark) :
    exists e', arrays e (spell ms ++ more) =
      .ok (e', spell (ms.dropWhile isBrackets) ++ more) := by
  induction ms generalizing e with
  | nil =>
      exact ⟨e,
        arrays_of_startsWith e (startsWith_of_followedBy hmore (by decide))⟩
  | cons m ms ih =>
      cases m with
      | brackets =>
          rcases ih (.array e) with ⟨e', he'⟩
          refine ⟨e', ?_⟩
          rw [List.dropWhile_cons_of_pos rfl, ← he']
          exact arrays.eq_1 e (spell ms ++ more)
      | question => exact ⟨e, arrays_of_startsWith e rfl⟩
      | bang => exact ⟨e, arrays_of_startsWith e rfl⟩
      | equals => exact ⟨e, arrays_of_startsWith e rfl⟩

theorem skipMark_equals_spell
    (ms : List SuffixMark) :
    skipMark '=' (spell ms ++ more) = spell (afterEquals ms) ++ more := by
  cases ms with
  | nil =>
      exact skipMark_of_startsWith (startsWith_of_followedBy hmore (by decide))
  | cons m ms => cases m <;> rfl

theorem markers_spell
    (e : TypeExpr) (ms : List SuffixMark) :
    exists e', markers e (spell ms ++ more) =
      (e', spell (afterEquals (afterNullness ms)) ++ more) := by
  cases ms with
  | nil => exact ⟨e, markers_of_followedBy e hmore⟩
  | cons m ms =>
      cases m with
      | brackets => exact ⟨e, rfl⟩
      | question =>
          exact ⟨.nullable e,
            congrArg (Prod.mk _) (skipMark_equals_spell hmore ms)⟩
      | bang => exact ⟨e, congrArg (Prod.mk _) (skipMark_equals_spell hmore ms)⟩
      | equals => exact ⟨e, rfl⟩

end Reading

/-!
## Rules

A rule for a part of an alternative is judged by what it leaves of the marks
behind the part, and every other rule by whether it gives a tree.
-/

/-- Of the suffix marks behind a phrase some may be taken, from the first one
on, and no more. -/
def TakesUpTo (rest : List Token)
    (result : Except SyntaxError (TypeExpr × List Token)) : Prop :=
  forall ms more, rest = spell ms ++ more -> FollowedBy ('|' :: closers) more ->
    exists e ns, ns <:+ ms ∧ result = .ok (e, spell ns ++ more)

/-- A rule with enough fuel gives a tree for a phrase before some tokens. -/
def Parses : Phrase -> List Token -> List Token -> Prop
  | .union _, ts, rest =>
      forall fuel, 8 * ts.length + 4 ≤ fuel -> FollowedBy closers rest ->
      exists e, unionRule fuel ts = .ok (e, rest)
  | .alternatives _, ts, rest => startsWith '|' ts = true ∧
      forall fuel, 8 * ts.length + 1 ≤ fuel -> FollowedBy closers rest ->
        exists es, alternatives fuel ts = .ok (es, rest)
  | .suffixed _, ts, rest => forall fuel, 8 * ts.length + 3 ≤ fuel ->
      TakesUpTo rest (suffixedRule fuel ts)
  | .prefixed _, ts, rest => forall fuel, 8 * ts.length + 2 ≤ fuel ->
      TakesUpTo rest (prefixedRule fuel ts)
  | .primary _, ts, rest => forall fuel, 8 * ts.length + 2 ≤ fuel ->
      TakesUpTo rest (prefixedRule fuel ts)
  | .arguments _, ts, rest => forall fuel, 8 * ts.length + 5 ≤ fuel ->
      exists es, argumentsRule fuel ts = .ok (es, rest)
  | .entries _, ts, rest => startsWith '}' ts = false ∧
      forall fuel, 8 * ts.length + 2 ≤ fuel ->
        exists entries, recordRule fuel ts = .ok (entries, rest)
  | .entry _, ts, rest => startsWith '}' ts = false ∧
      forall fuel, 8 * ts.length + 1 ≤ fuel -> FollowedBy [',', '}'] rest ->
        exists entry, entryRule fuel ts = .ok (entry, rest)

theorem takesUpTo_of_followedBy
    {rest : List Token} {result : Except SyntaxError (TypeExpr × List Token)}
    (e : TypeExpr)
    (h : FollowedBy (suffixStarts ++ '|' :: closers) rest ->
      result = .ok (e, rest)) :
    TakesUpTo rest result := by
  rintro ms more rfl hmore
  exact ⟨e, ms, List.suffix_refl ms, h (followedBy_spell hmore ms)⟩

theorem TakesUpTo.whole
    {rest : List Token} {result : Except SyntaxError (TypeExpr × List Token)}
    (h : TakesUpTo rest result)
    (hrest : FollowedBy ('|' :: closers) rest) :
    exists e, result = .ok (e, rest) := by
  rcases h [] rest rfl hrest with ⟨e, ns, hns, hresult⟩
  rw [List.suffix_nil.mp hns] at hresult
  exact ⟨e, hresult⟩

theorem TakesUpTo.map
    {rest : List Token} {result : Except SyntaxError (TypeExpr × List Token)}
    (f : TypeExpr -> TypeExpr)
    (h : TakesUpTo rest result) :
    TakesUpTo rest (result >>= fun parsed => .ok (f parsed.1, parsed.2)) := by
  intro ms more hrest hmore
  rcases h ms more hrest hmore with ⟨e, ns, hns, hresult⟩
  exact ⟨f e, ns, hns, by rw [hresult]; rfl⟩

theorem nameRule_signature
    {fuel : Nat} {sig : List Token}
    (hsig : ClosesOff 1 sig)
    (rest : List Token) :
    nameRule (fuel + 1) "function" (.mark '(' :: (sig ++ rest)) =
      if startsWith ':' rest then
        suffixedRule fuel (skipMark ':' rest) >>= fun parsed =>
          .ok (.function, parsed.2)
      else .ok (.function, rest) := by
  have hskip : skipSignature 1 (skipMark '(' (.mark '(' :: (sig ++ rest))) =
      .ok rest :=
    skipSignature_iff.mpr ⟨sig, rfl, hsig⟩
  unfold nameRule
  rw [if_pos ⟨rfl, rfl⟩, hskip]
  rfl

theorem followedBy_of_startsWith
    {marks : List Char} {c : Char} {ts : List Token}
    (h : startsWith c ts = true)
    (hc : c ∈ marks) :
    FollowedBy marks ts := by
  rw [eq_cons_of_startsWith h]
  exact followedBy_mark hc _

theorem startsWith_of_recordKey
    {t : Token} {key : String}
    (h : recordKey? t = some key)
    (c : Char) (ts : List Token) :
    startsWith c (t :: ts) = false := by
  cases t with
  | mark d => contradiction
  | _ => rfl

theorem entryRule_bare
    {fuel : Nat} {t : Token} {key : String} {rest : List Token}
    (optional : Bool)
    (hkey : recordKey? t = some key)
    (hrest : FollowedBy [',', '}'] rest) :
    entryRule (fuel + 1) (t :: (optionalMark optional ++ rest)) =
      .ok (.bare key optional, rest) := by
  have hquestion := startsWith_of_followedBy (c := '?') hrest (by decide)
  have hcolon := startsWith_of_followedBy (c := ':') hrest (by decide)
  have hstart : startsWith '?' (optionalMark optional ++ rest) = optional := by
    cases optional with
    | true => rfl
    | false => exact hquestion
  have hskip : skipMark '?' (optionalMark optional ++ rest) = rest := by
    cases optional with
    | true => rfl
    | false => exact skipMark_of_startsWith hquestion
  unfold entryRule
  split
  · rename_i heq
    cases heq
    contradiction
  · contradiction
  · rename_i heq
    cases heq
    simp only [hkey, hstart, hskip, hcolon, Bool.false_eq_true, if_false]

/-- The rules about a phrase, one for each way to derive it. -/
theorem parses_of_derives
    {phrase : Phrase} {ts rest : List Token}
    (h : Derives phrase ts rest) :
    Parses phrase ts rest := by
  induction h with
  | single h ih =>
      intro fuel hfuel hrest
      obtain ⟨f, rfl⟩ : exists f, fuel = f + 2 := ⟨fuel - 2, by omega⟩
      rcases (ih (f + 1) (by omega)).whole (hrest.mono (by decide)) with ⟨e, he⟩
      refine ⟨e, ?_⟩
      simp only [unionRule, he, ok_bind, alternatives_of_followedBy hrest]
      rfl
  | union hfirst hothers ihfirst ihothers =>
      intro fuel hfuel hrest
      have hlength := hfirst.length_lt
      obtain ⟨f, rfl⟩ : exists f, fuel = f + 1 := ⟨fuel - 1, by omega⟩
      rcases (ihfirst f (by omega)).whole
        (followedBy_of_startsWith ihothers.1 (by decide))
        with ⟨e, he⟩
      rcases ihothers.2 f (by omega) hrest with ⟨es, hes⟩
      rw [unionRule, he, ok_bind]
      dsimp only
      rw [hes]
      exact ⟨_, rfl⟩
  | lastAlternative h ih =>
      refine ⟨rfl, ?_⟩
      intro fuel hfuel hrest
      rw [List.length_cons] at hfuel
      obtain ⟨f, rfl⟩ : exists f, fuel = f + 2 := ⟨fuel - 2, by omega⟩
      rcases (ih (f + 1) (by omega)).whole (hrest.mono (by decide)) with ⟨e, he⟩
      exact ⟨[e], alternatives_more he (alternatives_of_followedBy hrest)⟩
  | moreAlternatives hfirst hothers ihfirst ihothers =>
      refine ⟨rfl, ?_⟩
      intro fuel hfuel hrest
      have hlength := hfirst.length_lt
      rw [List.length_cons] at hfuel
      obtain ⟨f, rfl⟩ : exists f, fuel = f + 1 := ⟨fuel - 1, by omega⟩
      rcases (ihfirst f (by omega)).whole
        (followedBy_of_startsWith ihothers.1 (by decide))
        with ⟨e, he⟩
      rcases ihothers.2 f (by omega) hrest with ⟨es, hes⟩
      exact ⟨e :: es, alternatives_more he hes⟩
  | suffixed suffix h ih =>
      -- what the inner rule took of the suffix is missing in front, and the
      -- rest of it goes here
      rintro fuel hfuel ms more rfl hmore
      obtain ⟨f, rfl⟩ : exists f, fuel = f + 1 := ⟨fuel - 1, by omega⟩
      rcases ih f (by omega) (suffix.marks ++ ms) more (by simp) hmore with
        ⟨e, ns, hns, he⟩
      rcases arrays_spell hmore e ns with ⟨array, harray⟩
      rcases markers_spell hmore array (ns.dropWhile isBrackets) with
        ⟨e', hmarkers⟩
      refine ⟨e', afterSuffix ns, afterSuffix_suffix hns, ?_⟩
      simp only [suffixedRule, he, ok_bind, harray, hmarkers]
      rfl
  | unknown hrest =>
      intro fuel hfuel
      obtain ⟨f, rfl⟩ : exists f, fuel = f + 1 := ⟨fuel - 1, by omega⟩
      apply takesUpTo_of_followedBy .any
      intro _
      rw [prefixedRule, if_pos (endsUnknown_iff.mpr hrest)]
  | nullable hnext h ih =>
      intro fuel hfuel
      rw [List.length_cons] at hfuel
      obtain ⟨f, rfl⟩ : exists f, fuel = f + 1 := ⟨fuel - 1, by omega⟩
      rw [prefixedRule, if_neg (mt endsUnknown_iff.mp hnext)]
      exact (ih f (by omega)).map .nullable
  | nonNull h ih =>
      intro fuel hfuel
      rw [List.length_cons] at hfuel
      obtain ⟨f, rfl⟩ : exists f, fuel = f + 1 := ⟨fuel - 1, by omega⟩
      exact ih f (by omega)
  | repeated h ih =>
      intro fuel hfuel
      rw [List.length_cons] at hfuel
      obtain ⟨f, rfl⟩ : exists f, fuel = f + 1 := ⟨fuel - 1, by omega⟩
      exact ih f (by omega)
  | bare h ih => exact ih
  | group h ih =>
      intro fuel hfuel
      rw [List.length_cons] at hfuel
      obtain ⟨f, rfl⟩ : exists f, fuel = f + 2 := ⟨fuel - 2, by omega⟩
      rcases ih f (by omega) (followedBy_mark (by decide) _) with ⟨e, he⟩
      exact takesUpTo_of_followedBy e fun _ => prefixedRule_group he
  | star =>
      intro fuel hfuel
      obtain ⟨f, rfl⟩ : exists f, fuel = f + 2 := ⟨fuel - 2, by omega⟩
      exact takesUpTo_of_followedBy .any fun _ => rfl
  | quoted =>
      intro fuel hfuel
      obtain ⟨f, rfl⟩ : exists f, fuel = f + 2 := ⟨fuel - 2, by omega⟩
      exact takesUpTo_of_followedBy _ fun _ => rfl
  | number =>
      intro fuel hfuel
      obtain ⟨f, rfl⟩ : exists f, fuel = f + 2 := ⟨fuel - 2, by omega⟩
      exact takesUpTo_of_followedBy _ fun _ => rfl
  | emptyRecord =>
      intro fuel hfuel
      obtain ⟨f, rfl⟩ : exists f, fuel = f + 2 := ⟨fuel - 2, by omega⟩
      exact takesUpTo_of_followedBy _ fun _ => rfl
  | record h ih =>
      intro fuel hfuel
      rw [List.length_cons] at hfuel
      obtain ⟨f, rfl⟩ : exists f, fuel = f + 2 := ⟨fuel - 2, by omega⟩
      rcases ih.2 f (by omega) with ⟨entries, hentries⟩
      exact takesUpTo_of_followedBy _ fun _ => prefixedRule_record ih.1 hentries
  | function hsig =>
      intro fuel hfuel
      rw [List.length_cons] at hfuel
      obtain ⟨f, rfl⟩ : exists f, fuel = f + 3 := ⟨fuel - 3, by omega⟩
      apply takesUpTo_of_followedBy .function
      intro hrest
      rw [prefixedRule_name, nameRule_signature hsig,
        startsWith_of_followedBy hrest (by decide)]
      rfl
  | returning hsig h ih =>
      intro fuel hfuel
      simp only [List.length_cons, List.length_append] at hfuel
      obtain ⟨f, rfl⟩ : exists f, fuel = f + 3 := ⟨fuel - 3, by omega⟩
      rw [prefixedRule_name, nameRule_signature hsig]
      exact (ih f (by omega)).map fun _ => .function
  | @name text rest =>
      intro fuel hfuel
      rw [List.length_cons] at hfuel
      obtain ⟨f, rfl⟩ : exists f, fuel = f + 3 := ⟨fuel - 3, by omega⟩
      exact takesUpTo_of_followedBy (.name text) fun hrest =>
        nameRule_of_followedBy text (by decide) (by decide) hrest
  | generic hopener h ih =>
      intro fuel hfuel
      simp only [List.length_cons] at hfuel
      obtain ⟨f, rfl⟩ : exists f, fuel = f + 3 := ⟨fuel - 3, by omega⟩
      rcases ih f (by omega) with ⟨args, hargs⟩
      exact takesUpTo_of_followedBy _ fun _ =>
        prefixedRule_generic _ hopener hargs
  | lastArgument h ih =>
      intro fuel hfuel
      obtain ⟨f, rfl⟩ : exists f, fuel = f + 1 := ⟨fuel - 1, by omega⟩
      rcases ih f (by omega) (followedBy_mark (by decide) _) with ⟨e, he⟩
      exact ⟨[e], argumentsRule_last he⟩
  | moreArguments hfirst hothers ihfirst ihothers =>
      intro fuel hfuel
      have hlength := hfirst.length_lt
      rw [List.length_cons] at hlength
      obtain ⟨f, rfl⟩ : exists f, fuel = f + 1 := ⟨fuel - 1, by omega⟩
      rcases ihfirst f (by omega) (followedBy_mark (by decide) _) with ⟨e, he⟩
      rcases ihothers f (by omega) with ⟨es, hes⟩
      exact ⟨e :: es, argumentsRule_more he hes⟩
  | lastEntry h ih =>
      refine ⟨ih.1, ?_⟩
      intro fuel hfuel
      obtain ⟨f, rfl⟩ : exists f, fuel = f + 1 := ⟨fuel - 1, by omega⟩
      rcases ih.2 f (by omega) (followedBy_mark (by decide) _) with
        ⟨entry, hentry⟩
      exact ⟨[entry], recordRule_last hentry⟩
  | moreEntries hfirst hothers ihfirst ihothers =>
      refine ⟨ihfirst.1, ?_⟩
      intro fuel hfuel
      have hlength := hfirst.length_lt
      rw [List.length_cons] at hlength
      obtain ⟨f, rfl⟩ : exists f, fuel = f + 1 := ⟨fuel - 1, by omega⟩
      rcases ihfirst.2 f (by omega) (followedBy_mark (by decide) _) with
        ⟨entry, hentry⟩
      rcases ihothers.2 f (by omega) with ⟨entries, hentries⟩
      exact ⟨entry :: entries, recordRule_more hentry hentries⟩
  | bareKey optional hkey =>
      refine ⟨startsWith_of_recordKey hkey _ _, ?_⟩
      intro fuel hfuel hrest
      obtain ⟨f, rfl⟩ : exists f, fuel = f + 1 := ⟨fuel - 1, by omega⟩
      exact ⟨_, entryRule_bare optional hkey hrest⟩
  | field optional hkey h ih =>
      refine ⟨startsWith_of_recordKey hkey _ _, ?_⟩
      intro fuel hfuel hrest
      simp only [List.length_cons, List.length_append] at hfuel
      obtain ⟨f, rfl⟩ : exists f, fuel = f + 1 := ⟨fuel - 1, by omega⟩
      rcases ih f (by omega) (hrest.mono (by decide)) with ⟨value, hvalue⟩
      exact ⟨_, entryRule_field hkey hvalue⟩
  | index hkeyType hvalue ihkeyType ihvalue =>
      refine ⟨rfl, ?_⟩
      intro fuel hfuel hrest
      have hlength := hkeyType.length_lt
      simp only [List.length_cons] at hfuel hlength
      obtain ⟨f, rfl⟩ : exists f, fuel = f + 1 := ⟨fuel - 1, by omega⟩
      rcases ihkeyType f (by omega) (followedBy_mark (by decide) _) with
        ⟨keyType, hkeyType⟩
      rcases ihvalue f (by omega) (hrest.mono (by decide)) with ⟨value, hvalue⟩
      exact ⟨_, entryRule_index hkeyType hvalue⟩

theorem exists_ofTokens_of_derives
    {e : TypeExpr} {ts : List Token}
    (h : Derives (.union e) ts []) :
    exists e', ofTokens ts = .ok e' := by
  have hfuel : 8 * ts.length + 4 ≤ fuelFor ts := by
    rw [fuelFor]
    omega
  rcases parses_of_derives h (fuelFor ts) hfuel trivial with ⟨e', he'⟩
  exact ⟨e', ofTokens_eq_ok_iff.mpr he'⟩

/-- Exactly the derivable lists of tokens are parsed, each to a tree that it is
derived with. -/
theorem ofTokens_sound_and_complete
    (ts : List Token) :
    (forall e, ofTokens ts = .ok e -> Derives (.union e) ts []) ∧
      forall e, Derives (.union e) ts [] ->
        exists e', ofTokens ts = .ok e' := by
  constructor
  · intro e h
    exact ofTokens_derives h
  · intro e h
    exact exists_ofTokens_of_derives h

/-- The mark after a returned type may also be derived as the mark of the
function type. -/
theorem ofTokens_function_returning_nullable :
    exists ts, tokenize "function(a<b]): c?" = .ok ts ∧
      Derives (.union (.nullable .function)) ts [] ∧
        (exists e, ofTokens ts = .ok e) ∧
      Derives (.union .function) ts [] := by
  let sig : List Token :=
    [.name "a", .mark '<', .name "b", .mark ']', .mark ')']
  let ts : List Token := .name "function" :: .mark '(' ::
    (sig ++ .mark ':' :: .name "c" :: [.mark '?'])
  have hsig : ClosesOff 1 sig := by
    have hskip : skipSignature 1 sig = .ok [] := rfl
    rcases skipSignature_iff.mp hskip with ⟨sig', hsig', hcloses⟩
    rw [List.append_nil] at hsig'
    rwa [hsig']
  have houter : Derives (.union (.nullable .function)) ts [] := by
    have hresult : Derives (.suffixed (.name "c")) [.name "c", .mark '?']
        [.mark '?'] :=
      .suffixed ⟨0, .unsaid, false⟩ (.bare .name)
    exact .single
      (.suffixed ⟨0, .nullable, false⟩ (.bare (.returning hsig hresult)))
  have hparse : ofTokens ts = .ok .function := rfl
  refine ⟨ts, by decide +kernel, houter, ?_, ?_⟩
  · exact (ofTokens_sound_and_complete ts).2 _ houter
  · exact (ofTokens_sound_and_complete ts).1 _ hparse

end TypeExpr
end Ambient
