import Ambient.Proofs.TypeExpr.Edge
import Ambient.TypeExpr.Resolve

/-!
# Reading written types

The tokens of a type expression in normal form are parsed back into it, and so
is its text.  Hence writing an annotation, reading it and writing it again
changes nothing.
-/

namespace Ambient
namespace TypeExpr

/-!
## What may follow a type

Between the parts of a written type stand only a few marks.  None of them is
taken for a suffix of the type before it.
-/

/-- Tokens that are at an end or start with one of some marks. -/
def FollowedBy (marks : List Char) : List Token -> Prop
  | [] => True
  | .mark c :: _ => c ∈ marks
  | _ => False

/-- The marks that may follow a whole type. -/
def closers : List Char := [',', ')', '>', ']', '}']

theorem FollowedBy.mono
    {marks more : List Char} {ts : List Token}
    (h : FollowedBy marks ts)
    (hsub : marks ⊆ more) :
    FollowedBy more ts := by
  unfold FollowedBy at h ⊢
  split
  · trivial
  · exact hsub h
  · rename_i hother
    split at h
    · trivial
    · rename_i hmark
      exact hother _ _ rfl
    · exact h

theorem followedBy_mark
    {marks : List Char} {c : Char}
    (hc : c ∈ marks)
    (ts : List Token) :
    FollowedBy marks (.mark c :: ts) :=
  hc

theorem startsWith_of_followedBy
    {marks : List Char} {c : Char} {ts : List Token}
    (h : FollowedBy marks ts)
    (hc : c ∉ marks) :
    startsWith c ts = false := by
  unfold FollowedBy at h
  split at h
  · rfl
  · rename_i d _
    have hne : d ≠ c := fun heq => hc (heq ▸ h)
    simp [startsWith, hne]
  · exact h.elim

theorem skipMark_of_startsWith
    {c : Char} {ts : List Token}
    (h : startsWith c ts = false) :
    skipMark c ts = ts := by
  unfold startsWith at h
  unfold skipMark
  split
  · simp only [decide_eq_false_iff_not] at h
    rw [if_neg h]
  · rfl

theorem arrays_of_startsWith
    (e : TypeExpr) {ts : List Token}
    (h : startsWith '[' ts = false) :
    arrays e ts = .ok (e, ts) := by
  unfold arrays
  split
  · simp [startsWith] at h
  · simp [startsWith] at h
  · rfl

theorem markers_of_followedBy
    (e : TypeExpr) {ts : List Token}
    (h : FollowedBy ('|' :: closers) ts) :
    markers e ts = (e, ts) := by
  have hquestion := startsWith_of_followedBy (c := '?') h (by decide)
  have hbang := startsWith_of_followedBy (c := '!') h (by decide)
  have hequals := startsWith_of_followedBy (c := '=') h (by decide)
  simp only [markers, hquestion, Bool.false_eq_true, if_false,
    skipMark_of_startsWith hbang, skipMark_of_startsWith hequals]

/-!
## From the inner rules to the outer ones
-/

/-- The tokens before `rest` are read as `e`, up to the bracket pairs of
arrays. -/
def ReadsPrefixed (fuel : Nat) (ts : List Token) (e : TypeExpr)
    (rest : List Token) : Prop :=
  exists core coreRest, prefixedRule fuel ts = .ok (core, coreRest) ∧
    arrays core coreRest = arrays e rest

theorem suffixedRule_of_prefixed
    {fuel : Nat} {ts rest : List Token} {e : TypeExpr}
    (h : ReadsPrefixed fuel ts e rest)
    (hrest : FollowedBy ('|' :: closers) rest) :
    suffixedRule (fuel + 1) ts = .ok (e, rest) := by
  rcases h with ⟨core, coreRest, hprefixed, harrays⟩
  rw [arrays_of_startsWith e (startsWith_of_followedBy hrest (by decide))]
    at harrays
  simp only [suffixedRule, hprefixed, ok_bind, harrays,
    markers_of_followedBy e hrest]
  rfl

theorem alternatives_of_followedBy
    {fuel : Nat} {rest : List Token}
    (hrest : FollowedBy closers rest) :
    alternatives (fuel + 1) rest = .ok ([], rest) := by
  rw [alternatives, startsWith_of_followedBy hrest (by decide)]
  rfl

theorem unionRule_of_prefixed
    {fuel : Nat} {ts rest : List Token} {e : TypeExpr}
    (h : ReadsPrefixed fuel ts e rest)
    (hrest : FollowedBy closers rest) :
    unionRule (fuel + 2) ts = .ok (e, rest) := by
  have hsuffixed :=
    suffixedRule_of_prefixed h (hrest.mono (List.subset_cons_self '|' closers))
  simp only [unionRule, hsuffixed, ok_bind, alternatives_of_followedBy hrest]
  rfl

theorem alternatives_more
    {fuel : Nat} {ts more rest : List Token} {e : TypeExpr} {es : List TypeExpr}
    (he : suffixedRule fuel ts = .ok (e, more))
    (hes : alternatives fuel more = .ok (es, rest)) :
    alternatives (fuel + 1) (.mark '|' :: ts) = .ok (e :: es, rest) := by
  have hstep : alternatives (fuel + 1) (.mark '|' :: ts) =
      (suffixedRule fuel ts >>= fun first =>
        alternatives fuel first.2 >>= fun others =>
        .ok (first.1 :: others.1, others.2)) := by
    rw [alternatives]
    rfl
  rw [hstep, he, ok_bind]
  dsimp only
  rw [hes]
  rfl

theorem unionRule_more
    {fuel : Nat} {ts more rest : List Token} {first second : TypeExpr}
    {others : List TypeExpr}
    (hfirst : suffixedRule fuel ts = .ok (first, more))
    (hothers : alternatives fuel more = .ok (second :: others, rest)) :
    unionRule (fuel + 1) ts =
      .ok (.union (first :: second :: others), rest) := by
  rw [unionRule, hfirst, ok_bind]
  dsimp only
  rw [hothers]
  rfl

theorem prefixedRule_group
    {fuel : Nat} {ts rest : List Token} {e : TypeExpr}
    (h : unionRule fuel ts = .ok (e, .mark ')' :: rest)) :
    prefixedRule (fuel + 2) (.mark '(' :: ts) = .ok (e, rest) := by
  change primaryRule (fuel + 1) (.mark '(' :: ts) = .ok (e, rest)
  rw [primaryRule, h]
  rfl

theorem prefixedRule_record
    {fuel : Nat} {ts rest : List Token} {entries : List RecordEntry}
    (hstart : startsWith '}' ts = false)
    (h : recordRule fuel ts = .ok (entries, rest)) :
    prefixedRule (fuel + 2) (.mark '{' :: ts) =
      .ok (.record entries, rest) := by
  change primaryRule (fuel + 1) (.mark '{' :: ts) = .ok (.record entries, rest)
  rw [primaryRule, hstart, h]
  rfl

theorem prefixedRule_name
    (fuel : Nat) (text : String) (ts : List Token) :
    prefixedRule (fuel + 3) (.name text :: ts) = nameRule (fuel + 1) text ts :=
  rfl

theorem prefixedRule_generic
    {fuel : Nat} (base : String) {opener : Token} {ts rest : List Token}
    {args : List TypeExpr}
    (hopener : opener = .genericOpen ∨ opener = .mark '<')
    (h : argumentsRule fuel ts = .ok (args, rest)) :
    prefixedRule (fuel + 3) (.name base :: opener :: ts) =
      .ok (.generic base args, rest) := by
  rw [prefixedRule_name]
  rcases hopener with rfl | rfl
  · rw [nameRule]
    simp only [startsWith, Bool.false_eq_true, and_false, if_false, h]
    rfl
  · rw [nameRule]
    simp only [startsWith, Char.reduceEq, decide_false, Bool.false_eq_true,
      and_false, if_false, h]
    rfl

theorem argumentsRule_last
    {fuel : Nat} {ts rest : List Token} {e : TypeExpr}
    (h : unionRule fuel ts = .ok (e, .mark '>' :: rest)) :
    argumentsRule (fuel + 1) ts = .ok ([e], rest) := by
  rw [argumentsRule, h]
  rfl

theorem argumentsRule_more
    {fuel : Nat} {ts more rest : List Token} {e : TypeExpr} {es : List TypeExpr}
    (he : unionRule fuel ts = .ok (e, .mark ',' :: more))
    (hes : argumentsRule fuel more = .ok (es, rest)) :
    argumentsRule (fuel + 1) ts = .ok (e :: es, rest) := by
  rw [argumentsRule, he, ok_bind]
  change (argumentsRule fuel more >>= _) = _
  rw [hes]
  rfl

theorem recordRule_last
    {fuel : Nat} {ts rest : List Token} {entry : RecordEntry}
    (h : entryRule fuel ts = .ok (entry, .mark '}' :: rest)) :
    recordRule (fuel + 1) ts = .ok ([entry], rest) := by
  rw [recordRule, h]
  rfl

theorem recordRule_more
    {fuel : Nat} {ts more rest : List Token} {entry : RecordEntry}
    {entries : List RecordEntry}
    (hentry : entryRule fuel ts = .ok (entry, .mark ',' :: more))
    (hentries : recordRule fuel more = .ok (entries, rest)) :
    recordRule (fuel + 1) ts = .ok (entry :: entries, rest) := by
  rw [recordRule, hentry, ok_bind]
  change (recordRule fuel more >>= _) = _
  rw [hentries]
  rfl

theorem entryRule_index
    {fuel : Nat} {key : String} {ts more rest : List Token}
    {keyType value : TypeExpr}
    (hkeyType : unionRule fuel ts =
      .ok (keyType, .mark ']' :: .mark ':' :: more))
    (hvalue : unionRule fuel more = .ok (value, rest)) :
    entryRule (fuel + 1) (.mark '[' :: .name key :: .mark ':' :: ts) =
      .ok (.index key keyType value, rest) := by
  rw [entryRule]
  change (unionRule fuel ts >>= _) = _
  rw [hkeyType, ok_bind]
  change (unionRule fuel more >>= _) = _
  rw [hvalue]
  rfl

theorem entryRule_field
    {fuel : Nat} {t : Token} {key : String} {ts rest : List Token}
    {optional : Bool} {value : TypeExpr}
    (hkey : recordKey? t = some key)
    (hvalue : unionRule fuel ts = .ok (value, rest)) :
    entryRule (fuel + 1)
      (t :: ((if optional then [.mark '?'] else []) ++ .mark ':' :: ts)) =
      .ok (.field key optional value, rest) := by
  have hstep : entryRule (fuel + 1)
      (t :: ((if optional then [.mark '?'] else []) ++ .mark ':' :: ts)) =
        (unionRule fuel ts >>=
          fun parsed => .ok (.field key optional parsed.1, parsed.2)) := by
    cases t with
    | name text =>
        cases hkey
        cases optional <;> rfl
    | quoted text =>
        cases hkey
        cases optional <;> rfl
    | number text =>
        cases hkey
        cases optional <;> rfl
    | mark c => contradiction
    | ellipsis => contradiction
    | genericOpen => contradiction
  rw [hstep, hvalue]
  rfl

/-!
## Separated tokens
-/

theorem intercalate_cons
    (mark : Token) (ts : List Token) (tss : List (List Token)) :
    [mark].intercalate (ts :: tss) = ts ++ tss.flatMap (mark :: ·) := by
  induction tss generalizing ts with
  | nil => simp
  | cons us tss ih =>
      rw [List.intercalate_cons_cons, ih us, List.flatMap_cons,
        List.append_assoc,
      List.singleton_append, List.cons_append]

theorem followedBy_flatMap
    {marks : List Char} {c : Char} (tss : List (List Token)) {ts : List Token}
    (hc : c ∈ marks)
    (hts : FollowedBy marks ts) :
    FollowedBy marks (tss.flatMap (Token.mark c :: ·) ++ ts) := by
  cases tss with
  | nil => exact hts
  | cons us tss => exact hc

theorem spelling_ne_nil
    {e : TypeExpr}
    (h : Normal e) :
    spelling e ≠ [] := by
  cases e with
  | any => exact h.elim
  | nullable inner => exact h.elim
  | function => exact h.elim
  | _ => simp [spelling]

theorem spellingEntry_ne_nil
    {entry : RecordEntry}
    (h : EntryNormal entry) :
    spellingEntry entry ≠ [] := by
  cases entry with
  | bare key optional => exact h.elim
  | field key optional value => exact List.cons_ne_nil _ _
  | index key keyType value => exact List.cons_ne_nil _ _

theorem startsWith_spellingEntry
    {entry : RecordEntry}
    (h : EntryNormal entry)
    (ts : List Token) :
    startsWith '}' (spellingEntry entry ++ ts) = false := by
  cases entry with
  | bare key optional => exact h.elim
  | field key optional value =>
      have hkey := (wordOf_key h.1).1
      rw [spellingEntry, List.cons_append]
      generalize wordOf key = t at hkey
      cases t with
      | mark c => contradiction
      | _ => rfl
  | index key keyType value => rfl

/-!
## Parsing the tokens of a normal form

A token pays for eight steps of the descent, more than any rule needs before it
takes one.
-/

/-- A name by itself is read as such before any mark that opens neither a
signature nor arguments. -/
theorem nameRule_of_followedBy
    {fuel : Nat} (text : String) {marks : List Char} {rest : List Token}
    (hparen : '(' ∉ marks)
    (hangle : '<' ∉ marks)
    (hrest : FollowedBy marks rest) :
    nameRule (fuel + 1) text rest = .ok (.name text, rest) := by
  unfold nameRule
  rw [startsWith_of_followedBy hrest hparen, if_neg fun hboth =>
    Bool.false_ne_true hboth.2]
  unfold FollowedBy at hrest
  split at hrest
  · rfl
  · rename_i c tail
    split
    · rename_i heq
      exact absurd (List.cons.inj heq).1 (by simp)
    · rename_i heq
      rw [Token.mark.inj (List.cons.inj heq).1] at hrest
      exact absurd hrest hangle
    · rfl
  · exact hrest.elim

mutual

theorem prefixed_spelling
    (e : TypeExpr)
    (h : Normal e)
    (fuel : Nat)
    (rest : List Token)
    (hfuel : 8 * (spelling e).length ≤ fuel + 5)
    (hrest : FollowedBy ('[' :: '|' :: closers) rest) :
    ReadsPrefixed fuel (spelling e ++ rest) e rest := by
  cases e with
  | any => exact h.elim
  | name text =>
      simp only [spelling, List.length_singleton] at hfuel
      obtain ⟨f, rfl⟩ : exists f, fuel = f + 3 := ⟨fuel - 3, by omega⟩
      exact ⟨.name text, rest,
        nameRule_of_followedBy text (by decide) (by decide) hrest, rfl⟩
  | literal text =>
      simp only [spelling, List.length_singleton] at hfuel
      obtain ⟨f, rfl⟩ : exists f, fuel = f + 2 := ⟨fuel - 2, by omega⟩
      refine ⟨.literal text, rest, ?_, rfl⟩
      rw [spelling]
      rcases wordOf_literal h with ⟨hword, _⟩ | ⟨hword, _⟩
      · rw [hword]
        rfl
      · rw [hword]
        rfl
  | generic base args =>
      rcases h with ⟨_, _, _, hne, hargs⟩
      simp only [spelling, List.length_cons, List.length_append,
        List.length_nil] at hfuel
      obtain ⟨f, rfl⟩ : exists f, fuel = f + 3 := ⟨fuel - 3, by omega⟩
      have hread := arguments_spelling args hne hargs f rest (by omega)
      refine ⟨.generic base args, rest, ?_, rfl⟩
      simp only [spelling, List.cons_append, List.append_assoc, List.nil_append]
      exact prefixedRule_generic base (Or.inr rfl) hread
  | array element =>
      simp only [spelling, List.length_cons, List.length_append,
        List.length_nil] at hfuel
      have hread :=
        prefixed_spelling element (by simpa only [Normal] using h) fuel
        (.mark '[' :: .mark ']' :: rest) (by omega)
        (followedBy_mark (by decide) _)
      rcases hread with ⟨core, coreRest, hprefixed, harrays⟩
      refine ⟨core, coreRest, ?_, ?_⟩
      · simpa [spelling] using hprefixed
      · rw [harrays, arrays]
  | union members =>
      rcases h with ⟨hlength, hmembers⟩
      simp only [spelling, List.length_cons, List.length_append,
        List.length_nil] at hfuel
      obtain ⟨f, rfl⟩ : exists f, fuel = f + 2 := ⟨fuel - 2, by omega⟩
      have hread :=
        union_spelling members hlength hmembers f (.mark ')' :: rest) (by omega)
        (followedBy_mark (by decide) rest)
      refine ⟨.union members, rest, ?_, rfl⟩
      simp only [spelling, List.cons_append, List.append_assoc, List.nil_append]
      exact prefixedRule_group hread
  | nullable inner => exact h.elim
  | function => exact h.elim
  | record entries =>
      simp only [spelling, List.length_cons, List.length_append,
        List.length_nil] at hfuel
      obtain ⟨f, rfl⟩ : exists f, fuel = f + 2 := ⟨fuel - 2, by omega⟩
      refine ⟨.record entries, rest, ?_, rfl⟩
      cases entries with
      | nil => rfl
      | cons entry entries =>
          have hread :=
            record_spelling (entry :: entries) (List.cons_ne_nil _ _)
            (by simpa only [Normal] using h) f rest (by omega)
          have hentry : EntryNormal entry := by
            simp only [Normal] at h
            exact h.1
          have hstart : startsWith '}' ([.mark ','].intercalate
              (spellingEntries (entry :: entries)) ++ .mark '}' :: rest) =
                false := by
            rw [spellingEntries, intercalate_cons, List.append_assoc]
            exact startsWith_spellingEntry hentry _
          simp only [spelling, List.cons_append, List.append_assoc,
            List.nil_append]
          exact prefixedRule_record hstart hread

theorem union_spelling
    (es : List TypeExpr)
    (hlength : 2 ≤ es.length)
    (h : AllNormal es)
    (fuel : Nat)
    (rest : List Token)
    (hfuel : 8 * ([Token.mark '|'].intercalate (spellingAll es)).length ≤ fuel)
    (hrest : FollowedBy closers rest) :
    unionRule fuel ([.mark '|'].intercalate (spellingAll es) ++ rest) =
      .ok (.union es, rest) := by
  cases es with
  | nil => simp at hlength
  | cons e es =>
      cases es with
      | nil => simp at hlength
      | cons e' es =>
          rw [spellingAll, intercalate_cons, List.length_append] at hfuel
          have hpos := List.length_pos_iff.mpr (spelling_ne_nil h.1)
          obtain ⟨f, rfl⟩ : exists f, fuel = f + 2 := ⟨fuel - 2, by omega⟩
          have hothers :=
            alternatives_spelling (e' :: es) h.2 (f + 1) rest (by omega) hrest
          have hfollow :=
            followedBy_flatMap (c := '|') (spellingAll (e' :: es))
              List.mem_cons_self
            (hrest.mono (List.subset_cons_self '|' closers))
          have hread := prefixed_spelling e h.1 f _ (by omega)
            (hfollow.mono (List.subset_cons_self '[' _))
          rw [spellingAll, intercalate_cons, List.append_assoc]
          exact unionRule_more (suffixedRule_of_prefixed hread hfollow) hothers

theorem alternatives_spelling
    (es : List TypeExpr)
    (h : AllNormal es)
    (fuel : Nat)
    (rest : List Token)
    (hfuel : 8 * ((spellingAll es).flatMap (Token.mark '|' :: ·)).length < fuel)
    (hrest : FollowedBy closers rest) :
    alternatives fuel ((spellingAll es).flatMap (Token.mark '|' :: ·) ++ rest) =
      .ok (es, rest) := by
  cases es with
  | nil =>
      obtain ⟨f, rfl⟩ : exists f, fuel = f + 1 := ⟨fuel - 1, by omega⟩
      exact alternatives_of_followedBy hrest
  | cons e es =>
      simp only [spellingAll, List.flatMap_cons, List.length_append,
        List.length_cons] at hfuel
      obtain ⟨f, rfl⟩ : exists f, fuel = f + 2 := ⟨fuel - 2, by omega⟩
      have hothers := alternatives_spelling es h.2 (f + 1) rest (by omega) hrest
      have hfollow :=
        followedBy_flatMap (c := '|') (spellingAll es) List.mem_cons_self
        (hrest.mono (List.subset_cons_self '|' closers))
      have hread := prefixed_spelling e h.1 f _ (by omega)
        (hfollow.mono (List.subset_cons_self '[' _))
      have hfirst := suffixedRule_of_prefixed hread hfollow
      simp only [spellingAll, List.flatMap_cons, List.append_assoc,
        List.cons_append]
      exact alternatives_more hfirst hothers

theorem arguments_spelling
    (es : List TypeExpr)
    (hne : es ≠ [])
    (h : AllNormal es)
    (fuel : Nat)
    (rest : List Token)
    (hfuel : 8 * ([Token.mark ','].intercalate (spellingAll es)).length ≤
      fuel + 2) :
    argumentsRule fuel
      ([.mark ','].intercalate (spellingAll es) ++ .mark '>' :: rest) =
      .ok (es, rest) := by
  cases es with
  | nil => exact absurd rfl hne
  | cons e es =>
      have hpos := List.length_pos_iff.mpr (spelling_ne_nil h.1)
      cases es with
      | nil =>
          simp only [spellingAll, List.intercalate_singleton] at hfuel ⊢
          obtain ⟨f, rfl⟩ : exists f, fuel = f + 3 := ⟨fuel - 3, by omega⟩
          have hread := prefixed_spelling e h.1 f (.mark '>' :: rest) (by omega)
            (followedBy_mark (by decide) rest)
          exact argumentsRule_last
            (unionRule_of_prefixed hread (followedBy_mark (by decide) rest))
      | cons e' es =>
          rw [spellingAll, spellingAll, List.intercalate_cons_cons,
            ← spellingAll] at hfuel ⊢
          simp only [List.length_append, List.length_singleton] at hfuel
          obtain ⟨f, rfl⟩ : exists f, fuel = f + 3 := ⟨fuel - 3, by omega⟩
          have hothers :=
            arguments_spelling (e' :: es) (List.cons_ne_nil e' es) h.2
              (f + 2) rest
            (by omega)
          have hread := prefixed_spelling e h.1 f (.mark ',' ::
            ([.mark ','].intercalate (spellingAll (e' :: es)) ++
              .mark '>' :: rest)) (by omega)
            (followedBy_mark (by decide) _)
          have hfirst :=
            unionRule_of_prefixed hread (followedBy_mark (by decide) _)
          simp only [List.append_assoc, List.cons_append, List.nil_append]
          exact argumentsRule_more hfirst hothers

theorem record_spelling
    (entries : List RecordEntry)
    (hne : entries ≠ [])
    (h : EntriesNormal entries)
    (fuel : Nat)
    (rest : List Token)
    (hfuel : 8 * ([Token.mark ','].intercalate
      (spellingEntries entries)).length ≤ fuel + 3) :
    recordRule fuel
      ([.mark ','].intercalate (spellingEntries entries) ++ .mark '}' :: rest) =
      .ok (entries, rest) := by
  cases entries with
  | nil => exact absurd rfl hne
  | cons entry entries =>
      have hpos := List.length_pos_iff.mpr (spellingEntry_ne_nil h.1)
      cases entries with
      | nil =>
          simp only [spellingEntries, List.intercalate_singleton] at hfuel ⊢
          obtain ⟨f, rfl⟩ : exists f, fuel = f + 1 := ⟨fuel - 1, by omega⟩
          have hread :=
            entry_spelling entry h.1 f (.mark '}' :: rest) (by omega)
            (followedBy_mark (by decide) rest)
          exact recordRule_last hread
      | cons entry' entries =>
          rw [spellingEntries, spellingEntries, List.intercalate_cons_cons,
            ← spellingEntries]
            at hfuel ⊢
          simp only [List.length_append, List.length_singleton] at hfuel
          obtain ⟨f, rfl⟩ : exists f, fuel = f + 1 := ⟨fuel - 1, by omega⟩
          have hothers :=
            record_spelling (entry' :: entries)
              (List.cons_ne_nil entry' entries) h.2
            f rest (by omega)
          have hread := entry_spelling entry h.1 f (.mark ',' ::
            ([.mark ','].intercalate (spellingEntries (entry' :: entries)) ++
              .mark '}' :: rest))
            (by omega) (followedBy_mark (by decide) _)
          simp only [List.append_assoc, List.cons_append, List.nil_append]
          exact recordRule_more hread hothers

theorem entry_spelling
    (entry : RecordEntry)
    (h : EntryNormal entry)
    (fuel : Nat)
    (rest : List Token)
    (hfuel : 8 * (spellingEntry entry).length ≤ fuel + 4)
    (hrest : FollowedBy closers rest) :
    entryRule fuel (spellingEntry entry ++ rest) = .ok (entry, rest) := by
  cases entry with
  | bare key optional => exact h.elim
  | field key optional value =>
      simp only [spellingEntry, List.length_cons, List.length_append] at hfuel
      obtain ⟨f, rfl⟩ : exists f, fuel = f + 3 := ⟨fuel - 3, by omega⟩
      have hread := prefixed_spelling value h.2 f rest (by omega)
        (hrest.mono (by decide))
      have hvalue := unionRule_of_prefixed hread hrest
      simp only [spellingEntry, List.cons_append, List.append_assoc]
      exact entryRule_field (wordOf_key h.1).1 hvalue
  | index key keyType value =>
      simp only [spellingEntry, List.length_cons, List.length_append] at hfuel
      obtain ⟨f, rfl⟩ : exists f, fuel = f + 3 := ⟨fuel - 3, by omega⟩
      have hreadKey := prefixed_spelling keyType h.2.1 f
        (.mark ']' :: .mark ':' :: (spelling value ++ rest)) (by omega)
        (followedBy_mark (by decide) _)
      have hkeyType :=
        unionRule_of_prefixed hreadKey (followedBy_mark (by decide) _)
      have hread :=
        prefixed_spelling value h.2.2 f rest (by omega) (hrest.mono (by decide))
      have hvalue := unionRule_of_prefixed hread hrest
      simp only [spellingEntry, List.cons_append, List.append_assoc]
      exact entryRule_index hkeyType hvalue

end

/-!
## Texts
-/

theorem ofTokens_spelling
    {e : TypeExpr}
    (h : Normal e) :
    ofTokens (spelling e) = .ok e := by
  have hread :=
    prefixed_spelling e h (8 * (spelling e).length + 6) [] (by omega) trivial
  rw [List.append_nil] at hread
  exact ofTokens_eq_ok_iff.mpr (unionRule_of_prefixed hread trivial)

theorem tokenize_render
    {e : TypeExpr}
    (h : Normal e) :
    tokenize (render e) = .ok (spelling e) := by
  have hscan := (reads_render e h).scanAll_eq
  rw [Token.scanAll] at hscan
  rw [tokenize, hscan]

theorem parse_render_of_normal
    {e : TypeExpr}
    (h : Normal e) :
    parse (render e) = .ok e := by
  rw [parse, tokenize_render h, ok_bind]
  exact ofTokens_spelling h

theorem holds_tokenize
    {source : String} {ts : List Token}
    (h : tokenize source = .ok ts) :
    Holds (fun t => t.Valid ∧ forall c, c ∈ t.text.toList -> c ∈ source.toList)
      ts := by
  unfold tokenize at h
  dsimp only at h
  split at h
  · rename_i hscan
    cases h
    exact Token.scan_sound hscan
  · contradiction

theorem parse_madeOf
    {Q : Token -> Prop} {source : String} {e : TypeExpr}
    (hQ : forall t : Token, t.Valid ->
      (forall c, c ∈ t.text.toList -> c ∈ source.toList) -> Q t)
    (h : parse source = .ok e) :
    MadeOf Q e := by
  rcases bind_eq_ok h with ⟨ts, htokens, hparse⟩
  exact ofTokens_madeOf
    (fun t ht => (holds_tokenize htokens t ht).elim (hQ t)) hparse

theorem parse_render_of_parse
    {source : String} {e : TypeExpr}
    (h : parse source = .ok e) :
    parse (render e) = .ok (normalize e) := by
  have hnormal := normal_normalize e (parse_madeOf (fun t hvalid _ => hvalid) h)
  rw [← render_normalize e]
  exact parse_render_of_normal hnormal

theorem mem_of_mem_strip
    {source : String} {c : Char}
    (h : c ∈ (Text.strip source).toList) :
    c ∈ source.toList := by
  rw [Text.strip, String.toList_ofList] at h
  exact Text.mem_of_mem_stripChars h

-- The tree is kept apart from its origin, which elaboration would otherwise
-- start to evaluate.
theorem exists_parseOrAny
    {Q : Token -> Prop}
    (source : String)
    (hQ : forall t : Token, t.Valid ->
      (forall c, c ∈ t.text.toList -> c ∈ source.toList) -> Q t) :
    exists e, parseOrAny source = e ∧ MadeOf Q e := by
  unfold parseOrAny
  split
  · rename_i e hparse
    refine ⟨e, rfl,
      parse_madeOf (fun t hvalid hchars => hQ t hvalid fun c hc => ?_) hparse⟩
    exact mem_of_mem_strip (hchars c hc)
  · exact ⟨any, rfl, trivial⟩

theorem strip_render
    {e : TypeExpr}
    (h : MadeOf Token.Valid e) :
    Text.strip (render e) = render e := by
  have hnormal := normal_normalize e h
  rw [← render_normalize e, Text.strip,
    Text.stripChars_eq_self (startsSolid_render _ hnormal)
      (endsIn_render _ hnormal),
    String.ofList_toList]

theorem resolve_render
    {e : TypeExpr}
    (h : MadeOf Token.Valid e) :
    resolve (render e) = render e := by
  have hparse : parseStripped (render e) = .ok (normalize e) := by
    rw [parseStripped, strip_render h, ← render_normalize e]
    exact parse_render_of_normal (normal_normalize e h)
  rw [resolve, parseOrAny, hparse]
  exact render_normalize e

/-- Reading a written type gives the normal form of the type that was written.
Hence type texts are written as they are, also those of malformed
annotations. -/
theorem parse_render_and_resolve_resolve :
    (forall source e, parse source = .ok e ->
      parse (render e) = .ok (normalize e)) ∧
      forall source, resolve (resolve source) = resolve source := by
  constructor
  · intro source e h
    exact parse_render_of_parse h
  · intro source
    rcases exists_parseOrAny source fun t hvalid _ => hvalid with ⟨e, he, hmade⟩
    have hsource : resolve source = render e := by rw [resolve, he]
    rw [hsource]
    exact resolve_render hmade

theorem parse_render_of_nested_shorthands :
    exists e,
      parse "?Array.<mixed>|\x7bmodule, x?: function(a): b\x7d" = .ok e ∧
        render e = "((any[]|null)|\x7b module: any, x?: Function \x7d)" ∧
        parse (render e) = .ok (normalize e) := by
  have hrender :
      (parse "?Array.<mixed>|\x7bmodule, x?: function(a): b\x7d").toOption.map
        render =
      some "((any[]|null)|\x7b module: any, x?: Function \x7d)" := by
    decide +kernel
  cases hparse : parse "?Array.<mixed>|\x7bmodule, x?: function(a): b\x7d" with
  | error fault =>
      rw [hparse] at hrender
      contradiction
  | ok e =>
      rw [hparse] at hrender
      exact ⟨e, rfl, Option.some.inj hrender,
        parse_render_and_resolve_resolve.1 _ e hparse⟩

end TypeExpr
end Ambient
