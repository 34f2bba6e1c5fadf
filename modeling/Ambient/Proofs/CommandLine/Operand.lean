import Ambient.CommandLine.Basic
import Ambient.Proofs.Text.Line

/-!
# Words that are read as operands

A word that does not start with a hyphen is an operand, and so is the hyphen
alone.  Any other word with a hyphen at its front is one only if no flag can be
meant by it, and if it is a negative number or holds a blank.
-/

namespace Ambient
namespace CommandLine

/-- Whether a word is read as an operand, and so as the value of the flag before
it. -/
def Grammar.ReadsAsOperand (g : Grammar) (word : String) : Prop :=
  classify g word = .ok (.operand word)

theorem candidates_flag
    {g : Grammar} {word : String} {w : Word}
    (h : w ∈ candidates g word) :
    exists f spelling value, w = .flag f spelling value := by
  unfold candidates at h
  split at h
  · obtain ⟨⟨s, f⟩, _, hw⟩ := List.mem_filterMap.mp h
    simp only at hw
    split at hw
    · cases hw
      exact ⟨_, _, _, rfl⟩
    · cases hw
  · obtain ⟨⟨s, f⟩, _, hw⟩ := List.mem_filterMap.mp h
    simp only at hw
    split at hw
    · cases hw
      exact ⟨_, _, _, rfl⟩
    split at hw
    · cases hw
      exact ⟨_, _, _, rfl⟩
    · cases hw

/-- What a word before the two hyphens can be: itself as an operand, a flag, or
an unknown flag. -/
theorem classify_cases
    {g : Grammar} {word : String} {w : Word}
    (h : classify g word = .ok w) :
    (w = .operand word ∧ word ≠ "--") ∨
      (exists f spelling value, w = .flag f spelling value) ∨
      w = .unknown word := by
  unfold classify at h
  split at h
  · split at h
    · cases h
      exact .inr (.inl ⟨_, _, _, rfl⟩)
    simp only at h
    split at h
    · cases h
      exact .inr (.inl ⟨_, _, _, rfl⟩)
    unfold classifyLoose at h
    split at h
    · next hcandidates =>
      cases h
      exact .inr
        (.inl (candidates_flag
          (by rw [hcandidates]; exact List.mem_singleton_self w)))
    · split at h
      · next hoperand =>
        cases h
        refine .inl ⟨rfl, ?_⟩
        rintro rfl
        exact absurd hoperand (by decide)
      · cases h
        exact .inr (.inr rfl)
    · cases h
  · next hword =>
    cases h
    refine .inl ⟨rfl, ?_⟩
    rintro rfl
    exact hword '-' [] rfl

theorem Grammar.ReadsAsOperand.ne_divider
    {g : Grammar} {word : String}
    (h : g.ReadsAsOperand word) :
    word ≠ "--" := by
  rcases classify_cases h with ⟨_, hne⟩ | ⟨f, spelling, value, hflag⟩ | hunknown
  · exact hne
  · contradiction
  · contradiction

/-!
## Words with a hyphen at their front
-/

/-- A spelling of a flag: a hyphen and another character, or two hyphens and a
name without a blank. -/
def isSpelling : List Char -> Bool
  | ['-', c] => c != '-'
  | '-' :: '-' :: name => !name.contains ' '
  | _ => false

/-- The spellings of all flags as texts. -/
def Grammar.flagTexts (g : Grammar) : List String := g.spellings.map Prod.fst

/-- All flags are spelled as usual. -/
def Grammar.WellSpelled (g : Grammar) : Prop :=
  forall text, text ∈ g.flagTexts -> isSpelling text.toList = true

instance (g : Grammar) : Decidable g.WellSpelled :=
  inferInstanceAs (Decidable (forall text, text ∈ g.flagTexts ->
    isSpelling text.toList = true))

/-- Whether a word is an operand, by its characters: after two hyphens it holds
a blank and no flag starts with what stands before its first equals sign; after
one hyphen it is a negative number or holds a blank, and its next character is
not that of a short flag. -/
def Grammar.IsOperand (g : Grammar) (word : String) : Prop :=
  match word.toList with
  | '-' :: '-' :: _ =>
      ' ' ∈ word.toList ∧ forall text, text ∈ g.flagTexts ->
        ¬ word.toList.takeWhile (· != '=') <+: text.toList
  | '-' :: c :: _ =>
      (isNegativeNumber word.toList = true ∨ ' ' ∈ word.toList) ∧
        String.ofList ['-', c] ∉ g.flagTexts
  | _ => True

theorem lookup_eq_none_iff
    {g : Grammar} {word : String} :
    g.spellings.lookup word = none ↔ word ∉ g.flagTexts := by
  rw [List.lookup_eq_none_iff, Grammar.flagTexts, List.mem_map]
  constructor
  · rintro h ⟨e, he, rfl⟩
    simpa using h e he
  · intro h e he
    exact bne_iff_ne.mpr fun heq => h ⟨e, he, heq.symm⟩

theorem classifyLoose_operand_iff
    {g : Grammar} {word : String} :
    classifyLoose g word = .ok (.operand word) ↔
      candidates g word = [] ∧
        (isNegativeNumber word.toList = true ∨ ' ' ∈ word.toList) := by
  unfold classifyLoose
  split
  · next w hcandidates =>
    obtain ⟨f, spelling, value, rfl⟩ :=
      candidates_flag (by rw [hcandidates]; exact List.mem_singleton_self w)
    simp [hcandidates]
  · next hcandidates =>
    by_cases hoperand : isNegativeNumber word.toList = true ∨ ' ' ∈ word.toList
    · simp [hcandidates, hoperand]
    · simp [hcandidates, hoperand]
  · next hnil => exact iff_of_false (by simp) fun h => hnil h.1

/-- A word with a hyphen at its front is an operand if no flag can be meant by
it, and if it is a negative number or holds a blank. -/
theorem readsAsOperand_hyphen_iff
    (g : Grammar)
    {word : String} {c : Char} {cs : List Char}
    (hword : word.toList = '-' :: c :: cs) :
    g.ReadsAsOperand word ↔
      word ∉ g.flagTexts ∧
        ((cutValue word).2.isSome = true -> (cutValue word).1 ∉ g.flagTexts) ∧
        candidates g word = [] ∧
        (isNegativeNumber word.toList = true ∨ ' ' ∈ word.toList) := by
  rw [← lookup_eq_none_iff, ← lookup_eq_none_iff, ← classifyLoose_operand_iff]
  unfold Grammar.ReadsAsOperand classify
  split
  · split
    · next hflag => exact iff_of_false (by simp) fun h => by simp [hflag] at h
    · next hflag =>
      dsimp only
      split
      · next hfront hvalue =>
        exact iff_of_false (by simp) fun h => by simp [hfront, hvalue] at h
      · next hother =>
        refine ⟨fun h => ⟨hflag, fun hvalue => ?_, h⟩, fun h => h.2.2⟩
        obtain ⟨value, hvalue⟩ := Option.isSome_iff_exists.mp hvalue
        exact Option.eq_none_iff_forall_ne_some.mpr fun f hfront =>
          hother f value hfront hvalue
  · next hshape => exact absurd hword (hshape c cs)

theorem isNegativeNumber_hyphens
    (cs : List Char) :
    isNegativeNumber ('-' :: '-' :: cs) = false := by
  have hhyphen (ds : List Char) : ('-' :: ds).dropWhile Text.isDecimal =
      '-' :: ds :=
    List.dropWhile_cons_of_neg (by decide)
  cases cs with
  | nil => decide
  | cons d ds =>
      obtain ⟨es, hes⟩ : exists es,
        (if ('-' :: '-' :: d :: ds).getLast? == some '\n'
          then ('-' :: '-' :: d :: ds).dropLast else '-' :: '-' :: d :: ds) =
            '-' :: '-' :: es := by
        split
        · exact ⟨_, rfl⟩
        · exact ⟨_, rfl⟩
      unfold isNegativeNumber
      rw [hes]
      simp [hhyphen]

theorem isSpelling_cases
    {cs : List Char}
    (h : isSpelling cs = true) :
    (exists c, c ≠ '-' ∧ cs = ['-', c]) ∨
      exists name, cs = '-' :: '-' :: name ∧ ' ' ∉ name := by
  unfold isSpelling at h
  split at h
  · next c => exact .inl ⟨c, by simpa using h, rfl⟩
  · next name _ => exact .inr ⟨name, rfl, by simpa using h⟩
  · contradiction

/-- What has one hyphen at its front is a short flag if it is a flag at all. -/
theorem eq_short
    {text : String} {c : Char}
    (h : isSpelling text.toList = true)
    (hc : c ≠ '-')
    (hfront : ['-', c] <+: text.toList) :
    text = String.ofList ['-', c] := by
  rw [← String.toList_inj, String.toList_ofList]
  obtain ⟨rest, hrest⟩ := hfront
  rcases isSpelling_cases h with ⟨d, _, heq⟩ | ⟨name, heq, _⟩
  · rw [heq] at hrest ⊢
    cases hrest
    rfl
  · rw [heq] at hrest
    cases hrest
    contradiction

theorem short_front
    {cs ds : List Char} {c : Char}
    (h : isSpelling cs = true)
    (hfront : cs <+: '-' :: c :: ds) :
    ['-', c] <+: cs := by
  obtain ⟨rest, hrest⟩ := hfront
  rcases isSpelling_cases h with ⟨d, _, rfl⟩ | ⟨name, rfl, _⟩
  · cases hrest
    exact List.prefix_rfl
  · cases hrest
    exact ⟨name, rfl⟩

theorem toList_front
    (word : String) :
    (cutValue word).1.toList = word.toList.takeWhile (· != '=') := by
  rw [← (Text.cutAt_eq '=' word.toList).1]
  exact String.toList_ofList

theorem longCandidates_eq_nil_iff
    {g : Grammar} {word : String} :
    longCandidates g word = [] ↔
      forall text, text ∈ g.flagTexts ->
        ¬ word.toList.takeWhile (· != '=') <+: text.toList := by
  simp [longCandidates, Grammar.flagTexts, ← toList_front,
    List.isPrefixOf_iff_prefix]

theorem shortCandidates_eq_nil_iff
    {g : Grammar} {word : String} {c : Char} {cs : List Char}
    (h : g.WellSpelled)
    (hword : word.toList = '-' :: c :: cs)
    (hc : c ≠ '-') :
    shortCandidates g word = [] ↔ String.ofList ['-', c] ∉ g.flagTexts := by
  have hshort : String.ofList (word.toList.take 2) =
      String.ofList ['-', c] := by
    rw [hword]
    rfl
  rw [shortCandidates, hshort, List.filterMap_eq_nil_iff]
  constructor
  · intro hnone hmem
    obtain ⟨⟨text, f⟩, hentry, rfl⟩ := List.mem_map.mp hmem
    simpa using hnone _ hentry
  · rintro hshort ⟨text, f⟩ hentry
    have hmem : text ∈ g.flagTexts := List.mem_map_of_mem hentry
    have hne : text ≠ String.ofList ['-', c] := fun heq => hshort (heq ▸ hmem)
    have hfront : ¬ word.toList.isPrefixOf text.toList = true := by
      rw [List.isPrefixOf_iff_prefix, hword]
      intro hall
      have hshort : ['-', c] <+: '-' :: c :: cs := ⟨cs, rfl⟩
      exact hne (eq_short (h text hmem) hc (hshort.trans hall))
    dsimp only
    rw [if_neg hne, if_neg hfront]

/-- The words that are read as operands are told by their characters. -/
theorem readsAsOperand_iff
    {g : Grammar}
    (h : g.WellSpelled)
    (word : String) :
    g.ReadsAsOperand word ↔ g.IsOperand word := by
  unfold Grammar.IsOperand
  split
  · next cs hword =>
    have hcandidates : candidates g word = longCandidates g word := by
      rw [candidates, hword]
      rfl
    have hnumber : isNegativeNumber word.toList = false := by
      rw [hword]
      exact isNegativeNumber_hyphens cs
    rw [readsAsOperand_hyphen_iff g hword, hcandidates,
      longCandidates_eq_nil_iff, hnumber]
    constructor
    · rintro ⟨_, _, hlong, hblank⟩
      exact ⟨hblank.resolve_left Bool.false_ne_true, hlong⟩
    · rintro ⟨hblank, hlong⟩
      refine ⟨fun hmem => ?_, fun _ hmem => hlong _ hmem ?_, hlong, .inr hblank⟩
      · rcases isSpelling_cases (h word hmem) with
          ⟨c, hc, heq⟩ | ⟨name, heq, hname⟩
        · cases hword.symm.trans heq
          exact hc rfl
        · rw [heq] at hblank
          simp [hname] at hblank
      · exact ⟨[], by rw [List.append_nil, toList_front]⟩
  · next c cs hc hword =>
    have hcandidates : candidates g word = shortCandidates g word := by
      unfold candidates
      split
      · next hlong =>
        cases hword.symm.trans hlong
        exact absurd rfl hc
      · rfl
    rw [readsAsOperand_hyphen_iff g hword, hcandidates,
      shortCandidates_eq_nil_iff h hword hc]
    constructor
    · rintro ⟨_, _, hshort, hoperand⟩
      exact ⟨hoperand, hshort⟩
    · rintro ⟨hoperand, hshort⟩
      refine ⟨fun hmem => hshort ?_, fun _ hmem => hshort ?_, hshort, hoperand⟩
      · rw [← eq_short (h _ hmem) hc ⟨cs, hword.symm⟩]
        exact hmem
      · have hfront : (cutValue word).1.toList <+: '-' :: c :: cs := by
          rw [toList_front, ← hword]
          exact List.takeWhile_prefix _
        rw [← eq_short (h _ hmem) hc (short_front (h _ hmem) hfront)]
        exact hmem
  · next hlong hshort =>
    unfold Grammar.ReadsAsOperand classify
    split
    · next c cs hword => exact absurd hword (hshort c cs)
    · simp

theorem isOperand_of_head
    (g : Grammar)
    {word : String}
    (h : word.toList.head? ≠ some '-') :
    g.IsOperand word := by
  unfold Grammar.IsOperand
  split
  · next hword => simp [hword] at h
  · next hword => simp [hword] at h
  · trivial

end CommandLine
end Ambient
