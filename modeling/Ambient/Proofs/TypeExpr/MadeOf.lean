import Ambient.Proofs.Outcome
import Ambient.TypeExpr.Parser

/-!
# What trees are made of

The texts in the tree of an annotation are texts of its tokens, every union in
it has at least two members, and every generic type at least one argument.  The
descent through the rules of the grammar keeps this, whatever is asked of the
tokens.
-/

namespace Ambient
namespace TypeExpr

variable {Q : Token -> Prop}

/-- A key that is the text of a token. -/
def KeyMadeOf (Q : Token -> Prop) (key : String) : Prop :=
  exists t, recordKey? t = some key ∧ Q t

mutual

/-- A tree whose texts are those of tokens with the property `Q`. -/
def MadeOf (Q : Token -> Prop) : TypeExpr -> Prop
  | any => True
  | name t => Q (.name t)
  | literal t => Q (.quoted t) ∨ Q (.number t)
  | generic base args => Q (.name base) ∧ args ≠ [] ∧ AllMadeOf Q args
  | array e => MadeOf Q e
  | union members => 2 ≤ members.length ∧ AllMadeOf Q members
  | nullable e => MadeOf Q e
  | function => True
  | record entries => EntriesMadeOf Q entries

/-- Trees that all are made of tokens with the property `Q`. -/
def AllMadeOf (Q : Token -> Prop) : List TypeExpr -> Prop
  | [] => True
  | e :: es => MadeOf Q e ∧ AllMadeOf Q es

/-- Entries that all are made of tokens with the property `Q`. -/
def EntriesMadeOf (Q : Token -> Prop) : List RecordEntry -> Prop
  | [] => True
  | entry :: entries => EntryMadeOf Q entry ∧ EntriesMadeOf Q entries

/-- An entry of a record that is made of tokens with the property `Q`. -/
def EntryMadeOf (Q : Token -> Prop) : RecordEntry -> Prop
  | .bare key _ => KeyMadeOf Q key
  | .field key _ value => KeyMadeOf Q key ∧ MadeOf Q value
  | .index key keyType value =>
      Q (.name key) ∧ MadeOf Q keyType ∧ MadeOf Q value

end

/-- Tokens that all have the property `Q`. -/
def Holds (Q : Token -> Prop) (ts : List Token) : Prop :=
  forall t, t ∈ ts -> Q t

theorem Holds.head
    {t : Token} {ts : List Token}
    (h : Holds Q (t :: ts)) :
    Q t :=
  h t List.mem_cons_self

theorem Holds.tail
    {t : Token} {ts : List Token}
    (h : Holds Q (t :: ts)) :
    Holds Q ts :=
  fun u hu => h u (List.mem_cons_of_mem t hu)

/-!
## Rules that only pass over tokens
-/

theorem Holds.skipMark
    {c : Char} {ts : List Token}
    (h : Holds Q ts) :
    Holds Q (skipMark c ts) := by
  unfold TypeExpr.skipMark
  split
  · split
    · exact h.tail
    · exact h
  · exact h

theorem Holds.expect
    {c : Char} {ts rest : List Token}
    (h : Holds Q ts)
    (hexpect : expect c ts = .ok rest) :
    Holds Q rest := by
  unfold TypeExpr.expect at hexpect
  split at hexpect
  · split at hexpect
    · cases hexpect
      exact h.tail
    · contradiction
  · contradiction

theorem Holds.skipSignature
    {depth : Nat} {ts rest : List Token}
    (h : Holds Q ts)
    (hskip : skipSignature depth ts = .ok rest) :
    Holds Q rest := by
  induction ts generalizing depth with
  | nil =>
      cases depth with
      | zero =>
          cases hskip
          exact h
      | succ depth => contradiction
  | cons t ts ih =>
      cases depth with
      | zero =>
          cases hskip
          exact h
      | succ depth =>
          rw [TypeExpr.skipSignature] at hskip
          split at hskip
          · exact ih h.tail hskip
          · split at hskip
            · exact ih h.tail hskip
            · exact ih h.tail hskip

theorem MadeOf.arrays
    {e e' : TypeExpr} {ts rest : List Token}
    (he : MadeOf Q e)
    (h : Holds Q ts)
    (harrays : arrays e ts = .ok (e', rest)) :
    MadeOf Q e' ∧ Holds Q rest := by
  induction e, ts using arrays.induct with
  | case1 e ts ih =>
      rw [TypeExpr.arrays] at harrays
      exact ih (by simpa only [MadeOf] using he) h.tail.tail harrays
  | case2 e ts hclose =>
      rw [TypeExpr.arrays] at harrays
      · contradiction
      · exact hclose
  | case3 e ts hopen hother =>
      rw [TypeExpr.arrays] at harrays
      · cases harrays
        exact ⟨he, h⟩
      · exact hopen
      · exact hother

theorem MadeOf.markers
    {e : TypeExpr} {ts : List Token}
    (he : MadeOf Q e)
    (h : Holds Q ts) :
    MadeOf Q (markers e ts).1 ∧ Holds Q (markers e ts).2 := by
  unfold TypeExpr.markers
  split
  · exact ⟨by simpa only [MadeOf] using he, h.skipMark.skipMark⟩
  · exact ⟨he, h.skipMark.skipMark⟩

/-!
## The rules of the grammar

The descent is by fuel: what each rule keeps is assumed of all rules with less
fuel.
-/

/-- A rule that gives what satisfies `P` from tokens with the property `Q`, and
leaves such tokens. -/
def Keeps {α : Type} (Q : Token -> Prop) (P : α -> Prop)
    (rule : List Token -> Except SyntaxError (α × List Token)) : Prop :=
  forall {ts : List Token} {a : α} {rest : List Token},
    Holds Q ts -> rule ts = .ok (a, rest) -> P a ∧ Holds Q rest

/-- What the rules of the grammar keep with some fuel. -/
structure RulesKeep (Q : Token -> Prop) (fuel : Nat) : Prop where
  union : Keeps Q (MadeOf Q) (unionRule fuel)
  alternatives : Keeps Q (AllMadeOf Q) (alternatives fuel)
  suffixed : Keeps Q (MadeOf Q) (suffixedRule fuel)
  prefixed : Keeps Q (MadeOf Q) (prefixedRule fuel)
  primary : Keeps Q (MadeOf Q) (primaryRule fuel)
  name : forall {t : String}, Q (.name t) ->
    Keeps Q (MadeOf Q) (nameRule fuel t)
  arguments : Keeps Q (fun es => es ≠ [] ∧ AllMadeOf Q es) (argumentsRule fuel)
  record : Keeps Q (EntriesMadeOf Q) (recordRule fuel)
  entry : Keeps Q (EntryMadeOf Q) (entryRule fuel)

theorem rulesKeep_zero : RulesKeep Q 0 := by
  constructor <;> intros <;> intro ts a rest hts h <;> contradiction

section Step

variable {fuel : Nat} (hrules : RulesKeep Q fuel)

include hrules

theorem unionRule_keeps : Keeps Q (MadeOf Q) (unionRule (fuel + 1)) := by
  intro ts a rest hts h
  rw [unionRule] at h
  rcases bind_eq_ok h with ⟨⟨first, ts1⟩, hfirst, h⟩
  rcases bind_eq_ok h with ⟨⟨others, ts2⟩, hothers, h⟩
  rcases hrules.suffixed hts hfirst with ⟨hfirstMade, hts1⟩
  rcases hrules.alternatives hts1 hothers with ⟨hothersMade, hts2⟩
  cases h
  refine ⟨?_, hts2⟩
  cases others with
  | nil => exact hfirstMade
  | cons second others => exact ⟨Nat.le_add_left 2 _, hfirstMade, hothersMade⟩

theorem alternatives_keeps :
    Keeps Q (AllMadeOf Q) (alternatives (fuel + 1)) := by
  intro ts a rest hts h
  rw [alternatives] at h
  split at h
  · rcases bind_eq_ok h with ⟨⟨e, ts1⟩, he, h⟩
    rcases bind_eq_ok h with ⟨⟨es, ts2⟩, hes, h⟩
    rcases hrules.suffixed hts.skipMark he with ⟨heMade, hts1⟩
    rcases hrules.alternatives hts1 hes with ⟨hesMade, hts2⟩
    cases h
    exact ⟨⟨heMade, hesMade⟩, hts2⟩
  · cases h
    exact ⟨trivial, hts⟩

theorem suffixedRule_keeps : Keeps Q (MadeOf Q) (suffixedRule (fuel + 1)) := by
  intro ts a rest hts h
  rw [suffixedRule] at h
  rcases bind_eq_ok h with ⟨⟨e, ts1⟩, he, h⟩
  rcases bind_eq_ok h with ⟨⟨e', ts2⟩, he', h⟩
  rcases hrules.prefixed hts he with ⟨heMade, hts1⟩
  rcases heMade.arrays hts1 he' with ⟨heMade', hts2⟩
  have hmarkers := heMade'.markers hts2
  rw [show markers e' ts2 = (a, rest) from Except.ok.inj h] at hmarkers
  exact hmarkers

theorem prefixedRule_keeps : Keeps Q (MadeOf Q) (prefixedRule (fuel + 1)) := by
  intro ts a rest hts h
  unfold prefixedRule at h
  split at h
  · split at h
    · cases h
      exact ⟨by simp only [MadeOf], hts.tail⟩
    · rcases bind_eq_ok h with ⟨⟨e, ts1⟩, he, h⟩
      rcases hrules.prefixed hts.tail he with ⟨heMade, hts1⟩
      cases h
      exact ⟨by simpa only [MadeOf] using heMade, hts1⟩
  · exact hrules.prefixed hts.tail h
  · exact hrules.prefixed hts.tail h
  · exact hrules.primary hts h

theorem primaryRule_keeps : Keeps Q (MadeOf Q) (primaryRule (fuel + 1)) := by
  intro ts a rest hts h
  unfold primaryRule at h
  split at h
  · rcases bind_eq_ok h with ⟨⟨e, ts1⟩, he, h⟩
    rcases bind_eq_ok h with ⟨ts2, hclose, h⟩
    rcases hrules.union hts.tail he with ⟨heMade, hts1⟩
    cases h
    exact ⟨heMade, hts1.expect hclose⟩
  · cases h
    exact ⟨by simp only [MadeOf], hts.tail⟩
  · split at h
    · cases h
      exact ⟨by simp only [MadeOf, EntriesMadeOf], hts.tail.skipMark⟩
    · rcases bind_eq_ok h with ⟨⟨entries, ts1⟩, hentries, h⟩
      rcases hrules.record hts.tail hentries with ⟨hmade, hts1⟩
      cases h
      exact ⟨by simpa only [MadeOf] using hmade, hts1⟩
  · contradiction
  · cases h
    exact ⟨Or.inl hts.head, hts.tail⟩
  · cases h
    exact ⟨Or.inr hts.head, hts.tail⟩
  · exact hrules.name hts.head hts.tail h
  · contradiction
  · contradiction

theorem nameRule_keeps
    {t : String}
    (ht : Q (.name t)) :
    Keeps Q (MadeOf Q) (nameRule (fuel + 1) t) := by
  intro ts a rest hts h
  unfold nameRule at h
  split at h
  · rcases bind_eq_ok h with ⟨ts1, hskip, h⟩
    have hts1 := hts.skipMark.skipSignature hskip
    split at h
    · rcases bind_eq_ok h with ⟨⟨e, ts2⟩, he, h⟩
      rcases hrules.suffixed hts1.skipMark he with ⟨_, hts2⟩
      cases h
      exact ⟨by simp only [MadeOf], hts2⟩
    · cases h
      exact ⟨by simp only [MadeOf], hts1⟩
  · split at h
    · rcases bind_eq_ok h with ⟨⟨args, ts1⟩, hargs, h⟩
      rcases hrules.arguments hts.tail hargs with ⟨hmade, hts1⟩
      cases h
      exact ⟨⟨ht, hmade⟩, hts1⟩
    · rcases bind_eq_ok h with ⟨⟨args, ts1⟩, hargs, h⟩
      rcases hrules.arguments hts.tail hargs with ⟨hmade, hts1⟩
      cases h
      exact ⟨⟨ht, hmade⟩, hts1⟩
    · cases h
      exact ⟨ht, hts⟩

theorem argumentsRule_keeps :
    Keeps Q (fun es => es ≠ [] ∧ AllMadeOf Q es)
      (argumentsRule (fuel + 1)) := by
  intro ts a rest hts h
  rw [argumentsRule] at h
  rcases bind_eq_ok h with ⟨⟨e, ts1⟩, he, h⟩
  rcases hrules.union hts he with ⟨heMade, hts1⟩
  dsimp only at h
  split at h
  · rcases bind_eq_ok h with ⟨⟨es, ts2⟩, hes, h⟩
    rcases hrules.arguments hts1.skipMark hes with ⟨hesMade, hts2⟩
    cases h
    exact ⟨⟨List.cons_ne_nil e es, heMade, hesMade.2⟩, hts2⟩
  · rcases bind_eq_ok h with ⟨ts2, hclose, h⟩
    cases h
    exact ⟨⟨List.cons_ne_nil e [], heMade, trivial⟩, hts1.expect hclose⟩

theorem recordRule_keeps :
    Keeps Q (EntriesMadeOf Q) (recordRule (fuel + 1)) := by
  intro ts a rest hts h
  rw [recordRule] at h
  rcases bind_eq_ok h with ⟨⟨entry, ts1⟩, hentry, h⟩
  rcases hrules.entry hts hentry with ⟨hmade, hts1⟩
  dsimp only at h
  split at h
  · cases h
    exact ⟨⟨hmade, trivial⟩, hts1.skipMark⟩
  · rcases bind_eq_ok h with ⟨ts2, hcomma, h⟩
    rcases bind_eq_ok h with ⟨⟨entries, ts3⟩, hentries, h⟩
    rcases hrules.record (hts1.expect hcomma) hentries with ⟨hentriesMade, hts3⟩
    cases h
    exact ⟨⟨hmade, hentriesMade⟩, hts3⟩

theorem entryRule_keeps : Keeps Q (EntryMadeOf Q) (entryRule (fuel + 1)) := by
  intro ts a rest hts h
  unfold entryRule at h
  split at h
  · split at h
    · rcases bind_eq_ok h with ⟨ts1, hcolon, h⟩
      rcases bind_eq_ok h with ⟨⟨keyType, ts2⟩, hkeyType, h⟩
      rcases bind_eq_ok h with ⟨ts3, hclose, h⟩
      rcases bind_eq_ok h with ⟨ts4, hcolon', h⟩
      rcases bind_eq_ok h with ⟨⟨value, ts5⟩, hvalue, h⟩
      rcases hrules.union (hts.tail.tail.expect hcolon) hkeyType with
        ⟨hkeyTypeMade, hts2⟩
      rcases hrules.union ((hts2.expect hclose).expect hcolon') hvalue with
        ⟨hvalueMade, hts5⟩
      cases h
      exact ⟨⟨hts.tail.head, hkeyTypeMade, hvalueMade⟩, hts5⟩
    · contradiction
  · contradiction
  · split at h
    · contradiction
    · rename_i key hkey
      have hkeyMade : KeyMadeOf Q key := ⟨_, hkey, hts.head⟩
      dsimp only at h
      split at h
      · rcases bind_eq_ok h with ⟨⟨value, ts2⟩, hvalue, h⟩
        rcases hrules.union hts.tail.skipMark.skipMark hvalue with
          ⟨hvalueMade, hts2⟩
        cases h
        exact ⟨⟨hkeyMade, hvalueMade⟩, hts2⟩
      · cases h
        exact ⟨hkeyMade, hts.tail.skipMark⟩

end Step

theorem rulesKeep (Q : Token -> Prop) (fuel : Nat) : RulesKeep Q fuel := by
  induction fuel with
  | zero => exact rulesKeep_zero
  | succ fuel ih =>
      exact {
        union := unionRule_keeps ih
        alternatives := alternatives_keeps ih
        suffixed := suffixedRule_keeps ih
        prefixed := prefixedRule_keeps ih
        primary := primaryRule_keeps ih
        name := nameRule_keeps ih
        arguments := argumentsRule_keeps ih
        record := recordRule_keeps ih
        entry := entryRule_keeps ih }

theorem ofTokens_eq_ok_iff
    {ts : List Token} {e : TypeExpr} :
    ofTokens ts = .ok e ↔ unionRule (fuelFor ts) ts = .ok (e, []) := by
  constructor
  · intro h
    rcases bind_eq_ok h with ⟨⟨e', rest⟩, hunion, h⟩
    dsimp only at h
    split at h
    · rename_i hempty
      cases h
      rw [hunion, List.isEmpty_iff.mp hempty]
    · contradiction
  · intro h
    rw [ofTokens, h]
    rfl

theorem ofTokens_madeOf
    {ts : List Token} {e : TypeExpr}
    (hts : Holds Q ts)
    (h : ofTokens ts = .ok e) :
    MadeOf Q e :=
  ((rulesKeep Q (fuelFor ts)).union hts (ofTokens_eq_ok_iff.mp h)).1

end TypeExpr
end Ambient
