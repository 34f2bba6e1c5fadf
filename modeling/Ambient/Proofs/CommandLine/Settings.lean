import Ambient.Proofs.CommandLine.Operand
import Ambient.Proofs.Outcome

/-!
# Command lines of one operand and flags in full

A command line that starts with an operand and goes on with flags in full, each
before its value, is accepted exactly if the operand and the values are read as
operands.  Then it gives back the operand and the flags with their values.
-/

namespace Ambient
namespace CommandLine

/-!
## Taking words
-/

theorem addSwitches_operands
    {t t' : Taken} {flags : List Flag}
    (h : addSwitches t flags = .ok t') :
    t'.operands = t.operands ∧ t'.extras = t.extras := by
  induction flags generalizing t with
  | nil =>
      cases h
      exact ⟨rfl, rfl⟩
  | cons f flags ih =>
      rw [addSwitches] at h
      split at h
      · cases h
      · obtain ⟨hoperands, hextras⟩ := ih h
        exact ⟨hoperands, hextras⟩

/-- A flag takes the operand after it at most, and leaves all but the flags as
it was. -/
theorem takeFlag_cases
    {g : Grammar} {f : Flag} {spelling : String} {value : Option String}
    {rest rest' : List Word} {t t' : Taken}
    (h : takeFlag g f spelling value rest t = .ok (t', rest')) :
    (t'.operands = t.operands ∧ t'.extras = t.extras) ∧
      (rest' = rest ∨ exists word, rest = .operand word :: rest') := by
  unfold takeFlag at h
  split at h
  · cases h
  split at h
  · obtain ⟨t'', hadd, h⟩ := bind_eq_ok h
    obtain ⟨hoperands, hextras⟩ := addSwitches_operands hadd
    cases h
    exact ⟨⟨hoperands, hextras⟩, .inl rfl⟩
  · obtain ⟨t'', hadd, h⟩ := bind_eq_ok h
    obtain ⟨hoperands, hextras⟩ := addSwitches_operands hadd
    cases h
    exact ⟨⟨hoperands, hextras⟩, .inr ⟨_, rfl⟩⟩
  · cases h
  · obtain ⟨t'', hadd, h⟩ := bind_eq_ok h
    cases h
    exact ⟨addSwitches_operands hadd, .inl rfl⟩

/-- A word that belongs nowhere stays to the end. -/
theorem takeAll_extras
    {g : Grammar} {fuel : Nat} {ws : List Word} {t t' : Taken}
    (h : takeAll g fuel ws t = .ok t')
    (hextras : t.extras ≠ []) :
    t'.extras ≠ [] := by
  induction fuel generalizing ws t with
  | zero =>
      cases h
      exact hextras
  | succ fuel ih =>
      unfold takeAll at h
      split at h
      · cases h
        exact hextras
      · obtain ⟨⟨t'', rest⟩, hflag, h⟩ := bind_eq_ok h
        refine ih h ?_
        rw [(takeFlag_cases hflag).1.2]
        exact hextras
      · exact ih h (by simp)
      · split at h
        · next htake =>
          refine ih h ?_
          unfold takeOperand at htake
          split at htake
          · cases htake
          · split at htake
            · cases htake
            · cases htake
              exact hextras
        · exact ih h (by simp)

/-!
## Settings
-/

/-- A flag in one of its spellings, with the value that is written after it. -/
structure Setting where
  flag : Flag
  spelling : String
  value : Option String

namespace Setting

/-- The words of a setting. -/
def words (x : Setting) : List String := x.spelling :: x.value.toList

/-- What a setting is to give: the key of the flag with its value. -/
def entry (x : Setting) : String × FlagValue :=
  (x.flag.key, (x.value.map .ofWord).getD .missing)

/-- The spelling is one of the flag, and there is a value if the flag takes
one. -/
structure Fits (g : Grammar) (x : Setting) : Prop where
  known : classify g x.spelling = .ok (.flag x.flag x.spelling none)
  ne_divider : x.spelling ≠ "--"
  action : x.flag.action = if x.value.isSome then .value else .switch

end Setting

/-- The words of settings. -/
def settingWords (settings : List Setting) : List String :=
  settings.flatMap Setting.words

/-- What the words of settings are, if the values are read as operands. -/
def settingClasses (settings : List Setting) : List Word :=
  settings.flatMap fun x =>
    .flag x.flag x.spelling none :: x.value.toList.map .operand

/-- What has been taken, and settings after it. -/
def Taken.set (t : Taken) (settings : List Setting) : Taken :=
  { t with flags := t.flags ++ settings.map Setting.entry }

theorem Taken.set_cons
    (t : Taken)
    (x : Setting)
    (settings : List Setting) :
    t.set (x :: settings) =
      Taken.set { t with flags := t.flags ++ [x.entry] } settings := by
  simp [Taken.set]

/-- The values of all settings are read as operands. -/
def ValuesRead (g : Grammar) (settings : List Setting) : Prop :=
  forall x, x ∈ settings -> forall value, x.value = some value ->
    g.ReadsAsOperand value

theorem valuesRead_cons
    {g : Grammar} {x : Setting} {settings : List Setting} :
    ValuesRead g (x :: settings) ↔
      (forall value, x.value = some value -> g.ReadsAsOperand value) ∧
        ValuesRead g settings :=
  List.forall_mem_cons

theorem classifyAll_divider
    (g : Grammar)
    (words : List String) :
    classifyAll g ("--" :: words) = .ok (.divider :: words.map .operand) :=
  if_pos rfl

theorem classifyAll_cons
    {g : Grammar} {word : String} {w : Word} {words : List String}
    {ws : List Word}
    (hne : word ≠ "--")
    (hword : classify g word = .ok w)
    (hwords : classifyAll g words = .ok ws) :
    classifyAll g (word :: words) = .ok (w :: ws) := by
  rw [classifyAll, if_neg hne, hword, hwords]
  rfl

theorem classifyAll_eq_ok
    {g : Grammar} {word : String} {words : List String} {ws : List Word}
    (hne : word ≠ "--")
    (h : classifyAll g (word :: words) = .ok ws) :
    exists w ws', classify g word = .ok w ∧ classifyAll g words = .ok ws' ∧
      ws = w :: ws' := by
  rw [classifyAll, if_neg hne] at h
  obtain ⟨w, hw, h⟩ := bind_eq_ok h
  obtain ⟨ws', hws', h⟩ := bind_eq_ok h
  cases h
  exact ⟨w, ws', hw, hws', rfl⟩

theorem length_classifyAll
    {g : Grammar} {words : List String} {ws : List Word}
    (h : classifyAll g words = .ok ws) :
    ws.length = words.length := by
  induction words generalizing ws with
  | nil =>
      cases h
      rfl
  | cons word words ih =>
      by_cases hdivider : word = "--"
      · subst hdivider
        cases (classifyAll_divider g words).symm.trans h
        simp
      · obtain ⟨w, ws', _, hws', rfl⟩ := classifyAll_eq_ok hdivider h
        rw [List.length_cons, List.length_cons, ih hws']

theorem classifyAll_settings
    {g : Grammar} {settings : List Setting}
    (hfits : forall x, x ∈ settings -> x.Fits g)
    (hread : ValuesRead g settings) :
    classifyAll g (settingWords settings) = .ok (settingClasses settings) := by
  induction settings with
  | nil => rfl
  | cons x settings ih =>
      obtain ⟨hx, hsettings⟩ := List.forall_mem_cons.mp hfits
      obtain ⟨hvalue, hmore⟩ := valuesRead_cons.mp hread
      obtain ⟨f, spelling, value⟩ := x
      refine classifyAll_cons hx.ne_divider hx.known ?_
      cases value with
      | none => exact ih hsettings hmore
      | some value =>
          have hvalue := hvalue value rfl
          exact classifyAll_cons hvalue.ne_divider hvalue (ih hsettings hmore)

/-- One step over a flag that is given. -/
theorem takeAll_switch
    {f : Flag}
    (h : f.action = .switch)
    (g : Grammar)
    (fuel : Nat)
    (spelling : String)
    (ws : List Word)
    (t : Taken) :
    takeAll g (fuel + 1) (.flag f spelling none :: ws) t =
      takeAll g fuel ws { t with flags := t.flags ++ [(f.key, .missing)] } := by
  have hadd : addSwitches t [f] =
      .ok { t with flags := t.flags ++ [(f.key, .missing)] } := by
    simp [addSwitches, h]
  rw [takeAll, takeFlag, flagsOf]
  simp only [h, List.nil_append, hadd]
  rfl

/-- One step over a flag that takes the operand after it. -/
theorem takeAll_value
    {f : Flag}
    (h : f.action = .value)
    (g : Grammar)
    (fuel : Nat)
    (spelling value : String)
    (ws : List Word)
    (t : Taken) :
    takeAll g (fuel + 1) (.flag f spelling none :: .operand value :: ws) t =
      takeAll g fuel ws
        { t with flags := t.flags ++ [(f.key, .ofWord value)] } := by
  rw [takeAll, takeFlag, flagsOf]
  simp only [h]
  rfl

/-- A flag that takes a value needs an operand after it. -/
theorem takeAll_noValue
    {f : Flag} {ws : List Word}
    (h : f.action = .value)
    (hws : forall value ws', ws ≠ .operand value :: ws')
    (g : Grammar)
    (fuel : Nat)
    (spelling : String)
    (t : Taken) :
    takeAll g (fuel + 1) (.flag f spelling none :: ws) t =
      .error (.usage (.missingValue f)) := by
  rw [takeAll, takeFlag, flagsOf]
  simp only [h]
  rfl

theorem length_settings_le
    {g : Grammar} {settings : List Setting} {ws : List Word}
    (h : classifyAll g (settingWords settings) = .ok ws) :
    settings.length ≤ ws.length := by
  have hwords : settings.length ≤ (settingWords settings).length := by
    clear h
    induction settings with
    | nil => exact Nat.le_refl 0
    | cons x settings ih =>
        simp only [settingWords, Setting.words, List.flatMap_cons,
          List.length_append, List.length_cons] at ih ⊢
        omega
  rw [length_classifyAll h]
  exact hwords

theorem takeAll_settings
    {g : Grammar} {settings : List Setting} {fuel : Nat}
    (hfits : forall x, x ∈ settings -> x.Fits g)
    (hfuel : settings.length < fuel)
    (t : Taken) :
    takeAll g fuel (settingClasses settings) t = .ok (t.set settings) := by
  induction settings generalizing fuel t with
  | nil =>
      cases fuel with
      | zero => contradiction
      | succ fuel => simp [settingClasses, takeAll, Taken.set]
  | cons x settings ih =>
      obtain ⟨hx, hsettings⟩ := List.forall_mem_cons.mp hfits
      cases fuel with
      | zero => contradiction
      | succ fuel =>
          have ih := ih hsettings (Nat.lt_of_succ_lt_succ hfuel)
          rw [Taken.set_cons, ← ih]
          obtain ⟨f, spelling, value⟩ := x
          cases value with
          | none => exact takeAll_switch hx.action g fuel spelling _ t
          | some value =>
              exact takeAll_value hx.action g fuel spelling value _ t

/-- Settings that are taken to the end have values that are read as operands. -/
theorem valuesRead_of_takeAll
    {g : Grammar} {settings : List Setting} {fuel : Nat} {ws : List Word}
    {t t' : Taken}
    (hfits : forall x, x ∈ settings -> x.Fits g)
    (hfuel : settings.length < fuel)
    (hws : classifyAll g (settingWords settings) = .ok ws)
    (h : takeAll g fuel ws t = .ok t') :
    ValuesRead g settings := by
  induction settings generalizing fuel ws t with
  | nil => exact List.forall_mem_nil _
  | cons x settings ih =>
      obtain ⟨hx, hsettings⟩ := List.forall_mem_cons.mp hfits
      obtain ⟨w, ws', hw, hws', rfl⟩ := classifyAll_eq_ok hx.ne_divider hws
      cases hx.known.symm.trans hw
      rw [valuesRead_cons]
      cases fuel with
      | zero => contradiction
      | succ fuel =>
          have ih {ws : List Word} {t : Taken} := @ih fuel ws t hsettings
            (Nat.lt_of_succ_lt_succ hfuel)
          obtain ⟨f, spelling, value⟩ := x
          cases value with
          | none =>
              rw [takeAll_switch hx.action] at h
              exact ⟨by simp, ih hws' h⟩
          | some value =>
              -- The flag takes the next word only if that is an operand.
              by_cases hdivider : value = "--"
              · subst hdivider
                cases (classifyAll_divider g (settingWords settings)).symm.trans
                  hws'
                rw [takeAll_noValue hx.action (by simp)] at h
                cases h
              · obtain ⟨w, ws'', hw, hws'', rfl⟩ :=
                  classifyAll_eq_ok hdivider hws'
                rcases classify_cases hw with
                  ⟨rfl, _⟩ | ⟨f', spelling', value', rfl⟩ | rfl
                · rw [takeAll_value hx.action] at h
                  refine ⟨?_, ih hws'' h⟩
                  rintro value ⟨⟩
                  exact hw
                · rw [takeAll_noValue hx.action (by simp)] at h
                  cases h
                · rw [takeAll_noValue hx.action (by simp)] at h
                  cases h

/-- Settings that are taken to the end leave the operand as it was. -/
theorem operands_of_takeAll
    {g : Grammar} {settings : List Setting} {fuel : Nat} {ws : List Word}
    {t t' : Taken}
    (hfits : forall x, x ∈ settings -> x.Fits g)
    (hfuel : settings.length < fuel)
    (hws : classifyAll g (settingWords settings) = .ok ws)
    (h : takeAll g fuel ws t = .ok t') :
    t'.operands = t.operands := by
  have hread := valuesRead_of_takeAll hfits hfuel hws h
  cases (classifyAll_settings hfits hread).symm.trans hws
  cases (takeAll_settings hfits hfuel t).symm.trans h
  rfl

/-!
## One operand before settings
-/

/-- The operand takes one word if that is an operand and no other one
follows. -/
theorem takeAll_operand
    {g : Grammar} {ws : List Word} {t : Taken}
    (hws : forall w, w ∈ ws.head? -> w.isFlag = true)
    (ht : t.operands = none)
    (fuel : Nat)
    (word : String) :
    takeAll g (fuel + 1) (.operand word :: ws) t =
      takeAll g fuel ws { t with operands := some [word] } := by
  have hwords : operandWords g.several (.operand word :: ws) =
      [.operand word] := by
    cases ws with
    | nil => simp [operandWords]
    | cons w ws =>
        have hw := hws w rfl
        have hdivider : (w == .divider) = false := by
          cases w with
          | divider => cases hw
          | _ => rfl
        simp [operandWords, hw, hdivider]
  have htake : takeOperand g (.operand word :: ws) t =
      some ({ t with operands := some [word] }, ws) := by
    rw [takeOperand, ht, hwords]
    rfl
  simp only [takeAll, htake]

theorem isFlag_head_settings
    {g : Grammar} {settings : List Setting} {ws : List Word} {w : Word}
    (hfits : forall x, x ∈ settings -> x.Fits g)
    (hws : classifyAll g (settingWords settings) = .ok ws)
    (h : w ∈ ws.head?) :
    w.isFlag = true := by
  cases settings with
  | nil =>
      cases hws
      cases h
  | cons x settings =>
      have hx := hfits x List.mem_cons_self
      obtain ⟨w', ws', hw', _, rfl⟩ := classifyAll_eq_ok hx.ne_divider hws
      cases hx.known.symm.trans hw'
      cases h
      rfl

/-- An operand and settings are given back if they are read as such. -/
theorem parse_settings
    {g : Grammar} {word : String} {settings : List Setting}
    (hfits : forall x, x ∈ settings -> x.Fits g)
    (hword : g.ReadsAsOperand word)
    (hread : ValuesRead g settings) :
    parse g (word :: settingWords settings) =
      .ok ([word], settings.map Setting.entry) := by
  have hclasses := classifyAll_settings hfits hread
  have hfuel := length_settings_le hclasses
  rw [parse, classifyAll_cons hword.ne_divider hword hclasses]
  simp only [List.length_cons]
  rw [takeAll_operand (fun _ => isFlag_head_settings hfits hclasses) rfl,
    takeAll_settings hfits (by omega)]
  rfl

/-- After two hyphens, an operand that is single leaves the second word over. -/
theorem takeAll_divider
    {g : Grammar} {fuel : Nat} {words : List String} {t t' : Taken}
    (hseveral : g.several = false)
    (hlong : 2 ≤ words.length)
    (hfuel : words.length < fuel)
    (ht : t.operands = none)
    (h : takeAll g fuel (.divider :: words.map .operand) t = .ok t') :
    t'.extras ≠ [] := by
  obtain _ | _ | fuel := fuel
  · omega
  · omega
  match words, hlong with
  | first :: second :: rest, _ =>
      have htake : takeOperand g
          (.divider :: (first :: second :: rest).map .operand) t =
          some ({ t with operands := some [first] },
            (second :: rest).map .operand) := by
        simp [takeOperand, ht, operandWords, hseveral, operandValues, Word.text]
      simp only [takeAll, htake] at h
      exact takeAll_extras h (by simp)

/-- Only an operand and settings that are read as such are accepted. -/
theorem read_of_parse
    {g : Grammar} {word : String} {settings : List Setting}
    {result : List String × List (String × FlagValue)}
    (hseveral : g.several = false)
    (hfits : forall x, x ∈ settings -> x.Fits g)
    (hlong : 2 ≤ (settingWords settings).length)
    (h : parse g (word :: settingWords settings) = .ok result) :
    g.ReadsAsOperand word ∧ ValuesRead g settings := by
  unfold parse at h
  split at h
  · cases h
  next ws hws =>
  obtain ⟨t, htake, h⟩ := bind_eq_ok h
  have haccepted : t.operands ≠ none ∧ t.extras = [] := by
    split at h
    · cases h
    · next hoperands =>
      split at h
      · next hextras => exact ⟨by simp [hoperands], List.isEmpty_iff.mp hextras⟩
      · cases h
  by_cases hdivider : word = "--"
  · subst hdivider
    cases (classifyAll_divider g (settingWords settings)).symm.trans hws
    have hfuel : (settingWords settings).length <
        (Word.divider :: (settingWords settings).map Word.operand).length +
          1 := by
      rw [List.length_cons, List.length_map]
      omega
    exact absurd haccepted.2 (takeAll_divider hseveral hlong hfuel rfl htake)
  · obtain ⟨w, ws', hw, hws', rfl⟩ := classifyAll_eq_ok hdivider hws
    have hhead {w' : Word} := @isFlag_head_settings g settings ws' w' hfits hws'
    have hfuel : settings.length < (w :: ws').length := by
      have hlength := length_settings_le hws'
      rw [List.length_cons]
      omega
    rcases classify_cases hw with ⟨rfl, _⟩ | ⟨f', spelling', value', rfl⟩ | rfl
    · rw [takeAll_operand (fun _ => hhead) rfl] at htake
      exact ⟨hw, valuesRead_of_takeAll hfits hfuel hws' htake⟩
    · -- The first flag takes no word of the settings, so that the operand is
      -- missing.
      obtain ⟨⟨t', rest⟩, hflag, htake⟩ := bind_eq_ok htake
      obtain ⟨⟨hoperands, _⟩, rfl | ⟨value, rfl⟩⟩ := takeFlag_cases hflag
      · exact absurd ((operands_of_takeAll hfits hfuel hws' htake).trans
          hoperands) haccepted.1
      · cases hhead rfl
    · exact absurd (operands_of_takeAll hfits hfuel hws' htake) haccepted.1

end CommandLine
end Ambient
