import Ambient.Pipeline
import Ambient.Proofs.CommandLine.Settings
import Ambient.Proofs.Path

/-!
# What the pipeline passes on

The pipeline passes its destination, module and options file on to the
converter, each as a word after a flag in full, and the path of the dump before
them.  The converter takes from these words what the pipeline was asked for
exactly if each value is an operand for it.  All values that do not start with a
hyphen are; some that do are not.
-/

namespace Ambient
namespace Pipeline

open CommandLine

/-- What the converter is to be asked for. -/
def passedOn (args : Args) : ConverterArgs where
  doclets := args.doclets.word
  destination := some args.destination
  module := (FlagValue.text? args.module).map .text
  includePrivate := args.includePrivate
  noComments := false
  noTypedefInterfaces := false
  config := (FlagValue.text? args.config).map .text
  query := none
  verbose := false

/-- The values that are passed on: the path of the dump, the destination, and
the module and the options file if they are there and not empty. -/
def passedValues (args : Args) : List String :=
  [args.doclets.word, args.destination.word] ++
    (FlagValue.text? args.module).toList ++
    (FlagValue.text? args.config).toList

/-!
## The words as settings
-/

/-- The setting of a flag that takes a value, by its long spelling. -/
def valueSetting (key : String) (spellings : List String)
    (spelling value : String) : Setting :=
  ⟨⟨key, spellings, .value⟩, spelling, some value⟩

/-- The settings that are passed on. -/
def settings (args : Args) : List Setting :=
  [valueSetting "destination" ["-d", "--destination"] "--destination"
    args.destination.word] ++
    (FlagValue.text? args.module).toList.map
      (valueSetting "module" ["-m", "--module"] "--module") ++
    (if args.includePrivate
      then [⟨⟨"private", ["--private"], .switch⟩, "--private", none⟩]
      else []) ++
    (FlagValue.text? args.config).toList.map
      (valueSetting "config" ["--config"] "--config")

theorem converterWords_eq
    (args : Args) :
    converterWords args = args.doclets.word ::
      settingWords (settings args) := by
  unfold converterWords settings flagWords
  cases FlagValue.text? args.module <;> cases args.includePrivate <;>
    cases FlagValue.text? args.config <;> rfl

theorem fits_valueSetting
    {key spelling : String} {spellings : List String}
    (hknown : classify ConverterArgs.grammar spelling =
      .ok (.flag ⟨key, spellings, .value⟩ spelling none))
    (hne : spelling ≠ "--")
    (value : String) :
    (valueSetting key spellings spelling value).Fits ConverterArgs.grammar :=
  ⟨hknown, hne, rfl⟩

theorem fits_settings
    {args : Args} {x : Setting}
    (h : x ∈ settings args) :
    x.Fits ConverterArgs.grammar := by
  simp only [settings, List.mem_append, List.mem_singleton, List.mem_map] at h
  rcases h with ((rfl | ⟨value, _, rfl⟩) | hprivate) | ⟨value, _, rfl⟩
  · exact fits_valueSetting rfl (by decide) _
  · exact fits_valueSetting rfl (by decide) _
  · split at hprivate
    · cases List.mem_singleton.mp hprivate
      exact ⟨rfl, by decide, rfl⟩
    · cases hprivate
  · exact fits_valueSetting rfl (by decide) _

theorem valuesRead_settings_iff
    (g : Grammar)
    (args : Args) :
    g.ReadsAsOperand args.doclets.word ∧ ValuesRead g (settings args) ↔
      forall value, value ∈ passedValues args -> g.ReadsAsOperand value := by
  unfold ValuesRead settings passedValues
  cases FlagValue.text? args.module <;> cases args.includePrivate <;>
    cases FlagValue.text? args.config <;> simp [valueSetting]

theorem two_le_length_settingWords
    (args : Args) :
    2 ≤ (settingWords (settings args)).length := by
  simp [settings, settingWords, Setting.words, valueSetting]

/-- The keys that are passed on, with their values. -/
def passedEntries (args : Args) : List (String × FlagValue) :=
  [("destination", .text args.destination.word)] ++
    (FlagValue.text? args.module).toList.map (fun s => ("module", .text s)) ++
    (if args.includePrivate then [("private", .missing)] else []) ++
    (FlagValue.text? args.config).toList.map (fun s => ("config", .text s))

theorem entries_settings
    {args : Args}
    (h : forall value, value ∈ passedValues args -> value ≠ "--") :
    (settings args).map Setting.entry = passedEntries args := by
  have hentry (key spelling : String) (spellings : List String) {value : String}
      (hvalue : value ∈ passedValues args) :
      (valueSetting key spellings spelling value).entry = (key, .text value) :=
    Prod.ext rfl (if_neg (h value hvalue))
  have hdestination : args.destination.word ∈ passedValues args := by
    simp [passedValues]
  have hmodule {s : String} (hs : s ∈ (FlagValue.text? args.module).toList) :
      s ∈ passedValues args := by
    simp [passedValues, Option.mem_toList.mp hs]
  have hconfig {s : String} (hs : s ∈ (FlagValue.text? args.config).toList) :
      s ∈ passedValues args := by
    simp [passedValues, Option.mem_toList.mp hs]
  simp only [settings, passedEntries, List.map_append, List.map_map,
    List.map_singleton]
  congr 1
  · congr 1
    · congr 1
      · rw [hentry _ _ _ hdestination]
      · exact List.map_congr_left fun s hs => hentry _ _ _ (hmodule hs)
    · split <;> rfl
  · exact List.map_congr_left fun s hs => hentry _ _ _ (hconfig hs)

/-- What the converter takes from the words, once it reads them as they are
meant. -/
theorem parse_converterWords
    {args : Args}
    (hread : forall value, value ∈ passedValues args ->
      ConverterArgs.grammar.ReadsAsOperand value) :
    ConverterArgs.parse (converterWords args) =
      .ok { passedOn args with
        doclets := Path.normalize args.doclets.word
        destination := some (.text args.destination.word) } := by
  obtain ⟨hword, hvalues⟩ := (valuesRead_settings_iff _ args).mpr hread
  have hparse := parse_settings (fun _ => fits_settings) hword hvalues
  rw [entries_settings fun value hvalue => (hread value hvalue).ne_divider]
    at hparse
  rw [ConverterArgs.parse, converterWords_eq, hparse, passedOn, passedEntries]
  cases FlagValue.text? args.module <;> cases args.includePrivate <;>
    cases FlagValue.text? args.config <;> rfl

theorem read_of_parse_converterWords
    {args : Args} {taken : ConverterArgs}
    (h : ConverterArgs.parse (converterWords args) = .ok taken) :
    forall value, value ∈ passedValues args ->
      ConverterArgs.grammar.ReadsAsOperand value := by
  obtain ⟨result, hparse, _⟩ := bind_eq_ok h
  rw [converterWords_eq] at hparse
  exact (valuesRead_settings_iff _ args).mp
    (read_of_parse rfl (fun _ => fits_settings)
      (two_le_length_settingWords args) hparse)

/-!
## The two commands
-/

/-- The path of a dump that can be opened is in normal form. -/
theorem normalize_doclets
    {words : List String} {args : Args} {disk : Disk}
    (h : Args.parse words = .ok args)
    (hopen : openOutput disk (some args.doclets) = .ok ()) :
    Path.normalize args.doclets.word = args.doclets.word := by
  obtain ⟨result, _, h⟩ := bind_eq_ok h
  cases h
  dsimp only at hopen ⊢
  generalize (lastValue? "doclets" result.2).getD (.text "doclets.json") =
    value at hopen ⊢
  cases value with
  | text path => exact Path.normalize_normalize path
  | missing => cases hopen

theorem text_word
    {value : FlagValue}
    (h : value ≠ .missing) :
    FlagValue.text value.word = value := by
  cases value with
  | text s => rfl
  | missing => exact absurd rfl h

theorem commands_run
    {args : Args} {disk : Disk} {codes : Nat -> Int}
    (hopen : openOutput disk (some args.doclets) = .ok ())
    (hcode : codes 0 = 0)
    (interpreter : String) :
    (run interpreter args disk codes).commands =
      [dumpCommand args, convertCommand interpreter args] := by
  have hdump : openOutput disk (dumpCommand args).output = .ok () := hopen
  have hconvert : openOutput disk (convertCommand interpreter args).output =
      .ok () := rfl
  simp only [run, runCommands, hdump, hconvert, if_pos hcode]
  split <;> rfl

/-- Once the first command of an accepted command line has succeeded, the
converter takes from the words that it is given what the pipeline was asked for,
exactly if there is a destination and each value is an operand.  That is so of
all values that do not start with a hyphen. -/
theorem converter_agrees_iff
    {words : List String} {args : Args}
    (hparse : Args.parse words = .ok args)
    (interpreter : String)
    (disk : Disk)
    (codes : Nat -> Int)
    (hopen : openOutput disk (some args.doclets) = .ok ())
    (hcode : codes 0 = 0) :
    exists passed,
      (run interpreter args disk codes).commands =
        [dumpCommand args,
          ⟨[interpreter, "-m", "jsdoc_dts.jsdoc_to_dts"] ++ passed, none⟩] ∧
      (ConverterArgs.parse passed = .ok (passedOn args) ↔
        args.destination ≠ .missing ∧
          forall value, value ∈ passedValues args ->
            ConverterArgs.grammar.IsOperand value) ∧
      (args.destination ≠ .missing ->
        (forall value, value ∈ passedValues args ->
          value.toList.head? ≠ some '-') ->
          ConverterArgs.parse passed = .ok (passedOn args)) := by
  have hspelled : ConverterArgs.grammar.WellSpelled := by decide
  have hagrees : ConverterArgs.parse (converterWords args) =
      .ok (passedOn args) ↔
      args.destination ≠ .missing ∧
        forall value, value ∈ passedValues args ->
          ConverterArgs.grammar.IsOperand value := by
    simp only [← readsAsOperand_iff hspelled]
    refine ⟨fun h => ⟨fun hmissing => ?_, read_of_parse_converterWords h⟩, ?_⟩
    · rw [parse_converterWords (read_of_parse_converterWords h)] at h
      simp [passedOn, hmissing] at h
    · rintro ⟨hdestination, hread⟩
      rw [parse_converterWords hread, text_word hdestination,
        normalize_doclets hparse hopen]
      rfl
  refine ⟨converterWords args, commands_run hopen hcode interpreter,
    hagrees, ?_⟩
  intro hdestination hhead
  exact hagrees.mpr ⟨hdestination, fun value hvalue =>
    isOperand_of_head _ (hhead value hvalue)⟩

/-- A command line with values that start with a hyphen and are no flags: a
negative number, and a name with a blank. -/
def hyphenWords : List String :=
  ["src", "--destination=-1.5", "--module", "My Lib", "--private", "--doclets",
    "./out//a.json", "--config", "-x y.yml"]

/-- What the command line asks for. -/
def hyphenArgs : Args where
  sources := ["src"]
  destination := .text "-1.5"
  module := some (.text "My Lib")
  includePrivate := true
  config := some (.text "-x y.yml")
  doclets := .text "out/a.json"
  jsdoc := .text "jsdoc"

theorem converter_agrees_hyphens :
    Args.parse hyphenWords = .ok hyphenArgs ∧
      exists passed,
        (run "interpreter" hyphenArgs ⟨[(["out"], .directory)]⟩ fun _ =>
          0).commands =
          [dumpCommand hyphenArgs,
            ⟨["interpreter", "-m", "jsdoc_dts.jsdoc_to_dts"] ++ passed, none⟩] ∧
        ConverterArgs.parse passed = .ok (passedOn hyphenArgs) := by
  have hparse : Args.parse hyphenWords = .ok hyphenArgs := rfl
  obtain ⟨passed, hcommands, hagrees, _⟩ :=
    converter_agrees_iff hparse "interpreter"
    ⟨[(["out"], .directory)]⟩ (fun _ => 0) rfl rfl
  refine ⟨hparse, passed, hcommands,
    hagrees.mpr ⟨by decide, fun value hvalue => ?_⟩⟩
  change value ∈ ["out/a.json", "-1.5", "My Lib", "-x y.yml"] at hvalue
  simp only [List.mem_cons, List.not_mem_nil, or_false] at hvalue
  rcases hvalue with rfl | rfl | rfl | rfl
  · exact isOperand_of_head _ (by decide)
  · exact ⟨.inl rfl, by decide⟩
  · exact isOperand_of_head _ (by decide)
  · exact ⟨.inr (by decide), by decide⟩

/-- A destination that is accepted after an equals sign is not accepted as a
word of its own. -/
theorem not_accepted_hyphen :
    exists args, Args.parse ["src", "--destination=-x"] = .ok args ∧
      openOutput ⟨[]⟩ (some args.doclets) = .ok () ∧
      (run "interpreter" args ⟨[]⟩ fun _ => 0).commands =
        [dumpCommand args, ⟨["interpreter", "-m", "jsdoc_dts.jsdoc_to_dts"] ++
          ["doclets.json", "--destination", "-x"], none⟩] ∧
      ConverterArgs.parse ["doclets.json", "--destination", "-x"] =
        .error (.usage (.missingValue
          ⟨"destination", ["-d", "--destination"], .value⟩)) := by
  exact ⟨⟨["src"], .text "-x", none, false, none, .text "doclets.json",
    .text "jsdoc"⟩, rfl, rfl, rfl, rfl⟩

end Pipeline
end Ambient
