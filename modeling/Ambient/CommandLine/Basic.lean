import Ambient.Text.Digit
import Ambient.Text.Lines
import Ambient.Text.Quoted

/-!
# Command lines

A command line has flags, some of which take a value, and operands.  A long flag
may be shortened as long as it stays unique, and its value may follow an equals
sign.  Short flags may be written together, and the value of the last one may
follow at once.  After two hyphens everything is an operand.  All words are
classified before any is taken, so that an ambiguous flag anywhere comes before
other errors.
-/

namespace Ambient
namespace CommandLine

inductive Action where
  | help
  | switch
  | value
deriving DecidableEq, Repr

structure Flag where
  key : String
  spellings : List String
  action : Action
deriving DecidableEq, Repr

structure Grammar where
  flags : List Flag
  operand : String
  several : Bool

inductive UsageError where
  | ambiguous (word : String) (spellings : List String)
  | missingValue (flag : Flag)
  | unusedValue (flag : Flag) (value : String)
  | missingOperand (name : String)
  | unrecognized (words : List String)
deriving DecidableEq, Repr

def Flag.title (f : Flag) : String := "/".intercalate f.spellings

def UsageError.message : UsageError -> String
  | ambiguous word spellings =>
      "ambiguous option: " ++ word ++ " could match " ++
        ", ".intercalate spellings
  | missingValue flag => "argument " ++ flag.title ++ ": expected one argument"
  | unusedValue flag value =>
      "argument " ++ flag.title ++ ": ignored explicit argument " ++
        Text.quoted value
  | missingOperand name => "the following arguments are required: " ++ name
  | unrecognized words => "unrecognized arguments: " ++ " ".intercalate words

/-- The value of a flag.  Two hyphens written in the place of a value are taken
away, so that the flag is given without one. -/
inductive FlagValue where
  | text (s : String)
  | missing
deriving DecidableEq, Repr

namespace FlagValue

def ofWord (word : String) : FlagValue :=
  if word = "--" then missing else text word

def text? : Option FlagValue -> Option String
  | some (text s) => if s = "" then none else some s
  | _ => none

def word : FlagValue -> String
  | text s => s
  | missing => "[]"

end FlagValue

inductive Stop where
  | help
  | usage (error : UsageError)
deriving DecidableEq, Repr

/-!
## Words
-/

/-- What a word of a command line is: an operand, the two hyphens, a flag in one
of its spellings with the value written after it, or a flag that is not
known. -/
inductive Word where
  | operand (text : String)
  | divider
  | flag (flag : Flag) (spelling : String) (value : Option String)
  | unknown (text : String)
deriving DecidableEq, Repr

def Word.text : Word -> String
  | operand text => text
  | divider => "--"
  | flag _ spelling _ => spelling
  | unknown text => text

def Grammar.spellings (g : Grammar) : List (String × Flag) :=
  g.flags.flatMap fun f => f.spellings.map fun s => (s, f)

/-- Whether a word looks like a negative number; a line feed at its end does not
matter. -/
def isNegativeNumber (cs : List Char) : Bool :=
  match if cs.getLast? == some '\n' then cs.dropLast else cs with
  | '-' :: ds =>
      let rest := ds.dropWhile Text.isDecimal
      if rest.isEmpty then !ds.isEmpty
      else
        match rest with
        | '.' :: fraction => !fraction.isEmpty && fraction.all Text.isDecimal
        | _ => false
  | _ => false

def cutValue (word : String) : String × Option String :=
  let (front, back) := Text.cutAt '=' word.toList
  (String.ofList front, back.map String.ofList)

def longCandidates (g : Grammar) (word : String) : List Word :=
  let (front, value) := cutValue word
  g.spellings.filterMap fun (s, f) =>
    if front.toList.isPrefixOf s.toList then some (.flag f s value) else none

/-- The flags that a word with one hyphen may stand for: the short flag at its
front with the rest as value, or flags of which it is the front. -/
def shortCandidates (g : Grammar) (word : String) : List Word :=
  let cs := word.toList
  let short := String.ofList (cs.take 2)
  g.spellings.filterMap fun (s, f) =>
    if s = short then some (.flag f s (some (String.ofList (cs.drop 2))))
    else if cs.isPrefixOf s.toList then some (.flag f s none)
    else none

def candidates (g : Grammar) (word : String) : List Word :=
  match word.toList with
  | '-' :: '-' :: _ => longCandidates g word
  | _ => shortCandidates g word

def classifyLoose (g : Grammar) (word : String) : Except UsageError Word :=
  match candidates g word with
  | [w] => .ok w
  | [] =>
      if isNegativeNumber word.toList || word.toList.contains ' ' then
        .ok (.operand word)
      else .ok (.unknown word)
  | ws => .error (.ambiguous word (ws.map Word.text))

def classify (g : Grammar) (word : String) : Except UsageError Word :=
  match word.toList with
  | '-' :: _ :: _ =>
      match g.spellings.lookup word with
      | some f => .ok (.flag f word none)
      | none =>
          let (front, value) := cutValue word
          match g.spellings.lookup front, value with
          | some f, some value => .ok (.flag f front (some value))
          | _, _ => classifyLoose g word
  | _ => .ok (.operand word)

def classifyAll (g : Grammar) : List String -> Except UsageError (List Word)
  | [] => .ok []
  | word :: words =>
      if word = "--" then .ok (.divider :: words.map .operand)
      else do return (← classify g word) :: (← classifyAll g words)

/-!
## Taking words
-/

structure Taken where
  operands : Option (List String)
  flags : List (String × FlagValue)
  extras : List String

def Word.isFlag : Word -> Bool
  | flag _ _ _ => true
  | unknown _ => true
  | _ => false

/-- The words that the operand takes from the front, if it can take any: the
divider, one operand or several, and a divider after them. -/
def operandWords (several : Bool) (ws : List Word) : List Word :=
  let lead := ws.takeWhile (· == .divider)
  match ws.drop lead.length with
  | .operand t :: rest =>
      lead ++ .operand t ::
        (if several then rest.takeWhile fun w => !w.isFlag
          else rest.takeWhile (· == .divider))
  | _ => []

def operandValues (ws : List Word) : List String :=
  (ws.erase .divider).map Word.text

/-- Flags written together: the ones given so far, and the last one with the
value written after it. Each letter of the value of a switch is a further short
flag. -/
def unbundle (g : Grammar) : Flag -> String -> List Char ->
    Except UsageError (List Flag × Flag × Option String)
  | f, _, [] => .error (.unusedValue f "")
  | f, spelling, c :: rest =>
      match f.action with
      | .value => .ok ([], f, some (String.ofList (c :: rest)))
      | _ =>
          if (spelling.toList.drop 1).head? == some '-' then
            .error (.unusedValue f (String.ofList (c :: rest)))
          else
            let next := String.ofList ['-', c]
            match g.spellings.lookup next with
            | none => .error (.unusedValue f (String.ofList (c :: rest)))
            | some f' =>
                if rest.isEmpty then .ok ([f], f', none)
                else do
                  let (more, last, value) ← unbundle g f' next rest
                  return (f :: more, last, value)

def flagsOf (g : Grammar) (f : Flag) (spelling : String) :
    Option String -> Except UsageError (List Flag × Flag × Option String)
  | none => .ok ([], f, none)
  | some value =>
      if f.action = .value then .ok ([], f, some value)
      else unbundle g f spelling value.toList

def addSwitches (t : Taken) : List Flag -> Except Stop Taken
  | [] => .ok t
  | f :: fs =>
      if f.action = .help then .error .help
      else addSwitches { t with flags := t.flags ++ [(f.key, .missing)] } fs

def takeFlag (g : Grammar) (f : Flag) (spelling : String)
    (value : Option String)
    (rest : List Word) (t : Taken) : Except Stop (Taken × List Word) :=
  match flagsOf g f spelling value with
  | .error e => .error (.usage e)
  | .ok (switches, last, value) =>
      match last.action, value, rest with
      | .value, some value, rest => do
          let t ← addSwitches t switches
          return ({ t with flags := t.flags ++ [(last.key, .ofWord value)] },
            rest)
      | .value, none, .operand text :: rest => do
          let t ← addSwitches t switches
          return ({ t with flags := t.flags ++ [(last.key, .ofWord text)] },
            rest)
      | .value, none, _ => .error (.usage (.missingValue last))
      | _, _, rest => do
          let t ← addSwitches t (switches ++ [last])
          return (t, rest)

def takeOperand (g : Grammar) (ws : List Word) (t : Taken) :
    Option (Taken × List Word) :=
  match t.operands with
  | some _ => none
  | none =>
      match operandWords g.several ws with
      | [] => none
      | taken =>
          some ({ t with operands := some (operandValues taken) },
            ws.drop taken.length)

def takeAll (g : Grammar) : Nat -> List Word -> Taken -> Except Stop Taken
  | 0, _, t => .ok t
  | fuel + 1, ws, t =>
      match ws with
      | [] => .ok t
      | .flag f spelling value :: rest => do
          let (t, rest) ← takeFlag g f spelling value rest t
          takeAll g fuel rest t
      | .unknown text :: rest =>
          takeAll g fuel rest { t with extras := t.extras ++ [text] }
      | w :: rest =>
          match takeOperand g (w :: rest) t with
          | some (t, rest) => takeAll g fuel rest t
          | none =>
              takeAll g fuel rest { t with extras := t.extras ++ [w.text] }

def parse (g : Grammar) (words : List String) :
    Except Stop (List String × List (String × FlagValue)) :=
  match classifyAll g words with
  | .error e => .error (.usage e)
  | .ok ws => do
      let t ← takeAll g (ws.length + 1) ws ⟨none, [], []⟩
      match t.operands with
      | none => .error (.usage (.missingOperand g.operand))
      | some operands =>
          if t.extras.isEmpty then return (operands, t.flags)
          else .error (.usage (.unrecognized t.extras))

def lastValue? (key : String) (flags : List (String × FlagValue)) :
    Option FlagValue :=
  (flags.reverse.find? fun f => f.1 == key).map Prod.snd

def allValues (key : String) (flags : List (String × FlagValue)) :
    List FlagValue :=
  (flags.filter fun f => f.1 == key).map Prod.snd

def isGiven (key : String) (flags : List (String × FlagValue)) : Bool :=
  flags.any fun f => f.1 == key

end CommandLine
end Ambient
