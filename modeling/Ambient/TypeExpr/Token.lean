import Ambient.Text.Blank
import Ambient.Text.Digit
import Ambient.Text.Word

/-!
# Tokens of type annotations

A type annotation such as `Array.<Object.<string, *>>` is cut into names,
literals and marks; blanks between them carry no meaning.  At each place the
kinds of token are tried in a fixed order, and the first that fits takes as many
characters as it can: the two openers that start with dots, quoted literals,
numbers, names, and last the single marks.
-/

namespace Ambient

inductive Token where
  | name (text : String)
  | number (text : String)
  | quoted (text : String)
  | mark (c : Char)
  | ellipsis
  | genericOpen
deriving DecidableEq, Repr

namespace Token

def text : Token -> String
  | name t => t
  | number t => t
  | quoted t => t
  | mark c => String.singleton c
  | ellipsis => "..."
  | genericOpen => ".<"

/-!
## Character classes

A name starts with a letter of the Latin alphabet, an underscore, a dollar or an
at sign.  It goes on with word characters, dollars, at signs and hyphens, in
parts that are joined by separators.
-/

def isNameStart (c : Char) : Bool :=
  c.isAlpha || c == '_' || c == '$' || c == '@'

def isNamePart (c : Char) : Bool :=
  Text.isWord c || c == '$' || c == '@' || c == '-'

def isJoiner (c : Char) : Bool :=
  c == '.' || c == '/' || c == '#' || c == '~'

def isMark (c : Char) : Bool :=
  ['<', '>', '(', ')', '[', ']', '{', '}', '|', ',', ':', '?', '!', '=',
    '*'].contains c

/-!
## Lexemes

Each function below takes one kind of lexeme from the front of the text and
gives the lexeme and the rest.
-/

def throughQuote? (quote : Char) : List Char -> Option (List Char × List Char)
  | [] => none
  | c :: rest =>
      if c == quote then some ([c], rest)
      else (throughQuote? quote rest).map fun (body, rest) => (c :: body, rest)

def quotedLexeme? : List Char -> Option (List Char × List Char)
  | c :: rest =>
      if c == '"' || c == '\'' then
        (throughQuote? c rest).map fun (body, rest) => (c :: body, rest)
      else none
  | [] => none

def fractionLexeme : List Char -> List Char × List Char
  | '.' :: c :: rest =>
      if Text.isDecimal c then
        ('.' :: c :: rest.takeWhile Text.isDecimal,
          rest.dropWhile Text.isDecimal)
      else ([], '.' :: c :: rest)
  | cs => ([], cs)

def unsignedLexeme? (cs : List Char) : Option (List Char × List Char) :=
  let whole := cs.takeWhile Text.isDecimal
  if whole.isEmpty then none
  else
    let (fraction, rest) := fractionLexeme (cs.dropWhile Text.isDecimal)
    some (whole ++ fraction, rest)

def numberLexeme? : List Char -> Option (List Char × List Char)
  | '-' :: rest => (unsignedLexeme? rest).map fun (body, rest) =>
      ('-' :: body, rest)
  | cs => unsignedLexeme? cs

/-- The parts of a name after the first one: each a joiner and at least one
character. -/
def joinedParts : Nat -> List Char -> List Char × List Char
  | 0, cs => ([], cs)
  | fuel + 1, j :: c :: rest =>
      if isJoiner j && isNamePart c then
        let part := rest.takeWhile isNamePart
        let (more, rest) := joinedParts fuel (rest.dropWhile isNamePart)
        (j :: c :: part ++ more, rest)
      else ([], j :: c :: rest)
  | _ + 1, cs => ([], cs)

def bareName? : List Char -> Option (List Char × List Char)
  | c :: rest =>
      if isNameStart c then
        let part := rest.takeWhile isNamePart
        let (more, rest) := joinedParts rest.length (rest.dropWhile isNamePart)
        some (c :: part ++ more, rest)
      else none
  | [] => none

def domains : List (List Char) :=
  ["module:".toList, "external:".toList, "event:".toList]

def domainName? (cs : List Char) : Option (List Char × List Char) :=
  domains.firstM fun domain =>
    if domain.isPrefixOf cs then
      (bareName? (cs.drop domain.length)).map fun (body, rest) =>
        (domain ++ body, rest)
    else none

def nameLexeme? (cs : List Char) : Option (List Char × List Char) :=
  (domainName? cs).orElse fun _ => bareName? cs

def wordToken? (cs : List Char) : Option (Token × List Char) :=
  match quotedLexeme? cs with
  | some (t, rest) => some (quoted (String.ofList t), rest)
  | none =>
      match numberLexeme? cs with
      | some (t, rest) => some (number (String.ofList t), rest)
      | none => (nameLexeme? cs).map fun (t, rest) =>
          (name (String.ofList t), rest)

def next? : List Char -> Option (Token × List Char)
  | '.' :: '<' :: rest => some (genericOpen, rest)
  | '.' :: '.' :: '.' :: rest => some (ellipsis, rest)
  | cs =>
      match wordToken? cs with
      | some answer => some answer
      | none =>
          match cs with
          | c :: rest => if isMark c then some (mark c, rest) else none
          | [] => none

/-!
## The tokens of a text
-/

/-- The tokens of a text, or what is left of the text where no token starts.
Each step takes at least one character, so that the length of the text is fuel
enough. -/
def scan : Nat -> List Char -> Except (List Char) (List Token)
  | _, [] => .ok []
  | 0, cs => .error cs
  | fuel + 1, c :: rest =>
      if Text.isBlank c then scan fuel rest
      else
        match next? (c :: rest) with
        | some (t, rest) => (scan fuel rest).map (t :: ·)
        | none => .error (c :: rest)

end Token
end Ambient
