import Ambient.TypeExpr.Basic

/-!
# Parsing type annotations

The grammar, loosest first:

union  := suffixed ('|' suffixed)* suffixed := prefixed ('[' ']')* ('?' | '!')?
'='? prefixed := '?' prefixed | '!' prefixed | '...' prefixed | primary primary
:= '(' union ')' | '*' | literal | record | function | name arguments?

A leading `?` before the end or a mark that cannot start a type is the unknown
type.  The parameters of a function type are skipped, by counting brackets of
any kind.  Every rule takes a list of tokens and gives a tree with the tokens
left; the fuel bounds the depth of the descent.
-/

namespace Ambient
namespace TypeExpr

def failAt {α : Type} (reason : Reason) (ts : List Token) :
    Except SyntaxError α :=
  .error (.near reason ts.head?)

def expect (c : Char) : List Token -> Except SyntaxError (List Token)
  | .mark d :: ts =>
      if d = c then .ok ts else failAt (.expected c) (.mark d :: ts)
  | ts => failAt (.expected c) ts

def skipMark (c : Char) : List Token -> List Token
  | .mark d :: ts => if d = c then ts else .mark d :: ts
  | ts => ts

def startsWith (c : Char) : List Token -> Bool
  | .mark d :: _ => d = c
  | _ => false

/-- Whether a leading `?` before these tokens is the unknown type. -/
def endsUnknown : List Token -> Bool
  | [] => true
  | .mark c :: _ => [',', '>', ')', ']', '}', '|', '='].contains c
  | _ => false

def arrays : TypeExpr -> List Token ->
    Except SyntaxError (TypeExpr × List Token)
  | e, .mark '[' :: .mark ']' :: ts => arrays (.array e) ts
  | _, .mark '[' :: ts => failAt (.expected ']') ts
  | e, ts => .ok (e, ts)

def markers (e : TypeExpr) (ts : List Token) : TypeExpr × List Token :=
  if startsWith '?' ts then (.nullable e, skipMark '=' (skipMark '?' ts))
  else (e, skipMark '=' (skipMark '!' ts))

def opens : Token -> Bool
  | .mark c => ['(', '<', '{', '['].contains c
  | .genericOpen => true
  | _ => false

def closes : Token -> Bool
  | .mark c => [')', '>', '}', ']'].contains c
  | _ => false

def skipSignature : Nat -> List Token -> Except SyntaxError (List Token)
  | 0, ts => .ok ts
  | _ + 1, [] => failAt .openSignature []
  | depth + 1, t :: ts =>
      if opens t then skipSignature (depth + 2) ts
      else if closes t then skipSignature depth ts
      else skipSignature (depth + 1) ts

def recordKey? : Token -> Option String
  | .name t => some t
  | .quoted t => some t
  | .number t => some t
  | _ => none

mutual

def unionRule : Nat -> List Token -> Except SyntaxError (TypeExpr × List Token)
  | 0, ts => failAt .tooDeep ts
  | fuel + 1, ts => do
      let (first, ts) ← suffixedRule fuel ts
      let (others, ts) ← alternatives fuel ts
      return (if others.isEmpty then first else .union (first :: others), ts)

def alternatives : Nat -> List Token ->
    Except SyntaxError (List TypeExpr × List Token)
  | 0, ts => failAt .tooDeep ts
  | fuel + 1, ts =>
      if startsWith '|' ts then do
        let (e, ts) ← suffixedRule fuel (skipMark '|' ts)
        let (es, ts) ← alternatives fuel ts
        return (e :: es, ts)
      else .ok ([], ts)

def suffixedRule : Nat -> List Token ->
    Except SyntaxError (TypeExpr × List Token)
  | 0, ts => failAt .tooDeep ts
  | fuel + 1, ts => do
      let (e, ts) ← prefixedRule fuel ts
      let (e, ts) ← arrays e ts
      return markers e ts

def prefixedRule : Nat -> List Token ->
    Except SyntaxError (TypeExpr × List Token)
  | 0, ts => failAt .tooDeep ts
  | fuel + 1, ts =>
      match ts with
      | .mark '?' :: ts =>
          if endsUnknown ts then .ok (.any, ts)
          else do
            let (e, ts) ← prefixedRule fuel ts
            return (.nullable e, ts)
      | .mark '!' :: ts => prefixedRule fuel ts
      | .ellipsis :: ts => prefixedRule fuel ts
      | ts => primaryRule fuel ts

def primaryRule : Nat -> List Token ->
    Except SyntaxError (TypeExpr × List Token)
  | 0, ts => failAt .tooDeep ts
  | fuel + 1, ts =>
      match ts with
      | .mark '(' :: ts => do
          let (e, ts) ← unionRule fuel ts
          let ts ← expect ')' ts
          return (e, ts)
      | .mark '*' :: ts => .ok (.any, ts)
      | .mark '{' :: ts =>
          if startsWith '}' ts then .ok (.record [], skipMark '}' ts)
          else do
            let (entries, ts) ← recordRule fuel ts
            return (.record entries, ts)
      | .mark c :: ts => failAt .unexpectedToken (.mark c :: ts)
      | .quoted t :: ts => .ok (.literal t, ts)
      | .number t :: ts => .ok (.literal t, ts)
      | .name t :: ts => nameRule fuel t ts
      | [] => failAt .unexpectedEnd []
      | _ :: ts => failAt .unexpectedEnd ts

/-- What follows a name: a signature to skip, type arguments, or nothing. -/
def nameRule : Nat -> String -> List Token ->
    Except SyntaxError (TypeExpr × List Token)
  | 0, _, ts => failAt .tooDeep ts
  | fuel + 1, t, ts =>
      if t = "function" ∧ startsWith '(' ts then do
        let ts ← skipSignature 1 (skipMark '(' ts)
        if startsWith ':' ts then
          let (_, ts) ← suffixedRule fuel (skipMark ':' ts)
          return (.function, ts)
        else return (.function, ts)
      else
        match ts with
        | .genericOpen :: ts => do
            let (args, ts) ← argumentsRule fuel ts
            return (.generic t args, ts)
        | .mark '<' :: ts => do
            let (args, ts) ← argumentsRule fuel ts
            return (.generic t args, ts)
        | ts => .ok (.name t, ts)

def argumentsRule : Nat -> List Token ->
    Except SyntaxError (List TypeExpr × List Token)
  | 0, ts => failAt .tooDeep ts
  | fuel + 1, ts => do
      let (e, ts) ← unionRule fuel ts
      if startsWith ',' ts then
        let (es, ts) ← argumentsRule fuel (skipMark ',' ts)
        return (e :: es, ts)
      else
        let ts ← expect '>' ts
        return ([e], ts)

def recordRule : Nat -> List Token ->
    Except SyntaxError (List RecordEntry × List Token)
  | 0, ts => failAt .tooDeep ts
  | fuel + 1, ts => do
      let (entry, ts) ← entryRule fuel ts
      if startsWith '}' ts then return ([entry], skipMark '}' ts)
      else
        let ts ← expect ',' ts
        let (entries, ts) ← recordRule fuel ts
        return (entry :: entries, ts)

def entryRule : Nat -> List Token ->
    Except SyntaxError (RecordEntry × List Token)
  | 0, ts => failAt .tooDeep ts
  | fuel + 1, ts =>
      match ts with
      | .mark '[' :: ts =>
          match ts with
          | .name key :: ts => do
              let ts ← expect ':' ts
              let (keyType, ts) ← unionRule fuel ts
              let ts ← expect ']' ts
              let ts ← expect ':' ts
              let (value, ts) ← unionRule fuel ts
              return (.index key keyType value, ts)
          | ts => failAt .indexName ts.tail
      | [] => failAt .recordKey []
      | t :: ts =>
          match recordKey? t with
          | none => failAt .recordKey (t :: ts)
          | some key =>
              let optional := startsWith '?' ts
              let ts := skipMark '?' ts
              if startsWith ':' ts then do
                let (value, ts) ← unionRule fuel (skipMark ':' ts)
                return (.field key optional value, ts)
              else .ok (.bare key optional, ts)

end

/-- Fuel enough for any list of tokens of this length: between two tokens the
descent passes fewer than eight rules. -/
def fuelFor (ts : List Token) : Nat := 8 * ts.length + 8

def ofTokens (ts : List Token) : Except SyntaxError TypeExpr := do
  let (e, rest) ← unionRule (fuelFor ts) ts
  if rest.isEmpty then return e else failAt .trailing rest

def tokenize (source : String) : Except SyntaxError (List Token) :=
  let cs := source.toList
  match Token.scan cs.length cs with
  | .ok ts => .ok ts
  | .error rest =>
      .error (.character ((Text.codes rest).headD 0x20)
        (Text.length cs - Text.length rest))

def parse (source : String) : Except SyntaxError TypeExpr := do
  ofTokens (← tokenize source)

end TypeExpr
end Ambient
