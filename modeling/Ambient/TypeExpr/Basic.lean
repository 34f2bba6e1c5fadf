import Ambient.TypeExpr.Token
import Ambient.Text.Quoted

/-!
# Type expressions

The tree of a type annotation, and the ways in which an annotation can be
malformed.
-/

namespace Ambient

mutual

inductive TypeExpr where
  /-- The catch-all `*`, or an unknown type `?`. -/
  | any
  | name (text : String)
  | literal (text : String)
  /-- `Base.<A, B>` or `Base<A, B>`. -/
  | generic (base : String) (args : List TypeExpr)
  | array (element : TypeExpr)
  /-- `(A|B)`. -/
  | union (members : List TypeExpr)
  | nullable (inner : TypeExpr)
  /-- `function(...)`; the signature is not kept. -/
  | function
  /-- `{a: T, [k: K]: V}`. -/
  | record (entries : List RecordEntry)

inductive RecordEntry where
  | bare (key : String) (optional : Bool)
  | field (key : String) (optional : Bool) (value : TypeExpr)
  | index (key : String) (keyType value : TypeExpr)

end

namespace TypeExpr

inductive Reason where
  | trailing
  | expected (c : Char)
  | unexpectedToken
  | unexpectedEnd
  | openSignature
  | indexName
  | recordKey
  | tooDeep
deriving DecidableEq, Repr

inductive SyntaxError where
  | character (code position : Nat)
  | near (reason : Reason) (token : Option Token)
deriving DecidableEq, Repr

def Reason.message : Reason -> String
  | trailing => "trailing input"
  | expected c => "expected " ++ Text.quoted (String.singleton c)
  | unexpectedToken => "unexpected token"
  | unexpectedEnd => "unexpected end"
  | openSignature => "unterminated function signature"
  | indexName => "expected index signature name"
  | recordKey => "expected record key"
  | tooDeep => "nested too deeply"

def SyntaxError.message (source : String) : SyntaxError -> String
  | character code position =>
      "Unexpected character " ++
        Text.quoted (String.ofList (Text.ofCode code)) ++ " at " ++
        toString position ++ " in type " ++ Text.quoted source
  | near reason token =>
      reason.message ++ " near " ++
        Text.quoted ((token.map Token.text).getD "") ++ " in type " ++
        Text.quoted source

end TypeExpr
end Ambient
