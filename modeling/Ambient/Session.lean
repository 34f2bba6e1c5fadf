import Ambient.Keyed
import Ambient.Doclet
import Ambient.Notice
import Ambient.Options
import Ambient.Page

/-!
# Sessions

A session is the state of one run of the publisher: the page, the symbols that
have been declared, the interfaces that are put off, the notices, and the offers
made so far.  A step of the publisher may fail; what it has written until then
stays.  A page may hold halves of surrogate pairs, but a file may not; so the
session remembers where the first of them came.
-/

namespace Ambient

structure Entry where
  place : Nat
  doclet : Doclet

inductive Outcome where
  | known
  | refused
  | declared
deriving DecidableEq, Repr

structure Offer where
  entry : Entry
  parent : Option Doclet
  insideClass : Bool
  outcome : Outcome

/-- The place where a page first holds a half of a surrogate pair: the text and
the notices before it. -/
structure Breach where
  text : String
  notices : List Notice

structure Session where
  page : Page
  seen : Keyed Entry
  deferred : List Entry
  notices : List Notice
  offers : List Offer
  breach : Option Breach

abbrev Emit := EStateM Fault Session

namespace Session

def start : Session := ⟨Page.empty, [], [], [], [], none⟩

/-- The doclet of an entry as the run has left it: an offer settles it. -/
def current (s : Session) (e : Entry) : Doclet :=
  if s.offers.any fun o => o.entry.place == e.place then e.doclet.settle
  else e.doclet

def noteBreach (text? : Option String) (s : Session) : Session :=
  { s with breach := s.breach.or (text?.map fun text => ⟨text, s.notices⟩) }

/-- The session that remembers its page if a text that follows holds a half of a
surrogate pair. -/
def noteHalf (text : String) (s : Session) : Session :=
  s.noteBreach (if Text.hasHalf text then some s.page.text else none)

end Session

namespace Emit

def onPage (f : Page -> Page) : Emit Unit :=
  modify fun s => { s with page := f s.page }

def write (fragments : List String) : Emit Unit := do
  modify (Session.noteHalf (String.join fragments))
  onPage (Page.write (String.join fragments))

def writeln (fragments : List String) : Emit Unit := do
  modify (Session.noteHalf (String.join fragments))
  onPage (Page.writeln (String.join fragments))

def push : Emit Unit := onPage Page.push

def pop : Emit Unit := onPage Page.pop

def lift {α : Type} : Except Fault α -> Emit α
  | .ok a => pure a
  | .error fault => throw fault

def commentLines (settings : Settings) : Value -> List String
  | .str s => if settings.comments then Page.commentLines s else []
  | _ => []

def writeComment (settings : Settings) (comment : Value) (spacer : Bool) :
    Emit Unit := do
  let page := (← get).page
  modify
    (Session.noteBreach (page.textBeforeHalf? (commentLines settings comment)))
  let page ← lift (page.writeComment settings.comments comment spacer)
  modify fun s => { s with page := page }

def report (notices : List Notice) : Emit Unit :=
  modify fun s => { s with notices := s.notices ++ notices }

def textOf : Value -> Emit String
  | .str s => pure s
  | _ => throw .nonText

def degradations (tsType : Value) (typeNames : List String) : List Notice :=
  if tsType.truthy then []
  else typeNames.filterMap fun n =>
    (TypeExpr.complaint? n).map (Notice.degraded n)

def typeOf (tsType : Value) (typeNames : List String) : Emit Value := do
  report (degradations tsType typeNames)
  return Ambient.typeOf tsType typeNames

def fieldType (f : Field) : Emit String := do
  textOf (← typeOf f.tsType f.typeNames)

def docletType (d : Doclet) : Emit String := do
  textOf (← typeOf d.tsType d.typeNames)

end Emit
end Ambient
