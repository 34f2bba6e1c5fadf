import Ambient.Proofs.TypeExpr.RoundTrip

/-!
# The grammar of annotations

What an annotation may be, rule by rule and without a word on how it is read.  A
phrase is derived from the tokens in front of some others; only an unknown type
looks at what comes after it.  The grammar is ambiguous: the marks after a
function type belong to the type that it returns or to the function type itself.
-/

namespace Ambient
namespace TypeExpr

/-!
## Suffixes
-/

/-- A mark that may follow a type. -/
inductive SuffixMark where
  | brackets
  | question
  | bang
  | equals
deriving DecidableEq, Repr

namespace SuffixMark

def tokens : SuffixMark -> List Token
  | brackets => [.mark '[', .mark ']']
  | question => [.mark '?']
  | bang => [.mark '!']
  | equals => [.mark '=']

def spell (marks : List SuffixMark) : List Token := marks.flatMap tokens

@[simp] theorem spell_nil : spell [] = [] := rfl

@[simp] theorem spell_cons
    (m : SuffixMark)
    (ms : List SuffixMark) :
    spell (m :: ms) = m.tokens ++ spell ms :=
  List.flatMap_cons

@[simp] theorem spell_append
    (ms ns : List SuffixMark) :
    spell (ms ++ ns) = spell ms ++ spell ns :=
  List.flatMap_append

end SuffixMark

/-- What the mark after a type says about null. -/
inductive Nullness where
  | unsaid
  | nullable
  | nonNull
deriving DecidableEq, Repr

/-- What stands after a type: bracket pairs, then a mark about null, then the
optional mark. -/
structure Suffix where
  dimensions : Nat
  nullness : Nullness
  optional : Bool

def Nullness.marks : Nullness -> List SuffixMark
  | unsaid => []
  | nullable => [.question]
  | nonNull => [.bang]

def Nullness.apply : Nullness -> TypeExpr -> TypeExpr
  | nullable, e => .nullable e
  | _, e => e

def arrayOf : Nat -> TypeExpr -> TypeExpr
  | 0, e => e
  | n + 1, e => arrayOf n (.array e)

namespace Suffix

def marks (s : Suffix) : List SuffixMark :=
  List.replicate s.dimensions .brackets ++
    (s.nullness.marks ++ if s.optional then [.equals] else [])

/-- The type with a suffix; the optional mark changes nothing. -/
def apply (s : Suffix) (e : TypeExpr) : TypeExpr :=
  s.nullness.apply (arrayOf s.dimensions e)

end Suffix

/-!
## Parameter lists

The parameters of a function type are any tokens up to the bracket that closes
the first one, where brackets of all kinds are counted alike.
-/

/-- How a token changes the number of open brackets. -/
def bracketStep (t : Token) : Int :=
  if opens t then 1 else if closes t then -1 else 0

def height (ts : List Token) : Int := ts.foldr (fun t n => bracketStep t + n) 0

/-- Tokens that close as many brackets as are open with the last of them, and
not before. -/
structure ClosesOff (depth : Nat) (ts : List Token) : Prop where
  closed : depth + height ts = 0
  before : forall front back, ts = front ++ back -> back ≠ [] ->
    0 < depth + height front

@[simp] theorem height_nil : height [] = 0 := rfl

@[simp] theorem height_cons
    (t : Token)
    (ts : List Token) :
    height (t :: ts) = bracketStep t + height ts :=
  rfl

theorem closesOff_zero_iff
    {ts : List Token} :
    ClosesOff 0 ts ↔ ts = [] := by
  constructor
  · intro h
    by_contra hne
    have hstart := h.before [] ts rfl hne
    simp at hstart
  · rintro rfl
    constructor
    · rfl
    · intro front back heq hback
      exact absurd (List.append_eq_nil_iff.mp heq.symm).2 hback

/-- A token in front of some others goes from one depth to the next. -/
theorem closesOff_cons_iff
    {depth next : Nat} {t : Token} {ts : List Token}
    (hnext : (next : Int) = depth + 1 + bracketStep t) :
    ClosesOff (depth + 1) (t :: ts) ↔ ClosesOff next ts := by
  constructor
  · intro h
    constructor
    · have hclosed := h.closed
      rw [height_cons] at hclosed
      push_cast at hclosed
      omega
    · intro front back heq hback
      have hbefore :=
        h.before (t :: front) back (by rw [heq, List.cons_append]) hback
      rw [height_cons] at hbefore
      push_cast at hbefore
      omega
  · intro h
    constructor
    · have hclosed := h.closed
      rw [height_cons]
      push_cast
      omega
    · intro front back heq hback
      cases front with
      | nil =>
          rw [height_nil]
          push_cast
          omega
      | cons u front =>
          rcases List.cons.inj heq with ⟨rfl, htail⟩
          have hbefore := h.before front back htail hback
          rw [height_cons]
          push_cast
          omega

/-- Skipping stops right behind the tokens that close off all open brackets. -/
theorem skipSignature_iff
    {depth : Nat} {ts rest : List Token} :
    skipSignature depth ts = .ok rest ↔
      exists sig, ts = sig ++ rest ∧ ClosesOff depth sig := by
  induction ts generalizing depth with
  | nil =>
      cases depth with
      | zero =>
          simp only [skipSignature, closesOff_zero_iff, Except.ok.injEq,
            exists_eq_right, List.nil_append]
      | succ depth =>
          constructor
          · intro h
            contradiction
          · rintro ⟨sig, heq, hcloses⟩
            have hsig := (List.append_eq_nil_iff.mp heq.symm).1
            have hclosed := hcloses.closed
            rw [hsig, height_nil] at hclosed
            omega
  | cons t ts ih =>
      cases depth with
      | zero =>
          simp only [skipSignature, closesOff_zero_iff, Except.ok.injEq,
            exists_eq_right, List.nil_append]
      | succ depth =>
          -- the next depth is the one that the token leads to
          have hstep : exists next : Nat,
              (next : Int) = depth + 1 + bracketStep t ∧
              skipSignature (depth + 1) (t :: ts) = skipSignature next ts := by
            rw [skipSignature, bracketStep]
            by_cases hopen : opens t = true
            · rw [if_pos hopen, if_pos hopen]
              exact ⟨depth + 2, by omega, rfl⟩
            · rw [if_neg hopen, if_neg hopen]
              by_cases hclose : closes t = true
              · rw [if_pos hclose, if_pos hclose]
                exact ⟨depth, by omega, rfl⟩
              · rw [if_neg hclose, if_neg hclose]
                exact ⟨depth + 1, by omega, rfl⟩
          rcases hstep with ⟨next, hnext, hskip⟩
          rw [hskip, ih]
          constructor
          · rintro ⟨sig, rfl, hcloses⟩
            exact ⟨t :: sig, rfl, (closesOff_cons_iff hnext).mpr hcloses⟩
          · rintro ⟨sig, heq, hcloses⟩
            cases sig with
            | nil =>
                have hclosed := hcloses.closed
                rw [height_nil] at hclosed
                omega
            | cons u sig =>
                rcases List.cons.inj heq with ⟨rfl, rfl⟩
                exact ⟨sig, rfl, (closesOff_cons_iff hnext).mp hcloses⟩

/-!
## Rules
-/

/-- A part of an annotation, of the sort that a rule of the grammar is about. -/
inductive Phrase where
  | union (e : TypeExpr)
  | alternatives (es : List TypeExpr)
  | suffixed (e : TypeExpr)
  | prefixed (e : TypeExpr)
  | primary (e : TypeExpr)
  | arguments (es : List TypeExpr)
  | entries (entries : List RecordEntry)
  | entry (entry : RecordEntry)

/-- The marks before which a `?` by itself is the unknown type. -/
def unknownFollowers : List Char := [',', '>', ')', ']', '}', '|', '=']

/-- The mark of an optional key. -/
def optionalMark (optional : Bool) : List Token :=
  if optional then [.mark '?'] else []

/-- A phrase is derived from the tokens of the first list that stand before the
second. -/
inductive Derives : Phrase -> List Token -> List Token -> Prop where
  | single {e ts rest}
      (h : Derives (.suffixed e) ts rest) :
      Derives (.union e) ts rest
  | union {e es ts more rest}
      (hfirst : Derives (.suffixed e) ts more)
      (hothers : Derives (.alternatives es) more rest) :
      Derives (.union (.union (e :: es))) ts rest
  | lastAlternative {e ts rest}
      (h : Derives (.suffixed e) ts rest) :
      Derives (.alternatives [e]) (.mark '|' :: ts) rest
  | moreAlternatives {e es ts more rest}
      (hfirst : Derives (.suffixed e) ts more)
      (hothers : Derives (.alternatives es) more rest) :
      Derives (.alternatives (e :: es)) (.mark '|' :: ts) rest
  | suffixed {e ts rest} (suffix : Suffix)
      (h : Derives (.prefixed e) ts (SuffixMark.spell suffix.marks ++ rest)) :
      Derives (.suffixed (suffix.apply e)) ts rest
  | unknown {rest}
      (hrest : FollowedBy unknownFollowers rest) :
      Derives (.prefixed .any) (.mark '?' :: rest) rest
  | nullable {e ts rest}
      (hnext : ¬ FollowedBy unknownFollowers ts)
      (h : Derives (.prefixed e) ts rest) :
      Derives (.prefixed (.nullable e)) (.mark '?' :: ts) rest
  | nonNull {e ts rest}
      (h : Derives (.prefixed e) ts rest) :
      Derives (.prefixed e) (.mark '!' :: ts) rest
  | repeated {e ts rest}
      (h : Derives (.prefixed e) ts rest) :
      Derives (.prefixed e) (.ellipsis :: ts) rest
  | bare {e ts rest}
      (h : Derives (.primary e) ts rest) :
      Derives (.prefixed e) ts rest
  | group {e ts rest}
      (h : Derives (.union e) ts (.mark ')' :: rest)) :
      Derives (.primary e) (.mark '(' :: ts) rest
  | star {rest} :
      Derives (.primary .any) (.mark '*' :: rest) rest
  | quoted {text rest} :
      Derives (.primary (.literal text)) (.quoted text :: rest) rest
  | number {text rest} :
      Derives (.primary (.literal text)) (.number text :: rest) rest
  | emptyRecord {rest} :
      Derives (.primary (.record [])) (.mark '{' :: .mark '}' :: rest) rest
  | record {entries ts rest}
      (h : Derives (.entries entries) ts rest) :
      Derives (.primary (.record entries)) (.mark '{' :: ts) rest
  | function {sig rest}
      (hsig : ClosesOff 1 sig) :
      Derives (.primary .function)
        (.name "function" :: .mark '(' :: (sig ++ rest)) rest
  | returning {e sig ts rest}
      (hsig : ClosesOff 1 sig)
      (h : Derives (.suffixed e) ts rest) :
      Derives (.primary .function)
        (.name "function" :: .mark '(' :: (sig ++ .mark ':' :: ts)) rest
  | name {text rest} :
      Derives (.primary (.name text)) (.name text :: rest) rest
  | generic {base opener args ts rest}
      (hopener : opener = .genericOpen ∨ opener = .mark '<')
      (h : Derives (.arguments args) ts rest) :
      Derives (.primary (.generic base args)) (.name base :: opener :: ts) rest
  | lastArgument {e ts rest}
      (h : Derives (.union e) ts (.mark '>' :: rest)) :
      Derives (.arguments [e]) ts rest
  | moreArguments {e es ts more rest}
      (hfirst : Derives (.union e) ts (.mark ',' :: more))
      (hothers : Derives (.arguments es) more rest) :
      Derives (.arguments (e :: es)) ts rest
  | lastEntry {entry ts rest}
      (h : Derives (.entry entry) ts (.mark '}' :: rest)) :
      Derives (.entries [entry]) ts rest
  | moreEntries {entry entries ts more rest}
      (hfirst : Derives (.entry entry) ts (.mark ',' :: more))
      (hothers : Derives (.entries entries) more rest) :
      Derives (.entries (entry :: entries)) ts rest
  | bareKey {t key rest} (optional : Bool)
      (hkey : recordKey? t = some key) :
      Derives (.entry (.bare key optional))
        (t :: (optionalMark optional ++ rest)) rest
  | field {t key e ts rest} (optional : Bool)
      (hkey : recordKey? t = some key)
      (h : Derives (.union e) ts rest) :
      Derives (.entry (.field key optional e))
        (t :: (optionalMark optional ++ .mark ':' :: ts)) rest
  | index {key keyType value ts more rest}
      (hkeyType : Derives (.union keyType) ts (.mark ']' :: .mark ':' :: more))
      (hvalue : Derives (.union value) more rest) :
      Derives (.entry (.index key keyType value))
        (.mark '[' :: .name key :: .mark ':' :: ts) rest

/-- Every phrase takes at least one token. -/
theorem Derives.length_lt
    {phrase : Phrase} {ts rest : List Token}
    (h : Derives phrase ts rest) :
    rest.length < ts.length := by
  induction h with
  | single _ ih => exact ih
  | union _ _ ihfirst ihothers => exact Nat.lt_trans ihothers ihfirst
  | lastAlternative _ ih => exact Nat.lt_succ_of_lt ih
  | moreAlternatives _ _ ihfirst ihothers =>
      exact Nat.lt_succ_of_lt (Nat.lt_trans ihothers ihfirst)
  | suffixed suffix _ ih =>
      rw [List.length_append] at ih
      omega
  | unknown => exact Nat.lt_succ_self _
  | nullable _ _ ih => exact Nat.lt_succ_of_lt ih
  | nonNull _ ih => exact Nat.lt_succ_of_lt ih
  | repeated _ ih => exact Nat.lt_succ_of_lt ih
  | bare _ ih => exact ih
  | group _ ih =>
      rw [List.length_cons] at ih
      rw [List.length_cons]
      omega
  | star => exact Nat.lt_succ_self _
  | quoted => exact Nat.lt_succ_self _
  | number => exact Nat.lt_succ_self _
  | emptyRecord =>
      simp only [List.length_cons]
      omega
  | record _ ih => exact Nat.lt_succ_of_lt ih
  | function _ =>
      simp only [List.length_cons, List.length_append]
      omega
  | returning _ _ ih =>
      simp only [List.length_cons, List.length_append]
      omega
  | name => exact Nat.lt_succ_self _
  | generic _ _ ih =>
      simp only [List.length_cons]
      omega
  | lastArgument _ ih =>
      rw [List.length_cons] at ih
      omega
  | moreArguments _ _ ihfirst ihothers =>
      rw [List.length_cons] at ihfirst
      omega
  | lastEntry _ ih =>
      rw [List.length_cons] at ih
      omega
  | moreEntries _ _ ihfirst ihothers =>
      rw [List.length_cons] at ihfirst
      omega
  | bareKey optional _ =>
      simp only [List.length_cons, List.length_append]
      omega
  | field optional _ _ ih =>
      simp only [List.length_cons, List.length_append]
      omega
  | index _ _ ihkey ihvalue =>
      simp only [List.length_cons] at ihkey ⊢
      omega

end TypeExpr
end Ambient
