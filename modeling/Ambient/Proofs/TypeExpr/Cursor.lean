import Ambient.Proofs.TypeExpr.InStep
import Ambient.TypeExpr.Resolve

/-!
# Parsing with a cursor

The rules as procedures that move a cursor over the cells of a tape, the last of
which marks the end.  Here every read and every move is checked, every loop and
every descent is given a bound, and a machine that reads or leaves a cell that
is not there, or goes on beyond its bound, halts.  None does: the cursor always
stands on the first of the tokens that the rules without a cursor have left.
-/

namespace Ambient
namespace TypeExpr

/-- Why a machine halts without a tree. -/
inductive Halt where
  | malformed (fault : SyntaxError)
  /-- The cursor would leave the tape, or be read off it. -/
  | offTape
  /-- A loop or a descent goes on beyond its bound. -/
  | endless
deriving DecidableEq, Repr

namespace Cursor

/-- The cells of some tokens. -/
def tape (ts : List Token) : List (Option Token) := ts.map some ++ [none]

/-- A procedure that moves the cursor. -/
abbrev Walk (α : Type) := StateT Nat (Except Halt) α

/-!
## The machine
-/

section Machine

variable (cells : List (Option Token))

def peek : Walk (Option Token) := fun pos =>
  match cells[pos]? with
  | some cell => .ok (cell, pos)
  | none => .error .offTape

def advance : Walk Unit := fun pos =>
  if pos + 1 < cells.length then .ok ((), pos + 1) else .error .offTape

def retreat : Walk Unit :=
  fun pos => if 0 < pos then .ok ((), pos - 1) else .error .offTape

/-- The cell at the cursor, which moves on unless it is at the end. -/
def take : Walk (Option Token) := do
  match ← peek cells with
  | none => return none
  | some t =>
      advance cells
      return some t

def isAt (c : Char) : Walk Bool := do
  return (← peek cells) = some (.mark c)

def accept (c : Char) : Walk Bool := do
  if ← isAt cells c then
    advance cells
    return true
  else return false

def refuse {α : Type} (reason : Reason) : Walk α := do
  throw (.malformed (.near reason (← peek cells)))

def demand (c : Char) : Walk Unit := do
  if ← accept cells c then return () else refuse cells (.expected c)

def bracketPairs : Nat -> TypeExpr -> Walk TypeExpr
  | 0, _ => throw .endless
  | turns + 1, e => do
      if ← isAt cells '[' then
        advance cells
        demand cells ']'
        bracketPairs turns (.array e)
      else return e

def trailingMarks (e : TypeExpr) : Walk TypeExpr := do
  if ← accept cells '?' then
    let _ ← accept cells '='
    return .nullable e
  else
    let _ ← accept cells '!'
    let _ ← accept cells '='
    return e

def signature : Nat -> Nat -> Walk Unit
  | _, 0 => return ()
  | 0, _ + 1 => throw .endless
  | turns + 1, depth + 1 => do
      match ← take cells with
      | none => refuse cells .openSignature
      | some t =>
          if opens t then signature turns (depth + 2)
          else if closes t then signature turns depth
          else signature turns (depth + 1)

/-- An index signature behind its opening bracket, with the procedure for the
types in it. -/
def indexed (inner : Walk TypeExpr) : Walk RecordEntry := do
  match ← take cells with
  | some (.name key) =>
      demand cells ':'
      let keyType ← inner
      demand cells ']'
      demand cells ':'
      let value ← inner
      return .index key keyType value
  | _ => refuse cells .indexName

-- No loop over cells makes more turns than there are cells.
mutual

def union : Nat -> Walk TypeExpr
  | 0 => throw .endless
  | fuel + 1 => do
      let first ← suffixed fuel
      let others ← further fuel
      return if others.isEmpty then first else .union (first :: others)

def further : Nat -> Walk (List TypeExpr)
  | 0 => throw .endless
  | fuel + 1 => do
      if ← accept cells '|' then
        let e ← suffixed fuel
        let es ← further fuel
        return e :: es
      else return []

def suffixed : Nat -> Walk TypeExpr
  | 0 => throw .endless
  | fuel + 1 => do
      let e ← prefixed fuel
      let e ← bracketPairs cells cells.length e
      trailingMarks cells e

def prefixed : Nat -> Walk TypeExpr
  | 0 => throw .endless
  | fuel + 1 => do
      match ← peek cells with
      | some (.mark '?') =>
          advance cells
          if endsUnknown (← peek cells).toList then return .any
          else
            let e ← prefixed fuel
            return .nullable e
      | some (.mark '!') =>
          advance cells
          prefixed fuel
      | some .ellipsis =>
          advance cells
          prefixed fuel
      | _ => primary fuel

def primary : Nat -> Walk TypeExpr
  | 0 => throw .endless
  | fuel + 1 => do
      match ← take cells with
      | some (.mark '(') =>
          let e ← union fuel
          demand cells ')'
          return e
      | some (.mark '*') => return .any
      | some (.mark '{') =>
          if ← accept cells '}' then return .record []
          else
            let entries ← record fuel
            return .record entries
      | some (.mark _) =>
          retreat
          refuse cells .unexpectedToken
      | some (.quoted t) => return .literal t
      | some (.number t) => return .literal t
      | some (.name t) => named fuel t
      | _ => refuse cells .unexpectedEnd

def named : Nat -> String -> Walk TypeExpr
  | 0, _ => throw .endless
  | fuel + 1, t => do
      if ← (if t = "function" then isAt cells '(' else return false) then
        demand cells '('
        signature cells cells.length 1
        if ← accept cells ':' then
          let _ ← suffixed fuel
          return .function
        else return .function
      else
        match ← peek cells with
        | some .genericOpen =>
            advance cells
            let args ← arguments fuel
            return .generic t args
        | some (.mark '<') =>
            advance cells
            let args ← arguments fuel
            return .generic t args
        | _ => return .name t

def arguments : Nat -> Walk (List TypeExpr)
  | 0 => throw .endless
  | fuel + 1 => do
      let e ← union fuel
      if ← accept cells ',' then
        let es ← arguments fuel
        return e :: es
      else
        demand cells '>'
        return [e]

def record : Nat -> Walk (List RecordEntry)
  | 0 => throw .endless
  | fuel + 1 => do
      let first ← entry fuel
      if ← accept cells '}' then return [first]
      else
        demand cells ','
        let others ← record fuel
        return first :: others

def entry : Nat -> Walk RecordEntry
  | 0 => throw .endless
  | fuel + 1 => do
      if ← accept cells '[' then indexed cells (union fuel)
      else
        match (← peek cells).bind recordKey? with
        | none => refuse cells .recordKey
        | some key =>
            advance cells
            let optional ← accept cells '?'
            if ← accept cells ':' then
              let value ← union fuel
              return .field key optional value
            else return .bare key optional

end

def whole (fuel : Nat) : Walk TypeExpr := do
  let e ← union cells fuel
  match ← peek cells with
  | none => return e
  | some _ => refuse cells .trailing

/-- The tree of all cells, from the first one on. -/
def ofTape (fuel : Nat) : Except Halt TypeExpr := (whole cells fuel).run' 0

end Machine

/-!
## Equations of the rules
-/

section Equations

variable {us : List Token}

theorem expect_of_startsWith
    {c : Char}
    (h : startsWith c us = false) :
    expect c us = failAt (.expected c) us := by
  unfold expect
  split
  · rename_i d rest
    have hne : d ≠ c := by simpa [startsWith] using h
    rw [if_neg hne]
  · rfl

theorem expect_eq_skipMark
    {c : Char}
    (h : startsWith c us = true) :
    expect c us = .ok (skipMark c us) := by
  conv_lhs => rw [eq_cons_of_startsWith h]
  exact if_pos rfl

theorem arrays_cons
    (e : TypeExpr)
    (us : List Token) :
    arrays e (.mark '[' :: us) = expect ']' us >>= arrays (.array e) := by
  cases hstart : startsWith ']' us with
  | false =>
      rw [expect_of_startsWith hstart, arrays.eq_2]
      · rfl
      · rintro rest rfl
        simp [startsWith] at hstart
  | true =>
      rw [eq_cons_of_startsWith hstart]
      rfl

theorem endsUnknown_toList (us : List Token) :
    endsUnknown us.head?.toList = endsUnknown us := by
  cases us with
  | nil => rfl
  | cons t us => cases t <;> rfl

theorem entryRule_of_no_key
    (fuel : Nat) {t : Token} {us : List Token}
    (hstart : startsWith '[' (t :: us) = false)
    (hkey : recordKey? t = none) :
    entryRule (fuel + 1) (t :: us) = failAt .recordKey (t :: us) := by
  unfold entryRule
  split
  · rename_i heq
    cases heq
    simp [startsWith] at hstart
  · contradiction
  · rename_i heq
    cases heq
    rw [hkey]

end Equations

/-!
## Where the cursor stands
-/

/-- The cursor stands on the first of the tokens `us`, or at the end if there
are none. -/
def StandsOn (ts us : List Token) (pos : Nat) : Prop :=
  exists front, ts = front ++ us ∧ pos = front.length

theorem length_tape (ts : List Token) : (tape ts).length = ts.length + 1 := by
  simp [tape]

section Steps

variable {ts us : List Token} {pos : Nat}

theorem standsOn_start (ts : List Token) : StandsOn ts ts 0 := ⟨[], rfl, rfl⟩

theorem StandsOn.next
    {t : Token}
    (h : StandsOn ts (t :: us) pos) :
    StandsOn ts us (pos + 1) := by
  rcases h with ⟨front, rfl, rfl⟩
  exact ⟨front ++ [t], by simp, by simp⟩

theorem StandsOn.length_add
    (h : StandsOn ts us pos) :
    pos + us.length = ts.length := by
  rcases h with ⟨front, rfl, rfl⟩
  rw [List.length_append]

theorem StandsOn.getElem?_tape
    (h : StandsOn ts us pos) :
    (tape ts)[pos]? = some us.head? := by
  rcases h with ⟨front, rfl, rfl⟩
  rw [tape, List.map_append, List.append_assoc,
    List.getElem?_append_right (by simp), List.length_map, Nat.sub_self]
  cases us with
  | nil => rfl
  | cons t us => rfl

theorem StandsOn.length_lt
    (h : StandsOn ts us pos) :
    us.length < (tape ts).length := by
  have hlength := h.length_add
  rw [length_tape]
  omega

theorem bind_of_ok
    {α β : Type} {x : Walk α} {f : α -> Walk β} {a : α} {pos' : Nat}
    (h : x pos = .ok (a, pos')) :
    (x >>= f) pos = f a pos' := by
  change (x pos >>= fun p => f p.1 p.2) = _
  rw [h]
  rfl

theorem peek_eq
    (h : StandsOn ts us pos) :
    peek (tape ts) pos = .ok (us.head?, pos) := by
  rw [peek, h.getElem?_tape]

theorem advance_eq
    {t : Token}
    (h : StandsOn ts (t :: us) pos) :
    advance (tape ts) pos = .ok ((), pos + 1) := by
  have hlength := h.length_add
  rw [List.length_cons] at hlength
  rw [advance, if_pos]
  rw [length_tape]
  omega

theorem retreat_eq (pos : Nat) : retreat (pos + 1) = .ok ((), pos) := rfl

theorem take_cons
    {t : Token}
    (h : StandsOn ts (t :: us) pos) :
    take (tape ts) pos = .ok (some t, pos + 1) := by
  rw [take, bind_of_ok (peek_eq h), List.head?_cons]
  exact bind_of_ok (advance_eq h)

theorem take_nil
    (h : StandsOn ts [] pos) :
    take (tape ts) pos = .ok (none, pos) := by
  rw [take, bind_of_ok (peek_eq h)]
  rfl

theorem isAt_eq
    (c : Char)
    (h : StandsOn ts us pos) :
    isAt (tape ts) c pos = .ok (startsWith c us, pos) := by
  rw [isAt, bind_of_ok (peek_eq h)]
  cases us with
  | nil => rfl
  | cons t us => cases t <;> simp [startsWith] <;> rfl

theorem accept_eq
    (c : Char)
    (h : StandsOn ts us pos) :
    exists pos', accept (tape ts) c pos = .ok (startsWith c us, pos') ∧
      StandsOn ts (skipMark c us) pos' := by
  rw [accept, bind_of_ok (isAt_eq c h)]
  cases hstart : startsWith c us with
  | false =>
      rw [skipMark_of_startsWith hstart]
      exact ⟨pos, rfl, h⟩
  | true =>
      rw [eq_cons_of_startsWith hstart] at h
      exact ⟨pos + 1, bind_of_ok (advance_eq h), h.next⟩

end Steps

/-!
## Procedures that mirror rules
-/

/-- How the machine halts for a fault of the rules. -/
def haltOf (fault : SyntaxError) : Halt :=
  if fault.isTooDeep then .endless else .malformed fault

/-- A procedure ends as a rule does, with results that are related. -/
def Mirrors {α β : Type} (S : β -> α -> Nat -> Prop) (x : Walk α) (pos : Nat) :
    Except SyntaxError β -> Prop
  | .ok b => exists a pos', x pos = .ok (a, pos') ∧ S b a pos'
  | .error fault => x pos = .error (haltOf fault)

/-- The procedure gives the same result, with the cursor on what is left. -/
def Gives {α : Type} (ts : List Token) (parsed : α × List Token) (a : α)
    (pos : Nat) : Prop :=
  a = parsed.1 ∧ StandsOn ts parsed.2 pos

/-- The procedure leaves the cursor on what is left. -/
def Leaves (ts rest : List Token) (_ : Unit) (pos : Nat) : Prop :=
  StandsOn ts rest pos

section Procedures

variable {α β γ δ : Type} {S : β -> α -> Nat -> Prop}
  {T : δ -> γ -> Nat -> Prop} {ts us : List Token} {pos : Nat}

theorem mirrors_pure
    {a : α} {b : β}
    (h : S b a pos) :
    Mirrors S (pure a) pos (.ok b) :=
  ⟨a, pos, rfl, h⟩

theorem Mirrors.after
    {x : Walk α} {f : α -> Walk γ} {a : α} {pos' : Nat}
    {r : Except SyntaxError δ}
    (hx : x pos = .ok (a, pos'))
    (h : Mirrors T (f a) pos' r) :
    Mirrors T (x >>= f) pos r := by
  unfold Mirrors at h ⊢
  rw [bind_of_ok hx]
  exact h

theorem Mirrors.bind
    {x : Walk α} {f : α -> Walk γ} {r : Except SyntaxError β}
    {g : β -> Except SyntaxError δ}
    (hx : Mirrors S x pos r)
    (hf : forall b a pos', r = .ok b -> S b a pos' ->
      Mirrors T (f a) pos' (g b)) :
    Mirrors T (x >>= f) pos (r >>= g) := by
  cases r with
  | error fault =>
      change (x pos >>= fun p => f p.1 p.2) = .error (haltOf fault)
      rw [show x pos = .error (haltOf fault) from hx]
      rfl
  | ok b =>
      rcases hx with ⟨a, pos', hx, hab⟩
      exact Mirrors.after hx (hf b a pos' rfl hab)

theorem mirrors_refuse
    {reason : Reason}
    (hreason : reason ≠ .tooDeep)
    (h : StandsOn ts us pos) :
    Mirrors S (refuse (tape ts) reason) pos (failAt reason us) := by
  have hfault : haltOf (.near reason us.head?) =
      .malformed (.near reason us.head?) := by
    rw [haltOf, SyntaxError.isTooDeep_near hreason]
    rfl
  refine .after (peek_eq h) ?_
  exact congrArg Except.error hfault.symm

theorem mirrors_demand
    (c : Char)
    (h : StandsOn ts us pos) :
    Mirrors (Leaves ts) (demand (tape ts) c) pos (expect c us) := by
  rcases accept_eq c h with ⟨pos', haccept, hstands⟩
  refine .after haccept ?_
  cases hstart : startsWith c us with
  | false =>
      rw [expect_of_startsWith hstart]
      rw [skipMark_of_startsWith hstart] at hstands
      exact mirrors_refuse (by simp) hstands
  | true =>
      rw [expect_eq_skipMark hstart]
      exact mirrors_pure hstands

theorem demand_eq
    {c : Char}
    (h : StandsOn ts us pos)
    (hstart : startsWith c us = true) :
    exists pos', demand (tape ts) c pos = .ok ((), pos') ∧
      StandsOn ts (skipMark c us) pos' := by
  have hdemand := mirrors_demand c h
  rw [expect_eq_skipMark hstart] at hdemand
  rcases hdemand with ⟨_, pos', hdemand, hstands⟩
  exact ⟨pos', hdemand, hstands⟩

theorem mirrors_bracketPairs
    (e : TypeExpr) {turns : Nat}
    (hturns : us.length < turns)
    (h : StandsOn ts us pos) :
    Mirrors (Gives ts) (bracketPairs (tape ts) turns e) pos (arrays e us) := by
  induction turns generalizing e us pos with
  | zero => contradiction
  | succ turns ih =>
      refine .after (isAt_eq '[' h) ?_
      cases hstart : startsWith '[' us with
      | false =>
          rw [arrays_of_startsWith e hstart]
          exact mirrors_pure ⟨rfl, h⟩
      | true =>
          rw [eq_cons_of_startsWith hstart] at h hturns ⊢
          rw [if_pos rfl, arrays_cons]
          refine .after (advance_eq h) ((mirrors_demand ']' h.next).bind ?_)
          intro more _ pos' hexpect hmore
          have hshorter := length_expect hexpect
          rw [List.length_cons] at hturns
          exact ih (.array e) (by omega) hmore

theorem mirrors_trailingMarks
    (e : TypeExpr)
    (h : StandsOn ts us pos) :
    Mirrors (Gives ts) (trailingMarks (tape ts) e) pos
      (.ok (markers e us)) := by
  rcases accept_eq '?' h with ⟨pos₁, hquestion, h₁⟩
  refine .after hquestion ?_
  rw [markers]
  cases hstart : startsWith '?' us with
  | true =>
      rcases accept_eq '=' h₁ with ⟨pos₂, hequals, h₂⟩
      exact .after hequals (mirrors_pure ⟨rfl, h₂⟩)
  | false =>
      rw [skipMark_of_startsWith hstart] at h₁
      rcases accept_eq '!' h₁ with ⟨pos₂, hbang, h₂⟩
      rcases accept_eq '=' h₂ with ⟨pos₃, hequals, h₃⟩
      exact .after hbang (.after hequals (mirrors_pure ⟨rfl, h₃⟩))

theorem mirrors_signature
    {turns depth : Nat}
    (hturns : us.length < turns)
    (h : StandsOn ts us pos) :
    Mirrors (Leaves ts) (signature (tape ts) turns depth) pos
      (skipSignature depth us) := by
  induction turns generalizing depth us pos with
  | zero => contradiction
  | succ turns ih =>
      cases depth with
      | zero =>
          rw [signature, skipSignature]
          exact mirrors_pure h
      | succ depth =>
          cases us with
          | nil =>
              rw [signature, skipSignature]
              exact .after (take_nil h) (mirrors_refuse (by simp) h)
          | cons t us =>
              have hrest : us.length < turns := Nat.lt_of_succ_lt_succ hturns
              rw [signature, skipSignature]
              refine .after (take_cons h) ?_
              dsimp only
              split
              · exact ih hrest h.next
              · split
                · exact ih hrest h.next
                · exact ih hrest h.next

end Procedures

/-!
## The machine and the rules

The machine descends as the rules do, and what it does with less fuel is
assumed.
-/

def Tracks {α : Type} (ts : List Token) (x : Walk α)
    (rule : List Token -> Except SyntaxError (α × List Token)) : Prop :=
  forall {us : List Token} {pos : Nat}, StandsOn ts us pos ->
    Mirrors (Gives ts) x pos (rule us)

structure MachineTracks (ts : List Token) (fuel : Nat) : Prop where
  union : Tracks ts (union (tape ts) fuel) (unionRule fuel)
  further : Tracks ts (further (tape ts) fuel) (alternatives fuel)
  suffixed : Tracks ts (suffixed (tape ts) fuel) (suffixedRule fuel)
  prefixed : Tracks ts (prefixed (tape ts) fuel) (prefixedRule fuel)
  primary : Tracks ts (primary (tape ts) fuel) (primaryRule fuel)
  named : forall text,
    Tracks ts (named (tape ts) fuel text) (nameRule fuel text)
  arguments : Tracks ts (arguments (tape ts) fuel) (argumentsRule fuel)
  record : Tracks ts (record (tape ts) fuel) (recordRule fuel)
  entry : Tracks ts (entry (tape ts) fuel) (entryRule fuel)

theorem machineTracks_zero (ts : List Token) : MachineTracks ts 0 := by
  constructor <;> intros <;> intro us pos _ <;> rfl

section Rules

variable {ts : List Token} {fuel : Nat} (htracks : MachineTracks ts fuel)

include htracks

theorem union_tracks : Tracks ts (union (tape ts) (fuel + 1))
    (unionRule (fuel + 1)) := by
  intro us pos h
  rw [union, unionRule]
  refine (htracks.suffixed h).bind ?_
  rintro ⟨_, more⟩ first pos₁ - ⟨rfl, h₁⟩
  refine (htracks.further h₁).bind ?_
  rintro ⟨_, rest⟩ others pos₂ - ⟨rfl, h₂⟩
  exact mirrors_pure ⟨rfl, h₂⟩

theorem further_tracks :
    Tracks ts (further (tape ts) (fuel + 1)) (alternatives (fuel + 1)) := by
  intro us pos h
  rcases accept_eq '|' h with ⟨pos₁, haccept, h₁⟩
  rw [further, alternatives]
  refine .after haccept ?_
  cases hstart : startsWith '|' us with
  | true =>
      refine (htracks.suffixed h₁).bind ?_
      rintro ⟨_, more⟩ e pos₂ - ⟨rfl, h₂⟩
      refine (htracks.further h₂).bind ?_
      rintro ⟨_, rest⟩ es pos₃ - ⟨rfl, h₃⟩
      exact mirrors_pure ⟨rfl, h₃⟩
  | false =>
      rw [skipMark_of_startsWith hstart] at h₁
      exact mirrors_pure ⟨rfl, h₁⟩

theorem suffixed_tracks :
    Tracks ts (suffixed (tape ts) (fuel + 1)) (suffixedRule (fuel + 1)) := by
  intro us pos h
  rw [suffixed, suffixedRule]
  refine (htracks.prefixed h).bind ?_
  rintro ⟨_, more⟩ core pos₁ - ⟨rfl, h₁⟩
  refine (mirrors_bracketPairs core h₁.length_lt h₁).bind ?_
  rintro ⟨_, rest⟩ array pos₂ - ⟨rfl, h₂⟩
  exact mirrors_trailingMarks array h₂

theorem prefixed_tracks :
    Tracks ts (prefixed (tape ts) (fuel + 1)) (prefixedRule (fuel + 1)) := by
  intro us pos h
  rw [prefixed]
  refine .after (peek_eq h) ?_
  split
  · rename_i hhead
    rcases List.head?_eq_some_iff.mp hhead with ⟨us, rfl⟩
    refine .after (advance_eq h) (.after (peek_eq h.next) ?_)
    rw [endsUnknown_toList, prefixedRule_question]
    split
    · exact mirrors_pure ⟨rfl, h.next⟩
    · refine (htracks.prefixed h.next).bind ?_
      rintro ⟨_, rest⟩ e pos' - ⟨rfl, hrest⟩
      exact mirrors_pure ⟨rfl, hrest⟩
  · rename_i hhead
    rcases List.head?_eq_some_iff.mp hhead with ⟨us, rfl⟩
    exact .after (advance_eq h) (htracks.prefixed h.next)
  · rename_i hhead
    rcases List.head?_eq_some_iff.mp hhead with ⟨us, rfl⟩
    exact .after (advance_eq h) (htracks.prefixed h.next)
  · rename_i hquestion hbang hellipsis
    rw [prefixedRule_other hquestion hbang hellipsis]
    exact htracks.primary h

theorem primary_mark_tracks
    {c : Char} {us : List Token} {pos : Nat}
    (h : StandsOn ts (.mark c :: us) pos) :
    Mirrors (Gives ts) (primary (tape ts) (fuel + 1)) pos
      (primaryRule (fuel + 1) (.mark c :: us)) := by
  rw [primary]
  refine .after (take_cons h) ?_
  have hnext := h.next
  split
  · rename_i hcell
    cases hcell
    refine (htracks.union hnext).bind ?_
    rintro ⟨_, more⟩ e pos₁ - ⟨rfl, h₁⟩
    refine (mirrors_demand ')' h₁).bind ?_
    intro rest _ pos₂ _ h₂
    exact mirrors_pure ⟨rfl, h₂⟩
  · rename_i hcell
    cases hcell
    exact mirrors_pure ⟨rfl, hnext⟩
  · rename_i hcell
    cases hcell
    rcases accept_eq '}' hnext with ⟨pos₁, haccept, h₁⟩
    rw [primaryRule]
    refine .after haccept ?_
    cases hstart : startsWith '}' us with
    | true => exact mirrors_pure ⟨rfl, h₁⟩
    | false =>
        rw [skipMark_of_startsWith hstart] at h₁
        refine (htracks.record h₁).bind ?_
        rintro ⟨_, rest⟩ entries pos₂ - ⟨rfl, h₂⟩
        exact mirrors_pure ⟨rfl, h₂⟩
  · rename_i hparen hstar hbrace hcell
    cases hcell
    -- The mark is given back, so that the fault names it.
    rw [primaryRule_mark hparen hstar hbrace]
    exact .after (retreat_eq pos) (mirrors_refuse (by simp) h)
  · rename_i hcell
    cases hcell
  · rename_i hcell
    cases hcell
  · rename_i hcell
    cases hcell
  · rename_i hmark _ _ _
    exact absurd rfl (hmark c)

theorem primary_tracks :
    Tracks ts (primary (tape ts) (fuel + 1)) (primaryRule (fuel + 1)) := by
  intro us pos h
  cases us with
  | nil => exact .after (take_nil h) (mirrors_refuse (by simp) h)
  | cons t us =>
      cases t with
      | mark c => exact primary_mark_tracks htracks h
      | quoted text => exact .after (take_cons h) (mirrors_pure ⟨rfl, h.next⟩)
      | number text => exact .after (take_cons h) (mirrors_pure ⟨rfl, h.next⟩)
      | name text => exact .after (take_cons h) (htracks.named text h.next)
      | ellipsis => exact .after (take_cons h) (mirrors_refuse (by simp) h.next)
      | genericOpen =>
          exact .after (take_cons h) (mirrors_refuse (by simp) h.next)

theorem named_tracks
    (text : String) :
    Tracks ts (named (tape ts) (fuel + 1) text) (nameRule (fuel + 1) text) := by
  intro us pos h
  rw [named]
  by_cases hfunction : text = "function" ∧ startsWith '(' us = true
  · rcases hfunction with ⟨rfl, hstart⟩
    have hsigned := isAt_eq '(' h
    rw [hstart] at hsigned
    rw [if_pos rfl, nameRule_function fuel hstart]
    refine .after hsigned ?_
    rcases demand_eq h hstart with ⟨pos₁, hdemand, h₁⟩
    refine .after hdemand ((mirrors_signature h₁.length_lt h₁).bind ?_)
    intro more _ pos₂ _ h₂
    rcases accept_eq ':' h₂ with ⟨pos₃, haccept, h₃⟩
    refine .after haccept ?_
    cases hcolon : startsWith ':' more with
    | true =>
        refine (htracks.suffixed h₃).bind ?_
        rintro ⟨_, rest⟩ _ pos₄ - ⟨rfl, h₄⟩
        exact mirrors_pure ⟨rfl, h₄⟩
    | false =>
        rw [skipMark_of_startsWith hcolon] at h₃
        exact mirrors_pure ⟨rfl, h₃⟩
  · have hunsigned :
        (if text = "function" then isAt (tape ts) '(' else pure false) pos =
          .ok (false, pos) := by
      split
      · rename_i htext
        rw [isAt_eq '(' h, Bool.eq_false_iff.mpr fun hstart =>
          hfunction ⟨htext, hstart⟩]
      · rfl
    refine .after hunsigned (.after (peek_eq h) ?_)
    have hopener {opener : Token} {us : List Token} (hkind : IsOpener opener)
        (h : StandsOn ts (opener :: us) pos) :
        Mirrors (Gives ts) (advance (tape ts) >>= fun _ =>
          arguments (tape ts) fuel >>= fun args =>
          pure (.generic text args)) pos
            (nameRule (fuel + 1) text (opener :: us)) := by
      rw [nameRule_opener fuel text hkind]
      refine .after (advance_eq h) ((htracks.arguments h.next).bind ?_)
      rintro ⟨_, rest⟩ args pos' - ⟨rfl, hrest⟩
      exact mirrors_pure ⟨rfl, hrest⟩
    split
    · rename_i hhead
      rcases List.head?_eq_some_iff.mp hhead with ⟨us, rfl⟩
      exact hopener (Or.inl rfl) h
    · rename_i hhead
      rcases List.head?_eq_some_iff.mp hhead with ⟨us, rfl⟩
      exact hopener (Or.inr rfl) h
    · rename_i hgeneric hangle
      rw [nameRule_other hfunction]
      · exact mirrors_pure ⟨rfl, h⟩
      · rintro t ht (rfl | rfl)
        · exact hgeneric ht
        · exact hangle ht

theorem arguments_tracks :
    Tracks ts (arguments (tape ts) (fuel + 1)) (argumentsRule (fuel + 1)) := by
  intro us pos h
  rw [arguments, argumentsRule]
  refine (htracks.union h).bind ?_
  rintro ⟨_, more⟩ e pos₁ - ⟨rfl, h₁⟩
  rcases accept_eq ',' h₁ with ⟨pos₂, haccept, h₂⟩
  refine .after haccept ?_
  dsimp only
  cases hstart : startsWith ',' more with
  | true =>
      refine (htracks.arguments h₂).bind ?_
      rintro ⟨_, rest⟩ es pos₃ - ⟨rfl, h₃⟩
      exact mirrors_pure ⟨rfl, h₃⟩
  | false =>
      rw [skipMark_of_startsWith hstart] at h₂
      refine (mirrors_demand '>' h₂).bind ?_
      intro rest _ pos₃ _ h₃
      exact mirrors_pure ⟨rfl, h₃⟩

theorem record_tracks : Tracks ts (record (tape ts) (fuel + 1))
    (recordRule (fuel + 1)) := by
  intro us pos h
  rw [record, recordRule]
  refine (htracks.entry h).bind ?_
  rintro ⟨_, more⟩ first pos₁ - ⟨rfl, h₁⟩
  rcases accept_eq '}' h₁ with ⟨pos₂, haccept, h₂⟩
  refine .after haccept ?_
  dsimp only
  cases hstart : startsWith '}' more with
  | true => exact mirrors_pure ⟨rfl, h₂⟩
  | false =>
      rw [skipMark_of_startsWith hstart] at h₂
      refine (mirrors_demand ',' h₂).bind ?_
      intro next _ pos₃ _ h₃
      refine (htracks.record h₃).bind ?_
      rintro ⟨_, rest⟩ others pos₄ - ⟨rfl, h₄⟩
      exact mirrors_pure ⟨rfl, h₄⟩

theorem indexed_tracks
    {us : List Token} {pos : Nat}
    (h : StandsOn ts us pos) :
    Mirrors (Gives ts) (indexed (tape ts) (union (tape ts) fuel)) pos
      (entryRule (fuel + 1) (.mark '[' :: us)) := by
  cases us with
  | nil => exact .after (take_nil h) (mirrors_refuse (by simp) h)
  | cons t us =>
      refine .after (take_cons h) ?_
      cases t with
      | name key =>
          rw [entryRule_name]
          refine (mirrors_demand ':' h.next).bind ?_
          intro _ _ pos₁ _ h₁
          refine (htracks.union h₁).bind ?_
          rintro ⟨_, _⟩ keyType pos₂ - ⟨rfl, h₂⟩
          refine (mirrors_demand ']' h₂).bind ?_
          intro _ _ pos₃ _ h₃
          refine (mirrors_demand ':' h₃).bind ?_
          intro _ _ pos₄ _ h₄
          refine (htracks.union h₄).bind ?_
          rintro ⟨_, rest⟩ value pos₅ - ⟨rfl, h₅⟩
          exact mirrors_pure ⟨rfl, h₅⟩
      | number text => exact mirrors_refuse (by simp) h.next
      | quoted text => exact mirrors_refuse (by simp) h.next
      | mark c => exact mirrors_refuse (by simp) h.next
      | ellipsis => exact mirrors_refuse (by simp) h.next
      | genericOpen => exact mirrors_refuse (by simp) h.next

theorem entry_tracks : Tracks ts (entry (tape ts) (fuel + 1))
    (entryRule (fuel + 1)) := by
  intro us pos h
  rcases accept_eq '[' h with ⟨pos₁, haccept, h₁⟩
  rw [entry]
  refine .after haccept ?_
  cases hstart : startsWith '[' us with
  | true =>
      rw [eq_cons_of_startsWith hstart]
      exact indexed_tracks htracks h₁
  | false =>
      rw [skipMark_of_startsWith hstart] at h₁
      rw [if_neg Bool.false_ne_true]
      refine .after (peek_eq h₁) ?_
      cases us with
      | nil => exact mirrors_refuse (by simp) h₁
      | cons t us =>
          rw [List.head?_cons, Option.bind_some]
          cases hkey : recordKey? t with
          | none =>
              rw [entryRule_of_no_key fuel hstart hkey]
              exact mirrors_refuse (by simp) h₁
          | some key =>
              rcases accept_eq '?' h₁.next with ⟨pos₂, hoptional, h₂⟩
              rcases accept_eq ':' h₂ with ⟨pos₃, hcolon, h₃⟩
              rw [entryRule_key fuel hkey]
              refine .after (advance_eq h₁)
                (.after hoptional (.after hcolon ?_))
              cases hvalue : startsWith ':' (skipMark '?' us) with
              | true =>
                  refine (htracks.union h₃).bind ?_
                  rintro ⟨_, rest⟩ value pos₄ - ⟨rfl, h₄⟩
                  exact mirrors_pure ⟨rfl, h₄⟩
              | false =>
                  rw [skipMark_of_startsWith hvalue] at h₃
                  exact mirrors_pure ⟨rfl, h₃⟩

end Rules

theorem machineTracks
    (ts : List Token)
    (fuel : Nat) :
    MachineTracks ts fuel := by
  induction fuel with
  | zero => exact machineTracks_zero ts
  | succ fuel ih =>
      exact {
        union := union_tracks ih
        further := further_tracks ih
        suffixed := suffixed_tracks ih
        prefixed := prefixed_tracks ih
        primary := primary_tracks ih
        named := named_tracks ih
        arguments := arguments_tracks ih
        record := record_tracks ih
        entry := entry_tracks ih }

theorem mirrors_whole
    {ts : List Token} {fuel : Nat}
    (hfuel : fuelFor ts ≤ fuel) :
    Mirrors (fun e e' _ => e' = e) (whole (tape ts) fuel) 0 (ofTokens ts) := by
  rw [ofTokens, ← unionRule_eq_of_fuelFor_le hfuel]
  refine ((machineTracks ts fuel).union (standsOn_start ts)).bind ?_
  rintro ⟨_, rest⟩ e pos - ⟨rfl, hrest⟩
  refine .after (peek_eq hrest) ?_
  cases rest with
  | nil => exact mirrors_pure rfl
  | cons t rest => exact mirrors_refuse (by simp) hrest

theorem haltOf_ofTokens
    {ts : List Token} {fault : SyntaxError}
    (h : ofTokens ts = .error fault) :
    haltOf fault = .malformed fault := by
  rw [haltOf, isTooDeep_ofTokens h]
  rfl

/-- The machine ends as the rules do: it stays on the tape and within its
bounds. -/
theorem ofTape_eq
    {ts : List Token} {fuel : Nat}
    (hfuel : fuelFor ts ≤ fuel) :
    ofTape (tape ts) fuel = (ofTokens ts).mapError Halt.malformed := by
  have hwhole := mirrors_whole hfuel
  change (fun p : TypeExpr × Nat => p.1) <$> whole (tape ts) fuel 0 = _
  cases hread : ofTokens ts with
  | ok e =>
      rw [hread] at hwhole
      rcases hwhole with ⟨_, pos, hwhole, rfl⟩
      rw [hwhole]
      rfl
  | error fault =>
      rw [hread] at hwhole
      rw [show whole (tape ts) fuel 0 = .error (haltOf fault) from hwhole,
        haltOf_ofTokens hread]
      rfl

end Cursor

open Cursor (tape ofTape)

theorem isTooDeep_tokenize
    {source : String} {fault : SyntaxError}
    (h : tokenize source = .error fault) :
    fault.isTooDeep = false := by
  unfold tokenize at h
  dsimp only at h
  split at h
  · contradiction
  · cases h
    rfl

theorem isTooDeep_parse
    {source : String} {fault : SyntaxError}
    (h : parse source = .error fault) :
    fault.isTooDeep = false := by
  rw [parse] at h
  cases htokens : tokenize source with
  | ok ts =>
      rw [htokens] at h
      exact isTooDeep_ofTokens h
  | error fault' =>
      rw [htokens] at h
      cases h
      exact isTooDeep_tokenize htokens

/-- Parsing is safe for every annotation.  Cutting it into tokens ends, the
cursor never leaves the tape, no loop and no descent goes on for ever, and the
annotation has a tree or is malformed.  It always has a type text. -/
theorem parse_safe
    (source : String) :
    (forall fuel, source.toList.length ≤ fuel ->
        Token.scan fuel source.toList =
          Token.scan source.toList.length source.toList) ∧
      (forall ts, tokenize source = .ok ts -> forall fuel, fuelFor ts ≤ fuel ->
        ofTape (tape ts) fuel = (ofTokens ts).mapError Halt.malformed) ∧
      ((exists e, parse source = .ok e) ∨
        exists fault, parse source = .error fault ∧ fault.isTooDeep = false) ∧
      exists e, resolve source = render e ∧
        (parseStripped source = .ok e ∨
          e = .any ∧ exists fault, parseStripped source = .error fault ∧
            fault.isTooDeep = false) := by
  refine ⟨fun fuel => Token.scan_eq_scanAll, fun ts _ fuel =>
    Cursor.ofTape_eq, ?_, ?_⟩
  · cases h : parse source with
    | ok e => exact Or.inl ⟨e, rfl⟩
    | error fault => exact Or.inr ⟨fault, rfl, isTooDeep_parse h⟩
  · refine ⟨parseOrAny source, rfl, ?_⟩
    unfold parseOrAny
    cases h : parseStripped source with
    | ok e => exact Or.inl rfl
    | error fault => exact Or.inr ⟨rfl, fault, rfl, isTooDeep_parse h⟩

theorem ofTape_open_signature :
    tokenize "a.<function(b=" =
        .ok [.name "a", .genericOpen, .name "function", .mark '(', .name "b",
          .mark '='] ∧
      forall fuel, 56 ≤ fuel ->
        ofTape [some (.name "a"), some .genericOpen, some (.name "function"),
          some (.mark '('), some (.name "b"), some (.mark '='), none] fuel =
            .error (.malformed (.near .openSignature none)) := by
  have htokens : tokenize "a.<function(b=" =
      .ok [.name "a", .genericOpen, .name "function", .mark '(', .name "b",
        .mark '='] := by
    decide +kernel
  exact ⟨htokens, (parse_safe "a.<function(b=").2.1 _ htokens⟩

end TypeExpr
end Ambient
