import Ambient.Json.Printer
import Ambient.Proofs.Text.Line

/-!
# The lines of JSON texts

The JSON text of a value stands on one line and does not end in an opening
brace, whatever the texts inside the value hold: their line breaks are escaped.
-/

namespace Ambient

open Text

/-!
## Numbers
-/

@[simp] theorem inert_digitsOf (n : Nat) : Inert (Decimal.digitsOf n) := by
  intro c hc
  have hdigit := Nat.isDigit_of_mem_toDigits (by decide) (by decide) hc
  constructor
  · rintro rfl
    exact absurd hdigit (by decide)
  · rintro rfl
    exact absurd hdigit (by decide)

@[simp] theorem inert_zeros (n : Nat) : Inert (Decimal.zeros n) := by
  intro c hc
  rw [List.eq_of_mem_replicate hc]
  decide

theorem inert_decimal (format : NumberFormat) (d : Decimal) :
    Inert (d.write format) := by
  have hds := inert_digitsOf d.digits
  unfold Decimal.write
  dsimp only
  split
  · have hfraction := hds.drop 1
    have hsign : Inert ['e',
        if d.exponent + (Decimal.digitsOf d.digits).length - 1 < 0 then '-'
        else '+'] := by
      split <;> simp
    refine (inert_append _ _).mpr
      ⟨(inert_append _ _).mpr
        ⟨(inert_append _ _).mpr ⟨hds.take 1, ?_⟩, hsign⟩,
        by simp [Decimal.paddedDigits]⟩
    split
    · simp
    · simpa using hfraction
  · split
    · simp
    · have hpadded : Inert (Decimal.digitsOf d.digits ++ Decimal.zeros
        ((d.exponent + (Decimal.digitsOf d.digits).length - 1).toNat + 1 -
          (Decimal.digitsOf d.digits).length)) := by
        simp
      refine (inert_append _ _).mpr
        ⟨hpadded.take _, (inert_cons _ _).mpr ⟨by decide, ?_⟩⟩
      split
      · simp
      · exact hpadded.drop _

theorem closed_double (x : Double) : Closed (x.write NumberFormat.json) := by
  apply closed_of_inert
  cases x with
  | nan => simp [Double.write, NumberFormat.json]
  | infinity negative =>
      cases negative <;> simp [Double.write, NumberFormat.json]
  | finite negative mantissa exponent =>
      have hdigits :=
        inert_decimal NumberFormat.json (Decimal.shortest mantissa exponent)
      cases negative <;> simpa [Double.write] using hdigits

theorem closed_intText (n : Int) : Closed (Value.intText n) := by
  apply closed_of_inert
  unfold Value.intText
  split <;> simp

/-!
## Texts
-/

namespace Json

theorem oneLine_hexDigits (width n : Nat) : '\n' ∉ hexDigits width n := by
  induction width generalizing n with
  | zero => simp [hexDigits]
  | succ width ih =>
      have hdigit : forall k, k < 16 -> '\n' ≠ hexDigit k := by decide
      simp [hexDigits, ih, hdigit (n % 16) (Nat.mod_lt n (by decide))]

theorem oneLine_unitEscape (n : Nat) : '\n' ∉ unitEscape n := by
  simp [unitEscape, oneLine_hexDigits]

theorem oneLine_ite
    {c : Prop} [Decidable c] {cs ds : List Char}
    (hcs : c -> '\n' ∉ cs)
    (hds : '\n' ∉ ds) :
    '\n' ∉ if c then cs else ds := by
  split
  · exact hcs ‹c›
  · exact hds

theorem oneLine_escapeCode (n : Nat) : '\n' ∉ escapeCode n := by
  have hcodes : forall k, k < 0x7F -> 0x20 ≤ k -> '\n' ∉ [Char.ofNat k] := by
    decide
  unfold escapeCode
  iterate 7 refine oneLine_ite (fun _ => by decide) ?_
  refine oneLine_ite (fun hrange => ?_)
    (oneLine_ite (fun _ => oneLine_unitEscape n) ?_)
  · simp only [Bool.and_eq_true, decide_eq_true_eq] at hrange
    exact hcodes n (by omega) hrange.1
  · rw [List.mem_append]
    exact not_or.mpr ⟨oneLine_unitEscape _, oneLine_unitEscape _⟩

theorem closed_quote (s : String) : Closed (quote s) := by
  constructor
  · simp [OneLine, quote, oneLine_escapeCode]
  · rw [quote, String.toList_ofList, List.getLast?_concat]
    decide

/-!
## Values
-/

/-- A result that meets `P`, or a fault other than running out of fuel. -/
def Gives {α : Type} (P : α -> Prop) : Except Fault α -> Prop
  | .ok a => P a
  | .error fault => fault ≠ .endless

theorem Gives.bind
    {α β : Type} {P : α -> Prop} {R : β -> Prop} {r : Except Fault α}
    {f : α -> Except Fault β}
    (hr : Gives P r)
    (hf : forall a, P a -> Gives R (f a)) :
    Gives R (r >>= f) := by
  cases r with
  | ok a => exact hf a hr
  | error fault => exact hr

theorem shortIntText_gives (n : Int) : Gives Closed (Value.shortIntText n) := by
  unfold Value.shortIntText
  -- the bound on the digits is too large to be evaluated
  generalize Numeral.isTooLong n = long
  cases long with
  | true => exact Fault.noConfusion
  | false => exact closed_intText n

theorem scalar_gives (v : Value) : Gives Closed (scalar v) := by
  cases v with
  | null => exact (by decide : Closed "null")
  | bool b =>
      cases b with
      | false => exact (by decide : Closed "false")
      | true => exact (by decide : Closed "true")
  | int n => simp only [scalar, shortIntText_gives]
  | double x => exact closed_double x
  | str s => exact closed_quote s
  | _ => exact Fault.noConfusion

theorem key_gives (k : Value) : Gives OneLine (key k) := by
  unfold key
  split
  · exact (closed_quote _).oneLine
  · have hk := scalar_gives k
    cases hscalar : scalar k with
    | ok t => exact (closed_quote t).oneLine
    | error fault =>
        rw [hscalar] at hk
        exact hk

theorem closed_bracketed
    {s t : String} {ts : List String}
    (hs : OneLine s)
    (ht : Closed t)
    (hne : t ≠ "")
    (hts : forall u, u ∈ ts -> OneLine u) :
    Closed (s ++ ", ".intercalate ts ++ t) := by
  have hinner : OneLine (", ".intercalate ts) :=
    oneLine_intercalate (by decide) hts
  exact closed_append ((oneLine_append _ _).mpr ⟨hs, hinner⟩) ht hne

mutual

theorem textIn_gives
    (around : List Nat)
    (v : Value) :
    Gives Closed (textIn around v) := by
  cases v with
  | list items =>
      exact (itemTexts_gives around items).bind fun ts hts =>
        closed_bracketed (by decide) (by decide) (by decide) hts
  | map entries =>
      exact (entryTexts_gives around entries).bind fun ts hts =>
        closed_bracketed (by decide) (by decide) (by decide) hts
  | pair first second =>
      refine (textIn_gives around first).bind fun t ht => ?_
      refine (textIn_gives around second).bind fun u hu => ?_
      have hfirst : OneLine ("[" ++ t ++ ", " ++ u) := by
        simp [ht.oneLine, hu.oneLine, (by decide : OneLine "["),
          (by decide : OneLine ", ")]
      exact closed_append hfirst (by decide) (by decide)
  | tied label body =>
      unfold textIn
      split
      · exact Fault.noConfusion
      · exact textIn_gives (label :: around) body
  | again label => exact Fault.noConfusion
  | _ => simp only [textIn, scalar_gives]

theorem itemTexts_gives
    (around : List Nat)
    (vs : List Value) :
    Gives (fun ts => forall t, t ∈ ts -> OneLine t) (itemTexts around vs) := by
  cases vs with
  | nil => simp [itemTexts, Gives]
  | cons v vs =>
      refine (textIn_gives around v).bind fun t ht => ?_
      refine (itemTexts_gives around vs).bind fun ts hts => ?_
      exact List.forall_mem_cons.mpr ⟨ht.oneLine, hts⟩

theorem entryTexts_gives
    (around : List Nat)
    (entries : List (Value × Value)) :
    Gives (fun ts => forall t, t ∈ ts -> OneLine t)
      (entryTexts around entries) := by
  cases entries with
  | nil => simp [entryTexts, Gives]
  | cons entry rest =>
      cases entry with
      | mk k v =>
          refine (key_gives k).bind fun name hname => ?_
          refine (textIn_gives around v).bind fun t ht => ?_
          refine (entryTexts_gives around rest).bind fun ts hts => ?_
          have hentry : OneLine (name ++ ": " ++ t) := by
            simp [hname, ht.oneLine, (by decide : OneLine ": ")]
          exact List.forall_mem_cons.mpr ⟨hentry, hts⟩

end

theorem text_ne_endless (v : Value) : text v ≠ .error .endless := by
  intro h
  have hgives := textIn_gives [] v
  rw [← text, h] at hgives
  exact hgives rfl

theorem closed_text
    {v : Value} {t : String}
    (h : text v = .ok t) :
    Closed t := by
  have hgives := textIn_gives [] v
  rw [← text, h] at hgives
  exact hgives

end Json
end Ambient
