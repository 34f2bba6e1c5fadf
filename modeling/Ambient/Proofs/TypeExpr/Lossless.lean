import Ambient.Proofs.TypeExpr.Edge
import Ambient.Proofs.TypeExpr.Munch
import Ambient.TypeExpr.Parser

/-!
# Scanning loses nothing

A text that is cut into tokens is made of the texts of these tokens with blanks
between and around them, and the tokens come back however they are spaced out
again.  A text that is refused is cut as far as it goes: what stands before the
place of the fault is cut into tokens, and at that place there is neither a
blank nor a token of any kind.
-/

namespace Ambient

/-!
## Code points

A text is refused at a code point, and so its position counts code points.  No
lexeme ends between the two characters of one.
-/

namespace Text

theorem codes_append
    {front : List Char}
    (h : front.getLast? ≠ some mark)
    (rest : List Char) :
    codes (front ++ rest) = codes front ++ codes rest := by
  fun_induction codes front with
  | case1 => rfl
  | case2 c =>
      have hc : (c == mark) = false := by simpa using h
      cases rest with
      | nil => rfl
      | cons d rest => simp [codes, hc]
  | case3 c d front hmark ih =>
      have hfront : front.getLast? ≠ some mark := by
        cases front with
        | nil => simp
        | cons e front => simpa [List.getLast?_cons_cons] using h
      simp [codes, hmark, ih hfront]
  | case4 c d front hmark ih =>
      have hfront : (d :: front).getLast? ≠ some mark := by
        simpa [List.getLast?_cons_cons] using h
      have hrest := ih hfront
      rw [List.cons_append] at hrest
      simp [codes, hmark, hrest]

theorem exists_codes_cons
    (c : Char)
    (rest : List Char) :
    exists code more, codes (c :: rest) = code :: more := by
  cases rest with
  | nil => exact ⟨_, _, rfl⟩
  | cons d rest =>
      unfold codes
      split
      · exact ⟨_, _, rfl⟩
      · exact ⟨_, _, rfl⟩

theorem length_append_sub
    {front : List Char}
    (h : front.getLast? ≠ some mark)
    (rest : List Char) :
    length (front ++ rest) - length rest = length front := by
  rw [length, codes_append h, List.length_append]
  exact Nat.add_sub_cancel _ _

/-- Characters that all are blanks. -/
def Blanks (cs : List Char) : Prop := forall c, c ∈ cs -> isBlank c = true

instance (cs : List Char) : Decidable (Blanks cs) :=
  decidable_of_iff (cs.all isBlank = true) List.all_eq_true

end Text

namespace Token

open Text (Blanks)

theorem isTypeEnd_ne_mark
    {c : Char}
    (h : isTypeEnd c = true) :
    c ≠ Text.mark :=
  ne_of_class h (by decide +kernel)

theorem EndsIn.getLast?_ne
    {p : Char -> Bool} {cs : List Char}
    (h : EndsIn p cs)
    (hp : forall c, p c = true -> c ≠ Text.mark) :
    cs.getLast? ≠ some Text.mark := by
  rcases h with ⟨init, c, rfl, hc⟩
  simpa using hp c hc

theorem Valid.getLast?_ne
    {t : Token}
    (h : t.Valid) :
    t.text.toList.getLast? ≠ some Text.mark := by
  cases t with
  | name text => exact (endsIn_name h).getLast?_ne fun _ => isTypeEnd_ne_mark
  | number text => exact (endsIn_number h).getLast?_ne fun _ =>
      isTypeEnd_ne_mark
  | quoted text => exact (endsIn_quoted h).getLast?_ne fun _ =>
      isTypeEnd_ne_mark
  | mark c =>
      have hc : c ≠ Text.mark := ne_of_class (p := isMark) h (by decide)
      simpa [text] using hc
  | ellipsis => decide
  | genericOpen => decide

/-!
## The steps of a scan
-/

/-- A scan takes a blank, or else a token, until there is nothing left or it
gets stuck. -/
theorem scan_induction
    {motive : List Char -> Prop}
    (nil : motive [])
    (blank : forall c rest, Text.isBlank c = true -> motive rest ->
      motive (c :: rest))
    (token : forall c tail t rest, Text.isBlank c = false ->
      next? (c :: tail) = some (t, rest) ->
      motive rest -> motive (c :: tail))
    (stuck : forall c tail, Text.isBlank c = false ->
      next? (c :: tail) = none ->
      motive (c :: tail))
    (cs : List Char) :
    motive cs := by
  induction hlength : cs.length using Nat.strongRecOn generalizing cs with
  | ind n ih =>
      subst hlength
      cases cs with
      | nil => exact nil
      | cons c tail =>
          cases hblank : Text.isBlank c with
          | true =>
              exact blank c tail hblank (ih _ (Nat.lt_succ_self _) tail rfl)
          | false =>
              cases hnext : next? (c :: tail) with
              | none => exact stuck c tail hblank hnext
              | some answer =>
                  exact token c tail answer.1 answer.2 hblank hnext
                    (ih _ (length_next? hnext) answer.2 rfl)

theorem scanAll_stuck
    {c : Char} {tail : List Char}
    (hblank : Text.isBlank c = false)
    (h : next? (c :: tail) = none) :
    scanAll (c :: tail) = .error (c :: tail) := by
  simp only [scanAll, List.length_cons, scan, hblank, h, Bool.false_eq_true,
    if_false]

theorem map_eq_ok
    {t : Token} {ts : List Token} {x : Except (List Char) (List Token)}
    (h : x.map (t :: ·) = .ok ts) :
    exists us, x = .ok us ∧ ts = t :: us := by
  cases x with
  | error rest => contradiction
  | ok us =>
      cases h
      exact ⟨us, rfl, rfl⟩

theorem map_eq_error
    {t : Token} {rest : List Char} {x : Except (List Char) (List Token)}
    (h : x.map (t :: ·) = .error rest) :
    x = .error rest := by
  cases x with
  | error rest' =>
      cases h
      rfl
  | ok us => contradiction

/-!
## Texts with blanks between tokens
-/

/-- A text made of the texts of tokens, with blanks between and around them. -/
inductive Interspersed : List Token -> List Char -> Prop where
  | nil {gap}
      (hgap : Blanks gap) :
      Interspersed [] gap
  | cons {gap t ts cs}
      (hgap : Blanks gap)
      (hrest : Interspersed ts cs) :
      Interspersed (t :: ts) (gap ++ (t.text.toList ++ cs))

theorem Interspersed.cons_blank
    {ts : List Token} {cs : List Char} {c : Char}
    (h : Interspersed ts cs)
    (hc : Text.isBlank c = true) :
    Interspersed ts (c :: cs) := by
  have hcons {gap : List Char} (hgap : Blanks gap) : Blanks (c :: gap) :=
    List.forall_mem_cons.mpr ⟨hc, hgap⟩
  cases h with
  | nil hgap => exact .nil (hcons hgap)
  | cons hgap hrest => exact .cons (hcons hgap) hrest

theorem interspersed_of_scanAll
    {cs : List Char} {ts : List Token}
    (h : scanAll cs = .ok ts) :
    Interspersed ts cs ∧ forall t, t ∈ ts -> t.Valid := by
  induction cs using scan_induction generalizing ts with
  | nil =>
      cases h
      exact ⟨.nil (List.forall_mem_nil _), List.forall_mem_nil _⟩
  | blank c rest hblank ih =>
      rw [scanAll_blank rest hblank] at h
      exact ⟨(ih h).1.cons_blank hblank, (ih h).2⟩
  | token c tail t rest hblank hnext ih =>
      rw [scanAll_next? hblank hnext] at h
      rcases map_eq_ok h with ⟨us, hrest, rfl⟩
      rcases next?_sound hnext with ⟨hvalid, happend⟩
      rw [happend]
      rcases ih hrest with ⟨hmade, hall⟩
      exact ⟨.cons (List.forall_mem_nil _) hmade,
        List.forall_mem_cons.mpr ⟨hvalid, hall⟩⟩
  | stuck c tail hblank hnext =>
      rw [scanAll_stuck hblank hnext] at h
      contradiction

/-- The texts of tokens with gaps between them. -/
def spaced (gap : Nat -> String) : List Token -> String
  | [] => ""
  | [t] => t.text
  | t :: u :: ts => t.text ++ gap 0 ++ spaced (fun i => gap (i + 1)) (u :: ts)

theorem free_ellipsis : Free ['.', '.', '.'] [ellipsis] :=
  fun rest => scanAll_next? (by decide) (next?_ellipsis rest)

theorem free_genericOpen : Free ['.', '<'] [genericOpen] :=
  fun rest => scanAll_next? (by decide) (next?_genericOpen rest)

theorem reads_token
    {t : Token}
    (h : t.Valid) :
    Reads t.text.toList [t] := by
  cases t with
  | name text => exact reads_name h
  | number text => exact reads_number h
  | quoted text => exact reads_quoted h
  | mark c =>
      rw [text, String.toList_singleton]
      exact (free_mark h).reads
  | ellipsis => exact free_ellipsis.reads
  | genericOpen => exact free_genericOpen.reads

theorem free_blanks
    {gap : List Char}
    (h : Blanks gap) :
    Free gap [] := by
  induction gap with
  | nil => exact free_nil
  | cons c gap ih =>
      rcases List.forall_mem_cons.mp h with ⟨hc, hgap⟩
      exact free_cons_blank hc (ih hgap)

theorem isBoundary_blanks
    {gap : List Char}
    (hne : gap ≠ [])
    (h : Blanks gap)
    (rest : List Char) :
    isBoundary (gap ++ rest) = true := by
  cases gap with
  | nil => exact absurd rfl hne
  | cons c gap =>
      have hc : Text.isBlank c = true := h c List.mem_cons_self
      have hbreak : isBreak c = true := by simp [isBreak, hc]
      rw [List.cons_append]
      unfold isBoundary
      split
      · rfl
      · rename_i hcons
        rw [(List.cons.inj hcons).1] at hc
        exact absurd hc (by decide)
      · rename_i hcons
        rwa [← (List.cons.inj hcons).1]

/-- Tokens come back when blanks stand between them. -/
theorem reads_spaced
    {ts : List Token} {gap : Nat -> String}
    (hvalid : forall t, t ∈ ts -> t.Valid)
    (hgap : forall i, gap i ≠ "" ∧ Blanks (gap i).toList) :
    Reads (spaced gap ts).toList ts := by
  induction ts generalizing gap with
  | nil => exact free_nil.reads
  | cons t ts ih =>
      rcases List.forall_mem_cons.mp hvalid with ⟨ht, hts⟩
      cases ts with
      | nil => exact reads_token ht
      | cons u ts =>
          -- a token of any kind ends before a blank, so the gap must not be
          -- empty
          have hne : (gap 0).toList ≠ [] :=
            fun h => (hgap 0).1 (String.toList_eq_nil_iff.mp h)
          have hfirst := (reads_token ht).append_free (free_blanks (hgap 0).2)
            (isBoundary_blanks hne (hgap 0).2)
          have hall := hfirst.append_reads (ih hts fun i => hgap (i + 1))
          rw [spaced, String.toList_append, String.toList_append]
          exact hall

/-!
## Refused texts
-/

/-- The place at which a scan gets stuck. -/
structure Stuck (cs front rest : List Char) : Prop where
  append : cs = front ++ rest
  scanned : exists ts, scanAll front = .ok ts
  whole : front.getLast? ≠ some Text.mark
  solid : exists c tail, rest = c :: tail ∧ Text.isBlank c = false
  absent : forall t : Token, t.Valid -> ¬ t.text.toList <+: rest

theorem getLast?_append_ne
    {cs ds : List Char}
    (hcs : cs.getLast? ≠ some Text.mark)
    (hds : ds.getLast? ≠ some Text.mark) :
    (cs ++ ds).getLast? ≠ some Text.mark := by
  rw [List.getLast?_append]
  cases hlast : ds.getLast? with
  | none => exact hcs
  | some c =>
      rw [hlast] at hds
      exact hds

theorem stuck_of_scanAll
    {cs rest : List Char}
    (h : scanAll cs = .error rest) :
    exists front, Stuck cs front rest := by
  induction cs using scan_induction with
  | nil => contradiction
  | blank c tail hblank ih =>
      rw [scanAll_blank tail hblank] at h
      rcases ih h with ⟨front, hstuck⟩
      refine ⟨c :: front, ?_⟩
      constructor
      · rw [hstuck.append, List.cons_append]
      · rcases hstuck.scanned with ⟨ts, hts⟩
        exact ⟨ts, (scanAll_blank front hblank).trans hts⟩
      · have hc : [c].getLast? ≠ some Text.mark := by
          simpa using ne_of_class hblank (by decide)
        exact getLast?_append_ne hc hstuck.whole
      · exact hstuck.solid
      · exact hstuck.absent
  | token c tail t after hblank hnext ih =>
      rw [scanAll_next? hblank hnext] at h
      rcases ih (map_eq_error h) with ⟨front, hstuck⟩
      rcases next?_sound hnext with ⟨hvalid, happend⟩
      refine ⟨t.text.toList ++ front, ?_⟩
      constructor
      · rw [happend, hstuck.append, List.append_assoc]
      · -- the token is found also in the text that ends where the scan gets
        -- stuck
        rw [happend, hstuck.append] at hnext
        have hfront := next?_truncate hnext
        rcases hstuck.scanned with ⟨ts, hts⟩
        cases hcs : t.text.toList with
        | nil => exact absurd hcs hvalid.text_ne_nil
        | cons d text =>
            rw [hcs, List.cons_append] at happend hfront
            rw [(List.cons.inj happend).1] at hblank
            refine ⟨t :: ts, ?_⟩
            rw [List.cons_append, scanAll_next? hblank hfront, hts]
            rfl
      · exact getLast?_append_ne hvalid.getLast?_ne hstuck.whole
      · exact hstuck.solid
      · exact hstuck.absent
  | stuck c tail hblank hnext =>
      rw [scanAll_stuck hblank hnext] at h
      cases h
      exact ⟨[], rfl, ⟨[], rfl⟩,
        by simp, ⟨c, tail, rfl, hblank⟩, fun t => next?_eq_none hnext⟩

end Token

/-!
## Annotations
-/

namespace TypeExpr

open Token (scanAll Interspersed spaced)

theorem tokenize_of_scanAll
    {cs : List Char} {ts : List Token}
    (h : scanAll cs = .ok ts) :
    tokenize (String.ofList cs) = .ok ts := by
  rw [tokenize, String.toList_ofList]
  rw [scanAll] at h
  rw [h]

/-- An annotation that is cut into tokens is made of their texts with blanks
between and around them, and they come back however they are spaced out.  Any
other annotation is cut as far as the place of the fault, where neither a blank
nor a token stands. -/
theorem tokenize_lossless
    (source : String) :
    match tokenize source with
    | .ok ts =>
        Interspersed ts source.toList ∧
          (forall t, t ∈ ts -> t.Valid ∧ t.text ≠ "") ∧
          forall gap : Nat -> String,
            (forall i, gap i ≠ "" ∧ Text.Blanks (gap i).toList) ->
            tokenize (spaced gap ts) = .ok ts
    | .error fault =>
        exists front c rest code, source.toList = front ++ c :: rest ∧
          fault = .character code (Text.length front) ∧
          (Text.codes (c :: rest)).head? = some code ∧
          (exists ts, tokenize (String.ofList front) = .ok ts) ∧
          Text.isBlank c = false ∧
          forall t : Token, t.Valid -> ¬ t.text.toList <+: c :: rest := by
  cases hscan : scanAll source.toList with
  | ok ts =>
      have htokens : tokenize source = .ok ts := by
        simpa using tokenize_of_scanAll hscan
      rcases Token.interspersed_of_scanAll hscan with ⟨hmade, hvalid⟩
      rw [htokens]
      refine ⟨hmade, fun t ht =>
        ⟨hvalid t ht, fun hempty => ?_⟩, fun gap hgap => ?_⟩
      · exact (hvalid t ht).text_ne_nil (by rw [hempty]; rfl)
      · have hreads := Token.reads_spaced hvalid hgap [] rfl
        rw [List.append_nil] at hreads
        have hspaced : scanAll (spaced gap ts).toList = .ok ts :=
          hreads.trans (congrArg Except.ok (List.append_nil ts))
        simpa using tokenize_of_scanAll hspaced
  | error rest =>
      rcases Token.stuck_of_scanAll hscan with ⟨front, hstuck⟩
      rcases hstuck.solid with ⟨c, tail, rfl, hblank⟩
      rcases Text.exists_codes_cons c tail with ⟨code, more, hcodes⟩
      have hfault : tokenize source =
          .error (.character code (Text.length front)) := by
        unfold tokenize
        rw [scanAll] at hscan
        simp only [hscan, hcodes, List.headD_cons]
        rw [hstuck.append, Text.length_append_sub hstuck.whole]
      rw [hfault]
      rcases hstuck.scanned with ⟨ts, hts⟩
      exact ⟨front, c, tail, code, hstuck.append, rfl, by rw [hcodes]; rfl,
        ⟨ts, tokenize_of_scanAll hts⟩, hblank, hstuck.absent⟩

theorem tokenize_lossless_of_names_and_stray_point :
    (exists ts, tokenize "module:a .<-1.5>|...'b c'" = .ok ts ∧ ts.length = 7 ∧
      tokenize (spaced (fun _ => "\t ") ts) = .ok ts) ∧
      exists front rest, "a.b. c".toList = front ++ rest ∧
      Text.length front = 3 ∧
        forall t : Token, t.Valid -> ¬ t.text.toList <+: rest := by
  constructor
  · have hlength : (tokenize "module:a .<-1.5>|...'b c'").toOption.map
        List.length = some 7 := by
      decide +kernel
    have hsource := tokenize_lossless "module:a .<-1.5>|...'b c'"
    cases htokens : tokenize "module:a .<-1.5>|...'b c'" with
    | error fault =>
        rw [htokens] at hlength
        contradiction
    | ok ts =>
        rw [htokens] at hsource hlength
        have hblanks : "\t " ≠ "" ∧ Text.Blanks "\t ".toList := by decide
        exact ⟨ts, rfl, Option.some.inj hlength,
          hsource.2.2 (fun _ => "\t ") fun _ => hblanks⟩
  · have hfault : tokenize "a.b. c" = .error (.character 46 3) := by
      decide +kernel
    have hsource := tokenize_lossless "a.b. c"
    rw [hfault] at hsource
    rcases hsource with ⟨front, c, rest, code, happend, hcode, _, _, _, habsent⟩
    have hplace : 3 = Text.length front := (SyntaxError.character.inj hcode).2
    exact ⟨front, c :: rest, happend, hplace.symm, habsent⟩

end TypeExpr
end Ambient
