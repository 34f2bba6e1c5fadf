import Ambient.Proofs.TypeExpr.Lexeme

/-!
# Scanning written texts

Scanning gives valid tokens only, each with the text it was cut from.  In the
other direction, a text that is put together from the texts of tokens is cut at
the same places again, as long as no name and no number is followed by something
that could go on with it.
-/

namespace Ambient
namespace Token

/-- A token whose text belongs to its kind. -/
def Valid : Token -> Prop
  | name t => NameText t.toList
  | number t => NumberText t.toList
  | quoted t => QuotedText t.toList
  | mark c => isMark c = true
  | ellipsis => True
  | genericOpen => True

/-!
## What the first characters exclude
-/

theorem NameText.exists_head
    {name : List Char}
    (h : NameText name) :
    exists c tail, name = c :: tail ∧ isNameStart c = true := by
  rcases h with hbare | ⟨domain, bare, hdomain, hbare, rfl⟩
  · cases hbare with
    | mk hstart hpart hmore => exact ⟨_, _, rfl, hstart⟩
  · simp only [domains, List.mem_cons, List.not_mem_nil, or_false] at hdomain
    rcases hdomain with rfl | rfl | rfl
    · exact ⟨'m', _, rfl, by decide⟩
    · exact ⟨'e', _, rfl, by decide⟩
    · exact ⟨'e', _, rfl, by decide⟩

/-- A character that may start a number. -/
def isNumberStart (c : Char) : Bool := Text.isDecimal c || c == '-'

theorem NumberText.exists_head
    {number : List Char}
    (h : NumberText number) :
    exists c tail, number = c :: tail ∧ isNumberStart c = true := by
  rcases h with hunsigned | ⟨body, hunsigned, rfl⟩
  · rcases hunsigned.exists_head with ⟨c, tail, rfl, hc⟩
    exact ⟨c, tail, rfl, by rw [isNumberStart, hc, Bool.true_or]⟩
  · exact ⟨'-', body, rfl, by decide⟩

theorem ne_of_class
    {p : Char -> Bool} {c d : Char}
    (hc : p c = true)
    (hd : p d = false) :
    c ≠ d := by
  rintro rfl
  rw [hc] at hd
  contradiction

theorem quotedLexeme?_eq_none
    {c : Char} (rest : List Char)
    (hdouble : c ≠ '"')
    (hsingle : c ≠ '\'') :
    quotedLexeme? (c :: rest) = none := by
  simp [quotedLexeme?, hdouble, hsingle]

theorem numberLexeme?_eq_none
    {c : Char} (rest : List Char)
    (hdecimal : Text.isDecimal c = false)
    (hminus : c ≠ '-') :
    numberLexeme? (c :: rest) = none := by
  unfold numberLexeme?
  split
  · rename_i hcons
    exact absurd (List.cons.inj hcons).1 hminus
  · simp [unsignedLexeme?, hdecimal]

theorem nameLexeme?_eq_none
    {c : Char} (rest : List Char)
    (h : isNameStart c = false) :
    nameLexeme? (c :: rest) = none := by
  cases hname : nameLexeme? (c :: rest) with
  | none => rfl
  | some answer =>
      rcases (nameLexeme?_sound hname) with ⟨htext, happend⟩
      rcases htext.exists_head with ⟨d, tail, hd, hstart⟩
      rw [hd, List.cons_append] at happend
      rw [(List.cons.inj happend).1, hstart] at h
      contradiction

theorem isDecimal_of_isNameStart
    {c : Char}
    (h : isNameStart c = true) :
    Text.isDecimal c = false := by
  simp only [isNameStart, Bool.or_eq_true, beq_iff_eq] at h
  rcases h with ((halpha | rfl) | rfl) | rfl
  · have hval : c.toNat = c.val.toNat := rfl
    have hrange := toNat_of_isAlpha halpha
    have hascii : c.toNat < 0x80 := by omega
    simp only [Text.isDecimal, hascii, if_true, Char.isDigit,
      Bool.and_eq_false_iff, decide_eq_false_iff_not, UInt32.le_iff_toNat_le,
      ge_iff_le]
    simp
    omega
  · decide
  · decide
  · decide

/-!
## Single tokens
-/

theorem wordToken?_sound
    {cs rest : List Char} {t : Token}
    (h : wordToken? cs = some (t, rest)) :
    t.Valid ∧ cs = t.text.toList ++ rest := by
  unfold wordToken? at h
  split at h
  · rename_i literal rest' hquoted
    cases h
    simpa [Valid, text] using quotedLexeme?_sound hquoted
  · split at h
    · rename_i number rest' hnumber
      cases h
      simpa [Valid, text] using numberLexeme?_sound hnumber
    · rw [Option.map_eq_some_iff] at h
      rcases h with ⟨⟨name, rest'⟩, hname, heq⟩
      cases heq
      simpa [Valid, text] using nameLexeme?_sound hname

theorem next?_sound
    {cs rest : List Char} {t : Token}
    (h : next? cs = some (t, rest)) :
    t.Valid ∧ cs = t.text.toList ++ rest := by
  unfold next? at h
  split at h
  · cases h
    exact ⟨trivial, rfl⟩
  · cases h
    exact ⟨trivial, rfl⟩
  · split at h
    · rename_i answer hword
      cases h
      exact wordToken?_sound hword
    · split at h
      · rename_i c tail
        split at h
        · rename_i hmark
          cases h
          exact ⟨hmark, by simp [text]⟩
        · contradiction
      · contradiction

theorem Valid.text_ne_nil
    {t : Token}
    (h : t.Valid) :
    t.text.toList ≠ [] := by
  cases t with
  | name t =>
      rcases NameText.exists_head h with ⟨c, tail, hcs, _⟩
      simp [text, hcs]
  | number t =>
      rcases NumberText.exists_head h with ⟨c, tail, hcs, _⟩
      simp [text, hcs]
  | quoted t =>
      intro hnil
      change QuotedText t.toList at h
      rw [show t.toList = [] from hnil] at h
      cases h
  | mark c => simp [text]
  | ellipsis => decide
  | genericOpen => decide

theorem length_next?
    {cs rest : List Char} {t : Token}
    (h : next? cs = some (t, rest)) :
    rest.length < cs.length := by
  rcases next?_sound h with ⟨hvalid, hcs⟩
  have hpos := List.length_pos_iff.mpr hvalid.text_ne_nil
  rw [hcs, List.length_append]
  omega

theorem next?_of_wordToken?
    {c : Char} {tail rest : List Char} {t : Token}
    (hdot : c ≠ '.')
    (h : wordToken? (c :: tail) = some (t, rest)) :
    next? (c :: tail) = some (t, rest) := by
  unfold next?
  split
  · rename_i hcons
    exact absurd (List.cons.inj hcons).1 hdot
  · rename_i hcons
    exact absurd (List.cons.inj hcons).1 hdot
  · rw [h]

theorem wordToken?_quoted
    {t : String} (rest : List Char)
    (h : (quoted t).Valid) :
    wordToken? (t.toList ++ rest) = some (quoted t, rest) := by
  simp only [wordToken?, quotedLexeme?_append rest h, String.ofList_toList]

theorem wordToken?_number
    {t : String} (rest : List Char)
    (h : (number t).Valid)
    (hrest : isBoundary rest = true) :
    wordToken? (t.toList ++ rest) = some (number t, rest) := by
  rcases NumberText.exists_head h with ⟨c, tail, hcs, hc⟩
  have hnotQuoted : quotedLexeme? (t.toList ++ rest) = none := by
    rw [hcs]
    exact quotedLexeme?_eq_none _ (ne_of_class hc (by decide))
      (ne_of_class hc (by decide))
  simp only [wordToken?, hnotQuoted, numberLexeme?_append h hrest,
    String.ofList_toList]

theorem wordToken?_name
    {t : String} (rest : List Char)
    (h : (name t).Valid)
    (hrest : isBoundary rest = true) :
    wordToken? (t.toList ++ rest) = some (name t, rest) := by
  rcases NameText.exists_head h with ⟨c, tail, hcs, hc⟩
  have hnotQuoted : quotedLexeme? (t.toList ++ rest) = none := by
    rw [hcs]
    exact quotedLexeme?_eq_none _ (ne_of_class hc (by decide))
      (ne_of_class hc (by decide))
  have hnotNumber : numberLexeme? (t.toList ++ rest) = none := by
    rw [hcs]
    exact numberLexeme?_eq_none _ (isDecimal_of_isNameStart hc)
      (ne_of_class hc (by decide))
  simp only [wordToken?, hnotQuoted, hnotNumber, nameLexeme?_append h hrest,
    Option.map_some, String.ofList_toList]

theorem next?_mark
    {c : Char} (rest : List Char)
    (h : isMark c = true) :
    next? (c :: rest) = some (mark c, rest) := by
  have hbreak : isBreak c = true := by simp [isBreak, h]
  have hpart := isNamePart_of_isBreak hbreak
  have hstart : isNameStart c = false := by
    cases hstart : isNameStart c with
    | false => rfl
    | true =>
        rw [isNamePart_of_isNameStart hstart] at hpart
        contradiction
  have hnotQuoted : quotedLexeme? (c :: rest) = none :=
    quotedLexeme?_eq_none rest (ne_of_class h (by decide))
      (ne_of_class h (by decide))
  have hnotNumber : numberLexeme? (c :: rest) = none :=
    numberLexeme?_eq_none rest (isDecimal_of_isBreak hbreak)
      (ne_of_class h (by decide))
  have hword : wordToken? (c :: rest) = none := by
    simp only [wordToken?, hnotQuoted, hnotNumber,
      nameLexeme?_eq_none rest hstart, Option.map_none]
  unfold next?
  split
  · rename_i hcons
    exact absurd (List.cons.inj hcons).1 (ne_of_class h (by decide))
  · rename_i hcons
    exact absurd (List.cons.inj hcons).1 (ne_of_class h (by decide))
  · simp only [hword, h, if_true]

/-!
## Whole texts

The fuel of a scan only has to be the length of the text; more of it changes
nothing.
-/

/-- The tokens of a text, or what is left of the text where no token starts. -/
def scanAll (cs : List Char) : Except (List Char) (List Token) :=
  scan cs.length cs

theorem scan_eq_scanAll
    {fuel : Nat} {cs : List Char}
    (h : cs.length ≤ fuel) :
    scan fuel cs = scanAll cs := by
  induction fuel using Nat.strongRecOn generalizing cs with
  | ind fuel ih =>
      cases cs with
      | nil => cases fuel <;> rfl
      | cons c rest =>
          cases fuel with
          | zero => simp at h
          | succ fuel =>
              have hrest : rest.length ≤ fuel := by simpa using h
              unfold scanAll
              simp only [List.length_cons, scan]
              split
              · rw [ih fuel (Nat.lt_succ_self fuel) hrest]
                rfl
              · cases hnext : next? (c :: rest) with
                | none => rfl
                | some answer =>
                    rcases answer with ⟨t, after⟩
                    have hafter : after.length ≤ rest.length :=
                      Nat.le_of_lt_succ (length_next? hnext)
                    simp only
                    rw [ih fuel (Nat.lt_succ_self fuel)
                      (Nat.le_trans hafter hrest)]
                    by_cases hlt : rest.length < fuel + 1
                    · rw [ih rest.length hlt hafter]
                    · omega

theorem scanAll_blank
    {c : Char} (rest : List Char)
    (h : Text.isBlank c = true) :
    scanAll (c :: rest) = scanAll rest := by
  simp only [scanAll, List.length_cons, scan, h, if_true]

theorem scanAll_next?
    {c : Char} {tail rest : List Char} {t : Token}
    (hblank : Text.isBlank c = false)
    (h : next? (c :: tail) = some (t, rest)) :
    scanAll (c :: tail) = (scanAll rest).map (t :: ·) := by
  have hrest : rest.length ≤ tail.length := Nat.le_of_lt_succ (length_next? h)
  simp only [scanAll, List.length_cons, scan, hblank, Bool.false_eq_true,
    if_false, h]
  rw [scan_eq_scanAll hrest]
  rfl

/-- A scan gives valid tokens, whose texts hold no other characters than the
text that was scanned. -/
theorem scan_sound
    {fuel : Nat} {cs : List Char} {ts : List Token}
    (h : scan fuel cs = .ok ts) :
    forall t, t ∈ ts -> t.Valid ∧ forall c, c ∈ t.text.toList -> c ∈ cs := by
  induction fuel generalizing cs ts with
  | zero =>
      cases cs with
      | nil =>
          cases h
          simp
      | cons c rest => contradiction
  | succ fuel ih =>
      cases cs with
      | nil =>
          cases h
          simp
      | cons c rest =>
          rw [scan] at h
          split at h
          · intro t ht
            rcases ih h t ht with ⟨hvalid, hchars⟩
            exact ⟨hvalid, fun d hd => List.mem_cons_of_mem c (hchars d hd)⟩
          · split at h
            · rename_i t after hnext
              rcases next?_sound hnext with ⟨hvalid, hcs⟩
              cases hrec : scan fuel after with
              | error rest' =>
                  rw [hrec] at h
                  contradiction
              | ok ts' =>
                  rw [hrec] at h
                  cases h
                  intro u hu
                  rw [hcs]
                  rcases List.mem_cons.mp hu with rfl | hu
                  · exact ⟨hvalid, fun d hd => List.mem_append_left after hd⟩
                  · rcases ih hrec u hu with ⟨hvalid', hchars⟩
                    exact ⟨hvalid', fun d hd =>
                      List.mem_append_right _ (hchars d hd)⟩
            · contradiction

/-!
## Written texts

A text is read as tokens when scanning it before a boundary gives these tokens
first.  It stands free when that is so before any text, as it is for marks and
quoted literals.
-/

/-- A text that gives the tokens `ts` before whatever follows. -/
def Free (cs : List Char) (ts : List Token) : Prop :=
  forall rest, scanAll (cs ++ rest) = (scanAll rest).map (ts ++ ·)

/-- A text that gives the tokens `ts` before a boundary. -/
def Reads (cs : List Char) (ts : List Token) : Prop :=
  forall rest, isBoundary rest = true ->
    scanAll (cs ++ rest) = (scanAll rest).map (ts ++ ·)

theorem Free.reads
    {cs : List Char} {ts : List Token}
    (h : Free cs ts) :
    Reads cs ts :=
  fun rest _ => h rest

theorem Reads.scanAll_eq
    {cs : List Char} {ts : List Token}
    (h : Reads cs ts) :
    scanAll cs = .ok ts := by
  have hscan := h [] rfl
  rw [List.append_nil] at hscan
  exact hscan.trans (congrArg Except.ok (List.append_nil ts))

theorem map_append_append
    (ts us : List Token) (x : Except (List Char) (List Token)) :
    (x.map (us ++ ·)).map (ts ++ ·) = x.map (ts ++ us ++ ·) := by
  cases x with
  | error rest => rfl
  | ok vs => simp [Except.map]

theorem Free.append
    {cs ds : List Char} {ts us : List Token}
    (hcs : Free cs ts)
    (hds : Free ds us) :
    Free (cs ++ ds) (ts ++ us) := by
  intro rest
  rw [List.append_assoc, hcs, hds, map_append_append]

theorem Free.append_reads
    {cs ds : List Char} {ts us : List Token}
    (hcs : Free cs ts)
    (hds : Reads ds us) :
    Reads (cs ++ ds) (ts ++ us) := by
  intro rest hrest
  rw [List.append_assoc, hcs, hds rest hrest, map_append_append]

theorem Reads.append_free
    {cs ds : List Char} {ts us : List Token}
    (hcs : Reads cs ts)
    (hds : Free ds us)
    (hboundary : forall rest, isBoundary (ds ++ rest) = true) :
    Free (cs ++ ds) (ts ++ us) := by
  intro rest
  rw [List.append_assoc, hcs (ds ++ rest) (hboundary rest), hds,
    map_append_append]

theorem free_nil : Free [] [] := by
  intro rest
  cases h : scanAll rest <;> simp [h, Except.map]

theorem free_mark
    {c : Char}
    (h : isMark c = true) :
    Free [c] [mark c] := by
  intro rest
  exact scanAll_next? (isBlank_of_class (by decide) h) (next?_mark rest h)

theorem free_cons_mark
    {c : Char} {cs : List Char} {ts : List Token}
    (h : isMark c = true)
    (hcs : Free cs ts) :
    Free (c :: cs) (mark c :: ts) :=
  (free_mark h).append hcs

theorem free_blank
    {c : Char}
    (h : Text.isBlank c = true) :
    Free [c] [] := by
  intro rest
  have hrest := scanAll_blank rest h
  rw [List.singleton_append, hrest]
  cases scanAll rest <;> rfl

theorem free_cons_blank
    {c : Char} {cs : List Char} {ts : List Token}
    (h : Text.isBlank c = true)
    (hcs : Free cs ts) :
    Free (c :: cs) ts :=
  (free_blank h).append hcs

theorem reads_of_wordToken?
    {t : Token} {c : Char} {tail : List Char}
    (hdot : c ≠ '.')
    (hblank : Text.isBlank c = false)
    (h : forall rest, isBoundary rest = true ->
      wordToken? (c :: tail ++ rest) = some (t, rest)) :
    Reads (c :: tail) [t] := by
  intro rest hrest
  exact scanAll_next? hblank (next?_of_wordToken? hdot (h rest hrest))

theorem reads_name
    {t : String}
    (h : (name t).Valid) :
    Reads t.toList [name t] := by
  rcases NameText.exists_head h with ⟨c, tail, hcs, hc⟩
  have hword : forall rest, isBoundary rest = true ->
      wordToken? (t.toList ++ rest) = some (name t, rest) :=
    fun rest hrest => wordToken?_name rest h hrest
  rw [hcs] at hword ⊢
  exact reads_of_wordToken? (ne_of_class hc (by decide))
    (isBlank_of_class (by decide) hc) hword

theorem reads_number
    {t : String}
    (h : (number t).Valid) :
    Reads t.toList [number t] := by
  rcases NumberText.exists_head h with ⟨c, tail, hcs, hc⟩
  have hword : forall rest, isBoundary rest = true ->
      wordToken? (t.toList ++ rest) = some (number t, rest) :=
    fun rest hrest => wordToken?_number rest h hrest
  rw [hcs] at hword ⊢
  exact reads_of_wordToken? (ne_of_class hc (by decide))
    (isBlank_of_class (by decide +kernel) hc)
    hword

theorem reads_quoted
    {t : String}
    (h : (quoted t).Valid) :
    Reads t.toList [quoted t] := by
  have hword : forall rest, isBoundary rest = true ->
      wordToken? (t.toList ++ rest) = some (quoted t, rest) :=
    fun rest _ => wordToken?_quoted rest h
  change QuotedText t.toList at h
  generalize t.toList = cs at h hword
  cases h with
  | mk hquote hbody =>
      rcases hquote with rfl | rfl
      · exact reads_of_wordToken? (by decide) (by decide) hword
      · exact reads_of_wordToken? (by decide) (by decide) hword

end Token
end Ambient
