import Ambient.Proofs.TypeExpr.RoundTrip

/-!
# Type texts hold no markers

An annotation may mark a type as nullable, non-null, optional or repeated, open
type arguments after a dot, and give the signature of a function.  None of this
is left in a type text.  The one question mark that a type text knows stands
between the key of a record entry and its colon.

What may stand at a place depends on the tokens before it: on the last of them,
and for the keys of records on the bracket that is open there.
-/

namespace Ambient
namespace TypeExpr

/-!
## Brackets
-/

/-- The token that closes an open bracket. -/
def closer? : Token -> Option Token
  | .mark '(' => some (.mark ')')
  | .mark '[' => some (.mark ']')
  | .mark '{' => some (.mark '}')
  | .mark '<' => some (.mark '>')
  | .genericOpen => some (.mark '>')
  | _ => none

/-- The open brackets after one more token, the innermost first.  A bracket that
closes none of them stays. -/
def nextBrackets (stack : List Token) (t : Token) : List Token :=
  if stack.head?.bind closer? = some t then stack.tail
  else if opens t || closes t then t :: stack
  else stack

theorem closes_of_closer?
    {t u : Token}
    (h : closer? t = some u) :
    closes u = true := by
  unfold closer? at h
  split at h <;> cases h <;> rfl

theorem nextBrackets_of_closes_eq_false
    {t : Token}
    (stack : List Token)
    (h : closes t = false) :
    nextBrackets stack t = if opens t then t :: stack else stack := by
  have hnot : stack.head?.bind closer? ≠ some t := by
    intro heq
    rcases Option.bind_eq_some_iff.mp heq with ⟨u, _, hclose⟩
    rw [closes_of_closer? hclose] at h
    contradiction
  rw [nextBrackets, if_neg hnot, h, Bool.or_false]

/-- The brackets that are open after some tokens, the innermost first. -/
def openBrackets (ts : List Token) : List Token := ts.foldl nextBrackets []

/-- The tokens close the brackets that they open, and no others. -/
def Balanced (ts : List Token) : Prop :=
  forall stack : List Token, ts.foldl nextBrackets stack = stack

theorem balanced_nil : Balanced [] := fun _ => rfl

theorem Balanced.append
    {ts us : List Token}
    (hts : Balanced ts)
    (hus : Balanced us) :
    Balanced (ts ++ us) := by
  intro stack
  rw [List.foldl_append, hts stack, hus stack]

theorem balanced_singleton
    {t : Token}
    (hopens : opens t = false)
    (hcloses : closes t = false) :
    Balanced [t] := by
  intro stack
  rw [List.foldl_cons, List.foldl_nil,
    nextBrackets_of_closes_eq_false stack hcloses, hopens]
  rfl

theorem balanced_word
    {t : Token}
    (h : (recordKey? t).isSome = true) :
    Balanced [t] := by
  cases t with
  | name text => exact balanced_singleton rfl rfl
  | number text => exact balanced_singleton rfl rfl
  | quoted text => exact balanced_singleton rfl rfl
  | mark c => contradiction
  | ellipsis => contradiction
  | genericOpen => contradiction

theorem Balanced.enclose
    {opening closing : Token} {ts : List Token}
    (hopens : opens opening = true)
    (hcloses : closes opening = false)
    (hpair : closer? opening = some closing)
    (h : Balanced ts) :
    Balanced (opening :: (ts ++ [closing])) := by
  intro stack
  rw [List.foldl_cons, nextBrackets_of_closes_eq_false stack hcloses, hopens,
    if_pos rfl, List.foldl_append, h (opening :: stack)]
  simp [nextBrackets, hpair]

theorem balanced_intercalate
    {sep : Token} {tss : List (List Token)}
    (hsep : Balanced [sep])
    (h : forall ts, ts ∈ tss -> Balanced ts) :
    Balanced ([sep].intercalate tss) := by
  induction tss with
  | nil => exact balanced_nil
  | cons ts tss ih =>
      have hts : Balanced ts := h ts List.mem_cons_self
      have hrest := ih fun us hus => h us (List.mem_cons_of_mem ts hus)
      cases tss with
      | nil => simpa using hts
      | cons us tss =>
          rw [List.intercalate_cons_cons]
          exact (hts.append hsep).append hrest

theorem openBrackets_append_balanced
    {ts us : List Token}
    (h : Balanced us) :
    openBrackets (ts ++ us) = openBrackets ts := by
  rw [openBrackets, List.foldl_append, h]
  rfl

theorem isSome_recordKey?_wordOf
    {key : String}
    (h : KeyMadeOf Token.Valid key) :
    (recordKey? (wordOf key)).isSome = true := by
  rw [(wordOf_key h).1]
  rfl

theorem isSome_recordKey?_literal
    {text : String}
    (h : (Token.quoted text).Valid ∨ (Token.number text).Valid) :
    (recordKey? (wordOf text)).isSome = true := by
  rcases h with h | h
  · exact isSome_recordKey?_wordOf ⟨_, rfl, h⟩
  · exact isSome_recordKey?_wordOf ⟨_, rfl, h⟩

mutual

theorem balanced_spelling
    (e : TypeExpr)
    (h : Normal e) :
    Balanced (spelling e) := by
  cases e with
  | any => exact h.elim
  | nullable inner => exact h.elim
  | function => exact h.elim
  | name text => exact balanced_word rfl
  | literal text => exact balanced_word (isSome_recordKey?_literal h)
  | generic base args =>
      have hcomma : Balanced [.mark ','] := balanced_singleton rfl rfl
      have hargs :=
        balanced_intercalate hcomma (balanced_spellingAll args h.2.2.2.2)
      exact (balanced_word (t := .name base) rfl).append
        (hargs.enclose rfl rfl rfl)
  | array element =>
      have helement :=
        balanced_spelling element (by simpa only [Normal] using h)
      exact helement.append (balanced_nil.enclose rfl rfl rfl)
  | union members =>
      have hbar : Balanced [.mark '|'] := balanced_singleton rfl rfl
      have hmembers :=
        balanced_intercalate hbar (balanced_spellingAll members h.2)
      exact hmembers.enclose rfl rfl rfl
  | record entries =>
      have hcomma : Balanced [.mark ','] := balanced_singleton rfl rfl
      have hentries := balanced_intercalate hcomma
        (balanced_spellingEntries entries (by simpa only [Normal] using h))
      exact hentries.enclose rfl rfl rfl

theorem balanced_spellingAll
    (es : List TypeExpr)
    (h : AllNormal es)
    (ts : List Token)
    (hts : ts ∈ spellingAll es) :
    Balanced ts := by
  cases es with
  | nil => contradiction
  | cons e es =>
      rcases List.mem_cons.mp hts with rfl | hts
      · exact balanced_spelling e h.1
      · exact balanced_spellingAll es h.2 ts hts

theorem balanced_spellingEntries
    (entries : List RecordEntry)
    (h : EntriesNormal entries)
    (ts : List Token)
    (hts : ts ∈ spellingEntries entries) :
    Balanced ts := by
  cases entries with
  | nil => contradiction
  | cons entry entries =>
      rcases List.mem_cons.mp hts with rfl | hts
      · exact balanced_spellingEntry entry h.1
      · exact balanced_spellingEntries entries h.2 ts hts

theorem balanced_spellingEntry
    (entry : RecordEntry)
    (h : EntryNormal entry) :
    Balanced (spellingEntry entry) := by
  have hcolon : Balanced [.mark ':'] := balanced_singleton rfl rfl
  cases entry with
  | bare key optional => exact h.elim
  | field key optional value =>
      have hkey : Balanced [wordOf key] :=
        balanced_word (isSome_recordKey?_wordOf h.1)
      have hmark : Balanced (if optional then [.mark '?'] else []) := by
        cases optional with
        | false => exact balanced_nil
        | true => exact balanced_singleton rfl rfl
      exact hkey.append
        (hmark.append (hcolon.append (balanced_spelling value h.2)))
  | index key keyType value =>
      have hkey : Balanced [.name key] := balanced_word rfl
      have hinner :=
        (hkey.append hcolon).append (balanced_spelling keyType h.2.1)
      have hbrackets : Balanced (.mark '[' :: (_ ++ [.mark ']'])) :=
        hinner.enclose rfl rfl rfl
      have hall :=
        hbrackets.append (hcolon.append (balanced_spelling value h.2.2))
      simpa [spellingEntry] using hall

end

/-!
## Places in a type text
-/

/-- After these tokens the key of a record entry is due: the innermost open
bracket is a brace, and it has just been opened or an entry of it has just
ended. -/
def KeyDue (before : List Token) : Prop :=
  (openBrackets before).head? = some (.mark '{') ∧
    (before.getLast? = some (.mark '{') ∨ before.getLast? = some (.mark ','))

instance (before : List Token) : Decidable (KeyDue before) :=
  inferInstanceAs (Decidable (_ ∧ _))

/-- The token of a type text that may stand after the others. -/
structure Allowed (before : List Token) (t : Token) : Prop where
  unmarked : t ≠ .genericOpen ∧ t ≠ .ellipsis ∧ t ≠ .mark '*' ∧ t ≠ .mark '!' ∧
    t ≠ .mark '='
  optional : t = .mark '?' -> exists front key,
    before = front ++ [key] ∧ KeyDue front ∧ (recordKey? key).isSome = true
  typed : before.getLast? = some (.mark '?') -> t = .mark ':'
  unsigned : t = .mark '(' -> forall n, before.getLast? ≠ some (.name n)

/-- Tokens that may stand after the others, one after the other. -/
def AllAllowed (before : List Token) : List Token -> Prop
  | [] => True
  | t :: ts => Allowed before t ∧ AllAllowed (before ++ [t]) ts

theorem allAllowed_append
    {before ts us : List Token} :
    AllAllowed before (ts ++ us) ↔
      AllAllowed before ts ∧ AllAllowed (before ++ ts) us := by
  induction ts generalizing before with
  | nil => simp [AllAllowed]
  | cons t ts ih =>
      rw [List.cons_append, AllAllowed, AllAllowed, ih, and_assoc,
        List.append_assoc, List.singleton_append]

/-- No colon is due after these tokens. -/
def Settled (before : List Token) : Prop := before.getLast? ≠ some (.mark '?')

/-- A type may start after these tokens. -/
def TypeDue (before : List Token) : Prop :=
  Settled before ∧ forall n, before.getLast? ≠ some (.name n)

theorem typeDue_nil : TypeDue [] := ⟨by simp [Settled], by simp⟩

theorem typeDue_mark
    {before : List Token} {c : Char}
    (hc : c ≠ '?') :
    TypeDue (before ++ [.mark c]) :=
  ⟨by simp [Settled, hc], by simp⟩

theorem typeDue_append_mark
    {before ts : List Token} {c : Char}
    (hc : c ≠ '?') :
    TypeDue (before ++ (ts ++ [.mark c])) := by
  rw [← List.append_assoc]
  exact typeDue_mark hc

theorem KeyDue.typeDue
    {before : List Token}
    (h : KeyDue before) :
    TypeDue before := by
  rcases h.2 with hlast | hlast
  · exact ⟨by simp [Settled, hlast], by simp [hlast]⟩
  · exact ⟨by simp [Settled, hlast], by simp [hlast]⟩

theorem keyDue_brace (before : List Token) :
    KeyDue (before ++ [.mark '{']) := by
  have hopen : openBrackets (before ++ [.mark '{']) =
      .mark '{' :: openBrackets before := by
    rw [openBrackets, List.foldl_append, List.foldl_cons, List.foldl_nil,
      nextBrackets_of_closes_eq_false _ rfl]
    rfl
  exact ⟨by rw [hopen]; rfl, Or.inl List.getLast?_concat⟩

theorem KeyDue.next
    {before ts : List Token}
    (h : KeyDue before)
    (hts : Balanced ts) :
    KeyDue (before ++ ts ++ [.mark ',']) := by
  have hcomma : Balanced [.mark ','] := balanced_singleton rfl rfl
  refine ⟨?_, Or.inr List.getLast?_concat⟩
  rw [openBrackets_append_balanced hcomma, openBrackets_append_balanced hts]
  exact h.1

-- The comma between type arguments is no place for a key, also inside a record.
example :
    KeyDue [.mark '{', .name "a", .mark ':', .name "b", .mark ','] ∧
      ¬ KeyDue [.mark '{', .name "a", .mark ':', .name "b", .mark '<',
        .name "c", .mark ','] := by
  decide

/-!
## Parts of a type text
-/

/-- The tokens may stand after the others, and no colon is due after them. -/
structure Fits (before ts : List Token) : Prop where
  allowed : AllAllowed before ts
  settled : Settled (before ++ ts)

theorem Fits.append
    {before ts us : List Token}
    (hts : Fits before ts)
    (hus : Fits (before ++ ts) us) :
    Fits before (ts ++ us) :=
  ⟨allAllowed_append.mpr ⟨hts.allowed, hus.allowed⟩, by
    rw [← List.append_assoc]
    exact hus.settled⟩

theorem fits_singleton
    {before : List Token} {t : Token}
    (hallowed : Allowed before t)
    (ht : t ≠ .mark '?') :
    Fits before [t] :=
  ⟨⟨hallowed, trivial⟩, by simpa [Settled] using ht⟩

theorem allowed_word
    {before : List Token} {t : Token}
    (h : Settled before)
    (ht : (recordKey? t).isSome = true) :
    Allowed before t := by
  have hmark : forall c, t ≠ .mark c := by
    rintro c rfl
    contradiction
  have hopeners : t ≠ .genericOpen ∧ t ≠ .ellipsis := by
    constructor
    · rintro rfl
      contradiction
    · rintro rfl
      contradiction
  exact ⟨⟨hopeners.1, hopeners.2, hmark _, hmark _, hmark _⟩, fun h =>
    absurd h (hmark _), fun hlast => absurd hlast h,
    fun h => absurd h (hmark _)⟩

theorem fits_word
    {before : List Token} {t : Token}
    (h : Settled before)
    (ht : (recordKey? t).isSome = true) :
    Fits before [t] := by
  refine fits_singleton (allowed_word h ht) ?_
  rintro rfl
  contradiction

/-- The marks that may stand anywhere but after a question mark. -/
def isTypeMark (c : Char) : Bool :=
  ['<', '>', ')', '[', ']', '{', '}', '|', ',', ':'].contains c

theorem fits_mark
    {before : List Token} {c : Char}
    (h : Settled before)
    (hc : isTypeMark c = true) :
    Fits before [.mark c] := by
  have hne : forall d, isTypeMark d = false -> Token.mark c ≠ .mark d := by
    intro d hd heq
    cases heq
    rw [hc] at hd
    contradiction
  have hallowed : Allowed before (.mark c) :=
    ⟨⟨by simp, by simp, hne _ rfl, hne _ rfl, hne _ rfl⟩, fun heq =>
      absurd heq (hne _ rfl), fun hlast => absurd hlast h,
      fun heq => absurd heq (hne _ rfl)⟩
  exact fits_singleton hallowed (hne _ rfl)

theorem fits_paren
    {before : List Token}
    (h : TypeDue before) :
    Fits before [.mark '('] :=
  fits_singleton
    ⟨by simp, by simp, fun hlast => absurd hlast h.1, fun _ => h.2⟩ (by simp)

theorem Fits.mark
    {before ts : List Token} {c : Char}
    (h : Fits before ts)
    (hc : isTypeMark c = true) :
    Fits before (ts ++ [.mark c]) :=
  h.append (fits_mark h.settled hc)

/-- The question mark of an optional key with the colon after it. -/
theorem fits_optional
    {front : List Token} {key : Token}
    (hfront : KeyDue front)
    (hkey : (recordKey? key).isSome = true) :
    Fits (front ++ [key]) [.mark '?', .mark ':'] := by
  have hsettled : (front ++ [key]).getLast? ≠ some (.mark '?') := by
    rw [List.getLast?_concat]
    rintro heq
    cases heq
    contradiction
  refine ⟨⟨
    ⟨by simp, fun _ => ⟨front, key, rfl, hfront, hkey⟩,
      fun hlast => absurd hlast hsettled, by simp⟩,
    ⟨by simp, by simp, fun _ => rfl, by simp⟩, trivial⟩, ?_⟩
  simp [Settled]

/-- Parts with a mark between each two of them, where the mark opens the place
for the next part. -/
theorem fits_intercalate
    {Due : List Token -> Prop} {c : Char} {before : List Token}
    {tss : List (List Token)}
    (hc : isTypeMark c = true)
    (hsettled : forall before, Due before -> Settled before)
    (hnext : forall before ts, Due before -> ts ∈ tss ->
      Due (before ++ ts ++ [.mark c]))
    (h : forall ts, ts ∈ tss -> forall before, Due before -> Fits before ts)
    (hbefore : Due before) :
    Fits before ([.mark c].intercalate tss) := by
  induction tss generalizing before with
  | nil => exact ⟨trivial, by simpa using hsettled before hbefore⟩
  | cons ts tss ih =>
      have hts := h ts List.mem_cons_self before hbefore
      cases tss with
      | nil => simpa using hts
      | cons us tss =>
          rw [List.intercalate_cons_cons]
          refine (hts.mark hc).append ?_
          rw [← List.append_assoc]
          exact ih
            (fun before vs hdue hvs =>
              hnext before vs hdue (List.mem_cons_of_mem ts hvs))
            (fun vs hvs => h vs (List.mem_cons_of_mem ts hvs))
            (hnext before ts hbefore List.mem_cons_self)

theorem fits_types
    {c : Char} {before : List Token} {tss : List (List Token)}
    (hc : isTypeMark c = true)
    (h : forall ts, ts ∈ tss -> forall before, TypeDue before -> Fits before ts)
    (hbefore : TypeDue before) :
    Fits before ([.mark c].intercalate tss) := by
  refine fits_intercalate hc (fun before hdue => hdue.1) ?_ h hbefore
  intro before ts hdue hts
  refine typeDue_mark ?_
  rintro rfl
  contradiction

mutual

theorem fits_spelling
    (e : TypeExpr)
    (h : Normal e)
    (before : List Token)
    (hbefore : TypeDue before) :
    Fits before (spelling e) := by
  cases e with
  | any => exact h.elim
  | nullable inner => exact h.elim
  | function => exact h.elim
  | name text => exact fits_word hbefore.1 rfl
  | literal text => exact fits_word hbefore.1 (isSome_recordKey?_literal h)
  | generic base args =>
      have hopening : Fits before ([.name base] ++ [.mark '<']) :=
        (fits_word hbefore.1 rfl).mark rfl
      have hdue : TypeDue (before ++ ([.name base] ++ [.mark '<'])) :=
        typeDue_append_mark (by decide)
      have hargs :=
        fits_types (c := ',') rfl (fits_spellingAll args h.2.2.2.2) hdue
      exact hopening.append (hargs.mark rfl)
  | array element =>
      have helement :=
        fits_spelling element (by simpa only [Normal] using h) before hbefore
      rw [spelling, List.append_cons]
      exact (helement.mark rfl).mark rfl
  | union members =>
      have hdue : TypeDue (before ++ [.mark '(']) := typeDue_mark (by decide)
      have hmembers :=
        fits_types (c := '|') rfl (fits_spellingAll members h.2) hdue
      exact (fits_paren hbefore).append (hmembers.mark rfl)
  | record entries =>
      have hnormal : EntriesNormal entries := by simpa only [Normal] using h
      have hentries : Fits (before ++ [.mark '{'])
          ([.mark ','].intercalate (spellingEntries entries)) :=
        fits_intercalate rfl (fun before hdue => hdue.typeDue.1)
          (fun before ts hdue hts =>
            hdue.next (balanced_spellingEntries entries hnormal ts hts))
          (fits_spellingEntries entries hnormal) (keyDue_brace before)
      exact (fits_mark hbefore.1 rfl).append (hentries.mark rfl)

theorem fits_spellingAll
    (es : List TypeExpr)
    (h : AllNormal es)
    (ts : List Token)
    (hts : ts ∈ spellingAll es)
    (before : List Token)
    (hbefore : TypeDue before) :
    Fits before ts := by
  cases es with
  | nil => contradiction
  | cons e es =>
      rcases List.mem_cons.mp hts with rfl | hts
      · exact fits_spelling e h.1 before hbefore
      · exact fits_spellingAll es h.2 ts hts before hbefore

theorem fits_spellingEntries
    (entries : List RecordEntry)
    (h : EntriesNormal entries)
    (ts : List Token)
    (hts : ts ∈ spellingEntries entries)
    (before : List Token)
    (hbefore : KeyDue before) :
    Fits before ts := by
  cases entries with
  | nil => contradiction
  | cons entry entries =>
      rcases List.mem_cons.mp hts with rfl | hts
      · exact fits_spellingEntry entry h.1 before hbefore
      · exact fits_spellingEntries entries h.2 ts hts before hbefore

theorem fits_spellingEntry
    (entry : RecordEntry)
    (h : EntryNormal entry)
    (before : List Token)
    (hbefore : KeyDue before) :
    Fits before (spellingEntry entry) := by
  have hsettled : Settled before := hbefore.typeDue.1
  cases entry with
  | bare key optional => exact h.elim
  | field key optional value =>
      have hword := isSome_recordKey?_wordOf h.1
      have hkey : Fits before [wordOf key] := fits_word hsettled hword
      have hcolon : Fits before
          ([wordOf key] ++ (if optional then [.mark '?'] else []) ++
            [.mark ':']) := by
        cases optional with
        | false => exact hkey.mark rfl
        | true => exact hkey.append (fits_optional hbefore hword)
      have hall :=
        hcolon.append
          (fits_spelling value h.2 _ (typeDue_append_mark (by decide)))
      simpa [spellingEntry] using hall
  | index key keyType value =>
      have hkey : Fits before ([.mark '['] ++ [.name key] ++ [.mark ':']) :=
        ((fits_mark hsettled rfl).append
          (fits_word (fits_mark hsettled rfl).settled rfl)).mark rfl
      have hkeyType :=
        hkey.append
          (fits_spelling keyType h.2.1 _ (typeDue_append_mark (by decide)))
      have hcolon := (hkeyType.mark (c := ']') rfl).mark (c := ':') rfl
      have hall := hcolon.append
        (fits_spelling value h.2.2 _ (typeDue_append_mark (by decide)))
      simpa [spellingEntry] using hall

end

/-!
## Type texts
-/

theorem exists_tokenize_resolve (source : String) :
    exists ts, tokenize (resolve source) = .ok ts ∧ Balanced ts ∧
      Fits [] ts := by
  rcases exists_parseOrAny source fun t hvalid _ => hvalid with ⟨e, he, hmade⟩
  have hnormal := normal_normalize e hmade
  refine ⟨spelling (normalize e), ?_, balanced_spelling _ hnormal,
    fits_spelling _ hnormal [] typeDue_nil⟩
  rw [resolve, he, ← render_normalize]
  exact tokenize_render hnormal

theorem AllAllowed.at_place
    {ts front back : List Token} {t : Token}
    (h : AllAllowed [] ts)
    (hts : ts = front ++ t :: back) :
    Allowed front t ∧ AllAllowed (front ++ [t]) back := by
  rw [hts, allAllowed_append] at h
  exact h.2

/-- Every type text is cut into tokens with matching brackets, and they are free
of the markers of annotations: no type arguments are opened after a dot, no type
is marked as repeated, non-null or optional or left open, a question mark stands
between the key of a record entry and its colon only, and no name has a
signature. -/
theorem resolve_unmarked (source : String) :
    exists ts, tokenize (resolve source) = .ok ts ∧ Balanced ts ∧
      (forall t, t ∈ ts ->
        t ≠ .genericOpen ∧ t ≠ .ellipsis ∧ t ≠ .mark '*' ∧ t ≠ .mark '!' ∧
          t ≠ .mark '=') ∧
      (forall before after, ts = before ++ .mark '?' :: after ->
        (exists front key, before = front ++ [key] ∧ KeyDue front ∧
          (recordKey? key).isSome = true) ∧
        exists rest, after = .mark ':' :: rest) ∧
      forall before n after, ts ≠ before ++ .name n :: .mark '(' :: after := by
  rcases exists_tokenize_resolve source with ⟨ts, htokens, hbalanced, hfits⟩
  refine ⟨ts, htokens, hbalanced, ?_, ?_, ?_⟩
  · intro t ht
    rcases List.append_of_mem ht with ⟨front, back, hts⟩
    exact (hfits.allowed.at_place hts).1.unmarked
  · intro before after hts
    rcases hfits.allowed.at_place hts with ⟨hmark, hafter⟩
    refine ⟨hmark.optional rfl, ?_⟩
    cases after with
    | nil =>
        -- The text cannot end here: the last token of a type is no question
        -- mark.
        have hlast := hfits.settled
        simp [Settled, hts] at hlast
    | cons t rest => exact ⟨rest, by rw [hafter.1.typed List.getLast?_concat]⟩
  · intro before n after hts
    have hparen := (hfits.allowed.at_place hts).2.1
    exact hparen.unsigned rfl n List.getLast?_concat

theorem resolve_unmarked_of_markers :
    resolve "function(...*=): !a|\x7bb?: Array.<?c>\x7d" =
      "(Function|\x7b b?: (c|null)[] \x7d)" ∧
      exists ts, tokenize "(Function|\x7b b?: (c|null)[] \x7d)" = .ok ts ∧
      .mark '?' ∈ ts ∧
        forall before n after,
          ts ≠ before ++ .name n :: .mark '(' :: after := by
  have hresolve : resolve "function(...*=): !a|\x7bb?: Array.<?c>\x7d" =
      "(Function|\x7b b?: (c|null)[] \x7d)" := by
    decide +kernel
  have hmark : (tokenize "(Function|\x7b b?: (c|null)[] \x7d)").toOption.any
      (·.contains (.mark '?')) = true := by
    decide +kernel
  rcases resolve_unmarked "function(...*=): !a|\x7bb?: Array.<?c>\x7d" with
    ⟨ts, htokens, _, _, _, hunsigned⟩
  rw [hresolve] at htokens
  rw [htokens] at hmark
  exact ⟨hresolve, ts, htokens,
    by simpa [Except.toOption] using hmark, hunsigned⟩

end TypeExpr
end Ambient
