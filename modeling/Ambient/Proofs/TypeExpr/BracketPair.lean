import Ambient.Proofs.TypeExpr.Grouping
import Ambient.Proofs.TypeExpr.Locality

/-!
# A bracket pair behind an annotation

A bracket pair that is put behind an annotation belongs to the last of its
alternatives.  That one becomes an array, unless it ends in a mark behind which
no bracket may stand, or it is a function type with the type that the function
returns, to which the pair then belongs.
-/

namespace Ambient
namespace TypeExpr

/-!
## Last tokens
-/

/-- The bracket with which a phrase ends that is read up to a bracket. -/
def Phrase.closing : Phrase -> List Token
  | .arguments _ => [.mark '>']
  | .entries _ => [.mark '}']
  | _ => []

/-- What a phrase leaves is the end of the tokens. -/
theorem Derives.suffix
    {phrase : Phrase} {ts rest : List Token}
    (h : Derives phrase ts rest) :
    phrase.closing ++ rest <:+ ts := by
  have hcons (t : Token) (us : List Token) : us <:+ t :: us :=
    List.suffix_cons t us
  induction h with
  | single _ ih => exact ih
  | union _ _ ihfirst ihothers => exact ihothers.trans ihfirst
  | lastAlternative _ ih => exact ih.trans (hcons _ _)
  | moreAlternatives _ _ ihfirst ihothers =>
      exact (ihothers.trans ihfirst).trans (hcons _ _)
  | suffixed suffix _ ih => exact (List.suffix_append _ _).trans ih
  | unknown => exact hcons _ _
  | nullable _ _ ih => exact ih.trans (hcons _ _)
  | nonNull _ ih => exact ih.trans (hcons _ _)
  | repeated _ ih => exact ih.trans (hcons _ _)
  | bare _ ih => exact ih
  | group _ ih => exact ((hcons _ _).trans ih).trans (hcons _ _)
  | star => exact hcons _ _
  | quoted => exact hcons _ _
  | number => exact hcons _ _
  | emptyRecord => exact (hcons _ _).trans (hcons _ _)
  | record _ ih => exact ((hcons _ _).trans ih).trans (hcons _ _)
  | function _ =>
      exact ((List.suffix_append _ _).trans (hcons _ _)).trans (hcons _ _)
  | returning _ _ ih =>
      have hcolon := ih.trans (hcons (.mark ':') _)
      exact ((hcolon.trans (List.suffix_append _ _)).trans (hcons _ _)).trans
        (hcons _ _)
  | name => exact hcons _ _
  | generic _ _ ih =>
      exact (((hcons _ _).trans ih).trans (hcons _ _)).trans (hcons _ _)
  | lastArgument _ ih => exact ih
  | moreArguments _ _ ihfirst ihothers =>
      exact ihothers.trans ((hcons _ _).trans ihfirst)
  | lastEntry _ ih => exact ih
  | moreEntries _ _ ihfirst ihothers =>
      exact ihothers.trans ((hcons _ _).trans ihfirst)
  | bareKey optional _ => exact (List.suffix_append _ _).trans (hcons _ _)
  | field optional _ _ ih =>
      have hcolon := ih.trans (hcons (.mark ':') _)
      exact (hcolon.trans (List.suffix_append _ _)).trans (hcons _ _)
  | index _ _ ihkey ihvalue =>
      have hvalue :=
        ihvalue.trans ((hcons (.mark ':') _).trans (hcons (.mark ']') _))
      exact (hvalue.trans ihkey).trans
        (((hcons _ _).trans (hcons _ _)).trans (hcons _ _))

/-- Tokens that end in one of some marks. -/
def EndsIn (marks : List Char) (ts : List Token) : Prop :=
  exists c, c ∈ marks ∧ ts.getLast? = some (.mark c)

theorem endsIn_iff_of_suffix
    {marks : List Char} {us ts : List Token}
    (h : us <:+ ts)
    (hne : us ≠ []) :
    EndsIn marks ts ↔ EndsIn marks us := by
  rcases h with ⟨front, rfl⟩
  unfold EndsIn
  rw [List.getLast?_append_of_ne_nil front hne]

theorem EndsIn.of_cons
    {c : Char} {marks : List Char} {ts : List Token}
    (h : EndsIn marks ts) :
    EndsIn (c :: marks) ts := by
  rcases h with ⟨d, hd, hlast⟩
  exact ⟨d, List.mem_cons_of_mem c hd, hlast⟩

theorem endsIn_singleton
    {marks : List Char} {t : Token} :
    EndsIn marks [t] ↔ exists c, c ∈ marks ∧ t = .mark c := by
  simp [EndsIn]

/-- The marks behind which no bracket may stand. -/
def endMarks : List Char := ['?', '!', '=']

theorem not_endsIn_of_suffix
    {c : Char} {ts : List Token}
    (h : [.mark c] <:+ ts)
    (hc : c ∉ endMarks) :
    ¬ EndsIn endMarks ts := by
  rw [endsIn_iff_of_suffix h (List.cons_ne_nil _ _), endsIn_singleton]
  rintro ⟨d, hd, heq⟩
  cases heq
  exact hc hd

theorem height_append
    (ts us : List Token) :
    height (ts ++ us) = height ts + height us := by
  induction ts with
  | nil => simp
  | cons t ts ih =>
      rw [List.cons_append, height_cons, height_cons, ih, Int.add_assoc]

/-- Parameters end with a bracket. -/
theorem ClosesOff.not_endsIn
    {sig : List Token}
    (h : ClosesOff 1 sig) :
    ¬ EndsIn endMarks sig := by
  rintro ⟨c, hc, hlast⟩
  rcases List.getLast?_eq_some_iff.mp hlast with ⟨front, rfl⟩
  have hbefore := h.before front [.mark c] rfl (List.cons_ne_nil _ _)
  have hclosed := h.closed
  have hstep : bracketStep (.mark c) = 0 := by
    simp only [endMarks, List.mem_cons, List.not_mem_nil, or_false] at hc
    rcases hc with rfl | rfl | rfl <;> rfl
  rw [height_append, height_cons, hstep, height_nil] at hclosed
  omega

/-!
## Function types with the type they return
-/

/-- A function type with the type that it returns, possibly behind marks. -/
inductive Returning : List Token -> Prop where
  | function {sig ts}
      (hsig : ClosesOff 1 sig) :
      Returning (.name "function" :: .mark '(' :: (sig ++ .mark ':' :: ts))
  | marked {t ts}
      (ht : t = .mark '?' ∨ t = .mark '!' ∨ t = .ellipsis)
      (h : Returning ts) :
      Returning (t :: ts)

theorem returning_cons_iff
    {t : Token} {ts : List Token}
    (ht : t = .mark '?' ∨ t = .mark '!' ∨ t = .ellipsis) :
    Returning (t :: ts) ↔ Returning ts := by
  constructor
  · intro h
    cases h with
    | function hsig => simp at ht
    | marked _ h => exact h
  · exact .marked ht

theorem not_returning_cons
    {t : Token} {ts : List Token}
    (hname : t ≠ .name "function")
    (hmark : ¬ (t = .mark '?' ∨ t = .mark '!' ∨ t = .ellipsis)) :
    ¬ Returning (t :: ts) := by
  intro h
  cases h with
  | function hsig => exact hname rfl
  | marked ht _ => exact hmark ht

/-- A name is that of a function with its type only before parameters and a
colon. -/
theorem returning_name_iff
    {text : String} {ts : List Token} :
    Returning (.name text :: ts) ↔
      text = "function" ∧ startsWith '(' ts = true ∧
      exists rest,
        skipSignature 1 (skipMark '(' ts) = .ok (.mark ':' :: rest) := by
  constructor
  · intro h
    cases h with
    | function hsig => exact ⟨rfl, rfl, _, skipSignature_iff.mpr ⟨_, rfl, hsig⟩⟩
    | marked ht _ => simp at ht
  · rintro ⟨rfl, hopen, rest, hskip⟩
    rcases skipSignature_iff.mp hskip with ⟨sig, hsig, hcloses⟩
    rw [eq_cons_of_startsWith hopen, hsig]
    exact .function hcloses

/-!
## The rules before a bracket pair

The descent is by fuel.  A rule that leaves some tokens is not concerned.
-/

/-- The tokens of a bracket pair. -/
def pair : List Token := [.mark '[', .mark ']']

/-- What becomes of a bracket pair behind a type to which no marks are added: it
is left, it is taken by the type that a function returns, or it is behind a
question mark by itself. -/
inductive Passed (ts : List Token) (e : TypeExpr)
    (result : Except SyntaxError (TypeExpr × List Token)) : Prop where
  | behind
      (hresult : result = .ok (e, pair))
      (hend : Returning ts ↔ EndsIn endMarks ts)
  | taken
      (hresult : result = .ok (e, []))
      (hreturning : Returning ts)
  | failed (fault : SyntaxError)
      (hresult : result = .error fault)
      (hend : EndsIn endMarks ts)

/-- What becomes of a bracket pair behind alternatives, of which the last is
made of some tokens. -/
inductive Received {α : Type} (last : List Token) (whole arrayed : α)
    (result : Except SyntaxError (α × List Token)) : Prop where
  | array
      (hresult : result = .ok (arrayed, []))
      (hplain : ¬ Returning last -> ¬ EndsIn endMarks last)
      (hreturning : Returning last -> EndsIn (']' :: endMarks) last)
  | taken
      (hresult : result = .ok (whole, []))
      (hreturning : Returning last)
  | left
      (hresult : result = .ok (whole, pair))
      (hend : EndsIn endMarks last)
  | failed (fault : SyntaxError)
      (hresult : result = .error fault)
      (hend : EndsIn endMarks last)

structure RulesReceive (fuel : Nat) : Prop where
  suffixed : forall {ts e}, suffixedRule fuel ts = .ok (e, []) ->
    Received ts e (.array e) (suffixedRule fuel (ts ++ pair))
  prefixed : forall {ts e}, prefixedRule fuel ts = .ok (e, []) ->
    Passed ts e (prefixedRule fuel (ts ++ pair))
  primary : forall {ts e}, primaryRule fuel ts = .ok (e, []) ->
    Passed ts e (primaryRule fuel (ts ++ pair))
  name : forall {text ts e}, nameRule fuel text ts = .ok (e, []) ->
    Passed (.name text :: ts) e (nameRule fuel text (ts ++ pair))

theorem rulesReceive_zero : RulesReceive 0 := by
  constructor <;> intros <;> contradiction

theorem bind_eq_of_error
    {ε α β : Type} {x : Except ε α} {f : α -> Except ε β} {fault : ε}
    (hx : x = .error fault) :
    x >>= f = .error fault := by
  rw [hx]
  rfl

/-- A type that ends with a bracket of its own leaves the pair. -/
theorem Passed.of_closed
    {ts : List Token} {e : TypeExpr} {c : Char}
    {result : Except SyntaxError (TypeExpr × List Token)}
    (hresult : result = .ok (e, pair))
    (hreturning : ¬ Returning ts)
    (hend : [.mark c] <:+ ts)
    (hc : c ∉ endMarks) :
    Passed ts e result :=
  .behind hresult (iff_of_false hreturning (not_endsIn_of_suffix hend hc))

theorem Passed.of_word
    {t : Token} {e : TypeExpr}
    {result : Except SyntaxError (TypeExpr × List Token)}
    (hresult : result = .ok (e, pair))
    (hreturning : ¬ Returning [t])
    (ht : forall c, t ≠ .mark c) :
    Passed [t] e result := by
  refine .behind hresult (iff_of_false hreturning ?_)
  rw [endsIn_singleton]
  rintro ⟨c, _, heq⟩
  exact ht c heq

theorem Passed.map
    {ts : List Token} {e : TypeExpr}
    {result : Except SyntaxError (TypeExpr × List Token)}
    (f : TypeExpr -> TypeExpr)
    (h : Passed ts e result) :
    Passed ts (f e) (result >>= fun parsed => .ok (f parsed.1, parsed.2)) := by
  cases h with
  | behind hresult hend => exact .behind (bind_eq_of_ok hresult rfl) hend
  | taken hresult hreturning =>
      exact .taken (bind_eq_of_ok hresult rfl) hreturning
  | failed fault hresult hend =>
      exact .failed fault (bind_eq_of_error hresult) hend

/-- A mark in front changes nothing for a pair behind. -/
theorem Passed.cons
    {t : Token} {ts : List Token} {e : TypeExpr}
    {result : Except SyntaxError (TypeExpr × List Token)}
    (ht : t = .mark '?' ∨ t = .mark '!' ∨ t = .ellipsis)
    (hts : ts ≠ [])
    (h : Passed ts e result) :
    Passed (t :: ts) e result := by
  have hlast : EndsIn endMarks (t :: ts) ↔ EndsIn endMarks ts :=
    endsIn_iff_of_suffix (List.suffix_cons t ts) hts
  cases h with
  | behind hresult hend =>
      exact .behind hresult (by rw [hlast, returning_cons_iff ht, hend])
  | taken hresult hreturning => exact .taken hresult (.marked ht hreturning)
  | failed fault hresult hend => exact .failed fault hresult (hlast.mpr hend)

theorem prefixedRule_pair
    (fuel : Nat) :
    exists fault, prefixedRule fuel pair = .error fault := by
  cases fuel with
  | zero => exact ⟨_, rfl⟩
  | succ fuel =>
      rw [prefixedRule_other (by decide) (by decide) (by decide)]
      cases fuel with
      | zero => exact ⟨_, rfl⟩
      | succ fuel =>
          exact ⟨_, primaryRule_mark (by decide) (by decide) (by decide)⟩

theorem arrays_append_pair
    {e e' : TypeExpr} {ts : List Token}
    (h : arrays e ts = .ok (e', [])) :
    arrays e (ts ++ pair) = .ok (.array e', []) := by
  induction e, ts using arrays.induct with
  | case1 e ts ih =>
      rw [arrays] at h
      rw [List.cons_append, List.cons_append, arrays]
      exact ih h
  | case2 e ts hclose =>
      rw [arrays] at h
      · contradiction
      · exact hclose
  | case3 e ts hopen hother =>
      rw [arrays] at h
      · cases h
        rfl
      · exact hopen
      · exact hother

/-- A mark behind which no bracket may stand leaves the pair. -/
theorem markers_append_pair
    {e e' : TypeExpr} {ts : List Token}
    (h : markers e ts = (e', []))
    (hts : ts ≠ []) :
    markers e (ts ++ pair) = (e', pair) ∧ EndsIn endMarks ts := by
  rcases markers_derives e ts with ⟨nullness, optional, hspell, happly⟩
  rw [h, List.append_nil] at hspell
  subst hspell
  cases nullness with
  | unsaid =>
      cases optional with
      | false => exact absurd rfl hts
      | true => cases h; exact ⟨rfl, '=', by decide, rfl⟩
  | nullable =>
      cases optional with
      | false => cases h; exact ⟨rfl, '?', by decide, rfl⟩
      | true => cases h; exact ⟨rfl, '=', by decide, rfl⟩
  | nonNull =>
      cases optional with
      | false => cases h; exact ⟨rfl, '!', by decide, rfl⟩
      | true => cases h; exact ⟨rfl, '=', by decide, rfl⟩

section Rules

variable {fuel : Nat} (hrules : RulesReceive fuel)

include hrules

theorem suffixedRule_receives
    {ts : List Token} {e : TypeExpr}
    (h : suffixedRule (fuel + 1) ts = .ok (e, [])) :
    Received ts e (.array e) (suffixedRule (fuel + 1) (ts ++ pair)) := by
  rw [suffixedRule] at h ⊢
  rcases bind_eq_ok h with ⟨⟨core, mid⟩, hcore, h⟩
  rcases bind_eq_ok h with ⟨⟨array, mid'⟩, harray, h⟩
  have hmarkers : markers array mid' = (e, []) := Except.ok.inj h
  have hmid : mid <:+ ts := ((rulesDerive fuel).prefixed hcore).suffix
  rcases arrays_derives harray with ⟨n, hspell, _⟩
  have hmid' : mid' <:+ mid := hspell ▸ List.suffix_append _ _
  by_cases hmark : mid' = []
  · subst hmark
    cases hmarkers
    by_cases hbrackets : mid = []
    · -- nothing stands behind the core of the type
      subst hbrackets
      cases harray
      cases hrules.prefixed hcore with
      | behind hresult hend =>
          exact .array (bind_eq_of_ok hresult rfl) hend.not.mp fun h =>
            (hend.mp h).of_cons
      | taken hresult hreturning =>
          exact .taken (bind_eq_of_ok hresult rfl) hreturning
      | failed fault hresult hend =>
          exact .failed fault (bind_eq_of_error hresult) hend
    · -- bracket pairs stand behind it, and this is one more
      have hlast : [.mark ']'] <:+ mid := by
        cases n with
        | zero => exact absurd hspell hbrackets
        | succ n =>
            have hpair : SuffixMark.spell [.brackets] =
                [.mark '['] ++ [.mark ']'] := rfl
            rw [List.append_nil, List.replicate_succ',
              SuffixMark.spell_append, hpair, ← List.append_assoc] at hspell
            exact hspell ▸ List.suffix_append _ _
      refine .array ?_ (fun _ =>
        not_endsIn_of_suffix (hlast.trans hmid) (by decide)) fun _ => ?_
      · refine bind_eq_of_ok
          ((rulesLocal fuel).prefixed hcore hbrackets pair) ?_
        exact bind_eq_of_ok (arrays_append_pair harray) rfl
      · rw [endsIn_iff_of_suffix (hlast.trans hmid) (List.cons_ne_nil _ _)]
        exact ⟨']', List.mem_cons_self, rfl⟩
  · -- a mark stands behind it
    have hbrackets : mid ≠ [] := by
      rintro rfl
      exact hmark (List.suffix_nil.mp hmid')
    rcases markers_append_pair hmarkers hmark with ⟨hmarkers', hend⟩
    refine .left ?_ ((endsIn_iff_of_suffix (hmid'.trans hmid) hmark).mpr hend)
    refine bind_eq_of_ok ((rulesLocal fuel).prefixed hcore hbrackets pair) ?_
    refine bind_eq_of_ok (arrays_append harray hmark pair) ?_
    exact congrArg Except.ok hmarkers'

theorem prefixedRule_receives
    {ts : List Token} {e : TypeExpr}
    (h : prefixedRule (fuel + 1) ts = .ok (e, [])) :
    Passed ts e (prefixedRule (fuel + 1) (ts ++ pair)) := by
  cases ts with
  | nil => exact absurd rfl ((rulesDerive (fuel + 1)).prefixed h).ne_nil
  | cons t ts =>
      rw [List.cons_append]
      by_cases hquestion : t = .mark '?'
      · subst hquestion
        rw [prefixedRule_question] at h ⊢
        split at h
        · cases h
          rcases prefixedRule_pair fuel with ⟨fault, hfault⟩
          exact .failed fault (bind_eq_of_error hfault) ⟨'?', by decide, rfl⟩
        · rename_i hunknown
          rcases bind_eq_ok h with ⟨⟨inner, rest⟩, hinner, h⟩
          cases h
          have hne := ((rulesDerive fuel).prefixed hinner).ne_nil
          rw [endsUnknown_append hne, if_neg hunknown]
          exact ((hrules.prefixed hinner).map .nullable).cons (.inl rfl) hne
      by_cases hbang : t = .mark '!'
      · subst hbang
        rw [prefixedRule] at h ⊢
        exact (hrules.prefixed h).cons (.inr (.inl rfl))
          ((rulesDerive fuel).prefixed h).ne_nil
      by_cases hellipsis : t = .ellipsis
      · subst hellipsis
        rw [prefixedRule] at h ⊢
        exact (hrules.prefixed h).cons (.inr (.inr rfl))
          ((rulesDerive fuel).prefixed h).ne_nil
      rw [prefixedRule_other (by simpa) (by simpa) (by simpa)] at h ⊢
      exact hrules.primary h

omit hrules in
theorem primaryRule_brace_receives
    {ts : List Token} {e : TypeExpr}
    (h : primaryRule (fuel + 1) (.mark '{' :: ts) = .ok (e, [])) :
    Passed (.mark '{' :: ts) e
      (primaryRule (fuel + 1) (.mark '{' :: (ts ++ pair))) := by
  have hreturning : ¬ Returning (.mark '{' :: ts) :=
    not_returning_cons (by simp) (by simp)
  rw [primaryRule] at h ⊢
  split at h
  · rename_i hclose
    have hts := eq_cons_of_startsWith hclose
    rcases Prod.mk.inj (Except.ok.inj h) with ⟨rfl, hrest⟩
    rw [hrest] at hts
    subst hts
    exact .of_closed rfl hreturning (List.suffix_cons _ _) (by decide)
  · rename_i hclose
    rcases bind_eq_ok h with ⟨⟨entries, rest⟩, hentries, h⟩
    cases h
    have hderives := (rulesDerive fuel).entries hentries
    have hrecord := (rulesLocal fuel).record hentries pair
    rw [startsWith_append hderives.ne_nil, if_neg hclose]
    exact .of_closed (bind_eq_of_ok hrecord rfl) hreturning
      (hderives.suffix.trans (List.suffix_cons _ ts)) (by decide)

theorem primaryRule_receives
    {ts : List Token} {e : TypeExpr}
    (h : primaryRule (fuel + 1) ts = .ok (e, [])) :
    Passed ts e (primaryRule (fuel + 1) (ts ++ pair)) := by
  cases ts with
  | nil => contradiction
  | cons t ts =>
      rw [List.cons_append]
      cases t with
      | mark c =>
          by_cases hparen : c = '('
          · subst hparen
            rw [primaryRule] at h ⊢
            rcases bind_eq_ok h with ⟨⟨inner, mid⟩, hinner, h⟩
            rcases bind_eq_ok h with ⟨rest, hclose, h⟩
            cases h
            have hend := ((rulesDerive fuel).union hinner).suffix
            rw [eq_cons_of_expect hclose] at hend
            refine .of_closed ?_ (not_returning_cons (by simp) (by simp))
              (hend.trans (List.suffix_cons _ ts)) (by decide)
            refine bind_eq_of_ok
              ((rulesLocal fuel).union hinner (ne_nil_of_expect hclose) pair) ?_
            exact bind_eq_of_ok (expect_append hclose pair) rfl
          by_cases hstar : c = '*'
          · subst hstar
            cases h
            exact .of_closed rfl (not_returning_cons (by simp) (by simp))
              (List.suffix_refl _)
              (by decide)
          by_cases hbrace : c = '{'
          · subst hbrace
            exact primaryRule_brace_receives h
          rw [primaryRule_mark hparen hstar hbrace] at h
          contradiction
      | quoted text =>
          cases h
          exact .of_word rfl (not_returning_cons (by simp) (by simp)) (by simp)
      | number text =>
          cases h
          exact .of_word rfl (not_returning_cons (by simp) (by simp)) (by simp)
      | name text => exact hrules.name h
      | ellipsis => contradiction
      | genericOpen => contradiction

/-- A bracket pair behind a function type goes to the type that it returns, if
there is one. -/
theorem nameRule_function_receives
    {ts : List Token} {e : TypeExpr}
    (hopen : startsWith '(' ts = true)
    (h : nameRule (fuel + 1) "function" ts = .ok (e, [])) :
    Passed (.name "function" :: ts) e
      (nameRule (fuel + 1) "function" (ts ++ pair)) := by
  have hts := ne_nil_of_startsWith hopen
  rw [nameRule_function fuel hopen] at h
  rw [nameRule_function fuel ((startsWith_append hts _ _).trans hopen),
    skipMark_append hts]
  rcases bind_eq_ok h with ⟨mid, hskip, h⟩
  rw [skipSignature_append hskip pair, ok_bind]
  rcases skipSignature_iff.mp hskip with ⟨sig, hsig, hcloses⟩
  have hsuffix : sig ++ mid <:+ .name "function" :: ts := by
    rw [← hsig, eq_cons_of_startsWith hopen]
    exact (List.suffix_cons _ _).trans (List.suffix_cons _ _)
  split at h
  · rename_i hcolon
    rcases bind_eq_ok h with ⟨⟨returned, rest⟩, hreturn, h⟩
    cases h
    have hne := ne_nil_of_startsWith hcolon
    have hmid := eq_cons_of_startsWith hcolon
    have hreturning : Returning (.name "function" :: ts) :=
      returning_name_iff.mpr ⟨rfl, hopen, _, hmid ▸ hskip⟩
    have htail : skipMark ':' mid <:+ mid := hmid.symm ▸ List.suffix_cons _ _
    have hlast : EndsIn endMarks (.name "function" :: ts) ↔
        EndsIn endMarks (skipMark ':' mid) :=
      endsIn_iff_of_suffix
        ((htail.trans (List.suffix_append sig mid)).trans hsuffix)
        ((rulesDerive fuel).suffixed hreturn).ne_nil
    rw [startsWith_append hne, if_pos hcolon, skipMark_append hne]
    -- the type that is returned is not kept, so only what is left behind it
    -- matters
    cases hrules.suffixed hreturn with
    | array hresult => exact .taken (bind_eq_of_ok hresult rfl) hreturning
    | taken hresult => exact .taken (bind_eq_of_ok hresult rfl) hreturning
    | left hresult hend =>
        exact .behind (bind_eq_of_ok hresult rfl)
          (iff_of_true hreturning (hlast.mpr hend))
    | failed fault hresult hend =>
        exact .failed fault (bind_eq_of_error hresult) (hlast.mpr hend)
  · cases h
    have hreturning : ¬ Returning (.name "function" :: ts) := by
      rw [returning_name_iff]
      rintro ⟨_, _, rest, hskip'⟩
      rw [hskip] at hskip'
      cases hskip'
    have hne : sig ≠ [] := by
      rintro rfl
      have hclosed := hcloses.closed
      simp at hclosed
    rw [List.append_nil] at hsuffix
    refine .behind rfl (iff_of_false hreturning ?_)
    rw [endsIn_iff_of_suffix hsuffix hne]
    exact hcloses.not_endsIn

theorem nameRule_receives
    {text : String} {ts : List Token} {e : TypeExpr}
    (h : nameRule (fuel + 1) text ts = .ok (e, [])) :
    Passed (.name text :: ts) e (nameRule (fuel + 1) text (ts ++ pair)) := by
  by_cases hfunction : text = "function" ∧ startsWith '(' ts = true
  · rcases hfunction with ⟨rfl, hopen⟩
    exact nameRule_function_receives hrules hopen h
  have hreturning : ¬ Returning (.name text :: ts) := by
    rw [returning_name_iff]
    rintro ⟨hname, hopen, _⟩
    exact hfunction ⟨hname, hopen⟩
  cases ts with
  | nil =>
      rw [nameRule_other hfunction (by simp)] at h
      cases h
      refine .of_word (nameRule_other (by simp [startsWith, pair]) ?_)
        hreturning (by simp)
      simp [pair, IsOpener]
  | cons t ts =>
      by_cases hopener : IsOpener t
      · rw [nameRule_opener fuel text hopener] at h
        rw [List.cons_append, nameRule_opener fuel text hopener]
        rcases bind_eq_ok h with ⟨⟨args, rest⟩, hargs, h⟩
        cases h
        have hend := ((rulesDerive fuel).arguments hargs).suffix
        exact .of_closed
          (bind_eq_of_ok ((rulesLocal fuel).arguments hargs pair) rfl)
            hreturning
          (hend.trans ((List.suffix_cons t ts).trans (List.suffix_cons _ _)))
          (by decide)
      · rw [nameRule_other hfunction (by simpa using hopener)] at h
        cases h

end Rules

theorem rulesReceive (fuel : Nat) : RulesReceive fuel := by
  induction fuel with
  | zero => exact rulesReceive_zero
  | succ fuel ih =>
      exact {
        suffixed := suffixedRule_receives ih
        prefixed := prefixedRule_receives ih
        primary := primaryRule_receives ih
        name := nameRule_receives ih }

/-!
## Alternatives before a bracket pair
-/

/-- The type of some alternatives. -/
def unionOf : List TypeExpr -> TypeExpr
  | [e] => e
  | es => .union es

theorem eq_nil_of_unionOf_eq_array
    {others : List TypeExpr} {l e : TypeExpr}
    (h : unionOf (others ++ [l]) = .array e) :
    others = [] := by
  cases others with
  | nil => rfl
  | cons first others => cases others <;> cases h

theorem ne_array_self
    (e : TypeExpr) :
    e ≠ .array e := by
  intro h
  have hsize := congrArg sizeOf h
  simp at hsize

/-- Tokens that end with an alternative, made of the tokens of the second list,
behind others. -/
inductive EndsWith : List Token -> List TypeExpr -> List Token -> Prop where
  | here {ts} :
      EndsWith ts [] ts
  | later {e es ts more last}
      (hfirst : Derives (.suffixed e) ts (.mark '|' :: more))
      (h : EndsWith more es last) :
      EndsWith ts (e :: es) last

theorem Received.map
    {α β : Type} {last : List Token} {whole arrayed : α}
    {result : Except SyntaxError (α × List Token)}
    (f : α -> β)
    (h : Received last whole arrayed result) :
    Received last (f whole) (f arrayed)
      (result >>= fun parsed => .ok (f parsed.1, parsed.2)) := by
  cases h with
  | array hresult hplain hreturning =>
      exact .array (bind_eq_of_ok hresult rfl) hplain hreturning
  | taken hresult hreturning =>
      exact .taken (bind_eq_of_ok hresult rfl) hreturning
  | left hresult hend => exact .left (bind_eq_of_ok hresult rfl) hend
  | failed fault hresult hend =>
      exact .failed fault (bind_eq_of_error hresult) hend

/-- An alternative behind which there are no others. -/
theorem suffixedRule_receives_last
    {β : Type} {fuel : Nat} {ts : List Token} {e : TypeExpr}
    {others : List TypeExpr}
    (f : TypeExpr -> List TypeExpr -> β)
    (h : suffixedRule fuel ts = .ok (e, []))
    (hothers : alternatives fuel [] = .ok (others, [])) :
    others = [] ∧ Received ts (f e []) (f (.array e) [])
      (suffixedRule fuel (ts ++ pair) >>= fun first =>
        alternatives fuel first.2 >>=
          fun others => .ok (f first.1 others.1, others.2)) := by
  cases fuel with
  | zero => contradiction
  | succ fuel =>
      have hnone {us : List Token} (hus : startsWith '|' us = false) :
          alternatives (fuel + 1) us = .ok ([], us) := by
        rw [alternatives, hus]
        rfl
      rw [hnone rfl] at hothers
      cases hothers
      refine ⟨rfl, ?_⟩
      cases (rulesReceive (fuel + 1)).suffixed h with
      | array hresult hplain hreturning =>
          exact .array (bind_eq_of_ok hresult (bind_eq_of_ok (hnone rfl) rfl))
            hplain hreturning
      | taken hresult hreturning =>
          exact .taken (bind_eq_of_ok hresult (bind_eq_of_ok (hnone rfl) rfl))
            hreturning
      | left hresult hend =>
          exact .left (bind_eq_of_ok hresult (bind_eq_of_ok (hnone rfl) rfl))
            hend
      | failed fault hresult hend =>
          exact .failed fault (bind_eq_of_error hresult) hend

theorem alternatives_receives
    {fuel : Nat} {ts : List Token} {es : List TypeExpr}
    (h : alternatives fuel ts = .ok (es, []))
    (hts : ts ≠ []) :
    exists others e more last, es = others ++ [e] ∧ ts = .mark '|' :: more ∧
      EndsWith more others last ∧ Derives (.suffixed e) last [] ∧
      Received last es (others ++ [.array e])
        (alternatives fuel (ts ++ pair)) := by
  induction fuel generalizing ts es with
  | zero => contradiction
  | succ fuel ih =>
      rw [alternatives] at h ⊢
      split at h
      · rename_i hbar
        rcases bind_eq_ok h with ⟨⟨first, mid⟩, hfirst, h⟩
        rcases bind_eq_ok h with ⟨⟨others, rest⟩, hothers, h⟩
        cases h
        have hderives := (rulesDerive fuel).suffixed hfirst
        rw [startsWith_append hts, if_pos hbar, skipMark_append hts]
        by_cases hmid : mid = []
        · subst hmid
          rcases suffixedRule_receives_last (fun e es => e :: es) hfirst
            hothers with
            ⟨rfl, hreceived⟩
          exact ⟨[], first, _, _, rfl, eq_cons_of_startsWith hbar, .here,
            hderives, hreceived⟩
        · rcases ih hothers hmid with
            ⟨others, e, more, last, rfl, rfl, hends, hlast, hreceived⟩
          refine ⟨first :: others, e, _, last, rfl, eq_cons_of_startsWith hbar,
            .later hderives hends, hlast, ?_⟩
          rw [(rulesLocal fuel).suffixed hfirst hmid pair]
          exact hreceived.map (first :: ·)
      · cases h
        contradiction

/-- A bracket pair behind some alternatives belongs to the last of them. -/
theorem unionRule_receives
    {fuel : Nat} {ts : List Token} {e : TypeExpr}
    (h : unionRule fuel ts = .ok (e, [])) :
    exists others l last, e = unionOf (others ++ [l]) ∧
      EndsWith ts others last ∧
      Derives (.suffixed l) last [] ∧
      Received last e (unionOf (others ++ [.array l]))
        (unionRule fuel (ts ++ pair)) := by
  cases fuel with
  | zero => contradiction
  | succ fuel =>
      rw [unionRule] at h ⊢
      rcases bind_eq_ok h with ⟨⟨first, mid⟩, hfirst, h⟩
      rcases bind_eq_ok h with ⟨⟨others, rest⟩, hothers, h⟩
      cases h
      have hderives := (rulesDerive fuel).suffixed hfirst
      by_cases hmid : mid = []
      · subst hmid
        rcases suffixedRule_receives_last
            (fun e es => if es.isEmpty then e else .union (e :: es)) hfirst
            hothers with
          ⟨rfl, hreceived⟩
        exact ⟨[], first, ts, rfl, .here, hderives, hreceived⟩
      · rcases alternatives_receives hothers hmid with
          ⟨others, e, more, last, rfl, rfl, hends, hlast, hreceived⟩
        have hunion (l : TypeExpr) :
            (if (others ++ [l]).isEmpty then first
              else .union (first :: (others ++ [l]))) =
              unionOf (first :: others ++ [l]) := by
          cases others <;> rfl
        refine ⟨first :: others, e, last, hunion e, .later hderives hends,
          hlast, ?_⟩
        rw [(rulesLocal fuel).suffixed hfirst hmid pair, ← hunion]
        exact hreceived.map fun others =>
          if others.isEmpty then first else .union (first :: others)

theorem scanAll_append_brackets
    {cs : List Char} {ts : List Token}
    (h : Token.scanAll cs = .ok ts) :
    Token.scanAll (cs ++ ['[', ']']) = .ok (ts ++ pair) := by
  rw [Token.scanAll_append (by decide) (by decide) h]
  rfl

/-- An annotation with a bracket pair behind it is the annotation with an array
for its last alternative; or it is read as before, if that is a function type;
or it is malformed. -/
theorem parse_append_brackets
    {source : String} {e : TypeExpr}
    (h : parse source = .ok e) :
    exists ts others l last, tokenize source = .ok ts ∧
      EndsWith ts others last ∧
      Derives (.suffixed l) last [] ∧ e = unionOf (others ++ [l]) ∧
      ((parse (source ++ "[]") = .ok (unionOf (others ++ [.array l])) ∧
          (¬ Returning last -> ¬ EndsIn endMarks last) ∧
          (Returning last -> EndsIn (']' :: endMarks) last)) ∨
        (parse (source ++ "[]") = .ok e ∧ Returning last) ∨
        (exists fault, parse (source ++ "[]") = .error fault) ∧
          EndsIn endMarks last) := by
  rcases parse_eq_ok_iff.mp h with ⟨ts, hscan, htree⟩
  have hfuel : fuelFor ts ≤ fuelFor (ts ++ pair) := by
    simp only [fuelFor, List.length_append]
    omega
  have hunion := ofTokens_eq_ok_iff.mp htree
  rw [← unionRule_eq_of_fuelFor_le hfuel] at hunion
  rcases unionRule_receives hunion with
    ⟨others, l, last, he, hends, hlast, hreceived⟩
  refine ⟨ts, others, l, last, tokenize_eq_ok_iff.mpr hscan, hends,
    hlast, he, ?_⟩
  have hscan' : Token.scanAll (source ++ "[]").toList = .ok (ts ++ pair) := by
    rw [String.toList_append]
    exact scanAll_append_brackets hscan
  have hparse : parse (source ++ "[]") = ofTokens (ts ++ pair) := by
    rw [parse, tokenize_eq_ok_iff.mpr hscan']
    rfl
  rw [hparse]
  cases hreceived with
  | array hresult hplain hreturning =>
      exact .inl ⟨ofTokens_eq_ok_iff.mpr hresult, hplain, hreturning⟩
  | taken hresult hreturning =>
      exact .inr (.inl ⟨ofTokens_eq_ok_iff.mpr hresult, hreturning⟩)
  | left hresult hend =>
      exact .inr (.inr ⟨⟨_, bind_eq_of_ok hresult rfl⟩, hend⟩)
  | failed fault hresult hend =>
      exact .inr (.inr ⟨⟨fault, bind_eq_of_error hresult⟩, hend⟩)

end TypeExpr
end Ambient
