import Ambient.TypeExpr.Token

/-!
# The texts of lexemes

Names, numbers and quoted literals as classes of texts, apart from the functions
that cut them from the front of a longer text.  Each cutting function gives a
text of its class, and it gives back every text of its class when what follows
cannot be taken for a part of it.
-/

namespace Ambient
namespace Token

/-!
## Character classes

The characters that lexemes are made of are neither blanks nor marks, which end
them.
-/

/-- The code points of the blanks. -/
def blankCodes : List Nat :=
  List.range' 0x09 5 ++ List.range' 0x1C 5 ++ [0x85, 0xA0, 0x1680] ++
    List.range' 0x2000 11 ++
    [0x2028, 0x2029, 0x202F, 0x205F, 0x3000]

theorem toNat_mem_blankCodes
    {c : Char}
    (h : Text.isBlank c = true) :
    c.toNat ∈ blankCodes := by
  simp only [Text.isBlank, Bool.or_eq_true, Bool.and_eq_true, decide_eq_true_eq,
    beq_iff_eq] at h
  simp only [blankCodes, List.mem_append, List.mem_range'_1, List.mem_cons,
    List.not_mem_nil, or_false]
  omega

theorem eq_false_of_isBlank
    {p : Char -> Bool} {c : Char}
    (hall : forall n, n ∈ blankCodes -> p (Char.ofNat n) = false)
    (h : Text.isBlank c = true) :
    p c = false := by
  have hc := hall c.toNat (toNat_mem_blankCodes h)
  rwa [Char.ofNat_toNat] at hc

theorem isBlank_of_class
    {p : Char -> Bool} {c : Char}
    (hall : forall n, n ∈ blankCodes -> p (Char.ofNat n) = false)
    (hc : p c = true) :
    Text.isBlank c = false := by
  cases hblank : Text.isBlank c with
  | false => rfl
  | true =>
      rw [eq_false_of_isBlank hall hblank] at hc
      contradiction

theorem isWord_of_isBlank
    {c : Char}
    (h : Text.isBlank c = true) :
    Text.isWord c = false :=
  eq_false_of_isBlank (by decide +kernel) h

theorem isDecimal_of_isBlank
    {c : Char}
    (h : Text.isBlank c = true) :
    Text.isDecimal c = false :=
  eq_false_of_isBlank (by decide +kernel) h

theorem isNamePart_of_isBlank
    {c : Char}
    (h : Text.isBlank c = true) :
    isNamePart c = false := by
  have hother : (c == '$' || c == '@' || c == '-') = false :=
    eq_false_of_isBlank (p := fun c => c == '$' || c == '@' || c == '-')
      (by decide) h
  simp only [isNamePart, isWord_of_isBlank h]
  simpa using hother

theorem toNat_of_isAlpha
    {c : Char}
    (h : c.isAlpha = true) :
    65 ≤ c.toNat ∧ c.toNat ≤ 90 ∨ 97 ≤ c.toNat ∧ c.toNat ≤ 122 := by
  change (decide (c.val ≥ 65 ∧ c.val ≤ 90) || (c.val ≥ 97 && c.val ≤ 122)) =
    true at h
  simpa [UInt32.le_iff_toNat_le] using h

theorem isNamePart_of_isNameStart
    {c : Char}
    (h : isNameStart c = true) :
    isNamePart c = true := by
  simp only [isNameStart, Bool.or_eq_true, beq_iff_eq] at h
  rcases h with ((halpha | rfl) | rfl) | rfl
  · have hrange := toNat_of_isAlpha halpha
    have hascii : c.toNat < 0x80 := by omega
    simp [isNamePart, Text.isWord, hascii, Char.isAlphanum, halpha]
  · decide
  · decide
  · decide

theorem isJoiner_cases
    {c : Char}
    (h : isJoiner c = true) :
    c = '.' ∨ c = '/' ∨ c = '#' ∨ c = '~' := by
  simpa [isJoiner, or_assoc] using h

theorem isNamePart_of_isJoiner
    {c : Char}
    (h : isJoiner c = true) :
    isNamePart c = false := by
  rcases isJoiner_cases h with rfl | rfl | rfl | rfl <;> decide

/-- A character that ends every lexeme but a quoted one. -/
def isBreak (c : Char) : Bool := isMark c || Text.isBlank c

theorem eq_false_of_isBreak
    {p : Char -> Bool} {c : Char}
    (hmarks : ['<', '>', '(', ')', '[', ']', '{', '}', '|', ',', ':', '?', '!',
      '=', '*'].any p =
      false)
    (hblank : Text.isBlank c = true -> p c = false)
    (h : isBreak c = true) :
    p c = false := by
  rcases Bool.or_eq_true_iff.mp h with hmark | hc
  · rw [List.any_eq_false] at hmarks
    simpa using hmarks c (by simpa [isMark] using hmark)
  · exact hblank hc

theorem isNamePart_of_isBreak
    {c : Char}
    (h : isBreak c = true) :
    isNamePart c = false :=
  eq_false_of_isBreak (by decide) isNamePart_of_isBlank h

theorem isDecimal_of_isBreak
    {c : Char}
    (h : isBreak c = true) :
    Text.isDecimal c = false :=
  eq_false_of_isBreak (by decide) isDecimal_of_isBlank h

theorem isJoiner_of_isBreak
    {c : Char}
    (h : isBreak c = true) :
    isJoiner c = false := by
  cases hjoiner : isJoiner c with
  | false => rfl
  | true =>
      rcases isJoiner_cases hjoiner with rfl | rfl | rfl | rfl <;> revert h
        <;> decide

/-- Whether a text cannot go on a name or a number before it.  A colon could,
between a domain and a name. -/
def isBoundary : List Char -> Bool
  | [] => true
  | ':' :: d :: _ => !isNameStart d
  | c :: _ => isBreak c

theorem isBreak_of_isBoundary
    {c : Char} {rest : List Char}
    (h : isBoundary (c :: rest) = true) :
    isBreak c = true := by
  unfold isBoundary at h
  split at h
  · contradiction
  · rename_i hcons
    cases hcons
    decide
  · rename_i hcons
    cases hcons
    exact h

theorem takeWhile_boundary
    {p : Char -> Bool} {part : List Char} (rest : List Char)
    (hpart : forall c, c ∈ part -> p c = true)
    (hrest : forall c tail, rest = c :: tail -> p c = false) :
    (part ++ rest).takeWhile p = part ∧ (part ++ rest).dropWhile p = rest := by
  rw [List.takeWhile_append_of_pos hpart, List.dropWhile_append_of_pos hpart]
  cases rest with
  | nil => simp
  | cons c tail => simp [hrest c tail rfl]

/-!
## Names
-/

/-- The parts of a name after the first one. -/
inductive JoinedText : List Char -> Prop where
  | nil : JoinedText []
  | part {j c : Char} {part more : List Char}
      (hjoiner : isJoiner j = true)
      (hfirst : isNamePart c = true)
      (hpart : forall d, d ∈ part -> isNamePart d = true)
      (hmore : JoinedText more) :
      JoinedText (j :: c :: (part ++ more))

/-- A name without a domain before it. -/
inductive BareText : List Char -> Prop where
  | mk {c : Char} {part more : List Char}
      (hstart : isNameStart c = true)
      (hpart : forall d, d ∈ part -> isNamePart d = true)
      (hmore : JoinedText more) :
      BareText (c :: (part ++ more))

/-- A name, with or without a domain before it. -/
def NameText (cs : List Char) : Prop :=
  BareText cs ∨ exists domain bare, domain ∈ domains ∧ BareText bare ∧
    cs = domain ++ bare

theorem joinedParts_sound
    {fuel : Nat} {cs more rest : List Char}
    (h : joinedParts fuel cs = (more, rest)) :
    JoinedText more ∧ cs = more ++ rest := by
  induction fuel generalizing cs more rest with
  | zero =>
      simp only [joinedParts, Prod.mk.injEq] at h
      rcases h with ⟨rfl, rfl⟩
      exact ⟨JoinedText.nil, rfl⟩
  | succ fuel ih =>
      unfold joinedParts at h
      split at h
      · contradiction
      · rename_i j c tail hfuel
        cases hfuel
        split at h
        · rename_i hjoined
          rw [Bool.and_eq_true] at hjoined
          cases hrec : joinedParts fuel (tail.dropWhile isNamePart) with
          | mk more' rest' =>
              simp only [hrec, Prod.mk.injEq] at h
              rcases h with ⟨rfl, rfl⟩
              rcases ih hrec with ⟨hmore, htail⟩
              have hpart : forall d, d ∈ tail.takeWhile isNamePart ->
                  isNamePart d = true :=
                List.all_eq_true.mp List.all_takeWhile
              refine ⟨JoinedText.part hjoined.1 hjoined.2 hpart hmore, ?_⟩
              have hsplit :=
                List.takeWhile_append_dropWhile (p := isNamePart) (l := tail)
              simp only [List.cons_append, List.append_assoc, ← htail, hsplit]
        · cases h
          exact ⟨JoinedText.nil, rfl⟩
      · cases h
        exact ⟨JoinedText.nil, rfl⟩

theorem JoinedText.head_not_isNamePart
    {more : List Char} {c : Char} {tail : List Char}
    (h : JoinedText more)
    (hcons : more = c :: tail) :
    isNamePart c = false := by
  cases h with
  | nil => contradiction
  | part hjoiner hfirst hpart hmore =>
      cases hcons
      exact isNamePart_of_isJoiner hjoiner

theorem JoinedText.append_head_not_isNamePart
    {more rest : List Char} {c : Char} {tail : List Char}
    (h : JoinedText more)
    (hrest : isBoundary rest = true)
    (hcons : more ++ rest = c :: tail) :
    isNamePart c = false := by
  cases more with
  | nil =>
      rw [List.nil_append] at hcons
      rw [hcons] at hrest
      exact isNamePart_of_isBreak (isBreak_of_isBoundary hrest)
  | cons d more =>
      cases hcons
      exact h.head_not_isNamePart rfl

theorem joinedParts_boundary
    (fuel : Nat) {rest : List Char}
    (hrest : isBoundary rest = true) :
    joinedParts fuel rest = ([], rest) := by
  cases fuel with
  | zero => rfl
  | succ fuel =>
      cases rest with
      | nil => rfl
      | cons j tail =>
          have hjoiner := isJoiner_of_isBreak (isBreak_of_isBoundary hrest)
          cases tail with
          | nil => rfl
          | cons c tail => simp [joinedParts, hjoiner]

theorem joinedParts_append
    {more rest : List Char} {fuel : Nat}
    (h : JoinedText more)
    (hrest : isBoundary rest = true)
    (hfuel : more.length ≤ fuel) :
    joinedParts fuel (more ++ rest) = (more, rest) := by
  induction h generalizing fuel with
  | nil => exact joinedParts_boundary fuel hrest
  | @part j c part more hjoiner hfirst hpart hmore ih =>
      cases fuel with
      | zero => simp at hfuel
      | succ fuel =>
          have hsplit := takeWhile_boundary (more ++ rest) hpart
            (fun d tail hcons => hmore.append_head_not_isNamePart hrest hcons)
          have hmoreFuel : more.length ≤ fuel := by
            simp only [List.length_cons, List.length_append] at hfuel
            omega
          simp only [List.cons_append, List.append_assoc, joinedParts,
            hjoiner, hfirst, Bool.and_self, if_true, hsplit.1, hsplit.2,
            ih hmoreFuel]

theorem bareName?_sound
    {cs name rest : List Char}
    (h : bareName? cs = some (name, rest)) :
    BareText name ∧ cs = name ++ rest := by
  cases cs with
  | nil => contradiction
  | cons c tail =>
      by_cases hstart : isNameStart c = true
      · simp only [bareName?, hstart, if_true] at h
        cases hrec : joinedParts tail.length (tail.dropWhile isNamePart) with
        | mk more rest' =>
            simp only [hrec, Option.some.injEq, Prod.mk.injEq] at h
            rcases h with ⟨rfl, rfl⟩
            rcases joinedParts_sound hrec with ⟨hmore, htail⟩
            have hpart : forall d, d ∈ tail.takeWhile isNamePart ->
                isNamePart d = true :=
              List.all_eq_true.mp List.all_takeWhile
            refine ⟨BareText.mk hstart hpart hmore, ?_⟩
            have hsplit :=
              List.takeWhile_append_dropWhile (p := isNamePart) (l := tail)
            simp only [List.cons_append, List.append_assoc, ← htail, hsplit]
      · simp [bareName?, hstart] at h

theorem bareName?_append
    {name rest : List Char}
    (h : BareText name)
    (hrest : isBoundary rest = true) :
    bareName? (name ++ rest) = some (name, rest) := by
  cases h with
  | @mk c part more hstart hpart hmore =>
      have hsplit := takeWhile_boundary (more ++ rest) hpart
        (fun d tail hcons => hmore.append_head_not_isNamePart hrest hcons)
      have hfuel : more.length ≤ (part ++ (more ++ rest)).length := by
        simp only [List.length_append]
        omega
      simp only [List.cons_append, List.append_assoc, bareName?, hstart,
        if_true, hsplit.1, hsplit.2, joinedParts_append hmore hrest hfuel]

/-- The characters of a name without a domain. -/
theorem BareText.forall_mem
    {name : List Char}
    (h : BareText name) :
    forall c, c ∈ name -> isNamePart c = true ∨ isJoiner c = true := by
  have hjoined : forall {more : List Char}, JoinedText more ->
      forall c, c ∈ more -> isNamePart c = true ∨ isJoiner c = true := by
    intro more hmore
    induction hmore with
    | nil => simp
    | part hjoiner hfirst hpart hmore ih =>
        intro c hc
        simp only [List.mem_cons, List.mem_append] at hc
        rcases hc with rfl | rfl | hc | hc
        · exact Or.inr hjoiner
        · exact Or.inl hfirst
        · exact Or.inl (hpart c hc)
        · exact ih c hc
  cases h with
  | mk hstart hpart hmore =>
      intro c hc
      simp only [List.mem_cons, List.mem_append] at hc
      rcases hc with rfl | hc | hc
      · exact Or.inl (isNamePart_of_isNameStart hstart)
      · exact Or.inl (hpart c hc)
      · exact hjoined hmore c hc

theorem BareText.not_isBreak
    {name : List Char} {c : Char}
    (h : BareText name)
    (hc : c ∈ name) :
    isBreak c = false := by
  cases hbreak : isBreak c with
  | false => rfl
  | true =>
      rcases h.forall_mem c hc with hpart | hjoiner
      · rw [isNamePart_of_isBreak hbreak] at hpart
        contradiction
      · rw [isJoiner_of_isBreak hbreak] at hjoiner
        contradiction

/-!
A name without a domain may be a domain's word, as `module` is.  What follows it
then decides: the colon of a domain needs a name after it.
-/

theorem bareName?_of_isBoundary_colon
    {rest : List Char}
    (h : isBoundary (':' :: rest) = true) :
    bareName? rest = none := by
  cases rest with
  | nil => rfl
  | cons d tail =>
      have hstart : isNameStart d = false := by simpa [isBoundary] using h
      simp [bareName?, hstart]

theorem eq_colon_of_mem_domain
    {domain : List Char} {c : Char}
    (hdomain : domain ∈ domains)
    (hc : c ∈ domain)
    (hbreak : isBreak c = true) :
    c = ':' := by
  have hall : (domains.all fun domain => domain.all fun c => !isBreak c ||
      c == ':') = true := by
    decide
  have hchar :=
    List.all_eq_true.mp (List.all_eq_true.mp hall domain hdomain) c hc
  simpa [hbreak] using hchar

theorem domain_append_boundary
    {domain name rest after : List Char}
    (hdomain : domain ∈ domains)
    (hname : BareText name)
    (hrest : isBoundary rest = true)
    (happend : domain ++ after = name ++ rest) :
    domain = name ++ [':'] ∧ rest = ':' :: after := by
  have hcolon : ':' ∈ domain := by
    have hall : forall domain, domain ∈ domains -> ':' ∈ domain := by decide
    exact hall domain hdomain
  have honce : ':' ∉ domain.dropLast := by
    have hall : forall domain, domain ∈ domains -> ':' ∉ domain.dropLast := by
      decide
    exact hall domain hdomain
  have hnameColon : ':' ∉ name := fun hmem =>
    absurd (hname.not_isBreak hmem) (by decide)
  rcases List.append_eq_append_iff.mp happend with
    ⟨more, hname', hafter⟩ | ⟨more, hdomain', hrest'⟩
  · exact absurd (by rw [hname']; exact List.mem_append_left more hcolon)
      hnameColon
  · cases more with
    | nil =>
        rw [List.append_nil] at hdomain'
        exact absurd (hdomain' ▸ hcolon) hnameColon
    | cons c more =>
        have hbreak : isBreak c = true := by
          rw [hrest'] at hrest
          exact isBreak_of_isBoundary hrest
        have hc : c = ':' :=
          eq_colon_of_mem_domain hdomain (by simp [hdomain']) hbreak
        subst hc
        cases more with
        | nil => exact ⟨hdomain', hrest'⟩
        | cons d more =>
            exact absurd (by simp [hdomain']) honce

theorem exists_mem_of_firstM
    {α β : Type} {f : α -> Option β} {as : List α} {b : β}
    (h : as.firstM f = some b) :
    exists a, a ∈ as ∧ f a = some b := by
  induction as with
  | nil => contradiction
  | cons a as ih =>
      rw [List.firstM, Option.orElse_eq_orElse] at h
      cases ha : f a with
      | some b' =>
          rw [ha] at h
          exact ⟨a, List.mem_cons_self, ha.trans h⟩
      | none =>
          rw [ha] at h
          rcases ih h with ⟨a', hmem, heq⟩
          exact ⟨a', List.mem_cons_of_mem a hmem, heq⟩

theorem firstM_eq_some_of_mem
    {α β : Type} {f : α -> Option β} {as : List α} {a : α} {b : β}
    (hmem : a ∈ as)
    (ha : f a = some b)
    (hothers : forall a', a' ∈ as -> f a' = none ∨ f a' = some b) :
    as.firstM f = some b := by
  induction as with
  | nil => contradiction
  | cons a' as ih =>
      rw [List.firstM, Option.orElse_eq_orElse]
      rcases hothers a' List.mem_cons_self with hnone | hsome
      · rw [hnone, Option.orElse_none]
        rcases List.mem_cons.mp hmem with rfl | hmem
        · rw [ha] at hnone
          contradiction
        · exact ih hmem fun a'' h'' => hothers a'' (List.mem_cons_of_mem a' h'')
      · rw [hsome, Option.orElse_some]

theorem domainName?_sound
    {cs name rest : List Char}
    (h : domainName? cs = some (name, rest)) :
    NameText name ∧ cs = name ++ rest := by
  rcases exists_mem_of_firstM h with ⟨domain, hdomain, heq⟩
  split at heq
  · rename_i hprefix
    rcases List.isPrefixOf_iff_prefix.mp hprefix with ⟨after, rfl⟩
    rw [List.drop_left, Option.map_eq_some_iff] at heq
    rcases heq with ⟨⟨body, rest'⟩, hbody, heq⟩
    cases heq
    rcases bareName?_sound hbody with ⟨hbare, hafter⟩
    refine ⟨Or.inr ⟨domain, body, hdomain, hbare, rfl⟩, ?_⟩
    rw [hafter, List.append_assoc]
  · contradiction

theorem nameLexeme?_sound
    {cs name rest : List Char}
    (h : nameLexeme? cs = some (name, rest)) :
    NameText name ∧ cs = name ++ rest := by
  unfold nameLexeme? at h
  cases hdomain : domainName? cs with
  | some answer =>
      rw [hdomain] at h
      cases h
      exact domainName?_sound hdomain
  | none =>
      rw [hdomain] at h
      rcases bareName?_sound h with ⟨hbare, hcs⟩
      exact ⟨Or.inl hbare, hcs⟩

theorem domainName?_append_of_bare
    {name rest : List Char}
    (h : BareText name)
    (hrest : isBoundary rest = true) :
    domainName? (name ++ rest) = none := by
  cases hdomain : domainName? (name ++ rest) with
  | none => rfl
  | some answer =>
      rcases exists_mem_of_firstM hdomain with ⟨domain, hmem, heq⟩
      split at heq
      · rename_i hprefix
        rcases List.isPrefixOf_iff_prefix.mp hprefix with ⟨after, happend⟩
        rcases domain_append_boundary hmem h hrest happend with ⟨_, hcolon⟩
        rw [hcolon] at hrest
        rw [← happend, List.drop_left,
          bareName?_of_isBoundary_colon hrest] at heq
        contradiction
      · contradiction

/-- No domain starts another. -/
theorem domains_eq_of_prefix
    {domain domain' cs : List Char}
    (hdomain : domain ∈ domains)
    (hdomain' : domain' ∈ domains)
    (hfront : domain <+: cs)
    (hfront' : domain' <+: cs) :
    domain' = domain := by
  have hapart : forall d, d ∈ domains -> forall d', d' ∈ domains -> d <+: d' ->
      d = d' := by
    decide
  rcases List.prefix_or_prefix_of_prefix hfront hfront' with h | h
  · exact (hapart domain hdomain domain' hdomain' h).symm
  · exact hapart domain' hdomain' domain hdomain h

theorem domainName?_append_of_domain
    {domain bare rest : List Char}
    (hdomain : domain ∈ domains)
    (hbare : BareText bare)
    (hrest : isBoundary rest = true) :
    domainName? (domain ++ bare ++ rest) = some (domain ++ bare, rest) := by
  have hbody := bareName?_append hbare hrest
  have hself : domain.isPrefixOf (domain ++ bare ++ rest) = true :=
    List.isPrefixOf_iff_prefix.mpr
      ⟨bare ++ rest, (List.append_assoc domain bare rest).symm⟩
  have hanswer :
      (if domain.isPrefixOf (domain ++ bare ++ rest) then
        (bareName? ((domain ++ bare ++ rest).drop domain.length)).map
          fun body => (domain ++ body.1, body.2)
      else none) = some (domain ++ bare, rest) := by
    rw [if_pos hself, List.append_assoc, List.drop_left, hbody]
    rfl
  refine firstM_eq_some_of_mem hdomain hanswer ?_
  intro other hother
  by_cases hprefix : other.isPrefixOf (domain ++ bare ++ rest) = true
  · have heq : other = domain := domains_eq_of_prefix hdomain hother
      (List.isPrefixOf_iff_prefix.mp hself)
      (List.isPrefixOf_iff_prefix.mp hprefix)
    rw [heq]
    exact Or.inr hanswer
  · exact Or.inl (if_neg hprefix)

theorem nameLexeme?_append
    {name rest : List Char}
    (h : NameText name)
    (hrest : isBoundary rest = true) :
    nameLexeme? (name ++ rest) = some (name, rest) := by
  rcases h with hbare | ⟨domain, bare, hdomain, hbare, rfl⟩
  · rw [nameLexeme?, domainName?_append_of_bare hbare hrest, Option.orElse_none]
    exact bareName?_append hbare hrest
  · rw [nameLexeme?, domainName?_append_of_domain hdomain hbare hrest,
      Option.orElse_some]

/-!
## Numbers
-/

/-- At least one digit, and nothing else. -/
def DigitText (cs : List Char) : Prop :=
  cs ≠ [] ∧ forall c, c ∈ cs -> Text.isDecimal c = true

/-- A number without a sign. -/
inductive UnsignedText : List Char -> Prop where
  | whole {digits : List Char} (hdigits : DigitText digits) :
      UnsignedText digits
  | fraction {digits places : List Char}
      (hdigits : DigitText digits)
      (hplaces : DigitText places) :
      UnsignedText (digits ++ '.' :: places)

/-- A number, with or without a minus sign. -/
def NumberText (cs : List Char) : Prop :=
  UnsignedText cs ∨ exists body, UnsignedText body ∧ cs = '-' :: body

theorem fractionLexeme_sound
    {cs fraction rest : List Char}
    (h : fractionLexeme cs = (fraction, rest)) :
    (fraction = [] ∨ exists places, DigitText places ∧
      fraction = '.' :: places) ∧
      cs = fraction ++ rest := by
  unfold fractionLexeme at h
  split at h
  · rename_i c tail
    split at h
    · rename_i hdigit
      simp only [Prod.mk.injEq] at h
      rcases h with ⟨rfl, rfl⟩
      have hplaces : DigitText (c :: tail.takeWhile Text.isDecimal) := by
        refine ⟨List.cons_ne_nil _ _, ?_⟩
        intro d hd
        rcases List.mem_cons.mp hd with rfl | hd
        · exact hdigit
        · exact List.all_eq_true.mp List.all_takeWhile d hd
      refine ⟨Or.inr ⟨_, hplaces, rfl⟩, ?_⟩
      rw [List.cons_append, List.cons_append, List.takeWhile_append_dropWhile]
    · cases h
      exact ⟨Or.inl rfl, rfl⟩
  · cases h
    exact ⟨Or.inl rfl, rfl⟩

theorem unsignedLexeme?_sound
    {cs number rest : List Char}
    (h : unsignedLexeme? cs = some (number, rest)) :
    UnsignedText number ∧ cs = number ++ rest := by
  by_cases hempty : (cs.takeWhile Text.isDecimal).isEmpty = true
  · simp [unsignedLexeme?, hempty] at h
  · have hdigits : DigitText (cs.takeWhile Text.isDecimal) :=
      ⟨by simpa using hempty, List.all_eq_true.mp List.all_takeWhile⟩
    cases hfraction : fractionLexeme (cs.dropWhile Text.isDecimal) with
    | mk fraction rest' =>
        simp only [unsignedLexeme?, hempty, hfraction, Bool.false_eq_true,
          if_false, Option.some.injEq, Prod.mk.injEq] at h
        rcases h with ⟨rfl, rfl⟩
        rcases fractionLexeme_sound hfraction with ⟨hkind, hdrop⟩
        have hcs : cs = cs.takeWhile Text.isDecimal ++ fraction ++ rest' := by
          rw [List.append_assoc, ← hdrop, List.takeWhile_append_dropWhile]
        refine ⟨?_, hcs⟩
        rcases hkind with rfl | ⟨places, hplaces, rfl⟩
        · rw [List.append_nil]
          exact UnsignedText.whole hdigits
        · exact UnsignedText.fraction hdigits hplaces

theorem numberLexeme?_sound
    {cs number rest : List Char}
    (h : numberLexeme? cs = some (number, rest)) :
    NumberText number ∧ cs = number ++ rest := by
  unfold numberLexeme? at h
  split at h
  · rw [Option.map_eq_some_iff] at h
    rcases h with ⟨⟨body, rest'⟩, hbody, heq⟩
    cases heq
    rcases unsignedLexeme?_sound hbody with ⟨hunsigned, htail⟩
    exact ⟨Or.inr ⟨body, hunsigned, rfl⟩, by rw [htail, List.cons_append]⟩
  · rcases unsignedLexeme?_sound h with ⟨hunsigned, hcs⟩
    exact ⟨Or.inl hunsigned, hcs⟩

theorem isDecimal_of_isBoundary
    {rest tail : List Char} {c : Char}
    (hrest : isBoundary rest = true)
    (hcons : rest = c :: tail) :
    Text.isDecimal c = false := by
  rw [hcons] at hrest
  exact isDecimal_of_isBreak (isBreak_of_isBoundary hrest)

theorem fractionLexeme_boundary
    {rest : List Char}
    (hrest : isBoundary rest = true) :
    fractionLexeme rest = ([], rest) := by
  unfold fractionLexeme
  split
  · exact absurd (isBreak_of_isBoundary hrest) (by decide)
  · rfl

theorem unsignedLexeme?_append
    {number rest : List Char}
    (h : UnsignedText number)
    (hrest : isBoundary rest = true) :
    unsignedLexeme? (number ++ rest) = some (number, rest) := by
  cases h with
  | whole hdigits =>
      have hsplit := takeWhile_boundary rest hdigits.2
        (fun c tail hcons => isDecimal_of_isBoundary hrest hcons)
      have hne : number.isEmpty = false := by simpa using hdigits.1
      simp [unsignedLexeme?, hsplit.1, hsplit.2, hne,
        fractionLexeme_boundary hrest]
  | @fraction digits places hdigits hplaces =>
      have hsplit := takeWhile_boundary ('.' :: (places ++ rest)) hdigits.2
        (by
          intro c tail hcons
          cases hcons
          decide)
      have hne : digits.isEmpty = false := by simpa using hdigits.1
      have hfraction :
          fractionLexeme ('.' :: (places ++ rest)) = ('.' :: places, rest) := by
        cases places with
        | nil => exact absurd rfl hplaces.1
        | cons d places =>
            have hd : Text.isDecimal d = true := hplaces.2 d List.mem_cons_self
            have hrestSplit := takeWhile_boundary rest
              (fun c hc => hplaces.2 c (List.mem_cons_of_mem d hc))
              (fun c tail hcons => isDecimal_of_isBoundary hrest hcons)
            simp only [List.cons_append, fractionLexeme, hd, if_true,
              hrestSplit.1, hrestSplit.2]
      simp only [unsignedLexeme?, List.append_assoc, List.cons_append, hsplit.1,
        hsplit.2, hne, Bool.false_eq_true, if_false, hfraction]

theorem UnsignedText.exists_head
    {number : List Char}
    (h : UnsignedText number) :
    exists c tail, number = c :: tail ∧ Text.isDecimal c = true := by
  have hdigit : forall {digits : List Char}, DigitText digits ->
      exists c tail, digits = c :: tail ∧ Text.isDecimal c = true := by
    intro digits hdigits
    cases digits with
    | nil => exact absurd rfl hdigits.1
    | cons c tail => exact ⟨c, tail, rfl, hdigits.2 c List.mem_cons_self⟩
  cases h with
  | whole hdigits => exact hdigit hdigits
  | fraction hdigits hplaces =>
      rcases hdigit hdigits with ⟨c, tail, rfl, hc⟩
      exact ⟨c, _, rfl, hc⟩

theorem numberLexeme?_append
    {number rest : List Char}
    (h : NumberText number)
    (hrest : isBoundary rest = true) :
    numberLexeme? (number ++ rest) = some (number, rest) := by
  rcases h with hunsigned | ⟨body, hunsigned, rfl⟩
  · rcases hunsigned.exists_head with ⟨c, tail, rfl, hc⟩
    have hminus : c ≠ '-' := by
      intro heq
      rw [heq] at hc
      exact absurd hc (by decide)
    have hnumber := unsignedLexeme?_append hunsigned hrest
    unfold numberLexeme?
    split
    · rename_i hcons
      exact absurd (List.cons.inj hcons).1 hminus
    · exact hnumber
  · simp only [List.cons_append, numberLexeme?,
      unsignedLexeme?_append hunsigned hrest, Option.map_some]

/-!
## Quoted literals
-/

/-- A literal between two quotes of one kind, with none of that kind inside. -/
inductive QuotedText : List Char -> Prop where
  | mk {quote : Char} {body : List Char}
      (hquote : quote = '"' ∨ quote = '\'')
      (hbody : quote ∉ body) :
      QuotedText (quote :: (body ++ [quote]))

theorem throughQuote?_sound
    {quote : Char} {cs taken rest : List Char}
    (h : throughQuote? quote cs = some (taken, rest)) :
    exists body, quote ∉ body ∧ taken = body ++ [quote] ∧
      cs = taken ++ rest := by
  induction cs generalizing taken with
  | nil => contradiction
  | cons c cs ih =>
      by_cases hc : c = quote
      · subst hc
        simp only [throughQuote?, BEq.rfl, if_true, Option.some.injEq,
          Prod.mk.injEq] at h
        rcases h with ⟨rfl, rfl⟩
        exact ⟨[], List.not_mem_nil, rfl, rfl⟩
      · have hne : (c == quote) = false := by simpa using hc
        rw [throughQuote?, hne] at h
        simp only [Bool.false_eq_true, if_false, Option.map_eq_some_iff] at h
        rcases h with ⟨⟨body, rest'⟩, hrec, heq⟩
        cases heq
        rcases ih hrec with ⟨body', hbody, rfl, rfl⟩
        refine ⟨c :: body', ?_, rfl, rfl⟩
        intro hmem
        rcases List.mem_cons.mp hmem with heq | hmem
        · exact hc heq.symm
        · exact hbody hmem

theorem quotedLexeme?_sound
    {cs literal rest : List Char}
    (h : quotedLexeme? cs = some (literal, rest)) :
    QuotedText literal ∧ cs = literal ++ rest := by
  cases cs with
  | nil => contradiction
  | cons c cs =>
      by_cases hquote : (c == '"' || c == '\'') = true
      · simp only [quotedLexeme?, hquote, if_true, Option.map_eq_some_iff] at h
        rcases h with ⟨⟨body, rest'⟩, hbody, heq⟩
        cases heq
        rcases throughQuote?_sound hbody with ⟨body', hnot, rfl, rfl⟩
        exact ⟨QuotedText.mk (by simpa using hquote) hnot, rfl⟩
      · simp [quotedLexeme?, hquote] at h

theorem throughQuote?_append
    {quote : Char} {body : List Char} (rest : List Char)
    (h : quote ∉ body) :
    throughQuote? quote (body ++ quote :: rest) =
      some (body ++ [quote], rest) := by
  induction body with
  | nil => simp [throughQuote?]
  | cons c body ih =>
      have hne : (c == quote) = false := by
        simpa using fun heq : c = quote => h (heq ▸ List.mem_cons_self)
      have hbody := ih fun hmem => h (List.mem_cons_of_mem c hmem)
      simp [throughQuote?, hne, hbody]

theorem quotedLexeme?_append
    {literal : List Char} (rest : List Char)
    (h : QuotedText literal) :
    quotedLexeme? (literal ++ rest) = some (literal, rest) := by
  cases h with
  | @mk quote body hquote hbody =>
      have htest : (quote == '"' || quote == '\'') = true := by
        simpa using hquote
      simp [quotedLexeme?, htest, throughQuote?_append rest hbody]

end Token
end Ambient
