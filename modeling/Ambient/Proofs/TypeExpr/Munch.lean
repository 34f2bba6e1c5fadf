import Ambient.Proofs.TypeExpr.Scan

/-!
# Longest lexemes

Each cutting function takes the longest text of its class from the front of a
text, and it takes nothing only where no text of its class stands.  So what it
takes does not depend on what follows behind the end of the lexeme: cutting the
text short behind a lexeme changes nothing.
-/

namespace Ambient
namespace Token

/-!
## Cuts
-/

/-- The longest text of a class at the front of `cs`, and the rest. -/
structure Longest (P : List Char -> Prop) (cs taken rest : List Char) :
    Prop where
  text : P taken
  append : cs = taken ++ rest
  length_le : forall {other : List Char}, P other -> other <+: cs ->
    other.length ≤ taken.length

/-- A function that takes the longest text of a class from the front of a
text. -/
structure Munches (cut : List Char -> Option (List Char × List Char))
    (P : List Char -> Prop) :
    Prop where
  longest {cs taken rest : List Char} : cut cs = some (taken, rest) ->
    Longest P cs taken rest
  absent {cs other : List Char} : cut cs = none -> P other -> ¬ other <+: cs

section

variable {cut : List Char -> Option (List Char × List Char)}
  {P : List Char -> Prop} {cs cs' taken rest after : List Char}

theorem Longest.unique
    {taken' rest' : List Char}
    (h : Longest P cs taken rest)
    (h' : Longest P cs taken' rest') :
    taken' = taken ∧ rest' = rest := by
  have hlength : taken'.length = taken.length :=
    Nat.le_antisymm (h.length_le h'.text ⟨rest', h'.append.symm⟩)
      (h'.length_le h.text ⟨rest, h.append.symm⟩)
  exact List.append_inj (h'.append.symm.trans h.append) hlength

theorem Munches.eq_some
    (h : Munches cut P)
    (hlongest : Longest P cs taken rest) :
    cut cs = some (taken, rest) := by
  cases hcut : cut cs with
  | none =>
      exact absurd ⟨rest, hlongest.append.symm⟩ (h.absent hcut hlongest.text)
  | some answer =>
      rcases hlongest.unique (h.longest hcut) with ⟨htaken, hrest⟩
      rw [← htaken, ← hrest]

theorem Munches.none_of_prefix
    (h : Munches cut P)
    (hcut : cut cs = none)
    (hfront : cs' <+: cs) :
    cut cs' = none := by
  cases hcut' : cut cs' with
  | none => rfl
  | some answer =>
      have hlongest := h.longest hcut'
      have hanswer : answer.1 <+: cs :=
        List.IsPrefix.trans ⟨_, hlongest.append.symm⟩ hfront
      exact absurd hanswer (h.absent hcut hlongest.text)

/-- A cut is the same when the text is cut short behind it. -/
theorem Munches.truncate
    (h : Munches cut P)
    (hcut : cut (taken ++ (after ++ rest)) = some (taken, after ++ rest)) :
    cut (taken ++ after) = some (taken, after) := by
  have hlongest := h.longest hcut
  refine h.eq_some ⟨hlongest.text, rfl, fun htext hfront =>
    hlongest.length_le htext ?_⟩
  rw [← List.append_assoc]
  exact hfront.trans (List.prefix_append _ _)

theorem length_le_takeWhile
    {p : Char -> Bool} {part : List Char}
    (hpart : forall c, c ∈ part -> p c = true)
    (hfront : part <+: cs) :
    part.length ≤ (cs.takeWhile p).length := by
  rcases hfront with ⟨tail, rfl⟩
  rw [List.takeWhile_append_of_pos hpart, List.length_append]
  exact Nat.le_add_right _ _

end

/-!
## Names
-/

/-- The parts of a name are taken as far as they go. -/
theorem length_le_joinedParts
    {part more cs more' rest : List Char} {fuel : Nat}
    (hmore : JoinedText more)
    (hpart : forall c, c ∈ part -> isNamePart c = true)
    (hfront : part ++ more <+: cs)
    (hfuel : cs.length ≤ fuel)
    (hcut : joinedParts fuel (cs.dropWhile isNamePart) = (more', rest)) :
    (part ++ more).length ≤ (cs.takeWhile isNamePart ++ more').length := by
  -- a joiner ends the part before it, so that the next part starts where the
  -- cut looks for it
  induction hmore generalizing part cs more' rest fuel with
  | nil =>
      rw [List.append_nil] at hfront ⊢
      rw [List.length_append]
      exact Nat.le_trans (length_le_takeWhile hpart hfront)
        (Nat.le_add_right _ _)
  | @part j c next more hjoiner hfirst hnext hmore ih =>
      rcases hfront with ⟨tail, rfl⟩
      have hsplit := takeWhile_boundary (j :: c :: (next ++ more ++ tail)) hpart
        fun d tail' hcons => by
          cases hcons
          exact isNamePart_of_isJoiner hjoiner
      simp only [List.append_assoc, List.cons_append] at hcut hsplit hfuel ⊢
      rw [hsplit.2] at hcut
      rw [hsplit.1]
      cases fuel with
      | zero => simp at hfuel
      | succ fuel =>
          simp only [joinedParts, hjoiner, hfirst, Bool.and_self, if_true,
            Prod.mk.injEq] at hcut
          have hrest : (next ++ (more ++ tail)).length ≤ fuel := by
            simp only [List.length_append, List.length_cons] at hfuel ⊢
            omega
          have hle := ih hnext ⟨tail, List.append_assoc _ _ _⟩ hrest rfl
          rw [← hcut.1]
          simp only [List.length_append, List.length_cons] at hle ⊢
          omega

theorem munches_bareName? : Munches bareName? BareText where
  longest {cs taken rest} h := by
    rcases bareName?_sound h with ⟨htext, happend⟩
    refine ⟨htext, happend, fun {other} hother hfront => ?_⟩
    cases hother with
    | @mk c part more hstart hpart hmore =>
        rcases hfront with ⟨tail, rfl⟩
        simp only [List.cons_append, bareName?, hstart, if_true,
          Option.some.injEq, Prod.mk.injEq] at h
        have hle :=
          length_le_joinedParts hmore hpart (List.prefix_append _ tail)
          (Nat.le_refl _) rfl
        rw [← h.1, List.length_cons, List.length_append, List.length_cons]
        rw [List.length_append] at hle
        omega
  absent {cs other} h hother hfront := by
    cases hother with
    | mk hstart _ _ =>
        rcases hfront with ⟨tail, rfl⟩
        simp [bareName?, hstart] at h

theorem firstM_eq_none
    {α β : Type} {f : α -> Option β} {as : List α}
    (h : as.firstM f = none) :
    forall a, a ∈ as -> f a = none := by
  induction as with
  | nil => exact List.forall_mem_nil _
  | cons a as ih =>
      rw [List.firstM, Option.orElse_eq_orElse] at h
      cases ha : f a with
      | some b =>
          rw [ha] at h
          contradiction
      | none =>
          rw [ha] at h
          exact List.forall_mem_cons.mpr ⟨ha, ih h⟩

/-- A name without a domain ends before the colon of a domain. -/
theorem BareText.length_le_domain
    {domain name cs : List Char}
    (hname : BareText name)
    (hdomain : domain ∈ domains)
    (hfront : domain <+: cs)
    (hfront' : name <+: cs) :
    name.length ≤ domain.length := by
  rcases List.prefix_or_prefix_of_prefix hfront hfront' with h | h
  · have hcolon : forall domain, domain ∈ domains -> ':' ∈ domain := by decide
    have hbreak := hname.not_isBreak (h.subset (hcolon domain hdomain))
    exact absurd hbreak (by decide)
  · exact h.length_le

theorem domainName?_eq_some
    {cs taken rest : List Char}
    (h : domainName? cs = some (taken, rest)) :
    exists domain body, domain ∈ domains ∧ domain <+: cs ∧
      taken = domain ++ body ∧
      bareName? (cs.drop domain.length) = some (body, rest) := by
  rcases exists_mem_of_firstM h with ⟨domain, hdomain, heq⟩
  split at heq
  · rename_i hfront
    rw [Option.map_eq_some_iff] at heq
    rcases heq with ⟨⟨body, rest'⟩, hbody, heq⟩
    cases heq
    exact ⟨domain, body, hdomain, List.isPrefixOf_iff_prefix.mp hfront,
      rfl, hbody⟩
  · contradiction

theorem domainName?_eq_none
    {cs domain bare : List Char}
    (h : domainName? cs = none)
    (hdomain : domain ∈ domains)
    (hbare : BareText bare) :
    ¬ domain ++ bare <+: cs := by
  rintro ⟨tail, rfl⟩
  have hnone := firstM_eq_none h domain hdomain
  have hfront : domain.isPrefixOf (domain ++ bare ++ tail) = true :=
    List.isPrefixOf_iff_prefix.mpr
      ⟨bare ++ tail, (List.append_assoc domain bare tail).symm⟩
  rw [if_pos hfront, List.append_assoc, List.drop_left, Option.map_eq_none_iff]
    at hnone
  exact munches_bareName?.absent hnone hbare (List.prefix_append bare tail)

theorem munches_nameLexeme? : Munches nameLexeme? NameText where
  longest {cs taken rest} h := by
    rcases nameLexeme?_sound h with ⟨htext, happend⟩
    refine ⟨htext, happend, fun {other} hother hfront => ?_⟩
    unfold nameLexeme? at h
    cases hcut : domainName? cs with
    | some answer =>
        rw [hcut] at h
        cases h
        rcases domainName?_eq_some hcut with
          ⟨domain, body, hdomain, hstart, rfl, hbody⟩
        rcases hother with hbare | ⟨domain', bare, hdomain', hbare, rfl⟩
        · have hle := hbare.length_le_domain hdomain hstart hfront
          rw [List.length_append]
          omega
        · have heq := domains_eq_of_prefix hdomain hdomain' hstart
            ((List.prefix_append domain' bare).trans hfront)
          subst heq
          rcases hfront with ⟨tail, rfl⟩
          rw [List.append_assoc, List.drop_left] at hbody
          have hle :=
            (munches_bareName?.longest hbody).length_le hbare
              (List.prefix_append _ tail)
          rw [List.length_append, List.length_append]
          omega
    | none =>
        rw [hcut] at h
        rcases hother with hbare | ⟨domain, bare, hdomain, hbare, rfl⟩
        · exact (munches_bareName?.longest h).length_le hbare hfront
        · exact absurd hfront (domainName?_eq_none hcut hdomain hbare)
  absent {cs other} h hother hfront := by
    unfold nameLexeme? at h
    cases hcut : domainName? cs with
    | some answer =>
        rw [hcut] at h
        contradiction
    | none =>
        rw [hcut] at h
        rcases hother with hbare | ⟨domain, bare, hdomain, hbare, rfl⟩
        · exact munches_bareName?.absent h hbare hfront
        · exact domainName?_eq_none hcut hdomain hbare hfront

/-!
## Numbers
-/

theorem length_le_fractionLexeme
    {places cs fraction rest : List Char}
    (hplaces : DigitText places)
    (hfront : '.' :: places <+: cs)
    (hcut : fractionLexeme cs = (fraction, rest)) :
    ('.' :: places).length ≤ fraction.length := by
  rcases hfront with ⟨tail, rfl⟩
  cases places with
  | nil => exact absurd rfl hplaces.1
  | cons d places =>
      have hd : Text.isDecimal d = true := hplaces.2 d List.mem_cons_self
      simp only [List.cons_append, fractionLexeme, hd, if_true,
        Prod.mk.injEq] at hcut
      have hle :=
        length_le_takeWhile (fun c hc =>
          hplaces.2 c (List.mem_cons_of_mem d hc))
        (List.prefix_append places tail)
      rw [← hcut.1]
      simpa using hle

theorem munches_unsignedLexeme? : Munches unsignedLexeme? UnsignedText where
  longest {cs taken rest} h := by
    rcases unsignedLexeme?_sound h with ⟨htext, happend⟩
    refine ⟨htext, happend, fun {other} hother hfront => ?_⟩
    unfold unsignedLexeme? at h
    dsimp only at h
    split at h
    · contradiction
    · cases hfraction : fractionLexeme (cs.dropWhile Text.isDecimal) with
      | mk fraction rest' =>
          simp only [hfraction, Option.some.injEq, Prod.mk.injEq] at h
          rw [← h.1]
          cases hother with
          | whole hdigits =>
              have hle := length_le_takeWhile hdigits.2 hfront
              rw [List.length_append]
              omega
          | @fraction digits places hdigits hplaces =>
              rcases hfront with ⟨tail, rfl⟩
              have hsplit :=
                takeWhile_boundary ('.' :: (places ++ tail)) hdigits.2
                fun c tail' hcons => by
                  cases hcons
                  decide
              rw [List.append_assoc, List.cons_append] at hfraction ⊢
              rw [hsplit.2] at hfraction
              have hle :=
                length_le_fractionLexeme hplaces (List.prefix_append _ tail)
                  hfraction
              rw [hsplit.1, List.length_append, List.length_append]
              omega
  absent {cs other} h hother hfront := by
    rcases hother.exists_head with ⟨c, tail, rfl, hc⟩
    rcases hfront with ⟨after, rfl⟩
    simp [unsignedLexeme?, hc] at h

theorem numberLexeme?_of_ne
    {c : Char}
    (h : c ≠ '-')
    (rest : List Char) :
    numberLexeme? (c :: rest) = unsignedLexeme? (c :: rest) := by
  unfold numberLexeme?
  split
  · rename_i hcons
    exact absurd (List.cons.inj hcons).1 h
  · rfl

theorem UnsignedText.exists_head_ne
    {number : List Char}
    (h : UnsignedText number) :
    exists c tail, number = c :: tail ∧ c ≠ '-' := by
  rcases h.exists_head with ⟨c, tail, hnumber, hc⟩
  exact ⟨c, tail, hnumber, ne_of_class hc (by decide)⟩

theorem munches_numberLexeme? : Munches numberLexeme? NumberText where
  longest {cs taken rest} h := by
    rcases numberLexeme?_sound h with ⟨htext, happend⟩
    refine ⟨htext, happend, fun {other} hother hfront => ?_⟩
    rcases hother with hother | ⟨body, hbody, rfl⟩
    · rcases hother.exists_head_ne with ⟨c, tail, rfl, hc⟩
      rcases hfront with ⟨after, rfl⟩
      rw [List.cons_append, numberLexeme?_of_ne hc] at h
      exact (munches_unsignedLexeme?.longest h).length_le hother
        (List.prefix_append _ after)
    · rcases hfront with ⟨after, rfl⟩
      rw [List.cons_append, numberLexeme?, Option.map_eq_some_iff] at h
      rcases h with ⟨⟨body', rest'⟩, hcut, heq⟩
      cases heq
      have hlongest := munches_unsignedLexeme?.longest hcut
      have hle := hlongest.length_le hbody (List.prefix_append _ after)
      simpa using hle
  absent {cs other} h hother hfront := by
    rcases hother with hother | ⟨body, hbody, rfl⟩
    · rcases hother.exists_head_ne with ⟨c, tail, rfl, hc⟩
      rcases hfront with ⟨after, rfl⟩
      rw [List.cons_append, numberLexeme?_of_ne hc] at h
      exact munches_unsignedLexeme?.absent h hother (List.prefix_append _ after)
    · rcases hfront with ⟨after, rfl⟩
      rw [List.cons_append, numberLexeme?, Option.map_eq_none_iff] at h
      exact munches_unsignedLexeme?.absent h hbody (List.prefix_append _ after)

/-!
## Quoted literals
-/

theorem munches_quotedLexeme? : Munches quotedLexeme? QuotedText where
  longest {cs taken rest} h := by
    rcases quotedLexeme?_sound h with ⟨htext, happend⟩
    refine ⟨htext, happend, fun {other} hother hfront => ?_⟩
    rcases hfront with ⟨tail, rfl⟩
    rw [quotedLexeme?_append tail hother] at h
    cases h
    exact Nat.le_refl _
  absent {cs other} h hother hfront := by
    rcases hfront with ⟨tail, rfl⟩
    rw [quotedLexeme?_append tail hother] at h
    contradiction

/-!
## Tokens
-/

theorem wordToken?_eq_none
    {cs : List Char}
    (h : wordToken? cs = none) :
    quotedLexeme? cs = none ∧ numberLexeme? cs = none ∧
      nameLexeme? cs = none := by
  unfold wordToken? at h
  split at h
  · contradiction
  · rename_i hquoted
    split at h
    · contradiction
    · rename_i hnumber
      exact ⟨hquoted, hnumber, Option.map_eq_none_iff.mp h⟩

/-- What the tries before the right one exclude, they exclude also in a shorter
text. -/
theorem wordToken?_truncate
    {t : Token} {after rest : List Char}
    (h : wordToken? (t.text.toList ++ (after ++ rest)) =
      some (t, after ++ rest)) :
    wordToken? (t.text.toList ++ after) = some (t, after) := by
  have hfront : t.text.toList ++ after <+: t.text.toList ++ (after ++ rest) :=
    ⟨rest, List.append_assoc _ _ _⟩
  unfold wordToken? at h
  split at h
  · rename_i taken rest' hquoted
    cases h
    simp only [text, String.toList_ofList] at hquoted ⊢
    simp only [wordToken?, munches_quotedLexeme?.truncate hquoted]
  · rename_i hquoted
    have hnotQuoted := munches_quotedLexeme?.none_of_prefix hquoted hfront
    split at h
    · rename_i taken rest' hnumber
      cases h
      simp only [text, String.toList_ofList] at hnumber hnotQuoted ⊢
      simp only [wordToken?, hnotQuoted, munches_numberLexeme?.truncate hnumber]
    · rename_i hnumber
      have hnotNumber := munches_numberLexeme?.none_of_prefix hnumber hfront
      rw [Option.map_eq_some_iff] at h
      rcases h with ⟨⟨taken, rest'⟩, hname, heq⟩
      cases heq
      simp only [text, String.toList_ofList] at hname hnotQuoted hnotNumber ⊢
      simp only [wordToken?, hnotQuoted, hnotNumber,
        munches_nameLexeme?.truncate hname, Option.map_some]

theorem next?_genericOpen (rest : List Char) :
    next? ('.' :: '<' :: rest) = some (genericOpen, rest) :=
  rfl

theorem next?_ellipsis (rest : List Char) :
    next? ('.' :: '.' :: '.' :: rest) = some (ellipsis, rest) :=
  rfl

/-- Where no token is found, none of any kind stands. -/
theorem next?_eq_none
    {cs : List Char} {t : Token}
    (h : next? cs = none)
    (hvalid : t.Valid) :
    ¬ t.text.toList <+: cs := by
  have hword : wordToken? cs = none := by
    unfold next? at h
    split at h
    · contradiction
    · contradiction
    · split at h
      · contradiction
      · assumption
  rcases wordToken?_eq_none hword with ⟨hquoted, hnumber, hname⟩
  cases t with
  | name text => exact munches_nameLexeme?.absent hname hvalid
  | number text => exact munches_numberLexeme?.absent hnumber hvalid
  | quoted text => exact munches_quotedLexeme?.absent hquoted hvalid
  | mark c =>
      rintro ⟨rest, rfl⟩
      have hmark := next?_mark rest hvalid
      rw [text, String.toList_singleton, List.singleton_append, hmark] at h
      contradiction
  | ellipsis =>
      rintro ⟨rest, rfl⟩
      exact absurd (h.symm.trans (next?_ellipsis rest)) (by simp)
  | genericOpen =>
      rintro ⟨rest, rfl⟩
      exact absurd (h.symm.trans (next?_genericOpen rest)) (by simp)

theorem wordToken?_of_next?
    {cs rest : List Char} {t : Token}
    (h : next? cs = some (t, rest)) :
    t = genericOpen ∨ t = ellipsis ∨ (exists c, t = mark c) ∨
      wordToken? cs = some (t, rest) := by
  unfold next? at h
  split at h
  · cases h
    exact Or.inl rfl
  · cases h
    exact Or.inr (Or.inl rfl)
  · split at h
    · rename_i answer hword
      cases h
      exact Or.inr (Or.inr (Or.inr hword))
    · split at h
      · split at h
        · cases h
          exact Or.inr (Or.inr (Or.inl ⟨_, rfl⟩))
        · contradiction
      · contradiction

theorem ne_dot_of_wordToken?
    {c : Char} {tail rest : List Char} {t : Token}
    (h : wordToken? (c :: tail) = some (t, rest)) :
    c ≠ '.' := by
  rintro rfl
  have hquoted : quotedLexeme? ('.' :: tail) = none :=
    quotedLexeme?_eq_none tail (by decide) (by decide)
  have hnumber : numberLexeme? ('.' :: tail) = none :=
    numberLexeme?_eq_none tail (by decide) (by decide)
  have hname : nameLexeme? ('.' :: tail) = none :=
    nameLexeme?_eq_none tail (by decide)
  simp [wordToken?, hquoted, hnumber, hname] at h

/-- A token is found also where the text is cut short behind it. -/
theorem next?_truncate
    {t : Token} {after rest : List Char}
    (h : next? (t.text.toList ++ (after ++ rest)) = some (t, after ++ rest)) :
    next? (t.text.toList ++ after) = some (t, after) := by
  have hvalid := (next?_sound h).1
  rcases wordToken?_of_next? h with rfl | rfl | ⟨c, rfl⟩ | hword
  · exact next?_genericOpen after
  · exact next?_ellipsis after
  · rw [text, String.toList_singleton, List.singleton_append]
    exact next?_mark after hvalid
  · have hword' := wordToken?_truncate hword
    cases hcs : t.text.toList with
    | nil => exact absurd hcs hvalid.text_ne_nil
    | cons c tail =>
        rw [hcs, List.cons_append] at hword'
        exact next?_of_wordToken? (ne_dot_of_wordToken? hword') hword'

end Token
end Ambient
