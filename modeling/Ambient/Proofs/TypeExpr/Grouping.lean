import Ambient.Doclet
import Ambient.Proofs.TypeExpr.InStep
import Ambient.Proofs.TypeExpr.Lossless

/-!
# Alternatives and parentheses

An annotation between parentheses is read as it is read alone: a closing
parenthesis ends whatever token stands before it, and no rule takes a
parenthesis that it has not opened.  So alternative annotations mean the union
of the annotations in parentheses.
-/

namespace Ambient
namespace Token

open Text (Blanks)

/-!
## Tokens before a break
-/

theorem prefix_of_prefix_append
    {other cs more : List Char} {c : Char}
    (hfront : other <+: cs ++ c :: more)
    (hc : c ∉ other) :
    other <+: cs := by
  rcases hfront with ⟨tail, happend⟩
  rcases List.append_eq_append_iff.mp happend with
    ⟨after, hcs, _⟩ | ⟨beyond, hother, hmore⟩
  · exact ⟨after, hcs.symm⟩
  · cases beyond with
    | nil => exact ⟨[], by rw [hother, List.append_nil, List.append_nil]⟩
    | cons d beyond =>
        cases hmore
        exact absurd (hother ▸ List.mem_append_right cs List.mem_cons_self) hc

/-- A cut is the same before a character that no text of the class holds. -/
theorem Munches.append
    {cut : List Char -> Option (List Char × List Char)} {P : List Char -> Prop}
    {cs taken rest : List Char} {c : Char}
    (h : Munches cut P)
    (hc : forall other, P other -> c ∉ other)
    (hcut : cut cs = some (taken, rest))
    (more : List Char) :
    cut (cs ++ c :: more) = some (taken, rest ++ c :: more) := by
  have hlongest := h.longest hcut
  refine h.eq_some ⟨hlongest.text, ?_, fun {other} htext hfront => ?_⟩
  · rw [hlongest.append, List.append_assoc]
  · exact hlongest.length_le htext
      (prefix_of_prefix_append hfront (hc other htext))

theorem UnsignedText.not_isBreak
    {number : List Char} {c : Char}
    (h : UnsignedText number)
    (hc : c ∈ number) :
    isBreak c = false := by
  have hdecimal {d : Char} (hd : Text.isDecimal d = true) : isBreak d =
      false := by
    cases hbreak : isBreak d with
    | false => rfl
    | true =>
        rw [isDecimal_of_isBreak hbreak] at hd
        contradiction
  cases h with
  | whole hdigits => exact hdecimal (hdigits.2 c hc)
  | fraction hdigits hplaces =>
      rcases List.mem_append.mp hc with hc | hc
      · exact hdecimal (hdigits.2 c hc)
      · rcases List.mem_cons.mp hc with rfl | hc
        · decide
        · exact hdecimal (hplaces.2 c hc)

theorem NumberText.not_isBreak
    {number : List Char} {c : Char}
    (h : NumberText number)
    (hc : c ∈ number) :
    isBreak c = false := by
  rcases h with hunsigned | ⟨body, hunsigned, rfl⟩
  · exact hunsigned.not_isBreak hc
  · rcases List.mem_cons.mp hc with rfl | hc
    · decide
    · exact hunsigned.not_isBreak hc

theorem NameText.eq_colon_of_isBreak
    {name : List Char} {c : Char}
    (h : NameText name)
    (hc : c ∈ name)
    (hbreak : isBreak c = true) :
    c = ':' := by
  have hbare {bare : List Char} (hbare : BareText bare) (hc : c ∈ bare) : c =
      ':' := by
    rw [hbare.not_isBreak hc] at hbreak
    contradiction
  rcases h with h | ⟨domain, bare, hdomain, h, rfl⟩
  · exact hbare h hc
  · rcases List.mem_append.mp hc with hc | hc
    · exact eq_colon_of_mem_domain hdomain hc hbreak
    · exact hbare h hc

section

-- A colon may go on with a name, as in `module:a`; any other break ends the
-- token before it.
variable {c : Char} (hbreak : isBreak c = true) (hcolon : c ≠ ':')

include hbreak hcolon

theorem wordToken?_append
    {cs rest : List Char} {t : Token}
    (h : wordToken? cs = some (t, rest))
    (more : List Char) :
    wordToken? (cs ++ c :: more) = some (t, rest ++ c :: more) := by
  unfold wordToken? at h
  split at h
  · rename_i taken rest' hquoted
    cases h
    have hlongest := munches_quotedLexeme?.longest hquoted
    have hquoted' := quotedLexeme?_append (rest ++ c :: more) hlongest.text
    rw [← List.append_assoc, ← hlongest.append] at hquoted'
    simp only [wordToken?, hquoted']
  · split at h
    · rename_i taken rest' hnumber
      cases h
      have hlongest := munches_numberLexeme?.longest hnumber
      have hnumber' := munches_numberLexeme?.append (c := c)
        (fun other htext hc => by
          rw [NumberText.not_isBreak htext hc] at hbreak
          contradiction)
        hnumber more
      -- The tries before the right one fail by the first character, which
      -- stays.
      rcases NumberText.exists_head hlongest.text with ⟨d, tail, htaken, hd⟩
      have hnotQuoted : quotedLexeme? (cs ++ c :: more) = none := by
        rw [hlongest.append, htaken]
        exact quotedLexeme?_eq_none _ (ne_of_class hd (by decide))
          (ne_of_class hd (by decide))
      simp only [wordToken?, hnotQuoted, hnumber']
    · rw [Option.map_eq_some_iff] at h
      rcases h with ⟨⟨taken, rest'⟩, hname, heq⟩
      cases heq
      have hlongest := munches_nameLexeme?.longest hname
      have hname' := munches_nameLexeme?.append (c := c) (fun other htext hc =>
        hcolon (NameText.eq_colon_of_isBreak htext hc hbreak)) hname more
      rcases NameText.exists_head hlongest.text with ⟨d, tail, htaken, hd⟩
      have hnotQuoted : quotedLexeme? (cs ++ c :: more) = none := by
        rw [hlongest.append, htaken]
        exact quotedLexeme?_eq_none _ (ne_of_class hd (by decide))
          (ne_of_class hd (by decide))
      have hnotNumber : numberLexeme? (cs ++ c :: more) = none := by
        rw [hlongest.append, htaken]
        exact numberLexeme?_eq_none _ (isDecimal_of_isNameStart hd)
          (ne_of_class hd (by decide))
      simp only [wordToken?, hnotQuoted, hnotNumber, hname', Option.map_some]

theorem next?_append
    {cs rest : List Char} {t : Token}
    (h : next? cs = some (t, rest))
    (more : List Char) :
    next? (cs ++ c :: more) = some (t, rest ++ c :: more) := by
  rcases next?_sound h with ⟨hvalid, hcs⟩
  rcases wordToken?_of_next? h with rfl | rfl | ⟨d, rfl⟩ | hword
  · rw [hcs, List.append_assoc]
    exact next?_genericOpen _
  · rw [hcs, List.append_assoc]
    exact next?_ellipsis _
  · rw [hcs, text, String.toList_singleton, List.append_assoc,
      List.singleton_append]
    exact next?_mark _ hvalid
  · cases cs with
    | nil =>
        exact absurd (List.append_eq_nil_iff.mp hcs.symm).1 hvalid.text_ne_nil
    | cons d tail =>
        exact next?_of_wordToken? (ne_dot_of_wordToken? hword)
          (wordToken?_append hbreak hcolon hword more)

theorem scanAll_append
    {cs : List Char} {ts : List Token}
    (h : scanAll cs = .ok ts)
    (more : List Char) :
    scanAll (cs ++ c :: more) = (scanAll (c :: more)).map (ts ++ ·) := by
  induction cs using scan_induction generalizing ts with
  | nil =>
      cases h
      exact free_nil (c :: more)
  | blank d rest hblank ih =>
      rw [scanAll_blank rest hblank] at h
      rw [List.cons_append, scanAll_blank _ hblank]
      exact ih h
  | token d tail t rest hblank hnext ih =>
      rw [scanAll_next? hblank hnext] at h
      rcases map_eq_ok h with ⟨us, hrest, rfl⟩
      have hnext' := next?_append hbreak hcolon hnext more
      rw [List.cons_append] at hnext' ⊢
      rw [scanAll_next? hblank hnext', ih hrest]
      exact map_append_append [t] us _
  | stuck d tail hblank hnext =>
      rw [scanAll_stuck hblank hnext] at h
      contradiction

end

theorem free_group
    {cs : List Char} {ts : List Token}
    (h : scanAll cs = .ok ts) :
    Free ('(' :: (cs ++ [')'])) (mark '(' :: (ts ++ [mark ')'])) := by
  refine free_cons_mark (by decide) ?_
  intro rest
  have hclosing := free_mark (c := ')') (by decide) rest
  rw [List.singleton_append] at hclosing
  rw [List.append_assoc, List.singleton_append,
    scanAll_append (by decide) (by decide) h, hclosing, map_append_append]

/-!
## Blanks around a text
-/

theorem Valid.exists_last
    {t : Token}
    (h : t.Valid) :
    exists init c, t.text.toList = init ++ [c] ∧ Text.isBlank c = false := by
  have hend {cs : List Char} (hcs : EndsIn isTypeEnd cs) :
      exists init c, cs = init ++ [c] ∧ Text.isBlank c = false := by
    rcases hcs with ⟨init, c, hcs, hc⟩
    exact ⟨init, c, hcs, isBlank_of_isTypeEnd hc⟩
  cases t with
  | name text => exact hend (endsIn_name h)
  | number text => exact hend (endsIn_number h)
  | quoted text => exact hend (endsIn_quoted h)
  | mark c =>
      exact ⟨[], c, String.toList_singleton c, isBlank_of_class (by decide) h⟩
  | ellipsis => exact ⟨['.', '.'], '.', rfl, by decide⟩
  | genericOpen => exact ⟨['.'], '<', rfl, by decide⟩

/-- The text of a token does not reach into the blanks behind a text. -/
theorem Valid.exists_after
    {t : Token} {cs gap rest : List Char}
    (h : t.Valid)
    (hgap : Blanks gap)
    (happend : cs ++ gap = t.text.toList ++ rest) :
    exists after, cs = t.text.toList ++ after ∧ rest = after ++ gap := by
  rcases List.append_eq_append_iff.mp happend with ⟨beyond, htext, hbeyond⟩ | h
  · rcases List.eq_nil_or_concat beyond with rfl | ⟨front, c, rfl⟩
    · refine ⟨[], ?_, ?_⟩
      · rw [htext, List.append_nil, List.append_nil]
      · rw [hbeyond, List.nil_append, List.nil_append]
    · rcases h.exists_last with ⟨init, d, hlast, hblank⟩
      have hcd : d = c := by
        rw [hlast, List.concat_eq_append, ← List.append_assoc] at htext
        exact List.singleton_inj.mp (List.append_inj' htext rfl).2
      have hc : Text.isBlank c = true := hgap c (by simp [hbeyond])
      rw [← hcd, hblank] at hc
      contradiction
  · exact h

theorem scanAll_of_append_blanks
    {cs gap : List Char} {ts : List Token}
    (hgap : Blanks gap)
    (h : scanAll (cs ++ gap) = .ok ts) :
    scanAll cs = .ok ts := by
  -- The two scans take the same tokens, each of which ends before the blanks.
  induction hlength : cs.length using Nat.strongRecOn generalizing cs ts with
  | ind n ih =>
      subst hlength
      cases cs with
      | nil =>
          have hblanks := free_blanks hgap []
          rw [List.append_nil] at hblanks
          exact hblanks.symm.trans h
      | cons c tail =>
          cases hblank : Text.isBlank c with
          | true =>
              rw [List.cons_append, scanAll_blank _ hblank] at h
              rw [scanAll_blank tail hblank]
              exact ih _ (Nat.lt_succ_self _) h rfl
          | false =>
              cases hnext : next? (c :: tail ++ gap) with
              | none =>
                  rw [List.cons_append] at h hnext
                  rw [scanAll_stuck hblank hnext] at h
                  contradiction
              | some answer =>
                  rcases answer with ⟨t, rest⟩
                  rcases next?_sound hnext with ⟨hvalid, happend⟩
                  rcases hvalid.exists_after hgap happend with ⟨after, hcs, rfl⟩
                  rw [happend] at hnext
                  have hnext' := next?_truncate hnext
                  rw [← hcs] at hnext'
                  rw [← happend] at hnext
                  rw [List.cons_append] at h hnext
                  rw [scanAll_next? hblank hnext] at h
                  rcases map_eq_ok h with ⟨us, hrest, rfl⟩
                  rw [scanAll_next? hblank hnext',
                    ih _ (length_next? hnext') hrest rfl]
                  rfl

theorem scanAll_stripChars
    {cs : List Char} {ts : List Token}
    (h : scanAll cs = .ok ts) :
    scanAll (Text.stripChars cs) = .ok ts := by
  have hblanks (cs : List Char) : Blanks (cs.takeWhile Text.isBlank) :=
    List.all_eq_true.mp List.all_takeWhile
  have hlead : scanAll (cs.dropWhile Text.isBlank) = .ok ts := by
    have hfree := free_blanks (hblanks cs) (cs.dropWhile Text.isBlank)
    rw [List.takeWhile_append_dropWhile, h] at hfree
    cases hscan : scanAll (cs.dropWhile Text.isBlank) with
    | error rest =>
        rw [hscan] at hfree
        contradiction
    | ok us =>
        rw [hscan] at hfree
        exact hfree.symm
  unfold Text.stripChars
  generalize cs.dropWhile Text.isBlank = core at hlead ⊢
  have htrail : Blanks (core.reverse.takeWhile Text.isBlank).reverse := by
    intro c hc
    exact hblanks core.reverse c (List.mem_reverse.mp hc)
  refine scanAll_of_append_blanks htrail ?_
  rw [← List.reverse_append, List.takeWhile_append_dropWhile,
    List.reverse_reverse]
  exact hlead

end Token

namespace TypeExpr

open Token (scanAll)

theorem tokenize_eq_ok_iff
    {source : String} {ts : List Token} :
    tokenize source = .ok ts ↔ scanAll source.toList = .ok ts := by
  rw [tokenize, ← scanAll]
  cases scanAll source.toList with
  | ok us => simp
  | error rest => simp

theorem parse_eq_ok_iff
    {source : String} {e : TypeExpr} :
    parse source = .ok e ↔
      exists ts, scanAll source.toList = .ok ts ∧ ofTokens ts = .ok e := by
  constructor
  · intro h
    rcases bind_eq_ok h with ⟨ts, htokens, h⟩
    exact ⟨ts, tokenize_eq_ok_iff.mp htokens, h⟩
  · rintro ⟨ts, hscan, h⟩
    rw [parse, tokenize_eq_ok_iff.mpr hscan]
    exact h

/-- What is read is read without the blanks around it. -/
theorem parseStripped_of_parse
    {source : String} {e : TypeExpr}
    (h : parse source = .ok e) :
    parseStripped source = .ok e := by
  rcases parse_eq_ok_iff.mp h with ⟨ts, hscan, hread⟩
  refine parse_eq_ok_iff.mpr ⟨ts, ?_, hread⟩
  rw [Text.strip, String.toList_ofList]
  exact Token.scanAll_stripChars hscan

theorem parseOrAny_of_parse
    {source : String} {e : TypeExpr}
    (h : parse source = .ok e) :
    parseOrAny source = e := by
  rw [parseOrAny, parseStripped_of_parse h]

/-!
## Groups
-/

theorem inStep_append_paren (more : List Token) :
    InStep fun ts us => us = ts ++ .mark ')' :: more where
  nil := by
    rintro _ rfl
    exact followedBy_mark (by decide) more
  cons := by
    rintro t ts _ rfl
    exact ⟨t, _, rfl, Alike.same, rfl⟩

theorem unionRule_append_paren
    {ts : List Token} {e : TypeExpr} {fuel : Nat}
    (h : ofTokens ts = .ok e)
    (hfuel : fuelFor ts ≤ fuel)
    (more : List Token) :
    unionRule fuel (ts ++ .mark ')' :: more) = .ok (e, .mark ')' :: more) := by
  have halone : unionRule fuel ts = .ok (e, []) :=
    (unionRule_eq_of_fuelFor_le hfuel).trans (ofTokens_eq_ok_iff.mp h)
  rcases (rulesFollow (inStep_append_paren more) fuel).union rfl _ halone with
    ⟨⟨_, _⟩, hread, rfl, rfl⟩
  exact hread

/-- The tokens of an annotation in parentheses. -/
def group (ts : List Token) : List Token := .mark '(' :: (ts ++ [.mark ')'])

theorem length_group (ts : List Token) : (group ts).length = ts.length + 2 := by
  simp [group]

theorem readsPrefixed_group
    {ts : List Token} {e : TypeExpr}
    (h : ofTokens ts = .ok e)
    (fuel : Nat)
    (hfuel : fuelFor ts ≤ fuel)
    (more : List Token) :
    ReadsPrefixed (fuel + 2) (group ts ++ more) e more := by
  have hgroup : group ts ++ more = .mark '(' :: (ts ++ .mark ')' :: more) := by
    rw [group, List.cons_append, List.append_assoc, List.singleton_append]
  rw [hgroup]
  exact ⟨e, more, prefixedRule_group (unionRule_append_paren h hfuel more), rfl⟩

theorem ofTokens_group
    {ts : List Token} {e : TypeExpr}
    (h : ofTokens ts = .ok e) :
    ofTokens (group ts) = .ok e := by
  have hread := readsPrefixed_group h (8 * (group ts).length + 4)
    (by rw [fuelFor, length_group]; omega) []
  rw [List.append_nil] at hread
  exact ofTokens_eq_ok_iff.mpr (unionRule_of_prefixed hread trivial)

/-- The tokens of further annotations in parentheses, each behind a bar. -/
def otherGroups (tss : List (List Token)) : List Token :=
  (tss.map group).flatMap (Token.mark '|' :: ·)

theorem length_otherGroups_cons
    (ts : List Token)
    (tss : List (List Token)) :
    (otherGroups (ts :: tss)).length =
      ts.length + 3 + (otherGroups tss).length := by
  simp only [otherGroups, List.map_cons, List.flatMap_cons, List.length_append,
    List.length_cons, length_group]

theorem followedBy_otherGroups
    (tss : List (List Token)) :
    FollowedBy ('|' :: closers) (otherGroups tss) := by
  cases tss with
  | nil => trivial
  | cons ts tss => exact followedBy_mark List.mem_cons_self _

theorem suffixedRule_group
    {ts : List Token} {e : TypeExpr} {fuel : Nat}
    (h : ofTokens ts = .ok e)
    (hfuel : 8 * (group ts).length ≤ fuel)
    (tss : List (List Token)) :
    suffixedRule fuel (group ts ++ otherGroups tss) =
      .ok (e, otherGroups tss) := by
  rw [length_group] at hfuel
  obtain ⟨f, rfl⟩ : exists f, fuel = f + 3 := ⟨fuel - 3, by omega⟩
  have hread :=
    readsPrefixed_group h f (by rw [fuelFor]; omega) (otherGroups tss)
  exact suffixedRule_of_prefixed hread (followedBy_otherGroups tss)

theorem alternatives_otherGroups
    {tss : List (List Token)} {es : List TypeExpr} {fuel : Nat}
    (h : List.Forall₂ (fun ts e => ofTokens ts = .ok e) tss es)
    (hfuel : 8 * (otherGroups tss).length + 1 ≤ fuel) :
    alternatives fuel (otherGroups tss) = .ok (es, []) := by
  induction h generalizing fuel with
  | nil =>
      obtain ⟨f, rfl⟩ : exists f, fuel = f + 1 := ⟨fuel - 1, by omega⟩
      exact alternatives_of_followedBy trivial
  | @cons ts e tss es hhead htail ih =>
      -- The bar and the two parentheses of a group pay for the rules down to
      -- what is in it.
      rw [length_otherGroups_cons] at hfuel
      obtain ⟨f, rfl⟩ : exists f, fuel = f + 1 := ⟨fuel - 1, by omega⟩
      have hlength : 8 * (group ts).length ≤ f := by
        rw [length_group]
        omega
      exact alternatives_more (suffixedRule_group hhead hlength tss)
        (ih (by omega))

theorem ofTokens_groups
    {tss : List (List Token)} {es : List TypeExpr}
    (h : List.Forall₂ (fun ts e => ofTokens ts = .ok e) tss es)
    (hmany : 2 ≤ tss.length) :
    ofTokens ([Token.mark '|'].intercalate (tss.map group)) =
      .ok (.union es) := by
  cases h with
  | nil => contradiction
  | @cons ts e tss es hfirst h =>
      cases h with
      | nil => contradiction
      | @cons us e' uss es hsecond hothers =>
          rw [List.map_cons, intercalate_cons]
          change ofTokens (group ts ++ otherGroups (us :: uss)) =
            .ok (.union (e :: e' :: es))
          rw [ofTokens_eq_ok_iff, fuelFor, List.length_append]
          refine unionRule_more (suffixedRule_group hfirst ?_ (us :: uss))
            (alternatives_otherGroups (.cons hsecond hothers) ?_)
          · omega
          · omega

/-- An annotation in parentheses. -/
def grouped (source : String) : String := "(" ++ source ++ ")"

theorem toList_grouped (source : String) :
    (grouped source).toList = '(' :: (source.toList ++ [')']) := by
  simp [grouped]

theorem reads_grouped
    {source : String} {ts : List Token}
    (h : scanAll source.toList = .ok ts) :
    Token.Reads (grouped source).toList (group ts) := by
  rw [toList_grouped]
  exact (Token.free_group h).reads

theorem parse_grouped
    {source : String} {e : TypeExpr}
    (h : parse source = .ok e) :
    parse (grouped source) = .ok e := by
  rcases parse_eq_ok_iff.mp h with ⟨ts, hscan, hread⟩
  exact parse_eq_ok_iff.mpr
    ⟨group ts, (reads_grouped hscan).scanAll_eq, ofTokens_group hread⟩

theorem exists_tokens
    {sources : List String}
    (h : forall source, source ∈ sources -> exists e, parse source = .ok e) :
    exists tss, List.Forall₂ Token.Reads (sources.map fun source =>
      (grouped source).toList)
        (tss.map group) ∧
      List.Forall₂ (fun ts e => ofTokens ts = .ok e) tss
        (sources.map parseOrAny) := by
  induction sources with
  | nil => exact ⟨[], .nil, .nil⟩
  | cons source sources ih =>
      rcases List.forall_mem_cons.mp h with ⟨⟨e, he⟩, hothers⟩
      rcases ih hothers with ⟨tss, hreads, htrees⟩
      rcases parse_eq_ok_iff.mp he with ⟨ts, hscan, hread⟩
      refine ⟨ts :: tss, .cons (reads_grouped hscan) hreads, .cons ?_ htrees⟩
      rw [parseOrAny_of_parse he]
      exact hread

theorem parse_intercalate_grouped
    {sources : List String}
    (hmany : 2 ≤ sources.length)
    (h : forall source, source ∈ sources -> exists e, parse source = .ok e) :
    parse ("|".intercalate (sources.map grouped)) =
      .ok (.union (sources.map parseOrAny)) := by
  rcases exists_tokens h with ⟨tss, hreads, htrees⟩
  have hscan := (reads_intercalate free_bar isBoundary_bar hreads).scanAll_eq
  refine parse_eq_ok_iff.mpr ⟨_, ?_, ofTokens_groups htrees ?_⟩
  · rw [String.toList_intercalate, List.map_map]
    exact hscan
  · rw [htrees.length_eq, List.length_map]
    exact hmany

theorem resolveAll_of_many
    {sources : List String}
    (hmany : 2 ≤ sources.length) :
    resolveAll sources = render (.union (sources.map parseOrAny)) := by
  unfold resolveAll
  split
  · contradiction
  · contradiction
  · rfl

theorem exists_of_isSome
    {x : Except SyntaxError TypeExpr}
    (h : x.toOption.isSome = true) :
    exists e, x = .ok e := by
  cases x with
  | ok e => exact ⟨e, rfl⟩
  | error fault => contradiction

/-- Alternative annotations that can be read mean the union of them in
parentheses, and parentheses alone change nothing. -/
theorem typeOf_alternatives
    (tsType : Value)
    (sources : List String)
    (hgiven : tsType.truthy = false)
    (hmany : 2 ≤ sources.length)
    (h : forall source, source ∈ sources -> exists e, parse source = .ok e) :
    typeOf tsType sources =
      .str (resolve ("|".intercalate (sources.map grouped))) ∧
      forall source e, parse source = .ok e ->
        parse (grouped source) = .ok e := by
  refine ⟨?_, fun source e => parse_grouped⟩
  have hunion := parseOrAny_of_parse (parse_intercalate_grouped hmany h)
  rw [typeOf, if_neg (by simp [hgiven]), resolveAll_of_many hmany,
    resolve, hunion]

theorem typeOf_function_or_generic :
    (Value.str "").truthy = false ∧
      (forall source, source ∈
        ["?", " function(a): b?", "module:c.<-1.5>|')' "] ->
        exists e, parse source = .ok e) ∧
      typeOf (.str "") ["?", " function(a): b?", "module:c.<-1.5>|')' "] =
        .str (resolve "(?)|( function(a): b?)|(module:c.<-1.5>|')' )") := by
  have haccepted : forall source,
      source ∈ ["?", " function(a): b?", "module:c.<-1.5>|')' "] ->
      exists e, parse source = .ok e := by
    have hall :
        (["?", " function(a): b?", "module:c.<-1.5>|')' "].all fun source =>
          (parse source).toOption.isSome) = true := by
      decide +kernel
    exact fun source hsource =>
      exists_of_isSome (List.all_eq_true.mp hall source hsource)
  have hjoined : "|".intercalate
      (["?", " function(a): b?", "module:c.<-1.5>|')' "].map grouped) =
      "(?)|( function(a): b?)|(module:c.<-1.5>|')' )" := by
    decide +kernel
  have htype :=
    (typeOf_alternatives (.str "") _ (by decide) (by decide) haccepted).1
  rw [hjoined] at htype
  exact ⟨by decide, haccepted, htype⟩

end TypeExpr
end Ambient
