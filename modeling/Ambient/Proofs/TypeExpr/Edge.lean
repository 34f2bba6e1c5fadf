import Ambient.Proofs.TypeExpr.Spelling

/-!
# The edges of written types

The text of a type expression starts and ends with a character of one of its
tokens, so that stripping it of blanks changes nothing.
-/

namespace Ambient
namespace Token

/-- Some text whose last character satisfies `p`. -/
def EndsIn (p : Char -> Bool) (cs : List Char) : Prop :=
  exists init c, cs = init ++ [c] ∧ p c = true

theorem endsIn_of_forall
    {p : Char -> Bool} {cs : List Char}
    (hne : cs ≠ [])
    (h : forall c, c ∈ cs -> p c = true) :
    EndsIn p cs :=
  ⟨cs.dropLast, cs.getLast hne, (List.dropLast_append_getLast hne).symm,
    h _ (List.getLast_mem hne)⟩

theorem EndsIn.append
    {p : Char -> Bool} {cs : List Char}
    (h : EndsIn p cs)
    (front : List Char) :
    EndsIn p (front ++ cs) := by
  rcases h with ⟨init, c, rfl, hc⟩
  exact ⟨front ++ init, c, (List.append_assoc front init [c]).symm, hc⟩

theorem EndsIn.mono
    {p q : Char -> Bool} {cs : List Char}
    (h : EndsIn p cs)
    (himp : forall c, p c = true -> q c = true) :
    EndsIn q cs := by
  rcases h with ⟨init, c, hcs, hc⟩
  exact ⟨init, c, hcs, himp c hc⟩

theorem JoinedText.endsIn
    {c : Char} {part more : List Char}
    (h : JoinedText more)
    (hc : isNamePart c = true)
    (hpart : forall d, d ∈ part -> isNamePart d = true) :
    EndsIn isNamePart (c :: (part ++ more)) := by
  induction h generalizing c part with
  | nil =>
      rw [List.append_nil]
      refine endsIn_of_forall (List.cons_ne_nil c part) ?_
      intro d hd
      rcases List.mem_cons.mp hd with rfl | hd
      · exact hc
      · exact hpart d hd
  | @part j c' part' more' hjoiner hfirst hpart' hmore ih =>
      have hlast := (ih hfirst hpart').append (c :: (part ++ [j]))
      simpa using hlast

theorem NameText.endsIn
    {name : List Char}
    (h : NameText name) :
    EndsIn isNamePart name := by
  have hbare : forall {bare : List Char}, BareText bare ->
      EndsIn isNamePart bare := by
    intro bare hbare
    cases hbare with
    | mk hstart hpart hmore =>
        exact hmore.endsIn (isNamePart_of_isNameStart hstart) hpart
  rcases h with h | ⟨domain, bare, _, h, rfl⟩
  · exact hbare h
  · exact (hbare h).append domain

theorem NumberText.endsIn
    {number : List Char}
    (h : NumberText number) :
    EndsIn Text.isDecimal number := by
  have hunsigned : forall {body : List Char}, UnsignedText body ->
      EndsIn Text.isDecimal body := by
    intro body hbody
    cases hbody with
    | whole hdigits => exact endsIn_of_forall hdigits.1 hdigits.2
    | @fraction digits places hdigits hplaces =>
        have hlast :=
          (endsIn_of_forall hplaces.1 hplaces.2).append (digits ++ ['.'])
        simpa using hlast
  rcases h with h | ⟨body, h, rfl⟩
  · exact hunsigned h
  · exact (hunsigned h).append ['-']

/-- A character that ends a type. -/
def isTypeEnd (c : Char) : Bool :=
  isNamePart c || Text.isDecimal c || ['"', '\'', ']', '>', ')', '}'].contains c

theorem EndsIn.of_mark
    (front : List Char) {c : Char}
    (h : isTypeEnd c = true) :
    EndsIn isTypeEnd (front ++ [c]) :=
  ⟨front, c, rfl, h⟩

theorem endsIn_name
    {t : String}
    (h : (name t).Valid) :
    EndsIn isTypeEnd t.toList :=
  (NameText.endsIn h).mono fun c hc => by simp [isTypeEnd, hc]

theorem endsIn_number
    {t : String}
    (h : (number t).Valid) :
    EndsIn isTypeEnd t.toList :=
  (NumberText.endsIn h).mono fun c hc => by simp [isTypeEnd, hc]

theorem endsIn_quoted
    {t : String}
    (h : (quoted t).Valid) :
    EndsIn isTypeEnd t.toList := by
  change QuotedText t.toList at h
  generalize t.toList = cs at h
  cases h with
  | @mk quote body hquote hbody =>
      refine EndsIn.of_mark (quote :: body) ?_
      rcases hquote with rfl | rfl <;> decide

theorem isBlank_of_isTypeEnd
    {c : Char}
    (h : isTypeEnd c = true) :
    Text.isBlank c = false := by
  cases hblank : Text.isBlank c with
  | false => rfl
  | true =>
      have hothers := eq_false_of_isBlank
        (p := fun c => ['"', '\'', ']', '>', ')', '}'].contains c)
          (by decide) hblank
      simp only [isTypeEnd, isNamePart_of_isBlank hblank,
        isDecimal_of_isBlank hblank, hothers] at h
      contradiction

/-- Some text whose first character is not blank. -/
def StartsSolid (cs : List Char) : Prop :=
  exists c tail, cs = c :: tail ∧ Text.isBlank c = false

theorem StartsSolid.append
    {cs : List Char}
    (h : StartsSolid cs)
    (back : List Char) :
    StartsSolid (cs ++ back) := by
  rcases h with ⟨c, tail, rfl, hc⟩
  exact ⟨c, tail ++ back, rfl, hc⟩

theorem startsSolid_name
    {t : String}
    (h : (name t).Valid) :
    StartsSolid t.toList := by
  rcases NameText.exists_head h with ⟨c, tail, hcs, hc⟩
  exact ⟨c, tail, hcs, isBlank_of_class (by decide) hc⟩

theorem startsSolid_number
    {t : String}
    (h : (number t).Valid) :
    StartsSolid t.toList := by
  rcases NumberText.exists_head h with ⟨c, tail, hcs, hc⟩
  exact ⟨c, tail, hcs, isBlank_of_class (by decide +kernel) hc⟩

theorem startsSolid_quoted
    {t : String}
    (h : (quoted t).Valid) :
    StartsSolid t.toList := by
  change QuotedText t.toList at h
  generalize t.toList = cs at h
  cases h with
  | @mk quote body hquote hbody =>
      refine ⟨quote, body ++ [quote], rfl, ?_⟩
      rcases hquote with rfl | rfl <;> decide

end Token

namespace Text

theorem mem_of_mem_stripChars
    {cs : List Char} {c : Char}
    (h : c ∈ stripChars cs) :
    c ∈ cs := by
  rw [stripChars, List.mem_reverse] at h
  have hfront := List.mem_reverse.mp ((List.dropWhile_sublist _).subset h)
  exact (List.dropWhile_sublist _).subset hfront

theorem stripChars_eq_self
    {cs : List Char}
    (hstart : Token.StartsSolid cs)
    (hend : Token.EndsIn Token.isTypeEnd cs) :
    stripChars cs = cs := by
  have hfront : cs.dropWhile isBlank = cs := by
    rcases hstart with ⟨c, tail, rfl, hc⟩
    exact List.dropWhile_cons_of_neg (by rw [hc]; decide)
  have hback : cs.reverse.dropWhile isBlank = cs.reverse := by
    rcases hend with ⟨init, c, rfl, hc⟩
    rw [List.reverse_append, List.reverse_singleton, List.singleton_append]
    exact List.dropWhile_cons_of_neg
      (by rw [Token.isBlank_of_isTypeEnd hc]; decide)
  rw [stripChars, hfront, hback, List.reverse_reverse]

end Text

namespace TypeExpr

theorem startsSolid_render
    (e : TypeExpr)
    (h : Normal e) :
    Token.StartsSolid (render e).toList := by
  cases e with
  | any => exact h.elim
  | name text =>
      rw [render, h.2]
      exact Token.startsSolid_name h.1
  | literal text =>
      rcases h with h | h
      · exact Token.startsSolid_quoted h
      · exact Token.startsSolid_number h
  | generic base args =>
      rcases h with ⟨hvalid, hbase, hplain, _⟩
      rw [← length_renderAll] at hplain
      rw [render, renderGeneric_of_isPlainGeneric hbase hplain]
      simp only [String.toList_append, List.append_assoc]
      exact (Token.startsSolid_name hvalid).append _
  | array element =>
      rw [render, String.toList_append]
      exact (startsSolid_render element
        (by simpa only [Normal] using h)).append _
  | union members =>
      rw [render, String.toList_append, String.toList_append, List.append_assoc]
      exact ⟨'(', _, rfl, by decide⟩
  | nullable inner => exact h.elim
  | function => exact h.elim
  | record entries =>
      cases entries with
      | nil => exact ⟨'{', _, rfl, by decide⟩
      | cons entry entries =>
          rw [render]
          simp only [List.isEmpty_cons, Bool.false_eq_true, if_false,
            String.toList_append, List.append_assoc]
          exact ⟨'{', _, rfl, by decide⟩

theorem endsIn_render
    (e : TypeExpr)
    (h : Normal e) :
    Token.EndsIn Token.isTypeEnd (render e).toList := by
  cases e with
  | any => exact h.elim
  | name text =>
      rw [render, h.2]
      exact Token.endsIn_name h.1
  | literal text =>
      rcases h with h | h
      · exact Token.endsIn_quoted h
      · exact Token.endsIn_number h
  | generic base args =>
      rcases h with ⟨hvalid, hbase, hplain, _⟩
      rw [← length_renderAll] at hplain
      rw [render, renderGeneric_of_isPlainGeneric hbase hplain,
        String.toList_append]
      exact Token.EndsIn.of_mark _ (c := '>') (by decide)
  | array element =>
      rw [render, String.toList_append]
      exact Token.EndsIn.append ⟨['['], ']', rfl, by decide⟩ _
  | union members =>
      rw [render, String.toList_append]
      exact Token.EndsIn.of_mark _ (c := ')') (by decide)
  | nullable inner => exact h.elim
  | function => exact h.elim
  | record entries =>
      cases entries with
      | nil => exact ⟨['{'], '}', rfl, by decide⟩
      | cons entry entries =>
          rw [render]
          simp only [List.isEmpty_cons, Bool.false_eq_true, if_false,
            String.toList_append]
          exact Token.EndsIn.append ⟨[' '], '}', rfl, by decide⟩ _

end TypeExpr
end Ambient
