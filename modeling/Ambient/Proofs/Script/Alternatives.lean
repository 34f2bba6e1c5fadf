import Ambient.Document
import Ambient.Proofs.Completion
import Ambient.Proofs.Script.Ink
import Ambient.Proofs.Script.ObjectShape

/-!
# The alternatives of a type

Before a doclet is declared, an alternative `undefined` of its type is turned
into the optional flag.  A member is written with a question mark for the flag
and the other alternatives behind it, so that all of them are there.  A typedef
is written without a mark: what has been turned into the flag is lost, and the
typedef is written as if it had not been among the alternatives.
-/

namespace Ambient

namespace TypeExpr

/-- A type text that is a given one, or has it among alternatives. -/
def HasAlternative (type alternative : String) : Prop :=
  type = alternative ∨
    exists texts, type = "(" ++ "|".intercalate texts ++ ")" ∧
      alternative ∈ texts

/-- A text that does not start with a parenthesis has no alternatives but
itself. -/
theorem HasAlternative.eq_of_head
    {type alternative : String}
    (h : HasAlternative type alternative)
    (hhead : type.toList.head? ≠ some '(') :
    type = alternative := by
  rcases h with h | ⟨texts, rfl, _⟩
  · exact h
  · simp at hhead

theorem renderAll_parseOrAny
    (names : List String) :
    renderAll (names.map parseOrAny) = names.map resolve := by
  induction names with
  | nil => rfl
  | cons name names ih =>
      rw [List.map_cons, renderAll, ih, List.map_cons, resolve]

theorem hasAlternative_resolveAll
    {names : List String} {name : String}
    (h : name ∈ names) :
    HasAlternative (resolveAll names) (resolve name) := by
  by_cases hmany : 2 ≤ names.length
  · refine .inr ⟨names.map resolve, ?_, List.mem_map_of_mem h⟩
    rw [resolveAll_of_many hmany, render, renderAll_parseOrAny]
  · cases names with
    | nil => contradiction
    | cons first others =>
        have hothers : others = [] := by
          rw [List.length_cons] at hmany
          exact List.eq_nil_of_length_eq_zero (by omega)
        subst hothers
        rw [List.mem_singleton.mp h]
        exact .inl rfl

end TypeExpr

namespace Doclet

@[simp] theorem name_settle (d : Doclet) : d.settle.name = d.name := by
  rcases d.settle_cases with h | ⟨_, _, h⟩ <;> rw [h]

@[simp] theorem isEnum_settle (d : Doclet) : d.settle.isEnum = d.isEnum := by
  rcases d.settle_cases with h | ⟨_, _, h⟩ <;> rw [h]

@[simp] theorem tsType_settle (d : Doclet) : d.settle.tsType = d.tsType := by
  rcases d.settle_cases with h | ⟨_, _, h⟩ <;> rw [h]

@[simp] theorem properties_settle (d : Doclet) :
    d.settle.properties = d.properties := by
  rcases d.settle_cases with h | ⟨_, _, h⟩ <;> rw [h]

@[simp] theorem templates_settle (d : Doclet) :
    d.settle.templates = d.templates := by
  rcases d.settle_cases with h | ⟨_, _, h⟩ <;> rw [h]

/-- An alternative is kept, unless it is turned into the optional flag. -/
theorem mem_settle
    {d : Doclet} {name : String}
    (h : name ∈ d.typeNames) :
    name ∈ d.settle.typeNames ∨
      isUndefined name = true ∧ d.optional = false ∧
        d.settle.optional = true := by
  unfold settle
  split
  · exact .inl h
  · rename_i hflag
    dsimp only
    split
    · exact .inl h
    · cases hname : isUndefined name with
      | true => exact .inr ⟨rfl, by simp_all, rfl⟩
      | false => exact .inl (List.mem_filter.mpr ⟨h, by simp [hname]⟩)

/-- The doclet without the alternatives that are turned into the optional
flag. -/
def withoutUndefined (d : Doclet) : Doclet :=
  { d with typeNames := d.typeNames.filter fun name => !isUndefined name }

theorem settle_withoutUndefined
    (d : Doclet) :
    d.withoutUndefined.settle = d.withoutUndefined := by
  unfold settle withoutUndefined
  simp

/-- But for the flag, that is what an alternative `undefined` makes of a
doclet. -/
theorem exists_settle_eq
    {d : Doclet}
    (h : d.optional = false) :
    exists optional,
      d.settle = { d.withoutUndefined with optional := optional } := by
  have hsame (hkept : (d.typeNames.filter fun name => !isUndefined name) =
      d.typeNames) :
      d = { d.withoutUndefined with optional := d.optional } := by
    rw [withoutUndefined, hkept]
  unfold settle
  split
  · rename_i hflag
    -- the flag is not set, so there is no alternative
    have hempty : d.typeNames = [] := by simpa [h] using hflag
    exact ⟨_, hsame (by rw [hempty]; rfl)⟩
  · dsimp only
    split
    · rename_i hlength
      exact ⟨_,
        hsame (List.filter_eq_self.mpr
          (List.length_filter_eq_length_iff.mp hlength))⟩
    · exact ⟨true, rfl⟩

end Doclet

/-!
## Pages in the middle of a line
-/

namespace Page

/-- A page that has grown from a text. -/
def Grown (base : String) (p : Page) : Prop :=
  exists written, p.text = base ++ written

/-- A page that has grown from a text and ends with some words, its last line
not yet ended. -/
def Amid (base words : String) (p : Page) : Prop :=
  p.indented = true ∧ exists lead, p.text = base ++ lead ++ words

/-- A page that has grown from a text and ends with some words. -/
def Closed (base words : String) (p : Page) : Prop :=
  exists lead, p.text = base ++ lead ++ words

theorem Grown.draw
    {base : String} (strokes : List Stroke) (p : Page)
    (h : p.Grown base) :
    (p.draw strokes).Grown base := by
  rcases h with ⟨written, hp⟩
  rcases exists_text_draw strokes p with ⟨more, hmore⟩
  exact ⟨written ++ more, by rw [hmore, hp, String.append_assoc]⟩

end Page

namespace Emit

variable {base words : String}

theorem turns_write_first
    (fragments : List String) :
    Turns (Page.Grown base) (write fragments)
      (Page.Amid base (String.join fragments)) := by
  refine ⟨_, _, performs_write fragments, ?_⟩
  rintro _ p ⟨written, hp⟩
  refine ⟨rfl,
    written ++ if p.indented then "" else Page.indentation p.depth, ?_⟩
  change p.text ++ _ = _
  rw [hp]
  cases p.indented with
  | true => simp [String.append_assoc]
  | false => simp [String.append_assoc]

theorem turns_write_more
    (fragments : List String) :
    Turns (Page.Amid base words) (write fragments)
      (Page.Amid base (words ++ String.join fragments)) := by
  refine ⟨_, _, performs_write fragments, ?_⟩
  rintro _ p ⟨hindented, lead, hp⟩
  refine ⟨rfl, lead, ?_⟩
  change p.text ++ _ = _
  rw [hp, hindented, if_pos rfl]
  simp only [String.append_assoc]

theorem turns_writeln_last
    {fragments : List String}
    (h : String.join fragments ≠ "") :
    Turns (Page.Amid base words) (writeln fragments)
      (Page.Closed base (words ++ String.join fragments ++ "\n")) := by
  refine ⟨_, _, performs_writeln fragments, ?_⟩
  rintro _ p ⟨hindented, lead, hp⟩
  refine ⟨lead, ?_⟩
  simp only [Page.draw_cons, Page.draw_nil, Page.stroke, Page.writeln, if_neg h]
  change p.text ++ _ = _
  rw [hp, hindented, if_pos rfl]
  simp only [String.append_assoc]

theorem Turns.mono
    {P Q Q' : Page -> Prop} {x : Emit Unit}
    (h : Turns P x Q)
    (hQ : forall p, Q p -> Q' p) :
    Turns P x Q' := by
  rcases h with ⟨strokes, result, hperforms, hpage⟩
  exact ⟨strokes, result, hperforms, fun hok p hp => hQ _ (hpage hok p hp)⟩

theorem Turns.exists_and
    {A : String -> Prop} {P Q : String -> Page -> Prop} {x : Emit Unit}
    (h : forall text, Turns (P text) x (Q text)) :
    Turns (fun p => exists text, A text ∧ P text p) x fun p =>
      exists text, A text ∧ Q text p := by
  rcases h "" with ⟨strokes, result, hperforms, _⟩
  refine ⟨strokes, result, hperforms, ?_⟩
  rintro rfl p ⟨text, htext, hp⟩
  exact ⟨text, htext, (h text).of_performs hperforms hp⟩

end Emit

/-- The piece of a doclet that can be written ends well. -/
theorem Piece.exists_performs_ok
    {k : Piece} {d : Doclet}
    (settings : Settings)
    (h : d.Texted Numeral.isShort)
    (hk : k.doclet? = some d) :
    exists strokes, Emit.Performs (k.program settings) strokes (.ok ()) := by
  have hsteady : Emit.Steady True (k.program settings) := by
    apply k.steady_program settings
    intro _ d' hd'
    rw [hk] at hd'
    rwa [← Option.some.inj hd']
  rcases k.exists_performs settings with ⟨strokes, result, hperforms⟩
  rcases hperforms Session.start with ⟨t, hrun, _⟩
  rcases hsteady.runs Session.start Session.start ⟨rfl, rfl, rfl⟩ with
    ⟨_, u, _, hrun', _, _, hok⟩
  rcases hok trivial with ⟨_, rfl⟩
  rw [hrun] at hrun'
  cases result with
  | ok => exact ⟨strokes, hperforms⟩
  | error fault => cases hrun'

/-!
## Members
-/

namespace Declaration

open Emit TypeExpr

variable {base : String} {settings : Settings} {d : Doclet}

/-- Writes what stands before the name of a member. -/
def writeIntro (settings : Settings) (d : Doclet) (parent : Option Doclet) :
    Emit Unit := do
  writeLead settings d false
  if isInClass parent then
    writeAccess d
    if d.readonly then Emit.write ["readonly "]
  else Emit.write [if d.kind = "constant" then "const " else "let "]

theorem writeMember_eq_intro
    (settings : Settings)
    (parent : Option Doclet)
    (h : d.isEnum = false) :
    writeMember settings d parent =
      writeIntro settings d parent >>= fun _ => Piece.writeTyped d := by
  rw [writeMember_eq, h]
  unfold writeIntro
  cases isInClass parent with
  | true => cases hreadonly : d.readonly <;> simp [Piece.program, hreadonly]
  | false => simp [Piece.program]

instance scripted_writeIntro (parent : Option Doclet) :
    Scripted (writeIntro settings d parent) := by
  have hlead : Scripted (writeLead settings d false) :=
    (draws_writeLead (n := 0) settings d false : Draws False _ _ _).scripted
  have haccess :=
    (draws_writeAccess (d := d) (n := 0) (fun h : False => h.elim)).scripted
  unfold writeIntro
  infer_instance

theorem performs_docletType
    (h : d.tsType.truthy = false) :
    Performs (docletType d) [] (.ok (resolveAll d.typeNames)) := by
  have htype := performs_typeText d.tsType d.typeNames
  rw [Ambient.typeOf, if_neg (by simp [h])] at htype
  exact htype

theorem turns_writeTyped
    (hgiven : d.tsType.truthy = false)
    (hproperties : d.properties = []) :
    Turns (Page.Grown base) (Piece.writeTyped d)
      (Page.Closed base (d.name ++ (if d.optional then "?: " else ": ") ++
        resolveAll d.typeNames ++ ";\n")) := by
  have htype (words : String) :
      Turns (Page.Amid base words) (writeMemberType d)
        (Page.Closed base (words ++ (resolveAll d.typeNames ++ ";\n"))) := by
    have hshape : hasObjectShape d = false := by
      simp [hasObjectShape, hproperties]
    have hlast : Turns (Page.Amid base words)
        (writeln [resolveAll d.typeNames, ";"]) _ :=
      turns_writeln_last (by simp)
    unfold writeMemberType
    rw [if_neg (by simp [hshape])]
    refine (performs_docletType hgiven).turns ?_
    simpa [String.append_assoc] using hlast
  unfold Piece.writeTyped
  refine (turns_write_first [d.name]).bind ?_
  cases d.optional with
  | true =>
      refine (turns_write_more ["?"]).bind ((turns_write_more [": "]).bind ?_)
      simpa [String.append_assoc] using htype (d.name ++ "?" ++ ": ")
  | false =>
      refine (turns_write_more [": "]).bind ?_
      simpa [String.append_assoc] using htype (d.name ++ ": ")

theorem turns_writeMember
    (henum : d.isEnum = false)
    (hgiven : d.tsType.truthy = false)
    (hproperties : d.properties = [])
    (parent : Option Doclet) :
    Turns (Page.Grown base) (writeMember settings d parent)
      (Page.Closed base (d.name ++ (if d.optional then "?: " else ": ") ++
        resolveAll d.typeNames ++ ";\n")) := by
  rw [writeMember_eq_intro settings parent henum]
  exact (turns_scripted Page.Grown.draw _).bind
    (turns_writeTyped hgiven hproperties)

/-!
## Typedefs
-/

/-- The type parameters of a doclet as they are written. -/
def genericsText (d : Doclet) : String :=
  if d.templates.isEmpty then "" else "<" ++ ", ".intercalate d.templates ++ ">"

/-- The text of a signature written as a function type, in the middle of a
line. -/
def IsArrowText (d : Doclet) (text : String) : Prop :=
  exists s s', s.page.indented = true ∧
    (Signature.write d .arrow).run s = .ok () s' ∧
    s'.page.text = s.page.text ++ text

/-- The text that is written for the type of a typedef without properties. -/
def AliasText (d : Doclet) (text : String) : Prop :=
  if d.typeNames = ["function"] then IsArrowText d text
  else if resolveAll d.typeNames = "object" then text = "\x7b\x7d"
  else text = resolveAll d.typeNames

/-- A text for the type of a typedef that has room for an alternative: it is
there itself, or there is a function type for the single `function`, or there
are braces for an object. -/
def Represents (d : Doclet) (text name : String) : Prop :=
  HasAlternative text (resolve name) ∨
    (d.typeNames = ["function"] ∧ name = "function" ∧ IsArrowText d text) ∨
    resolve name = "object" ∧ text = "\x7b\x7d"

theorem AliasText.represents
    {text name : String}
    (h : AliasText d text)
    (hname : name ∈ d.typeNames) :
    Represents d text name := by
  unfold AliasText at h
  split at h
  · rename_i hfunction
    rw [hfunction] at hname
    exact .inr (.inl ⟨hfunction, List.mem_singleton.mp hname, h⟩)
  · split at h
    · rename_i hobject
      have halternative := hasAlternative_resolveAll hname
      rw [hobject] at halternative
      exact .inr (.inr ⟨(halternative.eq_of_head (by decide)).symm, h⟩)
    · rw [h]
      exact .inl (hasAlternative_resolveAll hname)

theorem turns_arrow
    {words : String} :
    Turns (Page.Amid base words) (Signature.write d .arrow) fun p =>
      exists text, IsArrowText d text ∧ p.Amid base (words ++ text) := by
  rcases Signature.draws_write (d := d) (n := 0) False.elim .arrow with
    ⟨strokes, result, hperforms, hpath⟩
  refine ⟨strokes, result, hperforms, ?_⟩
  rintro rfl p ⟨hindented, lead, hp⟩
  rcases hpath rfl _ rfl with ⟨pen, hpath, rfl⟩
  rcases Page.exists_text_draw strokes p with ⟨text, htext⟩
  -- a session of its own for the page shows that the text is that of the
  -- signature
  rcases hperforms { Session.start with page := p } with ⟨s', hrun, hpage, _⟩
  have hbegun := (hpath.page p.depth (by simp) hindented).2
  refine ⟨text, ⟨_, s', hindented, hrun, by rw [hpage, htext]⟩, hbegun,
    lead, ?_⟩
  rw [htext, hp, String.append_assoc]

theorem turns_writeAliasType
    {words : String}
    (hgiven : d.tsType.truthy = false)
    (hproperties : d.properties = []) :
    Turns (Page.Amid base words) (writeAliasType settings d) fun p =>
      exists text, AliasText d text ∧ p.Amid base (words ++ text) := by
  have hwrite (text : String) (htext : AliasText d text) :
      Turns (Page.Amid base words) (write [text]) fun p =>
        exists text, AliasText d text ∧ p.Amid base (words ++ text) :=
    (turns_write_more [text]).mono fun p hp => ⟨text, htext, by simpa using hp⟩
  unfold writeAliasType
  rw [if_neg (by simp [hgiven])]
  refine (performs_docletType hgiven).turns ?_
  by_cases hfunction : d.typeNames = ["function"]
  · rw [if_pos hfunction]
    refine turns_arrow.mono ?_
    rintro p ⟨text, htext, hp⟩
    exact ⟨text, by rwa [AliasText, if_pos hfunction], hp⟩
  · rw [if_neg hfunction]
    by_cases hobject : resolveAll d.typeNames = "object"
    · rw [if_pos hobject, if_pos (by simp [hproperties])]
      exact hwrite _ (by rw [AliasText, if_neg hfunction, if_pos hobject])
    · rw [if_neg hobject]
      exact hwrite _ (by rw [AliasText, if_neg hfunction, if_neg hobject])

theorem turns_writeGenerics
    {words : String} :
    Turns (Page.Amid base words) (Interface.writeGenerics d)
      (Page.Amid base (words ++ genericsText d)) := by
  unfold Interface.writeGenerics genericsText
  split
  · exact ⟨[], .ok (), performs_pure (), fun _ p hp => by simpa using hp⟩
  · have hlist : Turns (Page.Amid base words)
        (write ["<", ", ".intercalate d.templates, ">"]) _ :=
      turns_write_more _
    simpa [String.append_assoc] using hlist

theorem turns_writeAlias
    (hgiven : d.tsType.truthy = false)
    (hproperties : d.properties = []) :
    Turns (Page.Grown base) (writeAlias settings d) fun p =>
      exists text, AliasText d text ∧
        p.Closed base
          ("type " ++ d.name ++ genericsText d ++ " = " ++ text ++ ";\n") := by
  have hend (words : String) :
      Turns (Page.Amid base words) (writeln [";"])
        (Page.Closed base (words ++ ";\n")) := by
    have hlast : Turns (Page.Amid base words) (writeln [";"]) _ :=
      turns_writeln_last (by simp)
    simpa [String.append_assoc] using hlast
  unfold writeAlias
  refine (turns_scripted Page.Grown.draw (writeln [])).bind ?_
  refine (turns_write_first ["type ", d.name]).bind
    (turns_writeGenerics.bind ?_)
  refine (turns_write_more [" = "]).bind
    ((turns_writeAliasType hgiven hproperties).bind ?_)
  refine Turns.exists_and fun text => ?_
  simpa [String.append_assoc]
    using hend ("type " ++ d.name ++ genericsText d ++ " = " ++ text)

/-- The optional flag does not show in a type alias. -/
theorem writeAlias_settle
    (settings : Settings)
    (h : d.optional = false) :
    writeAlias settings d.settle =
      writeAlias settings d.withoutUndefined.settle := by
  rcases Doclet.exists_settle_eq h with ⟨optional, hsettle⟩
  rw [hsettle, Doclet.settle_withoutUndefined]
  rfl

/-!
## Offers
-/

section

variable {job : Job} {fuel : Nat} {e : Entry} {parent : Option Doclet}
  {inside : Bool} {s : Session}

/-- The offer of a doclet that is new and may stand at its place: it is
declared. -/
theorem exists_run_offer
    {strokes : List Stroke} {result : Except Fault Unit}
    (hnew : s.seen.has e.longname = false)
    (hplace : (inside && e.doclet.isDetached) = false)
    (hdeclare : Performs (declare (offer job fuel) job e.settled parent) strokes
      result) :
    exists s', (offer job (fuel + 1) e parent inside).run s =
        ended (result.map fun _ => true) s' ∧
      s'.page = s.page.draw strokes := by
  rw [run_offer_succ, respond, if_neg (by simp [hnew]),
    if_neg (by simp [hplace])]
  rcases hdeclare { s with
    offers := s.offers ++ [⟨e.settled, parent, inside, .declared⟩] } with
    ⟨t, hrun, hpage, _⟩
  have hnote : (noteOffer ⟨e.settled, parent, inside, .declared⟩).run s =
      .ok () { s with offers := s.offers ++
        [⟨e.settled, parent, inside, .declared⟩] } := rfl
  rw [EStateM.run_bind, hnote]
  dsimp only
  rw [EStateM.run_bind, hrun]
  cases result with
  | ok =>
      exact ⟨{ t with seen := t.seen.put e.settled.doclet.longname e.settled },
        rfl, hpage⟩
  | error fault => exact ⟨t, rfl, hpage⟩

theorem declare_member
    (visit : Visitor)
    (hrole : e.doclet.role = .member) :
    declare visit job e.settled parent =
      writeMember job.settings e.doclet.settle parent := by
  unfold declare
  rw [Entry.settled_doclet, Doclet.role_settle, hrole]

/-- A typedef without properties is declared as a type alias. -/
theorem performs_declare_typedef
    {strokes : List Stroke} {result : Except Fault Unit}
    (visit : Visitor)
    (parent : Option Doclet)
    (hrole : e.doclet.role = .typedef)
    (hproperties : e.doclet.properties = [])
    (halias : Performs (writeAlias job.settings e.doclet.settle) strokes
      result) :
    Performs (declare visit job e.settled parent) strokes result := by
  have hshape : e.doclet.settle.isShape job.settings.typedefInterfaces =
      false := by
    simp [Doclet.isShape, Doclet.mayBeShape, hproperties]
  have hdecide := performs_isShape job.settings e.doclet.settle
  rw [hshape] at hdecide
  unfold declare
  rw [Entry.settled_doclet, Doclet.role_settle, hrole]
  exact hdecide.bind halias

theorem turns_declare_typedef
    {P Q : Page -> Prop}
    (visit : Visitor)
    (parent : Option Doclet)
    (hrole : e.doclet.role = .typedef)
    (hproperties : e.doclet.properties = [])
    (halias : Turns P (writeAlias job.settings e.doclet.settle) Q) :
    Turns P (declare visit job e.settled parent) Q := by
  rcases halias with ⟨strokes, result, hperforms, hpage⟩
  exact ⟨_, _,
    performs_declare_typedef visit parent hrole hproperties hperforms, hpage⟩

/-- What is known of the pages that the declaration leaves is known of those of
the offer. -/
theorem page_of_run_offer
    {Q : Page -> Prop} {answer : Bool} {s' : Session}
    (hnew : s.seen.has e.longname = false)
    (hplace : (inside && e.doclet.isDetached) = false)
    (hdeclare : Turns (Page.Grown s.page.text)
      (declare (offer job fuel) job e.settled parent) Q)
    (hrun : (offer job (fuel + 1) e parent inside).run s = .ok answer s') :
    Q s'.page := by
  rcases hdeclare with ⟨strokes, result, hperforms, hpage⟩
  rcases exists_run_offer hnew hplace hperforms with ⟨t, ht, htpage⟩
  rw [ht] at hrun
  cases result with
  | ok =>
      cases hrun
      rw [htpage]
      exact hpage rfl s.page ⟨"", by simp⟩
  | error fault => cases hrun

theorem offer_member
    {answer : Bool} {s' : Session}
    (hnew : s.seen.has e.longname = false)
    (hplace : (inside && e.doclet.isDetached) = false)
    (hgiven : e.doclet.tsType.truthy = false)
    (hproperties : e.doclet.properties = [])
    (hrole : e.doclet.role = .member)
    (henum : e.doclet.isEnum = false)
    (hrun : (offer job (fuel + 1) e parent inside).run s = .ok answer s') :
    exists lead, s'.page.text = s.page.text ++ lead ++
      (e.doclet.name ++ (if e.doclet.settle.optional then "?: " else ": ") ++
        resolveAll e.doclet.settle.typeNames ++ ";\n") := by
  have hmember : Turns (Page.Grown s.page.text)
      (writeMember job.settings e.doclet.settle parent) _ :=
    turns_writeMember (by simpa using henum) (by simpa using hgiven)
      (by simpa using hproperties)
      parent
  rw [← declare_member (offer job fuel) hrole, Doclet.name_settle] at hmember
  exact page_of_run_offer hnew hplace hmember hrun

theorem offer_typedef
    {answer : Bool} {s' : Session}
    (hnew : s.seen.has e.longname = false)
    (hplace : (inside && e.doclet.isDetached) = false)
    (hgiven : e.doclet.tsType.truthy = false)
    (hproperties : e.doclet.properties = [])
    (hrole : e.doclet.role = .typedef)
    (hrun : (offer job (fuel + 1) e parent inside).run s = .ok answer s') :
    exists text, AliasText e.doclet.settle text ∧
      exists lead, s'.page.text = s.page.text ++ lead ++
        ("type " ++ e.doclet.name ++ genericsText e.doclet ++ " = " ++ text ++
          ";\n") := by
  have hgenerics : genericsText e.doclet.settle = genericsText e.doclet := by
    simp [genericsText]
  have halias : Turns (Page.Grown s.page.text)
      (writeAlias job.settings e.doclet.settle) _ :=
    turns_writeAlias (by simpa using hgiven) (by simpa using hproperties)
  rw [Doclet.name_settle, hgenerics] at halias
  have hdeclare :=
    turns_declare_typedef (offer job fuel) parent hrole hproperties halias
  exact page_of_run_offer hnew hplace hdeclare hrun

/-- A typedef is declared as the one without the alternatives that are turned
into the flag. -/
theorem offer_withoutUndefined
    {answer : Bool} {s' : Session}
    (hnew : s.seen.has e.longname = false)
    (hplace : (inside && e.doclet.isDetached) = false)
    (hproperties : e.doclet.properties = [])
    (hrole : e.doclet.role = .typedef)
    (hoptional : e.doclet.optional = false)
    (hrun : (offer job (fuel + 1) e parent inside).run s = .ok answer s') :
    exists t,
      (offer job (fuel + 1)
        { e with doclet := e.doclet.withoutUndefined } parent
        inside).run s = .ok answer t ∧
      t.page = s'.page := by
  let bare : Entry := { e with doclet := e.doclet.withoutUndefined }
  rcases (Piece.typeAlias e.doclet.settle).exists_performs job.settings with
    ⟨strokes, result, hperforms⟩
  have halias : Performs (writeAlias job.settings bare.doclet.settle) strokes
      result := by
    rw [← writeAlias_settle job.settings hoptional]
    exact hperforms
  have hdeclare :=
    performs_declare_typedef (offer job fuel) parent hrole hproperties hperforms
  have hbare :=
    performs_declare_typedef (e := bare) (offer job fuel) parent hrole
      hproperties
    halias
  -- both offers make the same strokes on the page
  rcases exists_run_offer hnew hplace hdeclare with ⟨u, hu, hupage⟩
  rcases exists_run_offer (e := bare) hnew hplace hbare with ⟨t, ht, htpage⟩
  rw [hu] at hrun
  cases result with
  | ok =>
      cases hrun
      exact ⟨t, ht, htpage.trans hupage.symm⟩
  | error fault => cases hrun

/-- What can be written is declared. -/
theorem exists_run_offer_ok
    (hnew : s.seen.has e.longname = false)
    (hplace : (inside && e.doclet.isDetached) = false)
    (hproperties : e.doclet.properties = [])
    (hrole : e.doclet.role = .member ∨ e.doclet.role = .typedef)
    (htexted : e.doclet.Texted Numeral.isShort) :
    exists s', (offer job (fuel + 1) e parent inside).run s = .ok true s' := by
  have hdeclare : exists strokes,
      Performs (declare (offer job fuel) job e.settled parent) strokes
        (.ok ()) := by
    rcases hrole with hrole | hrole
    · rw [declare_member (offer job fuel) hrole, writeMember_eq]
      apply Piece.exists_performs_ok job.settings htexted.settle
      split
      · rfl
      · split
        · rfl
        · rfl
    · rcases Piece.exists_performs_ok job.settings htexted.settle
        (rfl : (Piece.typeAlias e.doclet.settle).doclet? = _)
          with ⟨strokes, hperforms⟩
      exact ⟨strokes,
        performs_declare_typedef _ parent hrole hproperties hperforms⟩
  rcases hdeclare with ⟨strokes, hperforms⟩
  rcases exists_run_offer hnew hplace hperforms with ⟨s', hrun, _⟩
  exact ⟨s', hrun⟩

end

/-- A member or a typedef whose type is neither given nor has properties, and
which has not been declared before.  A member is written with each of its
alternatives, or with a mark for `undefined`. A typedef has room for each of
them but those that are turned into the flag, and these do not show at all: it
is written as the one that does not have them. -/
theorem offer_alternatives
    (job : Job)
    (fuel : Nat)
    (e : Entry)
    (parent : Option Doclet)
    (inside : Bool)
    (s : Session)
    (hnew : s.seen.has e.longname = false)
    (hplace : (inside && e.doclet.isDetached) = false)
    (hgiven : e.doclet.tsType.truthy = false)
    (hproperties : e.doclet.properties = []) :
    (e.doclet.role = .member ∨ e.doclet.role = .typedef ->
        e.doclet.Texted Numeral.isShort ->
        exists s', (offer job (fuel + 1) e parent inside).run s = .ok true s') ∧
      forall answer s',
        (offer job (fuel + 1) e parent inside).run s = .ok answer s' ->
        (e.doclet.role = .member -> e.doclet.isEnum = false ->
          (exists lead, s'.page.text = s.page.text ++ lead ++
              (e.doclet.name ++
                (if e.doclet.settle.optional then "?: " else ": ") ++
                resolveAll e.doclet.settle.typeNames ++ ";\n")) ∧
            forall name, name ∈ e.doclet.typeNames ->
              HasAlternative (resolveAll e.doclet.settle.typeNames)
                (resolve name) ∨
                Doclet.isUndefined name = true ∧
                  e.doclet.settle.optional = true) ∧
        (e.doclet.role = .typedef ->
          exists text, AliasText e.doclet.settle text ∧
            (exists lead, s'.page.text = s.page.text ++ lead ++
              ("type " ++ e.doclet.name ++ genericsText e.doclet ++ " = " ++
                text ++ ";\n")) ∧
            forall name, name ∈ e.doclet.typeNames ->
              Doclet.isUndefined name = false ∨ e.doclet.optional = true ->
              Represents e.doclet.settle text name) ∧
        (e.doclet.role = .typedef -> e.doclet.optional = false ->
          exists t,
            (offer job (fuel + 1)
              { e with doclet := e.doclet.withoutUndefined } parent
              inside).run s = .ok answer t ∧
            t.page = s'.page) := by
  refine ⟨exists_run_offer_ok hnew hplace hproperties, ?_⟩
  intro answer s' hrun
  refine ⟨?_, ?_, ?_⟩
  · intro hrole henum
    refine ⟨offer_member hnew hplace hgiven hproperties hrole henum hrun, ?_⟩
    intro name hname
    rcases Doclet.mem_settle hname with hkept | ⟨hundefined, _, hflag⟩
    · exact .inl (hasAlternative_resolveAll hkept)
    · exact .inr ⟨hundefined, hflag⟩
  · intro hrole
    rcases offer_typedef hnew hplace hgiven hproperties hrole hrun with
      ⟨text, halias, hpage⟩
    refine ⟨text, halias, hpage, ?_⟩
    intro name hname hstays
    rcases Doclet.mem_settle hname with hkept | ⟨hundefined, hflag, _⟩
    · exact halias.represents hkept
    · simp [hundefined, hflag] at hstays
  · intro hrole hoptional
    exact offer_withoutUndefined hnew hplace hproperties hrole hoptional hrun

/-- A doclet of a string that may be missing. -/
def missable (kind : String) : Doclet :=
  { Doclet.plain kind "T" none with typeNames := ["string", "undefined"] }

theorem offer_alternatives_missable :
    let job :=
      Job.ofTable ⟨true, none, true⟩ [missable "member", missable "typedef"]
    (exists s', (offer job 1 ⟨0, missable "member"⟩ none false).run
      Session.start = .ok true s' ∧
        exists lead, s'.page.text = Session.start.page.text ++ lead ++
          ("T" ++ "?: " ++ "string" ++ ";\n")) ∧
      exists s', (offer job 1 ⟨1, missable "typedef"⟩ none false).run
        Session.start = .ok true s' ∧
        exists text,
          (exists lead, s'.page.text = Session.start.page.text ++ lead ++
            ("type " ++ "T" ++ "" ++ " = " ++ text ++ ";\n")) ∧
          Represents (missable "typedef").settle text "string" := by
  intro job
  constructor
  · have hflag : (missable "member").settle.optional = true := by decide +kernel
    have htype : resolveAll (missable "member").settle.typeNames =
        "string" := by decide +kernel
    rcases offer_alternatives job 0 ⟨0, missable "member"⟩ none false
      Session.start rfl rfl rfl rfl
      with ⟨hends, hwritten⟩
    rcases hends (.inl (by decide)) (by decide +kernel) with ⟨s', hrun⟩
    have htext := ((hwritten true s' hrun).1 (by decide) rfl).1
    rw [if_pos hflag, htype] at htext
    exact ⟨s', hrun, htext⟩
  · have hstring : Doclet.isUndefined "string" = false := by decide +kernel
    rcases offer_alternatives job 0 ⟨1, missable "typedef"⟩ none false
      Session.start rfl rfl rfl rfl
      with ⟨hends, hwritten⟩
    rcases hends (.inr (by decide)) (by decide +kernel) with ⟨s', hrun⟩
    rcases (hwritten true s' hrun).2.1 (by decide) with ⟨text, _, htext, hstand⟩
    exact ⟨s', hrun, text, htext, hstand "string" (by decide) (.inl hstring)⟩

/-- The member is marked, the typedef is written as if `undefined` had not been
declared. -/
theorem not_alternatives_missable :
    (Document.publish ⟨true, none, true⟩ [missable "member"]).text =
      "let T?: string;\n" ∧
      (Document.publish ⟨true, none, true⟩ [missable "typedef"]).text =
        "type T = string;\n" ∧
      (Document.publish ⟨true, none, true⟩
        [(missable "typedef").withoutUndefined]).text =
        "type T = string;\n" ∧
      "undefined" ∈ (missable "typedef").typeNames ∧
      ¬ Represents (missable "typedef").settle "string" "undefined" := by
  refine ⟨by decide +kernel, by decide +kernel, by decide +kernel, by decide,
    ?_⟩
  have hresolve : resolve "undefined" = "undefined" := by decide +kernel
  rintro (hwritten | ⟨hfunction, _⟩ | ⟨_, hbraces⟩)
  · rw [hresolve] at hwritten
    exact absurd (hwritten.eq_of_head (by decide)) (by decide)
  · exact absurd hfunction (by decide +kernel)
  · exact absurd hbraces (by decide)

end Declaration
end Ambient
