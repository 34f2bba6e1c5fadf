import Ambient.Proofs.Script.Wrapping

/-!
# The first and the last line

A page is fresh until there is ink on it, and no blank line is written on a
fresh page.  The first piece of a document starts with a comment or with a word,
never with a line break.  Every line that is begun is ended.  So a document does
not begin with a line break, and it ends with one unless it is empty.
-/

namespace Ambient

open Emit Declaration

/-!
## Pages
-/

/-- A text that begins with something else than a line break. -/
def Text.Begins (s : String) : Prop :=
  exists c, s.toList.head? = some c ∧ c ≠ '\n'

instance (s : String) : Decidable (Text.Begins s) :=
  decidable_of_iff (s.toList.head?.any fun c => c != '\n')
    (by simp [Text.Begins, Option.any_eq_true])

namespace Text.Begins

theorem append
    {s : String}
    (h : Begins s)
    (t : String) :
    Begins (s ++ t) := by
  rcases h with ⟨c, hs, hc⟩
  exact ⟨c, by simp [hs], hc⟩

theorem join
    {s : String}
    (h : Begins s)
    (ts : List String) :
    Begins (String.join (s :: ts)) := by
  rw [String.join_cons]
  exact h.append _

theorem of_oneLine
    {s : String}
    (h : OneLine s)
    (hne : s ≠ "") :
    Begins s := by
  cases hs : s.toList with
  | nil => exact (hne (String.toList_eq_nil_iff.mp hs)).elim
  | cons c cs =>
      refine ⟨c, by rw [hs]; rfl, ?_⟩
      rintro rfl
      apply h
      rw [hs]
      exact List.mem_cons_self

theorem ne_empty
    {s : String}
    (h : Begins s) :
    s ≠ "" := by
  rintro rfl
  rcases h with ⟨c, hs, _⟩
  contradiction

theorem head_ne
    {s : String}
    (h : Begins s) :
    s.toList.head? ≠ some '\n' := by
  rcases h with ⟨c, hs, hc⟩
  simpa [hs] using hc

end Text.Begins

namespace Page

variable {p : Page} {s : String}

/-- A page with ink on it that does not begin with a line break. -/
def Inked (p : Page) : Prop := p.fresh = false ∧ Text.Begins p.text

/-- A page without ink, or with ink that does not begin with a line break. -/
def Clean (p : Page) : Prop :=
  p.Inked ∨ p.fresh = true ∧ p.text = "" ∧ p.indented = false

theorem clean_empty : empty.Clean := .inr ⟨rfl, rfl, rfl⟩

theorem exists_text_draw
    (strokes : List Stroke)
    (p : Page) :
    exists written, (p.draw strokes).text = p.text ++ written := by
  have hbehind : p = Page.behind p.text { p with text := "" } := by
    simp [behind]
  refine ⟨(Page.draw strokes { p with text := "" }).text, ?_⟩
  rw [hbehind, draw_behind]
  simp [behind]

theorem Inked.draw
    (h : p.Inked)
    (strokes : List Stroke) :
    (p.draw strokes).Inked := by
  rcases exists_text_draw strokes p with ⟨written, hwritten⟩
  refine ⟨fresh_draw strokes h.1, ?_⟩
  rw [hwritten]
  exact h.2.append written

theorem begins_indentation
    {depth : Int}
    (h : 0 < depth) :
    Text.Begins (indentation depth) := by
  have hlength : 4 * depth.toNat = 4 * depth.toNat - 1 + 1 := by omega
  refine ⟨' ', ?_, by decide⟩
  rw [indentation, String.toList_ofList, hlength, List.replicate_succ]
  rfl

theorem Clean.write
    (h : p.Clean)
    (hs : Text.Begins s ∨ 0 < p.depth) :
    (p.write s).Inked := by
  rcases h with h | ⟨_, htext, hindented⟩
  · exact h.draw [.write s]
  · refine ⟨rfl, ?_⟩
    simp only [Page.write, htext, hindented, String.empty_append,
      Bool.false_eq_true, if_false]
    by_cases hdepth : 0 < p.depth
    · exact (begins_indentation hdepth).append s
    · have hnone : indentation p.depth = "" := by
        have hzero : p.depth.toNat = 0 := by omega
        rw [indentation, hzero]
        rfl
      rw [hnone, String.empty_append]
      exact hs.resolve_right hdepth

theorem Clean.writeln
    (h : p.Clean)
    (hs : Text.Begins s) :
    (p.writeln s).Inked := by
  unfold Page.writeln
  rw [if_neg hs.ne_empty]
  exact h.write (.inl (hs.append "\n"))

theorem Clean.writeln_blank
    (h : p.Clean) :
    (p.writeln "").Clean := by
  rcases h with h | ⟨hfresh, htext, _⟩
  · exact .inl (h.draw [.line ""])
  · right
    simp [Page.writeln, hfresh, htext, endLine]

end Page

/-- What is written on one line leaves a clean page clean. -/
theorem Path.clean
    {pen pen' : Pen} {strokes : List Stroke} {p : Page}
    (h : Path True pen strokes pen')
    (hp : p.Under pen)
    (hclean : p.Clean) :
    (p.draw strokes).Clean := by
  induction h generalizing p with
  | nil => exact hclean
  | cons hmove _ ih =>
      refine ih ((Path.single hmove).under hp) ?_
      cases hmove with
      | @write n mode s hline hs =>
          rcases hclean with hinked | ⟨hfresh, htext, hindented⟩
          · exact .inl (hinked.draw [.write s])
          · have hclean : p.Clean := .inr ⟨hfresh, htext, hindented⟩
            refine .inl (hclean.write ?_)
            rcases hs with hs | rfl | hn
            · exact .inl (.of_oneLine (hline trivial) hs)
            · rw [hp.2] at hindented
              contradiction
            · right
              rw [hp.1]
              exact Int.natCast_pos.mpr hn
      | line hline hs =>
          exact .inl (hclean.writeln (.of_oneLine (hline trivial) hs))
      | ending => exact hclean.writeln_blank
      | blank => exact hclean.writeln_blank
      | push =>
          rcases hclean with hinked | hblank
          · exact .inl (hinked.draw [.push])
          · exact .inr hblank
      | pop =>
          rcases hclean with hinked | hblank
          · exact .inl (hinked.draw [.pop])
          · exact .inr hblank

/-!
## Writers
-/

namespace Emit

/-- A writer that makes the same strokes on every page. -/
class Scripted {α : Type} (x : Emit α) : Prop where
  performs : exists strokes result, Performs x strokes result

section

variable {α β : Type}

instance scripted_pure (a : α) : Scripted (pure a : Emit α) :=
  ⟨[], .ok a, performs_pure a⟩

instance scripted_bind (x : Emit α) (f : α -> Emit β) [hx : Scripted x]
    [hf : forall a, Scripted (f a)] : Scripted (x >>= f) := by
  rcases hx.performs with ⟨strokes, result, hperforms⟩
  cases result with
  | ok a =>
      rcases (hf a).performs with ⟨strokes', result', hperforms'⟩
      exact ⟨strokes ++ strokes', result', hperforms.bind hperforms'⟩
  | error fault => exact ⟨strokes, .error fault, hperforms.bind_error f⟩

instance scripted_ite (c : Prop) [Decidable c] (x y : Emit α) [hx : Scripted x]
    [hy : Scripted y] : Scripted (if c then x else y) := by
  split
  · exact hx
  · exact hy

instance scripted_write (fragments : List String) :
    Scripted (write fragments) :=
  ⟨_, _, performs_write fragments⟩

instance scripted_writeln (fragments : List String) :
    Scripted (writeln fragments) :=
  ⟨_, _, performs_writeln fragments⟩

instance scripted_push : Scripted push := ⟨_, _, performs_push⟩

instance scripted_pop : Scripted pop := ⟨_, _, performs_pop⟩

theorem Draws.scripted
    {plain : Prop} {P Q : Pen -> Prop} {x : Emit Unit}
    (h : Draws plain P x Q) :
    Scripted x := by
  rcases h with ⟨strokes, result, hperforms, _⟩
  exact ⟨strokes, result, hperforms⟩

theorem Yields.scripted
    {x : Emit α} {R : α -> Prop}
    (h : Yields x R) :
    Scripted x := by
  rcases h with ⟨result, hperforms, _⟩
  exact ⟨[], result, hperforms⟩

end

/-- A writer that, if it ends well, turns the pages of one kind into pages of
another. -/
def Turns (P : Page -> Prop) (x : Emit Unit) (Q : Page -> Prop) : Prop :=
  exists strokes result, Performs x strokes result ∧
    (result = .ok () -> forall p, P p -> Q (p.draw strokes))

section

variable {P M Q : Page -> Prop} {x : Emit Unit} {f : Unit -> Emit Unit}

theorem turns_error
    {strokes : List Stroke} {fault : Fault}
    (h : Performs x strokes (.error fault)) :
    Turns P x Q :=
  ⟨_, _, h, fun hok => by contradiction⟩

theorem Turns.bind
    (hx : Turns P x M)
    (hf : Turns M (f ()) Q) :
    Turns P (x >>= f) Q := by
  rcases hx with ⟨strokes, result, hperforms, hpage⟩
  cases result with
  | ok =>
      rcases hf with ⟨strokes', result', hperforms', hpage'⟩
      refine ⟨strokes ++ strokes', result', hperforms.bind hperforms', ?_⟩
      intro hok p hp
      rw [Page.draw_append]
      exact hpage' hok _ (hpage rfl p hp)
  | error fault => exact turns_error (hperforms.bind_error f)

theorem Performs.turns
    {α : Type} {y : Emit α} {g : α -> Emit Unit} {a : α}
    (hy : Performs y [] (.ok a))
    (hg : Turns P (g a) Q) :
    Turns P (y >>= g) Q := by
  rcases hg with ⟨strokes, result, hperforms, hpage⟩
  exact ⟨strokes, result, hy.bind hperforms, hpage⟩

/-- What is kept by all strokes is kept whatever is written. -/
theorem turns_scripted
    (hQ : forall strokes p, Q p -> Q (p.draw strokes))
    (x : Emit Unit)
    [hx : Scripted x] :
    Turns Q x Q := by
  rcases hx.performs with ⟨strokes, result, hperforms⟩
  exact ⟨strokes, result, hperforms, fun _ p hp => hQ strokes p hp⟩

theorem Turns.bind_scripted
    (hx : Turns P x Q)
    (hQ : forall strokes p, Q p -> Q (p.draw strokes))
    (f : Unit -> Emit Unit)
    [Scripted (f ())] :
    Turns P (x >>= f) Q :=
  hx.bind (turns_scripted hQ (f ()))

theorem Turns.of_performs
    {strokes : List Stroke} {p : Page}
    (hx : Turns P x Q)
    (hperforms : Performs x strokes (.ok ()))
    (hp : P p) :
    Q (p.draw strokes) := by
  rcases hx with ⟨strokes', result, hperforms', hpage⟩
  rcases hperforms.unique hperforms' with ⟨hresult, hdraw⟩
  rw [hdraw]
  exact hpage hresult.symm p hp

theorem Turns.of_run
    {s s' : Session}
    (hx : Turns P x Q)
    (hrun : x.run s = .ok () s')
    (hp : P s.page) :
    Q s'.page := by
  rcases hx with ⟨strokes, result, hperforms, hpage⟩
  rcases hperforms.of_run hrun with ⟨hresult, hdraw, _⟩
  rw [hdraw]
  exact hpage hresult s.page hp

end

/-- A writer that leaves ink on a clean page. -/
def Inks (x : Emit Unit) : Prop :=
  exists strokes result, Performs x strokes result ∧
    (result = .ok () -> forall p : Page, p.Clean -> (p.draw strokes).Inked)

theorem Inks.turns
    {x : Emit Unit}
    (hx : Inks x) :
    Turns Page.Clean x Page.Inked :=
  hx

theorem inks_write
    {word : String}
    (h : Text.Begins word)
    (fragments : List String) :
    Inks (write (word :: fragments)) :=
  ⟨_, _, performs_write _, fun _ _ hp => hp.write (.inl (h.join fragments))⟩

theorem inks_writeln
    {word : String}
    (h : Text.Begins word)
    (fragments : List String) :
    Inks (writeln (word :: fragments)) :=
  ⟨_, _, performs_writeln _, fun _ _ hp => hp.writeln (h.join fragments)⟩

theorem Inks.bind
    {x : Emit Unit}
    (hx : Inks x)
    (f : Unit -> Emit Unit)
    [hf : Scripted (f ())] :
    Inks (x >>= f) :=
  hx.turns.bind_scripted (fun strokes _ hp => hp.draw strokes) f

/-- A writer that leaves ink on an empty page. -/
def Starts (x : Emit Unit) : Prop :=
  exists strokes result, Performs x strokes result ∧
    (result = .ok () -> (Page.empty.draw strokes).Inked)

theorem starts_iff_turns
    {x : Emit Unit} :
    Starts x ↔ Turns (fun p => p = Page.empty) x Page.Inked := by
  simp only [Starts, Turns, forall_eq]

/-- What stands before the first word may be empty. -/
theorem Inks.starts
    {x : Emit Unit} {f : Unit -> Emit Unit} {Q : Pen -> Prop}
    (hf : Inks (f ()))
    (hx : Draws True (Pen.AtStart 0) x Q) :
    Starts (x >>= f) := by
  have hlead : Turns (fun p => p = Page.empty) x Page.Clean := by
    rcases hx with ⟨strokes, result, hperforms, hpath⟩
    refine ⟨strokes, result, hperforms, ?_⟩
    rintro hok _ rfl
    rcases hpath hok ⟨0, .start⟩ rfl with ⟨pen, hstrokes, _⟩
    exact hstrokes.clean ⟨rfl, rfl⟩ Page.clean_empty
  exact starts_iff_turns.mpr (hlead.bind hf.turns)

theorem Starts.bind
    {x : Emit Unit}
    (hx : Starts x)
    (f : Unit -> Emit Unit)
    [hf : Scripted (f ())] :
    Starts (x >>= f) :=
  starts_iff_turns.mpr
    ((starts_iff_turns.mp hx).bind_scripted
      (fun strokes _ hp => hp.draw strokes) f)

theorem Starts.inked
    {x : Emit Unit} {strokes : List Stroke}
    (hx : Starts x)
    (hperforms : Performs x strokes (.ok ())) :
    (Page.empty.draw strokes).Inked :=
  (starts_iff_turns.mp hx).of_performs hperforms rfl

end Emit

/-!
## The first piece
-/

/-- Whether a piece may stand at the start of a document. -/
def Piece.mayStart : Piece -> Bool
  | binding _ => true
  | function _ => true
  | enumeration _ => true
  | typeAlias _ => true
  | shape _ => true
  | openClass _ => true
  | openSpace _ => true
  | _ => false

section

variable (settings : Settings) (d : Doclet)

instance scripted_writeGenerics : Scripted (Interface.writeGenerics d) :=
  (Interface.draws_writeGenerics (n := 0) False.elim).scripted

instance scripted_writeProperties (fs : List Field) :
    Scripted (Interface.writeProperties settings fs) :=
  (Interface.draws_writeProperties (n := 0) settings False.elim).scripted

instance scripted_writeBody : Scripted (Interface.writeBody settings d) :=
  (Interface.draws_writeBody (n := 0) False.elim settings).scripted

instance scripted_writeCases (fs : List Field) : Scripted (writeCases fs) :=
  (draws_writeCases (n := 0) False.elim).scripted

instance scripted_writeTyped : Scripted (Piece.writeTyped d) :=
  (Piece.draws_writeTyped (n := 0) False.elim).scripted

instance scripted_writeCall : Scripted (Piece.writeCall d) :=
  (Piece.draws_writeCall (n := 0) False.elim).scripted

instance scripted_writeAliasType : Scripted (writeAliasType settings d) :=
  (draws_writeAliasType (n := 0) False.elim settings).scripted

instance scripted_writeHeritage : Scripted (writeHeritage d) :=
  (draws_writeHeritage (n := 0) False.elim).scripted

instance scripted_writeConstructor : Scripted (writeConstructor settings d) :=
  (draws_writeConstructor (n := 0) False.elim settings).scripted

theorem starts_after_lead
    {f : Unit -> Emit Unit}
    (spacer : Bool)
    (hf : Inks (f ())) :
    Starts (writeLead settings d spacer >>= f) :=
  hf.starts (draws_writeLead (n := 0) settings d spacer)

theorem starts_openClass : Starts ((Piece.openClass d).program settings) := by
  simp only [Piece.program, writeHead, bind_assoc]
  apply starts_after_lead
  refine Inks.bind ?_ _
  split
  · exact (inks_write (by decide) []).bind _
  · split
    · exact (inks_write (by decide) []).bind _
    · exact (inks_write (by decide) []).bind _

end

theorem Piece.starts_program
    {k : Piece}
    (settings : Settings)
    (hk : k.mayStart = true) :
    Starts (k.program settings) := by
  cases k with
  | binding d =>
      apply starts_after_lead
      split
      · exact (inks_write (by decide) []).bind _
      · exact (inks_write (by decide) []).bind _
  | function d =>
      apply starts_after_lead
      exact (inks_write (by decide) []).bind _
  | enumeration d =>
      apply starts_after_lead
      exact (inks_writeln (by decide) _).bind _
  | typeAlias d =>
      have hblank : Draws True (Pen.AtStart 0) (Emit.writeln [])
          (Pen.OnLevel 0) :=
        draws_writeln_blank
      exact ((inks_write (by decide) _).bind _).starts hblank
  | shape d =>
      apply starts_after_lead
      exact (inks_write (by decide) _).bind _
  | openClass d => exact starts_openClass settings d
  | openSpace d =>
      apply starts_after_lead
      exact (inks_writeln (by decide) _).bind _
  | _ => contradiction

theorem mayStart_of_mem_opening
    {settings : Settings} {d : Doclet} {parent : Option Doclet} {k : Piece}
    (hparent : isInClass parent = false)
    (hk : k ∈ opening settings d parent) :
    k.mayStart = true := by
  unfold opening at hk
  rw [hparent] at hk
  cases hrole : d.role with
  | package => simp [hrole] at hk
  | unknown => simp [hrole] at hk
  | member =>
      simp only [hrole, List.mem_singleton] at hk
      rw [hk]
      split <;> rfl
  | typedef =>
      simp only [hrole] at hk
      split at hk
      · rw [List.mem_singleton.mp hk]
        rfl
      · rw [List.mem_singleton.mp hk]
        rfl
  | _ =>
      simp only [hrole, List.mem_singleton] at hk
      rw [hk]
      rfl

namespace Course

variable {job : Job} {parent : Option Doclet} {inside : Bool}
  {es refused : List Entry}
  {seen seen' : Keyed Entry} {offers : List Offer} {pieces : List Piece}

theorem eq_nil
    (h : Course job parent inside [] seen offers pieces refused seen') :
    pieces = [] ∧ refused = [] := by
  cases h with
  | nil => exact ⟨rfl, rfl⟩

/-- A document begins with the first piece of a root, since what has no children
is one piece. -/
theorem mayStart_head
    (h : Course job parent inside es seen offers pieces refused seen')
    (hparent : isInClass parent = false)
    {k : Piece} {ks : List Piece}
    (hpieces : pieces = k :: ks) :
    k.mayStart = true := by
  induction h generalizing k ks with
  | nil => contradiction
  | known _ _ ih => exact ih hparent hpieces
  | refused _ _ _ ih => exact ih hparent hpieces
  | @declared parent inside e es seen body bodyPieces hoisted seen₁ space
      spacePieces seen₂ offers
      pieces refused seen' _ _ hbody hspace _ _ _ ih =>
      cases hopening : opening job.settings e.doclet.settle parent with
      | cons k' ks' =>
          rw [hopening, List.cons_append] at hpieces
          rw [← (List.cons.inj hpieces).1]
          exact mayStart_of_mem_opening hparent (hopening ▸ List.mem_cons_self)
      | nil =>
          -- such a doclet is no container, and there are no pieces of it at all
          have hclass : e.doclet.role ≠ .classLike := by
            intro hrole
            simp [opening, hrole] at hopening
          have hspaceRole : e.doclet.role ≠ .nameSpace := by
            intro hrole
            simp [opening, hrole] at hopening
          rw [Job.bodyOf, if_neg hclass] at hbody
          rcases hbody.eq_nil with ⟨rfl, rfl⟩
          rw [Job.spaceOf, if_neg hspaceRole] at hspace
          rcases hspace.eq_nil with ⟨rfl, -⟩
          simp only [hopening, turn, closing, Doclet.role_settle, hclass,
            hspaceRole, if_false, List.nil_append, List.isEmpty_nil,
            decide_false, Bool.not_true, Bool.or_false,
            Bool.false_eq_true] at hpieces
          exact ih hparent hpieces

end Course

/-!
## The last line
-/

/-- A page on which every line that is not begun is ended. -/
structure Page.Tidy (pen : Pen) (p : Page) : Prop where
  fresh : p.fresh = true -> p.text = ""
  ended : pen.mode ≠ .begun -> p.text = "" ∨ p.text.toList.getLast? = some '\n'

theorem Page.tidy_writeln
    {pen pen' : Pen} {p : Page}
    (h : p.Tidy pen)
    (s : String) :
    (p.writeln s).Tidy pen' := by
  unfold writeln
  split
  · split
    · rename_i hfresh
      have htext : p.endLine.text = "" := h.fresh hfresh
      exact ⟨fun _ => htext, fun _ => .inl htext⟩
    · rename_i hfresh
      exact ⟨fun hfresh' => (hfresh hfresh').elim, fun _ =>
        .inr (by simp [endLine])⟩
  · refine ⟨fun hfresh => by contradiction, fun _ => .inr ?_⟩
    cases hindented : p.indented <;> simp [endLine, write, hindented]

theorem Path.tidy
    {plain : Prop} {pen pen' : Pen} {strokes : List Stroke} {p : Page}
    (h : Path plain pen strokes pen')
    (hp : p.Tidy pen) :
    (p.draw strokes).Tidy pen' := by
  induction h generalizing p with
  | nil => exact hp
  | cons hmove _ ih =>
      refine ih ?_
      cases hmove with
      | write =>
          exact ⟨fun hfresh => by contradiction, fun hmode => (hmode rfl).elim⟩
      | line => exact Page.tidy_writeln hp _
      | ending => exact Page.tidy_writeln hp _
      | blank => exact Page.tidy_writeln hp _
      | push => exact ⟨hp.fresh, hp.ended⟩
      | pop => exact ⟨hp.fresh, hp.ended⟩

/-!
## Documents
-/

namespace Document

theorem tidy_header
    (settings : Settings) :
    Page.Tidy ⟨outerLevel settings, .start⟩
      ⟨headerText settings, outerLevel settings, false,
        settings.module.isNone⟩ := by
  unfold headerText
  constructor
  · intro hfresh
    rw [Option.isNone_iff_eq_none.mp hfresh]
  · intro _
    split
    · right
      rw [String.toList_append, List.getLast?_append]
      rfl
    · exact .inl rfl

theorem starts_script
    {job : Job} {seen : Keyed Entry} {offers : List Offer} {pieces : List Piece}
    {queue : List Entry} {k : Piece} {ks : List Piece}
    (h : Course job none false (job.children none) [] offers pieces [] seen)
    (hscript : pieces ++ shapes queue = k :: ks) :
    Starts (writeAll job.settings (k :: ks)) := by
  have hk : k.mayStart = true := by
    cases pieces with
    | cons k' ks' =>
        rw [List.cons_append] at hscript
        rw [← (List.cons.inj hscript).1]
        exact h.mayStart_head rfl rfl
    | nil =>
        cases queue with
        | nil => contradiction
        | cons e queue =>
            cases hscript
            rfl
  have hrest : Scripted (writeAll job.settings ks) :=
    ⟨exists_performs_writeAll job.settings ks⟩
  exact (Piece.starts_program job.settings hk).bind _

/-- The content of a document does not begin with a line break unless something
stands before it. -/
theorem begins_content
    {settings : Settings} {s₀ : Session} {strokes : List Stroke}
    (hheader : (writeHeader settings).run Session.start = .ok () s₀)
    (hempty : settings.module = none -> Page.empty.draw strokes = Page.empty ∨
      (Page.empty.draw strokes).Inked) :
    (s₀.page.draw strokes).text = "" ∨
      Text.Begins (s₀.page.draw strokes).text := by
  have hpage := (page_writeHeader hheader).1
  cases hmodule : settings.module with
  | none =>
      unfold writeHeader at hheader
      rw [hmodule] at hheader
      cases hheader
      rcases hempty hmodule with hnone | hinked
      · left
        exact congrArg Page.text hnone
      · exact .inr hinked.2
  | some m =>
      right
      rcases Page.exists_text_draw strokes s₀.page with ⟨written, hwritten⟩
      rw [hwritten, hpage]
      apply Text.Begins.append
      unfold writeHeader at hheader
      rw [hmodule] at hheader
      unfold headerText
      rw [hmodule]
      cases m with
      | str name =>
          simp only [String.append_assoc]
          exact Text.Begins.append (by decide) _
      | _ => cases hheader

/-- A document that is written to its end does not begin with a line break, and
it ends with one unless it is empty. -/
theorem text_publish
    {settings : Settings} {table : List Doclet}
    (h : (publish settings table).fault = none) :
    ((publish settings table).text = "" ∨
      (publish settings table).text.toList.getLast? = some '\n') ∧
      (publish settings table).text.toList.head? ≠ some '\n' := by
  rcases run_of_publish h with ⟨s, hrun, htext⟩
  rcases exists_script hrun with
    ⟨s₀, s₁, offers, pieces, seen, strokes, hheader, hcourse, hperforms, hpage,
      hfooter⟩
  rcases hcourse.draws_script False.elim (outerLevel settings) with
    ⟨strokes', result, hperforms', hpath⟩
  rcases hperforms.unique hperforms' with ⟨hresult, hdraw⟩
  rcases hpath hresult.symm ⟨outerLevel settings, .start⟩ rfl with
    ⟨_, hstrokes, rfl⟩
  have hpage₀ := (page_writeHeader hheader).1
  have hunder :=
    hstrokes.under (p := s₀.page) (by rw [hpage₀]; exact ⟨rfl, rfl⟩)
  have htidy :=
    hstrokes.tidy (p := s₀.page) (by rw [hpage₀]; exact tidy_header settings)
  rw [← hdraw, ← hpage] at hunder htidy
  have hpage₁ : s₁.page =
      ⟨s₁.page.text, outerLevel settings, false, s₁.page.fresh⟩ := by
    calc
      s₁.page = ⟨s₁.page.text, s₁.page.depth, s₁.page.indented,
        s₁.page.fresh⟩ := rfl
      _ = _ := by rw [hunder.1, hunder.2]; rfl
  have hcontent : s₁.page.text = "" ∨ Text.Begins s₁.page.text := by
    rw [hpage]
    refine begins_content hheader fun _ => ?_
    cases hscript : pieces ++ shapes (putOff settings offers) with
    | nil =>
        have hnone : Performs
            (writeAll settings (pieces ++ shapes (putOff settings offers))) []
            (.ok ()) := by
          rw [hscript]
          exact performs_pure ()
        exact .inl ((hperforms.unique hnone).2 Page.empty)
    | cons k ks =>
        right
        refine (starts_script hcourse hscript).inked ?_
        rw [← hscript]
        exact hperforms
  rw [htext, (page_writeFooter hpage₁ hfooter).1]
  unfold footerText
  cases settings.module.isSome with
  | true =>
      constructor
      · right
        rw [String.toList_append, List.getLast?_append]
        rfl
      · rcases hcontent with hempty | hbegins
        · rw [hempty]
          decide
        · exact (hbegins.append _).head_ne
  | false =>
      rw [if_neg Bool.false_ne_true, String.append_empty]
      refine ⟨htidy.ended Mode.noConfusion, ?_⟩
      rcases hcontent with hempty | hbegins
      · rw [hempty]
        decide
      · exact hbegins.head_ne

end Document

end Ambient
