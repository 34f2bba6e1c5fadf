import Ambient.Proofs.Emit
import Ambient.Proofs.Text.Line

/-!
# Strokes

A writer makes the same strokes on every page: what it writes, and whether it
fails, depends neither on the page nor on the rest of the session.  The strokes
of a writer that ends well also keep to the line.  A level is entered or left at
the start of a line only, and a blank line is followed by one that is not.
-/

namespace Ambient

/-!
## Pages
-/

/-- A single change of a page. -/
inductive Stroke where
  | write (s : String)
  | line (s : String)
  | push
  | pop

namespace Page

def stroke : Stroke -> Page -> Page
  | .write s => write s
  | .line s => writeln s
  | .push => push
  | .pop => pop

def draw (strokes : List Stroke) (p : Page) : Page :=
  strokes.foldl (fun p k => p.stroke k) p

@[simp] theorem draw_nil (p : Page) : p.draw [] = p := rfl

@[simp] theorem draw_cons
    (k : Stroke)
    (strokes : List Stroke)
    (p : Page) :
    p.draw (k :: strokes) = (p.stroke k).draw strokes :=
  rfl

@[simp] theorem draw_append
    (strokes strokes' : List Stroke)
    (p : Page) :
    p.draw (strokes ++ strokes') = (p.draw strokes).draw strokes' :=
  List.foldl_append

/-- A page with a text before its own. -/
def behind (text : String) (p : Page) : Page :=
  { p with text := text ++ p.text }

theorem write_behind
    (text s : String)
    (p : Page) :
    (p.behind text).write s = (p.write s).behind text := by
  simp only [write, behind, String.append_assoc]
  rfl

theorem writeln_behind
    (text s : String)
    (p : Page) :
    (p.behind text).writeln s = (p.writeln s).behind text := by
  unfold writeln
  split
  · change (if p.fresh then _ else _) = _
    split
    · rfl
    · simp only [endLine, behind, String.append_assoc]
  · rw [write_behind]
    rfl

/-- Strokes only append, and what they append does not depend on the text
before. -/
theorem draw_behind
    (text : String)
    (strokes : List Stroke)
    (p : Page) :
    (p.behind text).draw strokes = (p.draw strokes).behind text := by
  induction strokes generalizing p with
  | nil => rfl
  | cons k strokes ih =>
      cases k with
      | write s => rw [draw_cons, stroke, write_behind, ih, draw_cons, stroke]
      | line s => rw [draw_cons, stroke, writeln_behind, ih, draw_cons, stroke]
      | push => exact ih p.push
      | pop => exact ih p.pop

/-- A page that has been written on stays so. -/
theorem fresh_draw
    (strokes : List Stroke)
    {p : Page}
    (h : p.fresh = false) :
    (p.draw strokes).fresh = false := by
  induction strokes generalizing p with
  | nil => exact h
  | cons k strokes ih =>
      refine ih ?_
      cases k with
      | write s => rfl
      | line s =>
          simp only [stroke, writeln, h]
          split
          · rfl
          · rfl
      | push => exact h
      | pop => exact h

/-- The strokes of the lines of a comment. -/
def commentStrokes : List String -> List Stroke
  | [] => []
  | lines => .line "" :: lines.map .line

theorem writeLines_eq_draw
    (lines : List String)
    (p : Page) :
    p.writeLines lines = p.draw (commentStrokes lines) := by
  cases lines with
  | nil => rfl
  | cons line lines =>
      change (line :: lines).foldl _ (p.writeln "") =
        ((line :: lines).map Stroke.line).foldl _ _
      rw [List.foldl_map]
      rfl

end Page

/-!
## Scripts
-/

namespace Emit

variable {α β : Type}

/-- The end of a run with some result. -/
def ended : Except Fault α -> Session -> EStateM.Result Fault Session α
  | .ok a, s => .ok a s
  | .error fault, s => .error fault s

/-- Every run of `x` makes the strokes on its page and ends with the result,
without a trace in the record. -/
def Performs (x : Emit α) (strokes : List Stroke)
    (result : Except Fault α) : Prop :=
  forall s, exists s', x.run s = ended result s' ∧
    s'.page = s.page.draw strokes ∧ s.SameRecord s'

theorem performs_pure (a : α) : Performs (pure a : Emit α) [] (.ok a) :=
  fun s => ⟨s, rfl, rfl, .refl s⟩

theorem performs_throw (fault : Fault) :
    Performs (throw fault : Emit α) [] (.error fault) :=
  fun s => ⟨s, rfl, rfl, .refl s⟩

theorem Performs.bind
    {x : Emit α} {f : α -> Emit β} {a : α} {strokes strokes' : List Stroke}
    {result : Except Fault β}
    (hx : Performs x strokes (.ok a))
    (hf : Performs (f a) strokes' result) :
    Performs (x >>= f) (strokes ++ strokes') result := by
  intro s
  rcases hx s with ⟨s₁, hrun, hpage, hsame⟩
  rcases hf s₁ with ⟨s₂, hrun', hpage', hsame'⟩
  refine ⟨s₂, ?_, ?_, hsame.trans hsame'⟩
  · rw [EStateM.run_bind, hrun]
    exact hrun'
  · rw [hpage', hpage, Page.draw_append]

theorem Performs.bind_error
    {x : Emit α} {strokes : List Stroke} {fault : Fault}
    (hx : Performs x strokes (.error fault))
    (f : α -> Emit β) :
    Performs (x >>= f) strokes (.error fault) := by
  intro s
  rcases hx s with ⟨s₁, hrun, hrest⟩
  refine ⟨s₁, ?_, hrest⟩
  rw [EStateM.run_bind, hrun]
  rfl

/-- A writer has one result, and its strokes change a page in one way. -/
theorem Performs.unique
    {x : Emit α} {strokes strokes' : List Stroke}
    {result result' : Except Fault α}
    (h : Performs x strokes result)
    (h' : Performs x strokes' result') :
    result = result' ∧ forall p : Page, p.draw strokes = p.draw strokes' := by
  have hboth (s : Session) : result = result' ∧
      s.page.draw strokes = s.page.draw strokes' := by
    rcases h s with ⟨s₁, hrun, hpage, _⟩
    rcases h' s with ⟨s₂, hrun', hpage', _⟩
    rw [hrun] at hrun'
    cases result with
    | ok a =>
        cases result' with
        | ok b =>
            cases hrun'
            exact ⟨rfl, hpage.symm.trans hpage'⟩
        | error fault => contradiction
    | error fault =>
        cases result' with
        | ok b => contradiction
        | error fault' =>
            cases hrun'
            exact ⟨rfl, hpage.symm.trans hpage'⟩
  constructor
  · exact (hboth Session.start).1
  · intro p
    exact (hboth { Session.start with page := p }).2

theorem exists_of_run_bind
    {x : Emit α} {f : α -> Emit β} {s s' : Session} {b : β}
    (h : (x >>= f).run s = .ok b s') :
    exists a s₁, x.run s = .ok a s₁ ∧ (f a).run s₁ = .ok b s' := by
  rw [EStateM.run_bind] at h
  cases hrun : x.run s with
  | ok a s₁ =>
      rw [hrun] at h
      exact ⟨a, s₁, rfl, h⟩
  | error fault s₁ =>
      rw [hrun] at h
      contradiction

theorem Performs.of_run
    {x : Emit α} {strokes : List Stroke} {result : Except Fault α} {a : α}
    {s s' : Session}
    (h : Performs x strokes result)
    (hrun : x.run s = .ok a s') :
    result = .ok a ∧ s'.page = s.page.draw strokes ∧ s.SameRecord s' := by
  rcases h s with ⟨s₁, hrun', hpage, hsame⟩
  rw [hrun] at hrun'
  cases result with
  | ok b =>
      cases hrun'
      exact ⟨rfl, hpage, hsame⟩
  | error fault => cases hrun'

/-- The session in which a run ends, well or not. -/
def after (x : Emit α) (s : Session) : Session :=
  match x.run s with
  | .ok _ s' => s'
  | .error _ s' => s'

/-- The answer of a run that ends well. -/
def answer? (x : Emit α) (s : Session) : Option α :=
  match x.run s with
  | .ok a _ => some a
  | .error _ _ => none

theorem run_of_answer?
    {x : Emit α} {s : Session} {a : α}
    (h : x.answer? s = some a) :
    x.run s = .ok a (x.after s) := by
  unfold answer? at h
  unfold after
  cases hrun : x.run s with
  | ok b s' =>
      rw [hrun] at h
      cases h
      rfl
  | error fault s' =>
      rw [hrun] at h
      contradiction

theorem Performs.page_after
    {x : Emit α} {strokes : List Stroke} {result : Except Fault α}
    (h : Performs x strokes result)
    (s : Session) :
    (x.after s).page = s.page.draw strokes := by
  rcases h s with ⟨s', hrun, hpage, _⟩
  unfold after
  rw [hrun]
  cases result with
  | ok a => exact hpage
  | error fault => exact hpage

theorem performs_write
    (fragments : List String) :
    Performs (write fragments) [.write (String.join fragments)] (.ok ()) :=
  fun _ => ⟨_, rfl, rfl, rfl, rfl, rfl⟩

theorem performs_writeln
    (fragments : List String) :
    Performs (writeln fragments) [.line (String.join fragments)] (.ok ()) :=
  fun _ => ⟨_, rfl, rfl, rfl, rfl, rfl⟩

theorem performs_push : Performs push [.push] (.ok ()) :=
  fun _ => ⟨_, rfl, rfl, rfl, rfl, rfl⟩

theorem performs_pop : Performs pop [.pop] (.ok ()) :=
  fun _ => ⟨_, rfl, rfl, rfl, rfl, rfl⟩

theorem performs_report (notices : List Notice) :
    Performs (report notices) [] (.ok ()) :=
  fun _ => ⟨_, rfl, rfl, rfl, rfl, rfl⟩

theorem performs_lift (result : Except Fault α) :
    Performs (lift result) [] result := by
  cases result with
  | ok a => exact performs_pure a
  | error fault => exact performs_throw fault

theorem performs_writeComment
    {settings : Settings} {comment : Value} {spacer : Bool}
    {strokes : List Stroke} {result : Except Fault Unit}
    (h : forall p : Page, p.writeComment settings.comments comment spacer =
      result.map fun _ => p.draw strokes)
    (herror : forall fault, result = .error fault -> strokes = []) :
    Performs (writeComment settings comment spacer) strokes result := by
  intro s
  have hpage := h s.page
  cases result with
  | ok =>
      refine ⟨{ s.noteBreach
        (s.page.textBeforeHalf? (commentLines settings comment)) with
        page := s.page.draw strokes }, ?_, rfl, rfl, rfl, rfl⟩
      change (lift (s.page.writeComment settings.comments comment spacer) >>=
        _).run _ = _
      rw [hpage]
      rfl
  | error fault =>
      refine ⟨s.noteBreach
        (s.page.textBeforeHalf? (commentLines settings comment)), ?_, ?_, rfl,
        rfl, rfl⟩
      · change (lift (s.page.writeComment settings.comments comment spacer) >>=
          _).run _ = _
        rw [hpage]
        rfl
      · rw [herror fault rfl]
        rfl

end Emit

/-!
## Pens
-/

/-- Where a pen stands: at the start of a line, there after a blank line, or
within a line. -/
inductive Mode where
  | start
  | spaced
  | begun
deriving DecidableEq, Repr

structure Pen where
  level : Nat
  mode : Mode

/-- The strokes that keep to the line.  With `plain`, what is written has no
line break.  A line at the outermost level does not begin with nothing, since it
would have no indentation either. -/
inductive Moves (plain : Prop) : Pen -> Stroke -> Pen -> Prop where
  | write {n mode s}
      (hline : plain -> Text.OneLine s)
      (hs : s ≠ "" ∨ mode = .begun ∨ 0 < n) :
      Moves plain ⟨n, mode⟩ (.write s) ⟨n, .begun⟩
  | line {n mode s}
      (hline : plain -> Text.OneLine s)
      (hs : s ≠ "") :
      Moves plain ⟨n, mode⟩ (.line s) ⟨n, .start⟩
  | ending {n} :
      Moves plain ⟨n, .begun⟩ (.line "") ⟨n, .start⟩
  | blank {n} :
      Moves plain ⟨n, .start⟩ (.line "") ⟨n, .spaced⟩
  | push {n} :
      Moves plain ⟨n, .start⟩ .push ⟨n + 1, .start⟩
  | pop {n} :
      Moves plain ⟨n + 1, .start⟩ .pop ⟨n, .start⟩

inductive Path (plain : Prop) : Pen -> List Stroke -> Pen -> Prop where
  | nil {pen} :
      Path plain pen [] pen
  | cons {pen k pen₁ strokes pen'}
      (hmove : Moves plain pen k pen₁)
      (hrest : Path plain pen₁ strokes pen') :
      Path plain pen (k :: strokes) pen'

theorem Path.append
    {plain : Prop} {pen pen₁ pen' : Pen} {strokes strokes' : List Stroke}
    (h : Path plain pen strokes pen₁)
    (h' : Path plain pen₁ strokes' pen') :
    Path plain pen (strokes ++ strokes') pen' := by
  induction h with
  | nil => exact h'
  | cons hmove _ ih => exact .cons hmove (ih h')

theorem Path.single
    {plain : Prop} {pen pen' : Pen} {k : Stroke}
    (h : Moves plain pen k pen') :
    Path plain pen [k] pen' :=
  .cons h .nil

namespace Pen

def AtStart (n : Nat) (pen : Pen) : Prop := pen = ⟨n, .start⟩

def Begun (n : Nat) (pen : Pen) : Prop := pen = ⟨n, .begun⟩

def OnLevel (n : Nat) (pen : Pen) : Prop := pen.level = n

theorem AtStart.onLevel
    {n : Nat} {pen : Pen}
    (h : pen.AtStart n) :
    pen.OnLevel n := by
  rw [h]
  rfl

theorem Begun.onLevel
    {n : Nat} {pen : Pen}
    (h : pen.Begun n) :
    pen.OnLevel n := by
  rw [h]
  rfl

end Pen

/-- The page of a pen: it is on the level of the pen, and its line has been
begun if that of the pen has. -/
def Page.Under (pen : Pen) (p : Page) : Prop :=
  p.depth = pen.level ∧ p.indented = decide (pen.mode = .begun)

/-- A path leads a page as it leads its pen, whatever the level on which it
starts. -/
theorem Path.page
    {plain : Prop} {pen pen' : Pen} {strokes : List Stroke} {p : Page}
    (base : Int)
    (h : Path plain pen strokes pen')
    (hdepth : p.depth = base + pen.level)
    (hindented : p.indented = decide (pen.mode = .begun)) :
    (p.draw strokes).depth = base + pen'.level ∧
      (p.draw strokes).indented = decide (pen'.mode = .begun) := by
  induction h generalizing p with
  | nil => exact ⟨hdepth, hindented⟩
  | cons hmove _ ih =>
      cases hmove with
      | write => exact ih hdepth rfl
      | line _ hs =>
          simp only [Page.draw_cons, Page.stroke, Page.writeln, if_neg hs]
          exact ih hdepth rfl
      | ending =>
          simp only [Page.draw_cons, Page.stroke, Page.writeln, if_true]
          split
          · exact ih hdepth rfl
          · exact ih hdepth rfl
      | blank =>
          simp only [Page.draw_cons, Page.stroke, Page.writeln, if_true]
          split
          · exact ih hdepth rfl
          · exact ih hdepth rfl
      | push =>
          exact ih (by simp [Page.stroke, Page.push, hdepth, Int.add_assoc])
            hindented
      | pop =>
          exact ih (by simp [Page.stroke, Page.pop, hdepth, ← Int.add_assoc])
            hindented

theorem Path.under
    {plain : Prop} {pen pen' : Pen} {strokes : List Stroke} {p : Page}
    (h : Path plain pen strokes pen')
    (hp : p.Under pen) :
    (p.draw strokes).Under pen' := by
  rcases h.page 0 (by rw [Int.zero_add, hp.1]) hp.2 with ⟨hdepth, hindented⟩
  rw [Int.zero_add] at hdepth
  exact ⟨hdepth, hindented⟩

/-!
## Writers
-/

namespace Emit

/-- A computation that writes nothing, and whose answer meets a condition. -/
def Yields {α : Type} (x : Emit α) (R : α -> Prop) : Prop :=
  exists result, Performs x [] result ∧ forall a, result = .ok a -> R a

/-- A writer whose strokes, if it ends well, lead a pen from one place to
another. -/
def Draws (plain : Prop) (P : Pen -> Prop) (x : Emit Unit)
    (Q : Pen -> Prop) : Prop :=
  exists strokes result, Performs x strokes result ∧
    (result = .ok () -> forall pen, P pen ->
      exists pen', Path plain pen strokes pen' ∧ Q pen')

section

variable {α β : Type} {plain : Prop} {P P' M Q Q' : Pen -> Prop}

theorem yields_pure
    {R : α -> Prop} {a : α}
    (h : R a) :
    Yields (pure a : Emit α) R := by
  refine ⟨.ok a, performs_pure a, ?_⟩
  rintro _ ⟨⟩
  exact h

theorem yields_report (notices : List Notice) :
    Yields (report notices) fun _ => True :=
  ⟨.ok (), performs_report notices, fun _ _ => trivial⟩

theorem yields_lift (result : Except Fault α) : Yields (lift result) fun a =>
    result = .ok a :=
  ⟨result, performs_lift result, fun _ h => h⟩

theorem yields_error
    {x : Emit α} {R : α -> Prop} {fault : Fault}
    (h : Performs x [] (.error fault)) :
    Yields x R :=
  ⟨_, h, fun _ hok => by contradiction⟩

theorem Yields.bind
    {x : Emit α} {f : α -> Emit β} {R : α -> Prop} {S : β -> Prop}
    (hx : Yields x R)
    (hf : forall a, R a -> Yields (f a) S) :
    Yields (x >>= f) S := by
  rcases hx with ⟨result, hperforms, hR⟩
  cases result with
  | ok a =>
      rcases hf a (hR a rfl) with ⟨result', hperforms', hS⟩
      exact ⟨result', hperforms.bind hperforms', hS⟩
  | error fault => exact yields_error (hperforms.bind_error f)

theorem yields_textOf
    {R : String -> Prop} {v : Value}
    (h : forall t, v = .str t -> R t) :
    Yields (textOf v) R := by
  unfold textOf
  split
  · exact yields_pure (h _ rfl)
  · exact yields_error (performs_throw _)

theorem draws_skip : Draws plain P (pure ()) P :=
  ⟨[], .ok (), performs_pure (), fun _ pen hpen => ⟨pen, .nil, hpen⟩⟩

theorem draws_error
    {x : Emit Unit} {strokes : List Stroke} {fault : Fault}
    (h : Performs x strokes (.error fault)) :
    Draws plain P x Q :=
  ⟨_, _, h, fun hok => by contradiction⟩

theorem Draws.bind
    {x : Emit Unit} {f : Unit -> Emit Unit}
    (hx : Draws plain P x M)
    (hf : Draws plain M (f ()) Q) :
    Draws plain P (x >>= f) Q := by
  rcases hx with ⟨strokes, result, hperforms, hpath⟩
  cases result with
  | ok =>
      rcases hf with ⟨strokes', result', hperforms', hpath'⟩
      refine ⟨strokes ++ strokes', result', hperforms.bind hperforms', ?_⟩
      intro hok pen hpen
      rcases hpath rfl pen hpen with ⟨pen₁, hfirst, hpen₁⟩
      rcases hpath' hok pen₁ hpen₁ with ⟨pen₂, hsecond, hpen₂⟩
      exact ⟨pen₂, hfirst.append hsecond, hpen₂⟩
  | error fault => exact draws_error (hperforms.bind_error f)

theorem Yields.draws
    {x : Emit α} {f : α -> Emit Unit} {R : α -> Prop}
    (hx : Yields x R)
    (hf : forall a, R a -> Draws plain P (f a) Q) :
    Draws plain P (x >>= f) Q := by
  rcases hx with ⟨result, hperforms, hR⟩
  cases result with
  | ok a =>
      rcases hf a (hR a rfl) with ⟨strokes, result', hperforms', hpath⟩
      exact ⟨strokes, result', hperforms.bind hperforms', hpath⟩
  | error fault => exact draws_error (hperforms.bind_error f)

theorem Draws.mono
    {x : Emit Unit}
    (hx : Draws plain P x Q)
    (h : forall pen, Q pen -> Q' pen) :
    Draws plain P x Q' := by
  rcases hx with ⟨strokes, result, hperforms, hpath⟩
  refine ⟨strokes, result, hperforms, ?_⟩
  intro hok pen hpen
  rcases hpath hok pen hpen with ⟨pen', hstrokes, hpen'⟩
  exact ⟨pen', hstrokes, h pen' hpen'⟩

theorem Draws.of_imp
    {x : Emit Unit}
    (hx : Draws plain P x Q)
    (h : forall pen, P' pen -> P pen) :
    Draws plain P' x Q := by
  rcases hx with ⟨strokes, result, hperforms, hpath⟩
  exact ⟨strokes, result, hperforms, fun hok pen hpen =>
    hpath hok pen (h pen hpen)⟩

theorem draws_ite
    {c : Prop} [Decidable c] {x y : Emit Unit}
    (hx : Draws plain P x Q)
    (hy : Draws plain P y Q) :
    Draws plain P (if c then x else y) Q := by
  split
  · exact hx
  · exact hy

/-- A writer that is left out under a condition. -/
theorem Draws.optional
    {c : Prop} [Decidable c] {x : Emit Unit} {k : Unit -> Emit Unit}
    (hx : Draws plain P x M)
    (hskip : forall pen, P pen -> M pen)
    (hk : Draws plain M (k ()) Q) :
    Draws plain P (if c then x >>= k else k ()) Q :=
  draws_ite (hx.bind hk) (hk.of_imp hskip)

end

/-!
## Single strokes
-/

section

variable {plain : Prop} {n : Nat} {fragments : List String}

/-- The beginning of a line, or more of it. -/
theorem draws_write
    (hline : plain -> Text.OneLine (String.join fragments))
    (hne : String.join fragments ≠ "") :
    Draws plain (Pen.OnLevel n) (write fragments) (Pen.Begun n) := by
  refine ⟨_, _, performs_write fragments, ?_⟩
  rintro _ ⟨_, mode⟩ rfl
  exact ⟨_, .single (.write hline (Or.inl hne)), rfl⟩

theorem draws_write_more
    (hline : plain -> Text.OneLine (String.join fragments)) :
    Draws plain (Pen.Begun n) (write fragments) (Pen.Begun n) := by
  refine ⟨_, _, performs_write fragments, ?_⟩
  rintro _ _ rfl
  exact ⟨_, .single (.write hline (Or.inr (Or.inl rfl))), rfl⟩

theorem draws_write_deep
    (hline : plain -> Text.OneLine (String.join fragments)) :
    Draws plain (Pen.OnLevel (n + 1)) (write fragments)
      (Pen.Begun (n + 1)) := by
  refine ⟨_, _, performs_write fragments, ?_⟩
  rintro _ ⟨_, mode⟩ rfl
  exact ⟨_, .single (.write hline (Or.inr (Or.inr (Nat.succ_pos n)))), rfl⟩

theorem draws_writeln
    (hline : plain -> Text.OneLine (String.join fragments))
    (hne : String.join fragments ≠ "") :
    Draws plain (Pen.OnLevel n) (writeln fragments) (Pen.AtStart n) := by
  refine ⟨_, _, performs_writeln fragments, ?_⟩
  rintro _ ⟨_, mode⟩ rfl
  exact ⟨_, .single (.line hline hne), rfl⟩

theorem draws_writeln_ending :
    Draws plain (Pen.Begun n) (writeln []) (Pen.AtStart n) := by
  refine ⟨_, _, performs_writeln [], ?_⟩
  rintro _ _ rfl
  exact ⟨_, .single .ending, rfl⟩

theorem draws_writeln_blank :
    Draws plain (Pen.AtStart n) (writeln []) (Pen.OnLevel n) := by
  refine ⟨_, _, performs_writeln [], ?_⟩
  rintro _ _ rfl
  exact ⟨_, .single .blank, rfl⟩

theorem draws_push :
    Draws plain (Pen.AtStart n) push (Pen.AtStart (n + 1)) := by
  refine ⟨_, _, performs_push, ?_⟩
  rintro _ _ rfl
  exact ⟨_, .single .push, rfl⟩

theorem draws_pop : Draws plain (Pen.AtStart (n + 1)) pop (Pen.AtStart n) := by
  refine ⟨_, _, performs_pop, ?_⟩
  rintro _ _ rfl
  exact ⟨_, .single .pop, rfl⟩

end
end Emit
end Ambient
