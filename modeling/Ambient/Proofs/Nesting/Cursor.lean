import Ambient.Proofs.Emit
import Ambient.Proofs.Nesting.Lines

/-!
# Where a page stands

While a page is written, its cursor is at the start of a line or somewhere in
it, at some depth, with the blocks around it on the stack.  Levels are entered
and left at the start of a line only.
-/

namespace Ambient
namespace Nesting

/-!
## Pages
-/

/-- The page is at the start of a line. -/
structure AtLine (stack : List Nat) (depth : Nat) (p : Page) : Prop where
  depth_eq : p.depth = depth
  indented : p.indented = false
  read : Read p.text stack []

/-- The page has `cs` on its line, after the indentation. -/
structure InLine (stack : List Nat) (depth : Nat) (cs : List Char) (p : Page) :
    Prop where
  depth_eq : p.depth = depth
  indented : p.indented = true
  fresh : p.fresh = false
  read : Read p.text stack (spaces (4 * depth) ++ cs)

/-- The page has `cs` on its line, which may not have begun. -/
def OnLine (stack : List Nat) (depth : Nat) (cs : List Char)
    (p : Page) : Prop :=
  (cs = [] ∧ AtLine stack depth p) ∨ InLine stack depth cs p

section

variable {stack stack' : List Nat} {depth : Nat} {cs : List Char} {p : Page}
  {s : String}

theorem AtLine.onLine (h : AtLine stack depth p) : OnLine stack depth [] p :=
  Or.inl ⟨rfl, h⟩

theorem InLine.onLine (h : InLine stack depth cs p) : OnLine stack depth cs p :=
  Or.inr h

theorem oneLine_indentation (depth : Int) :
    Text.OneLine (Page.indentation depth) := by
  simp [Text.OneLine, Page.indentation]

theorem OnLine.write
    (h : OnLine stack depth cs p)
    (hs : Text.OneLine s) :
    InLine stack depth (cs ++ s.toList) (p.write s) := by
  rcases h with ⟨rfl, h⟩ | h
  · refine ⟨h.depth_eq, rfl, rfl, ?_⟩
    have hread := (h.read.append (oneLine_indentation p.depth)).append hs
    simpa [Page.write, h.indented, h.depth_eq, Page.indentation, spaces,
      String.append_assoc]
      using hread
  · refine ⟨h.depth_eq, rfl, rfl, ?_⟩
    have hread := h.read.append hs
    simpa [Page.write, h.indented, List.append_assoc] using hread

theorem OnLine.writeln
    (h : OnLine stack depth cs p)
    (hs : Text.OneLine s)
    (hne : s ≠ "")
    (hread : readLine stack (spaces (4 * depth) ++ (cs ++ s.toList)) =
      some stack') :
    AtLine stack' depth (p.writeln s) := by
  have hline := h.write hs
  have htext : (p.write (s ++ "\n")).text = (p.write s).text ++ "\n" := by
    unfold Page.write
    split <;> simp [String.append_assoc]
  rw [Page.writeln, if_neg hne]
  refine ⟨hline.depth_eq, rfl, ?_⟩
  rw [Page.endLine, htext]
  exact hline.read.break hread

theorem AtLine.writeln_empty
    (h : AtLine stack depth p) :
    AtLine stack depth (p.writeln "") := by
  rw [Page.writeln, if_pos rfl]
  split
  · exact ⟨h.depth_eq, rfl, h.read⟩
  · exact ⟨h.depth_eq, rfl, h.read.break rfl⟩

theorem InLine.writeln_empty
    (h : InLine stack depth cs p)
    (hread : readLine stack (spaces (4 * depth) ++ cs) = some stack') :
    AtLine stack' depth (p.writeln "") := by
  rw [Page.writeln, if_pos rfl, h.fresh]
  exact ⟨h.depth_eq, rfl, h.read.break hread⟩

theorem AtLine.push
    (h : AtLine stack depth p) :
    AtLine stack (depth + 1) p.push := by
  refine ⟨?_, h.indented, h.read⟩
  simp [Page.push, h.depth_eq]

theorem AtLine.pop
    (h : AtLine stack (depth + 1) p) :
    AtLine stack depth p.pop := by
  refine ⟨?_, h.indented, h.read⟩
  simp [Page.pop, h.depth_eq]

end

/-!
## Steps
-/

/-- Every run of `x` that starts with a page of the first kind and ends with an
answer ends with a page of the second kind. -/
def Leads {α : Type} (P : Page -> Prop) (x : Emit α)
    (Q : α -> Page -> Prop) : Prop :=
  forall s, P s.page -> Emit.Ends (fun _ => True) x s fun a s' => Q a s'.page

section

variable {α β : Type} {P P' : Page -> Prop} {Q : α -> Page -> Prop}
  {R : β -> Page -> Prop}

theorem Leads.bind
    {x : Emit α} {f : α -> Emit β}
    (hx : Leads P x Q)
    (hf : forall a, Leads (Q a) (f a) R) :
    Leads P (x >>= f) R :=
  fun s hP => (hx s hP).bind fun a s' hQ => hf a s' hQ

theorem Leads.mono
    {x : Emit α} {Q' : α -> Page -> Prop}
    (hx : Leads P x Q)
    (h : forall a p, Q a p -> Q' a p) :
    Leads P x Q' :=
  fun s hP => (hx s hP).mono fun a s' hQ => h a s'.page hQ

theorem Leads.of_imp
    {x : Emit α}
    (hx : Leads P x Q)
    (h : forall p, P' p -> P p) :
    Leads P' x Q :=
  fun s hP => hx s (h s.page hP)

theorem leads_pure
    (a : α) :
    Leads P (pure a) fun b p => b = a ∧ P p :=
  fun _ hP => .answer rfl ⟨rfl, hP⟩

theorem leads_skip {a : α} : Leads P (pure a) fun _ => P :=
  fun _ hP => .answer rfl hP

theorem leads_get : Leads P (get : Emit Session) fun _ => P :=
  fun _ hP => .answer rfl hP

theorem leads_throw (fault : Fault) : Leads P (throw fault : Emit α) Q :=
  fun _ _ => .fault rfl trivial

theorem leads_lift
    (result : Except Fault α) :
    Leads P (Emit.lift result) fun a p => result = .ok a ∧ P p := by
  cases result with
  | ok a => exact fun _ hP => .answer rfl ⟨rfl, hP⟩
  | error fault => exact leads_throw fault

theorem leads_report (notices : List Notice) :
    Leads P (Emit.report notices) fun _ => P :=
  fun _ hP => .answer rfl hP

theorem leads_onPage
    {f : Page -> Page} {P' : Page -> Prop}
    (h : forall p, P p -> P' (f p)) :
    Leads P (Emit.onPage f) fun _ => P' :=
  fun s hP => .answer rfl (h s.page hP)

theorem leads_textOf (v : Value) : Leads P (Emit.textOf v) fun t p =>
    v = .str t ∧ P p := by
  unfold Emit.textOf
  split
  · exact fun _ hP => .answer rfl ⟨rfl, hP⟩
  · exact leads_throw .nonText

theorem leads_ite
    {c : Prop} [Decidable c] {x y : Emit α}
    (hx : c -> Leads P x Q)
    (hy : ¬ c -> Leads P y Q) :
    Leads P (if c then x else y) Q := by
  split
  · exact hx ‹_›
  · exact hy ‹_›

theorem Leads.of_fact
    {c : Prop} {x : Emit α}
    (h : c -> Leads P x Q) :
    Leads (fun p => c ∧ P p) x Q :=
  fun s hP => h hP.1 s hP.2

/-- One of two steps, and what comes after both. -/
theorem Leads.either
    {c : Prop} [Decidable c] {x y : Emit Unit} {k : Unit -> Emit β}
    {M : Page -> Prop}
    (hx : c -> Leads P x fun _ => M)
    (hy : ¬ c -> Leads P y fun _ => M)
    (hk : Leads M (k ()) R) :
    Leads P (if c then x >>= k else y >>= k) R :=
  leads_ite (fun hc => (hx hc).bind fun _ => hk) fun hc =>
    (hy hc).bind fun _ => hk

/-- A step that is left out under a condition. -/
theorem Leads.optional
    {c : Prop} [Decidable c] {x : Emit Unit} {k : Unit -> Emit β}
    {M : Page -> Prop}
    (hx : c -> Leads P x fun _ => M)
    (hskip : ¬ c -> forall p, P p -> M p)
    (hk : Leads M (k ()) R) :
    Leads P (if c then x >>= k else k ()) R := by
  split
  · exact (hx ‹_›).bind fun _ => hk
  · exact hk.of_imp (hskip ‹_›)

end

/-!
## Lines of words
-/

/-- A character that a line with which a block ends does not have. -/
def Solid (c : Char) : Prop := c ∉ [' ', '}', ';']

instance (c : Char) : Decidable (Solid c) :=
  inferInstanceAs (Decidable (c ∉ [' ', '}', ';']))

@[simp] theorem solid_iff (c : Char) : Solid c ↔
    c ≠ ' ' ∧ c ≠ '}' ∧ c ≠ ';' := by simp [Solid]

/-- Characters of which the first is no space. -/
def Begins (cs : List Char) : Prop := exists c rest, cs = c :: rest ∧ c ≠ ' '

/-- Characters of which the first is no space and some are solid. -/
def Worded (cs : List Char) : Prop := Begins cs ∧ exists c, c ∈ cs ∧ Solid c

/-- The page is in a line whose characters so far meet `S`. -/
def Holding (S : List Char -> Prop) (stack : List Nat) (depth : Nat)
    (p : Page) : Prop :=
  exists cs, S cs ∧ InLine stack depth cs p

/-- The page is in a line. -/
abbrev Midline : List Nat -> Nat -> Page -> Prop := Holding fun _ => True

/-- The page is in a line that does not start with a space. -/
abbrev Begun : List Nat -> Nat -> Page -> Prop := Holding Begins

/-- The page is in a line of words. -/
abbrev InWords : List Nat -> Nat -> Page -> Prop := Holding Worded

/-- The page is at the start of a line or in a line of words. -/
def AtWords (stack : List Nat) (depth : Nat) (p : Page) : Prop :=
  AtLine stack depth p ∨ InWords stack depth p

@[simp] theorem begins_cons
    (c : Char)
    (cs : List Char) :
    Begins (c :: cs) ↔ c ≠ ' ' := by
  simp [Begins]

theorem Begins.append
    {cs : List Char}
    (h : Begins cs)
    (ds : List Char) :
    Begins (cs ++ ds) := by
  rcases h with ⟨c, rest, rfl, hc⟩
  exact ⟨c, rest ++ ds, rfl, hc⟩

theorem Worded.append
    {cs : List Char}
    (h : Worded cs)
    (ds : List Char) :
    Worded (cs ++ ds) := by
  rcases h with ⟨hbegins, c, hc, hsolid⟩
  exact ⟨hbegins.append ds, c, List.mem_append_left ds hc, hsolid⟩

@[simp] theorem worded_cons
    {c : Char}
    (hc : Solid c)
    (cs : List Char) :
    Worded (c :: cs) :=
  ⟨(begins_cons c cs).mpr ((solid_iff c).mp hc).1, c, List.mem_cons_self, hc⟩

theorem Begins.ne_empty
    {t : String}
    (h : Begins t.toList) :
    t ≠ "" := by
  rintro rfl
  rcases h with ⟨c, rest, heq, _⟩
  simp at heq

theorem closes_eq_false
    {cs : List Char} {c : Char}
    (hc : c ∈ cs)
    (hsolid : Solid c) :
    closes cs = false := by
  rw [← Bool.not_eq_true]
  intro hclose
  exact hsolid (mem_of_closes hclose hc)

theorem Begins.readLine_opens
    {stack : List Nat} {cs : List Char}
    (n : Nat)
    (h : Begins cs)
    (hopen : opens cs = true) :
    readLine stack (spaces n ++ cs) = some (n :: stack) := by
  rcases h with ⟨c, rest, rfl, hc⟩
  exact Nesting.readLine_opens n hc hopen

section

variable {stack : List Nat} {depth : Nat} {fragments : List String}

theorem InWords.begun
    {p : Page}
    (h : InWords stack depth p) :
    Begun stack depth p := by
  rcases h with ⟨cs, hcs, h⟩
  exact ⟨cs, hcs.1, h⟩

theorem leads_write
    {cs : List Char}
    (hline : Text.OneLine (String.join fragments)) :
    Leads (OnLine stack depth cs) (Emit.write fragments)
      fun _ => InLine stack depth (cs ++ (String.join fragments).toList) :=
  fun _ h => .answer rfl (h.write hline)

theorem leads_writeln
    {cs : List Char} {stack' : List Nat}
    (hline : Text.OneLine (String.join fragments))
    (hne : String.join fragments ≠ "")
    (hread : readLine stack
      (spaces (4 * depth) ++ (cs ++ (String.join fragments).toList)) =
      some stack') :
    Leads (OnLine stack depth cs) (Emit.writeln fragments) fun _ =>
      AtLine stack' depth :=
  fun _ h => .answer rfl (h.writeln hline hne hread)

theorem leads_write_at
    {S : List Char -> Prop}
    (hline : Text.OneLine (String.join fragments))
    (h : S (String.join fragments).toList) :
    Leads (AtLine stack depth) (Emit.write fragments) fun _ =>
      Holding S stack depth :=
  fun s hat => (leads_write hline s hat.onLine).mono fun _ _ hin => ⟨_, h, hin⟩

theorem leads_write_on
    {S T : List Char -> Prop}
    (hline : Text.OneLine (String.join fragments))
    (h : forall cs, S cs -> T (cs ++ (String.join fragments).toList)) :
    Leads (Holding S stack depth) (Emit.write fragments) fun _ =>
      Holding T stack depth := by
  rintro s ⟨cs, hcs, hin⟩
  exact (leads_write hline s hin.onLine).mono fun _ _ hnext =>
    ⟨_, h cs hcs, hnext⟩

theorem leads_write_first
    {S : List Char -> Prop}
    (hline : Text.OneLine (String.join fragments))
    (hfirst : S (String.join fragments).toList)
    (hmore : forall cs, Worded cs -> S (cs ++ (String.join fragments).toList)) :
    Leads (AtWords stack depth) (Emit.write fragments) fun _ =>
      Holding S stack depth := by
  rintro s (h | h)
  · exact leads_write_at hline hfirst s h
  · exact leads_write_on hline hmore s h

/-- The first words of a line. -/
theorem leads_write_start
    (hwords : Worded (String.join fragments).toList)
    (hline : Text.OneLine (String.join fragments)) :
    Leads (AtWords stack depth) (Emit.write fragments) fun _ =>
      InWords stack depth :=
  leads_write_first hline hwords fun _ h => h.append _

theorem leads_write_begin
    (hbegins : Begins (String.join fragments).toList)
    (hline : Text.OneLine (String.join fragments)) :
    Leads (AtWords stack depth) (Emit.write fragments) fun _ =>
      Begun stack depth :=
  leads_write_first hline hbegins fun _ h => h.1.append _

/-- More of a line. -/
theorem leads_write_more
    (hline : Text.OneLine (String.join fragments)) :
    Leads (InWords stack depth) (Emit.write fragments) fun _ =>
      InWords stack depth :=
  leads_write_on hline fun _ h => h.append _

theorem leads_write_begun
    (hline : Text.OneLine (String.join fragments)) :
    Leads (Begun stack depth) (Emit.write fragments) fun _ =>
      Begun stack depth :=
  leads_write_on hline fun _ h => h.append _

theorem leads_write_word
    {c : Char}
    (hsolid : Solid c)
    (hc : c ∈ (String.join fragments).toList)
    (hline : Text.OneLine (String.join fragments)) :
    Leads (Begun stack depth) (Emit.write fragments) fun _ =>
      InWords stack depth :=
  leads_write_on hline fun cs h =>
    ⟨h.append _, c, List.mem_append_right cs hc, hsolid⟩

/-- A line that opens a block. -/
theorem leads_writeln_open
    (hbegins : Begins (String.join fragments).toList)
    (hline : Text.OneLine (String.join fragments))
    (hopen : opens (String.join fragments).toList = true) :
    Leads (AtWords stack depth) (Emit.writeln fragments)
      fun _ => AtLine (4 * depth :: stack) depth := by
  have hne := hbegins.ne_empty
  rintro s (h | ⟨cs, hcs, h⟩)
  · refine leads_writeln hline hne ?_ s h.onLine
    rw [List.nil_append]
    exact hbegins.readLine_opens _ hopen
  · refine leads_writeln hline hne ?_ s h.onLine
    rw [← opens_append cs (mt String.toList_eq_nil_iff.mp hne)] at hopen
    exact (hcs.1.append _).readLine_opens _ hopen

theorem leads_writeln_brace :
    Leads (InWords stack depth) (Emit.writeln ["\x7b"])
      fun _ => AtLine (4 * depth :: stack) depth :=
  (leads_writeln_open (by simp) (by decide) (by decide)).of_imp
    fun _ h => Or.inr h

theorem leads_writeln_on
    {S : List Char -> Prop}
    (hne : String.join fragments ≠ "")
    (hline : Text.OneLine (String.join fragments))
    (hopen : opens (String.join fragments).toList = false)
    (hclose : forall cs, S cs ->
      closes (cs ++ (String.join fragments).toList) = false) :
    Leads (Holding S stack depth) (Emit.writeln fragments) fun _ =>
      AtLine stack depth := by
  rintro s ⟨cs, hcs, h⟩
  refine leads_writeln hline hne ?_ s h.onLine
  rw [← opens_append cs (mt String.toList_eq_nil_iff.mp hne)] at hopen
  exact readLine_plain _ hopen (hclose cs hcs)

/-- The end of a line of words. -/
theorem leads_writeln_end
    (hne : String.join fragments ≠ "")
    (hline : Text.OneLine (String.join fragments))
    (hopen : opens (String.join fragments).toList = false) :
    Leads (InWords stack depth) (Emit.writeln fragments) fun _ =>
      AtLine stack depth := by
  refine leads_writeln_on hne hline hopen ?_
  rintro cs ⟨_, c, hc, hsolid⟩
  exact closes_eq_false (List.mem_append_left _ hc) hsolid

/-- A whole line that neither opens nor closes a block. -/
theorem leads_writeln_whole
    (hne : String.join fragments ≠ "")
    (hline : Text.OneLine (String.join fragments))
    (hopen : opens (String.join fragments).toList = false)
    (hclose : closes (String.join fragments).toList = false) :
    Leads (AtLine stack depth) (Emit.writeln fragments) fun _ =>
      AtLine stack depth := by
  intro s h
  refine leads_writeln hline hne ?_ s h.onLine
  rw [List.nil_append]
  exact readLine_plain _ hopen hclose

theorem leads_writeln_blank :
    Leads (AtLine stack depth) (Emit.writeln []) fun _ => AtLine stack depth :=
  fun _ h => .answer rfl h.writeln_empty

/-- A line that closes a block. -/
theorem leads_writeln_close
    {t : String}
    (ht : t = "\x7d" ∨ t = "\x7d;") :
    Leads (AtLine (4 * depth :: stack) depth) (Emit.writeln [t]) fun _ =>
      AtLine stack depth := by
  intro s h
  have hjoin : String.join [t] = t := by simp
  have hline : Text.OneLine t ∧ t ≠ "" ∧
      (t.toList = ['}'] ∨ t.toList = ['}', ';']) := by
    rcases ht with rfl | rfl <;> decide
  rw [← hjoin] at hline
  refine leads_writeln hline.1 hline.2.1 ?_ s h.onLine
  rw [List.nil_append]
  exact readLine_closes _ hline.2.2

theorem leads_push :
    Leads (AtLine stack depth) Emit.push fun _ => AtLine stack (depth + 1) :=
  leads_onPage fun _ h => h.push

theorem leads_pop :
    Leads (AtLine stack (depth + 1)) Emit.pop fun _ => AtLine stack depth :=
  leads_onPage fun _ h => h.pop

end
end Nesting
end Ambient
