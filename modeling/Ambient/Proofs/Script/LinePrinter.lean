import Ambient.Proofs.Script.Shift

/-!
# Pages line by line

A page is written by calls that append fragments, end a line, or go a level
deeper or up.  It prints line by line: cut at the calls that end a line, each
line has the indentation of the level at its first write and then all its
fragments.  A line on which nothing is written is a bare line feed, or nothing
at the front of the page.
-/

namespace Ambient

/-!
## Calls
-/

/-- A call that changes a page. -/
inductive Call where
  | write (fragments : List String)
  | writeln (fragments : List String)
  | push
  | pop
deriving DecidableEq, Repr

namespace Call

/-- The stroke that a call makes: its fragments are written as one text. -/
def stroke : Call -> Stroke
  | write fragments => .write (String.join fragments)
  | writeln fragments => .line (String.join fragments)
  | push => .push
  | pop => .pop

/-- What a call is given to write. -/
def fragments : Call -> List String
  | write fragments => fragments
  | writeln fragments => fragments
  | push => []
  | pop => []

/-- Whether a call writes on its line.  One that ends it, with fragments that
are all empty, only ends it. -/
def isWrite : Call -> Bool
  | write _ => true
  | writeln fragments => fragments.any (· != "")
  | push => false
  | pop => false

/-- Whether a call ends its line. -/
def endsLine : Call -> Bool
  | writeln _ => true
  | _ => false

/-- The number of levels that a call goes deeper. -/
def rise : Call -> Int
  | push => 1
  | pop => -1
  | _ => 0

end Call

/-- The page after calls on one that is empty. -/
def Page.afterCalls (calls : List Call) : Page :=
  Page.empty.draw (calls.map Call.stroke)

/-!
## The line printer
-/

namespace LinePrinter

/-- The level after calls. -/
def level : List Call -> Int
  | [] => 0
  | c :: calls => c.rise + level calls

/-- The calls cut behind each one that ends a line. -/
def cut : List Call -> List (List Call)
  | [] => [[]]
  | c :: calls =>
      if c.endsLine then [c] :: cut calls else (cut calls).modifyHead (c :: ·)

/-- Four spaces for each level above zero. -/
def margin (level : Int) : String :=
  String.join (List.replicate (max 0 level).toNat "    ")

/-- The line feed of a line that is ended. -/
def feed (line : List Call) : String :=
  if line.any Call.endsLine then "\n" else ""

/-- The text of a line of calls behind all calls before it. -/
def lineText (before line : List Call) : String :=
  if line.any Call.isWrite then
    margin (level (before ++ line.takeWhile fun c => !c.isWrite)) ++
      String.join (line.flatMap Call.fragments) ++ feed line
  else if before.any Call.isWrite then feed line
  else ""

/-- The text of lines of calls behind all calls before them. -/
def print (before : List Call) : List (List Call) -> String
  | [] => ""
  | line :: lines => lineText before line ++ print (before ++ line) lines

/-- Whether calls leave a line unfinished on which something has been
written. -/
def midLine (calls : List Call) : Bool :=
  (cut calls).getLast?.any (·.any Call.isWrite)

theorem margin_eq_indentation (n : Int) : margin n = Page.indentation n := by
  have h (k : Nat) : String.join (List.replicate k "    ") =
      String.ofList (List.replicate (4 * k) ' ') := by
    induction k with
    | zero => rfl
    | succ k ih =>
        rw [List.replicate_succ, String.join_cons, ih, Nat.mul_succ,
          Nat.add_comm, ← List.replicate_append_replicate, String.ofList_append]
        rfl
  rw [margin, h, Page.indentation, show (max 0 n).toNat = n.toNat by omega]

@[simp] theorem level_append (calls calls' : List Call) :
    level (calls ++ calls') = level calls + level calls' := by
  induction calls with
  | nil => simp [level]
  | cons c calls ih => rw [List.cons_append, level, level, ih, Int.add_assoc]

theorem isWrite_writeln (fragments : List String) :
    (Call.writeln fragments).isWrite = (String.join fragments != "") := by
  induction fragments with
  | nil => rfl
  | cons s fragments ih =>
      simp only [Call.isWrite, List.any_cons, String.join_cons] at ih ⊢
      rw [ih, Bool.eq_iff_iff]
      simp only [Bool.or_eq_true, bne_iff_ne, ne_eq, String.append_eq_empty_iff]
      exact Decidable.not_and_iff_not_or_not.symm

/-!
## Lines that are not ended

The calls of a line up to some point leave the page behind the text of the line
so far.
-/

/-- The page behind all calls of the lines before, whose text is `done`, and the
calls of a line that is not ended. -/
structure Holds (done : String) (before line : List Call) (p : Page) :
    Prop where
  open_line : line.any Call.endsLine = false
  text : p.text = done ++ lineText before line
  depth : p.depth = level (before ++ line)
  indented : p.indented = line.any Call.isWrite
  fresh : p.fresh = !(before ++ line).any Call.isWrite

/-- What a call adds to the text of a line that is not ended. -/
def added (before line : List Call) (c : Call) : String :=
  if line.any Call.isWrite then String.join c.fragments ++ feed [c]
  else if c.isWrite then margin (level (before ++ line)) ++
    String.join c.fragments ++ feed [c]
  else if before.any Call.isWrite then feed [c]
  else ""

theorem feed_append
    {line : List Call}
    (hopen : line.any Call.endsLine = false)
    (c : Call) :
    feed (line ++ [c]) = feed [c] := by
  simp only [feed, List.any_append, hopen, Bool.false_or]

/-- The calls of a line before its first write. -/
theorem takeWhile_append_of_any
    {line : List Call}
    (h : line.any Call.isWrite = true)
    (rest : List Call) :
    (line ++ rest).takeWhile (fun c => !c.isWrite) = line.takeWhile fun c =>
      !c.isWrite := by
  induction line with
  | nil => contradiction
  | cons c line ih =>
      cases hc : c.isWrite with
      | true => simp [hc]
      | false =>
          rw [List.any_cons, hc, Bool.false_or] at h
          simp [hc, ih h]

theorem takeWhile_append_of_not_any
    {line : List Call}
    (h : line.any Call.isWrite = false)
    (rest : List Call) :
    (line ++ rest).takeWhile (fun c => !c.isWrite) =
      line ++ rest.takeWhile fun c => !c.isWrite := by
  refine List.takeWhile_append_of_pos fun c hc => ?_
  rw [List.any_eq_false] at h
  simpa using h c hc

theorem join_flatMap_fragments
    {line : List Call}
    (hopen : line.any Call.endsLine = false)
    (h : line.any Call.isWrite = false) :
    String.join (line.flatMap Call.fragments) = "" := by
  induction line with
  | nil => rfl
  | cons c line ih =>
      rw [List.any_cons, Bool.or_eq_false_iff] at hopen h
      cases c with
      | write fragments => exact absurd h.1 (by simp [Call.isWrite])
      | writeln fragments => exact absurd hopen.1 (by simp [Call.endsLine])
      | push => exact ih hopen.2 h.2
      | pop => exact ih hopen.2 h.2

theorem lineText_nil (before : List Call) : lineText before [] = "" := by
  simp [lineText, feed]

theorem lineText_append
    {before line : List Call}
    (hopen : line.any Call.endsLine = false)
    (c : Call) :
    lineText before (line ++ [c]) =
      lineText before line ++ added before line c := by
  have hfeed : feed line = "" := by simp only [feed, hopen]; rfl
  cases hline : line.any Call.isWrite with
  | true =>
      -- The first write, and with it the margin, is that of the line so far.
      simp [lineText, added, hline, takeWhile_append_of_any hline, hfeed,
        feed_append hopen, String.append_assoc]
  | false =>
      have hblank : lineText before line = "" := by
        simp [lineText, hline, hfeed]
      rw [hblank, String.empty_append]
      cases hc : c.isWrite with
      | true =>
          have hnone : [c].takeWhile (fun c => !c.isWrite) = [] := by simp [hc]
          simp [lineText, added, hline, hc,
            takeWhile_append_of_not_any hline, hnone,
            join_flatMap_fragments hopen hline, feed_append hopen]
      | false => simp [lineText, added, hline, hc, feed_append hopen]

/-- A call adds the same text to the page and to the line. -/
theorem Holds.text_stroke
    {done : String} {before line : List Call} {p : Page}
    (h : Holds done before line p)
    (c : Call) :
    (p.stroke c.stroke).text = p.text ++ added before line c := by
  have hwrite (s : String) : (p.write s).text =
      p.text ++
        (if line.any Call.isWrite then s
          else margin (level (before ++ line)) ++ s) := by
    rw [Page.write, h.indented, h.depth, margin_eq_indentation]
  cases c with
  | write fragments =>
      rw [Call.stroke, Page.stroke, hwrite]
      simp [added, Call.isWrite, Call.fragments, feed, Call.endsLine]
  | writeln fragments =>
      have hfeed : feed [.writeln fragments] = "\n" := rfl
      rw [Call.stroke, Page.stroke, Page.writeln, added, isWrite_writeln, hfeed]
      by_cases hs : String.join fragments = ""
      · -- The line is only ended, with a line feed unless nothing has been
        -- written at all.
        rw [h.fresh, List.any_append]
        cases before.any Call.isWrite <;> cases line.any Call.isWrite <;>
          simp [hs, Page.endLine, Call.fragments]
      · rw [if_neg hs, Page.endLine, hwrite]
        simp [hs, Call.fragments, String.append_assoc]
  | push =>
      simp [Call.stroke, Page.stroke, Page.push, added, Call.isWrite,
        Call.fragments, feed,
      Call.endsLine]
  | pop =>
      simp [Call.stroke, Page.stroke, Page.pop, added, Call.isWrite,
        Call.fragments, feed,
      Call.endsLine]

theorem Holds.depth_stroke
    {done : String} {before line : List Call} {p : Page}
    (h : Holds done before line p)
    (c : Call) :
    (p.stroke c.stroke).depth = level (before ++ line ++ [c]) := by
  rw [level_append, ← h.depth]
  cases c with
  | write fragments => exact (Int.add_zero _).symm
  | writeln fragments =>
      refine Eq.trans ?_ (Int.add_zero _).symm
      simp only [Call.stroke, Page.stroke, Page.writeln]
      split
      · split <;> rfl
      · rfl
  | push => rfl
  | pop => rfl

theorem Holds.fresh_stroke
    {done : String} {before line : List Call} {p : Page}
    (h : Holds done before line p)
    (c : Call) :
    (p.stroke c.stroke).fresh = !(before ++ line ++ [c]).any Call.isWrite := by
  rw [List.any_append, Bool.not_or, ← h.fresh, List.any_cons, List.any_nil,
    Bool.or_false]
  cases c with
  | write fragments => exact (Bool.and_false _).symm
  | writeln fragments =>
      rw [isWrite_writeln, Call.stroke, Page.stroke, Page.writeln]
      by_cases hs : String.join fragments = ""
      · cases hfresh : p.fresh <;> simp [hs, Page.endLine, hfresh]
      · simp [hs, Page.endLine, Page.write]
  | push => exact (Bool.and_true _).symm
  | pop => exact (Bool.and_true _).symm

/-- A call within a line carries it on. -/
theorem Holds.step
    {done : String} {before line : List Call} {p : Page} {c : Call}
    (h : Holds done before line p)
    (hc : c.endsLine = false) :
    Holds done before (line ++ [c]) (p.stroke c.stroke) where
  open_line := by simp [List.any_append, h.open_line, hc]
  text := by
    rw [h.text_stroke, h.text, lineText_append h.open_line, String.append_assoc]
  depth := by rw [h.depth_stroke, List.append_assoc]
  indented := by
    rw [List.any_append, ← h.indented]
    cases c with
    | write fragments => exact (Bool.or_true _).symm
    | writeln fragments => contradiction
    | push => exact (Bool.or_false _).symm
    | pop => exact (Bool.or_false _).symm
  fresh := by rw [h.fresh_stroke, List.append_assoc]

/-- A call that ends a line starts the next one. -/
theorem Holds.next
    {done : String} {before line : List Call} {p : Page} {c : Call}
    (h : Holds done before line p)
    (hc : c.endsLine = true) :
    Holds (done ++ lineText before (line ++ [c])) (before ++ (line ++ [c])) []
      (p.stroke c.stroke) where
  open_line := rfl
  text := by
    rw [h.text_stroke, h.text, lineText_append h.open_line, lineText_nil,
      String.append_empty, String.append_assoc]
  depth := by rw [h.depth_stroke, List.append_nil, List.append_assoc]
  indented := by
    cases c with
    | writeln fragments =>
        simp only [Call.stroke, Page.stroke, Page.writeln]
        split
        · split <;> rfl
        · rfl
    | write fragments => contradiction
    | push => contradiction
    | pop => contradiction
  fresh := by rw [h.fresh_stroke, List.append_nil, List.append_assoc]

theorem holds_empty : Holds "" [] [] Page.empty := ⟨rfl, rfl, rfl, rfl, rfl⟩

/-!
## Whole runs
-/

theorem print_append
    (before : List Call)
    (lines lines' : List (List Call)) :
    print before (lines ++ lines') =
      print before lines ++ print (before ++ lines.flatten) lines' := by
  induction lines generalizing before with
  | nil => simp [print]
  | cons line lines ih => simp [print, ih, String.append_assoc]

/-- Calls carry a line on to its end, and then the lines that they are cut
into. -/
theorem Holds.run
    {done : String} {before line : List Call} {p : Page}
    (h : Holds done before line p)
    (calls : List Call) :
    exists lines last,
      (cut calls).modifyHead (line ++ ·) = lines ++ [last] ∧
        Holds (done ++ print before lines) (before ++ lines.flatten) last
          (p.draw (calls.map Call.stroke)) := by
  induction calls generalizing done before line p with
  | nil => exact ⟨[], line, by simp [cut], by simpa [print] using h⟩
  | cons c calls ih =>
      rw [List.map_cons, Page.draw_cons]
      cases hc : c.endsLine with
      | true =>
          obtain ⟨lines, last, hcut, hlast⟩ := ih (h.next hc)
          refine ⟨(line ++ [c]) :: lines, last, ?_, ?_⟩
          · have hid : (cut calls).modifyHead ([] ++ ·) = cut calls := by
              cases cut calls <;> rfl
            rw [hid] at hcut
            simp [cut, hc, hcut]
          · simpa [print, String.append_assoc] using hlast
      | false =>
          obtain ⟨lines, last, hcut, hlast⟩ := ih (h.step hc)
          refine ⟨lines, last, ?_, hlast⟩
          rw [← hcut, cut, hc, if_neg Bool.false_ne_true,
            List.modifyHead_modifyHead]
          congr 1
          funext rest
          simp

theorem holds_afterCalls
    (calls : List Call) :
    exists lines last,
      cut calls = lines ++ [last] ∧
        Holds (print [] lines) lines.flatten last (Page.afterCalls calls) := by
  obtain ⟨lines, last, hcut, hlast⟩ := holds_empty.run calls
  refine ⟨lines, last, ?_, by simpa [Page.afterCalls] using hlast⟩
  rw [← hcut]
  cases cut calls <;> rfl

theorem text_afterCalls
    (calls : List Call) :
    (Page.afterCalls calls).text = print [] (cut calls) := by
  obtain ⟨lines, last, hcut, hlast⟩ := holds_afterCalls calls
  rw [hlast.text, hcut, print_append]
  simp [print]

theorem indented_of_midLine
    {calls : List Call}
    (h : midLine calls = true) :
    (Page.afterCalls calls).indented = true := by
  obtain ⟨lines, last, hcut, hlast⟩ := holds_afterCalls calls
  rw [hlast.indented]
  simpa [midLine, hcut] using h

theorem cut_shape
    (calls : List Call) :
    exists lines last,
      cut calls = lines ++ [last] ∧
        lines.flatten ++ last = calls ∧
          (forall line, line ∈ lines -> exists body fragments,
            line = body ++ [.writeln fragments] ∧
              body.any Call.endsLine = false) ∧
            last.any Call.endsLine = false := by
  induction calls with
  | nil => exact ⟨[], [], rfl, rfl, by simp, rfl⟩
  | cons c calls ih =>
      obtain ⟨lines, last, hcut, hcalls, hlines, hlast⟩ := ih
      cases hc : c.endsLine with
      | true =>
          refine ⟨[c] :: lines, last,
            by simp [cut, hc, hcut], by simp [hcalls], ?_, hlast⟩
          intro line hline
          rcases List.mem_cons.mp hline with rfl | hline
          · cases c with
            | writeln fragments => exact ⟨[], fragments, rfl, rfl⟩
            | write fragments => contradiction
            | push => contradiction
            | pop => contradiction
          · exact hlines line hline
      | false =>
          cases lines with
          | nil =>
              refine ⟨[], c :: last,
                by simp [cut, hc, hcut], by simpa using hcalls, by simp, ?_⟩
              simp [hc, hlast]
          | cons line lines =>
              refine ⟨(c :: line) :: lines, last,
                by simp [cut, hc, hcut], by simpa using hcalls, ?_, hlast⟩
              intro line' hline'
              rcases List.mem_cons.mp hline' with rfl | hline'
              · obtain ⟨body, fragments, rfl, hbody⟩ :=
                  hlines line List.mem_cons_self
                exact ⟨c :: body, fragments, rfl, by simp [hc, hbody]⟩
              · exact hlines line' (List.mem_cons_of_mem _ hline')

/-!
## Writes in parts, and turns within a line
-/

theorem afterCalls_append
    (calls calls' : List Call) :
    Page.afterCalls (calls ++ calls') =
      (Page.afterCalls calls).draw (calls'.map Call.stroke) := by
  rw [Page.afterCalls, List.map_append, Page.draw_append, Page.afterCalls]

theorem write_append
    (s t : String)
    (p : Page) :
    p.write (s ++ t) = (p.write s).write t := by
  cases hindented : p.indented
    <;> simp [Page.write, hindented, String.append_assoc]

theorem draw_writes
    {parts : List (List String)}
    (h : parts ≠ [])
    (p : Page) :
    p.draw ((parts.map Call.write).map Call.stroke) =
      p.write (String.join parts.flatten) := by
  induction parts generalizing p with
  | nil => contradiction
  | cons part parts ih =>
      rw [List.map_cons, List.map_cons, Page.draw_cons, List.flatten_cons,
        String.join_append]
      cases parts with
      | nil => simp [Call.stroke, Page.stroke]
      | cons part' parts =>
          rw [ih (List.cons_ne_nil _ _), write_append]
          rfl

/-- Once the indentation of a line is written, it does not matter when the level
changes. -/
theorem stroke_turn
    {p : Page} {turn : Call}
    (h : p.indented = true)
    (hturn : turn = .push ∨ turn = .pop)
    (c : Call) :
    (p.stroke turn.stroke).stroke c.stroke =
      (p.stroke c.stroke).stroke turn.stroke := by
  obtain ⟨text, depth, indented, fresh⟩ := p
  cases h
  rcases hturn with rfl | rfl <;> cases c with
  | write fragments => rfl
  | writeln fragments =>
      simp only [Call.stroke, Page.stroke, Page.push, Page.pop, Page.writeln]
      split
      · cases fresh <;> rfl
      · rfl
  | push => simp [Call.stroke, Page.stroke, Page.push, Page.pop]
  | pop => simp [Call.stroke, Page.stroke, Page.push, Page.pop]

theorem draw_turn
    {p : Page} {turn : Call} {line : List Call}
    (h : p.indented = true)
    (hturn : turn = .push ∨ turn = .pop)
    (hopen : line.any Call.endsLine = false) :
    (p.stroke turn.stroke).draw (line.map Call.stroke) =
      (p.draw (line.map Call.stroke)).stroke turn.stroke ∧
        (p.draw (line.map Call.stroke)).indented = true := by
  induction line generalizing p with
  | nil => exact ⟨rfl, h⟩
  | cons c line ih =>
      rw [List.any_cons, Bool.or_eq_false_iff] at hopen
      have hc : (p.stroke c.stroke).indented = true := by
        cases c with
        | write fragments => rfl
        | writeln fragments => exact absurd hopen.1 (by simp [Call.endsLine])
        | push => exact h
        | pop => exact h
      simp only [List.map_cons, Page.draw_cons]
      rw [stroke_turn h hturn]
      exact ih hc hopen.2

/-- The calls are cut at the ends of lines, and the text is that of the lines:
each is indented by the level at its first write, and one without a write is a
line feed at most.  A write may be split into several, and a level that is
entered or left in the middle of a line is so from the next line on. -/
theorem prints_lines
    (calls : List Call) :
    (exists lines last,
      cut calls = lines ++ [last] ∧ lines.flatten ++ last = calls ∧
        (forall line, line ∈ lines -> exists body fragments,
          line = body ++ [.writeln fragments] ∧
            body.any Call.endsLine = false) ∧
        last.any Call.endsLine = false) ∧
    (Page.afterCalls calls).text = print [] (cut calls) ∧
    (forall (parts : List (List String)) (after : List Call), parts ≠ [] ->
      Page.afterCalls (calls ++ parts.map .write ++ after) =
        Page.afterCalls (calls ++ .write parts.flatten :: after)) ∧
    (midLine calls = true -> forall (turn : Call) (line : List Call),
      turn = .push ∨ turn = .pop -> line.any Call.endsLine = false ->
        (Page.afterCalls (calls ++ turn :: line)).text =
          (Page.afterCalls (calls ++ line)).text ∧
        forall (fragments : List String) (after : List Call),
          Page.afterCalls
            (calls ++ turn :: line ++ .writeln fragments :: after) =
            Page.afterCalls
              (calls ++ line ++ .writeln fragments :: turn :: after)) := by
  refine ⟨cut_shape calls, text_afterCalls calls, ?_, ?_⟩
  · intro parts after hparts
    rw [List.append_assoc, afterCalls_append, afterCalls_append,
      List.map_append, Page.draw_append, draw_writes hparts]
    rfl
  · intro hmid turn line hturn hopen
    have hdraw := draw_turn (indented_of_midLine hmid) hturn hopen
    constructor
    · rw [afterCalls_append, afterCalls_append, List.map_cons, Page.draw_cons,
        hdraw.1]
      rcases hturn with rfl | rfl <;> rfl
    · intro fragments after
      have hend := stroke_turn hdraw.2 hturn (.writeln fragments)
      simp only [afterCalls_append, List.map_cons, Page.draw_cons,
        hdraw.1, hend]

/-- A level is entered in the middle of the second line, and its first write is
in two parts, of which one is empty. -/
theorem prints_lines_turned :
    midLine [.writeln ["a"], .push, .write [""]] = true ∧
      (Page.afterCalls
        ([.writeln ["a"], .push, .write [""]] ++ .push :: [.write ["b\nc"]] ++
          .writeln [""] :: [.writeln [], .write ["d"]])).text =
        "a\n    b\nc\n\n        d" := by
  have hmid : midLine [.writeln ["a"], .push, .write [""]] = true := by decide
  refine ⟨hmid, ?_⟩
  rw [((prints_lines _).2.2.2 hmid .push [.write ["b\nc"]] (.inl rfl)
    (by decide)).2,
    (prints_lines _).2.1]
  decide +kernel

end LinePrinter
end Ambient
