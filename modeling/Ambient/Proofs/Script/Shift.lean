import Ambient.Proofs.Nesting.Cursor
import Ambient.Proofs.Script.Stroke

/-!
# One level to the right

The same strokes on two pages, one of which is a level deeper and has a text
before them, leave the same lines on both, with four more spaces before those
that are not empty.  A blank line at the front is written on the deeper page
only.
-/

namespace Ambient

open Text

/-!
## Texts one level to the right
-/

def shiftLine (line : List Char) : List Char :=
  if line.isEmpty then [] else [' ', ' ', ' ', ' '] ++ line

/-- A text with four spaces before each of its lines, apart from the empty
ones. -/
def shift (text : String) : String :=
  String.ofList (['\n'].intercalate ((text.toList.splitOn '\n').map shiftLine))

/-- A text of whole lines and a line after them. -/
def textOfLines (lines : List (List Char)) (line : List Char) : String :=
  String.ofList (lines.flatMap (· ++ ['\n']) ++ line)

theorem shift_textOfLines
    {lines : List (List Char)} {line : List Char}
    (hlines : forall l, l ∈ lines -> '\n' ∉ l)
    (hline : '\n' ∉ line) :
    shift (textOfLines lines line) =
      textOfLines (lines.map shiftLine) (shiftLine line) := by
  have hall : forall l, l ∈ lines ++ [line] -> '\n' ∉ l :=
    List.forall_mem_append.mpr ⟨hlines, List.forall_mem_singleton.mpr hline⟩
  have hsplit : (textOfLines lines line).toList.splitOn '\n' =
      lines ++ [line] := by
    rw [textOfLines, String.toList_ofList, ← Nesting.intercalate_eq_flatMap]
    exact List.splitOn_intercalate '\n' hall (by simp)
  rw [shift, hsplit, List.map_append, List.map_singleton,
    Nesting.intercalate_eq_flatMap, textOfLines]

example : shift "a \x7b\n\n    b\n\x7d\n" =
  "    a \x7b\n\n        b\n    \x7d\n" := by decide

theorem textOfLines_append
    (lines : List (List Char))
    (line : List Char)
    (s : String) :
    textOfLines lines line ++ s = textOfLines lines (line ++ s.toList) := by
  simp [textOfLines, ← String.toList_inj]

theorem textOfLines_break
    (lines : List (List Char))
    (line : List Char) :
    textOfLines lines line ++ "\n" = textOfLines (lines ++ [line]) [] := by
  simp [textOfLines, ← String.toList_inj]

theorem shiftLine_append
    {line : List Char}
    (h : line ≠ [])
    (cs : List Char) :
    shiftLine (line ++ cs) = shiftLine line ++ cs := by
  cases line with
  | nil => contradiction
  | cons c line => rfl

/-!
## Pages one level to the right
-/

theorem Page.text_write_more
    {p : Page}
    (h : p.indented = true)
    (s : String) :
    (p.write s).text = p.text ++ s := by
  simp [write, h]

theorem Page.text_write_first
    {p : Page}
    (h : p.indented = false)
    (s : String) :
    (p.write s).text = p.text ++ (indentation p.depth ++ s) := by
  simp [write, h]

/-- The same document on a page of its own and inside a module, where whole
lines and a line after them have been written.  The blank line `lead` is left
out on a page of its own. -/
structure Shifted (header : String) (pen : Pen) (bare wrapped : Page)
    (lead : String)
    (lines : List (List Char)) (line : List Char) : Prop where
  bare_under : bare.Under pen
  wrapped_under : wrapped.Under ⟨pen.level + 1, pen.mode⟩
  bare_text : bare.text = textOfLines lines line
  wrapped_text : wrapped.text =
    header ++ lead ++ textOfLines (lines.map shiftLine) (shiftLine line)
  lines_whole : forall l, l ∈ lines -> '\n' ∉ l
  line_whole : '\n' ∉ line
  line_eq_nil : line = [] ↔ pen.mode ≠ .begun
  lead_eq : lead = "" ∨ lead = "\n"
  wrapped_fresh : wrapped.fresh = false
  bare_fresh : bare.fresh = true ->
    lines = [] ∧ line = [] ∧ (pen.mode = .start -> lead = "")

namespace Shifted

variable {header lead : String} {n : Nat} {mode : Mode} {bare wrapped : Page}
  {lines : List (List Char)} {line : List Char}

theorem write_more
    {s : String}
    (h : Shifted header ⟨n, .begun⟩ bare wrapped lead lines line)
    (hs : OneLine s) :
    Shifted header ⟨n, .begun⟩ (bare.write s) (wrapped.write s) lead lines
      (line ++ s.toList) where
  bare_under := ⟨h.bare_under.1, rfl⟩
  wrapped_under := ⟨h.wrapped_under.1, rfl⟩
  bare_text := by
    rw [Page.text_write_more h.bare_under.2, h.bare_text, textOfLines_append]
  wrapped_text := by
    have hline : line ≠ [] := fun hnil => h.line_eq_nil.mp hnil rfl
    rw [Page.text_write_more h.wrapped_under.2, h.wrapped_text,
      shiftLine_append hline, ← textOfLines_append, String.append_assoc]
  lines_whole := h.lines_whole
  line_whole := fun hmem => (List.mem_append.mp hmem).elim h.line_whole hs
  line_eq_nil := by
    have hline : line ≠ [] := fun hnil => h.line_eq_nil.mp hnil rfl
    simp [hline]
  lead_eq := h.lead_eq
  wrapped_fresh := rfl
  bare_fresh := fun h => by contradiction

/-- A line that is begun has something on it, if only its indentation. -/
theorem indentation_append_ne_nil
    {s : String}
    (hs : s ≠ "" ∨ 0 < n) :
    (Page.indentation n).toList ++ s.toList ≠ [] := by
  intro hnil
  rcases List.append_eq_nil_iff.mp hnil with ⟨hblank, hnone⟩
  rcases hs with hs | hn
  · exact hs (String.toList_eq_nil_iff.mp hnone)
  · simp only [Page.indentation, String.toList_ofList,
      List.replicate_eq_nil_iff] at hblank
    omega

theorem toList_indentation_succ
    (n : Nat) :
    (Page.indentation (n + 1 : Nat)).toList =
      [' ', ' ', ' ', ' '] ++ (Page.indentation n).toList := by
  simp only [Page.indentation, String.toList_ofList, Int.toNat_natCast,
    Nat.mul_add, Nat.add_comm _ (4 * 1), ← List.replicate_append_replicate]
  rfl

theorem write_first
    {s : String}
    (h : Shifted header ⟨n, mode⟩ bare wrapped lead lines line)
    (hmode : mode ≠ .begun)
    (hline : OneLine s)
    (hs : s ≠ "" ∨ 0 < n) :
    Shifted header ⟨n, .begun⟩ (bare.write s) (wrapped.write s) lead lines
      ((Page.indentation n).toList ++ s.toList) where
  bare_under := ⟨h.bare_under.1, rfl⟩
  wrapped_under := ⟨h.wrapped_under.1, rfl⟩
  bare_text := by
    have hindented : bare.indented = false :=
      h.bare_under.2.trans (decide_eq_false hmode)
    rw [Page.text_write_first hindented, h.bare_text, h.line_eq_nil.mpr hmode,
      h.bare_under.1, textOfLines_append, String.toList_append, List.nil_append]
  wrapped_text := by
    have hindented : wrapped.indented = false :=
      h.wrapped_under.2.trans (decide_eq_false hmode)
    have hshift : shiftLine ((Page.indentation n).toList ++ s.toList) =
        (Page.indentation (n + 1 : Nat)).toList ++ s.toList := by
      rw [shiftLine, if_neg (by simpa using indentation_append_ne_nil hs),
        toList_indentation_succ, List.append_assoc]
    rw [Page.text_write_first hindented, h.wrapped_text,
      h.line_eq_nil.mpr hmode, h.wrapped_under.1, hshift,
      ← String.toList_append, String.append_assoc, textOfLines_append]
    rfl
  lines_whole := h.lines_whole
  line_whole := fun hmem =>
    (List.mem_append.mp hmem).elim (Nesting.oneLine_indentation n) hline
  line_eq_nil := by
    simpa using indentation_append_ne_nil hs
  lead_eq := h.lead_eq
  wrapped_fresh := rfl
  bare_fresh := fun h => by contradiction

theorem «break»
    {mode' : Mode}
    (h : Shifted header ⟨n, mode⟩ bare wrapped lead lines line)
    (hfresh : bare.fresh = false)
    (hmode : mode' ≠ .begun) :
    Shifted header ⟨n, mode'⟩ (bare.writeln "") (wrapped.writeln "") lead
      (lines ++ [line]) [] := by
  have hbare : bare.writeln "" =
      { bare with text := bare.text ++ "\n", indented := false } := by
    simp [Page.writeln, Page.endLine, hfresh]
  have hwrapped : wrapped.writeln "" =
      { wrapped with text := wrapped.text ++ "\n", indented := false } := by
    simp [Page.writeln, Page.endLine, h.wrapped_fresh]
  rw [hbare, hwrapped]
  constructor
  · exact ⟨h.bare_under.1, (decide_eq_false hmode).symm⟩
  · exact ⟨h.wrapped_under.1, (decide_eq_false hmode).symm⟩
  · rw [h.bare_text]
    exact textOfLines_break lines line
  · rw [h.wrapped_text, List.map_append]
    rw [String.append_assoc, textOfLines_break]
    rfl
  · exact List.forall_mem_append.mpr
      ⟨h.lines_whole, List.forall_mem_singleton.mpr h.line_whole⟩
  · exact List.not_mem_nil
  · simp [hmode]
  · exact h.lead_eq
  · exact h.wrapped_fresh
  · simp [hfresh]

theorem blank
    (h : Shifted header ⟨n, .start⟩ bare wrapped lead lines line)
    (hfresh : bare.fresh = true) :
    Shifted header ⟨n, .spaced⟩ (bare.writeln "") (wrapped.writeln "") "\n"
      lines line := by
  rcases h.bare_fresh hfresh with ⟨rfl, rfl, hlead⟩
  have hbare : bare.writeln "" = { bare with indented := false } := by
    simp [Page.writeln, Page.endLine, hfresh]
  have hwrapped : wrapped.writeln "" =
      { wrapped with text := wrapped.text ++ "\n", indented := false } := by
    simp [Page.writeln, Page.endLine, h.wrapped_fresh]
  rw [hbare, hwrapped]
  constructor
  · exact ⟨h.bare_under.1, rfl⟩
  · exact ⟨h.wrapped_under.1, rfl⟩
  · exact h.bare_text
  · rw [h.wrapped_text, hlead rfl]
    simp [textOfLines, shiftLine]
  · exact h.lines_whole
  · exact h.line_whole
  · simp
  · exact Or.inr rfl
  · exact h.wrapped_fresh
  · exact fun _ => ⟨rfl, rfl, fun h => by contradiction⟩

theorem push
    (h : Shifted header ⟨n, mode⟩ bare wrapped lead lines line) :
    Shifted header ⟨n + 1, mode⟩ bare.push wrapped.push lead lines line :=
  { h with
    bare_under := ⟨congrArg (· + 1) h.bare_under.1, h.bare_under.2⟩
    wrapped_under := ⟨congrArg (· + 1) h.wrapped_under.1, h.wrapped_under.2⟩ }

theorem pop
    (h : Shifted header ⟨n + 1, mode⟩ bare wrapped lead lines line) :
    Shifted header ⟨n, mode⟩ bare.pop wrapped.pop lead lines line :=
  { h with
    bare_under := ⟨by simp [Page.pop, h.bare_under.1], h.bare_under.2⟩
    wrapped_under :=
      ⟨by simp [Page.pop, h.wrapped_under.1], h.wrapped_under.2⟩ }

theorem write
    {s : String}
    (h : Shifted header ⟨n, mode⟩ bare wrapped lead lines line)
    (hline : OneLine s)
    (hs : s ≠ "" ∨ mode = .begun ∨ 0 < n) :
    exists line', Shifted header ⟨n, .begun⟩ (bare.write s) (wrapped.write s)
      lead lines line' := by
  by_cases hmode : mode = .begun
  · subst hmode
    exact ⟨_, h.write_more hline⟩
  · exact ⟨_, h.write_first hmode hline (hs.imp_right fun hrest =>
      hrest.resolve_left hmode)⟩

end Shifted

theorem Page.writeln_eq_write
    {s : String}
    (hs : s ≠ "")
    (p : Page) :
    p.writeln s = (p.write s).writeln "" := by
  cases hindented : p.indented <;>
    simp [writeln, write, endLine, hs, hindented, String.append_assoc]

theorem Moves.shifted
    {header lead : String} {pen pen' : Pen} {k : Stroke} {bare wrapped : Page}
    {lines : List (List Char)} {line : List Char}
    (h : Moves True pen k pen')
    (hpages : Shifted header pen bare wrapped lead lines line) :
    exists lead lines line,
      Shifted header pen' (bare.stroke k) (wrapped.stroke k) lead lines
        line := by
  cases h with
  | write hline hs =>
      rcases hpages.write (hline trivial) hs with ⟨line', hnext⟩
      exact ⟨lead, lines, line', hnext⟩
  | line hline hs =>
      rcases hpages.write (hline trivial) (Or.inl hs) with ⟨line', hnext⟩
      rw [Page.stroke, Page.writeln_eq_write hs, Page.writeln_eq_write hs]
      exact ⟨lead, _, _, hnext.break rfl (by decide)⟩
  | ending =>
      have hfresh : bare.fresh = false := by
        refine Bool.eq_false_iff.mpr fun hfresh => ?_
        exact hpages.line_eq_nil.mp (hpages.bare_fresh hfresh).2.1 rfl
      exact ⟨lead, _, _, hpages.break hfresh (by decide)⟩
  | blank =>
      -- The blank line at the front of a page of its own is left out, once at
      -- most.
      cases hfresh : bare.fresh with
      | true => exact ⟨_, _, _, hpages.blank hfresh⟩
      | false => exact ⟨lead, _, _, hpages.break hfresh (by decide)⟩
  | push => exact ⟨lead, lines, line, hpages.push⟩
  | pop => exact ⟨lead, lines, line, hpages.pop⟩

theorem Path.shifted
    {header lead : String} {pen pen' : Pen} {strokes : List Stroke}
    {bare wrapped : Page} {lines : List (List Char)} {line : List Char}
    (h : Path True pen strokes pen')
    (hpages : Shifted header pen bare wrapped lead lines line) :
    exists lead lines line,
      Shifted header pen' (bare.draw strokes) (wrapped.draw strokes) lead lines
        line := by
  induction h generalizing bare wrapped lead lines line with
  | nil => exact ⟨lead, lines, line, hpages⟩
  | cons hmove _ ih =>
      rcases hmove.shifted hpages with ⟨lead', lines', line', hnext⟩
      exact ih hnext

theorem shifted_start
    (header : String) :
    Shifted header ⟨0, .start⟩ Page.empty ⟨header, 1, false, false⟩ "" []
      [] := by
  constructor
  · exact ⟨rfl, rfl⟩
  · exact ⟨rfl, rfl⟩
  · rfl
  · simp [textOfLines, shiftLine]
  · exact List.forall_mem_nil _
  · exact List.not_mem_nil
  · simp
  · exact Or.inl rfl
  · rfl
  · exact fun _ => ⟨rfl, rfl, fun _ => rfl⟩

theorem Shifted.text
    {header lead : String} {pen : Pen} {bare wrapped : Page}
    {lines : List (List Char)} {line : List Char}
    (h : Shifted header pen bare wrapped lead lines line) :
    wrapped.text = header ++ (lead ++ shift bare.text) := by
  rw [h.wrapped_text, h.bare_text, shift_textOfLines h.lines_whole h.line_whole,
    String.append_assoc]

end Ambient
