import Ambient.Page
import Ambient.Proofs.Text.Line

/-!
# Nesting of lines

A line that ends in an opening brace opens a block, and a line with nothing but
a closing brace, or one with a semicolon, closes a block.  Reading a text line
by line with a stack of indentations, its blocks are balanced when every closing
line is indented like the line that opened its block, and no block is open at
the end.
-/

namespace Ambient
namespace Nesting

/-!
## Reading lines
-/

/-- The number of spaces before the first other character of a line. -/
def leading (line : List Char) : Nat := (line.takeWhile (· == ' ')).length

/-- A line without the spaces at its two ends. -/
def trimmed (line : List Char) : List Char :=
  ((line.dropWhile (· == ' ')).reverse.dropWhile (· == ' ')).reverse

/-- Whether a line opens a block. -/
def opens (line : List Char) : Bool := line.getLast? == some '{'

/-- Whether a line closes a block. -/
def closes (line : List Char) : Bool :=
  trimmed line == ['}'] || trimmed line == ['}', ';']

/-- A line that neither opens nor closes a block. -/
def Harmless (line : List Char) : Prop :=
  opens line = false ∧ closes line = false

instance (line : List Char) : Decidable (Harmless line) :=
  inferInstanceAs (Decidable (_ ∧ _))

/-- The stack of indentations after a line.  There is none after a closing line
for which no block is open, or whose block has been opened at another
indentation. -/
def readLine (stack : List Nat) (line : List Char) : Option (List Nat) :=
  if opens line then some (leading line :: stack)
  else if closes line then
    match stack with
    | [] => none
    | top :: rest => if top = leading line then some rest else none
  else some stack

/-- Whether the blocks of a text are balanced. -/
def Balanced (text : String) : Prop :=
  (text.toList.splitOn '\n').foldlM readLine [] = some []

instance (text : String) : Decidable (Balanced text) :=
  inferInstanceAs (Decidable (_ = _))

/-!
## Texts in the making
-/

/-- Reading the whole lines of a text gives `stack`, and `line` is what comes
after them. -/
def Read (text : String) (stack : List Nat) (line : List Char) : Prop :=
  exists lines : List (List Char),
    text.toList = lines.flatMap (· ++ ['\n']) ++ line ∧
      (forall l, l ∈ lines -> '\n' ∉ l) ∧
      '\n' ∉ line ∧ lines.foldlM readLine [] = some stack

theorem read_empty : Read "" [] [] := ⟨[], by simp, by simp, by simp, rfl⟩

theorem Read.append
    {text s : String} {stack : List Nat} {line : List Char}
    (h : Read text stack line)
    (hs : Text.OneLine s) :
    Read (text ++ s) stack (line ++ s.toList) := by
  rcases h with ⟨lines, htext, hlines, hline, hread⟩
  refine ⟨lines, by simp [htext], hlines, ?_, hread⟩
  rw [List.mem_append, not_or]
  exact ⟨hline, hs⟩

theorem Read.break
    {text : String} {stack stack' : List Nat} {line : List Char}
    (h : Read text stack line)
    (hnext : readLine stack line = some stack') :
    Read (text ++ "\n") stack' [] := by
  rcases h with ⟨lines, htext, hlines, hline, hread⟩
  refine ⟨lines ++ [line], by simp [htext], ?_, List.not_mem_nil, ?_⟩
  · intro l hl
    rcases List.mem_append.mp hl with hl | hl
    · exact hlines l hl
    · rwa [List.mem_singleton.mp hl]
  · rw [List.foldlM_append, hread]
    simpa using hnext

theorem intercalate_eq_flatMap
    (lines : List (List Char))
    (line : List Char) :
    ['\n'].intercalate (lines ++ [line]) =
      lines.flatMap (· ++ ['\n']) ++ line := by
  induction lines with
  | nil => simp
  | cons l lines ih =>
      rw [List.cons_append, List.flatMap_cons, List.append_assoc, ← ih]
      cases lines <;> simp [List.intercalate_cons_cons]

theorem Read.balanced
    {text : String}
    (h : Read text [] []) :
    Balanced text := by
  rcases h with ⟨lines, htext, hlines, _, hread⟩
  rw [← intercalate_eq_flatMap] at htext
  have hsplit : text.toList.splitOn '\n' = lines ++ [[]] := by
    rw [htext]
    refine List.splitOn_intercalate '\n' ?_ (by simp)
    intro l hl
    rcases List.mem_append.mp hl with hl | hl
    · exact hlines l hl
    · simp [List.mem_singleton.mp hl]
  rw [Balanced, hsplit, List.foldlM_append, hread]
  rfl

/-!
## Indented lines
-/

/-- The characters of an indentation. -/
def spaces (n : Nat) : List Char := List.replicate n ' '

theorem leading_spaces
    (n : Nat)
    {c : Char} {cs : List Char}
    (hc : c ≠ ' ') :
    leading (spaces n ++ c :: cs) = n := by
  unfold leading spaces
  induction n with
  | zero => simp [hc]
  | succ n ih => simpa [List.replicate_succ] using ih

theorem trimmed_spaces
    (n : Nat)
    (cs : List Char) :
    trimmed (spaces n ++ cs) = trimmed cs := by
  unfold trimmed spaces
  induction n with
  | zero => rfl
  | succ n ih =>
      rw [List.replicate_succ, List.cons_append,
        List.dropWhile_cons_of_pos (by rfl)]
      exact ih

theorem mem_dropWhile
    {p : Char -> Bool} {c : Char} {cs : List Char}
    (h : c ∈ cs)
    (hc : p c = false) :
    c ∈ cs.dropWhile p := by
  induction cs with
  | nil => contradiction
  | cons d cs ih =>
      rw [List.dropWhile_cons]
      split
      · rename_i hd
        rcases List.mem_cons.mp h with rfl | hmem
        · rw [hc] at hd
          contradiction
        · exact ih hmem
      · exact h

/-- A line that closes a block has no characters besides braces, semicolons and
spaces. -/
theorem mem_of_closes
    {line : List Char} {c : Char}
    (h : closes line = true)
    (hc : c ∈ line) :
    c ∈ [' ', '}', ';'] := by
  by_cases hspace : c = ' '
  · simp [hspace]
  · have hfront := mem_dropWhile (p := (· == ' ')) hc (by simpa using hspace)
    have hboth := mem_dropWhile (p := (· == ' ')) (List.mem_reverse.mpr hfront)
      (by simpa using hspace)
    have htrimmed : c ∈ trimmed line := List.mem_reverse.mpr hboth
    simp only [closes, Bool.or_eq_true, beq_iff_eq] at h
    rcases h with h | h
    · rw [h] at htrimmed
      simp_all
    · rw [h] at htrimmed
      simp_all

@[simp] theorem opens_singleton (c : Char) : opens [c] = (c == '{') := by
  simp [opens]

@[simp] theorem opens_append
    (cs : List Char)
    {ds : List Char}
    (h : ds ≠ []) :
    opens (cs ++ ds) = opens ds := by
  unfold opens
  rw [List.getLast?_append]
  cases hlast : ds.getLast? with
  | none => exact absurd (List.getLast?_eq_none_iff.mp hlast) h
  | some c => rfl

@[simp] theorem opens_cons
    (c : Char)
    {cs : List Char}
    (h : cs ≠ []) :
    opens (c :: cs) = opens cs :=
  opens_append [c] h

theorem opens_spaces
    (n : Nat)
    (cs : List Char) :
    opens (spaces n ++ cs) = opens cs := by
  unfold opens spaces
  rw [List.getLast?_append]
  cases cs.getLast? with
  | none => simp [List.getLast?_replicate]
  | some c => rfl

theorem closes_spaces
    (n : Nat)
    (cs : List Char) :
    closes (spaces n ++ cs) = closes cs := by
  simp only [closes, trimmed_spaces]

theorem readLine_plain
    {stack : List Nat} {line : List Char}
    (n : Nat)
    (hopen : opens line = false)
    (hclose : closes line = false) :
    readLine stack (spaces n ++ line) = some stack := by
  simp [readLine, opens_spaces, closes_spaces, hopen, hclose]

theorem readLine_opens
    {stack : List Nat} {c : Char} {cs : List Char}
    (n : Nat)
    (hc : c ≠ ' ')
    (hopen : opens (c :: cs) = true) :
    readLine stack (spaces n ++ c :: cs) = some (n :: stack) := by
  simp [readLine, hopen, leading_spaces n hc]

theorem readLine_closes
    {stack : List Nat} {line : List Char}
    (n : Nat)
    (hline : line = ['}'] ∨ line = ['}', ';']) :
    readLine (n :: stack) (spaces n ++ line) = some stack := by
  rcases hline with rfl | rfl
  · have hkind : opens ['}'] = false ∧ closes ['}'] = true := by decide
    simp [readLine, closes_spaces, hkind, leading_spaces]
  · have hkind : opens ['}', ';'] = false ∧ closes ['}', ';'] = true := by
      decide
    simp [readLine, closes_spaces, hkind, leading_spaces]

end Nesting
end Ambient
