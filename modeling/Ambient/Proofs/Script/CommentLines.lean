import Ambient.Document
import Ambient.Proofs.Script.Frame
import Ambient.Proofs.TypeExpr.Lossless
import Ambient.Proofs.Twin.Steady

/-!
# Comments line by line

A comment is cut into lines.  Each is written without the blanks around it, with
a star at its front moved under the slash above it; what is empty then is left
out.  The lines that are kept stand behind a blank line.  A blank line may be
asked for in place of a comment, and it is written if there is no comment.  If
there is one but no line of it is kept, nothing is written.
-/

namespace Ambient

namespace Text

/-!
## Lines
-/

/-- The lines of a text.  A line feed ends a line, together with a carriage
return before it. -/
inductive Broken : List Char -> List (List Char) -> Prop where
  | last {line}
      (hline : '\n' ∉ line) :
      Broken line [line]
  | feed {line rest lines}
      (hline : '\n' ∉ line)
      (hreturn : line.getLast? ≠ some '\r')
      (hrest : Broken rest lines) :
      Broken (line ++ '\n' :: rest) (line :: lines)
  | returnFeed {line rest lines}
      (hline : '\n' ∉ line)
      (hrest : Broken rest lines) :
      Broken (line ++ '\r' :: '\n' :: rest) (line :: lines)

/-- A character that is no part of a line break belongs to the first line. -/
theorem Broken.cons
    {c : Char} {rest line : List Char} {lines : List (List Char)}
    (hfeed : c ≠ '\n')
    (hreturn : ¬ (c = '\r' ∧ rest.head? = some '\n'))
    (h : Broken rest (line :: lines)) :
    Broken (c :: rest) ((c :: line) :: lines) := by
  have hnotMem {cs : List Char} (hcs : '\n' ∉ cs) : '\n' ∉ c :: cs := by
    rw [List.mem_cons, not_or]
    exact ⟨Ne.symm hfeed, hcs⟩
  cases h with
  | last hline => exact .last (hnotMem hline)
  | feed hline hlast hrest =>
      refine .feed (hnotMem hline) ?_ hrest
      cases line with
      | nil =>
          intro hc
          exact hreturn ⟨Option.some.inj hc, rfl⟩
      | cons d line => rwa [List.getLast?_cons_cons]
  | returnFeed hline hrest => exact .returnFeed (hnotMem hline) hrest

theorem splitLines_ne_nil (cs : List Char) : splitLines cs ≠ [] := by
  fun_cases splitLines cs <;> simp

theorem broken_splitLines (cs : List Char) : Broken cs (splitLines cs) := by
  fun_induction splitLines cs with
  | case1 => exact .last List.not_mem_nil
  | case2 rest ih => exact .feed List.not_mem_nil (by simp) ih
  | case3 rest ih => exact .returnFeed List.not_mem_nil ih
  | case4 c rest _ _ hnil _ => exact absurd hnil (splitLines_ne_nil rest)
  | case5 c rest hfeed hreturn line lines hlines ih =>
      rw [hlines] at ih
      refine .cons hfeed ?_ ih
      rintro ⟨rfl, hhead⟩
      cases rest with
      | nil => contradiction
      | cons d rest =>
          cases hhead
          exact hreturn rest rfl rfl

theorem splitLines_cons
    {c : Char} {rest line : List Char} {lines : List (List Char)}
    (hfeed : c ≠ '\n')
    (hreturn : ¬ (c = '\r' ∧ rest.head? = some '\n'))
    (h : splitLines rest = line :: lines) :
    splitLines (c :: rest) = (c :: line) :: lines := by
  rw [splitLines.eq_4 c rest hfeed, h]
  rintro tail rfl rfl
  exact hreturn ⟨rfl, rfl⟩

/-- A text without a line feed belongs to the first line of what follows it. -/
theorem splitLines_append
    {front rest line : List Char} {lines : List (List Char)}
    (hfeed : '\n' ∉ front)
    (hreturn : ¬ (front.getLast? = some '\r' ∧ rest.head? = some '\n'))
    (h : splitLines rest = line :: lines) :
    splitLines (front ++ rest) = (front ++ line) :: lines := by
  induction front with
  | nil => exact h
  | cons c front ih =>
      rw [List.mem_cons, not_or] at hfeed
      refine splitLines_cons (Ne.symm hfeed.1) ?_ (ih hfeed.2 ?_)
      · cases front with
        | nil => simpa using hreturn
        | cons d front =>
            rintro ⟨_, hhead⟩
            cases hhead
            exact hfeed.2 List.mem_cons_self
      · cases front with
        | nil => simp
        | cons d front => rwa [List.getLast?_cons_cons] at hreturn

/-- A text is broken into lines in exactly one way. -/
theorem broken_iff
    {cs : List Char} {lines : List (List Char)} :
    Broken cs lines ↔ splitLines cs = lines := by
  constructor
  · intro h
    induction h with
    | @last line hline =>
        have hsplit := splitLines_append hline (by simp) splitLines.eq_1
        rwa [List.append_nil] at hsplit
    | @feed line rest lines hline hreturn _ ih =>
        have hsplit : splitLines ('\n' :: rest) = [] :: lines := by
          rw [splitLines.eq_2, ih]
        have hwhole :=
          splitLines_append hline (fun hboth => hreturn hboth.1) hsplit
        rwa [List.append_nil] at hwhole
    | @returnFeed line rest lines hline _ ih =>
        have hsplit : splitLines ('\r' :: '\n' :: rest) = [] :: lines := by
          rw [splitLines.eq_3, ih]
        have hwhole := splitLines_append hline (by simp) hsplit
        rwa [List.append_nil] at hwhole
  · rintro rfl
    exact broken_splitLines cs

/-!
## Blanks around a line
-/

/-- A text and what is left of it without the blanks at its two ends. -/
structure Stripped (cs core : List Char) : Prop where
  blanks : exists front back, cs = front ++ core ++ back ∧ Blanks front ∧
    Blanks back
  head : forall c, core.head? = some c -> isBlank c = false
  getLast : forall c, core.getLast? = some c -> isBlank c = false

theorem isBlank_head_dropWhile
    {cs : List Char} {c : Char}
    (h : (cs.dropWhile isBlank).head? = some c) :
    isBlank c = false := by
  have hhead := List.head?_dropWhile_not isBlank cs
  rw [h] at hhead
  simpa using hhead

theorem stripped_stripChars (cs : List Char) : Stripped cs (stripChars cs) := by
  have hblanks (cs : List Char) : Blanks (cs.takeWhile isBlank) :=
    List.all_eq_true.mp List.all_takeWhile
  have hhead := fun c => @isBlank_head_dropWhile cs c
  have hfront : cs = cs.takeWhile isBlank ++ cs.dropWhile isBlank :=
    List.takeWhile_append_dropWhile.symm
  unfold stripChars
  generalize cs.dropWhile isBlank = tail at hhead hfront
  have hback : tail = (tail.reverse.dropWhile isBlank).reverse ++
      (tail.reverse.takeWhile isBlank).reverse := by
    rw [← List.reverse_append, List.takeWhile_append_dropWhile,
      List.reverse_reverse]
  constructor
  · refine ⟨cs.takeWhile isBlank, (tail.reverse.takeWhile isBlank).reverse, ?_,
      hblanks cs, ?_⟩
    · rw [List.append_assoc, ← hback]
      exact hfront
    · intro c hc
      exact hblanks tail.reverse c (List.mem_reverse.mp hc)
  · intro c hc
    refine hhead c ?_
    rw [hback, List.head?_append, hc]
    rfl
  · intro c hc
    rw [List.getLast?_reverse] at hc
    exact isBlank_head_dropWhile hc

theorem dropWhile_isBlank_append
    {front core : List Char}
    (hfront : Blanks front)
    (hcore : forall c, core.head? = some c -> isBlank c = false) :
    (front ++ core).dropWhile isBlank = core := by
  rw [List.dropWhile_append_of_pos hfront]
  cases core with
  | nil => rfl
  | cons c core => exact List.dropWhile_cons_of_neg (by simp [hcore c rfl])

/-- The blanks are stripped from a text in exactly one way. -/
theorem stripped_iff
    {cs core : List Char} :
    Stripped cs core ↔ stripChars cs = core := by
  constructor
  · rintro ⟨⟨front, back, rfl, hfront, hback⟩, hhead, hlast⟩
    have hback' : Blanks back.reverse :=
      fun c hc => hback c (List.mem_reverse.mp hc)
    have hlast' : forall c, core.reverse.head? = some c ->
        isBlank c = false := by
      intro c hc
      rw [List.head?_reverse] at hc
      exact hlast c hc
    unfold stripChars
    cases core with
    | nil =>
        have hall : Blanks (front ++ [] ++ back) := by
          intro c hc
          rw [List.append_nil, List.mem_append] at hc
          exact hc.elim (hfront c) (hback c)
        rw [← List.append_nil (front ++ [] ++ back),
          dropWhile_isBlank_append hall (by simp)]
        rfl
    | cons c core =>
        rw [List.append_assoc,
          dropWhile_isBlank_append hfront (by simpa using hhead),
          List.reverse_append, dropWhile_isBlank_append hback' hlast',
          List.reverse_reverse]
  · rintro rfl
    exact stripped_stripChars cs

end Text

/-!
## The lines of a comment
-/

namespace Page

/-- A line of a comment and how it is written. -/
def Reformats (raw line : List Char) : Prop :=
  exists core, Text.Stripped raw core ∧
    line = if core.head? = some '*' then ' ' :: core else core

theorem reformats_iff
    {raw line : List Char} :
    Reformats raw line ↔ commentLine raw = line := by
  have hline : commentLine raw =
      if (Text.stripChars raw).head? = some '*' then ' ' :: Text.stripChars raw
      else Text.stripChars raw := by
    unfold commentLine
    split
    · rename_i heq
      rw [heq]
      rfl
    · rename_i hstar
      rw [if_neg]
      intro hhead
      cases hcore : Text.stripChars raw with
      | nil =>
          rw [hcore] at hhead
          contradiction
      | cons c rest =>
          rw [hcore] at hhead
          cases hhead
          exact hstar rest hcore
  rw [hline]
  simp only [Reformats, Text.stripped_iff, exists_eq_left']
  exact eq_comm

/-- The lines that are written for a comment, given whether comments are written
at all. -/
inductive Keeps : Bool -> Value -> List String -> Prop where
  | off {comment} :
      Keeps false comment []
  | none {comments} :
      Keeps comments .null []
  | text {s raws lines}
      (hbroken : Text.Broken s.toList raws)
      (hlines : List.Forall₂ Reformats raws lines) :
      Keeps true (.str s) ((lines.filter (· ≠ [])).map String.ofList)

theorem forall₂_reformats_iff
    {raws lines : List (List Char)} :
    List.Forall₂ Reformats raws lines ↔ raws.map commentLine = lines := by
  have hrelation : Reformats = fun raw line => commentLine raw = line := by
    funext raw line
    exact propext reformats_iff
  have heq :=
    List.forall₂_map_left_iff (f := commentLine) (R := Eq) (l := raws)
      (u := lines)
  rw [List.forall₂_eq_eq_eq] at heq
  rw [hrelation, heq]

theorem keeps_text_iff
    {s : String} {lines : List String} :
    Keeps true (.str s) lines ↔ lines = commentLines s := by
  have hkept : commentLines s =
      (((Text.splitLines s.toList).map commentLine).filter (· ≠ [])).map
        String.ofList := by
    have hempty : ((fun line => line != "") ∘ String.ofList) = fun cs =>
        decide (cs ≠ []) := by
      funext cs
      cases cs <;> simp
    change (((Text.splitLines s.toList).map
      (String.ofList ∘ commentLine)).filter _) = _
    rw [← List.map_map, List.filter_map, hempty]
  constructor
  · intro h
    cases h with
    | text hbroken hlines =>
        rw [hkept, Text.broken_iff.mp hbroken, forall₂_reformats_iff.mp hlines]
  · rintro rfl
    rw [hkept]
    exact .text (Text.broken_splitLines _) (forall₂_reformats_iff.mpr rfl)

/-- The lines that are written for a comment are determined. -/
theorem keeps_iff
    {settings : Settings} {comment : Value} {lines : List String}
    (h : comment.isTextOrNull = true) :
    Keeps settings.comments comment lines ↔
      lines = Emit.commentLines settings comment := by
  cases hcomments : settings.comments with
  | false =>
      have hnone : Emit.commentLines settings comment = [] := by
        cases comment with
        | str s => simp [Emit.commentLines, hcomments]
        | _ => rfl
      rw [hnone]
      constructor
      · rintro ⟨⟩ <;> rfl
      · rintro rfl
        exact .off
  | true =>
      cases comment with
      | null =>
          constructor
          · rintro ⟨⟩
            rfl
          · rintro rfl
            exact .none
      | str s =>
          rw [keeps_text_iff, Emit.commentLines, hcomments]
          rfl
      | _ => contradiction

/-!
## What is written for a comment
-/

/-- A blank line, as it is written on a page: nothing if there is nothing before
it. -/
def blankLine (p : Page) : String := if p.fresh then "" else "\n"

/-- Lines on the level of a page. -/
def linesText (lines : List String) (p : Page) : String :=
  String.join (lines.map fun line => indentation p.depth ++ line ++ "\n")

theorem writeln_blank
    {p : Page}
    (h : p.indented = false) :
    p.writeln "" = { p with text := p.text ++ p.blankLine } := by
  unfold writeln blankLine
  cases hfresh : p.fresh with
  | true => simp [endLine, h, hfresh]
  | false => simp [endLine, h]

theorem writeln_line
    {p : Page} {line : String}
    (h : p.indented = false)
    (hline : line ≠ "") :
    p.writeln line =
      { p with text := p.text ++
        (indentation p.depth ++ line ++ "\n"), fresh := false } := by
  simp [writeln, write, endLine, h, hline, String.append_assoc]

theorem foldl_writeln
    {lines : List String} {p : Page}
    (hline : p.indented = false)
    (hlines : forall line, line ∈ lines -> line ≠ "") :
    lines.foldl (fun p line => p.writeln line) p =
      { p with
        text := p.text ++ p.linesText lines
        fresh := p.fresh && lines.isEmpty } := by
  induction lines generalizing p with
  | nil => simp [linesText]
  | cons line lines ih =>
      rw [List.forall_mem_cons] at hlines
      have hrest :=
        ih (p := p.writeln line) (by rw [writeln_line hline hlines.1, hline])
          hlines.2
      rw [List.foldl_cons, hrest, writeln_line hline hlines.1]
      simp [linesText, String.append_assoc]

theorem writeLines_eq
    {lines : List String} {p : Page}
    (hline : p.indented = false)
    (hlines : forall line, line ∈ lines -> line ≠ "")
    (hne : lines ≠ []) :
    p.writeLines lines =
      { p with text := p.text ++ p.blankLine ++
        p.linesText lines, fresh := false } := by
  have hfold :=
    foldl_writeln (p := p.writeln "")
      (by rw [writeln_blank hline, hline]) hlines
  cases lines with
  | nil => contradiction
  | cons line lines =>
      change (line :: lines).foldl (fun p line => p.writeln line)
        (p.writeln "") = _
      rw [hfold, writeln_blank hline]
      simp [linesText]

/-- A page that is fresh as long as nothing is written on it, or whose first
line has been begun. -/
def Started (p : Page) : Prop := p.Honest ∨ p.fresh = false ∧ p.indented = true

theorem Started.stroke
    {p : Page}
    (h : p.Started)
    (k : Stroke) :
    (p.stroke k).Started := by
  cases k with
  | write s => exact .inr ⟨rfl, rfl⟩
  | line s =>
      rcases h with h | ⟨hfresh, _⟩
      · exact .inl (h.writeln s)
      · by_cases hs : s = ""
        · left
          simp [Page.stroke, writeln, hs, hfresh, endLine, Honest]
        · exact .inl (marked_writeln hs).honest
  | push => exact h
  | pop => exact h

/-- On a page that has been written from the start, a blank line at the start of
a line is left out exactly when there is no text before it. -/
theorem blankLine_draw_empty
    {strokes : List Stroke}
    (h : (empty.draw strokes).indented = false) :
    (empty.draw strokes).blankLine =
      if (empty.draw strokes).text = "" then "" else "\n" := by
  have hstarted : (empty.draw strokes).Started :=
    List.foldlRecOn strokes _ (.inl ⟨fun _ => rfl, fun _ => rfl⟩)
      fun _ hp k _ => hp.stroke k
  rcases hstarted with hhonest | ⟨_, hindented⟩
  · simp only [blankLine, hhonest.symm]
  · rw [h] at hindented
    contradiction

theorem run_writeComment
    {settings : Settings} {comment : Value} {spacer : Bool} {p p' : Page}
    (h : p.writeComment settings.comments comment spacer = .ok p')
    {s : Session}
    (hs : s.page = p) :
    exists s', (Emit.writeComment settings comment spacer).run s = .ok () s' ∧
      s'.page = p' := by
  subst hs
  refine ⟨{ s.noteBreach
    (s.page.textBeforeHalf? (Emit.commentLines settings comment)) with
    page := p' }, ?_, rfl⟩
  change (Emit.lift (s.page.writeComment settings.comments comment spacer) >>=
    _).run _ = _
  rw [h]
  rfl

/-- What is written for a comment. -/
def commentText (settings : Settings) (comment : Value) (spacer : Bool)
    (p : Page) : String :=
  match Emit.commentLines settings comment with
  | [] =>
      if spacer && !(settings.comments && comment.truthy) then p.blankLine
      else ""
  | lines => p.blankLine ++ p.linesText lines

theorem ne_empty_of_mem_commentLines
    {settings : Settings} {comment : Value} {line : String}
    (h : line ∈ Emit.commentLines settings comment) :
    line ≠ "" := by
  unfold Emit.commentLines at h
  split at h
  · split at h
    · exact (oneLine_of_mem_commentLines h).2
    · contradiction
  · contradiction

theorem commentLines_of_missing
    {settings : Settings} {comment : Value}
    (h : (settings.comments && comment.truthy) = false) :
    Emit.commentLines settings comment = [] := by
  unfold Emit.commentLines
  split
  · split
    · rename_i s hcomments
      have hs : s = "" := by simpa [hcomments, Value.truthy] using h
      rw [hs]
      decide
    · rfl
  · rfl

theorem writeComment_eq_commentText
    (settings : Settings)
    (spacer : Bool)
    {comment : Value} {p : Page}
    (htext : comment.isTextOrNull = true)
    (hline : p.indented = false) :
    p.writeComment settings.comments comment spacer =
      .ok { p with
        text := p.text ++ commentText settings comment spacer p
        fresh := p.fresh && (Emit.commentLines settings comment).isEmpty } := by
  unfold commentText
  cases hwritten : settings.comments && comment.truthy with
  | false =>
      have hpage : p.writeComment settings.comments comment spacer =
          .ok (if spacer then p.writeln "" else p) := by
        unfold writeComment
        rw [Bool.and_comm, hwritten]
        rfl
      rw [hpage, commentLines_of_missing hwritten]
      cases spacer with
      | true => simp [writeln_blank hline]
      | false => simp
  | true =>
      have hboth := hwritten
      rw [Bool.and_eq_true] at hboth
      rcases Value.exists_eq_str htext hboth.2 with ⟨s, rfl⟩
      have hpage : p.writeComment settings.comments (.str s) spacer =
          .ok (p.writeLines (Emit.commentLines settings (.str s))) := by
        rw [writeComment, Bool.and_comm, hwritten, Emit.commentLines, hboth.1]
        rfl
      rw [hpage]
      cases hlines : Emit.commentLines settings (.str s) with
      | nil =>
          -- there is a comment, so the blank line is not written in its place
          simp [writeLines]
      | cons line lines =>
          rw [writeLines_eq hline
            (fun l hl => ne_empty_of_mem_commentLines (hlines ▸ hl))
            (List.cons_ne_nil line lines)]
          simp [String.append_assoc]

/-- A comment that is a text or missing is written as the lines that are kept of
it, behind a blank line.  If none is kept, a blank line is written where it is
asked for, but only if there is no comment to be written. -/
theorem writeComment_lines
    (settings : Settings)
    (spacer : Bool)
    {comment : Value} {p : Page}
    (htext : comment.isTextOrNull = true)
    (hline : p.indented = false) :
    exists lines written,
      let p' : Page :=
        { p with text := p.text ++ written, fresh := p.fresh && lines.isEmpty }
      (forall lines', Keeps settings.comments comment lines' ↔ lines' = lines) ∧
        p.writeComment settings.comments comment spacer = .ok p' ∧
        (forall s : Session, s.page = p -> exists s',
          (Emit.writeComment settings comment spacer).run s = .ok () s' ∧
            s'.page = p') ∧
        (lines ≠ [] -> written = p.blankLine ++ p.linesText lines) ∧
        (lines = [] -> settings.comments = false ∨ comment.truthy = false ->
          written = if spacer then p.blankLine else "") ∧
        (lines = [] -> settings.comments = true -> comment.truthy = true ->
          written = "") ∧
        (forall strokes, p = empty.draw strokes ->
          p.blankLine = if p.text = "" then "" else "\n") := by
  have hpage := writeComment_eq_commentText settings spacer htext hline
  refine ⟨Emit.commentLines settings comment,
    commentText settings comment spacer p, fun _ => keeps_iff htext, hpage,
    fun s hs =>
      run_writeComment hpage hs, ?_, ?_, ?_, ?_⟩
  · intro hne
    unfold commentText
    split
    · rename_i heq
      exact absurd heq hne
    · rfl
  · intro hnil hmissing
    rw [commentText, hnil]
    rcases hmissing with h | h <;> simp [h]
  · intro hnil hcomments htruthy
    rw [commentText, hnil, hcomments, htruthy]
    simp
  · rintro strokes rfl
    exact blankLine_draw_empty hline

theorem writeComment_lines_starred :
    let p := empty.draw [.line "x", .push]
    let comment : Value := .str "/**\r\n   * Does this.\n \t\n\t*/ "
    comment.isTextOrNull = true ∧ p.indented = false ∧
      Keeps true comment ["/**", " * Does this.", " */"] ∧
      exists p', p.writeComment true comment false = .ok p' ∧
        p'.text = "x\n\n    /**\n     * Does this.\n     */\n" := by
  intro p comment
  have hkeeps : Keeps true comment ["/**", " * Does this.", " */"] :=
    keeps_text_iff.mpr (by decide +kernel)
  have htext : comment.isTextOrNull = true := rfl
  have hline : p.indented = false := rfl
  refine ⟨htext, hline, hkeeps, ?_⟩
  rcases writeComment_lines ⟨true, none, true⟩ false htext hline with
    ⟨lines, written, hlines, hpage, _, hwritten, _⟩
  have heq := (hlines _).mp hkeeps
  subst heq
  refine ⟨_, hpage, ?_⟩
  rw [hwritten (by decide)]
  decide +kernel

/-- A namespace, and another one with a comment of two empty lines. -/
def blankComment : List Doclet :=
  [.plain "namespace" "A" none,
    { Doclet.plain "namespace" "B" none with comment := .str "\n" }]

/-- The blank line that is asked for is missing if there is a comment of which
nothing is kept: on a page, and between two namespaces. -/
theorem not_writeComment_spacer :
    let p := empty.draw [.line "x"]
    Keeps true (.str "\n") [] ∧ p.indented = false ∧ p.blankLine = "\n" ∧
      p.writeComment true .null true =
        .ok { p with text := p.text ++ p.blankLine } ∧
      p.writeComment true (.str "\n") true = .ok p ∧
      (Document.publish ⟨true, none, true⟩ blankComment).text =
        "namespace A \x7b\n\x7d\nnamespace B \x7b\n\x7d\n" := by
  intro p
  have hkeeps : Keeps true (.str "\n") [] :=
    keeps_text_iff.mpr (by decide +kernel)
  exact ⟨hkeeps, rfl, rfl, rfl, rfl, by decide +kernel⟩

end Page
end Ambient
