import Ambient.Proofs.TypeExpr.Normal
import Mathlib.Data.List.Forall2

/-!
# The tokens of written types

The text of a type expression in normal form is cut into the tokens that its
parts call for: each text of the tree is one token, and the brackets, bars,
commas and colons between them are marks.
-/

namespace Ambient
namespace TypeExpr

open Token (Reads Free isBoundary)

/-- The token of a literal or a key. -/
def wordOf (text : String) : Token :=
  match Token.wordToken? text.toList with
  | some (t, _) => t
  | none => .name text

mutual

/-- The tokens of the text of a type expression in normal form. -/
def spelling : TypeExpr -> List Token
  | name text => [.name text]
  | literal text => [wordOf text]
  | generic base args =>
      .name base :: .mark '<' ::
        ([.mark ','].intercalate (spellingAll args) ++ [.mark '>'])
  | array element => spelling element ++ [.mark '[', .mark ']']
  | union members =>
      .mark '(' ::
        ([.mark '|'].intercalate (spellingAll members) ++ [.mark ')'])
  | record entries =>
      .mark '{' ::
        ([.mark ','].intercalate (spellingEntries entries) ++ [.mark '}'])
  | any => []
  | nullable _ => []
  | function => []

/-- The tokens of several type expressions. -/
def spellingAll : List TypeExpr -> List (List Token)
  | [] => []
  | e :: es => spelling e :: spellingAll es

/-- The tokens of the entries of a record. -/
def spellingEntries : List RecordEntry -> List (List Token)
  | [] => []
  | entry :: entries => spellingEntry entry :: spellingEntries entries

/-- The tokens of an entry of a record. -/
def spellingEntry : RecordEntry -> List Token
  | .bare _ _ => []
  | .field key optional value =>
      wordOf key ::
        ((if optional then [.mark '?'] else []) ++ .mark ':' :: spelling value)
  | .index key keyType value =>
      .mark '[' :: .name key :: .mark ':' :: (spelling keyType ++
        .mark ']' :: .mark ':' :: spelling value)

end

/-!
## Words
-/

theorem wordOf_quoted
    {text : String}
    (h : (Token.quoted text).Valid) :
    wordOf text = .quoted text := by
  have hword := Token.wordToken?_quoted [] h
  rw [List.append_nil] at hword
  rw [wordOf, hword]

theorem wordOf_number
    {text : String}
    (h : (Token.number text).Valid) :
    wordOf text = .number text := by
  have hword := Token.wordToken?_number [] h rfl
  rw [List.append_nil] at hword
  rw [wordOf, hword]

theorem wordOf_name
    {text : String}
    (h : (Token.name text).Valid) :
    wordOf text = .name text := by
  have hword := Token.wordToken?_name [] h rfl
  rw [List.append_nil] at hword
  rw [wordOf, hword]

theorem wordOf_literal
    {text : String}
    (h : (Token.quoted text).Valid ∨ (Token.number text).Valid) :
    wordOf text = .quoted text ∧ (Token.quoted text).Valid ∨
      wordOf text = .number text ∧ (Token.number text).Valid := by
  rcases h with h | h
  · exact Or.inl ⟨wordOf_quoted h, h⟩
  · exact Or.inr ⟨wordOf_number h, h⟩

theorem wordOf_key
    {key : String}
    (h : KeyMadeOf Token.Valid key) :
    recordKey? (wordOf key) = some key ∧ Reads key.toList [wordOf key] := by
  rcases h with ⟨t, hkey, hvalid⟩
  cases t with
  | name text =>
      cases hkey
      rw [wordOf_name hvalid]
      exact ⟨rfl, Token.reads_name hvalid⟩
  | quoted text =>
      cases hkey
      rw [wordOf_quoted hvalid]
      exact ⟨rfl, Token.reads_quoted hvalid⟩
  | number text =>
      cases hkey
      rw [wordOf_number hvalid]
      exact ⟨rfl, Token.reads_number hvalid⟩
  | mark c => contradiction
  | ellipsis => contradiction
  | genericOpen => contradiction

/-!
## Separated texts
-/

theorem reads_intercalate
    {sep : List Char} {mark : Token} {css : List (List Char)}
    {tss : List (List Token)}
    (hsep : Free sep [mark])
    (hboundary : forall rest, isBoundary (sep ++ rest) = true)
    (h : List.Forall₂ Reads css tss) :
    Reads (sep.intercalate css) ([mark].intercalate tss) := by
  induction h with
  | nil => exact Token.free_nil.reads
  | @cons cs ts css tss hhead htail ih =>
      cases htail with
      | nil => simpa using hhead
      | cons hsecond hothers =>
          rw [List.intercalate_cons_cons, List.intercalate_cons_cons]
          have hfirst := hhead.append_free hsep hboundary
          exact hfirst.append_reads ih

theorem free_enclosed
    {opening inner closing : List Char} {ts us vs : List Token}
    (hopening : Free opening ts)
    (hinner : Reads inner us)
    (hclosing : Free closing vs)
    (hboundary : forall rest, isBoundary (closing ++ rest) = true) :
    Free (opening ++ (inner ++ closing)) (ts ++ (us ++ vs)) :=
  hopening.append (hinner.append_free hclosing hboundary)

theorem free_bar : Free "|".toList [.mark '|'] :=
  Token.free_mark (by decide)

theorem free_comma : Free ", ".toList [.mark ','] :=
  Token.free_cons_mark (by decide) (Token.free_blank (by decide))

theorem free_colon : Free ": ".toList [.mark ':'] :=
  Token.free_cons_mark (by decide) (Token.free_blank (by decide))

theorem free_brackets : Free "[]".toList [.mark '[', .mark ']'] :=
  Token.free_cons_mark (by decide) (Token.free_mark (by decide))

theorem isBoundary_bar (rest : List Char) :
    isBoundary ("|".toList ++ rest) = true := rfl

theorem isBoundary_comma (rest : List Char) :
    isBoundary (", ".toList ++ rest) = true := rfl

-- The blank after a colon keeps a key such as `module` apart from the name that
-- follows.
theorem isBoundary_colon (rest : List Char) :
    isBoundary (": ".toList ++ rest) = true := rfl

/-!
## Written types
-/

theorem renderGeneric_of_isPlainGeneric
    {base : String} {args : List String}
    (hbase : renderName base = base)
    (h : isPlainGeneric base args.length = true) :
    renderGeneric base args = base ++ "<" ++ ", ".intercalate args ++ ">" := by
  unfold renderGeneric
  split
  · have hnot : isWordUpToCase "array" base = false ∧
        isWordUpToCase "object" base = false := by
      simpa [isPlainGeneric] using h
    simp [hnot.1, hnot.2, hbase]
  · have hnot : isWordUpToCase "object" base = false := by
      simpa [isPlainGeneric] using h
    simp [hnot, hbase]
  · rw [hbase]

theorem length_renderAll (es : List TypeExpr) :
    (renderAll es).length = es.length := by
  induction es with
  | nil => rfl
  | cons e es ih => rw [renderAll, List.length_cons, List.length_cons, ih]

/-- The mark after an optional key. -/
theorem free_optional (optional : Bool) :
    Free ((if optional then "?" else "").toList ++ ": ".toList)
      ((if optional then [.mark '?'] else []) ++ [.mark ':']) := by
  cases optional with
  | false => exact free_colon
  | true => exact Token.free_cons_mark (by decide) free_colon

theorem isBoundary_optional (optional : Bool) (rest : List Char) :
    isBoundary ((if optional then "?" else "").toList ++ ": ".toList ++ rest) =
      true := by
  cases optional with
  | false => exact isBoundary_colon rest
  | true => rfl

mutual

theorem reads_render
    (e : TypeExpr)
    (h : Normal e) :
    Reads (render e).toList (spelling e) := by
  cases e with
  | any => exact h.elim
  | name text =>
      rw [render, h.2]
      exact Token.reads_name h.1
  | literal text =>
      rw [render, spelling]
      rcases wordOf_literal h with ⟨hword, hvalid⟩ | ⟨hword, hvalid⟩
      · rw [hword]
        exact Token.reads_quoted hvalid
      · rw [hword]
        exact Token.reads_number hvalid
  | generic base args =>
      rcases h with ⟨hvalid, hbase, hplain, hne, hargs⟩
      rw [← length_renderAll] at hplain
      have hinner :=
        reads_intercalate free_comma isBoundary_comma
          (reads_renderAll args hargs)
      have hargsText :=
        free_enclosed (Token.free_mark (c := '<') (by decide)) hinner
        (Token.free_mark (c := '>') (by decide)) (fun rest => rfl)
      have htext : (render (generic base args)).toList =
          base.toList ++ (['<'] ++
            (", ".toList.intercalate ((renderAll args).map String.toList) ++
              ['>'])) := by
        rw [render, renderGeneric_of_isPlainGeneric hbase hplain]
        simp [String.toList_append, String.toList_intercalate]
      rw [htext]
      exact ((Token.reads_name hvalid).append_free hargsText
        (fun rest => rfl)).reads
  | array element =>
      rw [render, String.toList_append, spelling]
      have helement := reads_render element (by simpa only [Normal] using h)
      exact (helement.append_free free_brackets (fun rest => rfl)).reads
  | union members =>
      have hinner :=
        reads_intercalate free_bar isBoundary_bar (reads_renderAll members h.2)
      have hall := free_enclosed (Token.free_mark (c := '(') (by decide)) hinner
        (Token.free_mark (c := ')') (by decide)) (fun rest => rfl)
      have htext : (render (union members)).toList =
          ['('] ++
            ("|".toList.intercalate ((renderAll members).map String.toList) ++
              [')']) := by
        simp [render, String.toList_append, String.toList_intercalate]
      rw [htext]
      exact hall.reads
  | nullable inner => exact h.elim
  | function => exact h.elim
  | record entries =>
      cases entries with
      | nil =>
          exact (Token.free_cons_mark (by decide)
            (Token.free_mark (by decide))).reads
      | cons entry entries =>
          have hinner := reads_intercalate free_comma isBoundary_comma
            (reads_renderEntries (entry :: entries)
              (by simpa only [Normal] using h))
          have hall := free_enclosed
            (Token.free_cons_mark (c := '{') (by decide)
              (Token.free_blank (c := ' ') (by decide)))
            hinner
            (Token.free_cons_blank (c := ' ') (by decide)
              (Token.free_mark (c := '}') (by decide)))
            (fun rest => rfl)
          have htext : (render (record (entry :: entries))).toList =
              ['{', ' '] ++ (", ".toList.intercalate
                ((renderEntries (entry :: entries)).map String.toList) ++
                  [' ', '}']) := by
            simp [render, String.toList_append, String.toList_intercalate]
          rw [htext]
          exact hall.reads

theorem reads_renderAll
    (es : List TypeExpr)
    (h : AllNormal es) :
    List.Forall₂ Reads ((renderAll es).map String.toList) (spellingAll es) := by
  cases es with
  | nil => exact List.Forall₂.nil
  | cons e es =>
      exact List.Forall₂.cons (reads_render e h.1) (reads_renderAll es h.2)

theorem reads_renderEntries
    (entries : List RecordEntry)
    (h : EntriesNormal entries) :
    List.Forall₂ Reads ((renderEntries entries).map String.toList)
      (spellingEntries entries) := by
  cases entries with
  | nil => exact List.Forall₂.nil
  | cons entry entries =>
      exact List.Forall₂.cons (reads_renderEntry entry h.1)
        (reads_renderEntries entries h.2)

theorem reads_renderEntry
    (entry : RecordEntry)
    (h : EntryNormal entry) :
    Reads (renderEntry entry).toList (spellingEntry entry) := by
  cases entry with
  | bare key optional => exact h.elim
  | field key optional value =>
      have hkey := (wordOf_key h.1).2.append_free (free_optional optional)
        (isBoundary_optional optional)
      have hall := hkey.append_reads (reads_render value h.2)
      simpa [renderEntry, spellingEntry, String.toList_append] using hall
  | index key keyType value =>
      have hkey := (Token.free_mark (c := '[') (by decide)).append
        ((Token.reads_name h.1).append_free free_colon isBoundary_colon)
      have hkeyType := (reads_render keyType h.2.1).append_free
        (Token.free_cons_mark (c := ']') (by decide) free_colon)
          (fun rest => rfl)
      have hall :=
        (hkey.append hkeyType).append_reads (reads_render value h.2.2)
      simpa [renderEntry, spellingEntry, String.toList_append] using hall

end

end TypeExpr
end Ambient
