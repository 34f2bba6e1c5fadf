import Ambient.Proofs.Text.Line
import Ambient.Proofs.TypeExpr.RoundTrip

/-!
# The lines of type texts

A type text stands on one line when its annotation does, and it never ends in an
opening brace, however the annotation is malformed.
-/

namespace Ambient
namespace TypeExpr

open Text

/-- A token on one line. -/
def OnOneLine (t : Token) : Prop := OneLine t.text

theorem oneLine_renderName
    {name : String}
    (h : OneLine name) :
    OneLine (renderName name) := by
  unfold renderName
  repeat' split
  · decide
  · decide
  · decide
  · exact h

theorem oneLine_renderMapping
    {key value : String}
    (hkey : OneLine key)
    (hvalue : OneLine value) :
    OneLine (renderMapping key value) := by
  have hmarks : OneLine "\x7b [k: " ∧ OneLine "]: " ∧ OneLine " \x7d" := by
    decide
  simp [renderMapping, hkey, hvalue, hmarks]

theorem oneLine_renderGeneric
    {base : String} {args : List String}
    (hbase : OneLine base)
    (hargs : forall a, a ∈ args -> OneLine a) :
    OneLine (renderGeneric base args) := by
  have hmarks : OneLine "<" ∧ OneLine ">" ∧ OneLine "[]" := by decide
  have hother :
      OneLine (renderName base ++ "<" ++ ", ".intercalate args ++ ">") := by
    simp [oneLine_renderName hbase,
      oneLine_intercalate (by decide : OneLine ", ") hargs, hmarks]
  unfold renderGeneric
  split
  · rename_i a
    have ha := hargs a (by simp)
    split
    · simp [ha, hmarks]
    · split
      · exact oneLine_renderMapping (by decide) ha
      · exact hother
  · rename_i a b
    split
    · exact oneLine_renderMapping (hargs a (by simp)) (hargs b (by simp))
    · exact hother
  · exact hother

theorem KeyMadeOf.oneLine
    {key : String}
    (h : KeyMadeOf OnOneLine key) :
    OneLine key := by
  rcases h with ⟨t, hkey, ht⟩
  cases t <;> simp only [recordKey?, Option.some.injEq, reduceCtorEq] at hkey
  all_goals exact hkey ▸ ht

mutual

theorem oneLine_render
    (e : TypeExpr)
    (h : MadeOf OnOneLine e) :
    OneLine (render e) := by
  cases e with
  | any => decide
  | name text => exact oneLine_renderName h
  | literal text => exact h.elim id id
  | generic base args =>
      exact oneLine_renderGeneric h.1 (oneLine_renderAll args h.2.2)
  | array element =>
      simp [render, oneLine_render element (by simpa only [MadeOf] using h),
        (by decide : OneLine "[]")]
  | union members =>
      have hmarks : OneLine "(" ∧ OneLine ")" := by decide
      have hinner :=
        oneLine_intercalate (by decide : OneLine "|")
          (oneLine_renderAll members h.2)
      simp [render, hinner, hmarks]
  | nullable inner =>
      have hmarks : OneLine "(" ∧ OneLine "|null)" := by decide
      simp [render, oneLine_render inner (by simpa only [MadeOf] using h),
        hmarks]
  | function => decide
  | record entries =>
      have hmarks : OneLine "\x7b " ∧ OneLine " \x7d" ∧ OneLine "\x7b\x7d" := by
        decide
      have hinner := oneLine_intercalate (by decide : OneLine ", ")
        (oneLine_renderEntries entries (by simpa only [MadeOf] using h))
      rw [render]
      split
      · exact hmarks.2.2
      · simp [hinner, hmarks]

theorem oneLine_renderAll
    (es : List TypeExpr)
    (h : AllMadeOf OnOneLine es)
    (t : String)
    (ht : t ∈ renderAll es) :
    OneLine t := by
  cases es with
  | nil => contradiction
  | cons e es =>
      rcases List.mem_cons.mp ht with rfl | ht
      · exact oneLine_render e h.1
      · exact oneLine_renderAll es h.2 t ht

theorem oneLine_renderEntries
    (entries : List RecordEntry)
    (h : EntriesMadeOf OnOneLine entries)
    (t : String)
    (ht : t ∈ renderEntries entries) :
    OneLine t := by
  cases entries with
  | nil => contradiction
  | cons entry entries =>
      rcases List.mem_cons.mp ht with rfl | ht
      · exact oneLine_renderEntry entry h.1
      · exact oneLine_renderEntries entries h.2 t ht

theorem oneLine_renderEntry
    (entry : RecordEntry)
    (h : EntryMadeOf OnOneLine entry) :
    OneLine (renderEntry entry) := by
  have hmarks : OneLine "?" ∧ OneLine ": " ∧ OneLine ": any" ∧ OneLine "[" ∧
      OneLine "]: " := by
    decide
  cases entry with
  | bare key optional =>
      have hkey : OneLine key := KeyMadeOf.oneLine h
      cases optional <;> simp [renderEntry, hkey, hmarks]
  | field key optional value =>
      have hkey : OneLine key := KeyMadeOf.oneLine h.1
      cases optional
        <;> simp [renderEntry, hkey, oneLine_render value h.2, hmarks]
  | index key keyType value =>
      have hkey : OneLine key := h.1
      simp [renderEntry, hkey, oneLine_render keyType h.2.1,
        oneLine_render value h.2.2, hmarks]

end

/-!
## Resolved annotations
-/

theorem closed_render
    {e : TypeExpr}
    (hvalid : MadeOf Token.Valid e)
    (hline : MadeOf OnOneLine e) :
    Closed (render e) := by
  refine ⟨oneLine_render e hline, ?_⟩
  have hend := endsIn_render _ (normal_normalize e hvalid)
  rw [render_normalize] at hend
  rcases hend with ⟨front, c, heq, hc⟩
  rw [heq, List.getLast?_concat]
  intro hbrace
  rw [Option.some.inj hbrace] at hc
  exact absurd hc (by decide)

theorem exists_parseOrAny_of_oneLine
    {source : String}
    (h : OneLine source) :
    exists e, parseOrAny source = e ∧ MadeOf Token.Valid e ∧
      MadeOf OnOneLine e := by
  rcases exists_parseOrAny source fun t hvalid _ => hvalid with ⟨e, he, hvalid⟩
  rcases exists_parseOrAny (Q := OnOneLine) source fun t _ hchars hmem =>
    h (hchars _ hmem) with
    ⟨e', he', hline⟩
  rw [he] at he'
  exact ⟨e, he, hvalid, he' ▸ hline⟩

theorem exists_map_parseOrAny
    {sources : List String}
    (h : forall source, source ∈ sources -> OneLine source) :
    exists es, sources.map parseOrAny = es ∧ AllMadeOf Token.Valid es ∧
      AllMadeOf OnOneLine es := by
  induction sources with
  | nil => exact ⟨[], rfl, trivial, trivial⟩
  | cons source sources ih =>
      rcases exists_parseOrAny_of_oneLine (h source List.mem_cons_self) with
        ⟨e, he, hvalid, hline⟩
      rcases ih fun s hs =>
        h s (List.mem_cons_of_mem source hs) with ⟨es, hes, hvalids, hlines⟩
      exact ⟨e :: es,
        by rw [List.map_cons, he, hes], ⟨hvalid, hvalids⟩, hline, hlines⟩

theorem closed_resolveAll
    {sources : List String}
    (h : forall source, source ∈ sources -> OneLine source) :
    Closed (resolveAll sources) := by
  match sources with
  | [] => decide
  | [source] =>
      rcases exists_parseOrAny_of_oneLine (h source List.mem_cons_self) with
        ⟨e, he, hvalid, hline⟩
      rw [resolveAll, resolve, he]
      exact closed_render hvalid hline
  | source :: source' :: rest =>
      rcases exists_map_parseOrAny h with ⟨es, hes, hvalid, hline⟩
      have hlength : 2 ≤ es.length := by simp [← hes]
      rw [resolveAll.eq_3 _ (by simp) (by simp), hes]
      exact closed_render ⟨hlength, hvalid⟩ ⟨hlength, hline⟩

end TypeExpr
end Ambient
