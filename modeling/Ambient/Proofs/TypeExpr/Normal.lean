import Ambient.Proofs.TypeExpr.MadeOf
import Ambient.Proofs.TypeExpr.Scan
import Ambient.TypeExpr.Printer

/-!
# Normal forms of type expressions

Writing a type expression forgets how some types were spelled: the catch-alls,
the function type and nullable types become names and unions, arrays and
mappings lose their generic form.  What is left is the normal form of the
expression.  It is written in the same way as the expression itself.
-/

namespace Ambient
namespace TypeExpr

/-!
## Normal forms
-/

/-- A generic type in normal form, its arguments being so already. -/
def normalizeGeneric (base : String) (args : List TypeExpr) : TypeExpr :=
  let other := generic (renderName base) args
  match args with
  | [a] =>
      if isWordUpToCase "array" base then array a
      else if isWordUpToCase "object" base
        then record [.index "k" (name "string") a]
      else other
  | [a, b] => if isWordUpToCase "object" base then record [.index "k" a b]
      else other
  | _ => other

mutual

/-- The normal form of a type expression. -/
def normalize : TypeExpr -> TypeExpr
  | any => name "any"
  | name text => name (renderName text)
  | literal text => literal text
  | generic base args => normalizeGeneric base (normalizeAll args)
  | array element => array (normalize element)
  | union members => union (normalizeAll members)
  | nullable inner => union [normalize inner, name "null"]
  | function => name "Function"
  | record entries => record (normalizeEntries entries)

/-- The normal forms of several type expressions. -/
def normalizeAll : List TypeExpr -> List TypeExpr
  | [] => []
  | e :: es => normalize e :: normalizeAll es

/-- The normal forms of the entries of a record. -/
def normalizeEntries : List RecordEntry -> List RecordEntry
  | [] => []
  | entry :: entries => normalizeEntry entry :: normalizeEntries entries

/-- The normal form of an entry of a record: a key without a type has any
type. -/
def normalizeEntry : RecordEntry -> RecordEntry
  | .bare key optional => .field key optional (name "any")
  | .field key optional value => .field key optional (normalize value)
  | .index key keyType value => .index key (normalize keyType) (normalize value)

end

theorem length_normalizeAll (es : List TypeExpr) :
    (normalizeAll es).length = es.length := by
  induction es with
  | nil => rfl
  | cons e es ih => rw [normalizeAll, List.length_cons, List.length_cons, ih]

/-!
## Names
-/

theorem renderName_cases (text : String) :
    renderName text = "any" ∧ text = "mixed" ∨
      renderName text = "object" ∧ isWordUpToCase "object" text = true ∨
      renderName text = "Function" ∧ text = "function" ∨
      renderName text = text := by
  unfold renderName
  split
  · rename_i h
    exact Or.inl ⟨rfl, h⟩
  · split
    · rename_i h
      exact Or.inr (Or.inl ⟨rfl, h⟩)
    · split
      · rename_i h
        exact Or.inr (Or.inr (Or.inl ⟨rfl, h⟩))
      · exact Or.inr (Or.inr (Or.inr rfl))

@[simp] theorem renderName_renderName (text : String) :
    renderName (renderName text) = renderName text := by
  rcases renderName_cases text with ⟨h, _⟩ | ⟨h, _⟩ | ⟨h, _⟩ | h
  · rw [h]
    decide
  · rw [h]
    decide
  · rw [h]
    decide
  · rw [h, h]

@[simp] theorem isWordUpToCase_renderName_array (text : String) :
    isWordUpToCase "array" (renderName text) = isWordUpToCase "array" text := by
  rcases renderName_cases text with ⟨h, htext⟩ | ⟨h, htext⟩ | ⟨h, htext⟩ | h
  · rw [h, htext]
    decide
  · rw [h]
    have hlowered : lowered text = "object" := by
      simpa [isWordUpToCase] using htext
    rw [isWordUpToCase, isWordUpToCase, hlowered]
    decide
  · rw [h, htext]
    decide
  · rw [h]

@[simp] theorem isWordUpToCase_renderName_object (text : String) :
    isWordUpToCase "object" (renderName text) =
      isWordUpToCase "object" text := by
  rcases renderName_cases text with ⟨h, htext⟩ | ⟨h, htext⟩ | ⟨h, htext⟩ | h
  · rw [h, htext]
    decide
  · rw [h, htext]
    decide
  · rw [h, htext]
    decide
  · rw [h]

theorem renderGeneric_renderName (base : String) (args : List String) :
    renderGeneric (renderName base) args = renderGeneric base args := by
  simp only [renderGeneric, renderName_renderName,
    isWordUpToCase_renderName_array, isWordUpToCase_renderName_object]

/-!
## A normal form is written as the expression is
-/

theorem render_index_record (keyType value : TypeExpr) :
    render (record [.index "k" keyType value]) =
      renderMapping (render keyType) (render value) := by
  simp only [render, renderEntries, renderEntry, List.isEmpty_cons,
    Bool.false_eq_true, if_false, String.intercalate_singleton, renderMapping]
  simp only [String.append_assoc]
  rfl

theorem render_normalizeGeneric (base : String) (args : List TypeExpr) :
    render (normalizeGeneric base args) =
      renderGeneric base (renderAll args) := by
  have hother : render (generic (renderName base) args) =
      renderGeneric base (renderAll args) := by
    rw [render, renderGeneric_renderName]
  have hstring : render (name "string") = "string" := by decide
  unfold normalizeGeneric
  split
  · split
    · rename_i harray
      simp [render, renderAll, renderGeneric, harray]
    · split
      · rename_i harray hobject
        rw [render_index_record, hstring]
        simp [renderAll, renderGeneric, harray, hobject]
      · exact hother
  · split
    · rename_i hobject
      rw [render_index_record]
      simp [renderAll, renderGeneric, hobject]
    · exact hother
  · exact hother

theorem isEmpty_normalizeEntries (entries : List RecordEntry) :
    (normalizeEntries entries).isEmpty = entries.isEmpty := by
  cases entries <;> rfl

mutual

theorem render_normalize (e : TypeExpr) : render (normalize e) = render e := by
  cases e with
  | any => decide
  | name text => simp only [normalize, render, renderName_renderName]
  | literal text => rfl
  | generic base args =>
      rw [normalize, render_normalizeGeneric,
        renderAll_normalizeAll args, render]
  | array element => rw [normalize, render, render, render_normalize element]
  | union members =>
      rw [normalize, render, render, renderAll_normalizeAll members]
  | nullable inner =>
      have hnull : renderName "null" = "null" := by decide
      simp only [normalize, render, renderAll, render_normalize inner, hnull,
        String.intercalate_cons_cons, String.intercalate_singleton,
        String.append_assoc]
      rfl
  | function => decide
  | record entries =>
      rw [normalize, render, render, isEmpty_normalizeEntries,
        renderEntries_normalizeEntries entries]

theorem renderAll_normalizeAll (es : List TypeExpr) :
    renderAll (normalizeAll es) = renderAll es := by
  cases es with
  | nil => rfl
  | cons e es =>
      rw [normalizeAll, renderAll, renderAll, render_normalize e,
        renderAll_normalizeAll es]

theorem renderEntries_normalizeEntries (entries : List RecordEntry) :
    renderEntries (normalizeEntries entries) = renderEntries entries := by
  cases entries with
  | nil => rfl
  | cons entry entries =>
      rw [normalizeEntries, renderEntries, renderEntries,
        renderEntry_normalizeEntry entry,
        renderEntries_normalizeEntries entries]

theorem renderEntry_normalizeEntry (entry : RecordEntry) :
    renderEntry (normalizeEntry entry) = renderEntry entry := by
  cases entry with
  | bare key optional =>
      have hany : renderName "any" = "any" := by decide
      simp only [normalizeEntry, renderEntry, render, hany, String.append_assoc]
      rfl
  | field key optional value =>
      rw [normalizeEntry, renderEntry, renderEntry, render_normalize value]
  | index key keyType value =>
      rw [normalizeEntry, renderEntry, renderEntry, render_normalize keyType,
        render_normalize value]

end

/-!
## The shape of normal forms
-/

/-- Whether a generic type of this base and number of arguments is neither an
array nor a mapping. -/
def isPlainGeneric (base : String) (arity : Nat) : Bool :=
  !(arity == 1 &&
    (isWordUpToCase "array" base || isWordUpToCase "object" base)) &&
    !(arity == 2 && isWordUpToCase "object" base)

mutual

/-- A type expression in normal form, with valid tokens for its texts. -/
def Normal : TypeExpr -> Prop
  | any => False
  | name text => (Token.name text).Valid ∧ renderName text = text
  | literal text => (Token.quoted text).Valid ∨ (Token.number text).Valid
  | generic base args =>
      (Token.name base).Valid ∧ renderName base = base ∧
        isPlainGeneric base args.length = true ∧
        args ≠ [] ∧ AllNormal args
  | array element => Normal element
  | union members => 2 ≤ members.length ∧ AllNormal members
  | nullable _ => False
  | function => False
  | record entries => EntriesNormal entries

/-- Type expressions that all are in normal form. -/
def AllNormal : List TypeExpr -> Prop
  | [] => True
  | e :: es => Normal e ∧ AllNormal es

/-- Entries that all are in normal form. -/
def EntriesNormal : List RecordEntry -> Prop
  | [] => True
  | entry :: entries => EntryNormal entry ∧ EntriesNormal entries

/-- An entry of a record in normal form. -/
def EntryNormal : RecordEntry -> Prop
  | .bare _ _ => False
  | .field key _ value => KeyMadeOf Token.Valid key ∧ Normal value
  | .index key keyType value =>
      (Token.name key).Valid ∧ Normal keyType ∧ Normal value

end

theorem valid_name_of_nameLexeme?
    {text : String}
    (h : Token.nameLexeme? text.toList = some (text.toList, [])) :
    (Token.name text).Valid :=
  (Token.nameLexeme?_sound h).1

theorem valid_renderName
    {text : String}
    (h : (Token.name text).Valid) :
    (Token.name (renderName text)).Valid := by
  rcases renderName_cases text with ⟨htext, _⟩ | ⟨htext, _⟩ | ⟨htext, _⟩ | htext
  · rw [htext]
    exact valid_name_of_nameLexeme? (by decide)
  · rw [htext]
    exact valid_name_of_nameLexeme? (by decide)
  · rw [htext]
    exact valid_name_of_nameLexeme? (by decide)
  · rw [htext]
    exact h

theorem normal_name
    {text : String}
    (hname : Token.nameLexeme? text.toList = some (text.toList, []))
    (hrender : renderName text = text) :
    Normal (name text) :=
  ⟨valid_name_of_nameLexeme? hname, hrender⟩

theorem normal_normalizeGeneric
    {base : String} {args : List TypeExpr}
    (hbase : (Token.name base).Valid)
    (hne : args ≠ [])
    (hargs : AllNormal args) :
    Normal (normalizeGeneric base args) := by
  have hother : isPlainGeneric base args.length = true ->
      Normal (generic (renderName base) args) := by
    intro hplain
    refine ⟨valid_renderName hbase, renderName_renderName base, ?_, hne, hargs⟩
    simpa only [isPlainGeneric, isWordUpToCase_renderName_array,
      isWordUpToCase_renderName_object] using hplain
  unfold normalizeGeneric
  split
  · split
    · exact hargs.1
    · split
      · refine ⟨⟨valid_name_of_nameLexeme? (by decide), ?_, hargs.1⟩, trivial⟩
        exact normal_name (by decide) (by decide)
      · rename_i harray hobject
        exact hother (by simp [isPlainGeneric, harray, hobject])
  · split
    · exact ⟨⟨valid_name_of_nameLexeme? (by decide), hargs.1, hargs.2.1⟩,
        trivial⟩
    · rename_i hobject
      exact hother (by simp [isPlainGeneric, hobject])
  · rename_i hone htwo
    have hlength : args.length ≠ 1 ∧ args.length ≠ 2 := by
      refine ⟨fun h => ?_, fun h => ?_⟩
      · rcases List.length_eq_one_iff.mp h with ⟨a, rfl⟩
        exact hone a rfl
      · exact htwo _ _ (List.eq_getElem_of_length_eq_two args h)
    exact hother (by simp [isPlainGeneric, hlength.1, hlength.2])

mutual

theorem normal_normalize
    (e : TypeExpr)
    (h : MadeOf Token.Valid e) :
    Normal (normalize e) := by
  cases e with
  | any => exact normal_name (by decide) (by decide)
  | name text =>
      simp only [MadeOf] at h
      exact ⟨valid_renderName h, renderName_renderName text⟩
  | literal text => exact h
  | generic base args =>
      rcases h with ⟨hbase, hne, hargs⟩
      have hne' : normalizeAll args ≠ [] := by
        cases args with
        | nil => exact absurd rfl hne
        | cons a args => exact List.cons_ne_nil _ _
      exact normal_normalizeGeneric hbase hne'
        (allNormal_normalizeAll args hargs)
  | array element =>
      simp only [MadeOf] at h
      exact normal_normalize element h
  | union members =>
      rcases h with ⟨hlength, hmembers⟩
      refine ⟨?_, allNormal_normalizeAll members hmembers⟩
      rw [length_normalizeAll]
      exact hlength
  | nullable inner =>
      simp only [MadeOf] at h
      refine ⟨Nat.le_refl 2, normal_normalize inner h, ?_, trivial⟩
      exact normal_name (by decide) (by decide)
  | function => exact normal_name (by decide) (by decide)
  | record entries =>
      simp only [MadeOf] at h
      exact entriesNormal_normalizeEntries entries h

theorem allNormal_normalizeAll
    (es : List TypeExpr)
    (h : AllMadeOf Token.Valid es) :
    AllNormal (normalizeAll es) := by
  cases es with
  | nil => trivial
  | cons e es => exact ⟨normal_normalize e h.1, allNormal_normalizeAll es h.2⟩

theorem entriesNormal_normalizeEntries
    (entries : List RecordEntry)
    (h : EntriesMadeOf Token.Valid entries) :
    EntriesNormal (normalizeEntries entries) := by
  cases entries with
  | nil => trivial
  | cons entry entries =>
      exact ⟨entryNormal_normalizeEntry entry h.1,
        entriesNormal_normalizeEntries entries h.2⟩

theorem entryNormal_normalizeEntry
    (entry : RecordEntry)
    (h : EntryMadeOf Token.Valid entry) :
    EntryNormal (normalizeEntry entry) := by
  cases entry with
  | bare key optional => exact ⟨h, normal_name (by decide) (by decide)⟩
  | field key optional value => exact ⟨h.1, normal_normalize value h.2⟩
  | index key keyType value =>
      exact ⟨h.1, normal_normalize keyType h.2.1, normal_normalize value h.2.2⟩

end

end TypeExpr
end Ambient
