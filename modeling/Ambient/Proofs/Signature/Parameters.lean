import Ambient.Proofs.Script.Stroke
import Ambient.Proofs.Twin.Steady
import Ambient.Proofs.Walk
import Mathlib.Data.List.Induction

/-!
# The parameters of a signature

A parameter may be described several times: by itself, or through a part of it,
under a dotted name. In a signature it stands once, where it is first mentioned.
Its type is what the last description says, and its flags are those of the last
description of the parameter itself.
-/

namespace Ambient

/-!
## Entries that are functions of their keys
-/

namespace Keyed

variable {α : Type} {g : String -> α} {keys : List String}

theorem get?_map
    (key : String) :
    get? key (keys.map fun k => (k, g k)) =
      if key ∈ keys then some (g key) else none := by
  induction keys with
  | nil => rfl
  | cons k keys ih =>
      by_cases h : k = key
      · simp [get?, h]
      · simp [get?, h, Ne.symm h, ih]

/-- A new key comes last; an old one keeps its place. -/
theorem put_map
    (h : keys.Nodup)
    (key : String)
    (value : α) :
    put key value (keys.map fun k => (k, g k)) =
      (if key ∈ keys then keys else keys ++ [key]).map fun k =>
        (k, if k = key then value else g k) := by
  induction keys with
  | nil => simp [put]
  | cons k keys ih =>
      rw [List.nodup_cons] at h
      by_cases hk : k = key
      · subst hk
        have hsame : forall other, other ∈ keys -> (other, g other) =
            (other, if other = k then value else g other) := by
          intro other hother
          rw [if_neg]
          rintro rfl
          exact h.1 hother
        simp [put, List.map_congr_left hsame]
      · have hrest := ih h.2
        by_cases hmem : key ∈ keys
        · simp_all [put]
        · simp_all [put, Ne.symm hk]

end Keyed

theorem eraseDups_concat
    (keys : List String)
    (key : String) :
    (keys ++ [key]).eraseDups =
      if key ∈ keys.eraseDups then keys.eraseDups
      else keys.eraseDups ++ [key] := by
  rw [List.eraseDups_append]
  by_cases h : key ∈ keys
  · simp [h, List.removeAll]
  · simp [h, List.removeAll, List.eraseDups_cons]

theorem nodup_eraseDups (keys : List String) : keys.eraseDups.Nodup := by
  induction keys using List.reverseRecOn with
  | nil => simp
  | append_singleton keys key ih =>
      rw [eraseDups_concat]
      split
      · exact ih
      · rename_i hnew
        refine List.nodup_append.mpr ⟨ih, List.pairwise_singleton _ key, ?_⟩
        rintro a ha b hb rfl
        exact hnew (List.mem_singleton.mp hb ▸ ha)

namespace Page

theorem write_write
    (s t : String)
    (p : Page) :
    (p.write s).write t = p.write (s ++ t) := by
  unfold write
  cases p.indented with
  | true => simp [String.append_assoc]
  | false => simp [String.append_assoc]

/-- Texts that are written one after the other are written as one. -/
theorem draw_map_write
    (s : String)
    (ts : List String)
    (p : Page) :
    p.draw ((s :: ts).map .write) = p.write (String.join (s :: ts)) := by
  induction ts generalizing s p with
  | nil => simp [stroke]
  | cons t ts ih =>
      rw [List.map_cons, draw_cons, ih, stroke, write_write]
      simp only [String.join_cons]

end Page

namespace Signature

/-!
## Names
-/

/-- Whether a name is that of a part of a parameter. -/
def isDotted (name : String) : Bool := name.toList.contains '.'

/-- The part of a name before its first dot. -/
def stem (name : String) : List Char := name.toList.takeWhile (· != '.')

/-- Whether a name is that of a part of the elements of a parameter. -/
def isBracketed (name : String) : Bool := ['[', ']'].isSuffixOf (stem name)

/-- The name of the parameter that is described under a name. -/
def rootOf (name : String) : String :=
  if isDotted name then
    String.ofList
      (if isBracketed name then (stem name).take ((stem name).length - 2)
        else stem name)
  else name

theorem rootOf_of_plain
    {name : String}
    (h : isDotted name = false) :
    rootOf name = name := by
  simp [rootOf, h]

theorem dropBrackets_eq
    (cs : List Char) :
    dropBrackets cs =
      if ['[', ']'].isSuffixOf cs then some (cs.take (cs.length - 2))
      else none := by
  rw [← List.reverse_reverse cs]
  generalize cs.reverse = rs
  unfold dropBrackets List.isSuffixOf
  rw [List.reverse_reverse]
  split
  · rename_i rest
    simp
  · rename_i hother
    rw [if_neg]
    intro hfront
    rw [List.isPrefixOf_iff_prefix] at hfront
    rcases hfront with ⟨rest, rfl⟩
    exact hother rest rfl

theorem dottedRoot?_eq
    (name : String) :
    dottedRoot? name =
      if isDotted name then some (rootOf name, isBracketed name) else none := by
  rcases Text.cutAt_eq '.' name.toList with ⟨hfront, hdotted⟩
  have hbrackets := dropBrackets_eq (stem name)
  unfold dottedRoot? rootOf isDotted isBracketed
  rw [← hdotted]
  unfold stem at hbrackets ⊢
  rw [← hfront] at hbrackets ⊢
  cases hcut : Text.cutAt '.' name.toList with
  | mk front back =>
      rw [hcut] at hbrackets
      cases back with
      | none => rfl
      | some back =>
          dsimp only at hbrackets ⊢
          rw [hbrackets]
          cases ['[', ']'].isSuffixOf front with
          | true => rfl
          | false => rfl

/-!
## The closed form
-/

/-- The text of a type that is a text or resolved from annotations. -/
def typeText (tsType : Value) (typeNames : List String) : String :=
  match tsType with
  | .str s => if s = "" then TypeExpr.resolveAll typeNames else s
  | _ => TypeExpr.resolveAll typeNames

/-- The type that a description gives to its parameter. -/
def describedType (f : Field) : String :=
  if isDotted f.name then
    if isBracketed f.name then mappingType ++ "[]" else mappingType
  else typeText f.tsType f.typeNames

/-- The text without one opening brace in front and one closing brace behind. -/
def unbraced (cs : List Char) : List Char :=
  let tail := if cs.head? = some '{' then cs.tail else cs
  if tail.getLast? = some '}' then tail.dropLast else tail

/-- The type of `this`. -/
def thisText : Value -> String
  | .str s => String.ofList (unbraced s.toList)
  | _ => ""

section

variable (thisType : Value) (fields : List Field) (root : String)

/-- The parameters in the order in which they are first mentioned, `this` before
all others. -/
def roots : List String :=
  ((if thisType.truthy then ["this"] else []) ++ fields.map fun f =>
    rootOf f.name).eraseDups

/-- The type of a parameter: that of its last description. -/
def rootType : String :=
  match (fields.filter fun f => rootOf f.name = root).getLast? with
  | some f => describedType f
  | none => thisText thisType

/-- The last description of a parameter itself, not of a part of it. -/
def lastPlain? : Option Field :=
  (fields.filter fun f => !isDotted f.name && f.name = root).getLast?

/-- A parameter as it stands in the signature. -/
def rootParam : Param where
  type := .str (rootType thisType fields root)
  variadic := (lastPlain? fields root).any Field.variadic
  optional := (lastPlain? fields root).any Field.optional

end

theorem typeOf_eq_typeText
    {tsType : Value}
    (h : tsType.isTextOrNull = true)
    (typeNames : List String) :
    typeOf tsType typeNames = .str (typeText tsType typeNames) := by
  cases tsType with
  | null => rfl
  | str s => by_cases hs : s = "" <;> simp [typeOf, typeText, Value.truthy, hs]
  | _ => contradiction

theorem bareThis_eq (s : String) :
    bareThis s = String.ofList (unbraced s.toList) := by
  have hfront (c : Char) (cs : List Char) :
      dropFront c cs = if cs.head? = some c then cs.tail else cs := by
    cases cs with
    | nil => rfl
    | cons d cs => simp [dropFront]
  unfold bareThis unbraced dropBack
  rw [hfront, hfront, List.head?_reverse, List.tail_reverse]
  split
  · split <;> simp [*]
  · split <;> simp [*]

theorem thisParams_eq
    {thisType : Value}
    (h : thisType.isTextOrNull = true) :
    thisParams thisType =
      .ok ((roots thisType []).map fun root =>
        (root, rootParam thisType [] root)) := by
  cases thisType with
  | null => rfl
  | str s =>
      unfold thisParams roots
      cases (Value.str s).truthy with
      | true =>
          simp [rootParam, rootType, lastPlain?, thisText, bareThis_eq,
            List.eraseDups_cons]
      | false => rfl
  | _ => contradiction

section

variable {thisType : Value} {fields : List Field} {f : Field}

theorem roots_concat :
    roots thisType (fields ++ [f]) =
      if rootOf f.name ∈ roots thisType fields then roots thisType fields
      else roots thisType fields ++ [rootOf f.name] := by
  unfold roots
  rw [List.map_append, List.map_singleton, ← List.append_assoc,
    eraseDups_concat]

theorem getLast?_filter_concat
    (P : Field -> Bool) :
    ((fields ++ [f]).filter P).getLast? =
      if P f then some f else (fields.filter P).getLast? := by
  rw [List.filter_append]
  by_cases h : P f = true
  · simp [h]
  · simp [h]

theorem rootType_concat
    (root : String) :
    rootType thisType (fields ++ [f]) root =
      if rootOf f.name = root then describedType f
      else rootType thisType fields root := by
  unfold rootType
  rw [getLast?_filter_concat]
  by_cases h : rootOf f.name = root
  · simp [h]
  · simp [h]

/-- One more description sets the type of its parameter, and the flags unless it
is of a part. -/
theorem rootParam_concat
    (root : String) :
    rootParam thisType (fields ++ [f]) root =
      if rootOf f.name = root then
        if isDotted f.name then
          { rootParam thisType fields root with type := .str (describedType f) }
        else ⟨.str (describedType f), f.variadic, f.optional⟩
      else rootParam thisType fields root := by
  have hplain : lastPlain? (fields ++ [f]) root =
      if !isDotted f.name && f.name = root then some f
      else lastPlain? fields root :=
    getLast?_filter_concat _
  unfold rootParam
  rw [rootType_concat, hplain]
  cases hdotted : isDotted f.name with
  | true => by_cases h : rootOf f.name = root <;> simp [h]
  | false =>
      rw [rootOf_of_plain hdotted]
      by_cases h : f.name = root <;> simp [h]

/-- A parameter that is not mentioned has no flags. -/
theorem rootParam_of_not_mem
    {root : String}
    (h : root ∉ roots thisType fields) :
    rootParam thisType fields root =
      ⟨.str (rootType thisType fields root), false, false⟩ := by
  have hnone : fields.filter (fun f => !isDotted f.name && f.name = root) =
      [] := by
    rw [List.filter_eq_nil_iff]
    intro f hf hplain
    rw [Bool.and_eq_true, Bool.not_eq_true', decide_eq_true_eq] at hplain
    apply h
    unfold roots
    rw [List.mem_eraseDups]
    refine List.mem_append_right _ (List.mem_map.mpr ⟨f, hf, ?_⟩)
    rw [rootOf_of_plain hplain.1, hplain.2]
  simp [rootParam, lastPlain?, hnone]

/-- One more description, put among the parameters so far. -/
theorem addParam_map
    (h : f.tsType.isTextOrNull = true) :
    addParam f ((roots thisType fields).map fun root =>
      (root, rootParam thisType fields root)) =
      (roots thisType (fields ++ [f])).map fun root =>
        (root, rootParam thisType (fields ++ [f]) root) := by
  have hput (param : Param)
      (hparam : rootParam thisType (fields ++ [f]) (rootOf f.name) = param) :
      Keyed.put (rootOf f.name) param
          ((roots thisType fields).map fun root =>
            (root, rootParam thisType fields root)) =
        (roots thisType (fields ++ [f])).map fun root =>
          (root, rootParam thisType (fields ++ [f]) root) := by
    have hnodup : (roots thisType fields).Nodup := nodup_eraseDups _
    rw [Keyed.put_map hnodup, ← roots_concat]
    refine List.map_congr_left fun root _ => ?_
    by_cases hroot : root = rootOf f.name
    · rw [if_pos hroot, hroot, hparam]
    · rw [if_neg hroot, rootParam_concat, if_neg (Ne.symm hroot)]
  unfold addParam
  rw [dottedRoot?_eq]
  cases hdotted : isDotted f.name with
  | false =>
      have hparam : rootParam thisType (fields ++ [f]) f.name = _ :=
        rootParam_concat f.name
      rw [rootOf_of_plain hdotted] at hput hparam
      refine hput _ (hparam.trans ?_)
      rw [if_pos rfl, hdotted, if_neg Bool.false_ne_true, Field.type,
        typeOf_eq_typeText h, describedType, hdotted]
      rfl
  | true =>
      refine hput _ ?_
      rw [rootParam_concat, if_pos rfl, hdotted, if_pos rfl, Keyed.get?_map]
      have htype : describedType f =
          if isBracketed f.name then mappingType ++ "[]"
          else mappingType := by
        rw [describedType, hdotted]
        rfl
      rw [htype]
      -- a part leaves the flags alone, and those of a new parameter are off
      by_cases hmem : rootOf f.name ∈ roots thisType fields
      · rw [if_pos hmem]
        rfl
      · rw [if_neg hmem, rootParam_of_not_mem hmem]
        rfl

theorem foldl_addParam
    (h : forall f, f ∈ fields -> f.tsType.isTextOrNull = true) :
    fields.foldl (fun params f => addParam f params)
        ((roots thisType []).map fun root =>
          (root, rootParam thisType [] root)) =
      (roots thisType fields).map fun root =>
        (root, rootParam thisType fields root) := by
  induction fields using List.reverseRecOn with
  | nil => rfl
  | append_singleton fields f ih =>
      rw [List.foldl_concat, ih fun g hg => h g (List.mem_append_left _ hg)]
      exact addParam_map (h f (List.mem_append_right _ List.mem_cons_self))

end

/-- The parameters of a doclet in closed form. -/
def closedForm (d : Doclet) : Keyed Param :=
  (roots d.thisType d.params).map fun root =>
    (root, rootParam d.thisType d.params root)

theorem performs_collect
    {d : Doclet}
    (hthis : d.thisType.isTextOrNull = true)
    (hparams : forall f, f ∈ d.params -> f.tsType.isTextOrNull = true) :
    Emit.Performs (collect d) [] (.ok (closedForm d)) := by
  have hlift := Emit.performs_lift (thisParams d.thisType)
  unfold collect closedForm
  rw [thisParams_eq hthis] at hlift ⊢
  rw [← foldl_addParam hparams]
  exact hlift.bind ((Emit.performs_report _).bind (Emit.performs_pure _))

/-!
## What is written
-/

/-- A parameter of some type as it is written. -/
def entryText (root type : String) (variadic optional : Bool) : String :=
  if variadic then
    "..." ++ root ++ ": " ++
      if type.toList.head? = some '(' then "any[]" else type ++ "[]"
  else root ++ (if optional then "?: " else ": ") ++ type

/-- The parameters of a doclet as they are written. -/
def entryTexts (d : Doclet) : List String :=
  (roots d.thisType d.params).map fun root =>
    entryText root (rootType d.thisType d.params root)
      ((lastPlain? d.params root).any Field.variadic)
      ((lastPlain? d.params root).any Field.optional)

/-- The return type of a doclet as it is written. -/
def returnText (d : Doclet) : String :=
  match d.returns with
  | [] => "void"
  | f :: _ =>
      let type := typeText f.tsType f.typeNames
      if type = "undefined" then "void" else type

/-- What a signature ends with. -/
def endText (d : Doclet) : Form -> String
  | .constructor => ""
  | .function => ": " ++ returnText d
  | .arrow => " => " ++ returnText d

/-- The text of a signature. -/
def text (d : Doclet) (form : Form) : String :=
  "(" ++ ", ".intercalate (entryTexts d) ++ ")" ++ endText d form

open Emit in
theorem performs_writeParam
    (root type : String)
    (variadic optional : Bool) :
    Performs (writeParam root ⟨.str type, variadic, optional⟩)
      [.write (entryText root type variadic optional)] (.ok ()) := by
  unfold writeParam entryText
  cases variadic with
  | true =>
      have htype := performs_lift (restType (.str type))
      have hwrite :=
        htype.bind (f := fun t => Emit.write ["...", root, ": ", t])
        (performs_write ["...", root, ": ", _])
      simpa [restType, String.append_assoc] using hwrite
  | false =>
      have htype : Performs (textOf (.str type)) [] (.ok type) :=
        performs_pure type
      have hwrite := htype.bind
        (f := fun t => Emit.write [root, if optional then "?: " else ": ", t])
        (performs_write [root, if optional then "?: " else ": ", type])
      simpa [String.append_assoc] using hwrite

theorem performs_writeParams
    {params : Keyed Param} {texts : List String}
    (h : List.Forall₂ (fun e text =>
      Emit.Performs (writeParam e.1 e.2) [.write text] (.ok ()))
      params texts) :
    Emit.Performs (writeParams params) ((texts.intersperse ", ").map .write)
      (.ok ()) := by
  induction h with
  | nil => exact Emit.performs_pure ()
  | @cons e text params texts hfirst hrest ih =>
      cases hrest with
      | nil => exact hfirst
      | cons hsecond hrest =>
          exact hfirst.bind ((Emit.performs_write [", "]).bind ih)

theorem performs_returnType
    {d : Doclet}
    (h : forall f, f ∈ d.returns -> f.tsType.isTextOrNull = true) :
    Emit.Performs (returnType d) [] (.ok (.str (returnText d))) := by
  unfold returnType returnText
  cases hreturns : d.returns with
  | nil => exact Emit.performs_pure _
  | cons f fs =>
      have htext :=
        typeOf_eq_typeText (h f (hreturns ▸ List.mem_cons_self)) f.typeNames
      have htype : Emit.Performs (Emit.typeOf f.tsType f.typeNames) []
          (.ok (.str (typeText f.tsType f.typeNames))) := by
        rw [← htext]
        exact (Emit.performs_report _).bind (Emit.performs_pure _)
      refine htype.bind ?_
      dsimp only
      generalize typeText f.tsType f.typeNames = type
      by_cases hundefined : type = "undefined"
      · subst hundefined
        exact Emit.performs_pure _
      · rw [if_neg hundefined]
        split
        · rename_i heq
          cases heq
          contradiction
        · exact Emit.performs_pure _

theorem join_intersperse
    (separator : String)
    (texts : List String) :
    String.join (texts.intersperse separator) =
      separator.intercalate texts := by
  induction texts with
  | nil => rfl
  | cons t texts ih =>
      cases texts with
      | nil => simp
      | cons u texts =>
          rw [List.intersperse_cons_cons, String.join_cons,
            String.join_cons, ih, String.intercalate_cons_cons,
            String.append_assoc]

/-- The strokes of a signature amount to writing its text. -/
theorem exists_performs_write
    {d : Doclet} (form : Form)
    (hthis : d.thisType.isTextOrNull = true)
    (hparams : forall f, f ∈ d.params -> f.tsType.isTextOrNull = true)
    (hreturns : forall f, f ∈ d.returns -> f.tsType.isTextOrNull = true) :
    exists strokes, Emit.Performs (write d form) strokes (.ok ()) ∧
      forall p : Page, p.draw strokes = p.write (text d form) := by
  have hentries : List.Forall₂
      (fun e text => Emit.Performs (writeParam e.1 e.2) [.write text] (.ok ()))
      (closedForm d) (entryTexts d) := by
    unfold closedForm entryTexts
    rw [List.forall₂_map_left_iff, List.forall₂_map_right_iff]
    exact List.forall₂_same.mpr fun root _ => performs_writeParam root _ _ _
  have hend : exists texts : List String, String.join texts = endText d form ∧
      Emit.Performs
        (match form with
        | .constructor => pure ()
        | .function => do
            let type ← Emit.textOf (← returnType d)
            Emit.write [": ", type]
        | .arrow => do
            let type ← Emit.textOf (← returnType d)
            Emit.write [" => ", type])
        (texts.map .write) (.ok ()) := by
    have hreturn (mark : String) :
        Emit.Performs
          (do
            let type ← Emit.textOf (← returnType d)
            Emit.write [mark, type])
          [.write (mark ++ returnText d)] (.ok ()) := by
      have htype : Emit.Performs (Emit.textOf (.str (returnText d))) []
          (.ok (returnText d)) :=
        Emit.performs_pure _
      have hwrite := htype.bind (f := fun type => Emit.write [mark, type])
        (Emit.performs_write [mark, returnText d])
      simpa using (performs_returnType hreturns).bind hwrite
    cases form with
    | constructor => exact ⟨[], rfl, Emit.performs_pure ()⟩
    | function => exact ⟨[_], by simp [endText], hreturn ": "⟩
    | arrow => exact ⟨[_], by simp [endText], hreturn " => "⟩
  rcases hend with ⟨texts, hjoin, hend⟩
  refine ⟨("(" :: ((entryTexts d).intersperse ", " ++ ")" :: texts)).map .write,
    ?_, ?_⟩
  · rw [List.map_cons, List.map_append, List.map_cons]
    refine (Emit.performs_write ["("]).bind
      ((performs_collect hthis hparams).bind ?_)
    exact (performs_writeParams hentries).bind
      ((Emit.performs_write [")"]).bind hend)
  · intro p
    rw [Page.draw_map_write]
    congr 1
    simp only [String.join_cons, String.join_append, join_intersperse,
      hjoin, text, String.append_assoc]

/-- The parameters of a signature are the roots of all descriptions in order,
each with the type of its last description and the flags of its last description
by itself.  The signature is written as these parameters between parentheses,
with the return type behind them. -/
theorem write_closedForm
    (d : Doclet)
    (form : Form)
    (hthis : d.thisType.isTextOrNull = true)
    (hparams : forall f, f ∈ d.params -> f.tsType.isTextOrNull = true)
    (hreturns : forall f, f ∈ d.returns -> f.tsType.isTextOrNull = true)
    (s : Session) :
    (exists s', (collect d).run s = .ok (closedForm d) s' ∧ s'.page = s.page) ∧
      exists s', (write d form).run s = .ok () s' ∧
        s'.page = s.page.write (text d form) := by
  rcases exists_performs_write form hthis hparams hreturns with
    ⟨strokes, hperforms, hdraw⟩
  constructor
  · rcases performs_collect hthis hparams s with ⟨s', hrun, hpage, _⟩
    exact ⟨s', hrun, hpage⟩
  · rcases hperforms s with ⟨s', hrun, hpage, _⟩
    exact ⟨s', hrun, hpage.trans (hdraw s.page)⟩

/-- A function of which a parameter is described before, after and only through
its parts. -/
def interleaved : Doclet :=
  { Doclet.plain "function" "f" none with
    thisType := .str "\x7bFoo\x7d"
    params :=
      [⟨"staff[].name", ["string"], .null, false, true, none, .null⟩,
        ⟨"options", ["Object"], .null, true, false, none, .null⟩,
        ⟨"options.deep", ["number"], .null, false, true, none, .null⟩,
        ⟨"rest", [], .str "Map<K, V>", true, true, none, .null⟩,
        ⟨"last[0].x", [], .null, false, false, none, .null⟩,
        ⟨"last[0]", ["?"], .null, false, false, none, .null⟩]
    returns := [⟨"", ["undefined"], .null, false, false, none, .null⟩] }

theorem write_closedForm_interleaved :
    interleaved.thisType.isTextOrNull = true ∧
      (forall f, f ∈ interleaved.params -> f.tsType.isTextOrNull = true) ∧
      (forall f, f ∈ interleaved.returns -> f.tsType.isTextOrNull = true) ∧
      exists s, (write interleaved .function).run Session.start = .ok () s ∧
        s.page = Page.empty.write
          ("(this: Foo, staff: " ++ mappingType ++ "[], options?: " ++
            mappingType ++ ", ...rest: Map<K, V>[], last[0]: any): void") := by
  have hparams : forall f, f ∈ interleaved.params ->
      f.tsType.isTextOrNull = true := by
    decide
  have hreturns : forall f, f ∈ interleaved.returns ->
      f.tsType.isTextOrNull = true := by
    decide
  rcases (write_closedForm interleaved .function rfl hparams hreturns
    Session.start).2 with
    ⟨s, hrun, hpage⟩
  refine ⟨rfl, hparams, hreturns, s, hrun, hpage.trans ?_⟩
  exact congrArg Page.empty.write (by decide +kernel)

end Signature
end Ambient
