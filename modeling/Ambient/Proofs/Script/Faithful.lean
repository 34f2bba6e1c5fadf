import Ambient.Proofs.Script.Course

/-!
# Changes that do not show

Some changes of the doclets do not show in a document if the settings are
changed along with them. Each piece is then written as before, and a declaration
has the same pieces as before, up to the change.
-/

namespace Ambient

open Emit Declaration

/-- A piece of a changed doclet. -/
def Piece.map (f : Doclet -> Doclet) : Piece -> Piece
  | field d => field (f d)
  | method d => method (f d)
  | binding d => binding (f d)
  | function d => function (f d)
  | enumeration d => enumeration (f d)
  | typeAlias d => typeAlias (f d)
  | shape d => shape (f d)
  | openClass d => openClass (f d)
  | closeClass => closeClass
  | openSpace d => openSpace (f d)
  | openCompanion d => openCompanion (f d)
  | closeSpace => closeSpace

theorem Piece.map_id (k : Piece) : k.map id = k := by
  cases k <;> rfl

/-- A change that leaves the flag for optional symbols and the annotations alone
does not interfere with settling. -/
theorem Doclet.settle_comm
    (f : Doclet -> Doclet)
    (hoptional : forall d, (f d).optional = d.optional)
    (htypeNames : forall d, (f d).typeNames = d.typeNames)
    (hsettled : forall d kept,
      { f d with optional := true, typeNames := kept } =
      f { d with optional := true, typeNames := kept })
    (d : Doclet) :
    (f d).settle = f d.settle := by
  unfold settle
  rw [hoptional, htypeNames]
  split
  · rfl
  · dsimp only
    split
    · rfl
    · exact hsettled d _

/-- A change of doclets which, along with a change of settings, does not show in
what is written. -/
structure Faithful (settings settings' : Settings) (f : Doclet -> Doclet) :
    Prop where
  settle : forall d, (f d).settle = f d.settle
  longname : forall d, (f d).longname = d.longname
  kind : forall d, (f d).kind = d.kind
  isEnum : forall d, (f d).isEnum = d.isEnum
  isShape : forall d, isShape settings' (f d) = isShape settings d
  program : forall k : Piece, (k.map f).program settings' = k.program settings

theorem Faithful.id (settings : Settings) : Faithful settings settings id where
  settle _ := rfl
  longname _ := rfl
  kind _ := rfl
  isEnum _ := rfl
  isShape _ := rfl
  program k := by rw [k.map_id]

namespace Faithful

variable {settings settings' : Settings} {f : Doclet -> Doclet}
  (h : Faithful settings settings' f)

include h

theorem role (d : Doclet) : (f d).role = d.role := by
  rw [Doclet.role, h.kind, Doclet.role]

theorem isDetached (d : Doclet) : (f d).isDetached = d.isDetached := by
  rw [Doclet.isDetached, h.role, h.isEnum, Doclet.isDetached]

theorem isInClass (d : Doclet) :
    isInClass (some (f d)) = isInClass (some d) := by
  simp [Declaration.isInClass, Doclet.isClassLike, h.role]

theorem docletIsShape
    (d : Doclet) :
    (f d).isShape settings'.typedefInterfaces =
      d.isShape settings.typedefInterfaces := by
  have hperforms := performs_isShape settings' (f d)
  rw [h.isShape] at hperforms
  exact Except.ok.inj (hperforms.unique (performs_isShape settings d)).1

theorem opening
    {d : Doclet} {parent parent' : Option Doclet}
    (hparent : d.isContainer = false ->
      Declaration.isInClass parent' = Declaration.isInClass parent) :
    opening settings' (f d) parent' =
      (opening settings d parent).map (Piece.map f) := by
  have hleaf (hrole : d.role ≠ .classLike ∧ d.role ≠ .nameSpace) :=
    hparent (by
      simp [Doclet.isContainer, Doclet.isClassLike, Doclet.isNamespace, hrole])
  unfold Ambient.opening
  rw [h.role]
  cases hrole : d.role with
  | member =>
      dsimp only
      rw [hleaf (by simp [hrole]), h.isEnum]
      split
      · rfl
      · split <;> rfl
  | function =>
      dsimp only
      rw [hleaf (by simp [hrole])]
      split <;> rfl
  | typedef =>
      dsimp only
      rw [hleaf (by simp [hrole]), h.docletIsShape]
      split
      · split <;> rfl
      · rfl
  | _ => rfl

theorem turn
    (d : Doclet)
    {hoisted hoisted' : List Entry}
    (hempty : hoisted'.isEmpty = hoisted.isEmpty) :
    turn (f d) hoisted' = (turn d hoisted).map (Piece.map f) := by
  unfold Ambient.turn
  rw [h.role, hempty]
  split
  · split <;> rfl
  · rfl

theorem closing
    (d : Doclet)
    {hoisted hoisted' : List Entry}
    (hempty : hoisted'.isEmpty = hoisted.isEmpty) :
    closing (f d) hoisted' = (closing d hoisted).map (Piece.map f) := by
  unfold Ambient.closing
  rw [h.role, hempty]
  split <;> rfl

theorem writeAll
    (ks : List Piece) :
    writeAll settings' (ks.map (Piece.map f)) = writeAll settings ks := by
  induction ks with
  | nil => rfl
  | cons k ks ih =>
      rw [List.map_cons, Ambient.writeAll, ih, h.program]
      rfl

end Faithful

end Ambient
