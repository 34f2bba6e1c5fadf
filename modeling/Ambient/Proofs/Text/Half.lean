import Ambient.Text.Half

/-!
# Texts of characters

A text that holds no half of a surrogate pair is a string of characters, written
with each mark twice.  The characters can be taken from it again, so that it is
encoded as they are.
-/

namespace Ambient
namespace Text

theorem isHalf_toNat (c : Char) : isHalf c.toNat = false := by
  have hvalid : c.toNat < 0xD800 ∨ 0xDFFF < c.toNat ∧ c.toNat < 0x110000 :=
    c.valid
  simp only [isHalf, isHighHalf, isLowHalf, Bool.or_eq_false_iff,
    Bool.and_eq_false_iff, decide_eq_false_iff_not]
  omega

theorem ofCode_toNat
    (c : Char) :
    ofCode c.toNat = if c = mark then [mark, mark] else [c] := by
  rw [ofCode, isHalf_toNat, if_neg Bool.false_ne_true]
  by_cases hc : c = mark
  · rw [hc]
    rfl
  · have hcode : ¬ (c.toNat == mark.toNat) = true := fun h =>
      hc (Char.toNat_inj.mp (beq_iff_eq.mp h))
    rw [if_neg hcode, if_neg hc, Char.ofNat_toNat]

theorem codes_ofCode_append
    (c : Char)
    (rest : List Char) :
    codes (ofCode c.toNat ++ rest) = c.toNat :: codes rest := by
  rw [ofCode_toNat]
  split
  · rename_i hc
    rw [hc]
    rfl
  · rename_i hc
    cases rest with
    | nil => rfl
    | cons d rest => simp [codes, hc]

theorem codes_flatMap_ofCode
    (cs : List Char) :
    codes (cs.flatMap fun c => ofCode c.toNat) = cs.map Char.toNat := by
  induction cs with
  | nil => rfl
  | cons c cs ih =>
      rw [List.flatMap_cons, codes_ofCode_append, ih, List.map_cons]

theorem toPlain_ofPlain (s : String) : toPlain (ofPlain s) = s := by
  unfold ofPlain
  split
  · rename_i hmark
    have hstuffed : (s.toList.flatMap fun c => ofCode c.toNat).contains mark =
        true := by
      rw [List.contains_iff_mem] at hmark ⊢
      exact List.mem_flatMap.mpr ⟨mark, hmark, by decide⟩
    have hwhole : ((s.toList.map Char.toNat).filter fun n => !isHalf n) =
        s.toList.map Char.toNat := by
      rw [List.filter_eq_self]
      intro n hn
      obtain ⟨c, _, rfl⟩ := List.mem_map.mp hn
      rw [isHalf_toNat]
      rfl
    rw [toPlain, String.toList_ofList, if_pos hstuffed, codes_flatMap_ofCode,
      hwhole, List.map_map]
    simp [Function.comp_def, Char.ofNat_toNat]
  · rename_i hmark
    exact if_neg hmark

theorem encode_ofPlain (s : String) : encode (ofPlain s) = s.toUTF8 := by
  rw [encode, toPlain_ofPlain]

end Text
end Ambient
