import Mathlib.Tactic.SplitIfs
import Reskin.Text.Utf8

/-!
# The order of bytes

Texts are ordered by their code points. In UTF-8 this is the order of their bytes: where the
characters of two texts first differ, the byte in which these two first differ is less in the lesser
one. Neither character ends before that byte, so nothing depends on what follows them.

## Main definitions

* `Text.bytes`: the bytes of a text as a list
* `Text.Below`: bytes that are less than others, whatever follows either

## Main results

* `Text.below_utf8EncodeChar`: the bytes of a character against those of a greater one
* `Text.compare_bytes`: two texts compare as their bytes do
-/

namespace Reskin.Text

/-- The bytes of a text, one after the other. -/
def bytes (t : Text) : List UInt8 := t.utf8.data.toList

theorem bytes_eq_flatMap (t : Text) : t.bytes = t.flatMap String.utf8EncodeChar := by
  simp [bytes, utf8, List.utf8Encode]

/-- **Bytes that are less than others** at a place that both have. -/
inductive Below : List UInt8 → List UInt8 → Prop
  | head {a b : UInt8} {x y : List UInt8} : a < b → Below (a :: x) (b :: y)
  | tail {a : UInt8} {x y : List UInt8} : Below x y → Below (a :: x) (a :: y)

theorem Below.compare_append {x y : List UInt8} (h : Below x y) (r s : List UInt8) :
    compare (x ++ r) (y ++ s) = .lt := by
  induction h with
  | head hlt =>
    have hbyte := Std.compare_eq_lt.2 hlt
    simp [hbyte, List.compare_cons_cons]
  | tail _ ih => simpa [List.compare_cons_cons] using ih

theorem compare_append_left (x r s : List UInt8) : compare (x ++ r) (x ++ s) = compare r s := by
  induction x with
  | nil => rfl
  | cons a x ih => simpa [List.compare_cons_cons] using ih

/-! ## Characters -/

/-- Bytes by their numbers: the first ones decide, or those that follow them do. -/
theorem below_cons {n m : Nat} {x y : List UInt8} (hm : m < 256) (hle : n ≤ m)
    (h : n = m → Below x y) : Below (UInt8.ofNat n :: x) (UInt8.ofNat m :: y) := by
  rcases Nat.lt_or_eq_of_le hle with hlt | rfl
  · refine .head (UInt8.lt_iff_toNat_lt.2 ?_)
    rwa [UInt8.toNat_ofNat_of_lt' (Nat.lt_of_le_of_lt hle hm), UInt8.toNat_ofNat_of_lt' hm]
  · exact .tail (h rfl)

/-- **The bytes of a character** are less than those of a greater one. -/
theorem below_utf8EncodeChar {c d : Char} (h : c < d) :
    Below (String.utf8EncodeChar c) (String.utf8EncodeChar d) := by
  have hlt : c.val.toNat < d.val.toNat := h
  have hd : d.val.toNat < 0x110000 := by
    have hvalid := d.valid
    simp only [UInt32.isValidChar, Nat.isValidChar] at hvalid
    omega
  unfold String.utf8EncodeChar
  generalize c.val.toNat = v at hlt
  generalize d.val.toNat = w at hlt hd
  dsimp only
  by_cases h1 : v ≤ 0x7f
  · rw [if_pos h1]
    split_ifs <;> exact below_cons (by omega) (by omega) (by omega)
  by_cases h2 : v ≤ 0x7ff
  · rw [if_neg h1, if_pos h2, if_neg (by omega)]
    split_ifs
    · refine below_cons (by omega) (by omega) fun _ => ?_
      exact below_cons (by omega) (by omega) (by omega)
    · exact below_cons (by omega) (by omega) (by omega)
    · exact below_cons (by omega) (by omega) (by omega)
  by_cases h3 : v ≤ 0xffff
  · rw [if_neg h1, if_neg h2, if_pos h3, if_neg (by omega), if_neg (by omega)]
    split_ifs
    · refine below_cons (by omega) (by omega) fun _ => ?_
      refine below_cons (by omega) (by omega) fun _ => ?_
      exact below_cons (by omega) (by omega) (by omega)
    · exact below_cons (by omega) (by omega) (by omega)
  · rw [if_neg h1, if_neg h2, if_neg h3, if_neg (by omega), if_neg (by omega), if_neg (by omega)]
    refine below_cons (by omega) (by omega) fun _ => ?_
    refine below_cons (by omega) (by omega) fun _ => ?_
    refine below_cons (by omega) (by omega) fun _ => ?_
    exact below_cons (by omega) (by omega) (by omega)

/-! ## Texts -/

/-- **Two texts compare as their bytes do.** -/
theorem compare_bytes (a b : Text) : compare a.bytes b.bytes = compare a b := by
  simp only [bytes_eq_flatMap]
  induction a generalizing b with
  | nil =>
    cases b with
    | nil => rfl
    | cons d b =>
      obtain ⟨x, y, hd⟩ := List.exists_cons_of_ne_nil (String.utf8EncodeChar_ne_nil (c := d))
      rw [List.flatMap_cons, hd]
      rfl
  | cons c a ih =>
    cases b with
    | nil =>
      obtain ⟨x, y, hc⟩ := List.exists_cons_of_ne_nil (String.utf8EncodeChar_ne_nil (c := c))
      rw [List.flatMap_cons, hc]
      rfl
    | cons d b =>
      rw [List.flatMap_cons, List.flatMap_cons, List.compare_cons_cons]
      cases hcd : compare c d with
      | lt => exact (below_utf8EncodeChar (compareOfLessAndEq_eq_lt.1 hcd)).compare_append _ _
      | eq =>
        obtain rfl := Std.LawfulEqOrd.eq_of_compare hcd
        rw [compare_append_left, ih]
        rfl
      | gt =>
        have hdc : compare d c = .lt := Std.OrientedCmp.gt_iff_lt.1 hcd
        have hbelow := below_utf8EncodeChar (compareOfLessAndEq_eq_lt.1 hdc)
        exact Std.OrientedCmp.gt_iff_lt.2 (hbelow.compare_append _ _)

end Reskin.Text
