import Mathlib.Data.List.Lex
import Mathlib.Tactic.Common

/-!
# Strings of bytes

A string is the list of its bytes, and strings are compared byte by byte.

## Main definitions

* `asciiBytes`: the bytes of a text

## Main results

* `forall_byte`: what can be decided about a byte is decided by looking at all 256
-/

namespace CodingDemo

/-- The bytes of a text of ASCII characters. -/
def asciiBytes (text : String) : List UInt8 := text.toList.map fun c => c.toNat.toUInt8

theorem asciiBytes_ne_nil {text : String} (h : text ≠ "") : asciiBytes text ≠ [] := by
  rw [asciiBytes, Ne, List.map_eq_nil_iff, String.toList_eq_nil_iff]
  exact h

theorem forall_byte {p : UInt8 → Prop} (h : ∀ n : Fin 256, p (.ofNat n)) (c : UInt8) : p c := by
  have hc := h ⟨c.toNat, c.toNat_lt⟩
  rwa [UInt8.ofNat_toNat] at hc

instance linearOrderUInt8 : LinearOrder UInt8 where
  le_refl _ := UInt8.le_refl _
  le_trans _ _ _ := UInt8.le_trans
  le_antisymm _ _ := UInt8.le_antisymm
  le_total := UInt8.le_total
  lt_iff_le_not_ge a b := by
    rw [UInt8.not_le, UInt8.lt_iff_toNat_lt, UInt8.le_iff_toNat_le]
    omega
  toDecidableLE := inferInstance
  toDecidableLT := inferInstance
  toDecidableEq := inferInstance

end CodingDemo
