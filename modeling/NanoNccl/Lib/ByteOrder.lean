import Mathlib.Data.List.Basic
import Mathlib.Data.Nat.Init
import Mathlib.Tactic.Ring

/-!
# Numbers in network byte order

A number sent in network byte order occupies a fixed number of bytes, the most significant first.
Decoding is evaluation in base 256, so every number that fits the width reads back.
-/

namespace ByteOrder

/-- The `width` bytes of a number, the most significant first. -/
def bigEndian : ℕ → ℕ → List UInt8
  | 0, _ => []
  | width + 1, number => bigEndian width (number / 256) ++ [UInt8.ofNat number]

/-- The number a list of bytes spells, the most significant first. -/
def ofBigEndian (bytes : List UInt8) : ℕ :=
  bytes.foldl (fun number byte => number * 256 + byte.toNat) 0

@[simp] theorem length_bigEndian (width number : ℕ) : (bigEndian width number).length = width := by
  induction width generalizing number with
  | zero => rfl
  | succ width ih => simp [bigEndian, ih]

theorem ofBigEndian_concat (bytes : List UInt8) (byte : UInt8) :
    ofBigEndian (bytes ++ [byte]) = ofBigEndian bytes * 256 + byte.toNat := by
  simp [ofBigEndian]

theorem ofBigEndian_bigEndian {width number : ℕ} (fits : number < 256 ^ width) :
    ofBigEndian (bigEndian width number) = number := by
  induction width generalizing number with
  | zero =>
      obtain rfl : number = 0 := by simpa using fits
      rfl
  | succ width ih =>
      have high : number / 256 < 256 ^ width := by
        rw [Nat.div_lt_iff_lt_mul (by decide)]
        calc number < 256 ^ (width + 1) := fits
          _ = 256 ^ width * 256 := by ring
      have low : (UInt8.ofNat number).toNat = number % 256 := by simp
      rw [bigEndian, ofBigEndian_concat, ih high, low]
      omega

end ByteOrder
