import Mathlib.Data.List.Basic
import NanoNccl.Lib.ByteOrder

/-!
# Records in memory

A record lies in memory field by field, every number with its least significant byte first. A reader
takes the fields off the front of the bytes in the same order.
-/

namespace Records

open ByteOrder

/-- The `width` bytes of a number, the least significant first. -/
def littleEndian (width number : ℕ) : List UInt8 := (bigEndian width number).reverse

/-- The number a list of bytes spells, the least significant first. -/
def ofLittleEndian (bytes : List UInt8) : ℕ := ofBigEndian bytes.reverse

@[simp] theorem length_littleEndian (width number : ℕ) :
    (littleEndian width number).length = width := by
  simp [littleEndian]

theorem ofLittleEndian_littleEndian {width number : ℕ} (fits : number < 256 ^ width) :
    ofLittleEndian (littleEndian width number) = number := by
  rw [ofLittleEndian, littleEndian, List.reverse_reverse, ofBigEndian_bigEndian fits]

/-- Cut bytes into fields of these widths; what follows them is dropped. -/
def splitFields : List ℕ → List UInt8 → Option (List (List UInt8))
  | [], _ => some []
  | width :: widths, bytes =>
      if width ≤ bytes.length then
        (splitFields widths (bytes.drop width)).map (bytes.take width :: ·)
      else none

theorem splitFields_flatten (fields : List (List UInt8)) :
    splitFields (fields.map List.length) fields.flatten = some fields := by
  induction fields with
  | nil => rfl
  | cons field fields ih => simp [splitFields, ih]

/-- Fields are read back. -/
theorem splitFields_of_widths {widths : List ℕ} {fields : List (List UInt8)}
    (wide : fields.map List.length = widths) :
    splitFields widths fields.flatten = some fields := by
  rw [← wide, splitFields_flatten]

/-- A `uint16_t` in memory. -/
def word16 (value : UInt16) : List UInt8 := littleEndian 2 value.toNat

/-- A `uint32_t` in memory. -/
def word32 (value : UInt32) : List UInt8 := littleEndian 4 value.toNat

/-- A `uint64_t` in memory. -/
def word64 (value : UInt64) : List UInt8 := littleEndian 8 value.toNat

def readWord16 (bytes : List UInt8) : UInt16 := .ofNat (ofLittleEndian bytes)

def readWord32 (bytes : List UInt8) : UInt32 := .ofNat (ofLittleEndian bytes)

def readWord64 (bytes : List UInt8) : UInt64 := .ofNat (ofLittleEndian bytes)

@[simp] theorem length_word16 (value : UInt16) : (word16 value).length = 2 :=
  length_littleEndian ..

@[simp] theorem length_word32 (value : UInt32) : (word32 value).length = 4 :=
  length_littleEndian ..

@[simp] theorem length_word64 (value : UInt64) : (word64 value).length = 8 :=
  length_littleEndian ..

@[simp] theorem readWord16_word16 (value : UInt16) : readWord16 (word16 value) = value := by
  rw [readWord16, word16, ofLittleEndian_littleEndian value.toNat_lt, UInt16.ofNat_toNat]

@[simp] theorem readWord32_word32 (value : UInt32) : readWord32 (word32 value) = value := by
  rw [readWord32, word32, ofLittleEndian_littleEndian value.toNat_lt, UInt32.ofNat_toNat]

@[simp] theorem readWord64_word64 (value : UInt64) : readWord64 (word64 value) = value := by
  rw [readWord64, word64, ofLittleEndian_littleEndian value.toNat_lt, UInt64.ofNat_toNat]

end Records
