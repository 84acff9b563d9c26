/-
  Petrel.Framework.HexText — bytes in lower-case hexadecimal digits.

  Every byte is written as two digits, also where the first one is a zero.  So
  the bytes can be read back from the text.

  Main results:
    * `unhex_hexText` — the bytes are read back.
    * `hexText_injective` — so two texts are equal only if the bytes are.
    * `zero_notMem_hexText` — a text is a C string.
-/

import Mathlib

namespace Petrel.Framework

/-- The digit of a number below 16. -/
def hexDigit (n : Nat) : UInt8 := if n < 10 then UInt8.ofNat (48 + n) else UInt8.ofNat (87 + n)

/-- The number of a digit. -/
def unhexDigit (c : UInt8) : Nat := if c < 58 then c.toNat - 48 else c.toNat - 87

/-- The two digits of a byte. -/
def hexPair (b : UInt8) : List UInt8 := [hexDigit (b.toNat / 16), hexDigit (b.toNat % 16)]

/-- The digits of all bytes. -/
def hexText (s : List UInt8) : List UInt8 := s.flatMap hexPair

/-- Read two digits at a time. -/
def unhex : List UInt8 → List UInt8
  | a :: b :: t => UInt8.ofNat (16 * unhexDigit a + unhexDigit b) :: unhex t
  | _ => []

theorem hexText_cons (b : UInt8) (s : List UInt8) : hexText (b :: s) = hexPair b ++ hexText s := rfl

theorem unhexDigit_hexDigit {n : Nat} (h : n < 16) : unhexDigit (hexDigit n) = n := by
  interval_cases n <;> rfl

theorem hexDigit_ne_zero {n : Nat} (h : n < 16) : hexDigit n ≠ 0 := by
  interval_cases n <;> decide

/-- **The bytes are read back** from their digits. -/
theorem unhex_hexText (s : List UInt8) : unhex (hexText s) = s := by
  induction s with
  | nil => rfl
  | cons b s ih =>
      have hb : b.toNat < 256 := b.toNat_lt
      rw [hexText_cons]
      show UInt8.ofNat (16 * unhexDigit (hexDigit (b.toNat / 16)) +
        unhexDigit (hexDigit (b.toNat % 16))) :: unhex (hexText s) = b :: s
      rw [ih, unhexDigit_hexDigit (by omega), unhexDigit_hexDigit (by omega), Nat.div_add_mod,
        UInt8.ofNat_toNat]

/-- **Equal digits are those of equal bytes.** -/
theorem hexText_injective {s t : List UInt8} (h : hexText s = hexText t) : s = t := by
  have hs := unhex_hexText s
  rw [h, unhex_hexText] at hs
  exact hs.symm

/-- **No digit is a NUL.** -/
theorem zero_notMem_hexText (s : List UInt8) : (0 : UInt8) ∉ hexText s := by
  intro hzero
  obtain ⟨b, -, hb⟩ := List.mem_flatMap.mp hzero
  have hlt : b.toNat < 256 := b.toNat_lt
  rcases List.mem_pair.mp hb with hdigit | hdigit
  · exact hexDigit_ne_zero (by omega) hdigit.symm
  · exact hexDigit_ne_zero (by omega) hdigit.symm

end Petrel.Framework
