/-
  Petrel.Lua.Strings — functions of the Lua string library.

  Positions count from 1; a negative one counts from the end of the string.

  Main results:
    * `strSub_from`, `strSub_upto` — the rest and the beginning of a string.
    * `strFind_one`                — a plain search from the beginning.
    * `gsub_match`, `gsub_skip`    — one match, and one byte without a match.
    * `gsub_self`                  — a string without a match stays as it is.
-/

import Petrel.Core.Bytes
import Petrel.Framework.Pieces

namespace Petrel

open Framework

/-! ## §1. Parts of a string. -/

/-- `posrelat`: a negative position counts from the end. -/
def posRelat (pos : Int) (len : Nat) : Int := if pos < 0 then max 0 (pos + len + 1) else pos

/-- `string.sub(s, i, j)`. -/
def strSub (s : Bytes) (i j : Int) : Bytes :=
  let first := max 1 (posRelat i s.length)
  let last := min (s.length : Int) (posRelat j s.length)
  if first ≤ last then (s.drop (first - 1).toNat).take (last - first + 1).toNat else []

/-- `string.find(s, p, init, true)`: where the first occurrence begins. -/
def strFind (s p : Bytes) (init : Int) : Option Int :=
  let skipped := (min (s.length : Int) (max 0 (posRelat init s.length - 1))).toNat
  (firstOccurrence p (s.drop skipped)).map (fun i => (skipped + i + 1 : Int))

theorem posRelat_nat (n len : Nat) : posRelat n len = n := if_neg (by omega)

theorem posRelat_end (len : Nat) : posRelat (-1) len = len := by
  unfold posRelat
  rw [if_pos (by decide)]
  omega

/-- The rest of a string; a position before its beginning stands for it. -/
theorem strSub_from (s : Bytes) (n : Nat) : strSub s n (-1) = s.drop (n - 1) := by
  unfold strSub
  rw [posRelat_nat, posRelat_end]
  dsimp only
  by_cases hle : max 1 (n : Int) ≤ min (s.length : Int) (s.length : Int)
  · rw [if_pos hle]
    have hdrop : (max 1 (n : Int) - 1).toNat = n - 1 := by omega
    rw [hdrop]
    exact List.take_of_length_le (by rw [List.length_drop]; omega)
  · rw [if_neg hle]
    exact (List.drop_eq_nil_of_le (by omega)).symm

/-- The beginning of a string. -/
theorem strSub_upto (s : Bytes) {n : Nat} (hn : n ≤ s.length) : strSub s 1 n = s.take n := by
  have hone : posRelat 1 s.length = 1 := posRelat_nat 1 s.length
  unfold strSub
  rw [hone, posRelat_nat]
  dsimp only
  by_cases hle : max 1 (1 : Int) ≤ min (s.length : Int) (n : Int)
  · rw [if_pos hle]
    have htake : (min (s.length : Int) (n : Int) - max 1 1 + 1).toNat = n := by omega
    rw [htake]
    rfl
  · rw [if_neg hle]
    obtain rfl : n = 0 := by omega
    rfl

/-- A search from the beginning. -/
theorem strFind_one (s p : Bytes) :
    strFind s p 1 = (firstOccurrence p s).map (fun i => (i + 1 : Int)) := by
  have hone : posRelat 1 s.length = 1 := posRelat_nat 1 s.length
  have hskipped : (min (s.length : Int) (max 0 (1 - 1))).toNat = 0 := by omega
  unfold strFind
  rw [hone]
  dsimp only
  rw [hskipped, List.drop_zero]
  simp

/-! ## §2. Substitution. -/

/-- `isxdigit`. -/
def isHexDigit (b : UInt8) : Bool :=
  (byte '0' ≤ b && b ≤ byte '9') || (byte 'a' ≤ b && b ≤ byte 'f') || (byte 'A' ≤ b && b ≤ byte 'F')

/-- The value of a hex digit. -/
def hexValue (b : UInt8) : Nat :=
  if b ≤ byte '9' then b.toNat - (byte '0').toNat
  else if byte 'a' ≤ b then b.toNat - (byte 'a').toNat + 10
  else b.toNat - (byte 'A').toNat + 10

/-- `tonumber(h, 16)` of a string of hex digits. -/
def toNumber16 (h : Bytes) : Nat := h.foldl (fun n b => 16 * n + hexValue b) 0

/-- An item of a pattern without repetitions: a byte, or `%x`. -/
inductive PatItem where
  | lit (b : UInt8)
  | hex
  deriving DecidableEq

def PatItem.fits : PatItem → UInt8 → Bool
  | .lit c, b => b == c
  | .hex, b => isHexDigit b

/-- A pattern matches at the beginning of a string. -/
def patMatches : List PatItem → Bytes → Bool
  | [], _ => true
  | _ :: _, [] => false
  | i :: is, b :: s => i.fits b && patMatches is s

/-- The loop of `string.gsub` over a string, whose first `skip` bytes belong to
the last match. -/
def gsubFrom (pat : List PatItem) (repl : Bytes → Bytes) : Nat → Bytes → Bytes
  | _, [] => []
  | skip + 1, _ :: s => gsubFrom pat repl skip s
  | 0, b :: s =>
      if patMatches pat (b :: s) then
        repl ((b :: s).take pat.length) ++ gsubFrom pat repl (pat.length - 1) s
      else b :: gsubFrom pat repl 0 s

/-- `string.gsub(s, pat, repl)` for a pattern that is not empty. -/
def gsub (pat : List PatItem) (repl : Bytes → Bytes) (s : Bytes) : Bytes := gsubFrom pat repl 0 s

section Gsub

variable {pat : List PatItem} (repl : Bytes → Bytes)

theorem patMatches_append {m : Bytes} (h : patMatches pat m = true) (rest : Bytes) :
    patMatches pat (m ++ rest) = true := by
  induction pat generalizing m with
  | nil => rfl
  | cons i is ih =>
      cases m with
      | nil => exact nomatch h
      | cons b m =>
          obtain ⟨hfits, hrest⟩ := (Bool.and_eq_true _ _).mp h
          exact (Bool.and_eq_true _ _).mpr ⟨hfits, ih hrest⟩

/-- The bytes of a match are passed over. -/
theorem gsubFrom_skip (m rest : Bytes) :
    gsubFrom pat repl m.length (m ++ rest) = gsubFrom pat repl 0 rest := by
  induction m with
  | nil => rfl
  | cons b m ih => exact ih

/-- **A match** is replaced, and the loop goes on behind it. -/
theorem gsub_match {m : Bytes} (h : patMatches pat m = true) (hlength : m.length = pat.length)
    (hm : m ≠ []) (rest : Bytes) : gsub pat repl (m ++ rest) = repl m ++ gsub pat repl rest := by
  cases m with
  | nil => exact absurd rfl hm
  | cons b m =>
      have hmatch : patMatches pat (b :: (m ++ rest)) = true := patMatches_append h rest
      have htake : (b :: (m ++ rest)).take pat.length = b :: m := by
        rw [← hlength]
        exact List.take_left
      have hskip : pat.length - 1 = m.length := by
        rw [← hlength]
        rfl
      show gsubFrom pat repl 0 (b :: (m ++ rest)) = _
      rw [gsubFrom, if_pos hmatch, htake, hskip, gsubFrom_skip]
      rfl

/-- **A byte without a match** stays. -/
theorem gsub_skip {b : UInt8} {s : Bytes} (h : patMatches pat (b :: s) = false) :
    gsub pat repl (b :: s) = b :: gsub pat repl s := by
  unfold gsub
  rw [gsubFrom, if_neg (by rw [h]; exact Bool.false_ne_true)]

/-- A string without a match stays as it is. -/
theorem gsub_self {s : Bytes} (h : ∀ t, t <:+ s → t ≠ [] → patMatches pat t = false) :
    gsub pat repl s = s := by
  induction s with
  | nil => rfl
  | cons b s ih =>
      have hnone := h (b :: s) List.suffix_rfl (List.cons_ne_nil b s)
      rw [gsub_skip repl hnone, ih fun t ht hne => h t (ht.trans (List.suffix_cons b s)) hne]

end Gsub

end Petrel
