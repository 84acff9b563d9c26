/-
  Petrel.Core.Bytes — the byte strings of the server.

  A `std::string` is a list of bytes of any length.  String literals of the
  source are written with `bytes`, which evaluates in the kernel.
-/

import Mathlib

namespace Petrel

/-- A byte string (`std::string`, `boost::string_ref`, a Lua string). -/
abbrev Bytes := List UInt8

/-- The bytes of an ASCII string literal. -/
def bytes (s : String) : Bytes := s.toList.map (fun c => c.toNat.toUInt8)

/-- The byte of an ASCII character literal. -/
def byte (c : Char) : UInt8 := c.toNat.toUInt8

/-- The bytes before the first NUL, which is what `c_str()` and
`lua_tostring` leave of a string. -/
def cStr (s : Bytes) : Bytes := s.takeWhile (· ≠ 0)

theorem cStr_eq_self_iff (s : Bytes) : cStr s = s ↔ (0 : UInt8) ∉ s := by
  unfold cStr
  rw [List.takeWhile_eq_self_iff]
  constructor
  · intro h hz
    exact absurd (h 0 hz) (by decide)
  · intro hz c hc
    exact decide_eq_true (fun h => hz (h ▸ hc))

end Petrel
