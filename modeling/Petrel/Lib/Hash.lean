/-
  Petrel.Lib.Hash — the hash library of the handlers.

  `md5` and `sha1` write the digest of OpenSSL in hexadecimal digits, `fnv`
  computes a 32 bit FNV-1 itself.  All three take their argument with
  `luaL_checkstring` as a C string, so that what stands behind a NUL is not
  hashed.

  OpenSSL is not part of the repository.  Its digests are parameters, and
  everything is proved for any of them.

  Main results:
    * `fnv_string`, `digest_string` — what is computed is the hash of the
      string up to its first NUL.
    * `same_hashes_of_cStr` — strings that agree up to there collide.
    * `hashes_cover_iff` — hashes cover whole strings if and only if there is
      no NUL in them.
-/

import Petrel.Lua.Args
import Petrel.Framework.HexText

namespace Petrel

open Framework

/-! ## §1. The library. -/

/-- What OpenSSL answers in one call: the digests, none for a null `EVP_MD`, and
whether each step succeeds. -/
structure OpenSsl where
  evpMd5 : Option (Bytes → Bytes)
  evpSha1 : Option (Bytes → Bytes)
  create : Bool := true      -- `EVP_MD_CTX_create`
  init : Bool := true        -- `EVP_DigestInit_ex`
  update : Bool := true      -- `EVP_DigestUpdate`
  final : Bool := true       -- `EVP_DigestFinal_ex`

namespace OpenSsl

/-- `evp_hash`. -/
def evpHash (ssl : OpenSsl) (md : Bytes → Bytes) (data : Bytes) : Except LuaError Bytes :=
  if !ssl.create then .error (.message (bytes "failed to create md_ctx"))
  else if !ssl.init then .error (.message (bytes "failed to initialize digest"))
  else if !ssl.update then .error (.message (bytes "failed to update digest"))
  else if !ssl.final then .error (.message (bytes "failed to finalize digest"))
  else .ok (md data)

/-- A number written in `std::hex` with `setw(2)` and `setfill('0')`. -/
def streamHex (n : Nat) : Bytes := ((Nat.toDigits 16 n).map byte).leftpad 2 (byte '0')

/-- `evp_pushhash`. -/
def evpPushhash (h : Bytes) : Bytes := cStr (h.flatMap (fun b => streamHex b.toNat))

variable {Num : Type} [LuaNumber Num]

/-- The common text of `md5` and `sha1`. -/
def digest (ssl : OpenSsl) (md : Option (Bytes → Bytes)) (args : List (LuaValue Num)) :
    Except LuaError Bytes := do
  let str ← checkString args 1
  match md with
  | none => .error (.message (bytes "failed to get sha1 md"))
  | some md => (ssl.evpHash md str).map evpPushhash

def md5 (ssl : OpenSsl) (args : List (LuaValue Num)) : Except LuaError Bytes :=
  ssl.digest ssl.evpMd5 args

def sha1 (ssl : OpenSsl) (args : List (LuaValue Num)) : Except LuaError Bytes :=
  ssl.digest ssl.evpSha1 args

/-- OpenSSL has the digests, and no step fails. -/
structure Works (ssl : OpenSsl) (md5 sha1 : Bytes → Bytes) : Prop where
  evpMd5 : ssl.evpMd5 = some md5
  evpSha1 : ssl.evpSha1 = some sha1
  create : ssl.create = true
  init : ssl.init = true
  update : ssl.update = true
  final : ssl.final = true

end OpenSsl

/-- `hash::fnv`: the number given to `lua_pushinteger`. -/
def fnv {Num : Type} [LuaNumber Num] (args : List (LuaValue Num)) : Except LuaError Int := do
  let str ← checkString args 1
  let h := str.foldl (fun (h : UInt32) p => (h * 16777619) ^^^ p.toUInt32) 2166136261
  return h.toNat

/-! ## §2. Hashes of whole strings. -/

/-- The 32 bit FNV-1 of a string: multiply modulo 2^32, then xor. -/
def fnv1 (s : Bytes) : Nat :=
  s.foldl (fun h b => (h * 16777619 % 2 ^ 32) ^^^ b.toNat) 2166136261

/-- The hashes of all strings of a set are those of the whole strings, whatever
the digests are, and two strings get equal results only if the digests agree
on them. -/
structure HashesCover (Num : Type) [LuaNumber Num] (keys : Set Bytes) : Prop where
  fnv : ∀ s ∈ keys, fnv [(.string s : LuaValue Num)] = .ok (fnv1 s : Int)
  md5 : ∀ (ssl : OpenSsl) (D D' : Bytes → Bytes), ssl.Works D D' → ∀ s ∈ keys,
    ssl.md5 [(.string s : LuaValue Num)] = .ok (hexText (D s))
  sha1 : ∀ (ssl : OpenSsl) (D D' : Bytes → Bytes), ssl.Works D D' → ∀ s ∈ keys,
    ssl.sha1 [(.string s : LuaValue Num)] = .ok (hexText (D' s))
  md5_eq : ∀ (ssl : OpenSsl) (D D' : Bytes → Bytes), ssl.Works D D' → ∀ s ∈ keys, ∀ t ∈ keys,
    ssl.md5 [(.string s : LuaValue Num)] = ssl.md5 [(.string t : LuaValue Num)] → D s = D t
  sha1_eq : ∀ (ssl : OpenSsl) (D D' : Bytes → Bytes), ssl.Works D D' → ∀ s ∈ keys, ∀ t ∈ keys,
    ssl.sha1 [(.string s : LuaValue Num)] = ssl.sha1 [(.string t : LuaValue Num)] → D' s = D' t

/-! ## §3. What is computed. -/

section Hash

variable {Num : Type} [LuaNumber Num]

theorem fnv_fold (s : Bytes) (h : UInt32) :
    (s.foldl (fun (h : UInt32) p => (h * 16777619) ^^^ p.toUInt32) h).toNat =
      s.foldl (fun h b => (h * 16777619 % 2 ^ 32) ^^^ b.toNat) h.toNat := by
  induction s generalizing h with
  | nil => rfl
  | cons b s ih =>
      rw [List.foldl_cons, List.foldl_cons, ih, UInt32.toNat_xor, UInt32.toNat_mul,
        UInt8.toNat_toUInt32]
      rfl

/-- **`fnv` is FNV-1** of the string up to its first NUL. -/
theorem fnv_string (s : Bytes) : fnv [(.string s : LuaValue Num)] = .ok (fnv1 (cStr s) : Int) := by
  unfold fnv fnv1
  rw [checkString_string]
  show Except.ok (((cStr s).foldl _ (2166136261 : UInt32)).toNat : Int) = _
  rw [fnv_fold]
  rfl

-- the test of the repository
example : fnv [(.string (bytes "petrel yeah :-)") : LuaValue Int)] = .ok 1012600862 := by
  decide +kernel

theorem streamHex_byte : ∀ b : UInt8, OpenSsl.streamHex b.toNat = hexPair b := by
  decide +kernel

/-- A digest is pushed as it is written: no digit is a NUL. -/
theorem evpPushhash_eq (h : Bytes) : OpenSsl.evpPushhash h = hexText h := by
  unfold OpenSsl.evpPushhash
  simp only [streamHex_byte]
  exact (cStr_eq_self_iff _).mpr (zero_notMem_hexText h)

/-- **`md5` and `sha1` write the digest** of the string up to its first NUL. -/
theorem digest_string {ssl : OpenSsl} {D D' : Bytes → Bytes} (h : ssl.Works D D')
    (md : Bytes → Bytes) (s : Bytes) :
    ssl.digest (some md) [(.string s : LuaValue Num)] = .ok (hexText (md (cStr s))) := by
  have hhash : ssl.evpHash md (cStr s) = .ok (md (cStr s)) := by
    unfold OpenSsl.evpHash
    rw [h.create, h.init, h.update, h.final]
    rfl
  unfold OpenSsl.digest
  rw [checkString_string]
  show (ssl.evpHash md (cStr s)).map OpenSsl.evpPushhash = _
  rw [hhash, ← evpPushhash_eq]
  rfl

/-- **STRINGS THAT AGREE UP TO THE FIRST NUL COLLIDE**, whatever OpenSSL does. -/
theorem same_hashes_of_cStr {s t : Bytes} (h : cStr s = cStr t) (ssl : OpenSsl) :
    fnv [(.string s : LuaValue Num)] = fnv [(.string t : LuaValue Num)] ∧
      ssl.md5 [(.string s : LuaValue Num)] = ssl.md5 [(.string t : LuaValue Num)] ∧
      ssl.sha1 [(.string s : LuaValue Num)] = ssl.sha1 [(.string t : LuaValue Num)] := by
  refine ⟨?_, ?_, ?_⟩
  · rw [fnv_string, fnv_string, h]
  · unfold OpenSsl.md5 OpenSsl.digest
    rw [checkString_string, checkString_string, h]
  · unfold OpenSsl.sha1 OpenSsl.digest
    rw [checkString_string, checkString_string, h]

/-! ## §4. The exact condition. -/

/-- The digest of a method covers strings without NUL bytes. -/
theorem digest_covers {ssl : OpenSsl} {D D' : Bytes → Bytes} (h : ssl.Works D D')
    (md : Bytes → Bytes) {s : Bytes} (hs : (0 : UInt8) ∉ s) :
    ssl.digest (some md) [(.string s : LuaValue Num)] = .ok (hexText (md s)) := by
  rw [digest_string h md, (cStr_eq_self_iff s).mpr hs]

/-- Equal results of a method are results of equal digests. -/
theorem digest_eq {ssl : OpenSsl} {D D' : Bytes → Bytes} (h : ssl.Works D D') (md : Bytes → Bytes)
    {s t : Bytes} (hs : (0 : UInt8) ∉ s) (ht : (0 : UInt8) ∉ t)
    (heq : ssl.digest (some md) [(.string s : LuaValue Num)] =
      ssl.digest (some md) [(.string t : LuaValue Num)]) : md s = md t := by
  rw [digest_covers h md hs, digest_covers h md ht] at heq
  exact hexText_injective (Except.ok.inj heq)

/-- **HASHES COVER WHOLE STRINGS, EXACTLY IF** there is no NUL byte in them. -/
theorem hashes_cover_iff (Num : Type) [LuaNumber Num] (keys : Set Bytes) :
    HashesCover Num keys ↔ ∀ s ∈ keys, (0 : UInt8) ∉ s := by
  constructor
  · intro hcover s hs
    -- the digest that is the string itself tells a string from its part
    have hworks : (OpenSsl.mk (some id) (some id) true true true true).Works id id :=
      ⟨rfl, rfl, rfl, rfl, rfl, rfl⟩
    have hwhole := hcover.md5 _ id id hworks s hs
    have hpart : OpenSsl.md5 (OpenSsl.mk (some id) (some id) true true true true)
        [(.string s : LuaValue Num)] = .ok (hexText (id (cStr s))) := digest_string hworks id s
    have hcut := hexText_injective (Except.ok.inj (hpart.symm.trans hwhole))
    exact (cStr_eq_self_iff s).mp hcut
  · intro hkeys
    refine ⟨?_, ?_, ?_, ?_, ?_⟩
    · intro s hs
      rw [fnv_string, (cStr_eq_self_iff s).mpr (hkeys s hs)]
    · intro ssl D D' hworks s hs
      unfold OpenSsl.md5
      rw [hworks.evpMd5, digest_covers hworks D (hkeys s hs)]
    · intro ssl D D' hworks s hs
      unfold OpenSsl.sha1
      rw [hworks.evpSha1, digest_covers hworks D' (hkeys s hs)]
    · intro ssl D D' hworks s hs t ht heq
      unfold OpenSsl.md5 at heq
      rw [hworks.evpMd5] at heq
      exact digest_eq hworks D (hkeys s hs) (hkeys t ht) heq
    · intro ssl D D' hworks s hs t ht heq
      unfold OpenSsl.sha1 at heq
      rw [hworks.evpSha1] at heq
      exact digest_eq hworks D' (hkeys s hs) (hkeys t ht) heq

end Hash

/-- **BINARY KEYS COLLIDE.**  Of the string `a`, NUL, `b` the library hashes the
first byte, and so it does of `a`, NUL, `c`. -/
theorem binary_keys_collide :
    fnv [(.string [97, 0, 98] : LuaValue Int)] = .ok 84696446 ∧
    fnv [(.string [97, 0, 99] : LuaValue Int)] = .ok 84696446 ∧
    fnv1 [97, 0, 98] ≠ 84696446 ∧ fnv1 [97, 0, 98] ≠ fnv1 [97, 0, 99] ∧
    ¬ HashesCover Int Set.univ := by
  have hfirst : fnv [(.string [97, 0, 98] : LuaValue Int)] = .ok 84696446 := by
    decide +kernel
  -- the other string agrees with it up to the NUL
  have hcut : cStr [97, 0, 98] = cStr [97, 0, 99] := by
    decide
  have hsame : fnv [(.string [97, 0, 98] : LuaValue Int)] = fnv [(.string [97, 0, 99] : LuaValue Int)] :=
    (same_hashes_of_cStr hcut ⟨none, none, true, true, true, true⟩).1
  refine ⟨hfirst, hsame.symm.trans hfirst, by decide +kernel, by decide +kernel, ?_⟩
  intro hcover
  have hwhole := hcover.fnv [97, 0, 98] (Set.mem_univ _)
  exact absurd hwhole (by decide +kernel)

end Petrel
