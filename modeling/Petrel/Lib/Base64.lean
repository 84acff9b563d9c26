/-
  Petrel.Lib.Base64 — the base64 library of the handlers.

  `encode` and `decode` chain two iterators of `boost::archive`: one regroups
  bits, the other maps six-bit numbers to characters and back.  The iterators
  are not part of the repository.  What they are documented to do is a
  structure, and everything is proved for any iterators that do it: digits
  are regrouped from the most significant bit on, with zeros behind the last
  one when encoding and without an incomplete byte when decoding.

  Both functions take and return C strings, so that a NUL ends the argument
  and the result.

  Main results:
    * `octets_rfc4648`  — decoding an encoding, before the zeros are trimmed.
    * `base64_faithful` — the codec is faithful on a string if and only if
      there is no NUL in it.
-/

import Petrel.Core.Bytes
import Petrel.Framework.Bits

namespace Petrel

open Framework

/-! ## §1. The encoding of RFC 4648. -/

/-- The base64 alphabet. -/
def alphabet : Bytes := bytes "ABCDEFGHIJKLMNOPQRSTUVWXYZabcdefghijklmnopqrstuvwxyz0123456789+/"

/-- The character of a six-bit number. -/
def base64Char (d : Nat) : UInt8 := alphabet.getD d (byte '=')

/-- The six-bit numbers of a string: 24 bits at a time, and zeros behind the
last byte. -/
def sextetsOf : Bytes → List Nat
  | a :: b :: c :: s =>
      let n := 2 ^ 16 * a.toNat + (2 ^ 8 * b.toNat + c.toNat)
      n / 2 ^ 18 :: n / 2 ^ 12 % 2 ^ 6 :: n / 2 ^ 6 % 2 ^ 6 :: n % 2 ^ 6 :: sextetsOf s
  | [a, b] =>
      let n := 2 ^ 2 * (2 ^ 8 * a.toNat + b.toNat)
      [n / 2 ^ 12, n / 2 ^ 6 % 2 ^ 6, n % 2 ^ 6]
  | [a] =>
      let n := 2 ^ 4 * a.toNat
      [n / 2 ^ 6, n % 2 ^ 6]
  | [] => []

/-- How many characters the last group lacks. -/
def padding : Bytes → Nat
  | _ :: _ :: _ :: s => padding s
  | [_, _] => 1
  | [_] => 2
  | [] => 0

/-- The encoding of RFC 4648. -/
def rfc4648 (s : Bytes) : Bytes :=
  (sextetsOf s).map base64Char ++ List.replicate (padding s) (byte '=')

/-! ## §2. The library. -/

/-- The bits of a string. -/
def bitsOf (s : Bytes) : List Bool := s.flatMap (fun c => bits 8 c.toNat)

/-- The iterators of `boost::archive` and what they are documented to do. -/
structure ArchiveIterators where
  sextets : Bytes → List Nat          -- `transform_width<.., 6, 8>`
  octets : List Nat → Bytes           -- `transform_width<.., 8, 6>`
  fromBinary : Nat → UInt8            -- `base64_from_binary`
  toBinary : UInt8 → Option Nat       -- `binary_from_base64`, none where it throws
  sextets_lt : ∀ s, ∀ d ∈ sextets s, d < 2 ^ 6
  sextets_bits : ∀ s, ∃ k, k < 6 ∧ (sextets s).flatMap (bits 6) = bitsOf s ++ List.replicate k false
  octets_bits : ∀ ds, (∀ d ∈ ds, d < 2 ^ 6) →
    ∃ rest, rest.length < 8 ∧ ds.flatMap (bits 6) = bitsOf (octets ds) ++ rest
  fromBinary_digit : ∀ d, d < 64 → fromBinary d = base64Char d
  toBinary_digit : ∀ d, d < 64 → toBinary (base64Char d) = some d
  toBinary_pad : toBinary (byte '=') = some 0

/-- `base64::encode`. -/
def base64Encode (it : ArchiveIterators) (s : Bytes) : Bytes :=
  let str := cStr s
  let out := (it.sextets str).map it.fromBinary
  let out := out ++ List.replicate ((3 - str.length % 3) % 3) (byte '=')
  cStr out

/-- `base64::decode`; none where an iterator throws. -/
def base64Decode (it : ArchiveIterators) (s : Bytes) : Option Bytes :=
  ((cStr s).mapM it.toBinary).map fun ds =>
    let out := (it.octets ds).rdropWhile (· = 0)
    cStr out

/-! ## §3. The bits of an encoding. -/

theorem length_bitsOf (s : Bytes) : (bitsOf s).length = 8 * s.length := by
  have h := length_flatMap_bits 8 (s.map UInt8.toNat)
  rw [List.flatMap_map, List.length_map] at h
  exact h

/-- Strings are determined by their bits. -/
theorem bitsOf_inj {s t : Bytes} (h : bitsOf s = bitsOf t) : s = t := by
  have hbytes : ∀ u : Bytes, ∀ d ∈ u.map UInt8.toNat, d < 2 ^ 8 := by
    intro u d hd
    obtain ⟨c, -, rfl⟩ := List.mem_map.mp hd
    exact c.toNat_lt
  have hmap : s.map UInt8.toNat = t.map UInt8.toNat := by
    refine flatMap_bits_inj (by omega) (hbytes s) (hbytes t) ?_
    rw [List.flatMap_map, List.flatMap_map]
    exact h
  exact List.map_injective_iff.mpr (fun a b hab => UInt8.toNat_inj.mp hab) hmap

theorem sextetsOf_lt (s : Bytes) : ∀ d ∈ sextetsOf s, d < 2 ^ 6 := by
  induction s using sextetsOf.induct with
  | case1 a b c s ih =>
      intro d hd
      have ha := a.toNat_lt
      have hb := b.toNat_lt
      have hc := c.toNat_lt
      simp only [sextetsOf, List.mem_cons] at hd
      rcases hd with rfl | rfl | rfl | rfl | hd
      · omega
      · omega
      · omega
      · omega
      · exact ih d hd
  | case2 a b =>
      intro d hd
      have ha := a.toNat_lt
      have hb := b.toNat_lt
      simp only [sextetsOf, List.mem_cons, List.not_mem_nil, or_false] at hd
      rcases hd with rfl | rfl | rfl <;> omega
  | case3 a =>
      intro d hd
      have ha := a.toNat_lt
      simp only [sextetsOf, List.mem_cons, List.not_mem_nil, or_false] at hd
      rcases hd with rfl | rfl <;> omega
  | case4 => intro d hd; cases hd

/-- **The bits of an encoding** are those of the string and a few zeros; with
the padding they are whole bytes. -/
theorem sextetsOf_bits (s : Bytes) :
    ∃ k, k < 6 ∧ k + 6 * padding s = 8 * padding s ∧
      (sextetsOf s).flatMap (bits 6) = bitsOf s ++ List.replicate k false := by
  induction s using sextetsOf.induct with
  | case1 a b c s ih =>
      obtain ⟨k, hk, hpad, hbits⟩ := ih
      refine ⟨k, hk, hpad, ?_⟩
      have hb := b.toNat_lt
      have hc := c.toNat_lt
      -- 24 bits in four parts and in three
      have hfour : ∀ n, bits 24 n = bits 6 (n / 2 ^ 18) ++
          (bits 6 (n / 2 ^ 12) ++ (bits 6 (n / 2 ^ 6) ++ bits 6 n)) := by
        intro n
        rw [bits_split 6 18, bits_split 6 12, bits_split 6 6]
      have hthree : bits 24 (2 ^ 16 * a.toNat + (2 ^ 8 * b.toNat + c.toNat)) =
          bits 8 a.toNat ++ (bits 8 b.toNat ++ bits 8 c.toNat) := by
        rw [bits_append 8 16 _ _ (by omega), bits_append 8 8 _ _ (by omega)]
      have hgroup := (hfour _).symm.trans hthree
      simp only [sextetsOf, List.flatMap_cons, bits_mod, hbits]
      show _ = bits 8 a.toNat ++ (bits 8 b.toNat ++ (bits 8 c.toNat ++ bitsOf s)) ++ _
      simp only [← List.append_assoc] at hgroup ⊢
      rw [hgroup]
  | case2 a b =>
      refine ⟨2, by omega, rfl, ?_⟩
      have hb := b.toNat_lt
      have hthree : ∀ n, bits 18 n = bits 6 (n / 2 ^ 12) ++ (bits 6 (n / 2 ^ 6) ++ bits 6 n) := by
        intro n
        rw [bits_split 6 12, bits_split 6 6]
      have htwo : bits 18 (2 ^ 2 * (2 ^ 8 * a.toNat + b.toNat)) =
          bits 8 a.toNat ++ bits 8 b.toNat ++ List.replicate 2 false := by
        have h := bits_append 16 2 (2 ^ 8 * a.toNat + b.toNat) 0 (by omega)
        rw [Nat.add_zero, bits_zero, bits_append 8 8 _ _ (by omega)] at h
        exact h
      have hgroup := (hthree _).symm.trans htwo
      simp only [sextetsOf, List.flatMap_cons, List.flatMap_nil, List.append_nil, bits_mod, hgroup]
      show _ = bits 8 a.toNat ++ (bits 8 b.toNat ++ []) ++ _
      rw [List.append_nil]
  | case3 a =>
      refine ⟨4, by omega, rfl, ?_⟩
      have htwo : ∀ n, bits 12 n = bits 6 (n / 2 ^ 6) ++ bits 6 n := fun n => bits_split 6 6 n
      have hone : bits 12 (2 ^ 4 * a.toNat) = bits 8 a.toNat ++ List.replicate 4 false := by
        have h := bits_append 8 4 a.toNat 0 (by omega)
        rw [Nat.add_zero, bits_zero] at h
        exact h
      have hgroup := (htwo _).symm.trans hone
      simp only [sextetsOf, List.flatMap_cons, List.flatMap_nil, List.append_nil, bits_mod, hgroup]
      show _ = bits 8 a.toNat ++ [] ++ _
      rw [List.append_nil]
  | case4 => exact ⟨0, by omega, rfl, rfl⟩

/-- The padding makes the length a multiple of four. -/
theorem padding_eq (s : Bytes) : padding s = (3 - s.length % 3) % 3 := by
  induction s using padding.induct with
  | case1 a b c s ih =>
      have hlen : (a :: b :: c :: s).length = s.length + 3 := rfl
      rw [padding, ih, hlen]
      omega
  | case2 => rfl
  | case3 => rfl
  | case4 => rfl

/-! ## §4. The codec. -/

/-- The digits of an iterator are those of the encoding. -/
theorem sextets_eq (it : ArchiveIterators) (s : Bytes) : it.sextets s = sextetsOf s := by
  obtain ⟨k, hk, hbits⟩ := it.sextets_bits s
  obtain ⟨k', hk', -, hbits'⟩ := sextetsOf_bits s
  refine flatMap_bits_inj (by omega) (it.sextets_lt s) (sextetsOf_lt s) ?_
  -- both lengths are multiples of six
  have hlen := congrArg List.length hbits
  have hlen' := congrArg List.length hbits'
  rw [length_flatMap_bits, List.length_append, List.length_replicate] at hlen hlen'
  have hkk : k = k' := by omega
  rw [hbits, hbits', hkk]

theorem base64Char_ne_zero : ∀ d, d < 64 → base64Char d ≠ 0 := by decide +kernel

/-- An encoding is a C string. -/
theorem cStr_rfc4648 (s : Bytes) : cStr (rfc4648 s) = rfc4648 s := by
  unfold cStr
  rw [List.takeWhile_eq_self_iff]
  intro c hc
  rcases List.mem_append.mp hc with hc | hc
  · obtain ⟨d, hd, rfl⟩ := List.mem_map.mp hc
    exact decide_eq_true (base64Char_ne_zero d (sextetsOf_lt s d hd))
  · rw [List.eq_of_mem_replicate hc]
    decide

/-- **`encode` encodes its C string.** -/
theorem base64Encode_eq (it : ArchiveIterators) (s : Bytes) : base64Encode it s = rfc4648 (cStr s) := by
  have hchars : (sextetsOf (cStr s)).map it.fromBinary = (sextetsOf (cStr s)).map base64Char := by
    refine List.map_congr_left ?_
    intro d hd
    exact it.fromBinary_digit d (sextetsOf_lt _ d hd)
  unfold base64Encode
  simp only [sextets_eq, hchars, ← padding_eq]
  exact cStr_rfc4648 (cStr s)

/-- The characters of an encoding are read back. -/
theorem toBinary_rfc4648 (it : ArchiveIterators) (s : Bytes) :
    (rfc4648 s).mapM it.toBinary = some (sextetsOf s ++ List.replicate (padding s) 0) := by
  have hmap : ∀ (f : Nat → UInt8) (ds es : List Nat), (∀ d ∈ ds, it.toBinary (f d) = some d) →
      ∀ cs, cs.mapM it.toBinary = some es → (ds.map f ++ cs).mapM it.toBinary = some (ds ++ es) := by
    intro f ds es hf cs hcs
    induction ds with
    | nil => exact hcs
    | cons d ds ih =>
        rw [List.map_cons, List.cons_append, List.mapM_cons, hf d (List.mem_cons_self ..),
          ih (fun x hx => hf x (List.mem_cons_of_mem _ hx))]
        rfl
  have hpad : ∀ n, (List.replicate n (byte '=')).mapM it.toBinary = some (List.replicate n 0) := by
    intro n
    induction n with
    | zero => rfl
    | succ n ih =>
        rw [List.replicate_succ, List.mapM_cons, it.toBinary_pad, ih]
        rfl
  exact hmap base64Char _ _ (fun d hd => it.toBinary_digit d (sextetsOf_lt s d hd)) _ (hpad _)

/-- **The bytes of an encoding** are those of the string, and a zero for each
padding character. -/
theorem octets_rfc4648 (it : ArchiveIterators) (s : Bytes) :
    it.octets (sextetsOf s ++ List.replicate (padding s) 0) = s ++ List.replicate (padding s) 0 := by
  obtain ⟨k, -, hpad, hbits⟩ := sextetsOf_bits s
  have hdigits : ∀ d ∈ sextetsOf s ++ List.replicate (padding s) 0, d < 2 ^ 6 := by
    intro d hd
    rcases List.mem_append.mp hd with hd | hd
    · exact sextetsOf_lt s d hd
    · rw [List.eq_of_mem_replicate hd]
      omega
  obtain ⟨rest, hrest, hoctets⟩ := it.octets_bits _ hdigits
  -- the zeros are whole bytes
  have hzeros : bitsOf (s ++ List.replicate (padding s) 0) =
      bitsOf s ++ List.replicate (8 * padding s) false := by
    unfold bitsOf
    rw [List.flatMap_append]
    congr 1
    have h := flatMap_bits_replicate 8 (padding s)
    rw [← h]
    generalize padding s = n
    induction n with
    | zero => rfl
    | succ n ih =>
        rw [List.replicate_succ, List.replicate_succ, List.flatMap_cons, List.flatMap_cons, ih]
        rfl
  have hall : (sextetsOf s ++ List.replicate (padding s) 0).flatMap (bits 6) =
      bitsOf (s ++ List.replicate (padding s) 0) := by
    rw [List.flatMap_append, hbits, flatMap_bits_replicate, hzeros, List.append_assoc,
      ← List.replicate_add, hpad]
  rw [hall] at hoctets
  have hlen := congrArg List.length hoctets
  simp only [List.length_append, length_bitsOf, List.length_replicate] at hlen
  have hempty : rest = [] := List.length_eq_zero_iff.mp (by omega)
  rw [hempty, List.append_nil] at hoctets
  exact (bitsOf_inj hoctets).symm

/-- A string without NUL is left when the zeros behind it are trimmed. -/
theorem trim_zeros {s : Bytes} (hs : (0 : UInt8) ∉ s) (n : Nat) :
    (s ++ List.replicate n 0).rdropWhile (· = 0) = s := by
  induction n with
  | zero =>
      rw [List.replicate_zero, List.append_nil, List.rdropWhile_eq_self_iff]
      intro hne hlast
      have hzero : s.getLast hne = 0 := of_decide_eq_true hlast
      exact hs (hzero ▸ List.getLast_mem hne)
  | succ n ih =>
      rw [List.replicate_succ', ← List.append_assoc, List.rdropWhile_concat_pos _ _ _ rfl]
      exact ih

/-- **BASE64 IS FAITHFUL ON STRINGS WITHOUT NUL.**  `encode` gives the encoding
of the string and `decode` gives the string back, if and only if there is no
NUL in it. -/
theorem base64_faithful (it : ArchiveIterators) (s : Bytes) :
    (base64Encode it s = rfc4648 s ∧ base64Decode it (rfc4648 s) = some s) ↔ (0 : UInt8) ∉ s := by
  have hdecode : base64Decode it (rfc4648 s) =
      some (cStr ((s ++ List.replicate (padding s) 0).rdropWhile (· = 0))) := by
    unfold base64Decode
    rw [cStr_rfc4648, toBinary_rfc4648, Option.map_some, octets_rfc4648]
  rw [base64Encode_eq, hdecode]
  constructor
  · intro ⟨_, h⟩
    have hs := Option.some.inj h
    rw [← hs]
    -- what `lua_pushstring` takes has no NUL
    intro hz
    exact absurd (List.mem_takeWhile_imp hz) (by decide)
  · intro hs
    rw [trim_zeros hs, (cStr_eq_self_iff s).mpr hs]
    exact ⟨rfl, rfl⟩

/-! ## §5. Iterators that do what is documented. -/

/-- The bytes of six-bit numbers: 24 bits at a time, without the bits of an
incomplete byte. -/
def octetsOf : List Nat → Bytes
  | a :: b :: c :: d :: ds =>
      let n := 2 ^ 18 * a + (2 ^ 12 * b + (2 ^ 6 * c + d))
      UInt8.ofNat (n / 2 ^ 16) :: UInt8.ofNat (n / 2 ^ 8) :: UInt8.ofNat n :: octetsOf ds
  | [a, b, c] =>
      let n := 2 ^ 12 * a + (2 ^ 6 * b + c)
      [UInt8.ofNat (n / 2 ^ 10), UInt8.ofNat (n / 2 ^ 2)]
  | [a, b] => [UInt8.ofNat ((2 ^ 6 * a + b) / 2 ^ 4)]
  | [_] => []
  | [] => []

theorem bits_ofNat (n : Nat) : bits 8 (UInt8.ofNat n).toNat = bits 8 n := by
  rw [UInt8.toNat_ofNat']
  exact bits_mod 8 n

theorem octetsOf_bits (ds : List Nat) : (∀ d ∈ ds, d < 2 ^ 6) →
    ∃ rest, rest.length < 8 ∧ ds.flatMap (bits 6) = bitsOf (octetsOf ds) ++ rest := by
  induction ds using octetsOf.induct with
  | case1 a b c d ds ih =>
      intro h
      have hb := h b (by simp)
      have hc := h c (by simp)
      have hd := h d (by simp)
      obtain ⟨rest, hrest, hbits⟩ := ih (fun x hx => h x (by simp [hx]))
      refine ⟨rest, hrest, ?_⟩
      have hfour : bits 24 (2 ^ 18 * a + (2 ^ 12 * b + (2 ^ 6 * c + d))) =
          bits 6 a ++ (bits 6 b ++ (bits 6 c ++ bits 6 d)) := by
        rw [bits_append 6 18 _ _ (by omega), bits_append 6 12 _ _ (by omega),
          bits_append 6 6 _ _ (by omega)]
      have hthree : ∀ n, bits 24 n = bits 8 (n / 2 ^ 16) ++ (bits 8 (n / 2 ^ 8) ++ bits 8 n) := by
        intro n
        rw [bits_split 8 16, bits_split 8 8]
      have hgroup := hfour.symm.trans (hthree _)
      simp only [octetsOf, bitsOf, List.flatMap_cons, bits_ofNat] at hbits ⊢
      simp only [hbits, ← List.append_assoc] at hgroup ⊢
      rw [hgroup]
  | case2 a b c =>
      intro h
      have hb := h b (by simp)
      have hc := h c (by simp)
      refine ⟨bits 2 (2 ^ 12 * a + (2 ^ 6 * b + c)), by rw [length_bits]; omega, ?_⟩
      have hthree : bits 18 (2 ^ 12 * a + (2 ^ 6 * b + c)) = bits 6 a ++ (bits 6 b ++ bits 6 c) := by
        rw [bits_append 6 12 _ _ (by omega), bits_append 6 6 _ _ (by omega)]
      have htwo : ∀ n, bits 18 n = bits 8 (n / 2 ^ 10) ++ (bits 8 (n / 2 ^ 2) ++ bits 2 n) := by
        intro n
        rw [bits_split 8 10, bits_split 8 2]
      simp only [octetsOf, bitsOf, List.flatMap_cons, List.flatMap_nil, List.append_nil, bits_ofNat]
      rw [List.append_assoc, ← htwo, hthree]
  | case3 a b =>
      intro h
      have hb := h b (by simp)
      refine ⟨bits 4 (2 ^ 6 * a + b), by rw [length_bits]; omega, ?_⟩
      simp only [octetsOf, bitsOf, List.flatMap_cons, List.flatMap_nil, List.append_nil, bits_ofNat]
      rw [← bits_split 8 4, bits_append 6 6 _ _ (by omega)]
  | case4 a =>
      intro _
      refine ⟨bits 6 a, by rw [length_bits]; omega, ?_⟩
      simp only [octetsOf, bitsOf, List.flatMap_cons, List.flatMap_nil, List.append_nil, List.nil_append]
  | case5 => exact fun _ => ⟨[], by simp, rfl⟩

/-- Iterators as the documentation describes them. -/
def archiveIterators : ArchiveIterators where
  sextets := sextetsOf
  octets := octetsOf
  fromBinary := base64Char
  toBinary c :=
    if c = byte '=' then some 0
    else if c ∈ alphabet then some (alphabet.idxOf c) else none
  sextets_lt := sextetsOf_lt
  sextets_bits s := by
    obtain ⟨k, hk, -, hbits⟩ := sextetsOf_bits s
    exact ⟨k, hk, hbits⟩
  octets_bits := octetsOf_bits
  fromBinary_digit _ _ := rfl
  toBinary_digit := by decide +kernel
  toBinary_pad := by decide +kernel

example : base64Encode archiveIterators (bytes "petrel roxx :-)") = bytes "cGV0cmVsIHJveHggOi0p" := by
  decide +kernel

/-- A text without NUL. -/
theorem base64_faithful_text :
    base64Encode archiveIterators (bytes "petrel") = rfc4648 (bytes "petrel") ∧
      base64Decode archiveIterators (rfc4648 (bytes "petrel")) = some (bytes "petrel") :=
  (base64_faithful archiveIterators (bytes "petrel")).mpr (by decide)

/-- **A NUL ENDS THE STRING**: of three bytes only the first is encoded, and
the decoder loses the last two. -/
theorem base64_cut_at_nul :
    base64Encode archiveIterators [97, 0, 98] = bytes "YQ==" ∧ rfc4648 [97, 0, 98] = bytes "YQBi" ∧
      base64Decode archiveIterators (bytes "YQBi") = some [97] ∧
      ¬ ∀ s, base64Encode archiveIterators s = rfc4648 s ∧
        base64Decode archiveIterators (rfc4648 s) = some s := by
  refine ⟨by decide +kernel, by decide +kernel, by decide +kernel, ?_⟩
  intro h
  exact absurd (h [97, 0, 98]).1 (by decide +kernel)

end Petrel
