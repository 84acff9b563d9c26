/-
  Petrel.Tools.UrlDecode — `url_decode` of the Lua tools.

  A form-encoded string is decoded in three passes over the whole string: the
  plus signs, the percent escapes, the line ends.  The first pass makes spaces,
  which begin no escape, and the second one makes any bytes, but goes on behind
  each escape it has replaced.

  Main results:
    * `gsub_plus`, `gsub_percent` — what the first two passes make of an
      encoding.
    * `urlDecode_eq`       — the three passes are one decoding and the folding
      of the line ends.
    * `urlDecode_encoding` — an encoding of a string without CR LF decodes to it.
-/

import Petrel.Lua.Strings

namespace Petrel

/-! ## §1. The function. -/

/-- The third pass: CR LF becomes LF. -/
def foldLines (str : Bytes) : Bytes := gsub [.lit 13, .lit 10] (fun _ => [10]) str

/-- `url_decode`. -/
def urlDecode (str : Bytes) : Bytes :=
  let str := gsub [.lit (byte '+')] (fun _ => bytes " ") str
  -- the capture is what stands behind the '%'
  let str := gsub [.lit (byte '%'), .hex, .hex] (fun m => [UInt8.ofNat (toNumber16 (m.drop 1))]) str
  foldLines str

/-! ## §2. Form encoding. -/

/-- A hex digit in either letter case. -/
def HexDigit (c : UInt8) (n : Nat) : Prop :=
  (bytes "0123456789abcdef")[n]? = some c ∨ (bytes "0123456789ABCDEF")[n]? = some c

/-- A form encoding of a string: every byte is escaped, or stands for itself, or
is a space written as a plus sign. -/
inductive FormEncoding : Bytes → Bytes → Prop where
  | nil : FormEncoding [] []
  | escaped {b h l : UInt8} {s e : Bytes} : HexDigit h (b.toNat / 16) → HexDigit l (b.toNat % 16) →
      FormEncoding s e → FormEncoding (b :: s) (byte '%' :: h :: l :: e)
  | literal {b : UInt8} {s e : Bytes} : b ≠ byte '%' → b ≠ byte '+' → b ≠ byte ' ' →
      FormEncoding s e → FormEncoding (b :: s) (b :: e)
  | plus {s e : Bytes} : FormEncoding s e → FormEncoding (byte ' ' :: s) (byte '+' :: e)

/-- What the first pass leaves: every byte is escaped or stands for itself. -/
inductive PercentEncoding : Bytes → Bytes → Prop where
  | nil : PercentEncoding [] []
  | escaped {b h l : UInt8} {s e : Bytes} : HexDigit h (b.toNat / 16) → HexDigit l (b.toNat % 16) →
      PercentEncoding s e → PercentEncoding (b :: s) (byte '%' :: h :: l :: e)
  | literal {b : UInt8} {s e : Bytes} : b ≠ byte '%' →
      PercentEncoding s e → PercentEncoding (b :: s) (b :: e)

/-- The digits of `isxdigit` and `tonumber`. -/
theorem hexDigit_value {c : UInt8} {n : Nat} (h : HexDigit c n) :
    isHexDigit c = true ∧ hexValue c = n := by
  have hn : n < 16 := by
    rcases h with h | h
    · exact (List.getElem?_eq_some_iff.mp h).1
    · exact (List.getElem?_eq_some_iff.mp h).1
  rcases h with h | h
  · interval_cases n <;> (obtain rfl := Option.some.inj h; decide)
  · interval_cases n <;> (obtain rfl := Option.some.inj h; decide)

theorem HexDigit.ne {c d : UInt8} {n : Nat} (h : HexDigit c n) (hd : isHexDigit d = false) :
    c ≠ d := by
  rintro rfl
  rw [(hexDigit_value h).1] at hd
  exact nomatch hd

/-! ## §3. The passes. -/

/-- **The first pass**: the escapes have no plus sign. -/
theorem gsub_plus {s e : Bytes} (h : FormEncoding s e) :
    PercentEncoding s (gsub [.lit (byte '+')] (fun _ => bytes " ") e) := by
  have hother : ∀ {b : UInt8} {e : Bytes}, b ≠ byte '+' →
      gsub [.lit (byte '+')] (fun _ => bytes " ") (b :: e) =
        b :: gsub [.lit (byte '+')] (fun _ => bytes " ") e := by
    intro b e hb
    refine gsub_skip _ ?_
    simp [patMatches, PatItem.fits, hb]
  induction h with
  | nil => exact .nil
  | escaped hh hl _ ih =>
      rw [hother (by decide), hother (hh.ne (by decide)), hother (hl.ne (by decide))]
      exact .escaped hh hl ih
  | literal hpercent hplus _ _ ih =>
      rw [hother hplus]
      exact .literal hpercent ih
  | @plus s e _ ih =>
      have hmatch : patMatches [.lit (byte '+')] [byte '+'] = true := by decide
      have hstep := gsub_match (fun _ => bytes " ") hmatch rfl (List.cons_ne_nil _ _) e
      rw [List.singleton_append] at hstep
      rw [hstep]
      exact .literal (by decide) ih

/-- **The second pass** decodes every escape once: it goes on behind it. -/
theorem gsub_percent {s e : Bytes} (h : PercentEncoding s e) :
    gsub [.lit (byte '%'), .hex, .hex] (fun m => [UInt8.ofNat (toNumber16 (m.drop 1))]) e = s := by
  induction h with
  | nil => rfl
  | @escaped b h l s e hh hl _ ih =>
      obtain ⟨hhex, hhval⟩ := hexDigit_value hh
      obtain ⟨hlex, hlval⟩ := hexDigit_value hl
      have hmatch : patMatches [.lit (byte '%'), .hex, .hex] [byte '%', h, l] = true := by
        simp [patMatches, PatItem.fits, hhex, hlex]
      have hvalue : toNumber16 [h, l] = b.toNat := by
        simp only [toNumber16, List.foldl_cons, List.foldl_nil, hhval, hlval]
        omega
      have hstep := gsub_match (fun m => [UInt8.ofNat (toNumber16 (m.drop 1))]) hmatch rfl
        (List.cons_ne_nil _ _) e
      rw [ih] at hstep
      refine hstep.trans ?_
      show [UInt8.ofNat (toNumber16 [h, l])] ++ s = b :: s
      rw [hvalue, UInt8.ofNat_toNat]
      rfl
  | @literal b s e hpercent _ ih =>
      have hnone : patMatches [.lit (byte '%'), .hex, .hex] (b :: e) = false := by
        simp [patMatches, PatItem.fits, hpercent]
      rw [gsub_skip _ hnone, ih]

/-- **The passes are one decoding**, and the folding of the line ends. -/
theorem urlDecode_eq {s e : Bytes} (h : FormEncoding s e) : urlDecode e = foldLines s := by
  unfold urlDecode
  dsimp only
  rw [gsub_percent (gsub_plus h)]

theorem foldLines_self {s : Bytes} (h : ¬ [13, 10] <:+: s) : foldLines s = s := by
  refine gsub_self _ fun t ht _ => ?_
  have hnone : ¬ [13, 10] <:+: t := fun hpair => h (hpair.trans ht.isInfix)
  match t with
  | [] => rfl
  | [b] => simp [patMatches]
  | b :: c :: t =>
      by_cases hb : b = 13
      · have hc : c ≠ 10 := by
          rintro rfl
          exact hnone ⟨[], t, by rw [hb]; rfl⟩
        simp [patMatches, PatItem.fits, hc]
      · simp [patMatches, PatItem.fits, hb]

/-- **URL_DECODE INVERTS FORM ENCODING** of every string without a CR LF pair. -/
theorem urlDecode_encoding {s e : Bytes} (h : FormEncoding s e) (hlines : ¬ [13, 10] <:+: s) :
    urlDecode e = s := by
  rw [urlDecode_eq h, foldLines_self hlines]

/-- `a+%2b%25%20` -/
theorem urlDecode_encoding_mixed : urlDecode (bytes "a+%2b%25%20") = bytes "a +% " := by
  refine urlDecode_encoding (s := bytes "a +% ") (e := bytes "a+%2b%25%20") ?_ (by decide)
  exact .literal (by decide) (by decide) (by decide) (.plus
    (.escaped (b := byte '+') (.inl rfl) (.inl rfl)
      (.escaped (b := byte '%') (.inl rfl) (.inl rfl)
        (.escaped (b := byte ' ') (.inl rfl) (.inl rfl) .nil))))

end Petrel
