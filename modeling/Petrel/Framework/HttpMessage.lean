/-
  Petrel.Framework.HttpMessage — HTTP/1 request messages as bytes (RFC 7230).

  A request is a request line, header fields and a body whose length its
  Content-Length states; without that field there is no body.  A decoder takes
  one message after the other from a byte stream and rejects what is malformed,
  and also transfer codings, which it does not know.

  Main results:
    * `decodeMessage_encode` — a well-formed message is read back, whatever
      bytes follow it.
    * `decodeAll_encode`     — and so is a stream of them.
    * `decimal_toDigits`     — a number is read back from its digits.
-/

import Mathlib

namespace Petrel.Framework

/-! ## §1. Octets. -/

abbrev Octets := List UInt8

/-- The octets of an ASCII string literal. -/
def octets (s : String) : Octets := s.toList.map (fun c => c.toNat.toUInt8)

def crlf : Octets := [13, 10]

/-- OWS: a space or a tab. -/
def isOws (c : UInt8) : Bool := c = 32 || c = 9

def isDecimal (c : UInt8) : Bool := 48 ≤ c && c ≤ 57

/-- A `tchar`. -/
def isTchar (c : UInt8) : Bool :=
  isDecimal c || (65 ≤ c && c ≤ 90) || (97 ≤ c && c ≤ 122) ||
    [33, 35, 36, 37, 38, 39, 42, 43, 45, 46, 94, 95, 96, 124, 126].contains c

/-- No space and no control character. -/
def isVisible (c : UInt8) : Bool := 33 ≤ c && c ≠ 127

/-- A byte of a field value. -/
def isFieldByte (c : UInt8) : Bool := c = 9 || (32 ≤ c && c ≠ 127)

def lowerCase (c : UInt8) : UInt8 := if 65 ≤ c && c ≤ 90 then c + 32 else c

/-- Remove the white space around a value. -/
def trimOws (s : Octets) : Octets := (s.dropWhile isOws).rdropWhile isOws

/-- The number that decimal digits stand for. -/
def decimalValue (s : Octets) : Option Nat :=
  if s ≠ [] ∧ s.all isDecimal then
    some (s.foldl (fun n c => 10 * n + (c.toNat - 48)) 0)
  else none

/-! ## §2. Messages. -/

abbrev Field := Octets × Octets

structure RequestMessage where
  method : Octets
  target : Octets
  version : Octets
  fields : List Field
  body : Octets
  deriving DecidableEq

/-- The values of the fields with a name, which is given in lower case. -/
def fieldValues (fields : List Field) (name : Octets) : List Octets :=
  (fields.filter (fun f => f.1.map lowerCase = name)).map Prod.snd

/-- The length of the body, by the rules for requests.  A message with two
different lengths is rejected, and so is one with a transfer coding. -/
def bodyLength (fields : List Field) : Option Nat :=
  if fieldValues fields (octets "transfer-encoding") ≠ [] then none
  else
    match fieldValues fields (octets "content-length") with
    | [] => some 0
    | v :: vs => if vs.all (· = v) then decimalValue v else none

/-- The options of the Connection fields, in lower case. -/
def RequestMessage.connectionOptions (m : RequestMessage) : List Octets :=
  (fieldValues m.fields (octets "connection")).flatMap fun v =>
    (v.splitOn 44).map (fun o => (trimOws o).map lowerCase)

/-- The sender wants the connection to be closed after the response. -/
def RequestMessage.asksClose (m : RequestMessage) : Bool :=
  m.connectionOptions.contains (octets "close") ||
    (m.version = octets "HTTP/1.0" && !m.connectionOptions.contains (octets "keep-alive"))

/-! ## §3. Decoding. -/

/-- The line before the first CRLF, and what follows. -/
def splitLine : Octets → Option (Octets × Octets)
  | [] => none
  | c :: s =>
      if c = 13 ∧ s.head? = some 10 then some ([], s.tail)
      else (splitLine s).map (fun p => (c :: p.1, p.2))

/-- `HTTP/` DIGIT `.` DIGIT. -/
def isVersion (s : Octets) : Bool :=
  s.take 5 = octets "HTTP/" &&
    match s.drop 5 with
    | [major, dot, minor] => isDecimal major && dot = 46 && isDecimal minor
    | _ => false

def parseRequestLine (line : Octets) : Option (Octets × Octets × Octets) :=
  match line.splitOn 32 with
  | [method, target, version] =>
      if method ≠ [] ∧ method.all isTchar ∧ target ≠ [] ∧ target.all isVisible ∧ isVersion version then
        some (method, target, version)
      else none
  | _ => none

def parseField (line : Octets) : Option Field :=
  let name := line.takeWhile (· ≠ 58)
  let value := line.drop (name.length + 1)
  if name ≠ [] ∧ name.all isTchar ∧ name.length < line.length ∧ value.all isFieldByte then
    some (name, trimOws value)
  else none

/-- The fields up to the empty line. -/
def parseFields : Nat → Octets → Option (List Field × Octets)
  | 0, _ => none
  | fuel + 1, s =>
      (splitLine s).bind fun (line, rest) =>
        if line = [] then some ([], rest)
        else
          (parseField line).bind fun field =>
            (parseFields fuel rest).map fun p => (field :: p.1, p.2)

/-- One message, and the bytes behind it. -/
def decodeMessage (s : Octets) : Option (RequestMessage × Octets) :=
  (splitLine s).bind fun (line, rest) =>
    (parseRequestLine line).bind fun (method, target, version) =>
      (parseFields (rest.length + 1) rest).bind fun (fields, rest) =>
        (bodyLength fields).bind fun n =>
          if n ≤ rest.length then some (⟨method, target, version, fields, rest.take n⟩, rest.drop n)
          else none

/-- All messages of a stream. -/
def decodeFrom : Nat → Octets → Option (List RequestMessage)
  | _, [] => some []
  | 0, _ :: _ => none
  | fuel + 1, c :: s =>
      (decodeMessage (c :: s)).bind fun (m, rest) => (decodeFrom fuel rest).map (m :: ·)

/-- Each message takes a byte. -/
def decodeAll (s : Octets) : Option (List RequestMessage) := decodeFrom s.length s

/-! ## §4. Encoding. -/

def encodeField (f : Field) : Octets := f.1 ++ [58, 32] ++ f.2 ++ crlf

def RequestMessage.encode (m : RequestMessage) : Octets :=
  m.method ++ [32] ++ m.target ++ [32] ++ m.version ++ crlf ++ m.fields.flatMap encodeField ++ crlf ++
    m.body

/-- A field that stands for itself. -/
structure Field.WellFormed (f : Field) : Prop where
  named : f.1 ≠ []
  name : f.1.all isTchar = true
  value : f.2.all isFieldByte = true
  trimmed : trimOws f.2 = f.2

/-- A message that the decoder accepts. -/
structure RequestMessage.WellFormed (m : RequestMessage) : Prop where
  methodNamed : m.method ≠ []
  method : m.method.all isTchar = true
  targetNamed : m.target ≠ []
  target : m.target.all isVisible = true
  version : isVersion m.version = true
  fields : ∀ f ∈ m.fields, Field.WellFormed f
  length : bodyLength m.fields = some m.body.length

/-! ## §5. Reading what was written. -/

/-- A line without a CR. -/
theorem splitLine_crlf {line : Octets} (hline : ∀ c ∈ line, c ≠ 13) (rest : Octets) :
    splitLine (line ++ crlf ++ rest) = some (line, rest) := by
  induction line with
  | nil => rfl
  | cons c line ih =>
      have hc : c ≠ 13 := hline c List.mem_cons_self
      show (if c = 13 ∧ _ then _ else (splitLine (line ++ crlf ++ rest)).map _) = _
      rw [if_neg (fun h => hc h.1), ih fun d hd => hline d (List.mem_cons_of_mem c hd)]
      rfl

theorem tchar_facts : ∀ c : UInt8, isTchar c = true → c ≠ 13 ∧ c ≠ 32 ∧ c ≠ 58 := by decide +kernel

theorem visible_facts : ∀ c : UInt8, isVisible c = true →
    c ≠ 13 ∧ c ≠ 32 ∧ isOws c = false ∧ isFieldByte c = true := by
  decide +kernel

theorem fieldByte_facts : ∀ c : UInt8, isFieldByte c = true → c ≠ 13 := by decide +kernel

/-- What has no white space has none around it. -/
theorem trimOws_visible {s : Octets} (h : s.all isVisible = true) : trimOws s = s := by
  have hows : ∀ c ∈ s, isOws c = false := fun c hc => (visible_facts c (List.all_eq_true.mp h c hc)).2.2.1
  unfold trimOws
  rw [List.dropWhile_eq_self_iff.mpr, List.rdropWhile_eq_self_iff.mpr]
  · intro hne hlast
    rw [hows _ (List.getLast_mem hne)] at hlast
    exact nomatch hlast
  · intro hpos hfirst
    rw [hows _ (List.getElem_mem hpos)] at hfirst
    exact nomatch hfirst

/-- **A field line is read back.** -/
theorem parseField_encode {f : Field} (hf : Field.WellFormed f) :
    parseField (f.1 ++ [58, 32] ++ f.2) = some f := by
  have hname : (f.1 ++ [58, 32] ++ f.2).takeWhile (· ≠ 58) = f.1 := by
    rw [List.append_assoc, List.takeWhile_append_of_pos]
    · show f.1 ++ [] = f.1
      rw [List.append_nil]
    · intro c hc
      exact decide_eq_true (tchar_facts c (List.all_eq_true.mp hf.name c hc)).2.2
  have hvalue : (f.1 ++ [58, 32] ++ f.2).drop (f.1.length + 1) = 32 :: f.2 := by
    rw [List.append_assoc, ← List.drop_drop, List.drop_left]
    rfl
  have hlt : f.1.length < (f.1 ++ [58, 32] ++ f.2).length := by
    simp only [List.length_append, List.length_cons]
    omega
  have hbytes : (32 :: f.2 : Octets).all isFieldByte = true := by
    rw [List.all_cons, hf.value]
    decide
  have htrim : trimOws (32 :: f.2) = f.2 := by
    conv_rhs => rw [← hf.trimmed]
    rfl
  unfold parseField
  simp only [hname, hvalue]
  rw [if_pos ⟨hf.named, hf.name, hlt, hbytes⟩, htrim]

/-- A field line has no CR in it. -/
theorem fieldLine_facts {f : Field} (hf : Field.WellFormed f) :
    f.1 ++ [58, 32] ++ f.2 ≠ [] ∧ ∀ c ∈ f.1 ++ [58, 32] ++ f.2, c ≠ 13 := by
  refine ⟨by simp, ?_⟩
  intro c hc
  rcases List.mem_append.mp hc with hc | hc
  · rcases List.mem_append.mp hc with hc | hc
    · exact (tchar_facts c (List.all_eq_true.mp hf.name c hc)).1
    · rintro rfl
      exact absurd hc (by decide)
  · exact fieldByte_facts c (List.all_eq_true.mp hf.value c hc)

/-- **The fields are read back**, up to the empty line. -/
theorem parseFields_encode (fields : List Field) (hfields : ∀ f ∈ fields, Field.WellFormed f)
    (rest : Octets) : ∀ fuel, fields.length < fuel →
      parseFields fuel (fields.flatMap encodeField ++ crlf ++ rest) = some (fields, rest) := by
  induction fields with
  | nil =>
      intro fuel hfuel
      obtain ⟨fuel, rfl⟩ := Nat.exists_eq_succ_of_ne_zero (Nat.ne_zero_of_lt hfuel)
      rfl
  | cons f fields ih =>
      intro fuel hfuel
      obtain ⟨fuel, rfl⟩ := Nat.exists_eq_succ_of_ne_zero (Nat.ne_zero_of_lt hfuel)
      have hf := hfields f List.mem_cons_self
      obtain ⟨hne, hcr⟩ := fieldLine_facts hf
      have hsplit : splitLine ((f :: fields).flatMap encodeField ++ crlf ++ rest) =
          some (f.1 ++ [58, 32] ++ f.2, fields.flatMap encodeField ++ crlf ++ rest) := by
        have := splitLine_crlf hcr (fields.flatMap encodeField ++ crlf ++ rest)
        simpa [encodeField, List.append_assoc] using this
      have hnext := ih (fun g hg => hfields g (List.mem_cons_of_mem f hg)) fuel
        (Nat.lt_of_succ_lt_succ hfuel)
      unfold parseFields
      rw [hsplit, Option.bind_some]
      simp only
      rw [if_neg hne, parseField_encode hf, Option.bind_some, hnext]
      rfl

theorem decimal_facts : ∀ c : UInt8, isDecimal c = true → isVisible c = true := by decide +kernel

theorem version_visible {s : Octets} (h : isVersion s = true) : s.all isVisible = true := by
  unfold isVersion at h
  rw [Bool.and_eq_true, decide_eq_true_iff] at h
  rw [← List.take_append_drop 5 s, List.all_append, Bool.and_eq_true, h.1]
  refine ⟨by decide, ?_⟩
  match hdrop : s.drop 5, h.2 with
  | [major, dot, minor], hparts =>
      simp only [Bool.and_eq_true, decide_eq_true_iff] at hparts
      obtain ⟨⟨hmajor, rfl⟩, hminor⟩ := hparts
      simp [decimal_facts major hmajor, decimal_facts minor hminor, show isVisible 46 = true by decide]

/-- **The request line is read back.** -/
theorem parseRequestLine_encode {m : RequestMessage} (hm : m.WellFormed) :
    parseRequestLine (m.method ++ [32] ++ m.target ++ [32] ++ m.version) =
      some (m.method, m.target, m.version) := by
  have hmethod : (32 : UInt8) ∉ m.method := fun h =>
    (tchar_facts 32 (List.all_eq_true.mp hm.method 32 h)).2.1 rfl
  have htarget : (32 : UInt8) ∉ m.target := fun h =>
    (visible_facts 32 (List.all_eq_true.mp hm.target 32 h)).2.1 rfl
  have hversion : (32 : UInt8) ∉ m.version := fun h =>
    (visible_facts 32 (List.all_eq_true.mp (version_visible hm.version) 32 h)).2.1 rfl
  -- the line has three parts
  have hparts : (m.method ++ [32] ++ m.target ++ [32] ++ m.version).splitOn 32 =
      [m.method, m.target, m.version] := by
    have happend : m.method ++ [32] ++ m.target ++ [32] ++ m.version =
        m.method ++ 32 :: (m.target ++ 32 :: m.version) := by
      simp
    rw [happend, List.splitOn_append_cons_self_of_not_mem hmethod,
      List.splitOn_append_cons_self_of_not_mem htarget, List.splitOn_eq_singleton hversion]
  unfold parseRequestLine
  rw [hparts]
  exact if_pos ⟨hm.methodNamed, hm.method, hm.targetNamed, hm.target, hm.version⟩

theorem requestLine_facts {m : RequestMessage} (hm : m.WellFormed) :
    ∀ c ∈ m.method ++ [32] ++ m.target ++ [32] ++ m.version, c ≠ 13 := by
  intro c hc
  simp only [List.mem_append, List.mem_singleton] at hc
  rcases hc with (((hc | rfl) | hc) | rfl) | hc
  · exact (tchar_facts c (List.all_eq_true.mp hm.method c hc)).1
  · decide
  · exact (visible_facts c (List.all_eq_true.mp hm.target c hc)).1
  · decide
  · exact (visible_facts c (List.all_eq_true.mp (version_visible hm.version) c hc)).1

/-- Each field takes a byte. -/
theorem length_fields_le (fields : List Field) :
    fields.length ≤ (fields.flatMap encodeField).length := by
  induction fields with
  | nil => exact Nat.le_refl 0
  | cons f fields ih =>
      rw [List.flatMap_cons, List.length_append, List.length_cons]
      have : 1 ≤ (encodeField f).length := by
        unfold encodeField crlf
        simp only [List.length_append, List.length_cons]
        omega
      omega

/-- **A MESSAGE IS READ BACK**, whatever bytes follow it. -/
theorem decodeMessage_encode {m : RequestMessage} (hm : m.WellFormed) (rest : Octets) :
    decodeMessage (m.encode ++ rest) = some (m, rest) := by
  have hsplit : splitLine (m.encode ++ rest) = some (m.method ++ [32] ++ m.target ++ [32] ++ m.version,
      m.fields.flatMap encodeField ++ crlf ++ (m.body ++ rest)) := by
    have := splitLine_crlf (requestLine_facts hm)
      (m.fields.flatMap encodeField ++ crlf ++ (m.body ++ rest))
    rw [← this]
    congr 1
    unfold RequestMessage.encode
    simp only [List.append_assoc]
  have hfuel : m.fields.length <
      (m.fields.flatMap encodeField ++ crlf ++ (m.body ++ rest)).length + 1 := by
    have := length_fields_le m.fields
    simp only [List.length_append]
    omega
  have hle : m.body.length ≤ (m.body ++ rest).length := by
    rw [List.length_append]
    exact Nat.le_add_right _ _
  unfold decodeMessage
  rw [hsplit, Option.bind_some]
  simp only [parseRequestLine_encode hm, parseFields_encode m.fields hm.fields _ _ hfuel, hm.length,
    Option.bind_some]
  rw [if_pos hle, List.take_left, List.drop_left]

/-- **A STREAM OF MESSAGES IS READ BACK.** -/
theorem decodeAll_encode (ms : List RequestMessage) (hms : ∀ m ∈ ms, m.WellFormed) :
    decodeAll (ms.flatMap RequestMessage.encode) = some ms := by
  have hfuel : ∀ fuel, ms.length ≤ fuel → decodeFrom fuel (ms.flatMap RequestMessage.encode) = some ms := by
    induction ms with
    | nil =>
        intro fuel _
        cases fuel <;> rfl
    | cons m ms ih =>
        intro fuel hfuel
        obtain ⟨fuel, rfl⟩ := Nat.exists_eq_succ_of_ne_zero (Nat.ne_zero_of_lt hfuel)
        have hm := hms m List.mem_cons_self
        have hdecode := decodeMessage_encode hm (ms.flatMap RequestMessage.encode)
        rw [← List.flatMap_cons] at hdecode
        have hnext := ih (fun m' hm' => hms m' (List.mem_cons_of_mem m hm')) fuel
          (Nat.le_of_succ_le_succ hfuel)
        cases hs : (m :: ms).flatMap RequestMessage.encode with
        | nil =>
            rw [hs] at hdecode
            exact nomatch hdecode
        | cons c s =>
            rw [hs] at hdecode
            rw [decodeFrom, hdecode, Option.bind_some]
            show (decodeFrom fuel (ms.flatMap RequestMessage.encode)).map _ = _
            rw [hnext]
            rfl
  refine hfuel _ ?_
  clear hfuel
  induction ms with
  | nil => exact Nat.le_refl 0
  | cons m ms ih =>
      have := ih fun m' hm' => hms m' (List.mem_cons_of_mem m hm')
      have hpos : 1 ≤ m.encode.length := by
        unfold RequestMessage.encode
        simp only [List.length_append, List.length_cons]
        omega
      rw [List.flatMap_cons, List.length_append, List.length_cons]
      omega

/-! ## §6. Numbers. -/

theorem decimalValue_visible {s : Octets} {n : Nat} (h : decimalValue s = some n) :
    s.all isVisible = true := by
  unfold decimalValue at h
  by_cases hs : s ≠ [] ∧ s.all isDecimal = true
  · exact List.all_eq_true.mpr fun c hc => decimal_facts c (List.all_eq_true.mp hs.2 c hc)
  · rw [if_neg hs] at h
    exact nomatch h

/-- **A number is read back from its digits.** -/
theorem decimal_toDigits (n : Nat) :
    decimalValue ((Nat.toDigits 10 n).map (fun c => c.toNat.toUInt8)) = some n := by
  have hdigit : ∀ c ∈ Nat.toDigits 10 n, 48 ≤ c.toNat ∧ c.toNat ≤ 57 := by
    intro c hc
    have := Nat.isDigit_of_mem_toDigits (by decide) (by decide) hc
    simpa [Char.isDigit, UInt32.le_iff_toNat_le] using this
  have htoNat : ∀ c ∈ Nat.toDigits 10 n, c.toNat.toUInt8.toNat = c.toNat := by
    intro c hc
    have := (hdigit c hc).2
    rw [Nat.toUInt8_eq, UInt8.toNat_ofNat', Nat.mod_eq_of_lt (by omega)]
  have hne : (Nat.toDigits 10 n).map (fun c => c.toNat.toUInt8) ≠ [] := by
    intro h
    have := Nat.length_toDigits_pos (b := 10) (n := n)
    rw [List.map_eq_nil_iff.mp h] at this
    exact absurd this (Nat.lt_irrefl 0)
  have hall : ((Nat.toDigits 10 n).map (fun c => c.toNat.toUInt8)).all isDecimal = true := by
    rw [List.all_map, List.all_eq_true]
    intro c hc
    have := hdigit c hc
    simp only [Function.comp, isDecimal, Bool.and_eq_true, decide_eq_true_iff, UInt8.le_iff_toNat_le,
      htoNat c hc]
    exact this
  have hfold : ∀ (cs : List Char) (k : Nat), (∀ c ∈ cs, c.toNat.toUInt8.toNat = c.toNat) →
      (cs.map (fun c => c.toNat.toUInt8)).foldl (fun n c => 10 * n + (c.toNat - 48)) k =
        Nat.ofDigitChars 10 cs k := by
    intro cs
    induction cs with
    | nil =>
        intro k _
        exact Nat.ofDigitChars_nil.symm
    | cons c cs ih =>
        intro k hcs
        rw [List.map_cons, List.foldl_cons, Nat.ofDigitChars_cons, hcs c List.mem_cons_self]
        exact ih _ fun d hd => hcs d (List.mem_cons_of_mem c hd)
  unfold decimalValue
  rw [if_pos ⟨hne, hall⟩, hfold _ 0 htoNat, Nat.ofDigitChars_ten_toDigits]

end Petrel.Framework
