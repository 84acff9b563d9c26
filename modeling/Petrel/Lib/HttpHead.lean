/-
  Petrel.Lib.HttpHead — reading the head of a response.

  `http_client` reads the head with `std::getline`: the status line, then
  header lines up to a line that holds a single CR.  Of the headers it keeps
  the location and the content length.  What `getline`, `atoi` and
  `istarts_with` do is modelled on byte strings.

  A response is described by its parts: a status line, header lines in any
  order and letter case, and a body whose length every Content-Length header
  states in decimal, with any blanks around it.

  Main results:
    * `parseHead_encode` — reading the head of a response yields its status,
      its location and its content length, and leaves what follows.
    * `contentLen_readable` — the content length is the length of the body.
    * `hasBlankLine_encode` — the first blank line is the end of the head.
-/

import Petrel.Core.Bytes

namespace Petrel

/-! ## §1. Lines and numbers. -/

/-- A `std::istream` over a buffer. -/
structure IStream where
  buf : Bytes
  eof : Bool := false

/-- `std::getline`: none where it fails. -/
def IStream.getline (s : IStream) : Option Bytes × IStream :=
  if s.eof then (none, s)
  else
    let line := s.buf.takeWhile (· ≠ byte '\n')
    match s.buf.dropWhile (· ≠ byte '\n') with
    | _ :: rest => (some line, { s with buf := rest })
    | [] => (if line = [] then none else some line, { buf := [], eof := true })

def isDigit (c : UInt8) : Bool := byte '0' ≤ c && c ≤ byte '9'

def isSpace (c : UInt8) : Bool := c = byte ' ' || (9 ≤ c && c ≤ 13)

/-- The value of decimal digits. -/
def digitsValue (digits : Bytes) : Nat := digits.foldl (fun n c => 10 * n + (c.toNat - 48)) 0

/-- A sign and what follows it. -/
def splitSign : Bytes → Bool × Bytes
  | [] => (false, [])
  | c :: s => if c = byte '-' then (true, s) else if c = byte '+' then (false, s) else (false, c :: s)

/-- `std::atoi`: the value is that of `strtol`, narrowed to 32 bits. -/
def atoi (s : Bytes) : Int :=
  let (neg, s) := splitSign ((cStr s).dropWhile isSpace)
  let n : Int := digitsValue (s.takeWhile isDigit)
  (max (-(2 ^ 63)) (min (if neg then -n else n) (2 ^ 63 - 1))).bmod (2 ^ 32)

/-- The lower case of an ASCII letter. -/
def lower (c : UInt8) : UInt8 := if byte 'A' ≤ c && c ≤ byte 'Z' then c + 32 else c

/-- `boost::algorithm::istarts_with`. -/
def istartsWith (s p : Bytes) : Bool := (s.take p.length).map lower = p.map lower

/-! ## §2. The head of a response. -/

/-- What `send_recv` keeps of a head. -/
structure Head where
  status : Int
  location : Bytes := []
  contentLen : Nat := 0
  deriving DecidableEq

/-- The result of `atoi`, converted to `size_t`. -/
def sizeOfField (field : Bytes) : Nat := (atoi field % 2 ^ 64).toNat

/-- One header line. -/
def Head.readLine (h : Head) (line : Bytes) : Head :=
  if istartsWith line (bytes "location: ") then { h with location := line.drop 10 }
  else if istartsWith line (bytes "content-length: ") then { h with contentLen := sizeOfField (line.drop 16) }
  else h

/-- The loop over the header lines. -/
def headLoop : Nat → IStream → Head → Head × IStream
  | 0, s, h => (h, s)
  | fuel + 1, s, h =>
      match s.getline with
      | (none, s) => (h, s)
      | (some line, s) => if line = bytes "\r" then (h, s) else headLoop fuel s (h.readLine line)

/-- Read the status line and the headers from the buffer: the head or the
error that is raised, and what is left in the buffer.  Each turn of the loop
takes a byte or finds the end. -/
def parseHead (buf : Bytes) : Except Bytes Head × Bytes :=
  match IStream.getline { buf := buf } with
  | (none, s) => (.error (bytes "invalid response"), s.buf)
  | (some line, s) =>
      if !(bytes "HTTP/").isPrefixOf line then (.error (bytes "invalid response"), s.buf)
      else
        let rest := line.drop 5
        let pos := rest.idxOf (byte ' ')
        if pos = rest.length then (.error (bytes "invalid response: no status"), s.buf)
        else
          let status := atoi (rest.drop (pos + 1))
          if status < 100 ∨ 999 < status then
            -- the call of `luaL_error` lacks the number
            (.error (bytes "invalid response: invalid status "), s.buf)
          else
            let (h, s) := headLoop (s.buf.length + 1) s { status := status }
            (.ok h, s.buf)

/-- The delimiter of `async_read_until` is in the buffer. -/
def hasBlankLine : Bytes → Bool
  | [] => false
  | c :: s => (bytes "\r\n\r\n").isPrefixOf (c :: s) || hasBlankLine s

/-! ## §3. Responses. -/

/-- A byte that may stand in a line. -/
def LineByte (c : UInt8) : Prop := c ≠ byte '\r' ∧ c ≠ byte '\n'

/-- Decimal digits, at least one. -/
structure Numeral where
  text : Bytes
  nonempty : text ≠ []
  digits : ∀ c ∈ text, isDigit c = true

def Numeral.value (n : Numeral) : Nat := digitsValue n.text

/-- A blank of a header line. -/
def Blank (c : UInt8) : Prop := c = byte ' ' ∨ c = byte '\t'

/-- A header line: the name, and behind the colon its field, which is the
value with the blanks around it. -/
structure HeaderLine where
  name : Bytes
  field : Bytes
  nameBytes : ∀ c ∈ name, LineByte c ∧ c ≠ byte ':'
  fieldBytes : ∀ c ∈ field, LineByte c

/-- The header has the name, in any letter case. -/
def HeaderLine.Is (h : HeaderLine) (name : Bytes) : Prop := h.name.map lower = name

instance (h : HeaderLine) (name : Bytes) : Decidable (h.Is name) := inferInstanceAs (Decidable (_ = _))

/-- The header has a space behind its colon. -/
def HeaderLine.Spaced (h : HeaderLine) : Prop := h.field.head? = some (byte ' ')

instance (h : HeaderLine) : Decidable h.Spaced := inferInstanceAs (Decidable (_ = _))

/-- The header states a number. -/
def HeaderLine.States (h : HeaderLine) (value : Nat) : Prop :=
  ∃ (pre post : Bytes) (n : Numeral), h.field = pre ++ n.text ++ post ∧
    (∀ c ∈ pre, Blank c) ∧ (∀ c ∈ post, Blank c) ∧ n.value = value

/-- The head of a response: a status line and header lines. -/
structure ResponseHead where
  version : Bytes
  code : Numeral
  reason : Bytes
  headers : List HeaderLine
  versionBytes : ∀ c ∈ version, LineByte c ∧ c ≠ byte ' '
  codeRange : 100 ≤ code.value ∧ code.value ≤ 999
  reasonBytes : ∀ c ∈ reason, LineByte c

/-- A response whose Content-Length is the length of its body. -/
structure HttpResponse where
  version : Bytes
  code : Numeral
  reason : Bytes
  headers : List HeaderLine
  body : Bytes
  versionBytes : ∀ c ∈ version, LineByte c ∧ c ≠ byte ' '
  codeRange : 100 ≤ code.value ∧ code.value ≤ 999
  reasonBytes : ∀ c ∈ reason, LineByte c
  hasLength : ∃ h ∈ headers, h.Is (bytes "content-length")
  lengths : ∀ h ∈ headers, h.Is (bytes "content-length") → h.States body.length

/-- A response without its body. -/
def HttpResponse.toHead (r : HttpResponse) : ResponseHead where
  version := r.version
  code := r.code
  reason := r.reason
  headers := r.headers
  versionBytes := r.versionBytes
  codeRange := r.codeRange
  reasonBytes := r.reasonBytes

def ResponseHead.statusLine (r : ResponseHead) : Bytes :=
  bytes "HTTP/" ++ r.version ++ bytes " " ++ r.code.text ++ bytes " " ++ r.reason

def HttpResponse.statusLine (r : HttpResponse) : Bytes :=
  bytes "HTTP/" ++ r.version ++ bytes " " ++ r.code.text ++ bytes " " ++ r.reason

def HeaderLine.line (h : HeaderLine) : Bytes := h.name ++ bytes ":" ++ h.field

/-- The lines of a head, each ended by CRLF, and the blank line. -/
def encodeLines : List Bytes → Bytes
  | [] => bytes "\r\n"
  | line :: lines => line ++ bytes "\r\n" ++ encodeLines lines

/-- The bytes of a head with the blank line. -/
def ResponseHead.encode (r : ResponseHead) : Bytes :=
  encodeLines (r.statusLine :: r.headers.map HeaderLine.line)

/-- The head of a response with the blank line. -/
def HttpResponse.head (r : HttpResponse) : Bytes :=
  encodeLines (r.statusLine :: r.headers.map HeaderLine.line)

/-- The bytes of a response. -/
def HttpResponse.encode (r : HttpResponse) : Bytes := r.head ++ r.body

/-- What the client reads of the last header with the name that has a space
behind its colon: the field without this space, up to the end of the line and
with the CR. -/
def lastField (name : Bytes) (headers : List HeaderLine) : Option Bytes :=
  ((headers.filter (fun h => h.Is name ∧ h.Spaced)).getLast?).map (fun h => h.field.tail ++ bytes "\r")

/-- What the client keeps of a head. -/
def ResponseHead.kept (r : ResponseHead) : Head where
  status := r.code.value
  location := (lastField (bytes "location") r.headers).getD []
  contentLen := ((lastField (bytes "content-length") r.headers).map sizeOfField).getD 0

/-- The location of a response as the client reads it. -/
def HttpResponse.location (r : HttpResponse) : Bytes := (lastField (bytes "location") r.headers).getD []

/-- The content length of a response as the client reads it. -/
def HttpResponse.contentLen (r : HttpResponse) : Nat :=
  ((lastField (bytes "content-length") r.headers).map sizeOfField).getD 0

/-- The client can tell the length of the body: an `int` holds it, and a
Content-Length header has a space behind its colon. -/
def HttpResponse.Readable (r : HttpResponse) : Prop :=
  r.body.length < 2 ^ 31 ∧ (r.body = [] ∨ ∃ h ∈ r.headers, h.Is (bytes "content-length") ∧ h.Spaced)

instance (r : HttpResponse) : Decidable r.Readable := inferInstanceAs (Decidable (_ ∧ _))

/-! ## §4. Reading what was written. -/

theorem getline_line (line : Bytes) (hline : ∀ c ∈ line, c ≠ byte '\n') (rest : Bytes) :
    IStream.getline { buf := line ++ byte '\n' :: rest } = (some line, { buf := rest }) := by
  have htake : (line ++ byte '\n' :: rest).takeWhile (· ≠ byte '\n') = line := by
    rw [List.takeWhile_append_of_pos (by simpa using hline)]
    simp
  have hdrop : (line ++ byte '\n' :: rest).dropWhile (· ≠ byte '\n') = byte '\n' :: rest := by
    rw [List.dropWhile_append_of_pos (by simpa using hline)]
    simp
  unfold IStream.getline
  rw [htake, hdrop]
  rfl

theorem isDigit_facts : ∀ c : UInt8, isDigit c = true →
    c ≠ 0 ∧ isSpace c = false ∧ c ≠ byte '-' ∧ c ≠ byte '+' := by
  decide +kernel

theorem isDigit_lineByte : ∀ c : UInt8, isDigit c = true → LineByte c := by
  unfold LineByte
  decide +kernel

theorem blank_facts : ∀ c : UInt8, c = byte ' ' ∨ c = byte '\t' →
    c ≠ 0 ∧ isSpace c = true ∧ isDigit c = false := by
  decide +kernel

/-- **`atoi` reads a decimal number back**, whatever blanks stand before it
and whatever follows its digits. -/
theorem atoi_numeral (pre : Bytes) (hpre : ∀ c ∈ pre, Blank c) (n : Numeral) (hn : n.value < 2 ^ 31)
    {rest : Bytes} (hrest : ∀ c ∈ rest.head?, isDigit c = false) :
    atoi (pre ++ (n.text ++ rest)) = n.value := by
  obtain ⟨c, digits, htext⟩ := List.exists_cons_of_ne_nil n.nonempty
  have hdigits : ∀ d ∈ n.text, isDigit d = true := n.digits
  have hc := isDigit_facts c (hdigits c (by rw [htext]; exact List.mem_cons_self ..))
  have hcstr : cStr (pre ++ (n.text ++ rest)) = pre ++ (n.text ++ cStr rest) := by
    unfold cStr
    rw [List.takeWhile_append_of_pos, List.takeWhile_append_of_pos]
    · intro d hd
      simpa using (isDigit_facts d (hdigits d hd)).1
    · intro d hd
      simpa using (blank_facts d (hpre d hd)).1
  have hspace : (pre ++ (n.text ++ cStr rest)).dropWhile isSpace = n.text ++ cStr rest := by
    rw [List.dropWhile_append_of_pos (fun d hd => (blank_facts d (hpre d hd)).2.1), htext,
      List.cons_append]
    exact List.dropWhile_cons_of_neg (by rw [hc.2.1]; simp)
  have hsign : splitSign (n.text ++ cStr rest) = (false, n.text ++ cStr rest) := by
    rw [htext, List.cons_append]
    simp only [splitSign, if_neg hc.2.2.1, if_neg hc.2.2.2]
  have htail : (cStr rest).takeWhile isDigit = [] := by
    cases rest with
    | nil => rfl
    | cons d rest =>
        have hd : isDigit d = false := hrest d rfl
        unfold cStr
        by_cases h0 : d = 0
        · simp [h0]
        · simp [h0, hd]
  have hvalue : (n.text ++ cStr rest).takeWhile isDigit = n.text := by
    rw [List.takeWhile_append_of_pos hdigits, htail, List.append_nil]
  unfold atoi
  rw [hcstr, hspace, hsign]
  simp only [hvalue]
  show (max (-(2 ^ 63)) (min (n.value : Int) (2 ^ 63 - 1))).bmod (2 ^ 32) = n.value
  rw [Int.bmod_def]
  omega

theorem lower_eq_colon : ∀ c : UInt8, lower c = byte ':' ↔ c = byte ':' := by decide +kernel

theorem lower_eq_space : ∀ c : UInt8, lower c = byte ' ' ↔ c = byte ' ' := by decide +kernel

/-- **A header line begins with a name, a colon and a space exactly if it is
the name of the header** and a space stands behind the colon. -/
theorem istartsWith_line (h : HeaderLine) (name : Bytes) (hlower : name.map lower = name)
    (hcolon : byte ':' ∉ name) :
    istartsWith (h.line ++ bytes "\r") (name ++ bytes ": ") = true ↔ h.Is name ∧ h.Spaced := by
  have hname : byte ':' ∉ h.name := fun hc => (h.nameBytes _ hc).2 rfl
  have hline : h.line ++ bytes "\r" = h.name ++ byte ':' :: (h.field ++ [byte '\r']) := by
    show h.name ++ [byte ':'] ++ h.field ++ [byte '\r'] = _
    simp
  have hpattern : (name ++ bytes ": ").map lower = name ++ [byte ':', byte ' '] := by
    rw [List.map_append, hlower]
    rfl
  unfold istartsWith HeaderLine.Is HeaderLine.Spaced
  rw [decide_eq_true_iff, hline, hpattern]
  generalize h.name = l at hname
  clear hpattern hline hlower
  -- both names end at their first colon
  induction l generalizing name with
  | nil =>
      cases name with
      | nil =>
          cases h.field with
          | nil => decide
          | cons c field =>
              have hspace : lower c = 32 ↔ c = 32 := lower_eq_space c
              simp [bytes, byte, hspace, show lower 58 = 58 from rfl]
      | cons c name =>
          constructor
          · intro heq
            obtain ⟨hc, -⟩ := List.cons.inj heq
            refine absurd ?_ hcolon
            rw [← hc]
            exact List.mem_cons_self ..
          · intro heq
            cases heq.1
  | cons d l ih =>
      have hd : d ≠ byte ':' := fun hd => hname (hd ▸ List.mem_cons_self ..)
      cases name with
      | nil =>
          constructor
          · intro heq
            obtain ⟨hc, -⟩ := List.cons.inj heq
            exact absurd ((lower_eq_colon d).mp hc) hd
          · intro heq
            cases heq.1
      | cons c name =>
          have ih := ih name (fun h => hcolon (List.mem_cons_of_mem _ h))
            (fun h => hname (List.mem_cons_of_mem _ h))
          simp only [List.cons_append, List.length_cons, List.take_succ_cons, List.map_cons,
            List.cons.injEq, and_assoc]
          exact and_congr_right (fun _ => ih)

/-- The field of a header as `send_recv` reads it from the line. -/
theorem drop_line (h : HeaderLine) {name : Bytes} (hname : h.Is name) (hspaced : h.Spaced) :
    (h.line ++ bytes "\r").drop (name.length + 2) = h.field.tail ++ bytes "\r" := by
  obtain ⟨field, hfield⟩ : ∃ field, h.field = byte ' ' :: field := by
    cases hf : h.field with
    | nil => simp [HeaderLine.Spaced, hf] at hspaced
    | cons c field =>
        obtain rfl : c = byte ' ' := by simpa [HeaderLine.Spaced, hf] using hspaced
        exact ⟨field, rfl⟩
  have hline : h.line ++ bytes "\r" = (h.name ++ [byte ':', byte ' ']) ++ (field ++ bytes "\r") := by
    show h.name ++ [byte ':'] ++ h.field ++ bytes "\r" = _
    rw [hfield]
    simp
  have hlen : (h.name ++ [byte ':', byte ' ']).length = name.length + 2 := by
    rw [List.length_append, ← hname, List.length_map]
    rfl
  rw [hline, ← hlen, List.drop_left, hfield]
  rfl

/-- What one header line of a response changes. -/
def Head.readHeader (h : Head) (line : HeaderLine) : Head :=
  if line.Is (bytes "location") ∧ line.Spaced then { h with location := line.field.tail ++ bytes "\r" }
  else if line.Is (bytes "content-length") ∧ line.Spaced then
    { h with contentLen := sizeOfField (line.field.tail ++ bytes "\r") }
  else h

theorem readLine_header (h : Head) (line : HeaderLine) :
    h.readLine (line.line ++ bytes "\r") = h.readHeader line := by
  have hloc : istartsWith (line.line ++ bytes "\r") (bytes "location: ") = true ↔
      line.Is (bytes "location") ∧ line.Spaced :=
    istartsWith_line line (bytes "location") (by decide) (by decide)
  have hlen : istartsWith (line.line ++ bytes "\r") (bytes "content-length: ") = true ↔
      line.Is (bytes "content-length") ∧ line.Spaced :=
    istartsWith_line line (bytes "content-length") (by decide) (by decide)
  unfold Head.readLine Head.readHeader
  simp only [hloc, hlen]
  by_cases h₁ : line.Is (bytes "location") ∧ line.Spaced
  · have hfield : (line.line ++ bytes "\r").drop 10 = line.field.tail ++ bytes "\r" :=
      drop_line line h₁.1 h₁.2
    rw [if_pos h₁, if_pos h₁, hfield]
  · rw [if_neg h₁, if_neg h₁]
    by_cases h₂ : line.Is (bytes "content-length") ∧ line.Spaced
    · have hfield : (line.line ++ bytes "\r").drop 16 = line.field.tail ++ bytes "\r" :=
        drop_line line h₂.1 h₂.2
      rw [if_pos h₂, if_pos h₂, hfield]
    · rw [if_neg h₂, if_neg h₂]

/-- A header line has no line feed and is not the blank line. -/
theorem line_facts (h : HeaderLine) :
    h.line ≠ [] ∧ (∀ c ∈ h.line, LineByte c) ∧
      (∀ c ∈ h.line ++ bytes "\r", c ≠ byte '\n') ∧ h.line ++ bytes "\r" ≠ bytes "\r" := by
  have hcolon : ∀ c ∈ bytes ":", LineByte c := by
    intro c hc
    obtain rfl : c = byte ':' := by simpa [bytes, byte] using hc
    exact ⟨by decide, by decide⟩
  have hne : h.line ≠ [] := by
    intro heq
    have hmem : byte ':' ∈ h.line :=
      List.mem_append_left _ (List.mem_append_right _ (List.mem_cons_self ..))
    rw [heq] at hmem
    cases hmem
  have hbytes : ∀ c ∈ h.line, LineByte c := by
    intro c hc
    rcases List.mem_append.mp hc with hc | hc
    · rcases List.mem_append.mp hc with hc | hc
      · exact (h.nameBytes c hc).1
      · exact hcolon c hc
    · exact h.fieldBytes c hc
  refine ⟨hne, hbytes, ?_, ?_⟩
  · intro c hc
    rcases List.mem_append.mp hc with hc | hc
    · exact (hbytes c hc).2
    · obtain rfl : c = byte '\r' := by simpa [bytes, byte] using hc
      decide
  · intro heq
    exact hne (List.append_left_eq_self.mp heq)

/-- **The loop reads all header lines** and stops behind the blank line. -/
theorem headLoop_encode (headers : List HeaderLine) (rest : Bytes) :
    ∀ (fuel : Nat) (h : Head), headers.length < fuel →
      headLoop fuel { buf := encodeLines (headers.map HeaderLine.line) ++ rest } h =
        (headers.foldl Head.readHeader h, { buf := rest }) := by
  induction headers with
  | nil =>
      intro fuel h hfuel
      obtain ⟨fuel, rfl⟩ := Nat.exists_eq_succ_of_ne_zero (Nat.ne_zero_of_lt hfuel)
      have hget : IStream.getline { buf := encodeLines [] ++ rest } = (some (bytes "\r"), { buf := rest }) :=
        getline_line (bytes "\r") (by decide +kernel) rest
      simp only [List.map_nil, headLoop, hget, if_true, List.foldl_nil]
  | cons line headers ih =>
      intro fuel h hfuel
      obtain ⟨fuel, rfl⟩ := Nat.exists_eq_succ_of_ne_zero (Nat.ne_zero_of_lt hfuel)
      obtain ⟨-, -, hlf, hblank⟩ := line_facts line
      have hbuf : encodeLines ((line :: headers).map HeaderLine.line) ++ rest =
          (line.line ++ bytes "\r") ++ byte '\n' :: (encodeLines (headers.map HeaderLine.line) ++ rest) := by
        show line.line ++ ([byte '\r'] ++ [byte '\n']) ++ _ ++ rest = line.line ++ [byte '\r'] ++ _
        simp
      rw [hbuf]
      simp only [headLoop, getline_line _ hlf, if_neg hblank]
      rw [readLine_header]
      exact ih fuel _ (Nat.lt_of_succ_lt_succ hfuel)

/-! ## §5. The head of a response. -/

/-- Each line takes a byte, and so does the end. -/
theorem length_encodeLines (lines : List Bytes) : lines.length < (encodeLines lines).length := by
  induction lines with
  | nil => decide
  | cons line lines ih =>
      have hcrlf : (bytes "\r\n").length = 2 := rfl
      simp only [encodeLines, List.length_append, List.length_cons]
      omega

theorem lastField_cons (name : Bytes) (line : HeaderLine) (headers : List HeaderLine) :
    lastField name (line :: headers) = (lastField name headers).or
      (if line.Is name ∧ line.Spaced then some (line.field.tail ++ bytes "\r") else none) := by
  unfold lastField
  by_cases h : line.Is name ∧ line.Spaced
  · rw [List.filter_cons, if_pos (decide_eq_true h), if_pos h, List.getLast?_cons]
    cases (headers.filter (fun h => h.Is name ∧ h.Spaced)).getLast? with
    | none => rfl
    | some l => rfl
  · rw [List.filter_cons, if_neg (fun hd => h (of_decide_eq_true hd)), if_neg h, Option.or_none]

/-- The head that the header lines of a response leave. -/
theorem foldl_readHeader (headers : List HeaderLine) (h : Head) :
    headers.foldl Head.readHeader h =
      { status := h.status
        location := (lastField (bytes "location") headers).getD h.location
        contentLen := ((lastField (bytes "content-length") headers).map sizeOfField).getD h.contentLen } := by
  induction headers generalizing h with
  | nil => rfl
  | cons line headers ih =>
      rw [List.foldl_cons, ih, lastField_cons, lastField_cons]
      unfold Head.readHeader
      -- a line counts unless a later one does
      by_cases h₁ : line.Is (bytes "location") ∧ line.Spaced
      · have h₂ : ¬ (line.Is (bytes "content-length") ∧ line.Spaced) := by
          intro h₂
          exact absurd (h₁.1.symm.trans h₂.1) (by decide)
        rw [if_pos h₁, if_pos h₁, if_neg h₂, Option.or_none]
        cases lastField (bytes "location") headers with
        | none => rfl
        | some l => rfl
      · rw [if_neg h₁, if_neg h₁, Option.or_none]
        by_cases h₂ : line.Is (bytes "content-length") ∧ line.Spaced
        · rw [if_pos h₂, if_pos h₂]
          cases lastField (bytes "content-length") headers with
          | none => rfl
          | some l => rfl
        · rw [if_neg h₂, if_neg h₂, Option.or_none]

/-- The status line of a response with the CR. -/
theorem ResponseHead.statusLine_facts (r : ResponseHead) :
    r.statusLine ≠ [] ∧ (∀ c ∈ r.statusLine, LineByte c) ∧
      (∀ c ∈ r.statusLine ++ bytes "\r", c ≠ byte '\n') := by
  have hlit : ∀ c ∈ bytes "HTTP/" ++ bytes " ", LineByte c := by
    unfold LineByte
    decide +kernel
  have hbytes : ∀ c ∈ r.statusLine, LineByte c := by
    intro c hc
    simp only [ResponseHead.statusLine, List.mem_append] at hc hlit
    rcases hc with ((((hc | hc) | hc) | hc) | hc) | hc
    · exact hlit c (.inl hc)
    · exact (r.versionBytes c hc).1
    · exact hlit c (.inr hc)
    · exact isDigit_lineByte c (r.code.digits c hc)
    · exact hlit c (.inr hc)
    · exact r.reasonBytes c hc
  refine ⟨?_, hbytes, ?_⟩
  · intro heq
    have hmem : byte '/' ∈ r.statusLine := by
      simp only [ResponseHead.statusLine, List.mem_append]
      exact .inl (.inl (.inl (.inl (.inl (by decide)))))
    rw [heq] at hmem
    cases hmem
  · intro c hc
    rcases List.mem_append.mp hc with hc | hc
    · exact (hbytes c hc).2
    · obtain rfl : c = byte '\r' := by simpa [bytes, byte] using hc
      decide

/-- **Reading a head** keeps its status, its location and its content length,
and leaves what follows the head. -/
theorem parseHead_responseHead (r : ResponseHead) (rest : Bytes) :
    parseHead (r.encode ++ rest) = (.ok r.kept, rest) := by
  obtain ⟨-, -, hlf⟩ := r.statusLine_facts
  -- what stands behind the protocol
  have hline : r.statusLine ++ bytes "\r" =
      bytes "HTTP/" ++ (r.version ++ byte ' ' :: (r.code.text ++ (bytes " " ++ r.reason ++ bytes "\r"))) := by
    show bytes "HTTP/" ++ r.version ++ [byte ' '] ++ r.code.text ++ bytes " " ++ r.reason ++ _ = _
    simp
  have hget : IStream.getline { buf := r.encode ++ rest } = (some (r.statusLine ++ bytes "\r"),
      { buf := encodeLines (r.headers.map HeaderLine.line) ++ rest }) := by
    rw [← getline_line _ hlf]
    congr 2
    show r.statusLine ++ ([byte '\r'] ++ [byte '\n']) ++ _ ++ rest = r.statusLine ++ [byte '\r'] ++ _
    simp
  have hproto : (bytes "HTTP/").isPrefixOf (r.statusLine ++ bytes "\r") = true := by
    rw [List.isPrefixOf_iff_prefix, hline]
    exact List.prefix_append ..
  have hdrop : (r.statusLine ++ bytes "\r").drop 5 =
      r.version ++ byte ' ' :: (r.code.text ++ (bytes " " ++ r.reason ++ bytes "\r")) := by
    rw [hline]
    exact @List.drop_left UInt8 (bytes "HTTP/") _
  have hpos : (r.version ++ byte ' ' :: (r.code.text ++ (bytes " " ++ r.reason ++ bytes "\r"))).idxOf
      (byte ' ') = r.version.length := by
    rw [List.idxOf_append_of_notMem (fun h => (r.versionBytes _ h).2 rfl), List.idxOf_cons_self]
    rfl
  have hcode : (r.version ++ byte ' ' :: (r.code.text ++ (bytes " " ++ r.reason ++ bytes "\r"))).drop
      (r.version.length + 1) = r.code.text ++ (bytes " " ++ r.reason ++ bytes "\r") := by
    rw [← List.drop_drop, List.drop_left]
    rfl
  have hstatus : atoi (r.code.text ++ (bytes " " ++ r.reason ++ bytes "\r")) = r.code.value := by
    have hshort : r.code.value < 2 ^ 31 := by have := r.codeRange.2; omega
    refine atoi_numeral [] (fun c hc => nomatch hc) r.code hshort ?_
    intro c hc
    obtain rfl : byte ' ' = c := by simpa [bytes, byte] using hc
    decide
  have hrange : ¬ ((r.code.value : Int) < 100 ∨ 999 < (r.code.value : Int)) := by
    have := r.codeRange
    omega
  have hlen : r.headers.length <
      (encodeLines (r.headers.map HeaderLine.line) ++ rest).length + 1 := by
    have := length_encodeLines (r.headers.map HeaderLine.line)
    rw [List.length_map] at this
    rw [List.length_append]
    omega
  have hspace : ¬ r.version.length =
      (r.version ++ byte ' ' :: (r.code.text ++ (bytes " " ++ r.reason ++ bytes "\r"))).length := by
    rw [List.length_append, List.length_cons]
    omega
  unfold parseHead
  rw [hget]
  simp only [hproto, hdrop, hpos, hcode, hstatus, if_neg hspace, if_neg hrange]
  rw [headLoop_encode r.headers rest _ _ hlen, foldl_readHeader]
  rfl

/-- **Reading the head of a response** yields its status, its location and its
content length, and leaves what follows the head. -/
theorem parseHead_encode (r : HttpResponse) (rest : Bytes) :
    parseHead (r.head ++ rest) =
      (.ok { status := r.code.value, location := r.location, contentLen := r.contentLen }, rest) :=
  parseHead_responseHead r.toHead rest

/-- The number of a Content-Length line. -/
theorem atoi_field {h : HeaderLine} (hspaced : h.Spaced) {value : Nat} (hstates : h.States value)
    (hvalue : value < 2 ^ 31) : atoi (h.field.tail ++ bytes "\r") = value := by
  obtain ⟨pre, post, n, hfield, hpre, hpost, hval⟩ := hstates
  cases pre with
  | nil =>
      -- the space is no digit
      obtain ⟨c, digits, htext⟩ := List.exists_cons_of_ne_nil n.nonempty
      have hc : c = byte ' ' := by
        simpa [HeaderLine.Spaced, hfield, htext] using hspaced
      have hd : isDigit c = true := n.digits c (by rw [htext]; exact List.mem_cons_self ..)
      rw [hc] at hd
      exact absurd hd (by decide)
  | cons c pre =>
      have htail : h.field.tail ++ bytes "\r" = pre ++ (n.text ++ (post ++ bytes "\r")) := by
        rw [hfield]
        simp
      rw [htail, atoi_numeral pre (fun c hc => hpre c (List.mem_cons_of_mem _ hc)) n (by omega), hval]
      cases post with
      | nil => decide +kernel
      | cons c post =>
          intro d hd
          obtain rfl : c = d := by simpa using hd
          exact (blank_facts c (hpost c (List.mem_cons_self ..))).2.2

/-- **The content length is the length of the body** where the client can
tell it. -/
theorem contentLen_readable {r : HttpResponse} (hr : r.Readable) : r.contentLen = r.body.length := by
  have hlast : ∀ h ∈ (r.headers.filter (fun h => h.Is (bytes "content-length") ∧ h.Spaced)).getLast?,
      sizeOfField (h.field.tail ++ bytes "\r") = r.body.length := by
    intro h hh
    obtain ⟨hmem, hd⟩ := List.mem_filter.mp (List.mem_of_getLast? hh)
    obtain ⟨hname, hspaced⟩ : h.Is (bytes "content-length") ∧ h.Spaced := of_decide_eq_true hd
    unfold sizeOfField
    rw [atoi_field hspaced (r.lengths h hmem hname) hr.1]
    have := hr.1
    omega
  unfold HttpResponse.contentLen lastField
  cases hl : (r.headers.filter (fun h => h.Is (bytes "content-length") ∧ h.Spaced)).getLast? with
  | some h =>
      rw [hl] at hlast
      exact hlast h rfl
  | none =>
      rcases hr.2 with hempty | ⟨h, hmem, hh⟩
      · rw [hempty]
        rfl
      · have hnil := List.getLast?_eq_none_iff.mp hl
        have hin : h ∈ r.headers.filter (fun h => h.Is (bytes "content-length") ∧ h.Spaced) :=
          List.mem_filter.mpr ⟨hmem, decide_eq_true hh⟩
        rw [hnil] at hin
        cases hin

/-! ## §6. The end of a head. -/

theorem hasBlankLine_append {line : Bytes} (hline : ∀ c ∈ line, LineByte c) (p : Bytes) :
    hasBlankLine (line ++ p) = hasBlankLine p := by
  induction line with
  | nil => rfl
  | cons c line ih =>
      have hc : c ≠ byte '\r' := (hline c (List.mem_cons_self ..)).1
      have hstart : (bytes "\r\n\r\n").isPrefixOf (c :: (line ++ p)) = false := by
        show (byte '\r' == c && _) = false
        rw [beq_false_of_ne hc.symm]
        rfl
      rw [List.cons_append, hasBlankLine, hstart, Bool.false_or]
      exact ih (fun d hd => hline d (List.mem_cons_of_mem _ hd))

/-- **The first blank line is the end of the head**: what begins like lines
and contains a blank line contains all of the lines. -/
theorem hasBlankLine_encodeLines (lines : List Bytes) (hlines : ∀ l ∈ lines, l ≠ [] ∧ ∀ c ∈ l, LineByte c)
    (rest : Bytes) : ∀ p : Bytes, p <+: encodeLines lines ++ rest → hasBlankLine p = true →
      encodeLines lines <+: p := by
  induction lines with
  | nil =>
      intro p hp hblank
      refine List.prefix_of_prefix_length_le (List.prefix_append ..) hp ?_
      -- the delimiter alone is longer
      match p, hblank with
      | [], hblank => exact absurd hblank (by decide)
      | [c], hblank => simp [hasBlankLine, bytes] at hblank
      | c :: d :: p, _ => simp [encodeLines, bytes]
  | cons line lines ih =>
      intro p hp hblank
      obtain ⟨-, hbytes⟩ := hlines line (List.mem_cons_self ..)
      have hlines' : ∀ l ∈ lines, l ≠ [] ∧ ∀ c ∈ l, LineByte c :=
        fun l hl => hlines l (List.mem_cons_of_mem _ hl)
      have henc : encodeLines (line :: lines) = line ++ byte '\r' :: byte '\n' :: encodeLines lines := by
        show line ++ [byte '\r', byte '\n'] ++ encodeLines lines = _
        simp
      rw [henc, List.append_assoc] at hp
      rw [henc]
      rcases List.prefix_or_prefix_of_prefix hp (List.prefix_append ..) with hshort | ⟨q, rfl⟩
      · -- there is no blank line in a line
        have hp' : ∀ c ∈ p, LineByte c := fun c hc => hbytes c (hshort.subset hc)
        rw [← List.append_nil p, hasBlankLine_append hp'] at hblank
        exact absurd hblank (by decide)
      · rw [hasBlankLine_append hbytes] at hblank
        rw [List.prefix_append_right_inj] at hp ⊢
        match q, hp, hblank with
        | [], _, hblank => exact absurd hblank (by decide)
        | [c], _, hblank => simp [hasBlankLine, bytes] at hblank
        | c :: d :: q, hcut, hblank =>
          obtain ⟨hc, hrest⟩ := List.cons_prefix_cons.mp hcut
          obtain ⟨hd, hq⟩ := List.cons_prefix_cons.mp hrest
          clear hp hcut hrest
          subst hc hd
          rw [List.cons_prefix_cons, List.cons_prefix_cons]
          refine ⟨rfl, rfl, ?_⟩
          have hcases : (bytes "\r\n").isPrefixOf q = true ∨ hasBlankLine q = true := by
            rw [hasBlankLine, hasBlankLine, Bool.or_eq_true, Bool.or_eq_true] at hblank
            rcases hblank with hstart | hstart | hblank
            · exact .inl hstart
            · exact absurd (List.isPrefixOf_iff_prefix.mp hstart |> List.cons_prefix_cons.mp).1 (by decide)
            · exact .inr hblank
          rcases hcases with hstart | hblank
          · -- a blank line behind this line: there is no other line
            obtain ⟨t, rfl⟩ := List.isPrefixOf_iff_prefix.mp hstart
            cases lines with
            | nil => exact List.prefix_append ..
            | cons line' lines =>
                obtain ⟨hne, hbytes'⟩ := hlines' line' (List.mem_cons_self ..)
                obtain ⟨c, line', rfl⟩ := List.exists_cons_of_ne_nil hne
                have hc : byte '\r' = c := (List.cons_prefix_cons.mp hq).1
                exact absurd hc.symm (hbytes' c (List.mem_cons_self ..)).1
          · exact ih hlines' q hq hblank

theorem ResponseHead.lines_facts (r : ResponseHead) :
    ∀ l ∈ r.statusLine :: r.headers.map HeaderLine.line, l ≠ [] ∧ ∀ c ∈ l, LineByte c := by
  intro l hl
  rcases List.mem_cons.mp hl with rfl | hl
  · exact ⟨r.statusLine_facts.1, r.statusLine_facts.2.1⟩
  · obtain ⟨h, -, rfl⟩ := List.mem_map.mp hl
    exact ⟨(line_facts h).1, (line_facts h).2.1⟩

/-- A buffer with a blank line in it. -/
theorem hasBlankLine_of_infix (before after : Bytes) :
    hasBlankLine (before ++ bytes "\r\n\r\n" ++ after) = true := by
  induction before with
  | nil =>
      have hstart : (bytes "\r\n\r\n").isPrefixOf (bytes "\r\n\r\n" ++ after) = true :=
        List.isPrefixOf_iff_prefix.mpr (List.prefix_append _ _)
      show ((bytes "\r\n\r\n").isPrefixOf (bytes "\r\n\r\n" ++ after) || _) = true
      rw [hstart, Bool.true_or]
  | cons c before ih =>
      show (_ || hasBlankLine (before ++ bytes "\r\n\r\n" ++ after)) = true
      rw [ih, Bool.or_true]

/-- Lines end with a blank line. -/
theorem encodeLines_suffix (line : Bytes) (lines : List Bytes) :
    bytes "\r\n\r\n" <:+ encodeLines (line :: lines) := by
  induction lines generalizing line with
  | nil =>
      refine ⟨line, ?_⟩
      show line ++ (bytes "\r\n" ++ bytes "\r\n") = line ++ bytes "\r\n" ++ bytes "\r\n"
      rw [List.append_assoc]
  | cons line' lines ih =>
      exact (ih line').trans (List.suffix_append _ _)

/-- **The first blank line is the end of the head**, of a buffer that holds the
beginning of a head and what follows. -/
theorem hasBlankLine_iff (r : ResponseHead) {p rest : Bytes} (hp : p <+: r.encode ++ rest) :
    hasBlankLine p = true ↔ r.encode.length ≤ p.length := by
  constructor
  · intro hblank
    exact (hasBlankLine_encodeLines _ r.lines_facts rest p hp hblank).length_le
  · intro hle
    obtain ⟨after, rfl⟩ := List.prefix_of_prefix_length_le (List.prefix_append _ rest) hp hle
    obtain ⟨before, hbefore⟩ := encodeLines_suffix r.statusLine (r.headers.map HeaderLine.line)
    unfold ResponseHead.encode
    rw [← hbefore]
    exact hasBlankLine_of_infix before after

/-- **The first blank line of a response is the end of its head.** -/
theorem hasBlankLine_encode (r : HttpResponse) {p rest : Bytes} (hp : p <+: r.head ++ rest)
    (hblank : hasBlankLine p = true) : r.head <+: p :=
  hasBlankLine_encodeLines _ r.toHead.lines_facts rest p hp hblank

end Petrel
