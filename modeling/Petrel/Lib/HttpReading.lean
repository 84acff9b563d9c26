/-
  Petrel.Lib.HttpReading — responses that arrive in any pieces.

  `async_read_until` and `async_read` take the bytes as they arrive, a read at a
  time, and stop at the first read after which the buffer has enough.  So what
  the buffer holds depends on where the stream is cut.  `send_recv` subtracts
  the size of the buffer from the content length and returns the whole buffer.

  Main results:
    * `asyncRead_readTo`    — a read ends at the first cut behind its threshold.
    * `body_exact_iff`      — the cuts for which the body is returned.
    * `surplus_is_returned` — and one for which it is not.
    * `redirect_exact_iff`  — the heads that are reported right.
    * `location_keeps_cr`   — a redirect is not one of them.
-/

import Petrel.Lib.HttpClient

namespace Petrel

open Framework

/-! ## §1. Reads up to a threshold. -/

/-- Read until `t` bytes have been read: how many have been, and the reads that
are left. -/
def readTo (t : Nat) : Nat → List Nat → Nat × List Nat
  | got, [] => (got, [])
  | got, n :: cuts => if t ≤ got then (got, n :: cuts) else readTo t (got + n) cuts

theorem readTo_sum (t got : Nat) (cuts : List Nat) :
    (readTo t got cuts).1 + (readTo t got cuts).2.sum = got + cuts.sum := by
  induction cuts generalizing got with
  | nil => rfl
  | cons n cuts ih =>
      unfold readTo
      by_cases h : t ≤ got
      · rw [if_pos h]
      · rw [if_neg h, ih, List.sum_cons]
        omega

theorem readTo_suffix (t got : Nat) (cuts : List Nat) : (readTo t got cuts).2 <:+ cuts := by
  induction cuts generalizing got with
  | nil => exact List.suffix_refl []
  | cons n cuts ih =>
      unfold readTo
      by_cases h : t ≤ got
      · rw [if_pos h]
      · rw [if_neg h]
        exact (ih (got + n)).trans (List.suffix_cons n cuts)

/-- The threshold is reached, if there are enough bytes. -/
theorem le_readTo {t got : Nat} {cuts : List Nat} (h : t ≤ got + cuts.sum) :
    t ≤ (readTo t got cuts).1 := by
  induction cuts generalizing got with
  | nil => simpa [readTo] using h
  | cons n cuts ih =>
      unfold readTo
      by_cases hgot : t ≤ got
      · rw [if_pos hgot]
        exact hgot
      · rw [if_neg hgot]
        refine ih ?_
        rw [List.sum_cons] at h
        omega

theorem readTo_of_le {t got : Nat} (h : t ≤ got) (cuts : List Nat) :
    readTo t got cuts = (got, cuts) := by
  cases cuts with
  | nil => rfl
  | cons n cuts => exact if_pos h

/-- No byte is put back. -/
theorem readTo_le (t got : Nat) (cuts : List Nat) : got ≤ (readTo t got cuts).1 := by
  have hsum := readTo_sum t got cuts
  have hle := (readTo_suffix t got cuts).sublist.sum_le_sum (fun _ _ => Nat.zero_le _)
  omega

/-- Reading on to a higher threshold. -/
theorem readTo_readTo {t t' : Nat} (h : t ≤ t') (got : Nat) (cuts : List Nat) :
    readTo t' (readTo t got cuts).1 (readTo t got cuts).2 = readTo t' got cuts := by
  induction cuts generalizing got with
  | nil => rfl
  | cons n cuts ih =>
      by_cases hgot : t ≤ got
      · rw [readTo, if_pos hgot]
      · have hgot' : ¬ t' ≤ got := fun h' => hgot (h.trans h')
        rw [readTo, if_neg hgot, ih, readTo, if_neg hgot']

/-- Only the distance counts. -/
theorem readTo_add (d t got : Nat) (cuts : List Nat) :
    readTo (d + t) (d + got) cuts = (d + (readTo t got cuts).1, (readTo t got cuts).2) := by
  induction cuts generalizing got with
  | nil => rfl
  | cons n cuts ih =>
      unfold readTo
      by_cases h : t ≤ got
      · rw [if_pos h, if_pos (Nat.add_le_add_left h d)]
      · rw [if_neg h, if_neg (fun h' => h (Nat.le_of_add_le_add_left h')), Nat.add_assoc, ih]

/-- **A threshold is met exactly** if the stream is cut there. -/
theorem readTo_eq_iff {t got : Nat} (hgot : got ≤ t) (cuts : List Nat) :
    (readTo t got cuts).1 = t ↔ ∃ k, got + (cuts.take k).sum = t := by
  induction cuts generalizing got with
  | nil =>
      show got = t ↔ _
      constructor
      · intro h
        exact ⟨0, h⟩
      · rintro ⟨k, hk⟩
        rwa [List.take_nil] at hk
  | cons n cuts ih =>
      unfold readTo
      by_cases ht : t ≤ got
      · rw [if_pos ht]
        exact iff_of_true (Nat.le_antisymm hgot ht) ⟨0, Nat.le_antisymm hgot ht⟩
      · rw [if_neg ht]
        by_cases hn : got + n ≤ t
        · rw [ih hn]
          constructor
          · rintro ⟨k, hk⟩
            refine ⟨k + 1, ?_⟩
            rw [List.take_succ_cons, List.sum_cons]
            omega
          · rintro ⟨k, hk⟩
            cases k with
            | zero => exact absurd (Nat.le_of_eq hk.symm) ht
            | succ k =>
                rw [List.take_succ_cons, List.sum_cons] at hk
                exact ⟨k, by omega⟩
        · -- this read goes over the threshold
          refine iff_of_false ?_ ?_
          · cases cuts with
            | nil =>
                show got + n ≠ t
                omega
            | cons m cuts =>
                rw [readTo, if_pos (Nat.le_of_not_le hn)]
                show got + n ≠ t
                omega
          · rintro ⟨k, hk⟩
            cases k with
            | zero => exact ht (Nat.le_of_eq hk.symm)
            | succ k =>
                rw [List.take_succ_cons, List.sum_cons] at hk
                omega

/-- The reads that the environment lets happen. -/
def arrivals (cuts : List Nat) (tail : List ReadEvent) : List ReadEvent := cuts.map .data ++ tail

/-- **A read ends at the first cut behind its threshold**, after `got` bytes of
the stream have been read. -/
theorem asyncRead_readTo {stream : Bytes} {enough : Bytes → Bool} {t : Nat} (cuts : List Nat)
    (tail : List ReadEvent) {got : Nat} (hpos : ∀ n ∈ cuts, 1 ≤ n)
    (hsum : got + cuts.sum = stream.length) (ht : t ≤ stream.length)
    (henough : ∀ k, k ≤ stream.length → enough (stream.take k) = decide (t ≤ k)) :
    asyncRead enough (stream.take got) (stream.drop got) (arrivals cuts tail) =
      some ⟨.done, stream.take (readTo t got cuts).1, stream.drop (readTo t got cuts).1,
        arrivals (readTo t got cuts).2 tail⟩ := by
  induction cuts generalizing got with
  | nil =>
      have hgot : got = stream.length := hsum
      have hdone : enough (stream.take got) = true := by
        rw [henough got (Nat.le_of_eq hgot)]
        exact decide_eq_true (hgot ▸ ht)
      exact asyncRead_of_enough hdone _ tail
  | cons n cuts ih =>
      rw [List.sum_cons] at hsum
      have hgot' := henough got (by omega)
      unfold readTo
      by_cases hgot : t ≤ got
      · rw [if_pos hgot]
        exact asyncRead_of_enough (hgot'.trans (decide_eq_true hgot)) _ _
      · have hn : 1 ≤ n ∧ n ≤ (stream.drop got).length := by
          have := hpos n List.mem_cons_self
          rw [List.length_drop]
          omega
        have hmore : ¬ enough (stream.take got) = true := by
          rw [hgot', decide_eq_false hgot]
          exact Bool.false_ne_true
        show (if enough _ = true then _ else if 1 ≤ n ∧ n ≤ _ then _ else none) = _
        rw [if_neg hmore, if_pos hn, if_neg hgot, ← List.take_add, List.drop_drop]
        exact ih (fun m hm => hpos m (List.mem_cons_of_mem n hm)) (by omega)

/-! ## §2. A connection with any bytes on it. -/

namespace HttpClient

/-- The common part of `get` and `post` where the request gets out and the
other end sends a stream of any bytes. -/
def exchangeOn (c : HttpClient) (request stream : Bytes) (reads : List ReadEvent) : Option Call :=
  if !c.connected then some ⟨c, [], .error (bytes "not connected")⟩
  else
    (receive c.resBuf stream reads).map fun r =>
      ⟨{ c with reqBuf := [], resBuf := r.resBuf, socket := some r.inbound }, c.reqBuf ++ request,
        r.result⟩

theorem exchangeOn_of_connected {c : HttpClient} (h : c.connected = true) (request stream : Bytes)
    (reads : List ReadEvent) :
    c.exchangeOn request stream reads =
      (receive c.resBuf stream reads).map fun r =>
        ⟨{ c with reqBuf := [], resBuf := r.resBuf, socket := some r.inbound }, c.reqBuf ++ request,
          r.result⟩ := by
  unfold exchangeOn
  exact if_neg (by rw [h]; decide)

/-- It is the exchange where the server answers with one response. -/
theorem exchange_eq_exchangeOn {c : HttpClient} {io : ExchangeIo} {inbound : Bytes}
    (hwrite : io.write = .ok) (hsocket : c.socket = some inbound)
    (hstray : c.reqBuf ≠ [] ∨ io.stray = []) (request : Bytes) :
    c.exchange request io = c.exchangeOn request (inbound ++ io.stray ++ io.answer) io.reads := by
  by_cases hconn : c.connected = true
  · rw [exchange_of_connected hconn, exchangeOn_of_connected hconn, if_pos hstray]
    unfold sendRecv
    simp only [hwrite, hsocket, Option.bind_some]
  · have hno : (!c.connected) = true := by
      rw [Bool.not_eq_true] at hconn
      rw [hconn]
      rfl
    unfold exchange exchangeOn
    rw [if_pos hno, if_pos hno]

end HttpClient

/-- The operands of the subtraction `content_len - m_res_buf.size()` in
`send_recv`, where it is computed. -/
def operands (stream : Bytes) (reads : List ReadEvent) : Option (Nat × Nat) :=
  (asyncRead hasBlankLine [] stream reads).bind fun r =>
    match r.ending with
    | .fail _ => none
    | .done | .eof =>
        match parseHead r.buf with
        | (.error _, _) => none
        | (.ok head, buf) =>
            if head.status = 302 ∨ head.contentLen = 0 then none
            else some (head.contentLen, buf.length)

/-- **The head is read** with what comes with it: the buffer holds the bytes of
the first cut behind the head. -/
theorem asyncRead_responseHead (h : ResponseHead) (rest : Bytes) {cuts : List Nat}
    (hpos : ∀ n ∈ cuts, 1 ≤ n) (hsum : cuts.sum = (h.encode ++ rest).length)
    (tail : List ReadEvent) :
    asyncRead hasBlankLine [] (h.encode ++ rest) (arrivals cuts tail) =
      some ⟨.done, h.encode ++ rest.take ((readTo h.encode.length 0 cuts).1 - h.encode.length),
        rest.drop ((readTo h.encode.length 0 cuts).1 - h.encode.length),
        arrivals (readTo h.encode.length 0 cuts).2 tail⟩ := by
  have hle : h.encode.length ≤ (h.encode ++ rest).length := by
    rw [List.length_append]
    exact Nat.le_add_right _ _
  -- the delimiter is in the buffer as soon as the head is
  have henough : ∀ k, k ≤ (h.encode ++ rest).length →
      hasBlankLine ((h.encode ++ rest).take k) = decide (h.encode.length ≤ k) := by
    intro k hk
    rw [Bool.eq_iff_iff, decide_eq_true_iff,
      hasBlankLine_iff h (List.take_prefix k (h.encode ++ rest)), List.length_take_of_le hk]
  have hread := asyncRead_readTo cuts tail hpos ((Nat.zero_add _).trans hsum) hle henough
  have hreached : h.encode.length ≤ (readTo h.encode.length 0 cuts).1 := le_readTo (by omega)
  rw [List.take_zero, List.drop_zero] at hread
  rw [hread, List.take_append, List.drop_append, List.take_of_length_le hreached,
    List.drop_eq_nil_of_le hreached, List.nil_append]

/-- `send_recv` behind the head. -/
theorem receive_responseHead (h : ResponseHead) (rest : Bytes) {cuts : List Nat}
    (hpos : ∀ n ∈ cuts, 1 ≤ n) (hsum : cuts.sum = (h.encode ++ rest).length)
    (tail : List ReadEvent) :
    HttpClient.receive [] (h.encode ++ rest) (arrivals cuts tail) =
      HttpClient.deliver h.kept
        (rest.take ((readTo h.encode.length 0 cuts).1 - h.encode.length))
        (rest.drop ((readTo h.encode.length 0 cuts).1 - h.encode.length))
        (arrivals (readTo h.encode.length 0 cuts).2 tail) := by
  unfold HttpClient.receive
  rw [asyncRead_responseHead h rest hpos hsum tail, Option.bind_some]
  simp only [parseHead_responseHead]

/-! ## §3. The body. -/

/-- `get` or `post` returns the status and the body of the response, and the
number of bytes that are still to be read does not wrap. -/
structure BodyExact (c : HttpClient) (request : Bytes) (r : HttpResponse) (surplus : Bytes)
    (reads : List ReadEvent) : Prop where
  result : ∃ call, c.exchangeOn request (r.encode ++ surplus) reads = some call ∧
    call.result = .ok (r.code.value, r.body)
  noWrap : ∀ p ∈ operands (r.encode ++ surplus) reads, p.2 ≤ p.1

/-- What is delivered if the buffer holds no more than the body: it reads up to
the first cut behind the body. -/
theorem deliver_readTo {r : HttpResponse} (hr : r.Readable) (h302 : r.code.value ≠ 302)
    (hbody : r.body ≠ []) (surplus : Bytes) {cuts : List Nat} (hpos : ∀ n ∈ cuts, 1 ≤ n) {k : Nat}
    (hk : k ≤ r.body.length) (hsum : k + cuts.sum = (r.body ++ surplus).length)
    (tail : List ReadEvent) :
    ∃ out, HttpClient.deliver r.toHead.kept ((r.body ++ surplus).take k)
        ((r.body ++ surplus).drop k) (arrivals cuts tail) = some out ∧
      out.result =
        .ok (r.code.value, (r.body ++ surplus).take (readTo r.body.length k cuts).1) := by
  have hstatus : ¬ r.toHead.kept.status = 302 := by
    show ¬ (r.code.value : Int) = 302
    omega
  have hlen : r.toHead.kept.contentLen = r.body.length := contentLen_readable hr
  have hsome : ¬ r.body.length = 0 := fun h => hbody (List.length_eq_zero_iff.mp h)
  have hshort : r.body.length < 2 ^ 31 := hr.1
  have hle : r.body.length ≤ (r.body ++ surplus).length := by
    rw [List.length_append]
    exact Nat.le_add_right _ _
  have hbuf : ((r.body ++ surplus).take k).length = k := List.length_take_of_le (hk.trans hle)
  have htoRead : (((r.body.length : Int) - k) % 2 ^ 64).toNat = r.body.length - k := by omega
  unfold HttpClient.deliver
  rw [if_neg hstatus, hlen, if_neg hsome, hbuf, htoRead]
  dsimp only
  by_cases hall : r.body.length - k = 0
  · -- the buffer holds the body already
    rw [if_pos hall, readTo_of_le (by omega)]
    exact ⟨_, rfl, rfl⟩
  · have henough : ∀ j, j ≤ (r.body ++ surplus).length →
        decide (k + (r.body.length - k) ≤ ((r.body ++ surplus).take j).length) =
          decide (r.body.length ≤ j) := by
      intro j hj
      rw [List.length_take_of_le hj, Nat.add_sub_cancel' hk]
    rw [if_neg hall, asyncRead_readTo cuts tail hpos hsum hle henough]
    exact ⟨_, rfl, rfl⟩

/-- How many bytes behind the head the buffer holds when the head has been
read. -/
def behindHead (r : HttpResponse) (cuts : List Nat) : Nat :=
  (readTo r.head.length 0 cuts).1 - r.head.length

theorem behindHead_facts (r : HttpResponse) (surplus : Bytes) {cuts : List Nat}
    (hsum : cuts.sum = (r.encode ++ surplus).length) :
    (readTo r.head.length 0 cuts).1 = r.head.length + behindHead r cuts ∧
      behindHead r cuts + (readTo r.head.length 0 cuts).2.sum = (r.body ++ surplus).length := by
  have hlength : (r.encode ++ surplus).length = r.head.length + (r.body ++ surplus).length := by
    show (r.head ++ r.body ++ surplus).length = _
    rw [List.append_assoc, List.length_append]
  have hreached : r.head.length ≤ (readTo r.head.length 0 cuts).1 := le_readTo (by omega)
  have htotal := readTo_sum r.head.length 0 cuts
  unfold behindHead
  omega

/-- The stream is cut at the end of the body exactly if the second read, if
there is one, stops there. -/
theorem cut_at_end_iff (r : HttpResponse) (surplus : Bytes) {cuts : List Nat}
    (hsum : cuts.sum = (r.encode ++ surplus).length) :
    (∃ k, (cuts.take k).sum = r.encode.length) ↔
      (readTo r.body.length (behindHead r cuts) (readTo r.head.length 0 cuts).2).1 = r.body.length := by
  have hencode : r.encode.length = r.head.length + r.body.length := List.length_append
  have hexact := readTo_eq_iff (t := r.encode.length) (Nat.zero_le _) cuts
  simp only [Nat.zero_add] at hexact
  have hon : readTo r.encode.length 0 cuts =
      readTo (r.head.length + r.body.length) (r.head.length + behindHead r cuts)
        (readTo r.head.length 0 cuts).2 := by
    rw [← (behindHead_facts r surplus hsum).1, hencode]
    exact (readTo_readTo (Nat.le_add_right _ _) 0 cuts).symm
  rw [← hexact, hon, readTo_add, hencode]
  exact Nat.add_left_cancel_iff

/-- **THE BODY IS RETURNED**, and the number of bytes to read does not wrap, if
and only if the response has no body or the stream is cut at its end.  Without
surplus it always is. -/
theorem body_exact_iff {c : HttpClient} (hconn : c.connected = true) (hbuf : c.resBuf = [])
    (request : Bytes) {r : HttpResponse} (hr : r.Readable) (h302 : r.code.value ≠ 302)
    (surplus : Bytes) {cuts : List Nat} (hpos : ∀ n ∈ cuts, 1 ≤ n)
    (hsum : cuts.sum = (r.encode ++ surplus).length) (tail : List ReadEvent) :
    BodyExact c request r surplus (arrivals cuts tail) ↔
      r.body = [] ∨ ∃ k, (cuts.take k).sum = r.encode.length := by
  obtain ⟨hhead, hrest⟩ := behindHead_facts r surplus hsum
  have hstream : r.encode ++ surplus = r.toHead.encode ++ (r.body ++ surplus) := List.append_assoc ..
  have hstatus : ¬ r.toHead.kept.status = 302 := by
    show ¬ (r.code.value : Int) = 302
    omega
  have hlen : r.toHead.kept.contentLen = r.body.length := contentLen_readable hr
  -- both steps of `send_recv`
  have hcall : c.exchangeOn request (r.encode ++ surplus) (arrivals cuts tail) =
      (HttpClient.deliver r.toHead.kept ((r.body ++ surplus).take (behindHead r cuts))
        ((r.body ++ surplus).drop (behindHead r cuts))
        (arrivals (readTo r.head.length 0 cuts).2 tail)).map fun out =>
          ⟨{ c with reqBuf := [], resBuf := out.resBuf, socket := some out.inbound },
            c.reqBuf ++ request, out.result⟩ := by
    rw [HttpClient.exchangeOn_of_connected hconn, hbuf, hstream,
      receive_responseHead r.toHead _ hpos (hstream ▸ hsum) tail]
    rfl
  have hoperands : operands (r.encode ++ surplus) (arrivals cuts tail) =
      if r.body = [] then none else some (r.body.length, behindHead r cuts) := by
    unfold operands
    rw [hstream, asyncRead_responseHead r.toHead _ hpos (hstream ▸ hsum) tail, Option.bind_some]
    simp only [parseHead_responseHead]
    show (if _ ∨ _ then none else some (_, ((r.body ++ surplus).take (behindHead r cuts)).length)) = _
    rw [hlen, List.length_take_of_le (by omega)]
    by_cases hbody : r.body = []
    · rw [if_pos (.inr (List.length_eq_zero_iff.mpr hbody)), if_pos hbody]
    · have hno : ¬ (r.toHead.kept.status = 302 ∨ r.body.length = 0) := fun h =>
        h.elim hstatus fun h0 => hbody (List.length_eq_zero_iff.mp h0)
      rw [if_neg hno, if_neg hbody]
  by_cases hbody : r.body = []
  · refine iff_of_true ⟨?_, ?_⟩ (.inl hbody)
    · have hnone : r.toHead.kept.contentLen = 0 := hlen.trans (List.length_eq_zero_iff.mpr hbody)
      unfold HttpClient.deliver at hcall
      rw [if_neg hstatus, if_pos hnone] at hcall
      refine ⟨_, hcall, ?_⟩
      rw [hbody]
      rfl
    · intro p hp
      rw [hoperands, if_pos hbody] at hp
      exact nomatch hp
  · rw [or_iff_right hbody, cut_at_end_iff r surplus hsum]
    have hwrap : (∀ p ∈ operands (r.encode ++ surplus) (arrivals cuts tail), p.2 ≤ p.1) ↔
        behindHead r cuts ≤ r.body.length := by
      rw [hoperands, if_neg hbody]
      constructor
      · intro h
        exact h _ rfl
      · rintro h p hp
        obtain rfl := Option.some.inj hp
        exact h
    constructor
    · intro hexact
      have hle := hwrap.mp hexact.noWrap
      obtain ⟨out, hout, hresult⟩ := deliver_readTo hr h302 hbody surplus
        (fun n hn => hpos n ((readTo_suffix _ _ _).subset hn)) hle hrest tail
      obtain ⟨call, hcalled, hok⟩ := hexact.result
      rw [hcall, hout, Option.map_some] at hcalled
      obtain rfl := Option.some.inj hcalled
      -- the buffer is as long as the body
      have hbytes := congrArg List.length (Prod.mk.inj (Except.ok.inj (hresult.symm.trans hok))).2
      have hstop := readTo_sum r.body.length (behindHead r cuts) (readTo r.head.length 0 cuts).2
      rwa [List.length_take_of_le (by omega)] at hbytes
    · intro hend
      have hle : behindHead r cuts ≤ r.body.length := by
        rw [← hend]
        exact readTo_le _ _ _
      obtain ⟨out, hout, hresult⟩ := deliver_readTo hr h302 hbody surplus
        (fun n hn => hpos n ((readTo_suffix _ _ _).subset hn)) hle hrest tail
      refine ⟨⟨_, hcall.trans (congrArg _ hout), ?_⟩, hwrap.mpr hle⟩
      rw [hend, List.take_left] at hresult
      exact hresult

/-- A new client with a connection. -/
def freshClient : HttpClient := (({} : HttpClient).connect (bytes "localhost") none .ok).1

/-- A response in two reads, with surplus behind its body: the first read ends
at the end of the body. -/
theorem body_exact_iff_cut :
    BodyExact freshClient (bytes "GET / HTTP/1.1\r\n\r\n") ownResponse (bytes "HTTP")
      (arrivals [ownResponse.encode.length, 4] []) :=
  (body_exact_iff rfl rfl _ (by decide +kernel) (by decide +kernel) (bytes "HTTP")
    (by decide +kernel) (by decide +kernel) []).mpr (.inr ⟨1, by decide +kernel⟩)

/-- **SURPLUS IS RETURNED WITH THE BODY** where it comes in one read with the
body, and the number of bytes to read wraps: it is 5 - 9. -/
theorem surplus_is_returned :
    (freshClient.exchangeOn (bytes "GET / HTTP/1.1\r\n\r\n") (ownResponse.encode ++ bytes "HTTP")
        (arrivals [ownResponse.encode.length + 4] [.eof])).map (fun call => call.result.toOption) =
      some (some (200, bytes "mine!HTTP")) ∧
    operands (ownResponse.encode ++ bytes "HTTP")
      (arrivals [ownResponse.encode.length + 4] [.eof]) = some (5, 9) ∧
    ¬ BodyExact freshClient (bytes "GET / HTTP/1.1\r\n\r\n") ownResponse (bytes "HTTP")
      (arrivals [ownResponse.encode.length + 4] [.eof]) := by
  have hoperands : operands (ownResponse.encode ++ bytes "HTTP")
      (arrivals [ownResponse.encode.length + 4] [.eof]) = some (5, 9) := by
    decide +kernel
  refine ⟨by decide +kernel, hoperands, ?_⟩
  intro hexact
  exact absurd (hexact.noWrap (5, 9) hoperands) (by decide)

/-! ## §4. The results for a head. -/

/-- A read that takes all bytes there are does not fail. -/
theorem asyncRead_eof (enough : Bytes → Bool) (cuts : List Nat) (tail : List ReadEvent)
    (buf inbound : Bytes) (hpos : ∀ n ∈ cuts, 1 ≤ n) (hsum : cuts.sum = inbound.length) :
    ∃ o, asyncRead enough buf inbound (arrivals cuts (.eof :: tail)) = some o ∧
      ∀ msg, o.ending ≠ .fail msg := by
  induction cuts generalizing buf inbound with
  | nil =>
      have hempty : inbound = [] := List.length_eq_zero_iff.mp hsum.symm
      by_cases hbuf : enough buf = true
      · exact ⟨_, asyncRead_of_enough hbuf _ _, fun msg h => nomatch h⟩
      · refine ⟨⟨.eof, buf, inbound, tail⟩, ?_, fun msg h => nomatch h⟩
        show (if enough buf = true then _ else if inbound = [] then _ else none) = _
        rw [if_neg hbuf, if_pos hempty]
  | cons n cuts ih =>
      rw [List.sum_cons] at hsum
      by_cases hbuf : enough buf = true
      · exact ⟨_, asyncRead_of_enough hbuf _ _, fun msg h => nomatch h⟩
      · have hn : 1 ≤ n ∧ n ≤ inbound.length := ⟨hpos n List.mem_cons_self, by omega⟩
        obtain ⟨o, ho, hend⟩ := ih (buf ++ inbound.take n) (inbound.drop n)
          (fun m hm => hpos m (List.mem_cons_of_mem n hm)) (by rw [List.length_drop]; omega)
        refine ⟨o, ?_, hend⟩
        show (if enough buf = true then _ else if 1 ≤ n ∧ n ≤ inbound.length then _ else none) = _
        rw [if_neg hbuf, if_pos hn]
        exact ho

/-- The value of a line 'Name: value'. -/
def HeaderLine.value (h : HeaderLine) : Bytes := h.field.tail

/-- `send_recv` reports the status of the head, and for a redirect the value of
its Location header. -/
def HeadReported (h : ResponseHead) (rest : Bytes) (reads : List ReadEvent) : Prop :=
  ∃ out x, HttpClient.receive [] (h.encode ++ rest) reads = some out ∧
    out.result = .ok (h.code.value, x) ∧
    (h.code.value = 302 → ∀ l ∈ h.headers, l.Is (bytes "location") → x = l.value)

/-- A status that is no redirect is reported, if the reads do not fail. -/
theorem deliver_status {h : ResponseHead} (h302 : h.code.value ≠ 302) (buf inbound : Bytes)
    {cuts : List Nat} (hpos : ∀ n ∈ cuts, 1 ≤ n) (hsum : cuts.sum = inbound.length)
    (tail : List ReadEvent) :
    ∃ out x, HttpClient.deliver h.kept buf inbound (arrivals cuts (.eof :: tail)) = some out ∧
      out.result = .ok (h.code.value, x) := by
  have hstatus : ¬ h.kept.status = 302 := by
    show ¬ (h.code.value : Int) = 302
    omega
  unfold HttpClient.deliver
  rw [if_neg hstatus]
  by_cases hnone : h.kept.contentLen = 0
  · rw [if_pos hnone]
    exact ⟨_, _, rfl, rfl⟩
  · rw [if_neg hnone]
    dsimp only
    by_cases hall : (((h.kept.contentLen : Int) - buf.length) % 2 ^ 64).toNat = 0
    · rw [if_pos hall]
      exact ⟨_, _, rfl, rfl⟩
    · rw [if_neg hall]
      obtain ⟨o, ho, hend⟩ := asyncRead_eof (fun b => decide (buf.length +
        (((h.kept.contentLen : Int) - buf.length) % 2 ^ 64).toNat ≤ b.length)) cuts tail buf inbound
        hpos hsum
      rw [ho, Option.map_some]
      cases he : o.ending with
      | fail msg => exact absurd he (hend msg)
      | done | eof => exact ⟨_, _, rfl, rfl⟩

/-- The CR stays in what is returned of a line, or what follows a NUL does not. -/
theorem cStr_append_cr_ne (s : Bytes) : cStr (s ++ bytes "\r") ≠ s := by
  intro heq
  by_cases hzero : (0 : UInt8) ∈ s
  · rw [← heq] at hzero
    exact absurd (List.mem_takeWhile_imp hzero) (by decide)
  · have hno : (0 : UInt8) ∉ s ++ bytes "\r" := by
      intro hmem
      rcases List.mem_append.mp hmem with hmem | hmem
      · exact hzero hmem
      · exact absurd hmem (by decide)
    rw [(cStr_eq_self_iff _).mpr hno] at heq
    exact List.cons_ne_nil _ _ (List.append_right_eq_self.mp heq)

/-- What is returned for a redirect is never the value of a Location header. -/
theorem deliver_redirect {h : ResponseHead} (h302 : h.code.value = 302) {buf inbound : Bytes}
    {reads : List ReadEvent} {out : HttpClient.Received}
    (hout : HttpClient.deliver h.kept buf inbound reads = some out) {x : Bytes}
    (hx : out.result = .ok (h.code.value, x)) :
    ∃ l ∈ h.headers, l.Is (bytes "location") ∧ x ≠ l.value := by
  have hstatus : h.kept.status = 302 := by
    show (h.code.value : Int) = 302
    omega
  unfold HttpClient.deliver at hout
  rw [if_pos hstatus] at hout
  by_cases hnone : h.kept.location = []
  · rw [if_pos hnone] at hout
    obtain rfl := Option.some.inj hout
    exact nomatch hx
  · rw [if_neg hnone] at hout
    obtain rfl := Option.some.inj hout
    -- the last Location header is the one that is returned
    have hkept : h.kept.location = (lastField (bytes "location") h.headers).getD [] := rfl
    unfold lastField at hkept
    cases hlast : (h.headers.filter (fun l => l.Is (bytes "location") ∧ l.Spaced)).getLast? with
    | none =>
        rw [hlast] at hkept
        exact absurd hkept hnone
    | some l =>
        rw [hlast] at hkept
        obtain ⟨hmem, hd⟩ := List.mem_filter.mp (List.mem_of_getLast? hlast)
        have hname : l.Is (bytes "location") ∧ l.Spaced := of_decide_eq_true hd
        refine ⟨l, hmem, hname.1, ?_⟩
        have hvalue := (Prod.mk.inj (Except.ok.inj hx)).2
        rw [← hvalue, hkept]
        exact cStr_append_cr_ne l.value

/-- **THE HEAD IS REPORTED RIGHT** if and only if it is no redirect, however
the stream is cut and whatever stands behind the head. -/
theorem redirect_exact_iff (h : ResponseHead) (rest : Bytes) {cuts : List Nat}
    (hpos : ∀ n ∈ cuts, 1 ≤ n) (hsum : cuts.sum = (h.encode ++ rest).length)
    (tail : List ReadEvent) :
    HeadReported h rest (arrivals cuts (.eof :: tail)) ↔ h.code.value ≠ 302 := by
  unfold HeadReported
  rw [receive_responseHead h rest hpos hsum]
  constructor
  · rintro ⟨out, x, hout, hx, hvalue⟩ h302
    obtain ⟨l, hl, hname, hne⟩ := deliver_redirect h302 hout hx
    exact hne (hvalue h302 l hl hname)
  · intro h302
    have htotal := readTo_sum h.encode.length 0 cuts
    rw [List.length_append] at hsum
    have hreached : h.encode.length ≤ (readTo h.encode.length 0 cuts).1 := le_readTo (by omega)
    -- the reads that are left bring the rest of the stream
    have hleft : (readTo h.encode.length 0 cuts).2.sum =
        (rest.drop ((readTo h.encode.length 0 cuts).1 - h.encode.length)).length := by
      rw [List.length_drop]
      omega
    obtain ⟨out, x, hout, hx⟩ := deliver_status h302 _ _
      (fun n hn => hpos n ((readTo_suffix _ _ _).subset hn)) hleft tail
    exact ⟨out, x, hout, hx, fun h => absurd h h302⟩

theorem http11_bytes : ∀ c ∈ bytes "1.1", LineByte c ∧ c ≠ byte ' ' := by
  unfold LineByte
  decide +kernel

/-- A redirect, as a server sends it. -/
def redirectHead : ResponseHead where
  version := bytes "1.1"
  code := ⟨bytes "302", by decide, by decide +kernel⟩
  reason := bytes "Found"
  headers := [
    { name := bytes "Location"
      field := bytes " /login"
      nameBytes := by unfold LineByte; decide +kernel
      fieldBytes := by unfold LineByte; decide +kernel }]
  versionBytes := http11_bytes
  codeRange := by decide +kernel
  reasonBytes := by unfold LineByte; decide +kernel

theorem redirect_exact_iff_ok :
    HeadReported ownResponse.toHead ownResponse.body (arrivals [ownResponse.encode.length] [.eof]) :=
  (redirect_exact_iff ownResponse.toHead ownResponse.body (by decide +kernel) (by decide +kernel)
    []).mpr (by decide +kernel)

/-- **The location keeps its CR.** -/
theorem location_keeps_cr :
    (HttpClient.receive [] redirectHead.encode
        (arrivals [redirectHead.encode.length] [.eof])).map (fun out => out.result.toOption) =
      some (some (302, bytes "/login\r")) ∧
    ¬ HeadReported redirectHead [] (arrivals [redirectHead.encode.length] [.eof]) := by
  have hresult : (HttpClient.receive [] redirectHead.encode
      (arrivals [redirectHead.encode.length] [.eof])).map (fun out => out.result.toOption) =
        some (some (302, bytes "/login\r")) := by
    decide +kernel
  refine ⟨hresult, ?_⟩
  rintro ⟨out, x, hout, hx, hvalue⟩
  rw [List.append_nil] at hout
  rw [hout, Option.map_some, hx] at hresult
  have hlocation := hvalue (by decide +kernel) _ (List.mem_singleton_self _) (by decide +kernel)
  have hcr := (Prod.mk.inj (Option.some.inj (Option.some.inj hresult))).2
  rw [hlocation] at hcr
  exact absurd hcr (by decide +kernel)

end Petrel
