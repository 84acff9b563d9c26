/-
  Petrel.Core.LuaEngine — a request is handled by a Lua function.

  `handle_request` takes a Lua state, calls the global function of the route
  with a request and a response table, reads the table it returns and sends
  the response.  Seven checks on the way throw a `runtime_error`; everything
  the function does with the Lua API outside of `lua_pcall` is unprotected.

  The handler itself is a parameter: an arbitrary function from the heap and
  its arguments to a heap and a result.

  Main results:
    * `headerLoop_walk`, `headerLoop_returned` — the header loop returns if
      and only if the walk over the headers table ends.
    * `handleRequest_answers` — where the walk ends and no metamethod raises,
      the reply is sent, or an exception leaves the request unanswered.
    * `handleRequest_stuck`   — otherwise the code does not come to an end.
    * `handleRequest_extends` — the fuel does not change how it ends.
-/

import Petrel.Core.Request
import Petrel.Lua.State

namespace Petrel

open Framework

/-! ## §1. The environment of a request. -/

/-- What a handler returns or raises, or the fault the process ends with before
it can do either. -/
inductive HandlerResult (Num : Type) where
  | returned (vs : List (LuaValue Num))
  | raised (v : LuaValue Num)
  | died (f : Fault)

/-- A run of a handler: the heap it leaves and its result. -/
structure HandlerRun (Num : Type) where
  heap : LuaHeap Num
  result : HandlerResult Num

/-- What a request meets outside of this code: the state that `get_state`
gives it, or the exception it throws, the Lua functions, the text of a
traceback, the clock, and the memory behind a string. -/
structure EngineEnv (Num : Type) where
  getState : Except Bytes (LuaState Num)
  call : LuaHeap Num → LuaValue Num → List (LuaValue Num) → HandlerRun Num
  traceText : Bytes := []
  now : Int := 0
  behind : Nat → UInt8 := fun _ => 0

/-- The state of `handle_request`: its Lua state, its request, and whether
`free_state` has taken the Lua state back. -/
structure Handling (Num : Type) where
  L : LuaState Num := {}
  req : Request
  freed : Bool := false

/-- Code of `handle_request`. -/
abbrev EngineCode (Num α : Type) := Code Bytes Fault (Handling Num) α

section Engine

variable {Num : Type} [DecidableEq Num] [LuaNumber Num]

/-- Code of the Lua state. -/
def onLua {α : Type} (x : LuaCode Num α) : EngineCode Num α :=
  Code.zoom (fun h => h.L) (fun L h => { h with L := L }) x

/-- Code of the request. -/
def onRequest {α : Type} (x : Code Bytes Fault Request α) : EngineCode Num α :=
  Code.zoom (fun h => h.req) (fun req h => { h with req := req }) x

omit [DecidableEq Num] [LuaNumber Num] in
@[simp] theorem onLua_apply {α : Type} (x : LuaCode Num α) (h : Handling Num) :
    onLua x h = (x h.L).mapState (fun L => { h with L := L }) := rfl

omit [DecidableEq Num] [LuaNumber Num] in
@[simp] theorem onRequest_apply {α : Type} (x : Code Bytes Fault Request α) (h : Handling Num) :
    onRequest x h = (x h.req).mapState (fun req => { h with req := req }) := rfl

/-- `log_throw`: the message parts, each followed by a blank.  The log and the
dump of the stack it writes are left out. -/
def logThrow {α : Type} (msg : List Bytes) : EngineCode Num α :=
  Code.throw (msg.flatMap (fun s => s ++ bytes " "))

/-! ## §2. The request and response tables. -/

/-- Push a value and assign it to a field of the table below. -/
def LuaState.setFieldTo (k : Bytes) (v : LuaValue Num) (L : LuaState Num) : LuaState Num :=
  (L.push v).setField k

/-- The `n` bytes of a string from `pos` on, which may run over its end: the
terminating NUL and the memory behind it follow. -/
def readOver (behind : Nat → UInt8) (s : Bytes) (pos n : Nat) : Bytes :=
  (List.range n).map (fun i =>
    (s[pos + i]?).getD (if pos + i = s.length then 0 else behind (pos + i)))

/-- The body of the loop of `push_cookies` for the part of `cookies` that
begins at `start`, behind its first line. -/
def setCookie (behind : Nat → UInt8) (cookies : Bytes) (start : Nat) (part : Bytes)
    (L : LuaState Num) : LuaState Num :=
  let eq := part.idxOf (byte '=')
  if eq < part.length ∧ eq ≠ 0 then
    -- skip leading spaces
    let skipped := ((part.take eq).takeWhile (· = byte ' ')).length
    let nameLen := eq - skipped
    -- counted from the name's length, which leaves out the spaces skipped
    let valLen := part.length - nameLen - 1
    if nameLen > 0 then
      ((L.push (.string ((part.take eq).drop skipped))).push
        (.string (readOver behind cookies (start + eq + 1) valLen))).rawSet
    else L
  else L

/-- The body of the loop of `push_cookies`. -/
def pushCookie (behind : Nat → UInt8) (cookies : Bytes) (start : Nat) (part : Bytes) :
    LuaCode Num Unit :=
  -- `part.front()` asserts that the part is not empty
  if part = [] then Code.die .assertion else Code.modify (setCookie behind cookies start part)

/-- The parts of a string between the separators, with their positions. -/
def splitParts (sep : UInt8) : Nat → Bytes → Bytes → List (Nat × Bytes)
  | start, part, [] => [(start, part)]
  | start, part, c :: s =>
      if c = sep then (start, part) :: splitParts sep (start + part.length + 1) [] s
      else splitParts sep start (part ++ [c]) s

/-- The loop of `push_cookies`. -/
def pushParts (behind : Nat → UInt8) (cookies : Bytes) : List (Nat × Bytes) → LuaCode Num Unit
  | [] => pure ()
  | p :: parts => do
      pushCookie behind cookies p.1 p.2
      pushParts behind cookies parts

/-- `lua_engine::push_cookies`. -/
def pushCookies (behind : Nat → UInt8) (cookies : Bytes) : LuaCode Num Unit := do
  Code.modify LuaState.newTable
  pushParts behind cookies (splitParts (byte ';') 0 [] cookies)

/-- The headers table of `push_request`: a later header of a name replaces an
earlier one. -/
def pushHeaders (headers : Headers) (L : LuaState Num) : LuaState Num :=
  headers.foldl (fun L p => L.setFieldTo (cStr p.1) (.string (cStr p.2))) L.newTable

/-- The fields of `push_request` before the headers. -/
def pushLine (env : EngineEnv Num) (req : Request) (L : LuaState Num) : LuaState Num :=
  L.newTable
    |>.setFieldTo (bytes "timestamp") (.number (LuaNumber.ofInt env.now))
    |>.setFieldTo (bytes "method") (.string (cStr req.methodString))
    |>.setFieldTo (bytes "proto") (.string (cStr req.proto))
    |>.setFieldTo (bytes "host") (.string (cStr req.host))
    |>.setFieldTo (bytes "path") (.string (cStr req.path))

/-- The headers and the address of the client. -/
def pushHead (req : Request) (L : LuaState Num) : LuaState Num :=
  (pushHeaders req.headers L).setField (bytes "headers")
    |>.setFieldTo (bytes "remote_addr_str") (.string (cStr req.remoteAddr))
    |>.setFieldTo (bytes "remote_addr_ip_ver")
        (.number (LuaNumber.ofInt (if req.remoteIsV4 then 4 else 6)))

/-- The content of a POST, with all its bytes. -/
def pushContent (req : Request) (L : LuaState Num) : LuaState Num :=
  if req.method = .post then L.setFieldTo (bytes "content") (.string req.content) else L

/-- `lua_engine::push_request`. -/
def pushRequest (env : EngineEnv Num) (req : Request) : LuaCode Num Unit := do
  Code.modify (pushLine env req)
  Code.modify (pushHead req)
  -- a table of cookies only where the request has the header
  if req.headers.exists (bytes "cookie") then
    pushCookies env.behind (req.headers.value (bytes "cookie"))
    Code.modify (fun L => L.setField (bytes "cookies"))
  Code.modify (pushContent req)

/-- `lua_engine::push_response`. -/
def pushResponse (L : LuaState Num) : LuaState Num :=
  let L := L.newTable
    |>.setFieldTo (bytes "status") (.number (LuaNumber.ofInt 200))
    |>.setFieldTo (bytes "content") (.string [])
  L.newTable.setField (bytes "headers")

/-! ## §3. The protected call. -/

/-- `lua_utils::traceback`, the message handler: what it makes of an error
value.  An error in its `__tostring` is replaced by Lua's own message. -/
def LuaHeap.traceback (h : LuaHeap Num) (traceText : Bytes) (v : LuaValue Num) : LuaValue Num :=
  match v.toText with
  | some msg => .string (cStr msg ++ traceText)
  | none =>
      match v with
      -- `lua_isnoneornil`: the value is left as it is
      | .nil => .nil
      | v =>
          match h.toStringMeta v with
          | some (.returned w) => w
          | some (.raised _) => .string (bytes "error in error handling")
          | none => .string (bytes "(no error message)")

/-- `lua_pcall(L, 2, 1, traceback_idx)`: true where it reports an error. -/
def luaPcall (env : EngineEnv Num) : LuaCode Num Bool := fun L =>
  match L.stack with
  | response :: request :: func :: rest =>
      let run := env.call L.heap func [request, response]
      match run.result with
      | .returned vs => .returned false { L with stack := vs.headD .nil :: rest, heap := run.heap }
      | .raised v =>
          .returned true { L with stack := run.heap.traceback env.traceText v :: rest, heap := run.heap }
      | .died fault => .died fault { L with heap := run.heap }
  | _ => .died .badIndex L

/-! ## §4. `handle_request`. -/

/-- `int status = lua_tointeger(L, -1)` narrows to 32 bits. -/
def toInt32 (n : Int) : Int := n.bmod (2 ^ 32)

/-- Read `response.status`. -/
def readStatus : EngineCode Num Int := do
  onLua (luaGetField (bytes "status"))
  let h ← Code.get
  if !(h.L.peek 1).isNumber then
    logThrow [bytes "response.status is no number"]
  onLua (Code.modify (fun L => L.pop 1))
  pure (toInt32 (h.L.peek 1).toInteger)

/-- The loop over the headers table at stack index `hdrI`. -/
def headerLoop (hdrI : Nat) : Nat → EngineCode Num Unit
  | 0 => Code.exhaust
  | fuel + 1 => do
      if ← onLua (luaNext hdrI) then
        let h ← Code.get
        -- a pair that is no pair of strings is passed over
        if (h.L.peek 1).isString && (h.L.peek 2).isString then
          let name ← onLua (luaToText 2)
          let val ← onLua (luaToText 1)
          onRequest (Code.modify (fun req => req.addHeader (cStr (name.getD [])) (cStr (val.getD []))))
        -- the key stays for `lua_next`
        onLua (Code.modify (fun L => L.pop 1))
        headerLoop hdrI fuel
      else pure ()

/-- Iterate through `response.headers`. -/
def readHeaders (fuel : Nat) : EngineCode Num Unit := do
  onLua (luaGetField (bytes "headers"))
  let h ← Code.get
  if !(h.L.peek 1).isTable then
    logThrow [bytes "repsonse.headers is no table"]
  let hdrI := h.L.stack.length
  onLua (Code.modify (fun L => L.push .nil))
  headerLoop hdrI fuel
  onLua (Code.modify (fun L => L.pop 1))

/-- Get `response.content`, which stays on the stack. -/
def readContent : EngineCode Num Bytes := do
  onLua (luaGetField (bytes "content"))
  let h ← Code.get
  if !(h.L.peek 1).isString then
    logThrow [bytes "response.content is no string"]
  let content ← onLua (luaToText 1)
  pure (content.getD [])

/-- Get the response from the table on top of the stack and send it. -/
def readResponse (fuel : Nat) : EngineCode Num Unit := do
  let h ← Code.get
  if !(h.L.peek 1).isTable then
    logThrow [bytes "repsonse is no table"]
  let status ← readStatus
  readHeaders fuel
  let content ← readContent
  onRequest (sendResponse status content)
  -- remove the return value
  onLua (Code.modify (fun L => L.pop 2))

/-- Push the handler and its arguments and call it. -/
def callHandler (env : EngineEnv Num) (func : Bytes) : EngineCode Num Unit := do
  onLua (luaGetGlobal (cStr func))
  let h ← Code.get
  if !(h.L.peek 1).isFunction then
    logThrow [bytes "handler function", func, bytes "not defined"]
  onLua (pushRequest env h.req)
  onLua (Code.modify pushResponse)
  if ← onLua (luaPcall env) then
    match ← onLua (luaToText 1) with
    | some msg => logThrow [bytes "lua_pcall failed:", cStr msg]
    | none => Code.die .nullDereference      -- a `string_ref` of a null pointer

/-- `lua_engine::handle_request`; `fuel` bounds the header loop. -/
def handleRequest (env : EngineEnv Num) (fuel : Nat) (func : Bytes) : EngineCode Num Unit := do
  match env.getState with
  | .error e => Code.throw e
  | .ok L => Code.modify (fun h => { h with L := L })
  callHandler env func
  readResponse fuel
  Code.modify (fun h => { h with freed := true })

/-! ## §5. What the handler's result asks for. -/

/-- What the header loop leaves of a key on the stack: where it adds a header
the key is converted to a string. -/
def keyLeft (k v : LuaValue Num) : LuaValue Num :=
  if v.isString && k.isString then k.converted else k

/-- The headers the loop adds for a pair. -/
def headersOf (k v : LuaValue Num) : Headers :=
  if v.isString && k.isString then [(cStr (k.toText.getD []), cStr (v.toText.getD []))] else []

/-- The walk over the pairs of a headers table from a key on: it goes on with
the pair after the key that is left on the stack, and ends behind the last
pair, having met the given headers. -/
inductive HeaderWalk (ps : LuaPairs Num) : LuaValue Num → Headers → Prop where
  | done {k : LuaValue Num} : ps.next k = some none → HeaderWalk ps k []
  | next {key k v : LuaValue Num} {hs : Headers} :
      ps.next key = some (some (k, v)) → HeaderWalk ps (keyLeft k v) hs →
      HeaderWalk ps key (headersOf k v ++ hs)

/-- The value a call returns, if it does not raise an error. -/
def CallResult.value? : CallResult Num → Option (LuaValue Num)
  | .returned v => some v
  | .raised _ => none

/-- The status and the content of a well-formed response table. -/
def readReply (H : LuaHeap Num) : LuaValue Num → Option (Int × Bytes)
  | .table t =>
      (H.index t (.string (bytes "status"))).value?.bind fun s =>
      if s.isNumber then
        (H.index t (.string (bytes "headers"))).value?.bind fun hd =>
        if hd.isTable then
          (H.index t (.string (bytes "content"))).value?.bind fun c =>
          c.toText.map fun text => (toInt32 s.toInteger, text)
        else none
      else none
  | _ => none

/-- No part of a cookie header is empty. -/
def NoEmptyPart (cookies : Bytes) : Prop := ∀ p ∈ splitParts (byte ';') 0 [] cookies, p.2 ≠ []

instance (cookies : Bytes) : Decidable (NoEmptyPart cookies) :=
  inferInstanceAs (Decidable (∀ p ∈ splitParts (byte ';') 0 [] cookies, p.2 ≠ []))

/-- The cookies of a request can be split. -/
def Request.CookiesOk (req : Request) : Prop :=
  req.headers.exists (bytes "cookie") = true → NoEmptyPart (req.headers.value (bytes "cookie"))

instance (req : Request) : Decidable req.CookiesOk :=
  inferInstanceAs (Decidable (req.headers.exists (bytes "cookie") = true → _))

/-- The table of `push_cookies`, where no part is empty. -/
def cookieTable (behind : Nat → UInt8) (cookies : Bytes) (L : LuaState Num) : LuaState Num :=
  (splitParts (byte ';') 0 [] cookies).foldl
    (fun L p => setCookie behind cookies p.1 p.2 L) L.newTable

/-- The table of `push_request`, where the cookies can be split. -/
def requestTable (env : EngineEnv Num) (req : Request) (L : LuaState Num) : LuaState Num :=
  let L := pushHead req (pushLine env req L)
  pushContent req
    (if req.headers.exists (bytes "cookie") then
      (cookieTable env.behind (req.headers.value (bytes "cookie")) L).setField (bytes "cookies")
    else L)

/-- The run of the handler `f` for a request on the state `L`; it is not called
where the request cannot be pushed. -/
def handlerRun (env : EngineEnv Num) (f : LuaValue Num) (L : LuaState Num) (req : Request) :
    HandlerRun Num :=
  if req.CookiesOk then
    let L := pushResponse (requestTable env req (L.push f))
    env.call L.heap f [L.peek 2, L.peek 1]
  else ⟨L.heap, .died .assertion⟩

/-- The reply the handler asks for: none where it is undefined, raises an
error or returns something ill formed. -/
def handlerReply (env : EngineEnv Num) (func : Bytes) (req : Request) : Option (Int × Bytes) :=
  match env.getState with
  | .error _ => none
  | .ok L =>
      match L.heap.index L.globals (.string (cStr func)) with
      | .raised _ => none
      | .returned f =>
          if f.isFunction then
            let run := handlerRun env f L req
            match run.result with
            | .returned vs => readReply run.heap (vs.headD .nil)
            | .raised _ | .died _ => none
          else none

/-- Reading the response raises no error outside of `lua_pcall`, and the walk
over the headers ends. -/
def Readable (H : LuaHeap Num) (v : LuaValue Num) : Prop :=
  ∀ t, v = .table t → ∃ s, H.index t (.string (bytes "status")) = .returned s ∧
    (s.isNumber = true → ∃ hd, H.index t (.string (bytes "headers")) = .returned hd ∧
      ∀ ht, hd = .table ht → (∃ hs, HeaderWalk (H.pairs ht) .nil hs) ∧
        ∃ c, H.index t (.string (bytes "content")) = .returned c)

/-- The accesses of `handle_request` to the Lua state come to an end. -/
def Answerable (env : EngineEnv Num) (func : Bytes) (req : Request) : Prop :=
  ∀ L, env.getState = .ok L →
    ∃ f, L.heap.index L.globals (.string (cStr func)) = .returned f ∧
      (f.isFunction = true →
        let run := handlerRun env f L req
        match run.result with
        | .returned vs => Readable run.heap (vs.headD .nil)
        | .raised v => (run.heap.traceback env.traceText v).toText.isSome = true
        | .died _ => False)

/-! ## §6. The header loop. -/

omit [LuaNumber Num] in
/-- The state of the loop: a key above the headers table. -/
theorem luaNext_apply {h : Handling Num} {key : LuaValue Num} {ht : TableRef}
    {rest : List (LuaValue Num)} (hstack : h.L.stack = key :: .table ht :: rest) :
    onLua (luaNext (rest.length + 1)) h =
      match (h.L.heap.pairs ht).next key with
      | some (some (k, v)) =>
          .returned true { h with L := { h.L with stack := v :: k :: .table ht :: rest } }
      | some none => .returned false { h with L := { h.L with stack := .table ht :: rest } }
      | none => .died .panic h := by
  -- the headers table is below the key
  have habs : h.L.peekAbs (rest.length + 1) = .table ht := by
    unfold LuaState.peekAbs
    rw [hstack]
    have : (key :: LuaValue.table ht :: rest).length - (rest.length + 1) = 1 := by
      simp only [List.length_cons]
      omega
    rw [this]
    rfl
  have hpeek : h.L.peek 1 = key := by
    unfold LuaState.peek
    rw [hstack]
    rfl
  rw [onLua_apply]
  unfold luaNext
  simp only [habs, hpeek]
  cases (h.L.heap.pairs ht).next key with
  | none => rfl
  | some p =>
      cases p with
      | none => simp [LuaState.pop, hstack]
      | some p => simp [LuaState.pop, LuaState.push, hstack]

/-- The body of the loop for a pair: it adds the headers of the pair and
leaves the key for the next step. -/
theorem headerLoop_step {h : Handling Num} {key k v : LuaValue Num} {ht : TableRef}
    {rest : List (LuaValue Num)} (hstack : h.L.stack = key :: .table ht :: rest)
    (hnext : (h.L.heap.pairs ht).next key = some (some (k, v))) (fuel : Nat) :
    headerLoop (rest.length + 1) (fuel + 1) h =
      headerLoop (rest.length + 1) fuel
        { h with L := { h.L with stack := keyLeft k v :: .table ht :: rest },
                 req := { h.req with responseHeaders := h.req.responseHeaders ++ headersOf k v } } := by
  conv_lhs => unfold headerLoop
  simp only [Code.bind_apply]
  rw [luaNext_apply hstack]
  simp only [hnext, Outcome.andThen_returned, if_true, Code.bind_apply, Code.get_apply]
  -- only a pair of strings reads and adds anything
  cases hk : k.toText with
  | none =>
      simp [LuaState.peek, LuaValue.isString, hk, keyLeft, headersOf, LuaState.pop]
  | some name =>
      cases hv : v.toText with
      | none => simp [LuaState.peek, LuaValue.isString, hk, hv, keyLeft, headersOf, LuaState.pop]
      | some val =>
          simp [LuaState.peek, LuaValue.isString, hk, hv, keyLeft, headersOf, LuaState.pop,
            luaToText, Request.addHeader, LuaValue.converted]

/-- **Where the walk ends, the loop returns** with the headers it has met. -/
theorem headerLoop_walk {h : Handling Num} {key : LuaValue Num} {ht : TableRef}
    {rest : List (LuaValue Num)} (hstack : h.L.stack = key :: .table ht :: rest) {hs : Headers}
    (hwalk : HeaderWalk (h.L.heap.pairs ht) key hs) :
    ∃ fuel, headerLoop (rest.length + 1) fuel h =
      .returned () { h with L := { h.L with stack := .table ht :: rest },
                            req := { h.req with responseHeaders := h.req.responseHeaders ++ hs } } := by
  generalize hps : h.L.heap.pairs ht = ps at hwalk
  -- the fuel is counted along the walk
  induction hwalk generalizing h with
  | done hnext =>
      refine ⟨1, ?_⟩
      unfold headerLoop
      simp only [Code.bind_apply]
      rw [luaNext_apply hstack, hps, hnext]
      simp
  | @next key k v hs hnext _ ih =>
      have hstep := headerLoop_step hstack (by rw [hps]; exact hnext)
      obtain ⟨fuel, hfuel⟩ := ih (h := { h with
        L := { h.L with stack := keyLeft k v :: .table ht :: rest },
        req := { h.req with responseHeaders := h.req.responseHeaders ++ headersOf k v } }) rfl hps
      exact ⟨fuel + 1, by rw [hstep, hfuel]; simp [List.append_assoc]⟩

/-- **The loop returns only where the walk ends**; otherwise it is stuck. -/
theorem headerLoop_returned {h : Handling Num} {key : LuaValue Num} {ht : TableRef}
    {rest : List (LuaValue Num)} (hstack : h.L.stack = key :: .table ht :: rest) (fuel : Nat) :
    (headerLoop (rest.length + 1) fuel h).Stuck ∨ ∃ hs, HeaderWalk (h.L.heap.pairs ht) key hs ∧
      headerLoop (rest.length + 1) fuel h =
        .returned () { h with L := { h.L with stack := .table ht :: rest },
                              req := { h.req with responseHeaders := h.req.responseHeaders ++ hs } } := by
  induction fuel generalizing h key with
  | zero => exact .inl (.inr ⟨h, rfl⟩)
  | succ fuel ih =>
      cases hnext : (h.L.heap.pairs ht).next key with
      | none =>
          -- `next` of a key that the table does not have
          refine .inl (.inl ⟨.panic, h, ?_⟩)
          unfold headerLoop
          rw [Code.bind_apply, luaNext_apply hstack, hnext]
          rfl
      | some p =>
          cases p with
          | none =>
              refine .inr ⟨[], .done hnext, ?_⟩
              unfold headerLoop
              rw [Code.bind_apply, luaNext_apply hstack, hnext]
              simp
          | some p =>
              obtain ⟨k, v⟩ := p
              rw [headerLoop_step hstack hnext]
              rcases ih (h := { h with
                L := { h.L with stack := keyLeft k v :: .table ht :: rest },
                req := { h.req with responseHeaders := h.req.responseHeaders ++ headersOf k v } })
                rfl with hstuck | ⟨hs, hwalk, hret⟩
              · exact .inl hstuck
              · refine .inr ⟨_, .next hnext hwalk, ?_⟩
                rw [hret]
                simp [List.append_assoc]

/-! ## §7. The steps of `handle_request`. -/

/-- The run throws and leaves the request without an answer. -/
def Unanswered {α : Type} (o : Outcome Bytes Fault (Handling Num) α) : Prop :=
  ∃ e h, o = .threw e h ∧ h.req.Fresh

omit [LuaNumber Num] in
/-- `lua_getfield` with a table on top of the stack. -/
theorem luaGetField_apply {h : Handling Num} {t : TableRef} {rest : List (LuaValue Num)}
    (hstack : h.L.stack = .table t :: rest) (k : Bytes) :
    onLua (luaGetField k) h =
      match h.L.heap.index t (.string k) with
      | .returned v => .returned () { h with L := { h.L with stack := v :: .table t :: rest } }
      | .raised _ => .died .panic h := by
  have hpeek : h.L.peek 1 = .table t := by
    unfold LuaState.peek
    rw [hstack]
    rfl
  rw [onLua_apply]
  unfold luaGetField
  simp only [hpeek]
  cases h.L.heap.index t (.string k) with
  | returned v => simp [LuaState.push, hstack]
  | raised v => rfl

omit [LuaNumber Num] in
/-- Behind it the field is on the stack. -/
theorem luaGetField_bind {α : Type} {h : Handling Num} {t : TableRef} {rest : List (LuaValue Num)}
    (hstack : h.L.stack = .table t :: rest) {k : Bytes} {v : LuaValue Num}
    (hs : h.L.heap.index t (.string k) = .returned v) (f : Unit → EngineCode Num α) :
    (onLua (luaGetField k) >>= f) h =
      f () { h with L := { h.L with stack := v :: .table t :: rest } } := by
  rw [Code.bind_apply, luaGetField_apply hstack, hs]
  rfl

omit [DecidableEq Num] [LuaNumber Num] in
theorem stack_restored {L : LuaState Num} {stack : List (LuaValue Num)} (h : L.stack = stack) :
    ({ L with stack := stack } : LuaState Num) = L := by
  rw [← h]

omit [LuaNumber Num] in
/-- A field whose metamethod raises an error cannot be read. -/
theorem luaGetField_stuck {α : Type} {h : Handling Num} {t : TableRef} {rest : List (LuaValue Num)}
    (hstack : h.L.stack = .table t :: rest) {k : Bytes} {e : LuaValue Num}
    (hs : h.L.heap.index t (.string k) = .raised e) (f : Unit → EngineCode Num α) :
    ((onLua (luaGetField k) >>= f) h).Stuck := by
  rw [Code.bind_apply, luaGetField_apply hstack, hs]
  exact .inl ⟨.panic, h, rfl⟩

theorem readStatus_returned {h : Handling Num} {t : TableRef} {rest : List (LuaValue Num)}
    (hstack : h.L.stack = .table t :: rest) {s : LuaValue Num}
    (hs : h.L.heap.index t (.string (bytes "status")) = .returned s) (hnum : s.isNumber = true) :
    readStatus h = .returned (toInt32 s.toInteger) h := by
  unfold readStatus
  rw [luaGetField_bind hstack hs]
  simp only [Outcome.andThen_returned, Code.bind_apply, Code.get_apply]
  have hrestore := stack_restored hstack
  simp [LuaState.peek, hnum, LuaState.pop, hrestore]

theorem readStatus_threw {h : Handling Num} {t : TableRef} {rest : List (LuaValue Num)}
    (hfresh : h.req.Fresh) (hstack : h.L.stack = .table t :: rest) {s : LuaValue Num}
    (hs : h.L.heap.index t (.string (bytes "status")) = .returned s) (hnum : s.isNumber = false) :
    Unanswered (readStatus h) := by
  unfold readStatus
  rw [luaGetField_bind hstack hs]
  simp only [Outcome.andThen_returned, Code.bind_apply, Code.get_apply]
  simp [LuaState.peek, hnum, logThrow, Unanswered, hfresh]

theorem readHeaders_returned {h : Handling Num} {t ht : TableRef} {rest : List (LuaValue Num)}
    (hstack : h.L.stack = .table t :: rest)
    (hs : h.L.heap.index t (.string (bytes "headers")) = .returned (.table ht)) {hs' : Headers}
    (hwalk : HeaderWalk (h.L.heap.pairs ht) .nil hs') :
    ∃ fuel, readHeaders fuel h = .returned () { h with
      req := { h.req with responseHeaders := h.req.responseHeaders ++ hs' } } := by
  -- the loop begins with a nil key above the table
  obtain ⟨fuel, hloop⟩ := headerLoop_walk
    (h := { h with L := { h.L with stack := .nil :: .table ht :: .table t :: rest } })
    (show _ = .nil :: .table ht :: (.table t :: rest) from rfl) hwalk
  refine ⟨fuel, ?_⟩
  unfold readHeaders
  rw [luaGetField_bind hstack hs]
  simp only [Outcome.andThen_returned, Code.bind_apply, Code.get_apply]
  have hrestore := stack_restored hstack
  simp only [List.length_cons] at hloop
  simp [LuaState.peek, LuaValue.isTable, LuaState.push, hloop, LuaState.pop, hrestore]

/-- Without a headers table nothing is added to the request. -/
theorem readHeaders_noTable {h : Handling Num} {t : TableRef} {rest : List (LuaValue Num)}
    (hstack : h.L.stack = .table t :: rest) {hd : LuaValue Num}
    (hs : h.L.heap.index t (.string (bytes "headers")) = .returned hd) (htab : hd.isTable = false)
    (fuel : Nat) : ∃ e h', readHeaders fuel h = .threw e h' ∧ h'.req = h.req := by
  unfold readHeaders
  rw [luaGetField_bind hstack hs]
  simp only [Outcome.andThen_returned, Code.bind_apply, Code.get_apply]
  simp [LuaState.peek, htab, logThrow]

theorem readHeaders_threw {h : Handling Num} {t : TableRef} {rest : List (LuaValue Num)}
    (hfresh : h.req.Fresh) (hstack : h.L.stack = .table t :: rest) {hd : LuaValue Num}
    (hs : h.L.heap.index t (.string (bytes "headers")) = .returned hd) (htab : hd.isTable = false)
    (fuel : Nat) : Unanswered (readHeaders fuel h) := by
  obtain ⟨e, h', hthrew, hreq⟩ := readHeaders_noTable hstack hs htab fuel
  exact ⟨e, h', hthrew, hreq ▸ hfresh⟩

theorem readHeaders_cases {h : Handling Num} {t ht : TableRef} {rest : List (LuaValue Num)}
    (hstack : h.L.stack = .table t :: rest)
    (hs : h.L.heap.index t (.string (bytes "headers")) = .returned (.table ht)) (fuel : Nat) :
    (readHeaders fuel h).Stuck ∨ ∃ hs', HeaderWalk (h.L.heap.pairs ht) .nil hs' ∧
      readHeaders fuel h = .returned () { h with
        req := { h.req with responseHeaders := h.req.responseHeaders ++ hs' } } := by
  have hloop := headerLoop_returned
    (h := { h with L := { h.L with stack := .nil :: .table ht :: .table t :: rest } })
    (show _ = .nil :: .table ht :: (.table t :: rest) from rfl) fuel
  unfold readHeaders
  rw [luaGetField_bind hstack hs]
  simp only [Outcome.andThen_returned, Code.bind_apply, Code.get_apply]
  have hrestore := stack_restored hstack
  simp only [List.length_cons] at hloop
  simp only [LuaState.peek, LuaValue.isTable, LuaState.push, List.length_cons, Bool.not_true,
    Bool.false_eq_true, Nat.sub_self, List.getElem?_cons_zero, Option.getD_some]
  rcases hloop with hstuck | ⟨hs', hwalk, hret⟩
  · exact .inl (hstuck.andThen _)
  · refine .inr ⟨hs', hwalk, ?_⟩
    simp [hret, LuaState.pop, hrestore]

theorem readContent_returned {h : Handling Num} {t : TableRef} {rest : List (LuaValue Num)}
    (hstack : h.L.stack = .table t :: rest) {c : LuaValue Num} {text : Bytes}
    (hs : h.L.heap.index t (.string (bytes "content")) = .returned c) (htext : c.toText = some text) :
    readContent h = .returned text { h with
      L := { h.L with stack := c.converted :: .table t :: rest } } := by
  unfold readContent
  rw [luaGetField_bind hstack hs]
  simp only [Outcome.andThen_returned, Code.bind_apply, Code.get_apply]
  simp [LuaState.peek, LuaValue.isString, htext, luaToText]

theorem readContent_threw {h : Handling Num} {t : TableRef} {rest : List (LuaValue Num)}
    (hfresh : h.req.Fresh) (hstack : h.L.stack = .table t :: rest) {c : LuaValue Num}
    (hs : h.L.heap.index t (.string (bytes "content")) = .returned c) (htext : c.toText = none) :
    Unanswered (readContent h) := by
  unfold readContent
  rw [luaGetField_bind hstack hs]
  simp only [Outcome.andThen_returned, Code.bind_apply, Code.get_apply]
  simp [LuaState.peek, LuaValue.isString, htext, logThrow, Unanswered, hfresh]

omit [DecidableEq Num] [LuaNumber Num] in
theorem Unanswered.andThen {α β : Type} {o : Outcome Bytes Fault (Handling Num) α}
    (h : Unanswered o) (f : α → EngineCode Num β) : Unanswered (o.andThen f) := by
  obtain ⟨e, h', rfl, hf⟩ := h
  exact ⟨e, h', rfl, hf⟩

/-- How reading the response of the handler ends: with the reply sent, or
with an exception and without an answer. -/
def Concluded (reply : Option (Int × Bytes)) (o : Outcome Bytes Fault (Handling Num) Unit) : Prop :=
  match reply with
  | some r => ∃ h, o = .returned () h ∧ h.req.AnsweredBy r.1 r.2
  | none => Unanswered o

/-- The part of the response behind its status. -/
theorem readResponse_table {h : Handling Num} {t : TableRef} {rest : List (LuaValue Num)}
    (hstack : h.L.stack = .table t :: rest) (fuel : Nat) :
    readResponse fuel h = (readStatus h).andThen (fun status => do
      readHeaders fuel
      let content ← readContent
      onRequest (sendResponse status content)
      onLua (Code.modify (fun L => L.pop 2))) := by
  unfold readResponse
  simp [LuaState.peek, hstack, LuaValue.isTable]

theorem readResponse_content {h : Handling Num} {t : TableRef} {rest : List (LuaValue Num)}
    (hfresh : h.req.Fresh) (hstack : h.L.stack = .table t :: rest) (status : Int)
    {c : LuaValue Num} (hc : h.L.heap.index t (.string (bytes "content")) = .returned c) :
    Concluded (c.toText.map fun text => (status, text))
      ((readContent h).andThen (fun content => do
        onRequest (sendResponse status content)
        onLua (Code.modify (fun L => L.pop 2)))) := by
  cases htext : c.toText with
  | none => exact (readContent_threw hfresh hstack hc htext).andThen _
  | some text =>
      obtain ⟨req', hsend, hans⟩ := sendResponse_fresh (φ := Fault) hfresh status text
      rw [readContent_returned hstack hc htext]
      refine ⟨{ h with L := { h.L with stack := rest }, req := req' }, ?_, hans⟩
      simp [hsend, LuaState.pop]

/-- **Where the result of the handler can be read, reading it comes to an end.** -/
theorem readResponse_concluded {h : Handling Num} {v : LuaValue Num} {rest : List (LuaValue Num)}
    (hfresh : h.req.Fresh) (hstack : h.L.stack = v :: rest) (hread : Readable h.L.heap v) :
    ∃ fuel, Concluded (readReply h.L.heap v) (readResponse fuel h) := by
  cases htab : v.isTable with
  | false =>
      -- a value that is no table has no reply
      have hnone : readReply h.L.heap v = none := by
        cases v <;> first | rfl | simp [LuaValue.isTable] at htab
      refine ⟨0, ?_⟩
      rw [hnone]
      unfold readResponse
      simp [LuaState.peek, hstack, htab, logThrow, Concluded, Unanswered, hfresh]
  | true =>
      obtain ⟨t, rfl⟩ : ∃ t, v = .table t := by
        cases v <;> first | exact ⟨_, rfl⟩ | simp [LuaValue.isTable] at htab
      obtain ⟨s, hs, hrest⟩ := hread t rfl
      simp only [readResponse_table hstack, readReply, hs, CallResult.value?, Option.bind_some]
      cases hnum : s.isNumber with
      | false => exact ⟨0, (readStatus_threw hfresh hstack hs hnum).andThen _⟩
      | true =>
          obtain ⟨hd, hhd, hheaders⟩ := hrest hnum
          simp only [readStatus_returned hstack hs hnum, Outcome.andThen_returned, if_true, hhd,
            Option.bind_some, Code.bind_apply]
          cases hdtab : hd.isTable with
          | false => exact ⟨0, (readHeaders_threw hfresh hstack hhd hdtab 0).andThen _⟩
          | true =>
              obtain ⟨ht, rfl⟩ : ∃ ht, hd = .table ht := by
                cases hd <;> first | exact ⟨_, rfl⟩ | simp [LuaValue.isTable] at hdtab
              obtain ⟨⟨hs', hwalk⟩, c, hc⟩ := hheaders ht rfl
              obtain ⟨fuel, hfuel⟩ := readHeaders_returned hstack hhd hwalk
              refine ⟨fuel, ?_⟩
              simp only [hfuel, Outcome.andThen_returned, if_true, hc, Option.bind_some]
              exact readResponse_content (h := { h with
                  req := { h.req with responseHeaders := h.req.responseHeaders ++ hs' } })
                ⟨hfresh.sent, hfresh.promise, hfresh.body⟩ hstack (toInt32 s.toInteger) hc

/-- **Where the result cannot be read, the code is stuck.** -/
theorem readResponse_stuck {h : Handling Num} {v : LuaValue Num} {rest : List (LuaValue Num)}
    (hstack : h.L.stack = v :: rest) (hread : ¬ Readable h.L.heap v) (fuel : Nat) :
    (readResponse fuel h).Stuck := by
  unfold Readable at hread
  push Not at hread
  obtain ⟨t, rfl, hfail⟩ := hread
  rw [readResponse_table hstack]
  cases hs : h.L.heap.index t (.string (bytes "status")) with
  | raised e =>
      exact (luaGetField_stuck hstack hs _).andThen _
  | returned s =>
      obtain ⟨hnum, hfail⟩ := hfail s hs
      simp only [readStatus_returned hstack hs hnum, Outcome.andThen_returned, Code.bind_apply]
      cases hhd : h.L.heap.index t (.string (bytes "headers")) with
      | raised e =>
          exact (luaGetField_stuck hstack hhd _).andThen _
      | returned hd =>
          obtain ⟨ht, rfl, hfail⟩ := hfail hd hhd
          rcases readHeaders_cases hstack hhd fuel with hstuck | ⟨hs', hwalk, hret⟩
          · exact hstuck.andThen _
          · -- the walk ends, so it is the content that cannot be read
            rw [hret]
            simp only [Outcome.andThen_returned, Code.bind_apply]
            cases hc : h.L.heap.index t (.string (bytes "content")) with
            | returned c => exact absurd hc (hfail ⟨hs', hwalk⟩ c)
            | raised e =>
                exact (luaGetField_stuck (h := { h with
                  req := { h.req with responseHeaders := h.req.responseHeaders ++ hs' } })
                  hstack hc _).andThen _

/-! ## §8. The call of the handler. -/

omit [LuaNumber Num] in
theorem setField_stack {L : LuaState Num} {v : LuaValue Num} {t : TableRef}
    {base : List (LuaValue Num)} (h : L.stack = v :: .table t :: base) (k : Bytes) :
    (L.setField k).stack = .table t :: base := by
  unfold LuaState.setField
  rw [h]

omit [LuaNumber Num] in
theorem setFieldTo_stack {L : LuaState Num} {t : TableRef} {base : List (LuaValue Num)}
    (h : L.stack = .table t :: base) (k : Bytes) (v : LuaValue Num) :
    (L.setFieldTo k v).stack = .table t :: base :=
  setField_stack (v := v) (by show v :: L.stack = _; rw [h]) k

omit [LuaNumber Num] in
theorem pushHeaders_stack (headers : Headers) (L : LuaState Num) :
    ∃ t, (pushHeaders headers L).stack = .table t :: L.stack := by
  unfold pushHeaders
  refine ⟨L.heap.next, ?_⟩
  -- the table stays where it is over every header
  have hfold : ∀ (M : LuaState Num), M.stack = .table L.heap.next :: L.stack →
      (headers.foldl (fun L p => L.setFieldTo (cStr p.1) (.string (cStr p.2))) M).stack
        = .table L.heap.next :: L.stack := by
    induction headers with
    | nil => exact fun M hM => hM
    | cons p headers ih => exact fun M hM => ih _ (setFieldTo_stack hM _ _)
  exact hfold _ rfl

omit [LuaNumber Num] in
theorem cookieTable_stack (behind : Nat → UInt8) (cookies : Bytes) (L : LuaState Num) :
    ∃ t, (cookieTable behind cookies L).stack = .table t :: L.stack := by
  unfold cookieTable
  refine ⟨L.heap.next, ?_⟩
  generalize splitParts (byte ';') 0 [] cookies = parts
  -- one part of the header leaves the table where it is
  have hcookie : ∀ (M : LuaState Num) (start : Nat) (part : Bytes),
      M.stack = .table L.heap.next :: L.stack →
        (setCookie behind cookies start part M).stack = .table L.heap.next :: L.stack := by
    intro M start part hM
    unfold setCookie
    simp only
    split
    · split
      · simp [LuaState.push, LuaState.rawSet, hM]
      · exact hM
    · exact hM
  have hfold : ∀ (M : LuaState Num), M.stack = .table L.heap.next :: L.stack →
      (parts.foldl (fun L p => setCookie behind cookies p.1 p.2 L) M).stack
        = .table L.heap.next :: L.stack := by
    induction parts with
    | nil => exact fun M hM => hM
    | cons p parts ih => exact fun M hM => ih _ (hcookie M p.1 p.2 hM)
  exact hfold _ rfl

omit [LuaNumber Num] in
/-- **The loop over the parts of a cookie header** comes to its end if and only
if no part is empty. -/
theorem pushParts_apply (behind : Nat → UInt8) (cookies : Bytes) (parts : List (Nat × Bytes))
    (L : LuaState Num) :
    if ∀ p ∈ parts, p.2 ≠ [] then
      pushParts behind cookies parts L =
        .returned () (parts.foldl (fun L p => setCookie behind cookies p.1 p.2 L) L)
    else ∃ M, pushParts behind cookies parts L = .died .assertion M := by
  induction parts generalizing L with
  | nil => rfl
  | cons p parts ih =>
      unfold pushParts pushCookie
      simp only [Code.bind_apply, List.forall_mem_cons]
      by_cases hp : p.2 = []
      · rw [if_neg (fun h => h.1 hp), if_pos hp]
        exact ⟨L, rfl⟩
      · have hrest := ih (setCookie behind cookies p.1 p.2 L)
        rw [if_neg hp]
        by_cases hparts : ∀ q ∈ parts, q.2 ≠ []
        · rw [if_pos hparts] at hrest
          rw [if_pos ⟨hp, hparts⟩]
          exact hrest
        · rw [if_neg hparts] at hrest
          rw [if_neg (fun h => hparts h.2)]
          exact hrest

omit [LuaNumber Num] in
theorem pushCookies_apply (behind : Nat → UInt8) (cookies : Bytes) (L : LuaState Num) :
    if NoEmptyPart cookies then
      pushCookies behind cookies L = .returned () (cookieTable behind cookies L)
    else ∃ M, pushCookies behind cookies L = .died .assertion M :=
  pushParts_apply behind cookies _ L.newTable

/-- **The request is pushed** if and only if its cookies can be split. -/
theorem pushRequest_apply (env : EngineEnv Num) (req : Request) (L : LuaState Num) :
    if req.CookiesOk then pushRequest env req L = .returned () (requestTable env req L)
    else ∃ M, pushRequest env req L = .died .assertion M := by
  unfold pushRequest requestTable Request.CookiesOk
  simp only [Code.bind_apply, Code.modify_apply, Outcome.andThen_returned]
  have hcookies := pushCookies_apply env.behind (req.headers.value (bytes "cookie"))
    (pushHead req (pushLine env req L))
  by_cases hcookie : req.headers.exists (bytes "cookie") = true
  · simp only [hcookie, if_true, true_imp_iff, Code.bind_apply]
    by_cases hparts : NoEmptyPart (req.headers.value (bytes "cookie"))
    · rw [if_pos hparts] at hcookies ⊢
      rw [hcookies]
      rfl
    · rw [if_neg hparts] at hcookies ⊢
      obtain ⟨M, hM⟩ := hcookies
      exact ⟨M, by rw [hM]; rfl⟩
  · simp [hcookie]

/-- The fields before the cookies leave the one table on the stack. -/
theorem pushHead_stack (env : EngineEnv Num) (req : Request) (L : LuaState Num) :
    (pushHead req (pushLine env req L)).stack = .table L.heap.next :: L.stack := by
  have hline : (pushLine env req L).stack = .table L.heap.next :: L.stack := by
    unfold pushLine
    apply setFieldTo_stack
    apply setFieldTo_stack
    apply setFieldTo_stack
    apply setFieldTo_stack
    apply setFieldTo_stack
    rfl
  obtain ⟨t, ht⟩ := pushHeaders_stack req.headers (pushLine env req L)
  rw [hline] at ht
  exact setFieldTo_stack (setFieldTo_stack (setField_stack ht _) _ _) _ _

/-- `push_request` leaves one table on the stack. -/
theorem requestTable_stack (env : EngineEnv Num) (req : Request) (L : LuaState Num) :
    ∃ t, (requestTable env req L).stack = .table t :: L.stack := by
  refine ⟨L.heap.next, ?_⟩
  have hhead := pushHead_stack env req L
  have hcookies : LuaState.stack (if req.headers.exists (bytes "cookie") then
      (cookieTable env.behind (req.headers.value (bytes "cookie"))
        (pushHead req (pushLine env req L))).setField (bytes "cookies")
      else pushHead req (pushLine env req L)) = .table L.heap.next :: L.stack := by
    obtain ⟨t, ht⟩ := cookieTable_stack env.behind (req.headers.value (bytes "cookie"))
      (pushHead req (pushLine env req L))
    rw [hhead] at ht
    split
    · exact setField_stack ht _
    · exact hhead
  unfold requestTable pushContent
  split
  · exact setFieldTo_stack hcookies _ _
  · exact hcookies

theorem pushResponse_stack (L : LuaState Num) :
    ∃ t, (pushResponse L).stack = .table t :: L.stack := by
  refine ⟨L.heap.next, ?_⟩
  unfold pushResponse
  extract_lets L₁
  have h₁ : L₁.stack = .table L.heap.next :: L.stack := by
    apply setFieldTo_stack
    apply setFieldTo_stack
    rfl
  have h₂ : L₁.newTable.stack = .table L₁.heap.next :: .table L.heap.next :: L.stack := by
    show _ :: L₁.stack = _
    rw [h₁]
  exact setField_stack h₂ _

/-- A handler whose run does not end in a fault was called. -/
theorem cookiesOk_of_run {env : EngineEnv Num} {f : LuaValue Num} {L : LuaState Num} {req : Request}
    (h : ∀ fault, (handlerRun env f L req).result ≠ .died fault) : req.CookiesOk := by
  by_contra hcookies
  refine h .assertion ?_
  unfold handlerRun
  rw [if_neg hcookies]

/-- The arguments are pushed and the handler function `f` is called. -/
theorem luaPcall_apply (env : EngineEnv Num) (f : LuaValue Num) (L : LuaState Num) {req : Request}
    (hcookies : req.CookiesOk) :
    luaPcall env (pushResponse (requestTable env req (L.push f))) =
      match (handlerRun env f L req).result with
      | .returned vs => .returned false { pushResponse (requestTable env req (L.push f)) with
          stack := vs.headD .nil :: L.stack, heap := (handlerRun env f L req).heap }
      | .raised v => .returned true { pushResponse (requestTable env req (L.push f)) with
          stack := (handlerRun env f L req).heap.traceback env.traceText v :: L.stack
          heap := (handlerRun env f L req).heap }
      | .died fault => .died fault { pushResponse (requestTable env req (L.push f)) with
          heap := (handlerRun env f L req).heap } := by
  obtain ⟨t, ht⟩ := requestTable_stack env req (L.push f)
  obtain ⟨r, hr⟩ := pushResponse_stack (requestTable env req (L.push f))
  rw [ht] at hr
  -- the function, the request and the response, which is on top
  have hstack : (pushResponse (requestTable env req (L.push f))).stack
      = .table r :: .table t :: f :: L.stack := hr
  have hrun : handlerRun env f L req = env.call (pushResponse (requestTable env req (L.push f))).heap f
      [.table t, .table r] := by
    unfold handlerRun LuaState.peek
    simp [hcookies, hstack]
  unfold luaPcall
  simp only [hstack, hrun]

/-- **The handler is called on a readable state.**  It returns with its first
result on the stack and the request untouched, or an exception leaves the
request without an answer, or the code is stuck. -/
theorem callHandler_apply (env : EngineEnv Num) (func : Bytes) {h : Handling Num}
    (hfresh : h.req.Fresh) :
    match h.L.heap.index h.L.globals (.string (cStr func)) with
    | .raised _ => (callHandler env func h).Stuck
    | .returned f =>
        if f.isFunction then
          match (handlerRun env f h.L h.req).result with
          | .returned vs => ∃ L', callHandler env func h = .returned () { h with L := L' } ∧
              L'.stack = vs.headD .nil :: h.L.stack ∧ L'.heap = (handlerRun env f h.L h.req).heap
          | .raised v =>
              if ((handlerRun env f h.L h.req).heap.traceback env.traceText v).toText.isSome then
                Unanswered (callHandler env func h)
              else (callHandler env func h).Stuck
          | .died _ => (callHandler env func h).Stuck
        else Unanswered (callHandler env func h) := by
  have hglobal : onLua (luaGetGlobal (cStr func)) h =
      match h.L.heap.index h.L.globals (.string (cStr func)) with
      | .returned v => .returned () { h with L := h.L.push v }
      | .raised _ => .died .panic h := by
    rw [onLua_apply]
    unfold luaGetGlobal
    cases h.L.heap.index h.L.globals (.string (cStr func)) <;> rfl
  unfold callHandler
  simp only [Code.bind_apply]
  rw [hglobal]
  cases hidx : h.L.heap.index h.L.globals (.string (cStr func)) with
  | raised e => exact .inl ⟨.panic, h, rfl⟩
  | returned f =>
      have hpeek : (h.L.push f).peek 1 = f := rfl
      simp only [Outcome.andThen_returned, Code.bind_apply, Code.get_apply, hpeek]
      cases hf : f.isFunction with
      | false => simp [logThrow, Unanswered, hfresh]
      | true =>
          simp only [Bool.not_true, Bool.false_eq_true, if_false, if_true,
            Code.bind_apply, onLua_apply]
          have hpush := pushRequest_apply env h.req (h.L.push f)
          by_cases hcookies : h.req.CookiesOk
          · rw [if_pos hcookies] at hpush
            rw [hpush]
            simp only [Outcome.mapState_returned, Outcome.andThen_returned, Code.bind_apply,
              onLua_apply, Code.modify_apply]
            rw [luaPcall_apply env f h.L hcookies]
            cases hres : (handlerRun env f h.L h.req).result with
            | returned vs => exact ⟨_, rfl, rfl, rfl⟩
            | raised v =>
                -- an error without a text is no exception: its string is a null pointer
                cases htext : ((handlerRun env f h.L h.req).heap.traceback env.traceText v).toText with
                | none => simp [luaToText, LuaState.peek, htext, Outcome.Stuck]
                | some msg => simp [luaToText, LuaState.peek, htext, logThrow, Unanswered, hfresh]
            | died fault => exact .inl ⟨fault, _, rfl⟩
          · -- the process ends before the handler is called
            rw [if_neg hcookies] at hpush
            obtain ⟨M, hM⟩ := hpush
            have hrun : handlerRun env f h.L h.req = ⟨h.L.heap, .died .assertion⟩ := if_neg hcookies
            rw [hM, hrun]
            exact .inl ⟨.assertion, _, rfl⟩

/-! ## §9. `handle_request` answers, throws, or is stuck. -/

/-- The request ends as the reply of its handler asks for: it is answered and
the Lua state given back, or an exception leaves it without an answer. -/
def Handled (reply : Option (Int × Bytes)) (o : Outcome Bytes Fault (Handling Num) Unit) : Prop :=
  match reply with
  | some r => ∃ h, o = .returned () h ∧ h.req.AnsweredBy r.1 r.2 ∧ h.freed = true
  | none => Unanswered o

/-- **Where the Lua state can be read, `handle_request` comes to an end** and
does what the handler's result asks for. -/
theorem handleRequest_handled (env : EngineEnv Num) (func : Bytes) {h : Handling Num}
    (hfresh : h.req.Fresh) (hans : Answerable env func h.req) :
    ∃ fuel, Handled (handlerReply env func h.req) (handleRequest env fuel func h) := by
  unfold handlerReply handleRequest
  cases hget : env.getState with
  | error e => exact ⟨0, e, h, rfl, hfresh⟩
  | ok L =>
      obtain ⟨f, hf, hrun⟩ := hans L hget
      have hcall := callHandler_apply env func (h := { h with L := L }) hfresh
      simp only [Code.bind_apply, Code.modify_apply, Outcome.andThen_returned]
      simp only [hf] at hcall ⊢
      cases hfun : f.isFunction with
      | false =>
          simp only [hfun, Bool.false_eq_true, if_false] at hcall ⊢
          exact ⟨0, hcall.andThen _⟩
      | true =>
          have hrun' := hrun hfun
          simp only [hfun, if_true] at hcall ⊢
          cases hres : (handlerRun env f L h.req).result with
          | died fault =>
              simp only [hres] at hrun'
          | raised v =>
              simp only [hres] at hcall hrun' ⊢
              rw [if_pos hrun'] at hcall
              exact ⟨0, hcall.andThen _⟩
          | returned vs =>
              simp only [hres] at hcall hrun' ⊢
              -- the handler has returned, and its first result is read
              obtain ⟨L', hret, hstack, hheap⟩ := hcall
              obtain ⟨fuel, hread⟩ := readResponse_concluded (h := { h with L := L' }) hfresh hstack
                (by rw [hheap]; exact hrun')
              refine ⟨fuel, ?_⟩
              rw [hret]
              simp only [Outcome.andThen_returned, Code.bind_apply]
              rw [hheap] at hread
              cases hreply : readReply (handlerRun env f L h.req).heap (vs.headD .nil) with
              | none =>
                  rw [hreply] at hread
                  exact Unanswered.andThen hread _
              | some r =>
                  rw [hreply] at hread
                  obtain ⟨h', hret', hans'⟩ := hread
                  rw [hret']
                  exact ⟨{ h' with freed := true }, rfl, hans', rfl⟩

/-- **Where it cannot be read, `handle_request` is stuck.** -/
theorem handleRequest_stuck (env : EngineEnv Num) (func : Bytes) {h : Handling Num}
    (hfresh : h.req.Fresh) (hans : ¬ Answerable env func h.req) (fuel : Nat) :
    (handleRequest env fuel func h).Stuck := by
  unfold Answerable at hans
  push Not at hans
  obtain ⟨L, hget, hfail⟩ := hans
  have hcall := callHandler_apply env func (h := { h with L := L }) hfresh
  unfold handleRequest
  rw [hget]
  simp only [Code.bind_apply, Code.modify_apply, Outcome.andThen_returned]
  simp only at hcall
  cases hf : L.heap.index L.globals (.string (cStr func)) with
  | raised e =>
      rw [hf] at hcall
      exact Outcome.Stuck.andThen hcall _
  | returned f =>
      obtain ⟨hfun, hrun⟩ := hfail f hf
      simp only [hf, hfun, if_true] at hcall
      cases hres : (handlerRun env f L h.req).result with
      | died fault =>
          simp only [hres] at hcall
          exact Outcome.Stuck.andThen hcall _
      | raised v =>
          simp only [hres] at hcall hrun
          rw [if_neg hrun] at hcall
          exact Outcome.Stuck.andThen hcall _
      | returned vs =>
          simp only [hres] at hcall hrun
          obtain ⟨L', hret, hstack, hheap⟩ := hcall
          rw [hret]
          simp only [Outcome.andThen_returned]
          exact (readResponse_stuck (h := { h with L := L' }) hstack (by rw [hheap]; exact hrun)
            fuel).andThen _

/-! ## §10. Fuel. -/

/-- **More fuel does not change a loop that has come to its end.** -/
theorem headerLoop_extends (hdrI : Nat) {fuel fuel' : Nat} (h : fuel ≤ fuel') :
    Code.Extends (headerLoop hdrI fuel : EngineCode Num Unit) (headerLoop hdrI fuel') := by
  induction fuel generalizing fuel' with
  | zero => exact Code.extends_exhaust _
  | succ fuel ih =>
      obtain ⟨m, rfl⟩ := Nat.exists_eq_add_of_le' h
      have hrest : Code.Extends
          (do onLua (Code.modify (fun L => L.pop 1)); headerLoop hdrI fuel : EngineCode Num Unit)
          (do onLua (Code.modify (fun L => L.pop 1)); headerLoop hdrI (m + fuel)) :=
        .bind (.refl _) (fun _ => ih (by omega))
      show Code.Extends (headerLoop hdrI (fuel + 1)) (headerLoop hdrI (m + fuel + 1))
      unfold headerLoop
      refine .bind (.refl _) (fun more => .ite (.bind (.refl _) (fun h => .ite ?_ hrest)) (.refl _))
      exact .bind (.refl _) (fun _ => .bind (.refl _) (fun _ => .bind (.refl _) (fun _ => hrest)))

theorem readHeaders_extends {fuel fuel' : Nat} (h : fuel ≤ fuel') :
    Code.Extends (readHeaders fuel : EngineCode Num Unit) (readHeaders fuel') := by
  have hloop : ∀ hdrI, Code.Extends
      (do onLua (Code.modify (fun L => L.push .nil))
          headerLoop hdrI fuel
          onLua (Code.modify (fun L => L.pop 1)) : EngineCode Num Unit)
      (do onLua (Code.modify (fun L => L.push .nil))
          headerLoop hdrI fuel'
          onLua (Code.modify (fun L => L.pop 1))) :=
    fun hdrI => .bind (.refl _) (fun _ => .bind (headerLoop_extends hdrI h) (fun _ => .refl _))
  unfold readHeaders
  refine .bind (.refl _) (fun _ => .bind (.refl _) (fun h => ?_))
  exact .ite (.bind (.refl _) (fun _ => hloop _)) (hloop _)

theorem readResponse_extends {fuel fuel' : Nat} (h : fuel ≤ fuel') :
    Code.Extends (readResponse fuel : EngineCode Num Unit) (readResponse fuel') := by
  have hread : Code.Extends
      (do let status ← readStatus
          readHeaders fuel
          let content ← readContent
          onRequest (sendResponse status content)
          onLua (Code.modify (fun L => L.pop 2)) : EngineCode Num Unit)
      (do let status ← readStatus
          readHeaders fuel'
          let content ← readContent
          onRequest (sendResponse status content)
          onLua (Code.modify (fun L => L.pop 2))) :=
    .bind (.refl _) (fun _ => .bind (readHeaders_extends h) (fun _ => .refl _))
  unfold readResponse
  exact .bind (.refl _) (fun h => .ite (.bind (.refl _) (fun _ => hread)) hread)

theorem handleRequest_extends (env : EngineEnv Num) (func : Bytes) {fuel fuel' : Nat}
    (h : fuel ≤ fuel') : Code.Extends (handleRequest env fuel func) (handleRequest env fuel' func) := by
  have hcall : Code.Extends
      (do callHandler env func
          readResponse fuel
          Code.modify (fun h => { h with freed := true }) : EngineCode Num Unit)
      (do callHandler env func
          readResponse fuel'
          Code.modify (fun h => { h with freed := true })) :=
    .bind (.refl _) (fun _ => .bind (readResponse_extends h) (fun _ => .refl _))
  unfold handleRequest
  cases env.getState with
  | error e => exact .bind (.refl _) (fun _ => hcall)
  | ok L => exact .bind (.refl _) (fun _ => hcall)

end Engine

end Petrel
