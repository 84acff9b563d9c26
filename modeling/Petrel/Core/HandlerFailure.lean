/-
  Petrel.Core.HandlerFailure — what a failed handler leaves behind.

  `handle_request` leaves by an exception at seven places, and the fiber around
  it answers 500 with the request object as it is then.  The headers of the
  response table are in the request before the content of the table is
  checked, so a table without a content leaves its headers in the 500.  The
  error value of a handler passes the message handler and `lua_tostring`, and
  not every value comes out of the two as a string.

  Main results:
    * `readResponse_threw`, `handleRequest_threw` — what each exit leaves.
    * `failed_handler_untouched_iff` — the exits that leave no trace.
    * `lua_error_answered_iff`       — the error values that end in a 500.
    * `headers_without_content`, `nil_error_kills` — what the others do.
-/

import Petrel.Core.ServerImpl
import Petrel.Core.ResponseHeaders

namespace Petrel

open Framework

section Failure

variable {Num : Type} [DecidableEq Num] [LuaNumber Num]

/-! ## §1. Code that leaves the request alone. -/

omit [DecidableEq Num] [LuaNumber Num] in
theorem onLua_keeps {α : Type} (x : LuaCode Num α) : Code.Keeps (fun h => h.req) (onLua x) :=
  Code.keeps_zoom fun _ _ => rfl

omit [DecidableEq Num] [LuaNumber Num] in
theorem logThrow_keeps {α : Type} (msg : List Bytes) :
    Code.Keeps (fun h => h.req) (logThrow msg : EngineCode Num α) :=
  Code.keeps_throw _ _

theorem readStatus_keeps : Code.Keeps (fun h => h.req) (readStatus : EngineCode Num Int) := by
  unfold readStatus
  refine .bind (onLua_keeps _) fun _ => .bind (Code.keeps_get _) fun h => ?_
  have hrest : Code.Keeps (fun h => h.req) (do
      onLua (Code.modify (fun L => L.pop 1))
      pure (toInt32 (h.L.peek 1).toInteger) : EngineCode Num Int) :=
    .bind (onLua_keeps _) fun _ => Code.keeps_pure _ _
  exact .ite (.bind (logThrow_keeps _) fun _ => hrest) hrest

theorem readContent_keeps : Code.Keeps (fun h => h.req) (readContent : EngineCode Num Bytes) := by
  unfold readContent
  refine .bind (onLua_keeps _) fun _ => .bind (Code.keeps_get _) fun h => ?_
  have hrest : Code.Keeps (fun h => h.req) (do
      let content ← onLua (luaToText 1)
      pure (content.getD []) : EngineCode Num Bytes) :=
    .bind (onLua_keeps _) fun _ => Code.keeps_pure _ _
  exact .ite (.bind (logThrow_keeps _) fun _ => hrest) hrest

/-- **The request is as before when the handler has been called**, whatever
came of it. -/
theorem callHandler_keeps (env : EngineEnv Num) (func : Bytes) :
    Code.Keeps (fun h => h.req) (callHandler env func) := by
  unfold callHandler
  refine .bind (onLua_keeps _) fun _ => .bind (Code.keeps_get _) fun h => ?_
  refine .ite (.bind (logThrow_keeps _) fun _ => ?_) ?_
  all_goals
    refine .bind (onLua_keeps _) fun _ => .bind (onLua_keeps _) fun _ => .bind (onLua_keeps _) fun _ =>
      .ite (.bind (onLua_keeps _) fun msg => ?_) (Code.keeps_pure _ _)
    cases msg with
    | some msg => exact logThrow_keeps _
    | none => exact Code.keeps_die _ _

/-! ## §2. Tables without headers. -/

omit [DecidableEq Num] in
theorem headersOf_eq_nil_iff (k v : LuaValue Num) : headersOf k v = [] ↔ isHeader (k, v) = false := by
  unfold headersOf isHeader
  cases v.isString && k.isString with
  | false => exact iff_of_true rfl rfl
  | true => exact iff_of_false (List.cons_ne_nil _ _) (fun h => nomatch h)

/-- A walk that has met no header has passed over every pair behind its start. -/
theorem HeaderWalk.no_header {ps : LuaPairs Num} {key : LuaValue Num} {hs : Headers}
    (h : HeaderWalk ps key hs) (hnil : hs = []) {post : LuaPairs Num}
    (hpost : ps.behind key = some post) : ∀ p ∈ post, isHeader p = false := by
  induction h generalizing post with
  | done hnext =>
      obtain ⟨post', hpost', hhead⟩ := next_eq_some hnext
      obtain rfl := Option.some.inj (hpost.symm.trans hpost')
      rw [List.head?_eq_none_iff.mp hhead]
      exact fun p hp => absurd hp List.not_mem_nil
  | @next key k v hs hnext hwalk ih =>
      obtain ⟨post', hpost', hhead⟩ := next_eq_some hnext
      obtain rfl := Option.some.inj (hpost.symm.trans hpost')
      obtain ⟨rest, rfl⟩ := List.head?_eq_some_iff.mp hhead
      obtain ⟨hheaders, hrest⟩ := List.append_eq_nil_iff.mp hnil
      have hpair := (headersOf_eq_nil_iff k v).mp hheaders
      have hleft : keyLeft k v = k := keyLeft_of_notNumber fun hheader => absurd hheader (by simp [hpair])
      -- the walk goes on from a place that has the rest behind it
      obtain ⟨qs, hqs, hsuffix⟩ : ∃ qs, ps.behind k = some qs ∧ rest <:+ qs := by
        obtain ⟨pre, hsplit⟩ := behind_isSuffix hpost
        unfold LuaPairs.behind
        by_cases hk : k = .nil
        · rw [if_pos hk]
          exact ⟨ps, rfl, (List.suffix_cons (k, v) rest).trans ⟨pre, hsplit⟩⟩
        · rw [if_neg hk]
          exact after_suffix hsplit.symm
      intro p hp
      rcases List.mem_cons.mp hp with rfl | hp
      · exact hpair
      · exact ih hrest (hleft.symm ▸ hqs) p (hsuffix.subset hp)

/-- **A walk meets no header** just if the table has no pair that is one. -/
theorem headerWalk_eq_nil_iff {ps : LuaPairs Num} {hs : Headers} (h : HeaderWalk ps .nil hs) :
    hs = [] ↔ ∀ p ∈ ps, isHeader p = false := by
  constructor
  · exact fun hnil => h.no_header hnil rfl
  · intro hnone
    generalize (.nil : LuaValue Num) = key at h
    induction h with
    | done _ => rfl
    | @next key k v hs hnext _ ih =>
        obtain ⟨post, hpost, hhead⟩ := next_eq_some hnext
        have hmem : (k, v) ∈ ps := (behind_isSuffix hpost).subset (List.mem_of_head? hhead)
        rw [ih, List.append_nil, headersOf_eq_nil_iff]
        exact hnone (k, v) hmem

/-! ## §3. What each exit leaves. -/

/-- The returned table has a status and a headers table, but no content: the
last of the checks fails. -/
def ContentRejected (H : LuaHeap Num) (v : LuaValue Num) (ht : TableRef) : Prop :=
  ∃ t s c, v = .table t ∧
    H.index t (.string (bytes "status")) = .returned s ∧ s.isNumber = true ∧
    H.index t (.string (bytes "headers")) = .returned (.table ht) ∧
    H.index t (.string (bytes "content")) = .returned c ∧ c.isString = false

omit [DecidableEq Num] [LuaNumber Num] in
theorem eq_table_of_isTable {v : LuaValue Num} (h : v.isTable = true) : ∃ t, v = .table t := by
  cases v with
  | table t => exact ⟨t, rfl⟩
  | _ => cases h

/-- An exception behind the status. -/
theorem headers_threw {h h' : Handling Num} {t : TableRef} {rest : List (LuaValue Num)}
    (hfresh : h.req.Fresh) (hstack : h.L.stack = .table t :: rest) {s : LuaValue Num}
    (hs : h.L.heap.index t (.string (bytes "status")) = .returned s) (hnum : s.isNumber = true)
    {fuel : Nat} {status : Int} {e : Bytes}
    (hthrew : (readHeaders fuel h).andThen (fun _ => do
      let content ← readContent
      onRequest (sendResponse status content)
      onLua (Code.modify (fun L => L.pop 2))) = .threw e h') :
    (h'.req = h.req ∧ ∀ ht, ¬ ContentRejected h.L.heap (.table t) ht) ∨
      ∃ ht hs, ContentRejected h.L.heap (.table t) ht ∧ HeaderWalk (h.L.heap.pairs ht) .nil hs ∧
        h'.req = { h.req with responseHeaders := h.req.responseHeaders ++ hs } := by
  cases hhd : h.L.heap.index t (.string (bytes "headers")) with
  | raised x =>
      exact absurd hthrew (((luaGetField_stuck hstack hhd _).andThen _).ne_threw e h')
  | returned hd =>
      cases hdtab : hd.isTable with
      | false =>
          left
          obtain ⟨e', h₁, hheaders, hreq⟩ := readHeaders_noTable hstack hhd hdtab fuel
          rw [hheaders] at hthrew
          obtain ⟨-, rfl⟩ := Outcome.threw.inj hthrew
          refine ⟨hreq, ?_⟩
          rintro ht ⟨t', s', c, heq, -, -, hhd', -⟩
          obtain rfl := LuaValue.table.inj heq
          obtain rfl := CallResult.returned.inj (hhd.symm.trans hhd')
          cases hdtab
      | true =>
          obtain ⟨ht, rfl⟩ := eq_table_of_isTable hdtab
          rcases readHeaders_cases hstack hhd fuel with hstuck | ⟨hs', hwalk, hret⟩
          · exact absurd hthrew ((hstuck.andThen _).ne_threw e h')
          · -- the headers are in the request when the content is read
            rw [hret] at hthrew
            simp only [Outcome.andThen_returned, Code.bind_apply] at hthrew
            let h₁ : Handling Num := { h with
              req := { h.req with responseHeaders := h.req.responseHeaders ++ hs' } }
            have hfresh₁ : h₁.req.Fresh := ⟨hfresh.sent, hfresh.promise, hfresh.body⟩
            have hstack₁ : h₁.L.stack = .table t :: rest := hstack
            right
            cases hc : h₁.L.heap.index t (.string (bytes "content")) with
            | raised x =>
                exact absurd hthrew (((luaGetField_stuck hstack₁ hc _).andThen _).ne_threw e h')
            | returned c =>
                cases htext : c.toText with
                | none =>
                    obtain ⟨e', h₂, hcontent, -⟩ := readContent_threw hfresh₁ hstack₁ hc htext
                    have hkeeps := readContent_keeps.of_threw hcontent
                    rw [hcontent] at hthrew
                    obtain ⟨-, rfl⟩ := Outcome.threw.inj hthrew
                    have hstring : c.isString = false := by
                      unfold LuaValue.isString
                      rw [htext]
                      rfl
                    exact ⟨ht, hs', ⟨t, s, c, rfl, hs, hnum, hhd, hc, hstring⟩, hwalk, hkeeps⟩
                | some text =>
                    -- a response that can be sent is sent
                    have hsent := readResponse_content hfresh₁ hstack₁ status hc
                    rw [htext] at hsent
                    obtain ⟨h₂, hret', -⟩ := hsent
                    cases hthrew.symm.trans hret'

/-- **An exception out of the reading of the response** leaves the request as it
was, unless it is the one about the content: then the headers are in it. -/
theorem readResponse_threw {h h' : Handling Num} {v : LuaValue Num} {rest : List (LuaValue Num)}
    (hfresh : h.req.Fresh) (hstack : h.L.stack = v :: rest) {fuel : Nat} {e : Bytes}
    (hthrew : readResponse fuel h = .threw e h') :
    (h'.req = h.req ∧ ∀ ht, ¬ ContentRejected h.L.heap v ht) ∨
      ∃ ht hs, ContentRejected h.L.heap v ht ∧ HeaderWalk (h.L.heap.pairs ht) .nil hs ∧
        h'.req = { h.req with responseHeaders := h.req.responseHeaders ++ hs } := by
  cases htab : v.isTable with
  | false =>
      left
      unfold readResponse at hthrew
      simp only [Code.bind_apply, Code.get_apply, Outcome.andThen_returned, LuaState.peek, hstack,
        Nat.sub_self, List.getElem?_cons_zero, Option.getD_some, htab, Bool.not_false, if_true,
        logThrow, Code.throw_apply, Outcome.andThen_threw] at hthrew
      obtain ⟨-, rfl⟩ := Outcome.threw.inj hthrew
      refine ⟨rfl, ?_⟩
      rintro ht ⟨t, s, c, rfl, -⟩
      cases htab
  | true =>
      obtain ⟨t, rfl⟩ := eq_table_of_isTable htab
      rw [readResponse_table hstack] at hthrew
      cases hs : h.L.heap.index t (.string (bytes "status")) with
      | raised x =>
          exact absurd hthrew (((luaGetField_stuck hstack hs _).andThen _).ne_threw e h')
      | returned s =>
          cases hnum : s.isNumber with
          | false =>
              left
              obtain ⟨e', h₁, hstatus, -⟩ := readStatus_threw hfresh hstack hs hnum
              have hkeeps := readStatus_keeps.of_threw hstatus
              rw [hstatus] at hthrew
              obtain ⟨-, rfl⟩ := Outcome.threw.inj hthrew
              refine ⟨hkeeps, ?_⟩
              rintro ht ⟨t', s', c, heq, hs', hnum', -⟩
              obtain rfl := LuaValue.table.inj heq
              obtain rfl := CallResult.returned.inj (hs.symm.trans hs')
              cases hnum.symm.trans hnum'
          | true =>
              simp only [readStatus_returned hstack hs hnum, Outcome.andThen_returned,
                Code.bind_apply] at hthrew
              exact headers_threw hfresh hstack hs hnum hthrew

/-- The handler returns a table with headers, and the table is rejected for its
content. -/
def HeadersRejected (env : EngineEnv Num) (func : Bytes) (req : Request) : Prop :=
  ∃ L f vs ht, env.getState = .ok L ∧
    L.heap.index L.globals (.string (cStr func)) = .returned f ∧ f.isFunction = true ∧
    (handlerRun env f L req).result = .returned vs ∧
    ContentRejected (handlerRun env f L req).heap (vs.headD .nil) ht ∧
    ∃ p ∈ (handlerRun env f L req).heap.pairs ht, isHeader p = true

omit [DecidableEq Num] in
theorem ContentRejected.unique {H : LuaHeap Num} [DecidableEq Num] {v : LuaValue Num}
    {ht ht' : TableRef} (h : ContentRejected H v ht) (h' : ContentRejected H v ht') : ht = ht' := by
  obtain ⟨t, _, _, rfl, -, -, hheaders, -⟩ := h
  obtain ⟨t', _, _, heq, -, -, hheaders', -⟩ := h'
  obtain rfl := LuaValue.table.inj heq
  exact LuaValue.table.inj (CallResult.returned.inj (hheaders.symm.trans hheaders'))

/-- For the run of a handler that has returned. -/
theorem headersRejected_iff {env : EngineEnv Num} {func : Bytes} {req : Request} {L : LuaState Num}
    {f : LuaValue Num} {vs : List (LuaValue Num)} (hget : env.getState = .ok L)
    (hf : L.heap.index L.globals (.string (cStr func)) = .returned f) (hfun : f.isFunction = true)
    (hres : (handlerRun env f L req).result = .returned vs) :
    HeadersRejected env func req ↔
      ∃ ht, ContentRejected (handlerRun env f L req).heap (vs.headD .nil) ht ∧
        ∃ p ∈ (handlerRun env f L req).heap.pairs ht, isHeader p = true := by
  constructor
  · rintro ⟨L', f', vs', ht, hget', hf', -, hres', hrejected⟩
    obtain rfl := Except.ok.inj (hget.symm.trans hget')
    obtain rfl := CallResult.returned.inj (hf.symm.trans hf')
    obtain rfl := HandlerResult.returned.inj (hres.symm.trans hres')
    exact ⟨ht, hrejected⟩
  · rintro ⟨ht, hrejected⟩
    exact ⟨L, f, vs, ht, hget, hf, hfun, hres, hrejected⟩

/-- Only a handler that has returned is followed by the reading of its result. -/
theorem callHandler_returned {env : EngineEnv Num} {func : Bytes} {h h₁ : Handling Num}
    (hfresh : h.req.Fresh) (hret : callHandler env func h = .returned () h₁) :
    ∃ f vs, h.L.heap.index h.L.globals (.string (cStr func)) = .returned f ∧ f.isFunction = true ∧
      (handlerRun env f h.L h.req).result = .returned vs ∧ h₁.req = h.req ∧
      h₁.L.stack = vs.headD .nil :: h.L.stack ∧ h₁.L.heap = (handlerRun env f h.L h.req).heap := by
  have hcall := callHandler_apply env func hfresh
  cases hf : h.L.heap.index h.L.globals (.string (cStr func)) with
  | raised x =>
      rw [hf] at hcall
      exact absurd hret (Outcome.Stuck.ne_returned hcall _ _)
  | returned f =>
      simp only [hf] at hcall
      cases hfun : f.isFunction with
      | false =>
          rw [hfun, if_neg Bool.false_ne_true] at hcall
          obtain ⟨e, h₂, hthrew, -⟩ := hcall
          cases hret.symm.trans hthrew
      | true =>
          rw [hfun, if_pos rfl] at hcall
          cases hres : (handlerRun env f h.L h.req).result with
          | died fault =>
              simp only [hres] at hcall
              exact absurd hret (Outcome.Stuck.ne_returned hcall _ _)
          | raised v =>
              simp only [hres] at hcall
              split at hcall
              · obtain ⟨e, h₂, hthrew, -⟩ := hcall
                cases hret.symm.trans hthrew
              · exact absurd hret (Outcome.Stuck.ne_returned hcall _ _)
          | returned vs =>
              simp only [hres] at hcall
              obtain ⟨L', hret', hstack, hheap⟩ := hcall
              obtain ⟨-, rfl⟩ := Outcome.returned.inj (hret.symm.trans hret')
              exact ⟨f, vs, rfl, hfun, hres, rfl, hstack, hheap⟩

/-- **An exception out of `handle_request`** leaves headers in the request, just
if they were rejected with the content, and nothing else. -/
theorem handleRequest_threw (env : EngineEnv Num) (func : Bytes) {h h' : Handling Num}
    (hfresh : h.req.Fresh) {fuel : Nat} {e : Bytes}
    (hthrew : handleRequest env fuel func h = .threw e h') :
    ∃ hs, h'.req = { h.req with responseHeaders := h.req.responseHeaders ++ hs } ∧
      (hs = [] ↔ ¬ HeadersRejected env func h.req) := by
  have hsame : h'.req = h.req → ¬ HeadersRejected env func h.req →
      ∃ hs, h'.req = { h.req with responseHeaders := h.req.responseHeaders ++ hs } ∧
        (hs = [] ↔ ¬ HeadersRejected env func h.req) := by
    intro hreq hnot
    refine ⟨[], ?_, iff_of_true rfl hnot⟩
    rw [hreq, List.append_nil]
  unfold handleRequest at hthrew
  cases hget : env.getState with
  | error e' =>
      rw [hget] at hthrew
      obtain ⟨-, rfl⟩ := Outcome.threw.inj hthrew
      refine hsame rfl ?_
      rintro ⟨L, f, vs, ht, hget', -⟩
      cases hget.symm.trans hget'
  | ok L =>
      rw [hget] at hthrew
      simp only [Code.bind_apply, Code.modify_apply, Outcome.andThen_returned] at hthrew
      rcases Outcome.andThen_eq_threw hthrew with hcall | ⟨u, h₁, hcall, hrest⟩
      · -- the exception came before the result was read
        have hkeeps := (callHandler_keeps env func).of_threw hcall
        refine hsame hkeeps ?_
        rintro ⟨L', f, vs, ht, hget', hf, hfun, hres, -⟩
        obtain rfl := Except.ok.inj (hget.symm.trans hget')
        have happly := callHandler_apply env func (h := { h with L := L }) hfresh
        simp only [hf, hfun, if_true, hres] at happly
        obtain ⟨L', hret, -⟩ := happly
        cases hcall.symm.trans hret
      · obtain ⟨f, vs, hf, hfun, hres, hreq, hstack, hheap⟩ :=
          callHandler_returned (h := { h with L := L }) hfresh hcall
        rcases Outcome.andThen_eq_threw hrest with hread | ⟨u, h₂, -, hfreed⟩
        · have hfresh₁ : h₁.req.Fresh := hreq ▸ hfresh
          rw [headersRejected_iff hget hf hfun hres] at hsame ⊢
          have hexit := readResponse_threw hfresh₁ hstack hread
          rw [hreq, hheap] at hexit
          rcases hexit with ⟨hreq', hnone⟩ | ⟨ht, hs, hrejected, hwalk, hadded⟩
          · refine hsame hreq' ?_
            rintro ⟨ht, hrejected, -⟩
            exact hnone ht hrejected
          · -- the headers of the walk are in the request
            refine ⟨hs, hadded, ?_⟩
            rw [headerWalk_eq_nil_iff hwalk]
            constructor
            · rintro hnone ⟨ht', hrejected', p, hp, hheader⟩
              rw [hrejected'.unique hrejected] at hp
              exact absurd hheader (by rw [hnone p hp]; exact Bool.false_ne_true)
            · intro hnone p hp
              rw [← Bool.not_eq_true]
              exact fun hheader => hnone ⟨ht, hrejected, p, hp, hheader⟩
        · cases hfreed

/-! ## §4. The answer of the fiber. -/

/-- The catch block sends the 500 with the request as the exception left it. -/
theorem requestFiber_failed (events : List BootEvent) (env : RouteEnv Num) (func : Bytes)
    (metricErr : MetricId) {fuel : Nat} {s : Serving Num} {h' : Handling Num} {e : Bytes}
    (hfresh : h'.req.Fresh) (hthrew : handleRequest env.engine fuel func s.handling = .threw e h') :
    ∃ t, (ServerImpl.booted events).requestFiber env fuel func metricErr s = .returned () t ∧
      t.handling.req = (sendErrorResponse (φ := Fault) 500 h'.req).state := by
  have hok : (ServerImpl.booted events).Ok (fun _ _ => True) :=
    ok_booted events (by intro event _; cases event <;> simp [BootEvent.Admits])
  have hrun : onHandling (handleRequest env.engine fuel func) s =
      .threw e { s with handling := h' } := by
    rw [onHandling_apply, hthrew, Outcome.mapState_threw]
  obtain ⟨t, ht, hsame, -⟩ := record_apply hok.errors { s with handling := h' }
  obtain ⟨u, hu, hsame', -⟩ := record_apply (m := some metricErr) rfl t
  obtain ⟨req, hsend, -⟩ := sendResponse_fresh (φ := Fault) hfresh 500 []
  have hreq : u.handling.req = h'.req := by rw [hsame', hsame]
  refine ⟨{ u with handling := { u.handling with req := req } }, ?_, ?_⟩
  · unfold ServerImpl.requestFiber
    refine Code.catching_of_returned ?_
    rw [Code.catching_of_threw hrun]
    unfold ServerImpl.failRequest respond sendErrorResponse
    simp only [Code.bind_apply, ht, hu, Outcome.andThen_returned, onHandling_apply, onRequest_apply,
      hreq, hsend, Outcome.mapState_returned]
  · unfold sendErrorResponse
    rw [hsend]
    rfl

/-- **A FAILED HANDLER LEAVES NO TRACE**, just if it does not return headers in
a table without a content: the request is as it was before, and the 500 is the
one that is sent for a request that no handler has seen. -/
theorem failed_handler_untouched_iff (events : List BootEvent) (env : RouteEnv Num) (func : Bytes)
    (metricErr : MetricId) (fuel : Nat) {s : Serving Num} (hfresh : s.handling.req.Fresh) {e : Bytes}
    {h' : Handling Num} (hthrew : handleRequest env.engine fuel func s.handling = .threw e h') :
    (h'.req = s.handling.req ∧
        ∃ t, (ServerImpl.booted events).requestFiber env fuel func metricErr s = .returned () t ∧
          t.handling.req = (sendErrorResponse (φ := Fault) 500 s.handling.req).state) ↔
      ¬ HeadersRejected env.engine func s.handling.req := by
  obtain ⟨hs, hadded, hempty⟩ := handleRequest_threw env.engine func hfresh hthrew
  rw [← hempty]
  constructor
  · rintro ⟨hsame, -⟩
    rw [hadded] at hsame
    exact List.append_right_eq_self.mp (congrArg Request.responseHeaders hsame)
  · rintro rfl
    rw [List.append_nil] at hadded
    refine ⟨hadded, ?_⟩
    have hanswered := requestFiber_failed events env func metricErr (hadded ▸ hfresh) hthrew
    rw [hadded] at hanswered
    exact hanswered

end Failure

/-- A GET request without headers. -/
def plainRequest : Request := .ofHttp ⟨bytes "GET", bytes "/", [], [], [], true⟩

/-- A Lua state with one handler, and what a run of it gives. -/
def oneHandler (run : HandlerRun Int) : EngineEnv Int where
  getState := .ok { heap := { pairs := fun _ => [(.string (bytes "handler"), .function 0)], next := 1 } }
  call := fun _ _ _ => run

/-- `{ status = 200, headers = { x = "y" } }` -/
def noContent : HandlerRun Int where
  heap := { pairs := fun t =>
    if t = 7 then [(.string (bytes "status"), .number 200), (.string (bytes "headers"), .table 8)]
    else if t = 8 then [(.string (bytes "x"), .string (bytes "y"))]
    else [] }
  result := .returned [.table 7]

/-- A function that is not defined. -/
theorem failed_handler_untouched_iff_undefined :
    let env : RouteEnv Int := { engine := oneHandler noContent }
    ∃ t, (ServerImpl.booted []).requestFiber env 0 (bytes "other") 0 (.start plainRequest) =
        .returned () t ∧
      t.handling.req = (sendErrorResponse (φ := Fault) 500 plainRequest).state := by
  intro env
  have huntouched := failed_handler_untouched_iff [] env (bytes "other") 0 0
    (s := .start plainRequest) (fresh_ofHttp _) rfl
  refine (huntouched.mpr ?_).2
  rintro ⟨L, f, vs, ht, hget, hf, hfun, -⟩
  obtain rfl := Except.ok.inj hget
  obtain rfl := CallResult.returned.inj hf
  cases hfun

/-- **Headers without a content** stay in the request when the handler fails. -/
theorem headers_without_content :
    ∃ fuel e h', handleRequest (oneHandler noContent) fuel (bytes "handler") { req := plainRequest } =
        .threw e h' ∧ h'.req.responseHeaders ≠ [] := by
  have hread : Answerable (oneHandler noContent) (bytes "handler") plainRequest := by
    intro L hget
    obtain rfl := Except.ok.inj hget
    refine ⟨.function 0, rfl, fun _ => ?_⟩
    show Readable noContent.heap (.table 7)
    intro t ht
    obtain rfl := LuaValue.table.inj ht
    refine ⟨.number 200, rfl, fun _ => ⟨.table 8, rfl, ?_⟩⟩
    intro ht hht
    obtain rfl := LuaValue.table.inj hht
    exact ⟨⟨_, .next rfl (.done rfl)⟩, .nil, rfl⟩
  have hfresh : plainRequest.Fresh := fresh_ofHttp _
  obtain ⟨fuel, hhandled⟩ := handleRequest_handled (oneHandler noContent) (bytes "handler")
    (h := { req := plainRequest }) hfresh hread
  have hnone : handlerReply (oneHandler noContent) (bytes "handler") plainRequest = none := rfl
  rw [hnone] at hhandled
  obtain ⟨e, h', hthrew, -⟩ := hhandled
  refine ⟨fuel, e, h', hthrew, ?_⟩
  have hrejected : HeadersRejected (oneHandler noContent) (bytes "handler") plainRequest :=
    ⟨_, .function 0, [.table 7], 8, rfl, rfl, rfl, rfl,
      ⟨7, .number 200, .nil, rfl, rfl, rfl, rfl, rfl, rfl⟩, _, List.mem_singleton.mpr rfl, rfl⟩
  obtain ⟨hs, hadded, hempty⟩ :=
    handleRequest_threw _ _ (h := { req := plainRequest }) hfresh hthrew
  rw [hadded]
  exact fun hnil => hempty.mp hnil hrejected

section ErrorValues

variable {Num : Type} [DecidableEq Num] [LuaNumber Num]

/-! ## §5. The error values of a handler. -/

/-- The error value is a string or a number, or its `__tostring` gives one, or
there is none to give anything. -/
def HasText (H : LuaHeap Num) (v : LuaValue Num) : Prop :=
  v ≠ .nil ∧ (v.isString = true ∨ ∀ w, H.toStringMeta v = some (.returned w) → w.isString = true)

omit [DecidableEq Num] in
theorem traceback_of_notString {H : LuaHeap Num} {traceText : Bytes} {v : LuaValue Num}
    (hnil : v ≠ .nil) (htext : v.toText = none) :
    H.traceback traceText v =
      match H.toStringMeta v with
      | some (.returned w) => w
      | some (.raised _) => .string (bytes "error in error handling")
      | none => .string (bytes "(no error message)") := by
  unfold LuaHeap.traceback
  rw [htext]
  cases v with
  | nil => exact absurd rfl hnil
  | _ => rfl

/-- **What the message handler makes of an error value** has a string form just
if the value has a text. -/
theorem traceback_isSome_iff (H : LuaHeap Num) (traceText : Bytes) (v : LuaValue Num) :
    (H.traceback traceText v).toText.isSome = true ↔ HasText H v := by
  unfold HasText LuaValue.isString
  cases htext : v.toText with
  | some msg =>
      have hne : v ≠ .nil := by
        rintro rfl
        cases htext
      unfold LuaHeap.traceback
      rw [htext]
      exact iff_of_true rfl ⟨hne, .inl rfl⟩
  | none =>
      simp only [Option.isSome_none, Bool.false_eq_true, false_or]
      by_cases hnil : v = .nil
      · subst hnil
        exact iff_of_false Bool.false_ne_true (fun h => h.1 rfl)
      · rw [traceback_of_notString hnil htext]
        cases hmeta : H.toStringMeta v with
        | none => exact iff_of_true rfl ⟨hnil, fun w hw => nomatch hw⟩
        | some result =>
            cases result with
            | raised x => exact iff_of_true rfl ⟨hnil, fun w hw => nomatch hw⟩
            | returned w =>
                constructor
                · intro hw
                  refine ⟨hnil, fun w' heq => ?_⟩
                  obtain rfl := CallResult.returned.inj (Option.some.inj heq)
                  exact hw
                · exact fun h => h.2 w rfl

/-- The end of `handle_request` for a handler that raises an error. -/
theorem handleRequest_raised (env : EngineEnv Num) (func : Bytes) (fuel : Nat) {h : Handling Num}
    {L : LuaState Num} {f v : LuaValue Num} (hget : env.getState = .ok L)
    (hf : L.heap.index L.globals (.string (cStr func)) = .returned f) (hfun : f.isFunction = true)
    (hraised : (handlerRun env f L h.req).result = .raised v) :
    match ((handlerRun env f L h.req).heap.traceback env.traceText v).toText with
    | some msg => ∃ h', h'.req = h.req ∧ handleRequest env fuel func h =
        .threw (bytes "lua_pcall failed: " ++ cStr msg ++ bytes " ") h'
    | none => ∃ h', handleRequest env fuel func h = .died .nullDereference h' := by
  have hglobal : onLua (luaGetGlobal (cStr func)) ({ h with L := L } : Handling Num) =
      .returned () { h with L := L.push f } := by
    rw [onLua_apply]
    unfold luaGetGlobal
    simp only [hf]
    rfl
  have hpeek : (L.push f).peek 1 = f := rfl
  have hlabel : bytes "lua_pcall failed: " = bytes "lua_pcall failed:" ++ bytes " " := by decide
  -- the handler was called, so its arguments were pushed
  have halive : ∀ fault, (handlerRun env f L h.req).result ≠ .died fault := by
    intro fault hdied
    rw [hraised] at hdied
    cases hdied
  have hcookies := cookiesOk_of_run halive
  have hpush := pushRequest_apply env h.req (L.push f)
  rw [if_pos hcookies] at hpush
  unfold handleRequest callHandler
  rw [hget]
  simp only [Code.bind_apply, Code.modify_apply, Outcome.andThen_returned, hglobal, Code.get_apply,
    hpeek, hfun, Bool.not_true, Bool.false_eq_true, if_false, onLua_apply, hpush,
    Outcome.mapState_returned]
  rw [luaPcall_apply env f L hcookies]
  simp only [hraised]
  cases htext : ((handlerRun env f L h.req).heap.traceback env.traceText v).toText with
  | none => simp [luaToText, LuaState.peek, htext]
  | some msg => simp [luaToText, LuaState.peek, htext, logThrow, hlabel]

/-- **ANY ERROR VALUE ENDS IN A 500**, just if it has a text: then the message is
a string, the exception is a `runtime_error` and the fiber answers.  For any
other value the message is a null pointer. -/
theorem lua_error_answered_iff (events : List BootEvent) (env : RouteEnv Num) (func : Bytes)
    (metricErr : MetricId) (fuel : Nat) {s : Serving Num} (hfresh : s.handling.req.Fresh)
    {L : LuaState Num} {f v : LuaValue Num} (hget : env.engine.getState = .ok L)
    (hf : L.heap.index L.globals (.string (cStr func)) = .returned f) (hfun : f.isFunction = true)
    (hraised : (handlerRun env.engine f L s.handling.req).result = .raised v) :
    (∃ msg h',
        ((handlerRun env.engine f L s.handling.req).heap.traceback env.engine.traceText v).toText =
          some msg ∧
        handleRequest env.engine fuel func s.handling =
          .threw (bytes "lua_pcall failed: " ++ cStr msg ++ bytes " ") h' ∧
        Answered (500, []) ((ServerImpl.booted events).requestFiber env fuel func metricErr s)) ↔
      HasText (handlerRun env.engine f L s.handling.req).heap v := by
  have hend := handleRequest_raised env.engine func fuel (h := s.handling) hget hf hfun hraised
  rw [← traceback_isSome_iff _ env.engine.traceText]
  constructor
  · rintro ⟨msg, h', htext, -⟩
    rw [htext]
    rfl
  · intro hsome
    obtain ⟨msg, htext⟩ := Option.isSome_iff_exists.mp hsome
    rw [htext] at hend
    obtain ⟨h', hreq, hthrew⟩ := hend
    refine ⟨msg, h', htext, hthrew, ?_⟩
    have hfresh' : h'.req.Fresh := hreq ▸ hfresh
    obtain ⟨t, ht, hsent⟩ := requestFiber_failed events env func metricErr hfresh' hthrew
    obtain ⟨req, hsend, hans⟩ := sendResponse_fresh (φ := Fault) hfresh' 500 []
    refine ⟨t, ht, ?_⟩
    unfold sendErrorResponse at hsent
    rw [hsent, hsend]
    exact hans

end ErrorValues

/-- `error("boom")` -/
theorem lua_error_answered_iff_string :
    let env : RouteEnv Int := { engine := oneHandler ⟨{}, .raised (.string (bytes "boom"))⟩ }
    ∃ msg h', handleRequest env.engine 0 (bytes "handler") { req := plainRequest } =
        .threw (bytes "lua_pcall failed: " ++ cStr msg ++ bytes " ") h' ∧
      Answered (500, [])
        ((ServerImpl.booted []).requestFiber env 0 (bytes "handler") 0 (.start plainRequest)) := by
  intro env
  have hfresh : (Serving.start plainRequest : Serving Int).handling.req.Fresh := fresh_ofHttp _
  have hanswered := lua_error_answered_iff [] env (bytes "handler") 0 0 hfresh (f := .function 0)
    (v := .string (bytes "boom")) rfl rfl rfl rfl
  obtain ⟨msg, h', -, hthrew, hans⟩ := hanswered.mpr ⟨fun h => (nomatch h), .inl rfl⟩
  exact ⟨msg, h', hthrew, hans⟩

/-- **`error(nil)` kills the server**: the message is a null pointer. -/
theorem nil_error_kills :
    let env : RouteEnv Int := { engine := oneHandler ⟨{}, .raised .nil⟩ }
    (∃ h', handleRequest env.engine 0 (bytes "handler") { req := plainRequest } =
        .died .nullDereference h') ∧
      ¬ Answered (500, [])
        ((ServerImpl.booted []).requestFiber env 0 (bytes "handler") 0 (.start plainRequest)) := by
  intro env
  obtain ⟨h', hdied⟩ : ∃ h', handleRequest env.engine 0 (bytes "handler") { req := plainRequest } =
      .died .nullDereference h' := ⟨_, rfl⟩
  refine ⟨⟨h', hdied⟩, ?_⟩
  have hstuck : (onHandling (handleRequest env.engine 0 (bytes "handler"))
      (.start plainRequest : Serving Int)).Stuck := by
    rw [onHandling_apply]
    exact Outcome.Stuck.mapState (.inl ⟨_, h', hdied⟩) _
  intro hans
  exact hans.ne_stuck (Code.catching_of_stuck (Code.catching_of_stuck hstuck))

end Petrel
