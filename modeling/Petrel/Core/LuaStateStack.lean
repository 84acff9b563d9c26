/-
  Petrel.Core.LuaStateStack — the stack of a Lua state from use to use.

  `create_state` leaves on the stack whatever the libraries, the scripts and
  the code strings leave there, with the traceback function on top; its index
  is kept as `traceback_idx`.  `get_state` loads the scripts again in dev mode,
  `handle_request` uses the state, and `free_state` deletes its objects.

  Main results:
    * `handleRequest_stack` — a request that succeeds leaves the stack as it
      was, whatever its cookies, its method and its handler.
    * `useState_stack`      — what a use of a state leaves on the stack.
    * `pooled_state_clean`  — when pooled states are clean.
-/

import Petrel.Core.LuaEngine
import Petrel.Core.LuaStateManager

namespace Petrel

open Framework

/-! ## §1. The states. -/

/-- `lua_state_ex` with the objects of its context. -/
structure LuaStateEx (Num : Type) where
  L : LuaState Num
  tracebackIdx : Nat
  objects : List ObjectId := []      -- `p_objects`

/-- A run of a script or of a code string: a function of the heap. -/
abbrev ChunkRun (Num : Type) := Bytes → LuaHeap Num → HandlerRun Num

/-- How a request uses a state: the scripts as they are on disk at that moment,
what the request meets, and the objects that its Lua code makes. -/
structure StateUse (Num : Type) where
  scripts : ChunkRun Num
  env : EngineEnv Num
  func : Bytes
  req : Request
  fuel : Nat
  made : List ObjectId

section States

variable {Num : Type} [DecidableEq Num] [LuaNumber Num]

/-- `luaL_dofile` and `luaL_dostring`: all results of the chunk stay on the
stack; true where they report an error. -/
def luaDoChunk (run : LuaHeap Num → HandlerRun Num) : LuaCode Num Bool := fun L =>
  let r := run L.heap
  match r.result with
  -- `LUA_MULTRET`: nothing is adjusted away
  | .returned vs => .returned false { L with stack := vs.reverse ++ L.stack, heap := r.heap }
  | .raised v => .returned true { L with stack := v :: L.stack, heap := r.heap }
  | .died fault => .died fault { L with heap := r.heap }

/-- `lua_utils::load_code_from_file` and `load_code_from_string`. -/
def loadChunk (run : LuaHeap Num → HandlerRun Num) : LuaCode Num Unit := do
  if ← luaDoChunk run then
    match ← luaToText 1 with
    | some msg => Code.throw msg
    | none => Code.die .nullDereference      -- a `runtime_error` of a null pointer

/-- `lua_utils::load_code_from_scripts`. -/
def loadCodeFromScripts (run : ChunkRun Num) : List Bytes → LuaCode Num Unit
  | [] => pure ()
  | s :: scripts => do
      loadChunk (run s)
      loadCodeFromScripts run scripts

/-- `lua_utils::load_code_from_strings`. -/
def loadCodeFromStrings (run : ChunkRun Num) (codes : List Bytes) : LuaCode Num Unit :=
  loadCodeFromScripts run codes

/-- `lua_setglobal`. -/
def luaSetGlobal (k : Bytes) : LuaCode Num Unit :=
  Code.modify (fun L =>
    { L.pop 1 with heap := L.heap.rawSet L.globals (.string k) (L.peek 1) })

/-- `create_state` from the point on where the libraries are opened: it
installs the traceback, and makes the library context `ctx`. -/
def createState (traceback : LuaValue Num) (ctx : Nat) (files strings : ChunkRun Num)
    (scripts codes : List Bytes) : LuaCode Num Nat := do
  loadCodeFromScripts files scripts
  loadCodeFromStrings strings codes
  Code.modify (fun L => L.push traceback)
  let L ← Code.get
  -- `lua_gettop`, with the traceback on top
  let tracebackIdx := L.stack.length
  Code.modify (fun L => L.push (.userdata ctx))
  luaSetGlobal (bytes "petrel_context")
  pure tracebackIdx

/-- The rest of `get_state` for a state of a pool. -/
def reloadScripts (devmode : Bool) (scripts : List Bytes) (run : ChunkRun Num) : LuaCode Num Unit :=
  if devmode then loadCodeFromScripts run scripts else pure ()

/-- `free_state` up to the push to the pool. -/
def LuaStateEx.free (Lex : LuaStateEx Num) : LuaStateEx Num := { Lex with objects := [] }

/-- `get_state`, `handle_request` and `free_state` on one state.  A request
that does not come to its normal end keeps the state. -/
def useState (devmode : Bool) (scripts : List Bytes) (Lex : LuaStateEx Num) (u : StateUse Num) :
    Option (LuaStateEx Num) :=
  match reloadScripts devmode scripts u.scripts Lex.L with
  | .returned _ L =>
      match handleRequest { u.env with getState := .ok L } u.fuel u.func { req := u.req } with
      | .returned _ h => some { Lex with L := h.L, objects := Lex.objects ++ u.made }.free
      | _ => none
  | _ => none

/-- The life of one state. -/
def stateLife (devmode : Bool) (scripts : List Bytes) (created : LuaStateEx Num) :
    Machine (LuaStateEx Num) (StateUse Num) where
  init := created
  step := useState devmode scripts

/-- The state is clean: the stack has the height it was created with, the
traceback is on top, and it has no objects. -/
structure LuaStateEx.Clean (traceback : LuaValue Num) (Lex : LuaStateEx Num) : Prop where
  height : Lex.L.stack.length = Lex.tracebackIdx
  top : Lex.L.stack.head? = some traceback
  objects : Lex.objects = []

/-- The values that the scripts leave on the stack, the last one first; none
where one of them does not return. -/
def leftOver (run : ChunkRun Num) : List Bytes → LuaHeap Num → Option (List (LuaValue Num))
  | [], _ => some []
  | s :: scripts, H =>
      match (run s H).result with
      | .returned vs => (leftOver run scripts (run s H).heap).map (fun rest => rest ++ vs.reverse)
      | .raised _ | .died _ => none

/-! ## §2. The stack effect of a request. -/

/-- The stack of a Lua state. -/
def StackIs (st : List (LuaValue Num)) (L : LuaState Num) : Prop := L.stack = st

/-- The stack with one more value. -/
def StackHas (st : List (LuaValue Num)) (L : LuaState Num) : Prop := ∃ v, L.stack = v :: st

omit [LuaNumber Num] in
theorem luaGetField_stack (k : Bytes) (st : List (LuaValue Num)) :
    Code.Ensures (StackIs st) (luaGetField k) (fun _ L => StackHas st L) := by
  intro L a M hst hret
  have hstack : L.stack = st := hst
  unfold luaGetField at hret
  split at hret
  · split at hret
    · rename_i v _
      obtain ⟨-, rfl⟩ := Outcome.returned.inj hret
      exact ⟨v, by rw [← hstack]; rfl⟩
    · exact nomatch hret
  · exact nomatch hret

omit [LuaNumber Num] in
theorem luaGetGlobal_stack (k : Bytes) (st : List (LuaValue Num)) :
    Code.Ensures (StackIs st) (luaGetGlobal k) (fun _ L => StackHas st L) := by
  intro L a M hst hret
  have hstack : L.stack = st := hst
  unfold luaGetGlobal at hret
  split at hret
  · rename_i v _
    obtain ⟨-, rfl⟩ := Outcome.returned.inj hret
    exact ⟨v, by rw [← hstack]; rfl⟩
  · exact nomatch hret

omit [DecidableEq Num] in
/-- A conversion in place. -/
theorem luaToText_stack (st : List (LuaValue Num)) :
    Code.Ensures (StackHas st) (luaToText 1) (fun _ L => StackHas st L) := by
  intro L a M hst hret
  obtain ⟨v, hv⟩ := hst
  obtain ⟨-, rfl⟩ := Outcome.returned.inj hret
  refine ⟨(L.peek 1).converted, ?_⟩
  show L.stack.set 0 _ = _
  rw [hv]
  rfl

omit [DecidableEq Num] in
theorem luaPcall_stack (env : EngineEnv Num) (response request func : LuaValue Num)
    (st : List (LuaValue Num)) :
    Code.Ensures (StackIs (response :: request :: func :: st)) (luaPcall env)
      (fun _ L => StackHas st L) := by
  intro L a M hst hret
  have hstack : L.stack = response :: request :: func :: st := hst
  unfold luaPcall at hret
  rw [hstack] at hret
  dsimp only at hret
  split at hret
  · obtain ⟨-, rfl⟩ := Outcome.returned.inj hret
    exact ⟨_, rfl⟩
  · obtain ⟨-, rfl⟩ := Outcome.returned.inj hret
    exact ⟨_, rfl⟩
  · exact nomatch hret

/-- The request is one value on the stack. -/
theorem pushRequest_stack (env : EngineEnv Num) (req : Request) (st : List (LuaValue Num)) :
    Code.Ensures (StackIs st) (pushRequest env req) (fun _ L => StackHas st L) := by
  intro L a M hst hret
  have hpush := pushRequest_apply env req L
  split at hpush
  · obtain ⟨-, rfl⟩ := Outcome.returned.inj (hret.symm.trans hpush)
    obtain ⟨t, ht⟩ := requestTable_stack env req L
    exact ⟨.table t, ht.trans (congrArg _ hst)⟩
  · obtain ⟨N, hN⟩ := hpush
    exact nomatch hret.symm.trans hN

omit [DecidableEq Num] [LuaNumber Num] in
/-- What the code of the Lua state ensures. -/
theorem onLua_ensures {α : Type} {P : LuaState Num → Prop} {Q : α → LuaState Num → Prop}
    {x : LuaCode Num α} (h : Code.Ensures P x Q) :
    Code.Ensures (fun h => P h.L) (onLua x) (fun a h => Q a h.L) :=
  Code.Ensures.zoom (fun _ _ => rfl) h

omit [DecidableEq Num] [LuaNumber Num] in
theorem onRequest_frame {α : Type} {P : LuaState Num → Prop} (x : Code Bytes Fault Request α) :
    Code.Ensures (fun h : Handling Num => P h.L) (onRequest x) (fun _ h => P h.L) :=
  Code.ensures_zoom_frame (fun _ _ h => h)

omit [DecidableEq Num] [LuaNumber Num] in
/-- Nothing comes after an exception. -/
theorem logThrow_bind {α β : Type} {P : Handling Num → Prop} {Q : β → Handling Num → Prop}
    (msg : List Bytes) (f : α → EngineCode Num β) : Code.Ensures P (logThrow msg >>= f) Q :=
  (Code.ensures_throw (Q := fun _ _ => False) _).bind (fun _ _ _ _ h => h.elim)

omit [DecidableEq Num] [LuaNumber Num] in
theorem StackHas.pop {st : List (LuaValue Num)} {L : LuaState Num} (h : StackHas st L) :
    StackIs st (L.pop 1) := by
  obtain ⟨v, hv⟩ := h
  show L.stack.drop 1 = st
  rw [hv]
  rfl

/-- `response.status` is read and popped. -/
theorem readStatus_stack (st : List (LuaValue Num)) :
    Code.Ensures (fun h => StackIs st h.L) readStatus (fun _ h => StackIs st h.L) := by
  unfold readStatus
  refine (onLua_ensures (luaGetField_stack _ st)).bind (fun _ => ?_)
  refine Code.ensures_get.bind (fun h => ?_)
  dsimp only
  refine Code.Ensures.ite (fun _ => logThrow_bind _ _) (fun _ => ?_)
  have hpop : Code.Ensures (fun h => StackHas st h.L) (onLua (Code.modify (LuaState.pop 1)))
      (fun _ h => StackIs st h.L) :=
    onLua_ensures (Code.ensures_modify (fun _ hst => hst.pop))
  exact (hpop.weaken (fun _ hs => hs.2) (fun _ _ hs => hs)).bind
    (fun _ => Code.ensures_pure (fun _ hst => hst))

/-- The header loop consumes its key. -/
theorem headerLoop_stack (key : LuaValue Num) (ht : TableRef) (rest : List (LuaValue Num))
    (fuel : Nat) :
    Code.Ensures (fun h => StackIs (key :: .table ht :: rest) h.L) (headerLoop (rest.length + 1) fuel)
      (fun _ h => StackIs (.table ht :: rest) h.L) := by
  intro h a h' hst hret
  rcases headerLoop_returned hst fuel with hstuck | ⟨hs, -, hend⟩
  · exact absurd hret (hstuck.ne_returned a h')
  · rw [hend] at hret
    obtain ⟨-, rfl⟩ := Outcome.returned.inj hret
    rfl

theorem readHeaders_stack (st : List (LuaValue Num)) (fuel : Nat) :
    Code.Ensures (fun h => StackIs st h.L) (readHeaders fuel) (fun _ h => StackIs st h.L) := by
  unfold readHeaders
  refine (onLua_ensures (luaGetField_stack _ st)).bind (fun _ => ?_)
  refine Code.ensures_get.bind (fun h => ?_)
  dsimp only
  refine Code.Ensures.ite (fun _ => logThrow_bind _ _) (fun htab => ?_)
  -- the table of the headers lies above what was there
  have htable : ∀ h' : Handling Num, h = h' ∧ StackHas st h'.L →
      ∃ ht, h.L.stack.length = st.length + 1 ∧ StackIs (.table ht :: st) h'.L := by
    rintro h' ⟨rfl, v, hv⟩
    have hpeek : h.L.peek 1 = v := by
      unfold LuaState.peek
      rw [hv]
      rfl
    rw [hpeek] at htab
    cases v with
    | table ht => exact ⟨ht, by rw [hv]; rfl, hv⟩
    | _ => exact absurd rfl htab
  refine Code.Ensures.weaken ?_ htable (fun _ _ hs => hs)
  refine Code.Ensures.exists (fun ht => Code.Ensures.assume (fun hidx => ?_))
  rw [hidx]
  -- the loop takes the nil key, and the pop takes the table
  have hpush : Code.Ensures (fun h => StackIs (.table ht :: st) h.L)
      (onLua (Code.modify (LuaState.push .nil)))
      (fun _ h => StackIs (.nil :: .table ht :: st) h.L) :=
    onLua_ensures (Code.ensures_modify (fun _ hst => congrArg (LuaValue.nil :: ·) hst))
  have hpop : Code.Ensures (fun h => StackIs (.table ht :: st) h.L)
      (onLua (Code.modify (LuaState.pop 1))) (fun _ h => StackIs st h.L) :=
    onLua_ensures (Code.ensures_modify (fun _ hst => StackHas.pop ⟨_, hst⟩))
  exact hpush.bind (fun _ => (headerLoop_stack .nil ht st fuel).bind (fun _ => hpop))

/-- The content stays on the stack. -/
theorem readContent_stack (st : List (LuaValue Num)) :
    Code.Ensures (fun h => StackIs st h.L) readContent (fun _ h => StackHas st h.L) := by
  unfold readContent
  refine (onLua_ensures (luaGetField_stack _ st)).bind (fun _ => ?_)
  refine Code.ensures_get.bind (fun h => ?_)
  dsimp only
  refine Code.Ensures.ite (fun _ => logThrow_bind _ _) (fun _ => ?_)
  have htext := onLua_ensures (luaToText_stack st)
  exact (htext.weaken (fun _ hs => hs.2) (fun _ _ hs => hs)).bind
    (fun _ => Code.ensures_pure (fun _ hst => hst))

/-- The response is read and popped with the content. -/
theorem readResponse_stack (st : List (LuaValue Num)) (fuel : Nat) :
    Code.Ensures (fun h => StackHas st h.L) (readResponse fuel) (fun _ h => StackIs st h.L) := by
  refine Code.Ensures.exists (fun v => ?_)
  unfold readResponse
  refine Code.ensures_get.bind (fun h => ?_)
  dsimp only
  refine Code.Ensures.ite (fun _ => logThrow_bind _ _) (fun _ => ?_)
  refine Code.Ensures.weaken (P := fun h' : Handling Num => StackIs (v :: st) h'.L) ?_
    (fun _ hs => hs.2) (fun _ _ hs => hs)
  refine (readStatus_stack (v :: st)).bind (fun status => ?_)
  refine (readHeaders_stack (v :: st) fuel).bind (fun _ => ?_)
  refine (readContent_stack (v :: st)).bind (fun content => ?_)
  refine (onRequest_frame (P := StackHas (v :: st)) _).bind (fun _ => ?_)
  -- the content and the response
  refine onLua_ensures (Code.ensures_modify ?_)
  rintro L ⟨w, hw⟩
  show L.stack.drop 2 = st
  rw [hw]
  rfl

/-- The handler is called with two arguments and leaves one result. -/
theorem callHandler_stack (env : EngineEnv Num) (func : Bytes) (st : List (LuaValue Num)) :
    Code.Ensures (fun h => StackIs st h.L) (callHandler env func) (fun _ h => StackHas st h.L) := by
  unfold callHandler
  refine (onLua_ensures (luaGetGlobal_stack _ st)).bind (fun _ => ?_)
  refine Code.ensures_get.bind (fun h => ?_)
  dsimp only
  refine Code.Ensures.ite (fun _ => logThrow_bind _ _) (fun _ => ?_)
  -- the function and its two arguments
  have hrequest : Code.Ensures (fun h' => h = h' ∧ StackHas st h'.L) (onLua (pushRequest env h.req))
      (fun _ h' => ∃ q f, StackIs (q :: f :: st) h'.L) := by
    refine (onLua_ensures (P := StackHas st) (Q := fun _ L => ∃ q f, StackIs (q :: f :: st) L)
      ?_).weaken (fun _ hs => hs.2) (fun _ _ hs => hs)
    refine Code.Ensures.exists (fun f => ?_)
    refine (pushRequest_stack env h.req (f :: st)).weaken (fun _ hs => hs) (fun _ L hs => ?_)
    obtain ⟨q, hq⟩ := hs
    exact ⟨q, f, hq⟩
  have hresponse : Code.Ensures (fun h' => ∃ q f, StackIs (q :: f :: st) h'.L)
      (onLua (Code.modify pushResponse) : EngineCode Num Unit)
      (fun _ h' => ∃ r q f, StackIs (r :: q :: f :: st) h'.L) := by
    refine onLua_ensures (P := fun L => ∃ q f, StackIs (q :: f :: st) L)
      (Q := fun _ L => ∃ r q f, StackIs (r :: q :: f :: st) L) (Code.ensures_modify ?_)
    intro L hL
    obtain ⟨q, f, hf⟩ := hL
    obtain ⟨r, hr⟩ := pushResponse_stack L
    exact ⟨.table r, q, f, hr.trans (congrArg _ hf)⟩
  refine hrequest.bind (fun _ => hresponse.bind (fun _ => ?_))
  refine Code.Ensures.exists (fun r => Code.Ensures.exists (fun q => Code.Ensures.exists (fun f => ?_)))
  refine (onLua_ensures (luaPcall_stack env r q f st)).bind (fun err => ?_)
  refine Code.Ensures.ite (fun _ => ?_) (fun _ => Code.ensures_pure (fun _ hst => hst))
  refine (onLua_ensures (luaToText_stack st)).bind (fun msg => ?_)
  -- an error does not return, whether it has a text or not
  cases msg with
  | some msg => exact Code.ensures_throw _
  | none => exact Code.ensures_die _

/-- **A REQUEST THAT SUCCEEDS LEAVES THE STACK AS IT WAS**: for every request,
handler and number of headers, what `handle_request` pushes it also pops. -/
theorem handleRequest_stack (env : EngineEnv Num) (fuel : Nat) (func : Bytes) {L : LuaState Num}
    (hget : env.getState = .ok L) {h h' : Handling Num}
    (hret : handleRequest env fuel func h = .returned () h') : h'.L.stack = L.stack := by
  have hall : Code.Ensures (fun _ => True) (handleRequest env fuel func)
      (fun _ h => StackIs L.stack h.L) := by
    unfold handleRequest
    rw [hget]
    refine Code.Ensures.bind (Q := fun _ (h : Handling Num) => StackIs L.stack h.L)
      (Code.ensures_modify (fun _ _ => rfl)) (fun _ => ?_)
    refine (callHandler_stack env func L.stack).bind (fun _ => ?_)
    refine (readResponse_stack L.stack fuel).bind (fun _ => ?_)
    exact Code.ensures_modify (fun _ hst => hst)
  exact hall h () h' trivial hret

/-! ## §3. From use to use. -/

omit [DecidableEq Num] in
theorem loadChunk_returned {run : LuaHeap Num → HandlerRun Num} {L M : LuaState Num}
    (h : loadChunk run L = .returned () M) :
    ∃ vs, (run L.heap).result = .returned vs ∧
      M = { L with stack := vs.reverse ++ L.stack, heap := (run L.heap).heap } := by
  unfold loadChunk at h
  rw [Code.bind_apply] at h
  unfold luaDoChunk at h
  dsimp only at h
  cases hres : (run L.heap).result with
  | returned vs =>
      rw [hres] at h
      exact ⟨vs, rfl, (Outcome.returned.inj h).2.symm⟩
  | raised v =>
      rw [hres] at h
      -- the error is thrown, or kills the process
      cases htext : v.toText with
      | some msg => simp [luaToText, LuaState.peek, htext] at h
      | none => simp [luaToText, LuaState.peek, htext] at h
  | died fault =>
      rw [hres] at h
      cases h

omit [DecidableEq Num] in
/-- What the scripts return is left above what was there. -/
theorem loadScripts_returned {run : ChunkRun Num} {scripts : List Bytes} {L M : LuaState Num}
    (h : loadCodeFromScripts run scripts L = .returned () M) :
    ∃ vs, leftOver run scripts L.heap = some vs ∧ M.stack = vs ++ L.stack := by
  induction scripts generalizing L with
  | nil =>
      obtain ⟨-, rfl⟩ := Outcome.returned.inj h
      exact ⟨[], rfl, rfl⟩
  | cons s scripts ih =>
      unfold loadCodeFromScripts at h
      rw [Code.bind_apply] at h
      obtain ⟨a, K, hchunk, hloop⟩ := Outcome.andThen_eq_returned h
      -- the values of this script are below those of the others
      obtain ⟨vs, hres, rfl⟩ := loadChunk_returned hchunk
      obtain ⟨rest, hrest, hstack⟩ := ih hloop
      refine ⟨rest ++ vs.reverse, ?_, ?_⟩
      · unfold leftOver
        rw [hres]
        dsimp only at hrest ⊢
        rw [hrest]
        rfl
      · rw [hstack, List.append_assoc]

/-- The condition on a use: a reload of the scripts leaves nothing. -/
def Quiet (devmode : Bool) (scripts : List Bytes) (Lex : LuaStateEx Num) (u : StateUse Num) : Prop :=
  devmode = true → leftOver u.scripts scripts Lex.L.heap = some []

/-- **What a use leaves on the stack**: the values that the reloaded scripts
return, and nothing else. -/
theorem useState_stack {devmode : Bool} {scripts : List Bytes} {Lex Lex' : LuaStateEx Num}
    {u : StateUse Num} (h : useState devmode scripts Lex u = some Lex') :
    Lex'.tracebackIdx = Lex.tracebackIdx ∧ Lex'.objects = [] ∧
      ∃ vs, Lex'.L.stack = vs ++ Lex.L.stack ∧ (vs = [] ↔ Quiet devmode scripts Lex u) := by
  unfold useState at h
  split at h
  · rename_i L hreload
    split at h
    · rename_i g hhandle
      obtain rfl := Option.some.inj h
      have hstack := handleRequest_stack _ u.fuel u.func rfl hhandle
      refine ⟨rfl, rfl, ?_⟩
      show ∃ vs, g.L.stack = vs ++ Lex.L.stack ∧ _
      -- the request leaves the stack alone, so what is new is from the reload
      rw [hstack]
      unfold reloadScripts at hreload
      cases devmode with
      | false =>
          obtain ⟨-, rfl⟩ := Outcome.returned.inj hreload
          exact ⟨[], rfl, iff_of_true rfl (fun hdev => nomatch hdev)⟩
      | true =>
          obtain ⟨vs, hvs, hL⟩ := loadScripts_returned hreload
          refine ⟨vs, hL, ?_⟩
          unfold Quiet
          rw [hvs]
          simp
    · exact nomatch h
  · exact nomatch h

/-- A use of a clean state leaves it clean if and only if it is quiet. -/
theorem useState_clean_iff {traceback : LuaValue Num} {devmode : Bool} {scripts : List Bytes}
    {Lex Lex' : LuaStateEx Num} {u : StateUse Num} (h : useState devmode scripts Lex u = some Lex')
    (hclean : Lex.Clean traceback) : Lex'.Clean traceback ↔ Quiet devmode scripts Lex u := by
  obtain ⟨hidx, hobjects, vs, hstack, hquiet⟩ := useState_stack h
  rw [← hquiet]
  constructor
  · intro hclean'
    -- both heights are the one of the traceback
    have hheight := hclean'.height
    rw [hstack, hidx, List.length_append, hclean.height] at hheight
    exact List.length_eq_zero_iff.mp (by omega)
  · rintro rfl
    rw [List.nil_append] at hstack
    exact ⟨by rw [hstack, hidx]; exact hclean.height, by rw [hstack]; exact hclean.top, hobjects⟩

/-- `create_state` returns with the traceback on top. -/
theorem createState_clean {traceback : LuaValue Num} {ctx : Nat} {files strings : ChunkRun Num}
    {scripts codes : List Bytes} {opened L : LuaState Num} {idx : Nat}
    (h : createState traceback ctx files strings scripts codes opened = .returned idx L) :
    (⟨L, idx, []⟩ : LuaStateEx Num).Clean traceback := by
  have hall : Code.Ensures (fun _ => True)
      (createState traceback ctx files strings scripts codes)
      (fun idx L => L.stack.length = idx ∧ L.stack.head? = some traceback) := by
    unfold createState
    -- whatever the scripts and the strings leave is below the traceback
    refine Code.Ensures.bind (Q := fun _ _ => True) (fun _ _ _ _ _ => trivial) (fun _ => ?_)
    refine Code.Ensures.bind (Q := fun _ _ => True) (fun _ _ _ _ _ => trivial) (fun _ => ?_)
    refine Code.Ensures.bind (Q := fun _ L => L.stack.head? = some traceback)
      (Code.ensures_modify (fun _ _ => rfl)) (fun _ => ?_)
    refine Code.ensures_get.bind (fun K => ?_)
    -- the context is pushed, and popped by `lua_setglobal`
    refine Code.Ensures.bind (Q := fun _ L => L.stack.tail.head? = some traceback ∧
      L.stack.tail.length = K.stack.length) (Code.ensures_modify ?_) (fun _ => ?_)
    · rintro _ ⟨rfl, htop⟩
      exact ⟨htop, rfl⟩
    · refine Code.Ensures.bind (Q := fun _ L => L.stack.head? = some traceback ∧
        L.stack.length = K.stack.length) (Code.ensures_modify ?_) (fun _ => ?_)
      · intro L hL
        show (L.stack.drop 1).head? = _ ∧ (L.stack.drop 1).length = _
        rw [List.drop_one]
        exact hL
      · exact Code.ensures_pure (fun _ hL => ⟨hL.2, hL.1⟩)
  obtain ⟨hheight, htop⟩ := hall opened idx L trivial h
  exact ⟨hheight, htop, rfl⟩

/-- **A POOLED STATE IS CLEAN, at every moment of its life, IF AND ONLY IF no
reload of the scripts returns a value.**  Without dev mode there is no reload,
and any number of requests is served without the stack growing. -/
theorem pooled_state_clean (traceback : LuaValue Num) (ctx : Nat) (files strings : ChunkRun Num)
    (scripts codes : List Bytes) (devmode : Bool) (opened L : LuaState Num) (idx : Nat)
    (hcreate : createState traceback ctx files strings scripts codes opened = .returned idx L)
    (uses : List (StateUse Num))
    (hrun : ((stateLife devmode scripts ⟨L, idx, []⟩).run uses).isSome) :
    (∀ before Lex, before <+: uses →
        (stateLife devmode scripts ⟨L, idx, []⟩).run before = some Lex → Lex.Clean traceback) ↔
      ∀ before u Lex, before ++ [u] <+: uses →
        (stateLife devmode scripts ⟨L, idx, []⟩).run before = some Lex →
          Quiet devmode scripts Lex u :=
  Machine.run_invariant_iff (createState_clean hcreate)
    (fun _ _ _ hclean hstep => useState_clean_iff hstep hclean) hrun

end States

/-! ## §4. A script that returns a value. -/

/-- A state whose libraries are opened, with a global function. -/
def openedState : LuaState Int :=
  { heap := { pairs := fun t => if t = 0 then [(.string (bytes "handler"), .function 1)] else []
              next := 1 } }

/-- Chunks that return the values `vs`. -/
def chunkReturns (vs : List (LuaValue Int)) : ChunkRun Int := fun _ H => ⟨H, .returned vs⟩

/-- A GET request whose handler returns the response it was given. -/
def plainUse (vs : List (LuaValue Int)) : StateUse Int where
  scripts := chunkReturns vs
  env := { getState := .error [], call := fun H _ args => ⟨H, .returned (args.drop 1)⟩ }
  func := bytes "handler"
  req := .ofHttp ⟨bytes "GET", bytes "/", [], [], [], true⟩
  fuel := 1
  made := [0]

/-- The state that `create_state` makes with one script. -/
def createdState (vs : List (LuaValue Int)) : Outcome Bytes Fault (LuaState Int) Nat :=
  createState (.function 0) 1 (chunkReturns vs) (chunkReturns []) [bytes "a.lua"] [] openedState

/-- The stack after some uses of this state in dev mode. -/
def stackAfter (vs : List (LuaValue Int)) (uses : Nat) : Option (List (LuaValue Int)) :=
  match createdState vs with
  | .returned idx L =>
      ((stateLife true [bytes "a.lua"] ⟨L, idx, []⟩).run (List.replicate uses (plainUse vs))).map
        (fun Lex => Lex.L.stack)
  | _ => none

theorem stackAfter_some {vs : List (LuaValue Int)} {uses : Nat} {st : List (LuaValue Int)}
    (h : stackAfter vs uses = some st) :
    ∃ idx L Lex, createdState vs = .returned idx L ∧
      (stateLife true [bytes "a.lua"] ⟨L, idx, []⟩).run (List.replicate uses (plainUse vs)) =
        some Lex ∧ Lex.L.stack = st := by
  unfold stackAfter at h
  split at h
  · rename_i idx L hcreate
    obtain ⟨Lex, hrun, hst⟩ := Option.map_eq_some_iff.mp h
    exact ⟨idx, L, Lex, hcreate, hrun, hst⟩
  · exact nomatch h

/-- Two uses of a state whose script returns nothing. -/
theorem pooled_state_clean_quiet :
    ∃ idx L, createdState [] = .returned idx L ∧
      ∀ before Lex, before <+: List.replicate 2 (plainUse []) →
        (stateLife true [bytes "a.lua"] ⟨L, idx, []⟩).run before = some Lex →
          Lex.Clean (.function 0) := by
  obtain ⟨idx, L, Lex, hcreate, hrun, -⟩ :=
    stackAfter_some (show stackAfter [] 2 = some [.function 0] by decide +kernel)
  refine ⟨idx, L, hcreate, ?_⟩
  refine (pooled_state_clean (.function 0) 1 (chunkReturns []) (chunkReturns []) [bytes "a.lua"] []
    true openedState L idx hcreate (List.replicate 2 (plainUse [])) (by rw [hrun]; rfl)).mpr ?_
  intro before u Lex' hbefore _ _
  have hu : u ∈ List.replicate 2 (plainUse []) := hbefore.subset (by simp)
  rw [List.eq_of_mem_replicate hu]
  rfl

/-- **A script that returns a value**, such as a module that ends with
`return M`, leaves it on the stack at every reload: after one use the traceback
is no longer on top. -/
theorem returning_script_grows :
    ∃ idx L Lex, createdState [.number 7] = .returned idx L ∧
      (stateLife true [bytes "a.lua"] ⟨L, idx, []⟩).run [plainUse [.number 7]] = some Lex ∧
      Lex.L.stack = [.number 7, .function 0, .number 7] ∧ ¬ Lex.Clean (.function 0) := by
  obtain ⟨idx, L, Lex, hcreate, hrun, hstack⟩ := stackAfter_some
    (show stackAfter [.number 7] 1 = some [.number 7, .function 0, .number 7] by decide +kernel)
  refine ⟨idx, L, Lex, hcreate, hrun, hstack, ?_⟩
  intro hclean
  have htop := hclean.top
  rw [hstack] at htop
  exact absurd htop (by decide)

end Petrel
