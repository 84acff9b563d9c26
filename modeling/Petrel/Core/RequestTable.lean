/-
  Petrel.Core.RequestTable — what a Lua handler is called with.

  `handle_request` pushes two tables for the handler: the request, with a table
  of its headers and one of its cookies inside, and a response to fill in.
  Strings go through `c_str()`, except for the content, and the headers are
  assigned one after the other, so that a repeated header ends with its last
  value, while `request::header` finds the first one.

  Main results:
    * `Builds.setFieldTo`, `Builds.within` — one field more, and one that is a
      table of its own.
    * `handler_called_with` — the arguments of the handler, field by field, on a
      heap that is otherwise the one before, unless a cookie part is empty.
-/

import Petrel.Core.CookieFields

namespace Petrel

open Framework

section Tables

variable {Num : Type} [DecidableEq Num] [LuaNumber Num]

/-! ## §1. A table under construction. -/

/-- The pairs of a table are these fields; a later one replaces an earlier one
of its name. -/
structure HasFields (ps : LuaPairs Num) (fields : List (Bytes × LuaValue Num)) : Prop where
  nodup : (ps.map Prod.fst).Nodup
  mem : ∀ k v, (k, v) ∈ ps ↔ ∃ name, k = .string name ∧ fields.reverse.lookup name = some v

omit [DecidableEq Num] [LuaNumber Num] in
theorem hasFields_nil : HasFields ([] : LuaPairs Num) [] where
  nodup := List.nodup_nil
  mem := fun k v => iff_of_false List.not_mem_nil (by simp)

omit [LuaNumber Num] in
/-- **One field more.** -/
theorem HasFields.set {ps : LuaPairs Num} {fields : List (Bytes × LuaValue Num)}
    (h : HasFields ps fields) (k : Bytes) {v : LuaValue Num} (hv : v ≠ .nil) :
    HasFields (ps.set (.string k) v) (fields ++ [(k, v)]) where
  nodup := LuaPairs.nodup_set h.nodup hv
  mem := fun k' v' => by
    rw [LuaPairs.mem_set hv, Prod.mk.injEq, h.mem, List.reverse_append, List.reverse_singleton,
      List.singleton_append]
    constructor
    · rintro (⟨rfl, rfl⟩ | ⟨⟨name, rfl, hlookup⟩, hne⟩)
      · exact ⟨k, rfl, List.lookup_cons_self⟩
      · refine ⟨name, rfl, ?_⟩
        have hname : (name == k) = false := beq_eq_false_iff_ne.mpr fun heq => hne (by rw [heq])
        rw [List.lookup_cons, hname]
        exact hlookup
    · rintro ⟨name, rfl, hlookup⟩
      by_cases heq : name = k
      · subst heq
        rw [List.lookup_cons_self] at hlookup
        exact .inl ⟨rfl, (Option.some.inj hlookup).symm⟩
      · rw [List.lookup_cons, beq_eq_false_iff_ne.mpr heq] at hlookup
        exact .inr ⟨⟨name, rfl, hlookup⟩, fun h => heq (LuaValue.string.inj h)⟩

/-- The state `L` has on top of `base` the new table `t` with the fields, and
the tables `subs` that were made for some of them; all else is as in `L₀`. -/
structure Builds (L₀ : LuaState Num) (t : TableRef) (base : List (LuaValue Num))
    (fields : List (Bytes × LuaValue Num)) (subs : List (TableRef × List (Bytes × LuaValue Num)))
    (L : LuaState Num) : Prop where
  stack : L.stack = .table t :: base
  has : HasFields (L.heap.pairs t) fields
  fresh : L₀.heap.next ≤ t ∧ t < L.heap.next
  made : ∀ s ∈ subs, (L₀.heap.next ≤ s.1 ∧ s.1 < L.heap.next) ∧ HasFields (L.heap.pairs s.1) s.2
  nodup : (t :: subs.map Prod.fst).Nodup
  kept : ∀ r < L₀.heap.next, L.heap.pairs r = L₀.heap.pairs r
  metas : L.heap.indexMeta = L₀.heap.indexMeta ∧ L.heap.toStringMeta = L₀.heap.toStringMeta

variable {L₀ L M : LuaState Num} {t u : TableRef} {base : List (LuaValue Num)}
  {fields gs : List (Bytes × LuaValue Num)} {subs : List (TableRef × List (Bytes × LuaValue Num))}

omit [DecidableEq Num] [LuaNumber Num] in
theorem builds_newTable (L : LuaState Num) : Builds L L.heap.next L.stack [] [] L.newTable where
  stack := rfl
  has := by
    rw [show L.newTable.heap.pairs L.heap.next = [] from Function.update_self _ _ _]
    exact hasFields_nil
  fresh := ⟨Nat.le_refl _, Nat.lt_succ_self _⟩
  made := fun s hs => nomatch hs
  nodup := List.nodup_singleton _
  kept := fun r hr => Function.update_of_ne (Nat.ne_of_lt hr) _ _
  metas := ⟨rfl, rfl⟩

omit [LuaNumber Num] in
/-- An assignment to the table on top. -/
theorem Builds.assign (h : Builds L₀ t base fields subs L) (k : Bytes) {v : LuaValue Num} (hv : v ≠ .nil) :
    Builds L₀ t base (fields ++ [(k, v)]) subs { L with heap := L.heap.rawSet t (.string k) v } where
  stack := h.stack
  has := by
    show HasFields ((L.heap.rawSet t (.string k) v).pairs t) _
    rw [LuaHeap.rawSet_pairs]
    exact h.has.set k hv
  fresh := h.fresh
  made := fun s hs => by
    have hne : s.1 ≠ t := fun heq =>
      (List.nodup_cons.mp h.nodup).1 (heq ▸ List.mem_map_of_mem hs)
    refine ⟨(h.made s hs).1, ?_⟩
    show HasFields ((L.heap.rawSet t (.string k) v).pairs s.1) s.2
    rw [LuaHeap.rawSet_pairs_of_ne _ hne]
    exact (h.made s hs).2
  nodup := h.nodup
  kept := fun r hr =>
    (LuaHeap.rawSet_pairs_of_ne _ (Nat.ne_of_lt (Nat.lt_of_lt_of_le hr h.fresh.1)) _ _).trans (h.kept r hr)
  metas := h.metas

omit [LuaNumber Num] in
theorem Builds.setFieldTo (h : Builds L₀ t base fields subs L) (k : Bytes) {v : LuaValue Num}
    (hv : v ≠ .nil) : Builds L₀ t base (fields ++ [(k, v)]) subs (L.setFieldTo k v) := by
  rw [setFieldTo_eq h.stack]
  exact h.assign k hv

omit [LuaNumber Num] in
/-- **A field that is a table of its own**, built in between. -/
theorem Builds.within (h : Builds L₀ t base fields subs L) (h' : Builds L u L.stack gs [] M) (k : Bytes) :
    Builds L₀ t base (fields ++ [(k, .table u)]) ((u, gs) :: subs) (M.setField k) := by
  have hstack : M.stack = .table u :: .table t :: base := by rw [h'.stack, h.stack]
  have hle : L₀.heap.next ≤ L.heap.next := Nat.le_of_lt (Nat.lt_of_le_of_lt h.fresh.1 h.fresh.2)
  have hgrown : L.heap.next ≤ M.heap.next := Nat.le_of_lt (Nat.lt_of_le_of_lt h'.fresh.1 h'.fresh.2)
  have htu : u ≠ t := Nat.ne_of_gt (Nat.lt_of_lt_of_le h.fresh.2 h'.fresh.1)
  -- before the assignment: the new table is one more below
  have hM : Builds L₀ t base fields ((u, gs) :: subs) { M with stack := .table t :: base } := by
    refine ⟨rfl, ?_, ⟨h.fresh.1, Nat.lt_of_lt_of_le h.fresh.2 hgrown⟩, ?_, ?_, ?_, ?_⟩
    · exact (h'.kept t h.fresh.2).symm ▸ h.has
    · intro s hs
      rcases List.mem_cons.mp hs with rfl | hs
      · exact ⟨⟨Nat.le_trans hle h'.fresh.1, h'.fresh.2⟩, h'.has⟩
      · obtain ⟨hs₁, hs₂⟩ := h.made s hs
        refine ⟨⟨hs₁.1, Nat.lt_of_lt_of_le hs₁.2 hgrown⟩, ?_⟩
        exact (h'.kept s.1 hs₁.2).symm ▸ hs₂
    · have hu : u ∉ subs.map Prod.fst := by
        intro hu
        obtain ⟨s, hs, hsu⟩ := List.mem_map.mp hu
        exact Nat.lt_irrefl u (Nat.lt_of_lt_of_le (hsu ▸ (h.made s hs).1.2) h'.fresh.1)
      obtain ⟨ht, hsubs⟩ := List.nodup_cons.mp h.nodup
      refine List.nodup_cons.mpr ⟨?_, List.nodup_cons.mpr ⟨hu, hsubs⟩⟩
      rw [List.map_cons, List.mem_cons, not_or]
      exact ⟨Ne.symm htu, ht⟩
    · exact fun r hr => (h'.kept r (Nat.lt_of_lt_of_le hr hle)).trans (h.kept r hr)
    · exact ⟨h'.metas.1.trans h.metas.1, h'.metas.2.trans h.metas.2⟩
  rw [setField_eq hstack]
  exact hM.assign k (fun h => nomatch h)

/-! ## §2. The two tables. -/

omit [DecidableEq Num] [LuaNumber Num] in
theorem string_ne_nil (s : Bytes) : (.string s : LuaValue Num) ≠ .nil := by
  intro h
  cases h

omit [DecidableEq Num] [LuaNumber Num] in
theorem number_ne_nil (n : Num) : (.number n : LuaValue Num) ≠ .nil := by
  intro h
  cases h

/-- The headers a handler sees. -/
def headerFields (headers : Headers) : List (Bytes × LuaValue Num) :=
  headers.map fun p => (cStr p.1, .string (cStr p.2))

/-- The cookies a handler sees: what is read for the first cookie header. -/
def cookieFieldsOf (behind : Nat → UInt8) (headers : Headers) : List (Bytes × LuaValue Num) :=
  ((splitParts (byte ';') 0 [] (headers.value (bytes "cookie"))).filterMap
    (readCookie behind (headers.value (bytes "cookie")))).map fun p => (p.1, .string p.2)

/-- The fields that every request has. -/
def plainFields (env : EngineEnv Num) (req : Request) (headers : TableRef) :
    List (Bytes × LuaValue Num) :=
  [(bytes "timestamp", .number (LuaNumber.ofInt env.now)),
    (bytes "method", .string (cStr req.methodString)),
    (bytes "proto", .string (cStr req.proto)),
    (bytes "host", .string (cStr req.host)),
    (bytes "path", .string (cStr req.path)),
    (bytes "headers", .table headers),
    (bytes "remote_addr_str", .string (cStr req.remoteAddr)),
    (bytes "remote_addr_ip_ver", .number (LuaNumber.ofInt (if req.remoteIsV4 then 4 else 6)))]

/-- The fields of the request, with the tables of the headers and cookies. -/
def requestFields (env : EngineEnv Num) (req : Request) (headers cookies : TableRef) :
    List (Bytes × LuaValue Num) :=
  plainFields env req headers ++
  (if req.headers.exists (bytes "cookie") then [(bytes "cookies", .table cookies)] else []) ++
  (if req.method = .post then [(bytes "content", .string req.content)] else [])

/-- The fields of the response. -/
def responseFields (headers : TableRef) : List (Bytes × LuaValue Num) :=
  [(bytes "status", .number (LuaNumber.ofInt 200)), (bytes "content", .string []),
    (bytes "headers", .table headers)]

omit [LuaNumber Num] in
theorem builds_pushHeaders (headers : Headers) (L : LuaState Num) :
    Builds L L.heap.next L.stack (headerFields headers) [] (pushHeaders headers L) := by
  have hfold : ∀ (fields : List (Bytes × LuaValue Num)) (M : LuaState Num),
      Builds L L.heap.next L.stack fields [] M →
      Builds L L.heap.next L.stack (fields ++ headerFields headers) []
        (headers.foldl (fun L p => L.setFieldTo (cStr p.1) (.string (cStr p.2))) M) := by
    induction headers with
    | nil => exact fun fields M hM => (List.append_nil fields).symm ▸ hM
    | cons p headers ih =>
        intro fields M hM
        have hnext := ih _ _ (hM.setFieldTo (cStr p.1) (string_ne_nil (cStr p.2)))
        rw [List.append_assoc] at hnext
        exact hnext
  exact hfold [] L.newTable (builds_newTable L)

omit [LuaNumber Num] in
theorem builds_cookieTable (behind : Nat → UInt8) (headers : Headers) (L : LuaState Num) :
    Builds L L.heap.next L.stack (cookieFieldsOf behind headers) []
      (cookieTable behind (headers.value (bytes "cookie")) L) := by
  unfold cookieFieldsOf cookieTable
  generalize headers.value (bytes "cookie") = cookies
  have hat : ∀ p ∈ splitParts (byte ';') 0 [] cookies, PartAt cookies p.1 p.2 := by
    simpa using splitParts_at (byte ';') 0 [] cookies [] rfl
  generalize splitParts (byte ';') 0 [] cookies = parts at hat
  have hfold : ∀ (fields : List (Bytes × LuaValue Num)) (M : LuaState Num),
      Builds L L.heap.next L.stack fields [] M →
      Builds L L.heap.next L.stack
        (fields ++ (parts.filterMap (readCookie behind cookies)).map fun p => (p.1, .string p.2)) []
        (parts.foldl (fun L p => setCookie behind cookies p.1 p.2 L) M) := by
    induction parts with
    | nil => exact fun fields M hM => (List.append_nil fields).symm ▸ hM
    | cons p parts ih =>
        intro fields M hM
        have hrest := ih fun q hq => hat q (List.mem_cons_of_mem p hq)
        rw [List.foldl_cons, List.filterMap_cons, setCookie_eq behind (hat p List.mem_cons_self)]
        unfold readCookie
        cases hspans : cookieSpans p.1 p.2 with
        | none => exact hrest fields M hM
        | some spans =>
            obtain ⟨name, value⟩ := spans
            have hset : ((M.push (.string (readOver behind cookies name.1 name.2))).push
                  (.string (readOver behind cookies value.1 value.2))).rawSet =
                { M with heap := (M.heap.rawSet L.heap.next
                    (.string (readOver behind cookies name.1 name.2))
                    (.string (readOver behind cookies value.1 value.2))) } := by
              simp [LuaState.push, LuaState.rawSet, hM.stack]
            have hnext := hrest _ _ (hM.assign (readOver behind cookies name.1 name.2)
              (string_ne_nil (readOver behind cookies value.1 value.2)))
            rw [List.append_assoc] at hnext
            simp only [hset, Option.map_some]
            exact hnext
  exact hfold [] L.newTable (builds_newTable L)

/-! ## §3. The call of the handler. -/

theorem pushLine_builds (env : EngineEnv Num) (req : Request) (L : LuaState Num) :
    Builds L L.heap.next L.stack [(bytes "timestamp", .number (LuaNumber.ofInt env.now)),
      (bytes "method", .string (cStr req.methodString)), (bytes "proto", .string (cStr req.proto)),
      (bytes "host", .string (cStr req.host)), (bytes "path", .string (cStr req.path))] []
      (pushLine env req L) :=
  (((((builds_newTable L).setFieldTo
    (bytes "timestamp") (number_ne_nil (LuaNumber.ofInt env.now))).setFieldTo
    (bytes "method") (string_ne_nil (cStr req.methodString))).setFieldTo
    (bytes "proto") (string_ne_nil (cStr req.proto))).setFieldTo
    (bytes "host") (string_ne_nil (cStr req.host))).setFieldTo
    (bytes "path") (string_ne_nil (cStr req.path))

theorem pushHead_builds (env : EngineEnv Num) (req : Request) (L : LuaState Num) :
    Builds L L.heap.next L.stack (plainFields env req (pushLine env req L).heap.next)
      [((pushLine env req L).heap.next, headerFields req.headers)] (pushHead req (pushLine env req L)) :=
  (((pushLine_builds env req L).within (builds_pushHeaders req.headers _) (bytes "headers")).setFieldTo
    (bytes "remote_addr_str") (string_ne_nil (cStr req.remoteAddr))).setFieldTo
    (bytes "remote_addr_ip_ver") (number_ne_nil (LuaNumber.ofInt (if req.remoteIsV4 then 4 else 6)))

/-- The table of a request whose cookies can be split. -/
theorem requestTable_builds (env : EngineEnv Num) (req : Request) (L : LuaState Num) :
    ∃ t ht ct, Builds L t L.stack (requestFields env req ht ct)
      ((if req.headers.exists (bytes "cookie") then [(ct, cookieFieldsOf env.behind req.headers)] else [])
        ++ [(ht, headerFields req.headers)]) (requestTable env req L) := by
  have hhead := pushHead_builds env req L
  refine ⟨L.heap.next, (pushLine env req L).heap.next, (pushHead req (pushLine env req L)).heap.next, ?_⟩
  unfold requestTable
  generalize pushHead req (pushLine env req L) = L₂ at hhead ⊢
  generalize (pushLine env req L).heap.next = ht at hhead ⊢
  -- the cookies, then the content
  have hcookies : Builds L L.heap.next L.stack (plainFields env req ht ++
      (if req.headers.exists (bytes "cookie") then [(bytes "cookies", .table L₂.heap.next)] else []))
      ((if req.headers.exists (bytes "cookie") then
        [(L₂.heap.next, cookieFieldsOf env.behind req.headers)] else []) ++
        [(ht, headerFields req.headers)])
      (if req.headers.exists (bytes "cookie") then
        (cookieTable env.behind (req.headers.value (bytes "cookie")) L₂).setField (bytes "cookies")
        else L₂) := by
    by_cases hcookie : req.headers.exists (bytes "cookie") = true
    · rw [if_pos hcookie, if_pos hcookie, if_pos hcookie]
      exact hhead.within (builds_cookieTable env.behind req.headers L₂) (bytes "cookies")
    · rw [if_neg hcookie, if_neg hcookie, if_neg hcookie, List.append_nil]
      exact hhead
  unfold requestFields pushContent
  by_cases hpost : req.method = .post
  · rw [if_pos hpost, if_pos hpost]
    exact hcookies.setFieldTo (bytes "content") (string_ne_nil req.content)
  · rw [if_neg hpost, if_neg hpost, List.append_nil]
    exact hcookies

theorem pushResponse_builds (L : LuaState Num) :
    ∃ r rh, Builds L r L.stack (responseFields rh) [(rh, [])] (pushResponse L) := by
  unfold pushResponse
  extract_lets L₁
  have h₁ := ((builds_newTable L).setFieldTo (bytes "status")
    (number_ne_nil (LuaNumber.ofInt 200))).setFieldTo (bytes "content") (string_ne_nil [])
  exact ⟨L.heap.next, L₁.heap.next, h₁.within (builds_newTable L₁) (bytes "headers")⟩

/-- The two tables behind one another, on a heap that is otherwise the one before. -/
theorem tables_of_request (env : EngineEnv Num) (f : LuaValue Num) (L : LuaState Num) (req : Request) :
    ∃ (t ht ct r rh : TableRef) (H : LuaHeap Num),
      (pushResponse (requestTable env req (L.push f))).heap = H ∧
      (pushResponse (requestTable env req (L.push f))).stack = .table r :: .table t :: f :: L.stack ∧
      HasFields (H.pairs t) (requestFields env req ht ct) ∧
      HasFields (H.pairs ht) (headerFields req.headers) ∧
      (req.headers.exists (bytes "cookie") = true →
        HasFields (H.pairs ct) (cookieFieldsOf env.behind req.headers)) ∧
      HasFields (H.pairs r) (responseFields rh) ∧ HasFields (H.pairs rh) [] ∧
      [t, ht, ct, r, rh].Nodup ∧ (∀ q ∈ [t, ht, ct, r, rh], L.heap.next ≤ q) ∧
      (∀ q < L.heap.next, H.pairs q = L.heap.pairs q) ∧
      H.indexMeta = L.heap.indexMeta ∧ H.toStringMeta = L.heap.toStringMeta := by
  obtain ⟨t, ht, ct, hreq⟩ := requestTable_builds env req (L.push f)
  obtain ⟨r, rh, hres⟩ := pushResponse_builds (requestTable env req (L.push f))
  generalize hL₁ : requestTable env req (L.push f) = L₁ at hreq hres
  generalize hL₂ : pushResponse L₁ = L₂ at hres
  have hle : L.heap.next ≤ L₁.heap.next := Nat.le_of_lt (Nat.lt_of_le_of_lt hreq.fresh.1 hreq.fresh.2)
  have hmade := hreq.made
  have hnodup := hreq.nodup
  obtain ⟨⟨hrh₁, hrh₂⟩, hrhas⟩ := hres.made (rh, []) List.mem_cons_self
  have hrne : r ≠ rh := by
    have := (List.nodup_cons.mp hres.nodup).1
    simpa using this
  obtain ⟨⟨hht₁, hht₂⟩, hhas⟩ := hmade (ht, headerFields req.headers) (by simp)
  have htne : t ≠ ht := by
    have := (List.nodup_cons.mp hnodup).1
    simp only [List.map_append, List.mem_append, not_or] at this
    simpa using this.2
  have hkeep : ∀ {q : TableRef} {fs : List (Bytes × LuaValue Num)}, q < L₁.heap.next →
      HasFields (L₁.heap.pairs q) fs → HasFields (L₂.heap.pairs q) fs := fun hq h =>
    (hres.kept _ hq).symm ▸ h
  -- without a cookie header there is no third table, and the number stands for none
  obtain ⟨c, hfields, hcookies, hc, htc, hhtc, hcr⟩ : ∃ c : TableRef,
      requestFields env req ht c = requestFields env req ht ct ∧
      (req.headers.exists (bytes "cookie") = true →
        HasFields (L₂.heap.pairs c) (cookieFieldsOf env.behind req.headers)) ∧
      L.heap.next ≤ c ∧ t ≠ c ∧ ht ≠ c ∧ (c < L₁.heap.next ∨ L₂.heap.next ≤ c) := by
    by_cases hcookie : req.headers.exists (bytes "cookie") = true
    · rw [if_pos hcookie] at hmade hnodup
      obtain ⟨⟨hct₁, hct₂⟩, hcthas⟩ := hmade (ct, cookieFieldsOf env.behind req.headers) (by simp)
      simp only [List.singleton_append, List.map_cons, List.map_nil, List.nodup_cons, List.mem_cons,
        List.not_mem_nil, or_false, not_or] at hnodup
      exact ⟨ct, rfl, fun _ => hkeep hct₂ hcthas, hct₁, hnodup.1.1, Ne.symm hnodup.2.1, .inl hct₂⟩
    · refine ⟨L₂.heap.next, ?_, fun h => absurd h hcookie, ?_, ?_, ?_, .inr (Nat.le_refl _)⟩
      · unfold requestFields
        rw [if_neg hcookie, if_neg hcookie]
      · exact Nat.le_trans hle (Nat.le_of_lt (Nat.lt_of_le_of_lt hrh₁ hrh₂))
      · exact Nat.ne_of_lt (Nat.lt_trans hreq.fresh.2 (Nat.lt_of_le_of_lt hrh₁ hrh₂))
      · exact Nat.ne_of_lt (Nat.lt_trans hht₂ (Nat.lt_of_le_of_lt hrh₁ hrh₂))
  have hr := hres.fresh
  have ht := hreq.fresh
  refine ⟨t, _, c, r, rh, L₂.heap, rfl, by rw [hres.stack, hreq.stack]; rfl,
    hfields ▸ hkeep ht.2 hreq.has, hkeep hht₂ hhas, hcookies, hres.has, hrhas,
    ?_, ?_, fun q hq => ?_, hres.metas.1.trans hreq.metas.1, hres.metas.2.trans hreq.metas.2⟩
  · -- the tables of the response are newer than those of the request
    have hnewer : ∀ {q q' : TableRef}, q < L₁.heap.next → L₁.heap.next ≤ q' → q ≠ q' := fun h h' =>
      Nat.ne_of_lt (Nat.lt_of_lt_of_le h h')
    have hcnewer : ∀ {q : TableRef}, L₁.heap.next ≤ q → q < L₂.heap.next → c ≠ q := fun h h' =>
      hcr.elim (fun hc => hnewer hc h) fun hc => Nat.ne_of_gt (Nat.lt_of_lt_of_le h' hc)
    simp only [List.nodup_cons, List.mem_cons, List.not_mem_nil, or_false, not_or, not_false_eq_true,
      List.nodup_nil, and_true]
    exact ⟨⟨htne, htc, hnewer ht.2 hr.1, hnewer ht.2 hrh₁⟩, ⟨hhtc, hnewer hht₂ hr.1, hnewer hht₂ hrh₁⟩,
      ⟨hcnewer hr.1 hr.2, hcnewer hrh₁ hrh₂⟩, hrne⟩
  · simp only [List.mem_cons, List.not_mem_nil, or_false]
    rintro q (rfl | rfl | rfl | rfl | rfl)
    · exact ht.1
    · exact hht₁
    · exact hc
    · exact Nat.le_trans hle hr.1
    · exact Nat.le_trans hle hrh₁
  · exact (hres.kept q (Nat.lt_of_lt_of_le hq hle)).trans (hreq.kept q hq)

/-- **What a handler is called with.**  Where a part of the first cookie header
is empty the process ends before the call, whatever the handler is.  For every
other request and every state of Lua, the arguments are two new tables.  The
first one has the fields of the request and no others, the second one those of
an empty response; the headers and the cookies are in tables of their own.  All
tables that were there before are as they were. -/
theorem handler_called_with (env : EngineEnv Num) (f : LuaValue Num) (L : LuaState Num) (req : Request) :
    (¬ req.CookiesOk → ∃ M, pushRequest env req (L.push f) = .died .assertion M) ∧
    (req.CookiesOk → ∃ (t ht ct r rh : TableRef) (H : LuaHeap Num),
      (∃ M, pushRequest env req (L.push f) = .returned () M ∧ (pushResponse M).heap = H ∧
        (pushResponse M).stack = .table r :: .table t :: f :: L.stack) ∧
      handlerRun env f L req = env.call H f [.table t, .table r] ∧
      HasFields (H.pairs t) (requestFields env req ht ct) ∧
      HasFields (H.pairs ht) (headerFields req.headers) ∧
      (req.headers.exists (bytes "cookie") = true →
        HasFields (H.pairs ct) (cookieFieldsOf env.behind req.headers)) ∧
      HasFields (H.pairs r) (responseFields rh) ∧ HasFields (H.pairs rh) [] ∧
      [t, ht, ct, r, rh].Nodup ∧ (∀ q ∈ [t, ht, ct, r, rh], L.heap.next ≤ q) ∧
      (∀ q < L.heap.next, H.pairs q = L.heap.pairs q) ∧
      H.indexMeta = L.heap.indexMeta ∧ H.toStringMeta = L.heap.toStringMeta) := by
  have hpush := pushRequest_apply env req (L.push f)
  constructor
  · intro hcookies
    rw [if_neg hcookies] at hpush
    exact hpush
  · intro hcookies
    rw [if_pos hcookies] at hpush
    obtain ⟨t, ht, ct, r, rh, H, hheap, hstack, htables⟩ := tables_of_request env f L req
    have hrun : handlerRun env f L req = env.call H f [.table t, .table r] := by
      unfold handlerRun LuaState.peek
      simp [hcookies, hstack, hheap]
    exact ⟨t, ht, ct, r, rh, H, ⟨_, hpush, hheap, hstack⟩, hrun, htables⟩

end Tables

end Petrel
