/-
  Petrel.Core.ResolverCache — the cache of DNS lookups.

  `async_resolve` reads the clock, looks for an entry under a lock, and
  without one starts a lookup, during which its fiber waits and other calls
  run.  The result is put into the cache under the lock.  An entry expires
  five minutes after the clock was read; the configured lifetime is read in
  the ctor and logged, and used nowhere.

  Main results:
    * `resolver_inv_reach` — an entry is the result of a lookup for its key,
      and expires at most five minutes after the start of this lookup.
    * `dns_ttl_honoured`   — the lifetime is honoured if and only if it is
      five minutes or more.
-/

import Petrel.Core.Bytes
import Petrel.Framework.Machine

namespace Petrel

open Framework

/-! ## §1. The cache and its calls. -/

/-- A time point of the system clock, in nanoseconds. -/
abbrev TimePoint := Nat

def minutes (n : Nat) : Nat := n * 60000000000

/-- The protocols, each with a cache of its own. -/
inductive Proto where
  | tcp
  | udp
  deriving DecidableEq

/-- A cache entry. -/
structure ResolverEntry (E : Type) where
  expires : TimePoint
  entries : List E

/-- Where a call is: before the lookup in the cache, after a miss, in the DNS
lookup, or before the refill. -/
inductive ResolvePc (E : Type) where
  | checking
  | missed
  | looking (started : TimePoint)
  | refilling (started : TimePoint) (result : List E)

/-- A call of `async_resolve`. -/
structure ResolveCall (E : Type) where
  proto : Proto
  host : Bytes
  service : Bytes
  now : TimePoint
  pc : ResolvePc E := .checking

def ResolveCall.key {E : Type} (c : ResolveCall E) : Bytes := c.host ++ bytes ":" ++ c.service

/-- A DNS lookup that has a result. -/
structure DnsLookup (E : Type) where
  call : Nat
  proto : Proto
  key : Bytes
  started : TimePoint
  result : List E

/-- What a call returned, and the endpoints under its key at this moment. -/
structure ResolveAnswer (E : Type) where
  call : Nat
  proto : Proto
  key : Bytes
  now : TimePoint
  fromCache : Bool
  endpoints : List E
  entry : Option (List E)

/-- `resolver_cache` with its calls, and the history of the lookups and the
answers. -/
structure ResolverState (E : Type) where
  ttl : Nat                                                     -- `m_ttl`
  clock : TimePoint := 0
  cache : Proto → Bytes → Option (ResolverEntry E) := fun _ _ => none
  call : Nat → Option (ResolveCall E) := fun _ => none
  calls : Nat := 0
  lookups : List (DnsLookup E) := []
  answers : List (ResolveAnswer E) := []

inductive ResolverAction (E : Type) where
  | tick (d : Nat)
  | resolve (proto : Proto) (host service : Bytes)
  | check (id : Nat)
  | lookup (id : Nat)
  | result (id : Nat) (r : Option (List E))    -- none for an exception
  | refill (id : Nat)

/-! ## §2. The steps. -/

section Steps

variable {E : Type}

def ResolverState.setCall (s : ResolverState E) (id : Nat) (c : Option (ResolveCall E)) :
    ResolverState E :=
  { s with call := Function.update s.call id c }

def ResolverState.setEntry (s : ResolverState E) (proto : Proto) (key : Bytes)
    (e : Option (ResolverEntry E)) : ResolverState E :=
  { s with cache := Function.update s.cache proto (Function.update (s.cache proto) key e) }

/-- A call returns. -/
def ResolverState.answer (s : ResolverState E) (id : Nat) (c : ResolveCall E) (fromCache : Bool)
    (endpoints : List E) : ResolverState E :=
  { s.setCall id none with
    answers := ⟨id, c.proto, c.key, c.now, fromCache, endpoints,
      (s.cache c.proto c.key).map ResolverEntry.entries⟩ :: s.answers }

/-- The first critical section. -/
def checkStep (s : ResolverState E) (id : Nat) (c : ResolveCall E) : ResolverState E :=
  match s.cache c.proto c.key with
  | some e =>
      if c.now < e.expires then s.answer id c true e.entries
      -- expired: the entry is erased before the lookup
      else (s.setEntry c.proto c.key none).setCall id (some { c with pc := .missed })
  | none => s.setCall id (some { c with pc := .missed })

/-- The second critical section. -/
def storeStep (s : ResolverState E) (id : Nat) (c : ResolveCall E) (result : List E) :
    ResolverState E :=
  -- the constant of the source: `m_ttl` is not read here
  (s.setEntry c.proto c.key (some ⟨c.now + minutes 5, result⟩)).answer id c false result

def resolverStep (s : ResolverState E) : ResolverAction E → Option (ResolverState E)
  | .tick d => some { s with clock := s.clock + d }
  | .resolve proto host service =>
      some { s.setCall s.calls (some ⟨proto, host, service, s.clock, .checking⟩) with
        calls := s.calls + 1 }
  | .check id =>
      (s.call id).bind fun c =>
        match c.pc with
        | .checking => some (checkStep s id c)
        | _ => none
  -- between the two critical sections other calls move
  | .lookup id =>
      (s.call id).bind fun c =>
        match c.pc with
        | .missed => some (s.setCall id (some { c with pc := .looking s.clock }))
        | _ => none
  | .result id r =>
      (s.call id).bind fun c =>
        match c.pc, r with
        | .looking started, some result =>
            some { s.setCall id (some { c with pc := .refilling started result }) with
              lookups := ⟨id, c.proto, c.key, started, result⟩ :: s.lookups }
        -- an exception leaves the cache alone
        | .looking _, none => some (s.setCall id none)
        | _, _ => none
  | .refill id =>
      (s.call id).bind fun c =>
        match c.pc with
        | .refilling _ result => some (storeStep s id c result)
        | _ => none

/-- A resolver cache with the configured lifetime, in minutes. -/
def resolverMachine (E : Type) (ttl : Nat) : Machine (ResolverState E) (ResolverAction E) where
  init := { ttl := ttl }
  step := resolverStep

/-! ## §3. The lifetime. -/

/-- An answer from the cache is the result of a lookup for the same key that
was started less than `t` minutes before the call; any other answer is the
result of a lookup of its own, which is the entry from then on. -/
def ResolverState.AnswerOk (s : ResolverState E) (t : Nat) (a : ResolveAnswer E) : Prop :=
  ∃ l ∈ s.lookups, l.proto = a.proto ∧ l.key = a.key ∧ l.result = a.endpoints ∧
    match a.fromCache with
    | true => a.now < l.started + minutes t
    | false => l.call = a.call ∧ a.now ≤ l.started ∧ a.entry = some a.endpoints

/-- The cache honours a lifetime of `t` minutes. -/
def ResolverState.Honours (s : ResolverState E) (t : Nat) : Prop := ∀ a ∈ s.answers, s.AnswerOk t a

/-- What is known of a call. -/
def ResolverState.CallOk (s : ResolverState E) (id : Nat) (c : ResolveCall E) : Prop :=
  match c.pc with
  | .checking | .missed => c.now ≤ s.clock
  | .looking started => c.now ≤ started
  | .refilling started result =>
      c.now ≤ started ∧ ⟨id, c.proto, c.key, started, result⟩ ∈ s.lookups

/-- An entry is the result of a lookup for its key, and expires at most five
minutes after its start. -/
def ResolverState.EntryOk (s : ResolverState E) (proto : Proto) (key : Bytes) (e : ResolverEntry E) :
    Prop :=
  ∃ l ∈ s.lookups, l.proto = proto ∧ l.key = key ∧ l.result = e.entries ∧
    e.expires ≤ l.started + minutes 5

/-- The invariant of the cache. -/
structure ResolverState.Inv (s : ResolverState E) : Prop where
  call : ∀ id c, s.call id = some c → s.CallOk id c
  entry : ∀ proto key e, s.cache proto key = some e → s.EntryOk proto key e
  answers : s.Honours 5

/-! ## §4. What the steps keep. -/

theorem CallOk.mono {s t : ResolverState E} {id : Nat} {c : ResolveCall E} (h : s.CallOk id c)
    (hclock : s.clock ≤ t.clock) (hlookups : ∀ l ∈ s.lookups, l ∈ t.lookups) : t.CallOk id c := by
  unfold ResolverState.CallOk at h ⊢
  cases hpc : c.pc with
  | checking | missed =>
      rw [hpc] at h
      exact Nat.le_trans h hclock
  | looking started =>
      rw [hpc] at h
      exact h
  | refilling started result =>
      rw [hpc] at h
      exact ⟨h.1, hlookups _ h.2⟩

/-- **The frame of a step**: the clock and the lookups only grow, and what is
new is sound. -/
theorem inv_of_frame {s t : ResolverState E} (h : s.Inv) (hclock : s.clock ≤ t.clock)
    (hlookups : ∀ l ∈ s.lookups, l ∈ t.lookups)
    (hcall : ∀ id c, t.call id = some c → s.call id = some c ∨ t.CallOk id c)
    (hentry : ∀ proto key e, t.cache proto key = some e →
      s.cache proto key = some e ∨ t.EntryOk proto key e)
    (hanswers : ∀ a ∈ t.answers, a ∈ s.answers ∨ t.AnswerOk 5 a) : t.Inv where
  call := by
    intro id c hc
    rcases hcall id c hc with hold | hnew
    · exact CallOk.mono (h.call id c hold) hclock hlookups
    · exact hnew
  entry := by
    intro proto key e he
    rcases hentry proto key e he with hold | hnew
    · obtain ⟨l, hl, hprops⟩ := h.entry proto key e hold
      exact ⟨l, hlookups l hl, hprops⟩
    · exact hnew
  answers := by
    intro a ha
    rcases hanswers a ha with hold | hnew
    · obtain ⟨l, hl, hprops⟩ := h.answers a hold
      exact ⟨l, hlookups l hl, hprops⟩
    · exact hnew

/-- The calls after a change of one of them. -/
theorem update_call {s t : ResolverState E} {id : Nat} {x : Option (ResolveCall E)}
    (ht : t.call = Function.update s.call id x) (hx : ∀ c, x = some c → t.CallOk id c) :
    ∀ i c, t.call i = some c → s.call i = some c ∨ t.CallOk i c := by
  intro i c hc
  rw [ht] at hc
  by_cases hi : i = id
  · subst hi
    rw [Function.update_self] at hc
    exact .inr (hx c hc)
  · rw [Function.update_of_ne hi] at hc
    exact .inl hc

/-- The cache after a change of one entry. -/
theorem update_entry {s t : ResolverState E} {proto : Proto} {key : Bytes} {x : Option (ResolverEntry E)}
    (ht : t.cache = (s.setEntry proto key x).cache) (hx : ∀ e, x = some e → t.EntryOk proto key e) :
    ∀ p k e, t.cache p k = some e → s.cache p k = some e ∨ t.EntryOk p k e := by
  intro p k e he
  have hsame : t.cache p k = Function.update s.cache proto (Function.update (s.cache proto) key x) p k := by
    rw [ht]
    rfl
  rw [hsame] at he
  by_cases hp : p = proto
  · subst hp
    rw [Function.update_self] at he
    by_cases hk : k = key
    · subst hk
      rw [Function.update_self] at he
      exact .inr (hx e he)
    · rw [Function.update_of_ne hk] at he
      exact .inl he
  · rw [Function.update_of_ne hp] at he
    exact .inl he

/-- An entry that has not expired is the answer. -/
theorem checkStep_hit {s : ResolverState E} (id : Nat) {c : ResolveCall E} {e : ResolverEntry E}
    (he : s.cache c.proto c.key = some e) (hexp : c.now < e.expires) :
    checkStep s id c = s.answer id c true e.entries := by
  unfold checkStep
  rw [he]
  exact if_pos hexp

/-- The first critical section. -/
theorem check_inv {s : ResolverState E} (h : s.Inv) {id : Nat} {c : ResolveCall E}
    (hc : s.call id = some c) (hpc : c.pc = .checking) : (checkStep s id c).Inv := by
  -- the time was taken when the call began
  have hnow : c.now ≤ s.clock := by
    have hok := h.call id c hc
    rw [ResolverState.CallOk, hpc] at hok
    exact hok
  cases he : s.cache c.proto c.key with
  | none =>
      unfold checkStep
      rw [he]
      exact inv_of_frame h (Nat.le_refl _) (fun _ hl => hl)
        (update_call rfl (fun d hd => by obtain rfl := Option.some.inj hd; exact hnow))
        (fun _ _ _ he => .inl he) (fun _ ha => .inl ha)
  | some e =>
      by_cases hexp : c.now < e.expires
      · rw [checkStep_hit id he hexp]
        refine inv_of_frame h (Nat.le_refl _) (fun _ hl => hl) (update_call rfl (fun d hd => nomatch hd))
          (fun _ _ _ he => .inl he) ?_
        intro a ha
        rcases List.mem_cons.mp ha with rfl | ha
        · -- a hit: the entry has not expired
          obtain ⟨l, hl, hproto, hkey, hresult, hexpires⟩ := h.entry _ _ e he
          exact .inr ⟨l, hl, hproto, hkey, hresult, Nat.lt_of_lt_of_le hexp hexpires⟩
        · exact .inl ha
      · unfold checkStep
        rw [he]
        dsimp only
        rw [if_neg hexp]
        exact inv_of_frame h (Nat.le_refl _) (fun _ hl => hl)
          (update_call rfl (fun d hd => by obtain rfl := Option.some.inj hd; exact hnow))
          (update_entry rfl (fun e he => nomatch he)) (fun _ ha => .inl ha)

/-- The second critical section. -/
theorem store_inv {s : ResolverState E} (h : s.Inv) {id : Nat} {c : ResolveCall E}
    (hc : s.call id = some c) {started : TimePoint} {result : List E}
    (hpc : c.pc = .refilling started result) : (storeStep s id c result).Inv := by
  obtain ⟨hstart, hlookup⟩ : c.now ≤ started ∧ ⟨id, c.proto, c.key, started, result⟩ ∈ s.lookups := by
    have hok := h.call id c hc
    rw [ResolverState.CallOk, hpc] at hok
    exact hok
  refine inv_of_frame h (Nat.le_refl _) (fun _ hl => hl) (update_call rfl (fun d hd => nomatch hd)) ?_ ?_
  · refine update_entry rfl ?_
    intro e he
    obtain rfl := Option.some.inj he
    -- the lookup started after the call, from which the five minutes count
    exact ⟨_, hlookup, rfl, rfl, rfl, Nat.add_le_add_right hstart _⟩
  · intro a ha
    rcases List.mem_cons.mp ha with rfl | ha
    · refine .inr ⟨_, hlookup, rfl, rfl, rfl, rfl, hstart, ?_⟩
      show Option.map ResolverEntry.entries (Function.update s.cache c.proto
        (Function.update (s.cache c.proto) c.key _) c.proto c.key) = _
      rw [Function.update_self, Function.update_self]
      rfl
    · exact .inl ha

/-- **Every step keeps the invariant.** -/
theorem resolver_inv_step {s t : ResolverState E} {a : ResolverAction E} (h : s.Inv)
    (hs : resolverStep s a = some t) : t.Inv := by
  cases a with
  | tick d =>
      obtain rfl := Option.some.inj hs
      exact inv_of_frame h (Nat.le_add_right _ _) (fun _ hl => hl) (fun _ _ hc => .inl hc)
        (fun _ _ _ he => .inl he) (fun _ ha => .inl ha)
  | resolve proto host service =>
      obtain rfl := Option.some.inj hs
      exact inv_of_frame h (Nat.le_refl _) (fun _ hl => hl)
        (update_call rfl (fun d hd => by obtain rfl := Option.some.inj hd; exact Nat.le_refl _))
        (fun _ _ _ he => .inl he) (fun _ ha => .inl ha)
  | check id =>
      obtain ⟨c, hc, hs⟩ := Option.bind_eq_some_iff.mp hs
      cases hpc : c.pc with
      | checking =>
          rw [hpc] at hs
          obtain rfl := Option.some.inj hs
          exact check_inv h hc hpc
      | missed | looking | refilling =>
          rw [hpc] at hs
          cases hs
  | lookup id =>
      obtain ⟨c, hc, hs⟩ := Option.bind_eq_some_iff.mp hs
      cases hpc : c.pc with
      | missed =>
          have hnow : c.now ≤ s.clock := by
            have hok := h.call id c hc
            rw [ResolverState.CallOk, hpc] at hok
            exact hok
          rw [hpc] at hs
          obtain rfl := Option.some.inj hs
          exact inv_of_frame h (Nat.le_refl _) (fun _ hl => hl)
            (update_call rfl (fun d hd => by obtain rfl := Option.some.inj hd; exact hnow))
            (fun _ _ _ he => .inl he) (fun _ ha => .inl ha)
      | checking | looking | refilling =>
          rw [hpc] at hs
          cases hs
  | result id r =>
      obtain ⟨c, hc, hs⟩ := Option.bind_eq_some_iff.mp hs
      cases hpc : c.pc with
      | looking started =>
          have hnow : c.now ≤ started := by
            have hok := h.call id c hc
            rw [ResolverState.CallOk, hpc] at hok
            exact hok
          rw [hpc] at hs
          cases r with
          | none =>
              obtain rfl := Option.some.inj hs
              exact inv_of_frame h (Nat.le_refl _) (fun _ hl => hl) (update_call rfl (fun d hd => nomatch hd))
                (fun _ _ _ he => .inl he) (fun _ ha => .inl ha)
          | some result =>
              obtain rfl := Option.some.inj hs
              refine inv_of_frame h (Nat.le_refl _) (fun l hl => List.mem_cons_of_mem _ hl) ?_
                (fun _ _ _ he => .inl he) (fun _ ha => .inl ha)
              refine update_call rfl ?_
              intro d hd
              obtain rfl := Option.some.inj hd
              exact ⟨hnow, List.mem_cons_self ..⟩
      | checking | missed | refilling =>
          rw [hpc] at hs
          cases hs
  | refill id =>
      obtain ⟨c, hc, hs⟩ := Option.bind_eq_some_iff.mp hs
      cases hpc : c.pc with
      | refilling started result =>
          rw [hpc] at hs
          obtain rfl := Option.some.inj hs
          exact store_inv h hc hpc
      | checking | missed | looking =>
          rw [hpc] at hs
          cases hs

theorem resolver_inv_reach {ttl : Nat} {s : ResolverState E} (h : (resolverMachine E ttl).Reach s) : s.Inv := by
  refine h.invariant (I := ResolverState.Inv) ?_ (fun _ _ _ hinv _ hs => resolver_inv_step hinv hs)
  exact ⟨(fun _ _ hc => nomatch hc), (fun _ _ _ he => nomatch he), (fun _ ha => nomatch ha)⟩

/-- A lifetime that is honoured may as well be longer. -/
theorem Honours.mono {s : ResolverState E} {t t' : Nat} (h : s.Honours t) (ht : t ≤ t') : s.Honours t' := by
  intro a ha
  obtain ⟨l, hl, hproto, hkey, hresult, hage⟩ := h a ha
  refine ⟨l, hl, hproto, hkey, hresult, ?_⟩
  cases hcache : a.fromCache with
  | false =>
      rw [hcache] at hage
      exact hage
  | true =>
      rw [hcache] at hage
      have hmin : minutes t ≤ minutes t' := by
        unfold minutes
        omega
      exact Nat.lt_of_lt_of_le hage (Nat.add_le_add_left hmin _)

/-! ## §5. The configured lifetime. -/

/-- A lookup at the beginning, and a second call four minutes later. -/
def staleRun (endpoints : List E) : List (ResolverAction E) :=
  [.resolve .tcp (bytes "host") (bytes "80"), .check 0, .lookup 0, .result 0 (some endpoints), .refill 0,
    .tick (minutes 4), .resolve .tcp (bytes "host") (bytes "80")]

/-- The second call is answered from the cache, whatever the lifetime. -/
theorem staleRun_answers (ttl : Nat) (endpoints : List E) :
    ∃ s, (resolverMachine E ttl).Reach s ∧ (∀ l ∈ s.lookups, l.started = 0) ∧
      ∃ a ∈ s.answers, a.fromCache = true ∧ a.now = 0 + minutes 4 ∧ a.endpoints = endpoints := by
  obtain ⟨s, hrun, hcall, hentry, hlookups⟩ : ∃ s, (resolverMachine E ttl).run (staleRun endpoints) = some s ∧
      s.call 1 = some ⟨.tcp, bytes "host", bytes "80", 0 + minutes 4, .checking⟩ ∧
      s.cache .tcp (bytes "host" ++ bytes ":" ++ bytes "80") = some ⟨0 + minutes 5, endpoints⟩ ∧
      s.lookups.map DnsLookup.started = [0] := ⟨_, rfl, rfl, rfl, rfl⟩
  -- the only lookup is the one at the beginning
  have hstarted : ∀ l ∈ s.lookups, l.started = 0 := by
    intro l hl
    have hmem := List.mem_map_of_mem (f := DnsLookup.started) hl
    rw [hlookups] at hmem
    exact List.mem_singleton.mp hmem
  have hexp : 0 + minutes 4 < 0 + minutes 5 := by decide
  have hhit := checkStep_hit (c := ⟨.tcp, bytes "host", bytes "80", 0 + minutes 4, .checking⟩) 1 hentry hexp
  have hstep : (resolverMachine E ttl).step s (.check 1) =
      some (s.answer 1 ⟨.tcp, bytes "host", bytes "80", 0 + minutes 4, .checking⟩ true endpoints) := by
    show (s.call 1).bind _ = _
    rw [hcall]
    exact congrArg some hhit
  exact ⟨_, .step (Machine.reach_iff_run.mpr ⟨staleRun endpoints, hrun⟩) trivial hstep,
    hstarted, _, List.mem_cons_self .., rfl, rfl, rfl⟩

/-- **THE LIFETIME IS HONOURED FROM FIVE MINUTES ON.**  With a configured
lifetime of `t` minutes every run honours it if and only if `t` is at least
five, the constant of the source. -/
theorem dns_ttl_honoured (t : Nat) :
    (∀ s, (resolverMachine E t).Reach s → s.Honours t) ↔ 5 ≤ t := by
  constructor
  · intro h
    -- the endpoints do not matter, and there may be none of this type
    obtain ⟨s, hs, hstarted, a, ha, hcache, hnow, -⟩ := staleRun_answers t ([] : List E)
    obtain ⟨l, hl, -, -, -, hage⟩ := h s hs a ha
    rw [hcache, hnow, hstarted l hl] at hage
    have hage : 0 + 4 * 60000000000 < 0 + t * 60000000000 := hage
    omega
  · intro ht s hs
    exact Honours.mono (resolver_inv_reach hs).answers ht

/-- **AN OUTDATED ANSWER**: with a lifetime of one minute a lookup of four
minutes ago is still used. -/
theorem outdated_answer :
    ∃ s, (resolverMachine Unit 1).Reach s ∧ ¬ s.Honours 1 := by
  obtain ⟨s, hs, hstarted, a, ha, hcache, hnow, -⟩ := staleRun_answers 1 [(), ()]
  refine ⟨s, hs, ?_⟩
  intro h
  obtain ⟨l, hl, -, -, -, hage⟩ := h a ha
  rw [hcache, hnow, hstarted l hl] at hage
  have hage : 0 + minutes 4 < 0 + minutes 1 := hage
  exact absurd hage (by decide)

end Steps

end Petrel
