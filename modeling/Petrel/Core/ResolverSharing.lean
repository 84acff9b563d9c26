/-
  Petrel.Core.ResolverSharing — whose lookup a cached answer comes from.

  The cache is indexed by one string, the host and the service with a colon in
  between, and all fibers of all threads share it.  A host may have colons of
  its own, as an IPv6 address has.

  Main results:
    * `traces_run` — every call, lookup and answer belongs to a query of the run.
    * `resolver_answers_own_iff` — a call is always answered with a lookup for its
      own host and service, if and only if no two of those asked for have one key.
    * `key_injOn_services` — which is so where no service has a colon.
-/

import Petrel.Core.ResolverCache
import Petrel.Framework.Records

namespace Petrel

open Framework

/-! ## §1. The queries of a run. -/

/-- What `async_resolve` is called with. -/
structure DnsQuery where
  proto : Proto
  host : Bytes
  service : Bytes

def DnsQuery.key (q : DnsQuery) : Bytes := q.host ++ bytes ":" ++ q.service

section Queries

variable {E : Type}

def ResolverAction.query : ResolverAction E → Option DnsQuery
  | .resolve proto host service => some ⟨proto, host, service⟩
  | _ => none

/-- The queries of a run; the calls are numbered in their order. -/
def queries (as : List (ResolverAction E)) : List DnsQuery := as.filterMap ResolverAction.query

def ResolveCall.query (c : ResolveCall E) : DnsQuery := ⟨c.proto, c.host, c.service⟩

/-- The calls, the lookups and the answers belong to queries of the run. -/
structure ResolverState.Traces (as : List (ResolverAction E)) (s : ResolverState E) : Prop where
  calls : s.calls = (queries as).length
  call : ∀ id c, s.call id = some c → (queries as)[id]? = some c.query
  lookups : ∀ l ∈ s.lookups, ∃ q, (queries as)[l.call]? = some q ∧ l.proto = q.proto ∧ l.key = q.key
  answers : ∀ a ∈ s.answers, ∃ q, (queries as)[a.call]? = some q ∧ a.proto = q.proto ∧ a.key = q.key

variable {s t : ResolverState E} {as : List (ResolverAction E)} {a : ResolverAction E}

/-- A step of a call that is there already. -/
theorem ResolverState.Traces.frame (h : s.Traces as) {id : Nat} {c : ResolveCall E}
    (hc : s.call id = some c) (hquery : a.query = none) (hcalls : t.calls = s.calls)
    (hcall : ∀ i d, t.call i = some d → s.call i = some d ∨ i = id ∧ d.query = c.query)
    (hlookups : ∀ l ∈ t.lookups, l ∈ s.lookups ∨ l.call = id ∧ l.proto = c.proto ∧ l.key = c.key)
    (hanswers : ∀ x ∈ t.answers, x ∈ s.answers ∨ x.call = id ∧ x.proto = c.proto ∧ x.key = c.key) :
    t.Traces (as ++ [a]) := by
  have hsame : queries (as ++ [a]) = queries as := by
    unfold queries
    rw [List.filterMap_append, List.filterMap_cons, hquery, List.filterMap_nil, List.append_nil]
  have hown := h.call id c hc
  constructor
  · rw [hsame, hcalls, h.calls]
  · intro i d hd
    rw [hsame]
    rcases hcall i d hd with hd | ⟨rfl, hd⟩
    · exact h.call i d hd
    · rw [hd]
      exact hown
  · intro l hl
    rw [hsame]
    rcases hlookups l hl with hl | ⟨rfl, hproto, hkey⟩
    · exact h.lookups l hl
    · exact ⟨c.query, hown, hproto, hkey⟩
  · intro x hx
    rw [hsame]
    rcases hanswers x hx with hx | ⟨rfl, hproto, hkey⟩
    · exact h.answers x hx
    · exact ⟨c.query, hown, hproto, hkey⟩

/-- The calls after a change of one of them. -/
theorem call_update {id : Nat} {x : Option (ResolveCall E)} {c : ResolveCall E}
    (ht : t.call = Function.update s.call id x) (hx : ∀ d, x = some d → d.query = c.query) :
    ∀ i d, t.call i = some d → s.call i = some d ∨ i = id ∧ d.query = c.query := by
  intro i d hd
  rw [ht] at hd
  by_cases hi : i = id
  · rw [hi, Function.update_self] at hd
    exact .inr ⟨hi, hx d hd⟩
  · rw [Function.update_of_ne hi] at hd
    exact .inl hd

/-- The first critical section. -/
theorem ResolverState.Traces.check (h : s.Traces as) {id : Nat} {c : ResolveCall E}
    (hc : s.call id = some c) : (checkStep s id c).Traces (as ++ [.check id]) := by
  have hnone : ∀ d, (none : Option (ResolveCall E)) = some d → d.query = c.query := nofun
  have hmissed : ∀ d, some ({ c with pc := .missed } : ResolveCall E) = some d → d.query = c.query := fun d hd => by
    obtain rfl := Option.some.inj hd
    rfl
  unfold checkStep
  cases he : s.cache c.proto c.key with
  | none => exact h.frame hc rfl rfl (call_update rfl hmissed) (fun _ hl => .inl hl) (fun _ hx => .inl hx)
  | some e =>
      by_cases hexp : c.now < e.expires
      · simp only [if_pos hexp]
        refine h.frame hc rfl rfl (call_update rfl hnone) (fun _ hl => .inl hl) fun x hx => ?_
        rcases List.mem_cons.mp hx with rfl | hx
        · exact .inr ⟨rfl, rfl, rfl⟩
        · exact .inl hx
      · simp only [if_neg hexp]
        exact h.frame hc rfl rfl (call_update rfl hmissed) (fun _ hl => .inl hl) (fun _ hx => .inl hx)

/-- **One step.** -/
theorem traces_step (h : s.Traces as) (hs : resolverStep s a = some t) : t.Traces (as ++ [a]) := by
  cases a with
  | tick d =>
      obtain rfl := Option.some.inj hs
      have hsame : queries (as ++ [.tick d]) = queries as := by simp [queries, ResolverAction.query]
      exact ⟨hsame ▸ h.calls, hsame ▸ h.call, hsame ▸ h.lookups, hsame ▸ h.answers⟩
  | resolve proto host service =>
      obtain rfl := Option.some.inj hs
      have hnew : queries (as ++ [.resolve proto host service]) = queries as ++ [⟨proto, host, service⟩] := by
        simp [queries, ResolverAction.query]
      have hold : ∀ {i : Nat} {q : DnsQuery}, (queries as)[i]? = some q →
          (queries as ++ [⟨proto, host, service⟩])[i]? = some q := fun hi => by
        rw [List.getElem?_append_left (List.getElem?_eq_some_iff.mp hi).1, hi]
      constructor
      · rw [hnew, List.length_append, ← h.calls]
        rfl
      · intro i c hc
        rw [hnew]
        have hc : Function.update s.call s.calls
            (some (⟨proto, host, service, s.clock, .checking⟩ : ResolveCall E)) i = some c := hc
        by_cases hi : i = s.calls
        · rw [hi, Function.update_self] at hc
          obtain rfl := Option.some.inj hc
          rw [hi, h.calls, List.getElem?_append_right (Nat.le_refl _), Nat.sub_self]
          rfl
        · rw [Function.update_of_ne hi] at hc
          exact hold (h.call i c hc)
      · intro l hl
        obtain ⟨q, hq, hprops⟩ := h.lookups l hl
        exact ⟨q, hnew ▸ hold hq, hprops⟩
      · intro x hx
        obtain ⟨q, hq, hprops⟩ := h.answers x hx
        exact ⟨q, hnew ▸ hold hq, hprops⟩
  | check id =>
      obtain ⟨c, hc, hs⟩ := Option.bind_eq_some_iff.mp hs
      cases hpc : c.pc with
      | checking =>
          rw [hpc] at hs
          obtain rfl := Option.some.inj hs
          exact h.check hc
      | missed | looking | refilling =>
          rw [hpc] at hs
          cases hs
  | lookup id =>
      obtain ⟨c, hc, hs⟩ := Option.bind_eq_some_iff.mp hs
      cases hpc : c.pc with
      | missed =>
          rw [hpc] at hs
          obtain rfl := Option.some.inj hs
          refine h.frame hc rfl rfl (call_update rfl fun d hd => ?_) (fun _ hl => .inl hl) (fun _ hx => .inl hx)
          obtain rfl := Option.some.inj hd
          rfl
      | checking | looking | refilling =>
          rw [hpc] at hs
          cases hs
  | result id r =>
      obtain ⟨c, hc, hs⟩ := Option.bind_eq_some_iff.mp hs
      cases hpc : c.pc with
      | looking started =>
          rw [hpc] at hs
          cases r with
          | none =>
              obtain rfl := Option.some.inj hs
              exact h.frame hc rfl rfl (call_update rfl fun _ hd => nomatch hd) (fun _ hl => .inl hl)
                (fun _ hx => .inl hx)
          | some result =>
              obtain rfl := Option.some.inj hs
              refine h.frame hc rfl rfl (call_update rfl fun d hd => ?_) (fun l hl => ?_) (fun _ hx => .inl hx)
              · obtain rfl := Option.some.inj hd
                rfl
              · rcases List.mem_cons.mp hl with rfl | hl
                · exact .inr ⟨rfl, rfl, rfl⟩
                · exact .inl hl
      | checking | missed | refilling =>
          rw [hpc] at hs
          cases hs
  | refill id =>
      obtain ⟨c, hc, hs⟩ := Option.bind_eq_some_iff.mp hs
      cases hpc : c.pc with
      | refilling started result =>
          rw [hpc] at hs
          obtain rfl := Option.some.inj hs
          refine h.frame hc rfl rfl (call_update rfl fun _ hd => nomatch hd) (fun _ hl => .inl hl) fun x hx => ?_
          rcases List.mem_cons.mp hx with rfl | hx
          · exact .inr ⟨rfl, rfl, rfl⟩
          · exact .inl hx
      | checking | missed | looking =>
          rw [hpc] at hs
          cases hs

theorem traces_run {ttl : Nat} (as : List (ResolverAction E)) {s : ResolverState E}
    (hrun : (resolverMachine E ttl).run as = some s) : s.Traces as := by
  induction as using List.reverseRecOn generalizing s with
  | nil =>
      cases hrun
      exact ⟨rfl, (fun _ _ hc => nomatch hc), (fun _ hl => nomatch hl), (fun _ hx => nomatch hx)⟩
  | append_singleton as a ih =>
      rw [Machine.run_concat] at hrun
      obtain ⟨s', hs', hstep⟩ := Option.bind_eq_some_iff.mp hrun
      exact traces_step (ih hs') hstep

/-! ## §2. Whose lookup an answer is. -/

/-- The host and the service of a query. -/
def DnsQuery.name (q : DnsQuery) : Bytes × Bytes := (q.host, q.service)

/-- The index of the cache. -/
def cacheKey (p : Bytes × Bytes) : Bytes := p.1 ++ bytes ":" ++ p.2

/-- Every answer is the result of a lookup that was made for the same protocol,
host and service: one started less than five minutes before the call if it is
from the cache, and the call's own otherwise. -/
def AnswersOwn (as : List (ResolverAction E)) (s : ResolverState E) : Prop :=
  ∀ a ∈ s.answers, ∃ l ∈ s.lookups, ∃ q ql, (queries as)[a.call]? = some q ∧
    (queries as)[l.call]? = some ql ∧ ql.proto = q.proto ∧ ql.name = q.name ∧ l.result = a.endpoints ∧
    if a.fromCache then a.now < l.started + minutes 5 else l.call = a.call

/-- A lookup for `p`, and a call for `p'` behind it. -/
def sharingRun (p p' : Bytes × Bytes) (endpoints : List E) : List (ResolverAction E) :=
  [.resolve .tcp p.1 p.2, .check 0, .lookup 0, .result 0 (some endpoints), .refill 0,
    .resolve .tcp p'.1 p'.2]

/-- A call is answered with what was looked up for another one of its key. -/
theorem sharingRun_answers {p p' : Bytes × Bytes} (hkey : cacheKey p = cacheKey p') (ttl : Nat)
    (endpoints : List E) :
    ∃ s, (resolverMachine E ttl).run (sharingRun p p' endpoints ++ [.check 1]) = some s ∧
      (∀ l ∈ s.lookups, l.call = 0) ∧ ∃ a ∈ s.answers, a.call = 1 ∧ a.endpoints = endpoints := by
  obtain ⟨s, hrun, hcall, hentry, hlookups⟩ :
      ∃ s, (resolverMachine E ttl).run (sharingRun p p' endpoints) = some s ∧
      s.call 1 = some ⟨.tcp, p'.1, p'.2, 0, .checking⟩ ∧
      s.cache .tcp (cacheKey p) = some ⟨0 + minutes 5, endpoints⟩ ∧
      s.lookups.map DnsLookup.call = [0] := by
    refine ⟨_, rfl, rfl, ?_, rfl⟩
    -- the entry that the refill has put into the empty cache
    show (Function.update (fun _ _ => none : Proto → Bytes → Option (ResolverEntry E)) .tcp
      (Function.update (fun _ => none) (cacheKey p) (some ⟨0 + minutes 5, endpoints⟩))) .tcp (cacheKey p) = _
    rw [Function.update_self, Function.update_self]
  have hfirst : ∀ l ∈ s.lookups, l.call = 0 := by
    intro l hl
    have hmem := List.mem_map_of_mem (f := DnsLookup.call) hl
    rw [hlookups] at hmem
    exact List.mem_singleton.mp hmem
  have hhit := checkStep_hit (c := ⟨.tcp, p'.1, p'.2, 0, .checking⟩) 1 (hkey ▸ hentry)
    (show 0 < 0 + minutes 5 by decide)
  refine ⟨s.answer 1 ⟨.tcp, p'.1, p'.2, 0, .checking⟩ true endpoints, ?_, hfirst, _,
    List.mem_cons_self, rfl, rfl⟩
  rw [Machine.run_concat, hrun]
  show (s.call 1).bind _ = _
  rw [hcall]
  exact congrArg some hhit

/-- **Every call is answered for its own host and service**, in every run that
asks for names of `names` only, at any times and in any order of the steps of
the fibers, if and only if no two of these names have the same key. -/
theorem resolver_answers_own_iff (ttl : Nat) (names : Set (Bytes × Bytes)) :
    (∀ as s, (resolverMachine E ttl).run as = some s → (∀ q ∈ queries as, q.name ∈ names) →
      AnswersOwn as s) ↔ Set.InjOn cacheKey names := by
  constructor
  · intro h p hp p' hp' hkey
    -- the endpoints do not matter, and there may be none of this type
    obtain ⟨s, hrun, hlookups, a, ha, hcall, -⟩ := sharingRun_answers hkey ttl ([] : List E)
    have hqueries : queries (sharingRun p p' [] ++ [.check 1] : List (ResolverAction E)) =
        [⟨.tcp, p.1, p.2⟩, ⟨.tcp, p'.1, p'.2⟩] := rfl
    obtain ⟨l, hl, q, ql, hq, hql, -, hname, -, -⟩ := h _ s hrun (by
      rw [hqueries]
      simp only [List.mem_cons, List.not_mem_nil, or_false]
      rintro q (rfl | rfl)
      · exact hp
      · exact hp') a ha
    rw [hqueries, hcall] at hq
    rw [hqueries, hlookups l hl] at hql
    obtain rfl := Option.some.inj hq
    obtain rfl := Option.some.inj hql
    exact hname
  · intro hinj as s hrun hnames a ha
    have htraces := traces_run as hrun
    have hinv := resolver_inv_reach (Machine.reach_iff_run.mpr ⟨as, hrun⟩)
    obtain ⟨l, hl, hproto, hkey, hresult, hage⟩ := hinv.answers a ha
    obtain ⟨q, hq, hqproto, hqkey⟩ := htraces.answers a ha
    obtain ⟨ql, hql, hqlproto, hqlkey⟩ := htraces.lookups l hl
    have hname : ql.name = q.name := hinj (hnames ql (List.mem_of_getElem? hql))
      (hnames q (List.mem_of_getElem? hq)) (hqlkey.symm.trans (hkey.trans hqkey))
    refine ⟨l, hl, q, ql, hq, hql, hqlproto.symm.trans (hproto.trans hqproto), hname, hresult, ?_⟩
    cases hcache : a.fromCache with
    | true =>
        rw [hcache] at hage
        exact hage
    | false =>
        rw [hcache] at hage
        exact hage.1

end Queries

/-- The last colon of a key is the one between the host and a port. -/
theorem key_injOn_services : Set.InjOn cacheKey {p | byte ':' ∉ p.2} := by
  intro p hp p' hp' hkey
  have hcons : ∀ q : Bytes × Bytes, cacheKey q = q.1 ++ byte ':' :: q.2 := fun q =>
    List.append_assoc _ _ _
  rw [hcons, hcons] at hkey
  obtain ⟨hhost, hservice⟩ := append_sep_inj hp hp' hkey
  exact Prod.ext hhost hservice

end Petrel
