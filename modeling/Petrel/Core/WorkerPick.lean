/-
  Petrel.Core.WorkerPick — which worker serves a connection.

  The HTTP/1 server has `m_num_workers` workers and one atomic counter,
  `m_next_worker`.  `get_worker` takes the counter and adds one to it; the
  worker is the counter modulo the number of workers.  It is called in two
  places:

    * `start_http` calls it for each endpoint the address resolves to, and
      the worker's `add_endpoint` binds an acceptor;
    * the `do_accept` fiber of each acceptor calls it BEFORE `async_accept`,
      so that a pick waits for its connection, and an accept that fails
      throws its pick away.

  Main results:
    * `pick_inv_reach`        — every pick is with a session, spent or waiting.
    * `sessions_dealt_evenly` — how far apart two workers can come.
-/

import Petrel.Framework.Machine
import Petrel.Framework.Rotation

namespace Petrel

open Framework

/-! ## §1. The workers and the counter. -/

/-- `m_num_workers`: the option `server.workers`, 0 for the number of online
    processors, and at least 1. -/
def numWorkers (option : Option Int) (online : Int) : Nat :=
  let n := option.getD 1
  let n := if n = 0 then online else n
  (if n < 1 then 1 else n).toNat

theorem numWorkers_pos (option : Option Int) (online : Int) : 0 < numWorkers option online := by
  have hpos : ∀ n : Int, 0 < (if n < 1 then 1 else n).toNat := fun n => by split <;> omega
  exact hpos _

/-- The range of `std::size_t`. -/
abbrev counterRange : Nat := 2 ^ 64

/-- The HTTP/1 server, its workers and acceptors numbered. -/
structure Dealing where
  next : UInt64                      -- `m_next_worker`
  acceptors : List Nat               -- the worker of each acceptor that is bound
  running : Bool                     -- the workers are started
  stopped : List Nat                 -- the workers that are stopped
  waiting : List (Nat × Nat)         -- the acceptors in `async_accept`, with their picks
  sessions : List Nat                -- the worker of each session, in order
  spent : List Nat                   -- the picks that served no session
  deriving DecidableEq

/-- `get_worker`: the pick, and the counter after it. -/
def Dealing.getWorker (n : Nat) (s : Dealing) : Nat × Dealing :=
  (s.next.toNat % n, { s with next := s.next + 1 })

/-- The acceptor `a` is open. -/
def Dealing.IsOpen (s : Dealing) (a : Nat) : Prop :=
  ∃ w, s.acceptors[a]? = some w ∧ w ∉ s.stopped

instance (s : Dealing) (a : Nat) : Decidable (s.IsOpen a) :=
  match h : s.acceptors[a]? with
  | none => isFalse (by simp [Dealing.IsOpen, h])
  | some w => decidable_of_iff (w ∉ s.stopped) (by simp [Dealing.IsOpen, h])

inductive DealingAction where
  | endpoint (ok : Bool)             -- `start_http`: an endpoint, bound or not
  | start                            -- `start_http`: the workers are started
  | pick (a : Nat)                   -- `do_accept`: a worker for the next connection
  | accept (a : Nat)                 -- `async_accept` returns a connection
  | fail (a : Nat)                   -- `async_accept` fails
  | stop (w : Nat)                   -- `worker::stop` closes the worker's acceptors

/-- One step of the server's threads. -/
def dealingStep (n : Nat) (s : Dealing) : DealingAction → Option Dealing
  | .endpoint ok =>
      if s.running then none
      else
        let (w, s) := s.getWorker n
        some { s with
          acceptors := if ok then s.acceptors ++ [w] else s.acceptors
          spent := s.spent ++ [w] }
  | .start =>
      -- without any acceptor `start_http` throws
      if s.running ∨ s.acceptors = [] then none else some { s with running := true }
  | .pick a =>
      if s.running ∧ s.IsOpen a ∧ s.waiting.lookup a = none then
        let (w, s) := s.getWorker n
        some { s with waiting := s.waiting ++ [(a, w)] }
      else none
  | .accept a =>
      (s.waiting.lookup a).map fun w =>
        { s with waiting := s.waiting.erase (a, w), sessions := s.sessions ++ [w] }
  | .fail a =>
      (s.waiting.lookup a).map fun w =>
        { s with waiting := s.waiting.erase (a, w), spent := s.spent ++ [w] }
  | .stop w => if s.running then some { s with stopped := w :: s.stopped } else none

/-- The server from its construction on. -/
def dealingMachine (n : Nat) : Machine Dealing DealingAction where
  init := { next := 0, acceptors := [], running := false, stopped := [], waiting := [],
            sessions := [], spent := [] }
  step := dealingStep n

/-! ## §2. Every pick is accounted for. -/

/-- The picks: those of the sessions, the spent ones and those that wait. -/
def Dealing.picks (s : Dealing) : List Nat :=
  s.sessions ++ s.spent ++ s.waiting.map Prod.snd

/-- The picks of the worker `w` that have served no session. -/
def Dealing.unused (s : Dealing) (w : Nat) : Nat :=
  s.spent.count w + (s.waiting.map Prod.snd).count w

/-- The picks are those the counter has dealt. -/
def Dealing.Dealt (n : Nat) (s : Dealing) : Prop :=
  ∃ k, s.next = UInt64.ofNat k ∧ s.picks.Perm (deal counterRange n k)

theorem mem_of_lookup {l : List (Nat × Nat)} {a w : Nat} (h : l.lookup a = some w) :
    (a, w) ∈ l := by
  obtain ⟨l₁, l₂, rfl, -⟩ := List.lookup_eq_some_iff.mp h
  simp

/-- A pick that stops waiting is among the picks as before. -/
theorem perm_erase {l : List (Nat × Nat)} {a w : Nat} (h : l.lookup a = some w) :
    (w :: (l.erase (a, w)).map Prod.snd).Perm (l.map Prod.snd) :=
  ((List.perm_cons_erase (mem_of_lookup h)).map Prod.snd).symm

/-- The pick of `get_worker` is the next one dealt. -/
theorem Dealing.Dealt.getWorker {n : Nat} {s t : Dealing} (hs : s.Dealt n)
    (hnext : t.next = s.next + 1) (hpicks : t.picks.Perm (s.picks ++ [s.next.toNat % n])) :
    t.Dealt n := by
  obtain ⟨k, hk, hperm⟩ := hs
  refine ⟨k + 1, by rw [hnext, hk, UInt64.ofNat_add]; rfl, ?_⟩
  rw [hk, UInt64.toNat_ofNat'] at hpicks
  rw [deal_succ]
  exact hpicks.trans (hperm.append_right _)

theorem pick_inv_init (n : Nat) : (dealingMachine n).init.Dealt n := ⟨0, rfl, .refl _⟩

/-- **One step** deals at most one pick, and loses none. -/
theorem pick_inv_step (n : Nat) (s : Dealing) (x : DealingAction) (t : Dealing)
    (hs : s.Dealt n) (h : dealingStep n s x = some t) : t.Dealt n := by
  cases x with
  | endpoint ok =>
      simp only [dealingStep, Dealing.getWorker] at h
      split at h
      · cases h
      · cases h
        refine hs.getWorker rfl ?_
        simp only [Dealing.picks, List.append_assoc]
        exact (List.perm_append_comm.append_left _).append_left _
  | start =>
      simp only [dealingStep] at h
      split at h
      · cases h
      · cases h
        exact hs
  | pick a =>
      simp only [dealingStep, Dealing.getWorker] at h
      split at h
      · cases h
        refine hs.getWorker rfl ?_
        simp [Dealing.picks]
      · cases h
  | accept a =>
      obtain ⟨w, hw, rfl⟩ := Option.map_eq_some_iff.mp h
      obtain ⟨k, hk, hperm⟩ := hs
      refine ⟨k, hk, .trans ?_ hperm⟩
      -- the pick moves from those that wait to the sessions
      calc s.sessions ++ [w] ++ s.spent ++ (s.waiting.erase (a, w)).map Prod.snd
          = s.sessions ++ ([w] ++ s.spent ++ (s.waiting.erase (a, w)).map Prod.snd) := by simp
        List.Perm _ (s.sessions ++ (s.spent ++ [w] ++ (s.waiting.erase (a, w)).map Prod.snd)) :=
            (List.perm_append_comm.append_right _).append_left _
        _ = s.sessions ++ s.spent ++ (w :: (s.waiting.erase (a, w)).map Prod.snd) := by simp
        List.Perm _ (s.sessions ++ s.spent ++ s.waiting.map Prod.snd) :=
            (perm_erase hw).append_left _
  | fail a =>
      obtain ⟨w, hw, rfl⟩ := Option.map_eq_some_iff.mp h
      obtain ⟨k, hk, hperm⟩ := hs
      refine ⟨k, hk, .trans ?_ hperm⟩
      calc s.sessions ++ (s.spent ++ [w]) ++ (s.waiting.erase (a, w)).map Prod.snd
          = s.sessions ++ s.spent ++ (w :: (s.waiting.erase (a, w)).map Prod.snd) := by simp
        List.Perm _ (s.sessions ++ s.spent ++ s.waiting.map Prod.snd) :=
            (perm_erase hw).append_left _
  | stop w =>
      simp only [dealingStep] at h
      split at h
      · cases h
        exact hs
      · cases h

theorem pick_inv_reach {n : Nat} {s : Dealing} (h : (dealingMachine n).Reach s) : s.Dealt n :=
  Machine.ReachWhen.invariant (pick_inv_init n) (fun s x t hs _ ht => pick_inv_step n s x t hs ht) h

/-- What the counter dealt a worker is its sessions and its unused picks. -/
theorem count_picks (s : Dealing) (w : Nat) : s.picks.count w = s.sessions.count w + s.unused w := by
  simp only [Dealing.picks, Dealing.unused, List.count_append]
  omega

/-! ## §3. How even the sessions are. -/

/-- **The bound over every run**, the counter wrapping or not. -/
theorem sessions_le {n : Nat} {s : Dealing} (h : (dealingMachine n).Reach s) {w w' : Nat}
    (hw : w < n) (hw' : w' < n) :
    s.sessions.count w ≤
      s.sessions.count w' + s.unused w' + 1 + s.picks.length / counterRange := by
  obtain ⟨k, -, hperm⟩ := pick_inv_reach h
  have hlen : s.picks.length = k := by rw [hperm.length_eq, length_deal]
  have hdeal := count_deal_le (M := counterRange) (by norm_num) hw hw' k
  rw [← hperm.count_eq, ← hperm.count_eq, count_picks, count_picks] at hdeal
  rw [hlen]
  omega

/-- A number of workers that divides the range keeps the turn at the wrap. -/
theorem sessions_le_of_dvd {n : Nat} (hdvd : n ∣ counterRange) {s : Dealing}
    (h : (dealingMachine n).Reach s) {w w' : Nat} (hw : w < n) (hw' : w' < n) :
    s.sessions.count w ≤ s.sessions.count w' + s.unused w' + 1 := by
  obtain ⟨k, -, hperm⟩ := pick_inv_reach h
  have hdeal := count_deal_le_of_dvd hdvd hw hw' k
  rw [← hperm.count_eq, ← hperm.count_eq, count_picks, count_picks] at hdeal
  omega

/-- One endpoint, and `j` connections accepted one after the other. -/
theorem exists_accepted (n j : Nat) :
    ∃ s, (dealingMachine n).Reach s ∧ s.acceptors = [0] ∧ s.running = true ∧ s.stopped = [] ∧
      s.waiting = [] ∧ s.spent = [0] ∧ s.sessions.length = j := by
  induction j with
  | zero =>
      refine ⟨⟨1, [0], true, [], [], [], [0]⟩, ?_, rfl, rfl, rfl, rfl, rfl, rfl⟩
      refine Machine.reach_iff_run.mpr ⟨[.endpoint true, .start], ?_⟩
      simp [Machine.run, dealingMachine, dealingStep, Dealing.getWorker]
  | succ j ih =>
      obtain ⟨s, hs, hacc, hrun, hstop, hwait, hspent, hlen⟩ := ih
      have hopen : s.IsOpen 0 := ⟨0, by simp [hacc], by simp [hstop]⟩
      have hstep : (dealingMachine n).runFrom s [.pick 0, .accept 0] =
          some { s with next := s.next + 1, sessions := s.sessions ++ [s.next.toNat % n] } := by
        simp [dealingMachine, dealingStep, Dealing.getWorker, hopen, hrun, hwait]
      exact ⟨_, hs.runFrom hstep, hacc, hrun, hstop, hwait, hspent, by simp [hlen]⟩

/-- Otherwise three rounds of the counter take the workers apart: one is made
    up for by the pick of the endpoint. -/
theorem exists_uneven {n : Nat} (hn : 0 < n) (hdvd : ¬ n ∣ counterRange) :
    ∃ s, (dealingMachine n).Reach s ∧
      s.sessions.count (n - 1) + s.unused (n - 1) + 1 < s.sessions.count 0 := by
  have hne : n ≠ 1 := fun h => hdvd (h ▸ one_dvd _)
  obtain ⟨s, hs, -, -, -, hwait, hspent, hlen⟩ := exists_accepted n (3 * counterRange - 1)
  refine ⟨s, hs, ?_⟩
  obtain ⟨k, -, hperm⟩ := pick_inv_reach hs
  have hk : k = 3 * counterRange := by
    have hkl := hperm.length_eq
    have hpos : 0 < counterRange := by norm_num
    simp only [Dealing.picks, hspent, hwait, List.length_append, hlen, length_deal,
      List.length_singleton, List.map_nil, List.length_nil] at hkl
    omega
  have hdeal := count_deal_mul hn hdvd 3
  rw [← hk, ← hperm.count_eq, ← hperm.count_eq, count_picks, count_picks] at hdeal
  have hfirst : s.unused 0 = 1 := by simp [Dealing.unused, hspent, hwait]
  omega

/-- The sessions are dealt as evenly as the counter allows. -/
theorem dealt_evenly_iff {n : Nat} (hn : 0 < n) :
    (∀ s, (dealingMachine n).Reach s → ∀ w w', w < n → w' < n →
      s.sessions.count w ≤ s.sessions.count w' + s.unused w' + 1) ↔ n ∣ counterRange := by
  refine ⟨fun h => ?_, fun hdvd s hs w w' => sessions_le_of_dvd hdvd hs⟩
  by_contra hdvd
  obtain ⟨s, hs, hlt⟩ := exists_uneven hn hdvd
  exact absurd (h s hs 0 (n - 1) hn (by omega)) (by omega)

/-- **The sessions are dealt in turn.**  Whatever the option says and however
    the acceptors interleave, fail or are closed: two workers differ by the
    picks of the one that served no session, by one, and by one for each time
    the counter has wrapped; the wraps cost nothing exactly if the number of
    workers is a power of two. -/
theorem sessions_dealt_evenly (option : Option Int) (online : Int) :
    (∀ s, (dealingMachine (numWorkers option online)).Reach s →
      ∀ w w', w < numWorkers option online → w' < numWorkers option online →
        s.sessions.count w ≤
          s.sessions.count w' + s.unused w' + 1 + s.picks.length / 2 ^ 64) ∧
    ((∀ s, (dealingMachine (numWorkers option online)).Reach s →
      ∀ w w', w < numWorkers option online → w' < numWorkers option online →
        s.sessions.count w ≤ s.sessions.count w' + s.unused w' + 1) ↔
      numWorkers option online ∣ 2 ^ 64) :=
  ⟨fun _ hs _ _ hw hw' => sessions_le hs hw hw',
    dealt_evenly_iff (numWorkers_pos option online)⟩

/-- Two workers, three connections, the third still waited for. -/
example : ((dealingMachine 2).run
    [.endpoint true, .start, .pick 0, .accept 0, .pick 0, .fail 0, .pick 0]).map
      (fun s => (s.sessions, s.spent, s.waiting)) = some ([1], [0, 0], [(0, 1)]) := by decide

end Petrel
