/-
  Petrel.Tools.StringSplit — `string.split` of the Lua tools.

  The loop cuts the string at the next separator and goes on with what is
  behind it, until there is no separator left or the budget is used up.  The
  rest of the string is then added with a position of the string that has just
  been cut off.  The budget is a number of Lua, a double, from which one is
  taken in every round.

  Main results:
    * `splitLoop_pieces`, `splitLoop_budget` — what the loop returns.
    * `split_exact_iff`      — the calls that lose nothing of the string.
    * `budget_loses_bytes`   — and one that does.
    * `split_terminates_iff` — the calls that come to an end.
    * `empty_separator_loops` — and one that does not.
-/

import Petrel.Framework.Rounding
import Petrel.Lua.Strings

namespace Petrel

open Framework

/-! ## §1. The function. -/

/-- A number of Lua that is finite. -/
structure Double where
  val : ℚ
  isFloat : IsFloat 53 val

/-- `q - 1` -/
def Double.pred (q : Double) : Double := ⟨countDown 53 q.val, isFloat_roundTo (by decide) _⟩

/-- A natural number that is counted exactly. -/
def Double.ofNat (n : ℕ) (h : n ≤ 2 ^ 53) : Double := ⟨n, isFloat_natCast (by decide) h⟩

/-- The default of `maxsplit`. -/
def Double.negOne : Double := ⟨-1, -1, 0, by norm_num, by norm_num⟩

/-- The table that is returned. -/
structure SplitRet where
  parts : List Bytes := []
  count : Nat := 0
  deriving DecidableEq

/-- `table.insert(ret, part)`, and one more in the count. -/
def SplitRet.insert (ret : SplitRet) (part : Bytes) : SplitRet :=
  ⟨ret.parts ++ [part], ret.count + 1⟩

/-- The loop of `string.split`. -/
def splitLoop (pattern : Bytes) : Nat → Bytes → Double → SplitRet → Option SplitRet
  | 0, _, _, _ => none
  | fuel + 1, s, maxsplit, ret =>
      if maxsplit.val ≠ 0 then
        let pos : Int := 1
        match strFind s pattern 1 with
        | some found =>
            let ret := ret.insert (strSub s pos (found - 1))
            let pos := found + pattern.length
            let s := strSub s pos (-1)
            let maxsplit := maxsplit.pred
            -- `pos` is a position of the string before the cut
            let ret := if maxsplit.val = 0 then
                ret.insert (strSub s (pos - pattern.length - 1) (-1))
              else ret
            splitLoop pattern fuel s maxsplit ret
        | none => some (ret.insert (strSub s pos (-1)))
      else some ret

/-- `string.split(s, pattern, maxsplit)`. -/
def stringSplit (fuel : Nat) (s : Bytes) (pattern : Option Bytes) (maxsplit : Option Double) :
    Option SplitRet :=
  splitLoop (pattern.getD (bytes " ")) fuel s (maxsplit.getD .negOne) {}

/-! ## §2. One round. -/

theorem splitLoop_done (p s : Bytes) (fuel : Nat) {q : Double} (hq : q.val = 0) (ret : SplitRet) :
    splitLoop p (fuel + 1) s q ret = some ret := by
  unfold splitLoop
  rw [if_neg (not_not.mpr hq)]

/-- Without a separator the rest of the string is the last part. -/
theorem splitLoop_last {p s : Bytes} (hs : ¬ p <:+: s) (fuel : Nat) {q : Double} (hq : q.val ≠ 0)
    (ret : SplitRet) : splitLoop p (fuel + 1) s q ret = some (ret.insert s) := by
  have hfind : strFind s p 1 = none := by
    rw [strFind_one, firstOccurrence_eq_none_iff.mpr hs]
    rfl
  have hrest : strSub s 1 (-1) = s := strSub_from s 1
  unfold splitLoop
  rw [if_pos hq, hfind]
  exact congrArg (fun rest => some (ret.insert rest)) hrest

/-- **One cut**: the part in front of the separator is added, and with the last
cut what is left of the rest. -/
theorem splitLoop_cut {p a rest : Bytes} (hcut : FirstCut p a rest) (fuel : Nat) {q : Double}
    (hq : q.val ≠ 0) (ret : SplitRet) :
    splitLoop p (fuel + 1) (a ++ p ++ rest) q ret =
      splitLoop p fuel rest q.pred
        (if q.pred.val = 0 then (ret.insert a).insert (rest.drop (a.length - 1))
          else ret.insert a) := by
  have hfind : strFind (a ++ p ++ rest) p 1 = some (a.length + 1 : Int) := by
    rw [strFind_one, firstOccurrence_cut hcut]
    rfl
  have hpart : strSub (a ++ p ++ rest) 1 ((a.length + 1 : Int) - 1) = a := by
    rw [Int.add_sub_cancel, strSub_upto _ (by simp), List.append_assoc, List.take_left]
  have hrest : strSub (a ++ p ++ rest) ((a.length + 1 : Int) + p.length) (-1) = rest := by
    have hpos : (a.length + 1 : Int) + p.length = ((a ++ p).length + 1 : Nat) := by
      rw [List.length_append]
      omega
    rw [hpos, strSub_from, Nat.add_sub_cancel, List.drop_left]
  have hleft : strSub rest ((a.length + 1 : Int) + p.length - p.length - 1) (-1) =
      rest.drop (a.length - 1) := by
    rw [Int.add_sub_cancel, Int.add_sub_cancel, strSub_from]
  rw [splitLoop, if_pos hq]
  simp only [hfind, hpart, hrest, hleft]

/-! ## §3. The whole loop. -/

/-- The rounds after which a budget is used up. -/
abbrev Double.UsedUp (q : Double) (k : ℕ) : Prop := Framework.UsedUp 53 q.val k

/-- **A budget that is not used up** returns the pieces. -/
theorem splitLoop_pieces {p s : Bytes} {ps : List Bytes} (h : Pieces p s ps) {q : Double}
    (hq : ∀ k, q.UsedUp k → ps.length ≤ k) (ret : SplitRet) :
    ∃ fuel, splitLoop p fuel s q ret = some ⟨ret.parts ++ ps, ret.count + ps.length⟩ := by
  induction h generalizing q ret with
  | last hs =>
      have hq0 : q.val ≠ 0 := fun hzero =>
        absurd (hq 0 (usedUp_zero_iff.mpr hzero)) (Nat.not_succ_le_zero 0)
      exact ⟨1, splitLoop_last hs 0 hq0 ret⟩
  | @cut a rest ps hcut hps ih =>
      have hq0 : q.val ≠ 0 := fun hzero =>
        absurd (hq 0 (usedUp_zero_iff.mpr hzero)) (Nat.not_succ_le_zero ps.length)
      have hq' : ∀ k, q.pred.UsedUp k → ps.length ≤ k := fun k hk =>
        Nat.le_of_succ_le_succ (hq (k + 1) (usedUp_succ_iff.mpr ⟨hq0, hk⟩))
      have hbudget : q.pred.val ≠ 0 := fun hzero =>
        absurd (hq' 0 (usedUp_zero_iff.mpr hzero)) (Nat.not_le_of_lt (List.length_pos_of_ne_nil hps.ne_nil))
      obtain ⟨fuel, hrun⟩ := ih hq' (ret.insert a)
      refine ⟨fuel + 1, ?_⟩
      rw [splitLoop_cut hcut fuel hq0, if_neg hbudget, hrun]
      simp [SplitRet.insert]
      omega

/-- **A budget that is used up** returns as many pieces, and of the rest what the
position leaves. -/
theorem splitLoop_budget {p s : Bytes} {ps : List Bytes} (h : Pieces p s ps) {q : Double} {k : ℕ}
    (hq : q.UsedUp (k + 1)) (hk : k + 1 < ps.length) (ret : SplitRet) :
    ∃ fuel, splitLoop p fuel s q ret =
      some ⟨ret.parts ++ (ps.take (k + 1) ++
        [(p.intercalate (ps.drop (k + 1))).drop (ps[k].length - 1)]), ret.count + (k + 2)⟩ := by
  induction h generalizing q k ret with
  | last hs => simp at hk
  | @cut a rest ps hcut hps ih =>
      obtain ⟨hq0, hrest⟩ := usedUp_succ_iff.mp hq
      have hpred : q.pred.UsedUp k := hrest
      cases k with
      | zero =>
          have hzero : q.pred.val = 0 := usedUp_zero_iff.mp hpred
          refine ⟨2, ?_⟩
          rw [splitLoop_cut hcut 1 hq0, if_pos hzero, splitLoop_done _ _ _ hzero]
          simp [SplitRet.insert, hps.intercalate]
      | succ k =>
          have hne : q.pred.val ≠ 0 := (usedUp_succ_iff.mp hpred).1
          obtain ⟨fuel, hrun⟩ := ih hpred (Nat.lt_of_succ_lt_succ hk) (ret.insert a)
          refine ⟨fuel + 1, ?_⟩
          rw [splitLoop_cut hcut fuel hq0, if_neg hne, hrun]
          simp [SplitRet.insert]
          omega

/-! ## §4. Nothing is lost. -/

theorem intercalate_append {α : Type*} (p : List α) {xs ys : List (List α)} (hxs : xs ≠ [])
    (hys : ys ≠ []) : p.intercalate (xs ++ ys) = p.intercalate xs ++ p ++ p.intercalate ys := by
  induction xs with
  | nil => exact absurd rfl hxs
  | cons x xs ih =>
      cases xs with
      | nil =>
          rw [List.singleton_append, List.intercalate_cons_of_ne_nil hys, List.intercalate_singleton]
      | cons x' xs =>
          have hne : x' :: xs ++ ys ≠ [] := List.append_ne_nil_of_left_ne_nil (List.cons_ne_nil _ _) _
          rw [List.cons_append, List.intercalate_cons_of_ne_nil hne, ih (List.cons_ne_nil _ _),
            List.intercalate_cons_cons]
          simp only [List.append_assoc]

/-- A split that loses nothing. -/
structure SplitExact (s p : Bytes) (maxsplit : Option Double) (ret : SplitRet) : Prop where
  joined : p.intercalate ret.parts = s
  count : ret.count = ret.parts.length
  bounded : ∀ q, maxsplit = some q → 1 ≤ q.val → (ret.parts.length : ℚ) ≤ q.val + 1
  free : ∀ part ∈ ret.parts.dropLast, ¬ p <:+: part
  complete : (∀ q, maxsplit = some q → q.val < 0) → ∀ part ∈ ret.parts, ¬ p <:+: part

/-- The cuts that a budget allows for, where it does so at all: a whole number up
to `2 ^ 53` is counted exactly, `2 ^ 53 + 2` goes down by two first. -/
def Double.Cuts (q : Double) (k : ℕ) : Prop :=
  (q.val = k ∧ k ≤ 2 ^ 53) ∨ (q.val = 2 ^ 53 + 2 ∧ k = 2 ^ 53 + 1)

theorem usedUp_iff_cuts (q : Double) (k : ℕ) : q.UsedUp k ↔ q.Cuts k :=
  usedUp_iff (by decide) q.isFloat k

/-- The budget reaches beyond the last separator, or the part in front of the
last cut has at most one byte, or nothing is behind this cut. -/
def SplitSafe (ps : List Bytes) (maxsplit : Option Double) : Prop :=
  ∀ q, maxsplit = some q → 0 < q.val →
    ((ps.length : ℚ) ≤ q.val + 1 ∧ ∀ k, q.Cuts k → ps.length ≤ k) ∨
    ∃ k : ℕ, q.Cuts (k + 1) ∧ k + 1 < ps.length ∧
      ((ps.getD k []).length ≤ 1 ∨ ps.drop (k + 1) = [[]])

theorem intercalate_eq_nil {p : Bytes} (hp : p ≠ []) {ps : List Bytes} (hps : ps ≠ []) :
    p.intercalate ps = [] ↔ ps = [[]] := by
  match ps, hps with
  | [a], _ => simp
  | a :: b :: ps, _ => simp [hp]

theorem drop_eq_self_iff {n : ℕ} {w : Bytes} : w.drop n = w ↔ n = 0 ∨ w = [] := by
  constructor
  · intro h
    have hlength := congrArg List.length h
    rw [List.length_drop] at hlength
    by_cases hw : w = []
    · exact .inr hw
    · have := List.length_pos_of_ne_nil hw
      exact .inl (by omega)
  · rintro (rfl | rfl)
    · rfl
    · exact List.drop_nil

/-- A budget allows for as many cuts as it says, or one less. -/
theorem Double.Cuts.bounds {q : Double} {k : ℕ} (h : q.Cuts k) : (k : ℚ) ≤ q.val ∧ q.val ≤ k + 1 := by
  rcases h with ⟨hq, -⟩ | ⟨hq, rfl⟩
  · rw [hq]
    constructor <;> linarith
  · rw [hq]
    push_cast
    constructor <;> linarith

theorem Double.Cuts.unique {q : Double} {k k' : ℕ} (h : q.Cuts k) (h' : q.Cuts k') : k = k' :=
  UsedUp.unique ((usedUp_iff_cuts q k).mpr h) ((usedUp_iff_cuts q k').mpr h')

/-- **The budget is used up**: the rest is whole just if the part in front of it
has at most one byte, or there is no rest. -/
theorem exact_budget_iff {p s : Bytes} (hp : p ≠ []) {ps : List Bytes} (h : Pieces p s ps)
    {q : Double} {k : ℕ} (hq : q.Cuts (k + 1)) (hk : k + 1 < ps.length) :
    SplitExact s p (some q) ⟨ps.take (k + 1) ++
        [(p.intercalate (ps.drop (k + 1))).drop (ps[k].length - 1)], k + 2⟩ ↔
      ps[k].length ≤ 1 ∨ ps.drop (k + 1) = [[]] := by
  have htake : ps.take (k + 1) ≠ [] := by
    rw [ne_eq, List.take_eq_nil_iff]
    exact fun hor => hor.elim (fun h => nomatch h) h.ne_nil
  have hdrop : ps.drop (k + 1) ≠ [] := by
    rw [ne_eq, List.drop_eq_nil_iff]
    omega
  have hwhole : p.intercalate (ps.take (k + 1)) ++ p ++ p.intercalate (ps.drop (k + 1)) = s := by
    rw [← intercalate_append p htake hdrop, List.take_append_drop, h.intercalate]
  have hjoined : p.intercalate (ps.take (k + 1) ++
      [(p.intercalate (ps.drop (k + 1))).drop (ps[k].length - 1)]) = s ↔
        ps[k].length ≤ 1 ∨ ps.drop (k + 1) = [[]] := by
    rw [intercalate_append p htake (List.cons_ne_nil _ _), List.intercalate_singleton]
    conv_lhs => rw [← hwhole]
    rw [List.append_cancel_left_eq, drop_eq_self_iff, Nat.sub_eq_zero_iff_le,
      intercalate_eq_nil hp hdrop]
  have hlength : (ps.take (k + 1)).length = k + 1 := by
    rw [List.length_take]
    omega
  have hcuts := hq.bounds.1
  rw [← hjoined]
  constructor
  · exact fun h => h.joined
  · intro hjoin
    refine ⟨hjoin, ?_, ?_, ?_, ?_⟩
    · simp [hlength]
    · intro q' hq' _
      obtain rfl := Option.some.inj hq'
      rw [List.length_append, hlength, List.length_singleton]
      push_cast at hcuts ⊢
      linarith
    · rw [List.dropLast_concat]
      exact fun part hpart => h.free hp part (List.mem_of_mem_take hpart)
    · intro hneg
      have hzero : (0 : ℚ) ≤ (k + 1 : ℕ) := Nat.cast_nonneg _
      exact absurd (hneg _ rfl) (not_lt_of_ge (hzero.trans hcuts))

/-- **The budget is not used up**: the pieces are no more than it allows. -/
theorem exact_pieces_iff {p s : Bytes} (hp : p ≠ []) {ps : List Bytes} (h : Pieces p s ps)
    (maxsplit : Option Double) : SplitExact s p maxsplit ⟨ps, ps.length⟩ ↔
      ∀ q, maxsplit = some q → 1 ≤ q.val → (ps.length : ℚ) ≤ q.val + 1 := by
  constructor
  · exact fun h => h.bounded
  · intro hbounded
    exact ⟨h.intercalate, rfl, hbounded,
      fun part hpart => h.free hp part (List.mem_of_mem_dropLast hpart), fun _ => h.free hp⟩

theorem safe_budget_iff {ps : List Bytes} {q : Double} {k : ℕ} (hq : q.Cuts (k + 1))
    (hk : k + 1 < ps.length) :
    SplitSafe ps (some q) ↔ ps[k].length ≤ 1 ∨ ps.drop (k + 1) = [[]] := by
  have hget : ps.getD k [] = ps[k] := List.getD_eq_getElem _ _ (by omega)
  have hpos : 0 < q.val := lt_of_lt_of_le (Nat.cast_pos.mpr (Nat.succ_pos k)) hq.bounds.1
  rw [← hget]
  constructor
  · intro h
    rcases h _ rfl hpos with ⟨-, hfew⟩ | ⟨j, hj, -, hsafe⟩
    · exact absurd (hfew _ hq) (Nat.not_le_of_lt hk)
    · obtain rfl : k = j := Nat.succ_injective (hq.unique hj)
      exact hsafe
  · intro hsafe q' hq' _
    obtain rfl := Option.some.inj hq'
    exact .inr ⟨k, hq, hk, hsafe⟩

theorem safe_pieces_iff {ps : List Bytes} {maxsplit : Option Double}
    (hmax : ∀ q, maxsplit = some q → q.val < 0 ∨ 1 ≤ q.val)
    (hbudget : ∀ q k, maxsplit = some q → q.Cuts k → ps.length ≤ k) :
    SplitSafe ps maxsplit ↔ ∀ q, maxsplit = some q → 1 ≤ q.val → (ps.length : ℚ) ≤ q.val + 1 := by
  constructor
  · intro h q hq hpos
    rcases h q hq (by linarith) with ⟨hle, -⟩ | ⟨k, hk, hlt, -⟩
    · exact hle
    · exact absurd (hbudget q _ hq hk) (Nat.not_le_of_lt hlt)
  · intro h q hq hpos
    have hone : 1 ≤ q.val := (hmax q hq).resolve_left (not_lt_of_gt hpos)
    exact .inl ⟨h q hq hone, fun k hk => hbudget q k hq hk⟩

/-- **THE SPLIT LOSES NOTHING** just if the budget reaches beyond the last
separator, or the part in front of the last cut has at most one byte, or nothing
is behind this cut. -/
theorem split_exact_iff (s : Bytes) {p : Bytes} (hp : p ≠ []) {maxsplit : Option Double}
    (hmax : ∀ q, maxsplit = some q → q.val < 0 ∨ 1 ≤ q.val) :
    ∃ ps, Pieces p s ps ∧ ∃ fuel ret, stringSplit fuel s (some p) maxsplit = some ret ∧
      (SplitExact s p maxsplit ret ↔ SplitSafe ps maxsplit) := by
  obtain ⟨ps, hps⟩ := exists_pieces hp s
  refine ⟨ps, hps, ?_⟩
  by_cases hbudget : ∃ q k, maxsplit = some q ∧ q.Cuts (k + 1) ∧ k + 1 < ps.length
  · obtain ⟨q, k, rfl, hq, hk⟩ := hbudget
    obtain ⟨fuel, hrun⟩ := splitLoop_budget hps ((usedUp_iff_cuts q _).mpr hq) hk {}
    rw [List.nil_append, Nat.zero_add] at hrun
    refine ⟨fuel, _, hrun, ?_⟩
    rw [exact_budget_iff hp hps hq hk, safe_budget_iff hq hk]
  · have hcuts : ∀ q k, maxsplit = some q → q.Cuts k → ps.length ≤ k := by
      intro q k hq hk
      cases k with
      | zero =>
          have hzero : q.val = 0 := usedUp_zero_iff.mp ((usedUp_iff_cuts q 0).mpr hk)
          rcases hmax q hq with h | h <;> linarith
      | succ k => exact Nat.le_of_not_lt fun hlt => hbudget ⟨q, k, hq, hk, hlt⟩
    have hnever : ∀ k, (maxsplit.getD .negOne).UsedUp k → ps.length ≤ k := by
      intro k hk
      rw [usedUp_iff_cuts] at hk
      cases maxsplit with
      | none =>
          have hle : (-1 : ℚ) = Double.negOne.val := rfl
          have hnonneg : (0 : ℚ) ≤ k := Nat.cast_nonneg k
          have hk' : (k : ℚ) ≤ Double.negOne.val := hk.bounds.1
          rw [← hle] at hk'
          linarith
      | some q => exact hcuts q k rfl hk
    obtain ⟨fuel, hrun⟩ := splitLoop_pieces hps hnever {}
    rw [List.nil_append, Nat.zero_add] at hrun
    refine ⟨fuel, _, hrun, ?_⟩
    rw [exact_pieces_iff hp hps, safe_pieces_iff hmax hcuts]

/-- `string.split("a,b", ",")` -/
theorem split_exact_iff_plain :
    ∃ ps, Pieces (bytes ",") (bytes "a,b") ps ∧ ∃ fuel ret,
      stringSplit fuel (bytes "a,b") (some (bytes ",")) none = some ret ∧
      SplitExact (bytes "a,b") (bytes ",") none ret := by
  obtain ⟨ps, hps, fuel, ret, hrun, hexact⟩ :=
    split_exact_iff (bytes "a,b") (p := bytes ",") (by decide)
      (fun q (hq : (none : Option Double) = some q) => nomatch hq)
  exact ⟨ps, hps, fuel, ret, hrun, hexact.mpr (fun q hq => nomatch hq)⟩

/-- **`string.split("foo,bar,baz", ",", 1)` loses bytes**: the two in front of
the position of the first cut. -/
theorem budget_loses_bytes :
    ∃ fuel ret, stringSplit fuel (bytes "foo,bar,baz") (some (bytes ","))
        (some (.ofNat 1 (by decide))) = some ret ∧
      ret.parts = [bytes "foo", bytes "r,baz"] ∧
      ¬ SplitExact (bytes "foo,bar,baz") (bytes ",") (some (.ofNat 1 (by decide))) ret := by
  refine ⟨2, ⟨[bytes "foo", bytes "r,baz"], 2⟩, by decide +kernel, rfl, ?_⟩
  intro h
  exact absurd h.joined (by decide)

/-! ## §5. The end of the loop. -/

/-- An empty separator is found where the loop already is. -/
theorem splitLoop_empty (s : Bytes) {q : Double} (hq : q.val ≠ 0) (ret : SplitRet) :
    ∃ ret', ∀ fuel, splitLoop [] (fuel + 1) s q ret = splitLoop [] fuel s q.pred ret' := by
  have hcut : FirstCut [] [] s := fun i hi => absurd hi (Nat.not_lt_zero i)
  exact ⟨_, fun fuel => splitLoop_cut hcut fuel hq ret⟩

/-- **An empty separator** ends the loop only through the budget. -/
theorem splitLoop_empty_terminates_iff (s : Bytes) (q : Double) (ret : SplitRet) :
    (∃ fuel ret', splitLoop [] fuel s q ret = some ret') ↔ ∃ k, q.UsedUp k := by
  constructor
  · rintro ⟨fuel, ret', hrun⟩
    induction fuel generalizing q ret with
    | zero => exact nomatch hrun
    | succ fuel ih =>
        by_cases hq : q.val = 0
        · exact ⟨0, usedUp_zero_iff.mpr hq⟩
        · obtain ⟨ret₁, hstep⟩ := splitLoop_empty s hq ret
          rw [hstep] at hrun
          obtain ⟨k, hk⟩ := ih q.pred ret₁ hrun
          exact ⟨k + 1, usedUp_succ_iff.mpr ⟨hq, hk⟩⟩
  · rintro ⟨k, hk⟩
    induction k generalizing q ret with
    | zero => exact ⟨1, ret, splitLoop_done _ _ _ (usedUp_zero_iff.mp hk) ret⟩
    | succ k ih =>
        obtain ⟨hq, hpred⟩ := usedUp_succ_iff.mp hk
        obtain ⟨ret₁, hstep⟩ := splitLoop_empty s hq ret
        obtain ⟨fuel, ret', hrun⟩ := ih q.pred ret₁ hpred
        exact ⟨fuel + 1, ret', by rw [hstep, hrun]⟩

/-- Any other separator makes the rest shorter with every cut. -/
theorem splitLoop_terminates {p : Bytes} (hp : p ≠ []) (s : Bytes) (q : Double) (ret : SplitRet) :
    ∃ fuel ret', splitLoop p fuel s q ret = some ret' := by
  obtain ⟨ps, hps⟩ := exists_pieces hp s
  induction hps generalizing q ret with
  | @last s hs =>
      by_cases hq : q.val = 0
      · exact ⟨1, ret, splitLoop_done _ _ _ hq ret⟩
      · exact ⟨1, _, splitLoop_last hs 0 hq ret⟩
  | @cut a rest ps hcut hps ih =>
      by_cases hq : q.val = 0
      · exact ⟨1, ret, splitLoop_done _ _ _ hq ret⟩
      · obtain ⟨fuel, ret', hrun⟩ := ih q.pred
          (if q.pred.val = 0 then (ret.insert a).insert (rest.drop (a.length - 1)) else ret.insert a)
        exact ⟨fuel + 1, ret', by rw [splitLoop_cut hcut fuel hq, hrun]⟩

/-- A budget allows for some number of cuts just if it is a natural number up to
`2 ^ 53 + 2`. -/
theorem exists_cuts_iff (q : Double) : (∃ k, q.Cuts k) ↔ ∃ m : ℕ, q.val = m ∧ m ≤ 2 ^ 53 + 2 := by
  constructor
  · rintro ⟨k, ⟨hq, hk⟩ | ⟨hq, -⟩⟩
    · exact ⟨k, hq, by omega⟩
    · exact ⟨2 ^ 53 + 2, by rw [hq]; norm_num, le_rfl⟩
  · rintro ⟨m, hq, hm⟩
    rcases Nat.lt_or_ge (2 ^ 53) m with hgt | hle
    · -- the number in between is no double
      obtain ⟨n, hn⟩ := q.isFloat.even_of_gt (by rw [hq]; exact_mod_cast hgt)
      have heven : (m : ℤ) = 2 * n := by exact_mod_cast hq.symm.trans hn
      obtain rfl : m = 2 ^ 53 + 2 := by omega
      exact ⟨2 ^ 53 + 1, .inr ⟨by rw [hq]; norm_num, rfl⟩⟩
    · exact ⟨m, .inl ⟨hq, hle⟩⟩

/-- **THE SPLIT COMES TO AN END** just if the separator is not empty, or the
budget is a natural number up to `2 ^ 53 + 2`. -/
theorem split_terminates_iff (s : Bytes) (pattern : Option Bytes) (maxsplit : Option Double) :
    (∃ fuel ret, stringSplit fuel s pattern maxsplit = some ret) ↔
      pattern ≠ some [] ∨ ∃ (q : Double) (m : ℕ), maxsplit = some q ∧ q.val = m ∧ m ≤ 2 ^ 53 + 2 := by
  by_cases hempty : pattern = some []
  · subst hempty
    have hbudget : (∃ k, (maxsplit.getD .negOne).UsedUp k) ↔
        ∃ (q : Double) (m : ℕ), maxsplit = some q ∧ q.val = m ∧ m ≤ 2 ^ 53 + 2 := by
      simp only [usedUp_iff_cuts, exists_cuts_iff]
      cases maxsplit with
      | none =>
          refine iff_of_false ?_ (fun ⟨q, m, hq, _⟩ => nomatch hq)
          rintro ⟨m, hm, -⟩
          have hnonneg : (0 : ℚ) ≤ m := Nat.cast_nonneg m
          have hneg : (-1 : ℚ) = m := hm
          linarith
      | some q => simp
    have hend := splitLoop_empty_terminates_iff s (maxsplit.getD .negOne) {}
    rw [hbudget] at hend
    constructor
    · exact fun h => .inr (hend.mp h)
    · exact fun h => hend.mpr (h.resolve_left (fun h => h rfl))
  · have hp : pattern.getD (bytes " ") ≠ [] := by
      cases pattern with
      | none => decide
      | some p => exact fun h => hempty (congrArg some h)
    exact iff_of_true (splitLoop_terminates hp s _ {}) (.inl hempty)

/-- **`string.split("a", "")` does not come to an end.** -/
theorem empty_separator_loops :
    ¬ ∃ fuel ret, stringSplit fuel (bytes "a") (some []) none = some ret := by
  intro h
  obtain ⟨k, hk⟩ := (splitLoop_empty_terminates_iff (bytes "a") .negOne {}).mp h
  have hnonneg : (0 : ℚ) ≤ k := Nat.cast_nonneg k
  have hle : (k : ℚ) ≤ -1 := ((usedUp_iff_cuts _ k).mp hk).bounds.1
  linarith

end Petrel
