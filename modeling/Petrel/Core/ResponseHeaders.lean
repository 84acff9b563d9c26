/-
  Petrel.Core.ResponseHeaders — which headers tables are sent as they are.

  The loop of `handle_request` over `response.headers` converts the key in the
  slot that the next `lua_next` reads.  A key that is a number becomes a string
  there: the table does not have it, and the process dies, or the table has it
  too, and the walk goes on from that other pair, forever in some orders.

  Main results:
    * `headerWalk_plain`     — in any order the walk meets every pair, if no
      key is converted.
    * `headerLoop_sent_iff`  — the tables whose headers are sent in every order.
    * `array_headers_panic`  — a list of strings is not one of them.
-/

import Petrel.Core.LuaEngine

namespace Petrel

open Framework

section Headers

variable {Num : Type} [DecidableEq Num] [LuaNumber Num]

/-! ## §1. Tables. -/

/-- The pairs of a Lua table in some order: no two have the same key, and no
key is `nil`. -/
structure LuaTable (Num : Type) where
  pairs : LuaPairs Num
  nodup : (pairs.map Prod.fst).Nodup
  keys : ∀ p ∈ pairs, p.1 ≠ .nil

/-- Key and value are strings or numbers. -/
def isHeader (p : LuaValue Num × LuaValue Num) : Bool := p.2.isString && p.1.isString

/-- The header a pair stands for: the string forms of both. -/
def stringForms (p : LuaValue Num × LuaValue Num) : Headers :=
  if isHeader p then [(p.1.toText.getD [], p.2.toText.getD [])] else []

/-- The table is sent as it is: whatever the order of its pairs, the loop
returns and has added a header for each pair of strings or numbers and nothing
else. -/
def HeadersSent (T : LuaTable Num) : Prop :=
  ∀ ps : LuaPairs Num, ps.Perm T.pairs →
    ∀ (h : Handling Num) (ht : TableRef) (rest : List (LuaValue Num)),
      h.L.stack = .nil :: .table ht :: rest → h.L.heap.pairs ht = ps →
      ∃ fuel h' hs, headerLoop (rest.length + 1) fuel h = .returned () h' ∧
        h'.req.responseHeaders = h.req.responseHeaders ++ hs ∧ hs.Perm (T.pairs.flatMap stringForms)

/-- Nothing is lost of a pair: the key is no number, and there is no NUL in
the strings. -/
structure PlainHeader (p : LuaValue Num × LuaValue Num) : Prop where
  key : ∀ n, p.1 ≠ .number n
  name : (0 : UInt8) ∉ p.1.toText.getD []
  value : (0 : UInt8) ∉ p.2.toText.getD []

/-! ## §2. The walk over plain headers. -/

omit [LuaNumber Num] in
/-- The pairs after a key. -/
theorem after_append_cons {ps qs : LuaPairs Num} {k v : LuaValue Num}
    (hnodup : ((ps ++ (k, v) :: qs).map Prod.fst).Nodup) :
    LuaPairs.after k (ps ++ (k, v) :: qs) = some qs := by
  induction ps with
  | nil =>
      show (if k = k then some qs else LuaPairs.after k qs) = some qs
      rw [if_pos rfl]
  | cons p ps ih =>
      rw [List.cons_append, List.map_cons, List.nodup_cons] at hnodup
      have hne : p.1 ≠ k := by
        intro heq
        refine hnodup.1 ?_
        rw [heq, List.map_append, List.map_cons]
        exact List.mem_append_right _ List.mem_cons_self
      show (if p.1 = k then _ else LuaPairs.after k _) = some qs
      rw [if_neg hne]
      exact ih hnodup.2

omit [LuaNumber Num] in
/-- The pair after a key. -/
theorem next_append_cons {ps qs : LuaPairs Num} {k v : LuaValue Num}
    (hnodup : ((ps ++ (k, v) :: qs).map Prod.fst).Nodup) (hk : k ≠ .nil) :
    LuaPairs.next (ps ++ (k, v) :: qs) k = some qs.head? := by
  unfold LuaPairs.next
  rw [if_neg hk, after_append_cons hnodup]
  rfl

omit [DecidableEq Num] in
/-- The key that is left where it is not converted. -/
theorem keyLeft_of_notNumber {k v : LuaValue Num} (h : isHeader (k, v) → ∀ n, k ≠ .number n) :
    keyLeft k v = k := by
  show (if isHeader (k, v) then k.converted else k) = k
  by_cases hs : isHeader (k, v) = true
  · rw [if_pos hs]
    cases k with
    | number n => exact absurd rfl (h hs n)
    | _ => rfl
  · rw [if_neg hs]

/-- **The walk from a pair on** meets all pairs behind it, if no key is
converted. -/
theorem headerWalk_from {ps qs : LuaPairs Num} {k v : LuaValue Num}
    (hnodup : ((ps ++ (k, v) :: qs).map Prod.fst).Nodup)
    (hkeys : ∀ p ∈ ps ++ (k, v) :: qs, p.1 ≠ .nil)
    (hplain : ∀ p ∈ qs, isHeader p → ∀ n, p.1 ≠ .number n) :
    HeaderWalk (ps ++ (k, v) :: qs) k (qs.flatMap fun p => headersOf p.1 p.2) := by
  have hk : k ≠ .nil := hkeys (k, v) (List.mem_append_right _ List.mem_cons_self)
  induction qs generalizing ps k v with
  | nil => exact .done (next_append_cons hnodup hk)
  | cons q qs ih =>
      have hnext := next_append_cons hnodup hk
      rw [List.flatMap_cons]
      refine .next hnext ?_
      rw [keyLeft_of_notNumber (hplain q List.mem_cons_self)]
      -- the pair just met goes to those before
      have happend : ps ++ (k, v) :: q :: qs = ps ++ [(k, v)] ++ (q.1, q.2) :: qs := by
        rw [List.append_assoc]
        rfl
      rw [happend] at hnodup hkeys ⊢
      exact ih hnodup hkeys (fun p hp => hplain p (List.mem_cons_of_mem q hp))
        (hkeys q (List.mem_append_right _ List.mem_cons_self))

/-- **The walk over a whole table.** -/
theorem headerWalk_plain {ps : LuaPairs Num} (hnodup : (ps.map Prod.fst).Nodup)
    (hkeys : ∀ p ∈ ps, p.1 ≠ .nil)
    (hplain : ∀ p ∈ ps, isHeader p → ∀ n, p.1 ≠ .number n) :
    HeaderWalk ps .nil (ps.flatMap fun p => headersOf p.1 p.2) := by
  cases ps with
  | nil => exact .done rfl
  | cons p ps =>
      rw [List.flatMap_cons]
      refine .next (show LuaPairs.next (p :: ps) .nil = some (some (p.1, p.2)) from rfl) ?_
      rw [keyLeft_of_notNumber (hplain p List.mem_cons_self)]
      show HeaderWalk ([] ++ (p.1, p.2) :: ps) p.1 _
      exact headerWalk_from hnodup hkeys fun q hq => hplain q (List.mem_cons_of_mem p hq)

/-! ## §3. What a converted key does to the walk. -/

omit [LuaNumber Num] in
/-- A key that the table does not have. -/
theorem after_eq_none {ps : LuaPairs Num} {k : LuaValue Num} (h : ∀ p ∈ ps, p.1 ≠ k) :
    LuaPairs.after k ps = none := by
  induction ps with
  | nil => rfl
  | cons p ps ih =>
      show (if p.1 = k then some ps else LuaPairs.after k ps) = none
      rw [if_neg (h p List.mem_cons_self)]
      exact ih fun q hq => h q (List.mem_cons_of_mem p hq)

/-- There is no walk from such a key. -/
theorem not_headerWalk_of_missing {ps : LuaPairs Num} {k : LuaValue Num} (hk : k ≠ .nil)
    (h : ∀ p ∈ ps, p.1 ≠ k) {hs : Headers} : ¬ HeaderWalk ps k hs := by
  have hnext : LuaPairs.next ps k = none := by
    unfold LuaPairs.next
    rw [if_neg hk, after_eq_none h]
    rfl
  intro hwalk
  cases hwalk with
  | done hend => exact nomatch hnext.symm.trans hend
  | next hend _ => exact nomatch hnext.symm.trans hend

/-- There is no walk from a key that the step from it leaves on the stack. -/
theorem not_headerWalk_of_cycle {ps : LuaPairs Num} {key k v : LuaValue Num}
    (hnext : LuaPairs.next ps key = some (some (k, v))) (hleft : keyLeft k v = key) {hs : Headers} :
    ¬ HeaderWalk ps key hs := by
  intro hwalk
  generalize hkey : key = start at hwalk
  -- the walk would be longer than itself
  induction hwalk with
  | done hend =>
      rw [← hkey, hnext] at hend
      exact nomatch hend
  | @next _ k' v' _ hnext' _ ih =>
      rw [← hkey, hnext] at hnext'
      obtain ⟨rfl, rfl⟩ := Prod.mk.inj (Option.some.inj (Option.some.inj hnext'))
      exact ih hleft.symm

/-- The walk after the first pair. -/
theorem HeaderWalk.tail {ps : LuaPairs Num} {key k v : LuaValue Num} {hs : Headers}
    (hwalk : HeaderWalk ps key hs) (hnext : LuaPairs.next ps key = some (some (k, v))) :
    ∃ hs', HeaderWalk ps (keyLeft k v) hs' := by
  cases hwalk with
  | done hend => exact nomatch hnext.symm.trans hend
  | next hnext' htail =>
      obtain ⟨rfl, rfl⟩ := Prod.mk.inj (Option.some.inj (Option.some.inj (hnext.symm.trans hnext')))
      exact ⟨_, htail⟩

/-- There is one walk from a key. -/
theorem HeaderWalk.unique {ps : LuaPairs Num} {key : LuaValue Num} {hs hs' : Headers}
    (h : HeaderWalk ps key hs) (h' : HeaderWalk ps key hs') : hs = hs' := by
  induction h generalizing hs' with
  | done hend =>
      cases h' with
      | done => rfl
      | next hnext _ => exact nomatch hend.symm.trans hnext
  | next hnext _ ih =>
      cases h' with
      | done hend => exact nomatch hend.symm.trans hnext
      | next hnext' hwalk' =>
          obtain ⟨rfl, rfl⟩ := Prod.mk.inj (Option.some.inj (Option.some.inj (hnext.symm.trans hnext')))
          rw [ih hwalk']

/-- **A number for a key breaks the walk in some order**: if its string form is
no key, the walk dies, and otherwise it runs in a circle where the pair of that
key comes right before. -/
theorem exists_order_without_walk (T : LuaTable Num) {n : Num} {v : LuaValue Num}
    (hmem : (.number n, v) ∈ T.pairs) (hheader : isHeader (.number n, v) = true) :
    ∃ ps : LuaPairs Num, ps.Perm T.pairs ∧ ∀ hs, ¬ HeaderWalk ps .nil hs := by
  have hleft : keyLeft (.number n) v = .string (LuaNumber.toText n) := if_pos hheader
  by_cases hstring : ∃ w, (LuaValue.string (LuaNumber.toText n), w) ∈ T.pairs
  · obtain ⟨w, hw⟩ := hstring
    -- first the string, then the number, then the others
    have hqs := List.perm_cons_erase hw
    have hnumber := (List.mem_cons.mp (hqs.mem_iff.mp hmem)).resolve_left fun heq =>
      nomatch (Prod.mk.inj heq).1
    have hrs := List.perm_cons_erase hnumber
    refine ⟨_, (hqs.trans (hrs.cons _)).symm, ?_⟩
    intro hs hwalk
    obtain ⟨hs', htail⟩ := hwalk.tail rfl
    have hkey : keyLeft (.string (LuaNumber.toText n)) w = .string (LuaNumber.toText n) :=
      keyLeft_of_notNumber fun _ m h => nomatch h
    rw [hkey] at htail
    refine not_headerWalk_of_cycle (k := .number n) (v := v) ?_ hleft htail
    show (if _ then _ else _) = _
    rw [if_neg (fun h => nomatch h)]
    show (LuaPairs.after _ (_ :: _)).map List.head? = _
    rw [LuaPairs.after, if_pos rfl]
    rfl
  · have hqs := List.perm_cons_erase hmem
    refine ⟨_, hqs.symm, ?_⟩
    intro hs hwalk
    obtain ⟨hs', htail⟩ := hwalk.tail rfl
    rw [hleft] at htail
    have hkey : (.string (LuaNumber.toText n) : LuaValue Num) ≠ .nil := fun h => nomatch h
    refine not_headerWalk_of_missing hkey ?_ htail
    intro p hp heq
    exact hstring ⟨p.2, heq ▸ hqs.mem_iff.mpr hp⟩

/-! ## §4. The headers that are sent. -/

/-- The bytes of some headers. -/
def headerBytes (hs : Headers) : Nat := (hs.map fun p => p.1.length + p.2.length).sum

theorem headerBytes_append (hs hs' : Headers) :
    headerBytes (hs ++ hs') = headerBytes hs + headerBytes hs' := by
  unfold headerBytes
  rw [List.map_append, List.sum_append]

theorem headerBytes_perm {hs hs' : Headers} (h : hs.Perm hs') : headerBytes hs = headerBytes hs' :=
  (h.map _).sum_eq

theorem length_cStr_le (s : Bytes) : (cStr s).length ≤ s.length :=
  (List.takeWhile_prefix _).length_le

/-- A string is shorter as a C string, unless there is no NUL in it. -/
theorem length_cStr_eq_iff (s : Bytes) : (cStr s).length = s.length ↔ (0 : UInt8) ∉ s := by
  rw [← cStr_eq_self_iff]
  exact ⟨(List.takeWhile_prefix _).eq_of_length, congrArg List.length⟩

omit [DecidableEq Num] in
/-- A pair loses bytes, unless there is no NUL in its strings. -/
theorem headerBytes_pair (p : LuaValue Num × LuaValue Num) :
    headerBytes (headersOf p.1 p.2) ≤ headerBytes (stringForms p) ∧
      (headerBytes (headersOf p.1 p.2) = headerBytes (stringForms p) →
        isHeader p → (0 : UInt8) ∉ p.1.toText.getD [] ∧ (0 : UInt8) ∉ p.2.toText.getD []) := by
  have hname := length_cStr_le (p.1.toText.getD [])
  have hvalue := length_cStr_le (p.2.toText.getD [])
  unfold stringForms
  show headerBytes (if isHeader p then _ else _) ≤ _ ∧ (headerBytes (if isHeader p then _ else _) = _ → _)
  by_cases hp : isHeader p = true
  · rw [if_pos hp, if_pos hp]
    unfold headerBytes
    simp only [List.map_cons, List.map_nil, List.sum_cons, List.sum_nil, Nat.add_zero]
    refine ⟨by omega, fun heq _ => ?_⟩
    rw [← length_cStr_eq_iff, ← length_cStr_eq_iff]
    omega
  · rw [if_neg hp, if_neg hp]
    exact ⟨Nat.le_refl _, fun _ h => absurd h hp⟩

omit [DecidableEq Num] in
theorem headerBytes_pairs (ps : LuaPairs Num) :
    headerBytes (ps.flatMap fun p => headersOf p.1 p.2) ≤ headerBytes (ps.flatMap stringForms) ∧
      (headerBytes (ps.flatMap fun p => headersOf p.1 p.2) = headerBytes (ps.flatMap stringForms) →
        ∀ p ∈ ps, isHeader p → (0 : UInt8) ∉ p.1.toText.getD [] ∧ (0 : UInt8) ∉ p.2.toText.getD []) := by
  induction ps with
  | nil => exact ⟨Nat.le_refl _, fun _ p hp => absurd hp List.not_mem_nil⟩
  | cons p ps ih =>
      obtain ⟨hle, heq⟩ := ih
      obtain ⟨hle', heq'⟩ := headerBytes_pair p
      rw [List.flatMap_cons, List.flatMap_cons, headerBytes_append, headerBytes_append]
      refine ⟨by omega, fun hsum q hq => ?_⟩
      rcases List.mem_cons.mp hq with rfl | hq
      · exact heq' (by omega)
      · exact heq (by omega) q hq

omit [DecidableEq Num] in
/-- Plain headers are sent with their string forms. -/
theorem headersOf_plain {p : LuaValue Num × LuaValue Num} (h : isHeader p → PlainHeader p) :
    headersOf p.1 p.2 = stringForms p := by
  show (if isHeader p then _ else _) = if isHeader p then _ else _
  by_cases hp : isHeader p = true
  · rw [if_pos hp, if_pos hp, (cStr_eq_self_iff _).mpr (h hp).name, (cStr_eq_self_iff _).mpr (h hp).value]
  · rw [if_neg hp, if_neg hp]

/-- A state of the loop over a table with these pairs. -/
def headersState (ps : LuaPairs Num) : Handling Num where
  L := { stack := [.nil, .table 0], heap := { pairs := fun _ => ps } }
  req := Request.ofHttp ⟨bytes "GET", bytes "/", [], [], [], true⟩

/-- **THE HEADERS OF A TABLE ARE SENT**, each once and whole and in whatever
order the table is walked, if and only if no key of them is a number and no
string of them has a NUL. -/
theorem headerLoop_sent_iff (T : LuaTable Num) :
    HeadersSent T ↔ ∀ p ∈ T.pairs, isHeader p → PlainHeader p := by
  constructor
  · intro hsent
    -- the loop returns in every order, so no key is a number
    have hkeys : ∀ p ∈ T.pairs, isHeader p → ∀ n, p.1 ≠ .number n := by
      rintro ⟨k, v⟩ hp hheader n rfl
      obtain ⟨ps, hperm, hno⟩ := exists_order_without_walk T hp hheader
      obtain ⟨fuel, h', hs, hret, -⟩ := hsent ps hperm (headersState ps) 0 [] rfl rfl
      rcases headerLoop_returned (h := headersState ps) rfl fuel with hstuck | ⟨hs', hwalk, -⟩
      · exact hstuck.ne_returned _ _ hret
      · exact hno hs' hwalk
    -- and it sends what it has met
    obtain ⟨fuel, h', hs, hret, hsaved, hperm⟩ :=
      hsent T.pairs (List.Perm.refl _) (headersState T.pairs) 0 [] rfl rfl
    intro p hp hheader
    suffices hbytes : headerBytes (T.pairs.flatMap fun p => headersOf p.1 p.2) =
        headerBytes (T.pairs.flatMap stringForms) by
      obtain ⟨hname, hvalue⟩ := (headerBytes_pairs T.pairs).2 hbytes p hp hheader
      exact ⟨hkeys p hp hheader, hname, hvalue⟩
    rcases headerLoop_returned (h := headersState T.pairs) rfl fuel with hstuck | ⟨hs', hwalk, hret'⟩
    · exact absurd hret (hstuck.ne_returned _ _)
    · obtain ⟨-, rfl⟩ := Outcome.returned.inj (hret'.symm.trans hret)
      obtain rfl := List.append_cancel_left hsaved
      rw [hwalk.unique (headerWalk_plain T.nodup T.keys hkeys)] at hperm
      exact headerBytes_perm hperm
  · intro hplain ps hperm h ht rest hstack hpairs
    have hkeys : ∀ p ∈ ps, isHeader p → ∀ n, p.1 ≠ .number n := fun p hp hheader =>
      (hplain p (hperm.mem_iff.mp hp) hheader).key
    have hwalk := headerWalk_plain ((hperm.map _).nodup_iff.mpr T.nodup)
      (fun p hp => T.keys p (hperm.mem_iff.mp hp)) hkeys
    rw [← hpairs] at hwalk
    obtain ⟨fuel, hret⟩ := headerLoop_walk hstack hwalk
    refine ⟨fuel, _, _, hret, rfl, ?_⟩
    have hforms : (ps.flatMap fun p => headersOf p.1 p.2) = ps.flatMap stringForms :=
      List.flatMap_congr fun p hp => headersOf_plain (hplain p (hperm.mem_iff.mp hp))
    rw [hpairs, hforms]
    exact hperm.flatMap_right stringForms

end Headers

/-- `{ "x" }`: a list instead of a map. -/
def arrayHeaders : LuaTable Int where
  pairs := [(.number 1, .string (bytes "x"))]
  nodup := by decide
  keys := by decide

/-- **A list of strings kills the server**: `lua_next` is asked for the key
"1", which the table does not have, outside of a protected call. -/
theorem array_headers_panic :
    (∃ h', headerLoop 1 2 (headersState arrayHeaders.pairs) = .died .panic h') ∧
      ¬ HeadersSent arrayHeaders := by
  refine ⟨⟨_, rfl⟩, ?_⟩
  intro hsent
  obtain ⟨fuel, h', hs, hret, -⟩ :=
    hsent arrayHeaders.pairs (List.Perm.refl _) (headersState arrayHeaders.pairs) 0 [] rfl rfl
  rcases headerLoop_returned (h := headersState arrayHeaders.pairs) rfl fuel with
    hstuck | ⟨hs', hwalk, -⟩
  · exact hstuck.ne_returned _ _ hret
  · -- the walk would go on from the string "1"
    obtain ⟨hs'', htail⟩ := hwalk.tail rfl
    exact not_headerWalk_of_missing (by decide) (by decide) htail

end Petrel
