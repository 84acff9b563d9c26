/-
  Petrel.Core.Cookies — the table of cookies.

  `push_cookies` splits the header at each ';' and pushes a name and a value of
  every part with raw pointers into the header.  The length of the value is
  counted from the name's, which leaves out the spaces before it, so that the
  value of a part that begins with a space runs over the end of the part.  Of
  an empty part there is no first byte to point to: the process ends.

  Main results:
    * `splitParts_splitOn`  — the parts are those between the separators.
    * `setCookie_eq`        — one part, by the bytes it reads.
    * `cookies_exact_iff`   — the headers whose table is exact.
    * `cookie_with_space`   — and one of the usual form whose table is not.
-/

import Petrel.Core.LuaEngine

namespace Petrel

open Framework

/-! ## §1. The parts of the header. -/

/-- A part begins at a position of a string. -/
def PartAt (s : Bytes) (start : Nat) (part : Bytes) : Prop :=
  ∃ before after, s = before ++ part ++ after ∧ before.length = start

/-- Every part is where it is said to be. -/
theorem splitParts_at (sep : UInt8) (start : Nat) (part s before : Bytes)
    (hstart : before.length = start) :
    ∀ p ∈ splitParts sep start part s, PartAt (before ++ part ++ s) p.1 p.2 := by
  induction s generalizing start part before with
  | nil =>
      intro p hp
      rw [splitParts, List.mem_singleton] at hp
      subst hp
      exact ⟨before, [], rfl, hstart⟩
  | cons c s ih =>
      intro p hp
      unfold splitParts at hp
      by_cases hc : c = sep
      · rw [if_pos hc] at hp
        rcases List.mem_cons.mp hp with rfl | hp
        · exact ⟨before, c :: s, rfl, hstart⟩
        · -- the next part begins behind the separator
          have := ih (start + part.length + 1) [] (before ++ part ++ [c])
            (by simp only [List.length_append, List.length_singleton, hstart]) p hp
          rwa [List.append_nil, List.append_assoc _ [c], List.singleton_append] at this
      · rw [if_neg hc] at hp
        have := ih start (part ++ [c]) before hstart p hp
        rwa [← List.append_assoc, List.append_assoc _ [c], List.singleton_append] at this

/-- **The parts are those between the separators.** -/
theorem splitParts_splitOn (sep : UInt8) (start : Nat) (part s : Bytes) :
    (splitParts sep start part s).map Prod.snd = (s.splitOn sep).modifyHead (part ++ ·) := by
  induction s generalizing start part with
  | nil => simp [splitParts, List.splitOn_nil]
  | cons c s ih =>
      rw [List.splitOn_cons_eq_if_modifyHead]
      unfold splitParts
      by_cases hc : c = sep
      · rw [if_pos hc, if_pos (beq_iff_eq.mpr hc), List.map_cons, ih]
        cases hsplit : s.splitOn sep with
        | nil => exact absurd hsplit (List.splitOn_ne_nil sep s)
        | cons p ps => simp
      · rw [if_neg hc, if_neg (fun h => hc (beq_iff_eq.mp h)), ih]
        cases hsplit : s.splitOn sep with
        | nil => exact absurd hsplit (List.splitOn_ne_nil sep s)
        | cons p ps => simp

/-- The parts of a header. -/
theorem splitParts_header (cookies : Bytes) :
    (splitParts (byte ';') 0 [] cookies).map Prod.snd = cookies.splitOn (byte ';') := by
  rw [splitParts_splitOn]
  cases hsplit : cookies.splitOn (byte ';') with
  | nil => rfl
  | cons p ps => rfl

/-- Reading inside of a part gives bytes of the part. -/
theorem readOver_at (behind : Nat → UInt8) {s part : Bytes} {start : Nat} (h : PartAt s start part)
    {pos n : Nat} (hpos : start ≤ pos) (hend : pos + n ≤ start + part.length) :
    readOver behind s pos n = (part.drop (pos - start)).take n := by
  obtain ⟨before, after, rfl, rfl⟩ := h
  refine List.ext_getElem? fun i => ?_
  unfold readOver
  rw [List.getElem?_map, List.getElem?_take]
  by_cases hi : i < n
  · have hin : pos + i - before.length < part.length := by omega
    rw [List.getElem?_range hi, if_pos hi, List.getElem?_drop, List.append_assoc,
      Option.map_some, List.getElem?_append_right (by omega), List.getElem?_append_left hin,
      show pos - before.length + i = pos + i - before.length by omega,
      List.getElem?_eq_getElem hin]
    rfl
  · rw [if_neg hi, List.getElem?_eq_none (by rw [List.length_range]; omega), Option.map_none]

/-! ## §2. The entry of a part. -/

/-- What a part says: a name, without the spaces before it, and the value
behind the first '='. -/
def cookieOf (part : Bytes) : Option (Bytes × Bytes) :=
  let eq := part.idxOf (byte '=')
  let name := (part.take eq).dropWhile (· = byte ' ')
  if eq < part.length ∧ eq ≠ 0 ∧ name ≠ [] then some (name, part.drop (eq + 1)) else none

/-- The bytes that `push_cookies` reads for the name and for the value of a
part: where they begin, and how many they are. -/
def cookieSpans (start : Nat) (part : Bytes) : Option ((Nat × Nat) × (Nat × Nat)) :=
  let eq := part.idxOf (byte '=')
  let skipped := ((part.take eq).takeWhile (· = byte ' ')).length
  if eq < part.length ∧ eq ≠ 0 ∧ 0 < eq - skipped then
    some ((start + skipped, eq - skipped), (start + eq + 1, part.length - (eq - skipped) - 1))
  else none

/-- A span inside of a part. -/
def Inside (start : Nat) (part : Bytes) (span : Nat × Nat) : Prop :=
  start ≤ span.1 ∧ span.1 + span.2 ≤ start + part.length

/-- The name before the '=' and the spaces before the name. -/
theorem skipped_eq {part : Bytes} (hlt : part.idxOf (byte '=') < part.length) :
    ((part.take (part.idxOf (byte '='))).takeWhile (· = byte ' ')).length =
      part.idxOf (byte '=') - ((part.take (part.idxOf (byte '='))).dropWhile (· = byte ' ')).length := by
  have hsplit := congrArg List.length (List.takeWhile_append_dropWhile
    (p := fun c => decide (c = byte ' ')) (l := part.take (part.idxOf (byte '='))))
  rw [List.length_append, List.length_take, Nat.min_eq_left (Nat.le_of_lt hlt)] at hsplit
  omega

/-- **One part**, by the bytes it reads. -/
theorem setCookie_eq {Num : Type} [DecidableEq Num] (behind : Nat → UInt8) {cookies part : Bytes} {start : Nat}
    (hat : PartAt cookies start part) (L : LuaState Num) :
    setCookie behind cookies start part L =
      match cookieSpans start part with
      | none => L
      | some (name, value) =>
          ((L.push (.string (readOver behind cookies name.1 name.2))).push
            (.string (readOver behind cookies value.1 value.2))).rawSet := by
  unfold setCookie cookieSpans
  simp only
  by_cases heq : part.idxOf (byte '=') < part.length ∧ part.idxOf (byte '=') ≠ 0
  · have hskip := skipped_eq heq.1
    rw [if_pos heq]
    by_cases hname : 0 < part.idxOf (byte '=') -
        ((part.take (part.idxOf (byte '='))).takeWhile (· = byte ' ')).length
    · rw [if_pos hname, if_pos ⟨heq.1, heq.2, hname⟩]
      have hread := readOver_at behind hat (Nat.le_add_right start
          ((part.take (part.idxOf (byte '='))).takeWhile (· = byte ' ')).length)
        (n := part.idxOf (byte '=') -
          ((part.take (part.idxOf (byte '='))).takeWhile (· = byte ' ')).length) (by omega)
      simp only [hread, Nat.add_sub_cancel_left]
      rw [List.drop_take]
    · rw [if_neg hname, if_neg (fun h => hname h.2.2)]
  · rw [if_neg heq, if_neg (fun h => heq ⟨h.1, h.2.1⟩)]

/-- **What is read for a part**, beside what the part says. -/
theorem cookieSpans_eq (start : Nat) (part : Bytes) :
    cookieSpans start part = (cookieOf part).map (fun e =>
      ((start + (part.idxOf (byte '=') - e.1.length), e.1.length),
        (start + part.idxOf (byte '=') + 1, part.length - e.1.length - 1))) := by
  unfold cookieSpans cookieOf
  simp only
  by_cases heq : part.idxOf (byte '=') < part.length ∧ part.idxOf (byte '=') ≠ 0
  · have hle : ((part.take (part.idxOf (byte '='))).dropWhile (· = byte ' ')).length ≤
        part.idxOf (byte '=') :=
      (List.length_dropWhile_le _ _).trans (List.length_take_le _ _)
    rw [skipped_eq heq.1, Nat.sub_sub_self hle]
    by_cases hname : (part.take (part.idxOf (byte '='))).dropWhile (· = byte ' ') = []
    · rw [if_neg (fun h => List.length_pos_iff.mp h.2.2 hname), if_neg (fun h => h.2.2 hname)]
      rfl
    · rw [if_pos ⟨heq.1, heq.2, List.length_pos_iff.mpr hname⟩, if_pos ⟨heq.1, heq.2, hname⟩]
      rfl
  · rw [if_neg (fun h => heq ⟨h.1, h.2.1⟩), if_neg (fun h => heq ⟨h.1, h.2.1⟩)]
    rfl

/-- What a part with an entry looks like. -/
theorem cookieOf_some {part : Bytes} {e : Bytes × Bytes} (h : cookieOf part = some e) :
    part.idxOf (byte '=') < part.length ∧ part.idxOf (byte '=') ≠ 0 ∧
      e.1 = (part.take (part.idxOf (byte '='))).dropWhile (· = byte ' ') ∧
      e.2 = part.drop (part.idxOf (byte '=') + 1) := by
  unfold cookieOf at h
  simp only at h
  by_cases hc : part.idxOf (byte '=') < part.length ∧ part.idxOf (byte '=') ≠ 0 ∧
      (part.take (part.idxOf (byte '='))).dropWhile (· = byte ' ') ≠ []
  · rw [if_pos hc] at h
    obtain rfl := Option.some.inj h
    exact ⟨hc.1, hc.2.1, rfl, rfl⟩
  · rw [if_neg hc] at h
    exact nomatch h

/-- No space is skipped exactly in a part that does not begin with one. -/
theorem name_eq_take_iff {part : Bytes} {e : Bytes × Bytes} (h : cookieOf part = some e) :
    e.1 = part.take (part.idxOf (byte '=')) ↔ part.head? ≠ some (byte ' ') := by
  obtain ⟨hlt, hpos, hname, -⟩ := cookieOf_some h
  rw [hname]
  cases part with
  | nil => exact absurd hlt (Nat.not_lt_zero _)
  | cons c part =>
      rw [← Nat.succ_pred_eq_of_ne_zero hpos, Nat.succ_eq_add_one, List.take_succ_cons]
      by_cases hc : c = byte ' '
      · rw [List.dropWhile_cons_of_pos (by simpa using hc)]
        refine iff_of_false (fun heq => ?_) (fun hne => hne (congrArg some hc))
        -- the name is shorter than what is before the '='
        have hle := List.length_dropWhile_le (fun c => decide (c = byte ' '))
          (part.take (((c :: part).idxOf (byte '=')).pred))
        rw [heq, List.length_cons] at hle
        omega
      · rw [List.dropWhile_cons_of_neg (by simpa using hc)]
        exact iff_of_true rfl (fun heq => hc (Option.some.inj heq))

/-- **What is read for a part is inside of it** exactly if it does not begin
with a space. -/
theorem spans_inside_iff (start : Nat) {part : Bytes} {e : Bytes × Bytes}
    (h : cookieOf part = some e) :
    (∀ name value, cookieSpans start part = some (name, value) →
        Inside start part name ∧ Inside start part value) ↔
      part.head? ≠ some (byte ' ') := by
  obtain ⟨hlt, hpos, hname, -⟩ := cookieOf_some h
  have hspans := cookieSpans_eq start part
  rw [h, Option.map_some] at hspans
  have hsuffix : e.1 <:+ part.take (part.idxOf (byte '=')) := hname ▸ List.dropWhile_suffix _
  have htake : (part.take (part.idxOf (byte '='))).length = part.idxOf (byte '=') := by
    rw [List.length_take, Nat.min_eq_left (Nat.le_of_lt hlt)]
  have hle := hsuffix.length_le
  rw [htake] at hle
  rw [← name_eq_take_iff h, hspans]
  constructor
  · intro hin
    obtain ⟨-, -, hend⟩ := hin _ _ rfl
    -- the value is too long by the spaces that were skipped
    refine hsuffix.eq_of_length ?_
    dsimp only at hend
    omega
  · rintro heq name value hsome
    obtain ⟨rfl, rfl⟩ := Prod.mk.inj (Option.some.inj hsome)
    have hlength := congrArg List.length heq
    rw [htake] at hlength
    refine ⟨⟨?_, ?_⟩, ⟨?_, ?_⟩⟩ <;> dsimp only <;> omega

theorem readOver_append (behind : Nat → UInt8) (s : Bytes) (pos m n : Nat) :
    readOver behind s pos (m + n) = readOver behind s pos m ++ readOver behind s (pos + m) n := by
  unfold readOver
  rw [List.range_add, List.map_append, List.map_map]
  refine congrArg (_ ++ ·) (List.map_congr_left fun i _ => ?_)
  rw [Function.comp_apply, Nat.add_assoc]

/-- The entry that `push_cookies` makes of the bytes it reads for a part. -/
def readCookie (behind : Nat → UInt8) (cookies : Bytes) (p : Nat × Bytes) : Option (Bytes × Bytes) :=
  (cookieSpans p.1 p.2).map (fun spans =>
    (readOver behind cookies spans.1.1 spans.1.2, readOver behind cookies spans.2.1 spans.2.2))

/-- **The entry that is read** is what the part says and, for every space before
the name, one byte behind the part. -/
theorem readCookie_eq (behind : Nat → UInt8) {cookies : Bytes} {p : Nat × Bytes}
    (hat : PartAt cookies p.1 p.2) :
    readCookie behind cookies p = (cookieOf p.2).map (fun e =>
      (e.1, e.2 ++ readOver behind cookies (p.1 + p.2.length)
        (p.2.idxOf (byte '=') - e.1.length))) := by
  unfold readCookie
  rw [cookieSpans_eq, Option.map_map]
  refine Option.map_congr fun e he => ?_
  obtain ⟨hlt, -, hname, hvalue⟩ := cookieOf_some he
  have hsuffix : e.1 <:+ p.2.take (p.2.idxOf (byte '=')) := hname ▸ List.dropWhile_suffix _
  have htake : (p.2.take (p.2.idxOf (byte '='))).length = p.2.idxOf (byte '=') := by
    rw [List.length_take, Nat.min_eq_left (Nat.le_of_lt hlt)]
  have hle := hsuffix.length_le
  rw [htake] at hle
  have hread : readOver behind cookies (p.1 + (p.2.idxOf (byte '=') - e.1.length)) e.1.length =
      e.1 := by
    have hdrop := List.suffix_iff_eq_drop.mp hsuffix
    rw [htake, List.drop_take, Nat.sub_sub_self hle] at hdrop
    rw [readOver_at behind hat (Nat.le_add_right _ _) (by omega), Nat.add_sub_cancel_left]
    exact hdrop.symm
  have hrest : readOver behind cookies (p.1 + p.2.idxOf (byte '=') + 1)
      (p.2.length - p.2.idxOf (byte '=') - 1) = e.2 := by
    rw [readOver_at behind hat (by omega) (by omega),
      show p.1 + p.2.idxOf (byte '=') + 1 - p.1 = p.2.idxOf (byte '=') + 1 by omega, hvalue]
    exact List.take_of_length_le (by rw [List.length_drop]; omega)
  have hlength : p.2.length - e.1.length - 1 =
      p.2.length - p.2.idxOf (byte '=') - 1 + (p.2.idxOf (byte '=') - e.1.length) := by omega
  have hend : p.1 + p.2.idxOf (byte '=') + 1 + (p.2.length - p.2.idxOf (byte '=') - 1) =
      p.1 + p.2.length := by omega
  rw [Function.comp_apply, hread, hlength, readOver_append, hrest, hend]

/-- Without a space before the name it is what the part says. -/
theorem readCookie_of_head (behind : Nat → UInt8) {cookies : Bytes} {p : Nat × Bytes}
    (hat : PartAt cookies p.1 p.2) (hhead : (cookieOf p.2).isSome → p.2.head? ≠ some (byte ' ')) :
    readCookie behind cookies p = cookieOf p.2 := by
  rw [readCookie_eq behind hat]
  cases he : cookieOf p.2 with
  | none => rfl
  | some e =>
      obtain ⟨hlt, -⟩ := cookieOf_some he
      have hname := (name_eq_take_iff he).mpr (hhead (by rw [he]; rfl))
      have hlength : e.1.length = p.2.idxOf (byte '=') := by
        rw [hname, List.length_take, Nat.min_eq_left (Nat.le_of_lt hlt)]
      have hnothing : readOver behind cookies (p.1 + p.2.length) 0 = [] := rfl
      rw [Option.map_some, hlength, Nat.sub_self, hnothing, List.append_nil]

/-! ## §3. The table. -/

section Table

variable {Num : Type} [DecidableEq Num]

/-- A table has these entries, a later one of a name in place of an earlier
one, and nothing else. -/
structure HasEntries (ps : LuaPairs Num) (entries : List (Bytes × Bytes)) : Prop where
  nodup : (ps.map Prod.fst).Nodup
  mem : ∀ k v, (k, v) ∈ ps ↔ ∃ name value, k = .string name ∧ v = .string value ∧
    entries.reverse.lookup name = some value

omit [DecidableEq Num] in
theorem hasEntries_nil : HasEntries ([] : LuaPairs Num) [] where
  nodup := List.nodup_nil
  mem := fun k v => by
    refine iff_of_false List.not_mem_nil ?_
    rintro ⟨name, value, _, _, h⟩
    exact nomatch h

/-- **One entry more.** -/
theorem HasEntries.set {ps : LuaPairs Num} {entries : List (Bytes × Bytes)}
    (h : HasEntries ps entries) (e : Bytes × Bytes) :
    HasEntries (ps.set (.string e.1) (.string e.2)) (entries ++ [e]) where
  nodup := LuaPairs.nodup_set h.nodup (fun h => nomatch h)
  mem := fun k v => by
    have hvalue : (.string e.2 : LuaValue Num) ≠ .nil := fun h => nomatch h
    rw [LuaPairs.mem_set hvalue, Prod.mk.injEq, h.mem, List.reverse_append,
      List.reverse_singleton, List.singleton_append]
    constructor
    · rintro (⟨rfl, rfl⟩ | ⟨⟨name, value, rfl, rfl, hlookup⟩, hne⟩)
      · exact ⟨e.1, e.2, rfl, rfl, List.lookup_cons_self⟩
      · refine ⟨name, value, rfl, rfl, ?_⟩
        have hname : (name == e.1) = false := beq_eq_false_iff_ne.mpr fun heq => hne (congrArg _ heq)
        rw [List.lookup_cons, hname]
        exact hlookup
    · rintro ⟨name, value, rfl, rfl, hlookup⟩
      by_cases hname : name = e.1
      · subst hname
        rw [List.lookup_cons_self] at hlookup
        exact .inl ⟨rfl, congrArg _ (Option.some.inj hlookup).symm⟩
      · rw [List.lookup_cons, beq_eq_false_iff_ne.mpr hname] at hlookup
        exact .inr ⟨⟨name, value, rfl, rfl, hlookup⟩, fun heq => hname (LuaValue.string.inj heq)⟩

/-- **The loop over the parts**: the table has the entries that are read. -/
theorem foldl_setCookie (behind : Nat → UInt8) {cookies : Bytes} (parts : List (Nat × Bytes))
    (hat : ∀ p ∈ parts, PartAt cookies p.1 p.2) {t : TableRef} {rest : List (LuaValue Num)}
    {L : LuaState Num} (hstack : L.stack = .table t :: rest) {entries : List (Bytes × Bytes)}
    (hentries : HasEntries (L.heap.pairs t) entries) :
    let M := parts.foldl (fun L p => setCookie behind cookies p.1 p.2 L) L
    M.stack = .table t :: rest ∧
      HasEntries (M.heap.pairs t) (entries ++ parts.filterMap (readCookie behind cookies)) := by
  induction parts generalizing L entries with
  | nil => exact ⟨hstack, by simpa using hentries⟩
  | cons p parts ih =>
      have hp := hat p List.mem_cons_self
      have hat' := fun q hq => hat q (List.mem_cons_of_mem p hq)
      rw [List.foldl_cons, List.filterMap_cons, setCookie_eq behind hp]
      unfold readCookie
      cases hspans : cookieSpans p.1 p.2 with
      | none => exact ih hat' hstack hentries
      | some spans =>
          obtain ⟨name, value⟩ := spans
          have hset : ((L.push (.string (readOver behind cookies name.1 name.2))).push
                (.string (readOver behind cookies value.1 value.2))).rawSet =
              { L with stack := .table t :: rest,
                       heap := L.heap.rawSet t (.string (readOver behind cookies name.1 name.2))
                         (.string (readOver behind cookies value.1 value.2)) } := by
            simp [LuaState.push, LuaState.rawSet, hstack]
          have hentry : HasEntries ((L.heap.rawSet t (.string (readOver behind cookies name.1 name.2))
              (.string (readOver behind cookies value.1 value.2))).pairs t)
              (entries ++ [(readOver behind cookies name.1 name.2,
                readOver behind cookies value.1 value.2)]) := by
            show HasEntries (Function.update L.heap.pairs t _ t) _
            rw [Function.update_self]
            exact hentries.set (_, _)
          have hnext := ih hat' (L := { L with
            stack := .table t :: rest,
            heap := L.heap.rawSet t (.string (readOver behind cookies name.1 name.2))
              (.string (readOver behind cookies value.1 value.2)) }) rfl hentry
          simp only [hset, Option.map_some]
          rwa [List.append_assoc, List.singleton_append] at hnext

/-- **The table of a header**: the entries that are read for its parts. -/
theorem cookieTable_entries (behind : Nat → UInt8) (cookies : Bytes) (L : LuaState Num) :
    (cookieTable behind cookies L).stack = .table L.heap.next :: L.stack ∧
      HasEntries ((cookieTable behind cookies L).heap.pairs L.heap.next)
        ((splitParts (byte ';') 0 [] cookies).filterMap (readCookie behind cookies)) := by
  have hat : ∀ p ∈ splitParts (byte ';') 0 [] cookies, PartAt cookies p.1 p.2 := by
    have := splitParts_at (byte ';') 0 [] cookies [] rfl
    simpa using this
  have hempty : HasEntries (L.newTable.heap.pairs L.heap.next) [] := by
    show HasEntries (Function.update L.heap.pairs L.heap.next [] L.heap.next) []
    rw [Function.update_self]
    exact hasEntries_nil
  exact foldl_setCookie behind _ hat (L := L.newTable) rfl hempty

theorem noEmptyPart_iff (cookies : Bytes) :
    NoEmptyPart cookies ↔ ∀ part ∈ cookies.splitOn (byte ';'), part ≠ [] := by
  rw [← splitParts_header, List.forall_mem_map]
  rfl

/-- The table of a header is exact: `push_cookies` builds it and it has the
entries of the parts, whatever the Lua state and the memory behind the header
are, and no byte outside of a part is read for it. -/
structure CookiesExact (Num : Type) [DecidableEq Num] (cookies : Bytes) : Prop where
  table : ∀ (behind : Nat → UInt8) (L : LuaState Num), ∃ t M,
    pushCookies behind cookies L = .returned () M ∧ M.stack = .table t :: L.stack ∧
      HasEntries (M.heap.pairs t) ((cookies.splitOn (byte ';')).filterMap cookieOf)
  inside : ∀ p ∈ splitParts (byte ';') 0 [] cookies, ∀ name value,
    cookieSpans p.1 p.2 = some (name, value) → Inside p.1 p.2 name ∧ Inside p.1 p.2 value

/-- **THE TABLE OF COOKIES IS EXACT** if and only if no part is empty and no
part with an entry begins with a space. -/
theorem cookies_exact_iff (cookies : Bytes) :
    CookiesExact Num cookies ↔ ∀ part ∈ cookies.splitOn (byte ';'), part ≠ [] ∧
      ((cookieOf part).isSome → part.head? ≠ some (byte ' ')) := by
  have hparts := splitParts_header cookies
  constructor
  · intro hexact part hpart
    have hfull : NoEmptyPart cookies := by
      by_contra hempty
      -- an empty part ends the process
      have hdied := pushCookies_apply (fun _ => 0) cookies ({} : LuaState Num)
      rw [if_neg hempty] at hdied
      obtain ⟨M, hM⟩ := hdied
      obtain ⟨t, M', hret, -⟩ := hexact.table (fun _ => 0) {}
      exact nomatch hM.symm.trans hret
    refine ⟨(noEmptyPart_iff cookies).mp hfull part hpart, fun hsome => ?_⟩
    rw [← hparts] at hpart
    obtain ⟨p, hp, rfl⟩ := List.mem_map.mp hpart
    obtain ⟨e, he⟩ := Option.isSome_iff_exists.mp hsome
    exact (spans_inside_iff p.1 he).mp (hexact.inside p hp)
  · intro hall
    have hfull : NoEmptyPart cookies := (noEmptyPart_iff cookies).mpr fun part hpart =>
      (hall part hpart).1
    have hhead : ∀ p ∈ splitParts (byte ';') 0 [] cookies, (cookieOf p.2).isSome →
        p.2.head? ≠ some (byte ' ') := fun p hp =>
      (hall p.2 (hparts ▸ List.mem_map_of_mem hp)).2
    have hat : ∀ p ∈ splitParts (byte ';') 0 [] cookies, PartAt cookies p.1 p.2 := by
      have := splitParts_at (byte ';') 0 [] cookies [] rfl
      simpa using this
    refine ⟨fun behind L => ⟨L.heap.next, cookieTable behind cookies L, ?_, ?_⟩, ?_⟩
    · have hreturned := pushCookies_apply behind cookies L
      rwa [if_pos hfull] at hreturned
    · have hread : (splitParts (byte ';') 0 [] cookies).filterMap (readCookie behind cookies) =
          ((splitParts (byte ';') 0 [] cookies).map Prod.snd).filterMap cookieOf := by
        rw [List.filterMap_map]
        exact List.filterMap_congr fun p hp => readCookie_of_head behind (hat p hp) (hhead p hp)
      have htable := cookieTable_entries behind cookies L
      rwa [hread, hparts] at htable
    · intro p hp name value hspans
      have hsome : (cookieOf p.2).isSome := by
        rw [cookieSpans_eq] at hspans
        obtain ⟨e, he, -⟩ := Option.map_eq_some_iff.mp hspans
        rw [he]
        rfl
      obtain ⟨e, he⟩ := Option.isSome_iff_exists.mp hsome
      exact (spans_inside_iff p.1 he).mpr (hhead p hp hsome) name value hspans

/-- **The usual form of a header with two cookies**: the value of the second
one is a byte too long, the one behind the string. -/
theorem cookie_with_space : ¬ CookiesExact Int (bytes "a=1; b=2") := by
  intro h
  obtain ⟨t, M, hret, hstack, hentries⟩ := h.table (fun _ => 0) {}
  have hM : M = cookieTable (fun _ => 0) (bytes "a=1; b=2") {} := by
    have hreturned := pushCookies_apply (fun _ => 0) (bytes "a=1; b=2") ({} : LuaState Int)
    rw [if_pos (by decide)] at hreturned
    exact (Outcome.returned.inj (hret.symm.trans hreturned)).2
  subst hM
  have ht : t = 0 := by
    have : (cookieTable (fun _ => 0) (bytes "a=1; b=2") ({} : LuaState Int)).stack = [.table 0] := by
      decide +kernel
    rw [this] at hstack
    exact (LuaValue.table.inj (List.cons.inj hstack).1).symm
  subst ht
  have hread : (LuaValue.string (bytes "b"), LuaValue.string (bytes "2" ++ [0])) ∈
      (cookieTable (fun _ => 0) (bytes "a=1; b=2") ({} : LuaState Int)).heap.pairs 0 := by
    decide +kernel
  obtain ⟨name, value, hname, hvalue, hlookup⟩ := (hentries.mem _ _).mp hread
  rw [← LuaValue.string.inj hname, ← LuaValue.string.inj hvalue] at hlookup
  exact absurd hlookup (by decide +kernel)

/-- A semicolon behind the last cookie ends the process, and so does an empty header. -/
example : ¬ NoEmptyPart (bytes "a=1;") ∧ ¬ NoEmptyPart [] := by decide

end Table

end Petrel
