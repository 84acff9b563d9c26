/-
  Petrel.Core.CookieFields — the cookies of a stream with several cookie fields.

  A client may split its cookies over any number of header fields, which are
  then to be read as one string.  `push_request` reads the first field only, so
  that a cookie of another one is lost, or an older value of it is handed out.
  An empty part of the first field ends the process.

  Main results:
    * `cookiesOf_joined`      — the entries of the fields and of the one string.
    * `requestTable_cookies`  — the table under "cookies".
    * `lookup_readCookie_iff` — what the table has of a field, whatever stands
      behind the string.
    * `keepsCookies_iff`      — the requests whose cookies are all there.
    * `second_cookie_field`   — and one with a lost cookie.
-/

import Petrel.Core.Cookies

namespace Petrel

open Framework

/-! ## §1. The cookie fields. -/

/-- The values of the cookie fields, in the order of the request. -/
def cookieFields (headers : Headers) : List Bytes :=
  (headers.filter (fun p => p.1 == bytes "cookie")).map Prod.snd

/-- The entries of a cookie string. -/
def cookiesOf (field : Bytes) : List (Bytes × Bytes) :=
  (field.splitOn (byte ';')).filterMap cookieOf

/-- The entries of all fields. -/
def allCookies (headers : Headers) : List (Bytes × Bytes) := (cookieFields headers).flatMap cookiesOf

/-- The accessor of the request reads the first field. -/
theorem value_cookieFields (headers : Headers) :
    headers.value (bytes "cookie") = (cookieFields headers).head?.getD [] := by
  unfold Headers.value cookieFields
  rw [List.head?_map, List.head?_filter]

theorem exists_cookieFields (headers : Headers) :
    headers.exists (bytes "cookie") = true ↔ cookieFields headers ≠ [] := by
  unfold Headers.exists cookieFields
  rw [List.any_eq_true, ne_eq, List.map_eq_nil_iff, List.filter_eq_nil_iff]
  simp

/-- A space before a part is skipped. -/
theorem cookieOf_space (part : Bytes) : cookieOf (byte ' ' :: part) = cookieOf part := by
  have heq : byte ' ' ≠ byte '=' := by decide
  have hidx : (byte ' ' :: part).idxOf (byte '=') = part.idxOf (byte '=') + 1 := by
    rw [List.idxOf_cons, beq_eq_false_iff_ne.mpr heq]
    rfl
  have hname : ((byte ' ' :: part).take (part.idxOf (byte '=') + 1)).dropWhile (· = byte ' ') =
      (part.take (part.idxOf (byte '='))).dropWhile (· = byte ' ') := by
    rw [List.take_succ_cons, List.dropWhile_cons_of_pos (by simp)]
  unfold cookieOf
  simp only [hidx, hname, List.length_cons, Nat.add_lt_add_iff_right, List.drop_succ_cons]
  by_cases hzero : part.idxOf (byte '=') = 0
  · -- there is no name in either of them
    rw [if_neg (by simp [hzero]), if_neg (by simp [hzero])]
  · simp [hzero]

/-- **The fields as one string**, joined by "; ". -/
theorem cookiesOf_joined {headers : Headers} (hfield : cookieFields headers ≠ []) :
    cookiesOf ((bytes "; ").intercalate (cookieFields headers)) = allCookies headers := by
  unfold allCookies
  generalize cookieFields headers = fields at hfield ⊢
  induction fields with
  | nil => exact absurd rfl hfield
  | cons field fields ih =>
      cases fields with
      | nil => simp
      | cons field' fields =>
          have hspace : ∀ s : Bytes, cookiesOf (byte ' ' :: s) = cookiesOf s := by
            intro s
            unfold cookiesOf
            rw [List.splitOn_cons_eq_if_modifyHead, if_neg (by decide)]
            cases hsplit : s.splitOn (byte ';') with
            | nil => exact absurd hsplit (List.splitOn_ne_nil _ s)
            | cons p ps =>
                rw [List.modifyHead_cons, List.filterMap_cons, List.filterMap_cons, cookieOf_space]
          have hsep : bytes "; " = [byte ';', byte ' '] := by decide
          rw [List.intercalate_cons_cons, List.flatMap_cons, ← ih (List.cons_ne_nil _ _), hsep,
            List.append_assoc, List.cons_append, List.singleton_append, ← hspace (List.intercalate _ _)]
          unfold cookiesOf
          rw [List.splitOn_append_cons_self, List.filterMap_append]

section Fields

variable {Num : Type} [DecidableEq Num] [LuaNumber Num]

/-! ## §2. The table under "cookies". -/

/-- A table is being built on top of a stack. -/
structure Building (t : TableRef) (base : List (LuaValue Num)) (L : LuaState Num) : Prop where
  stack : L.stack = .table t :: base
  old : t < L.heap.next

omit [LuaNumber Num] in
theorem setFieldTo_eq {t : TableRef} {base : List (LuaValue Num)} {L : LuaState Num}
    (h : L.stack = .table t :: base) (k : Bytes) (v : LuaValue Num) :
    L.setFieldTo k v = { L with heap := L.heap.rawSet t (.string k) v } := by
  simp [LuaState.setFieldTo, LuaState.push, LuaState.setField, h]

omit [LuaNumber Num] in
theorem setField_eq {t : TableRef} {base : List (LuaValue Num)} {L : LuaState Num} {v : LuaValue Num}
    (h : L.stack = v :: .table t :: base) (k : Bytes) :
    L.setField k = { L with stack := .table t :: base, heap := L.heap.rawSet t (.string k) v } := by
  simp [LuaState.setField, h]

omit [LuaNumber Num] in
theorem Building.setFieldTo {t : TableRef} {base : List (LuaValue Num)} {L : LuaState Num}
    (h : Building t base L) (k : Bytes) (v : LuaValue Num) : Building t base (L.setFieldTo k v) := by
  rw [setFieldTo_eq h.stack]
  exact ⟨h.stack, h.old⟩

omit [LuaNumber Num] in
/-- The headers table is a new one. -/
theorem Building.pushHeaders {t : TableRef} {base : List (LuaValue Num)} {L : LuaState Num}
    (h : Building t base L) (headers : Headers) (k : Bytes) :
    Building t base ((pushHeaders headers L).setField k) := by
  have hfold : ∀ (M : LuaState Num), Building L.heap.next L.stack M → Building L.heap.next L.stack
      (headers.foldl (fun L p => L.setFieldTo (cStr p.1) (.string (cStr p.2))) M) := by
    induction headers with
    | nil => exact fun M hM => hM
    | cons p headers ih => exact fun M hM => ih _ (hM.setFieldTo _ _)
  have hheaders := hfold L.newTable ⟨rfl, Nat.lt_succ_self _⟩
  rw [h.stack] at hheaders
  have hstack := hheaders.stack
  have hold := h.old.trans hheaders.old
  unfold Petrel.pushHeaders
  rw [setField_eq hstack]
  exact ⟨rfl, hold⟩

/-- **The table under "cookies"** has the entries that are read for the first
cookie field. -/
theorem requestTable_cookies (env : EngineEnv Num) (req : Request) (L : LuaState Num)
    (hcookie : req.headers.exists (bytes "cookie") = true) :
    ∃ t ct, (requestTable env req L).stack = .table t :: L.stack ∧
      ((requestTable env req L).heap.pairs t).get (.string (bytes "cookies")) = .table ct ∧
      HasEntries ((requestTable env req L).heap.pairs ct)
        ((splitParts (byte ';') 0 [] (req.headers.value (bytes "cookie"))).filterMap
          (readCookie env.behind (req.headers.value (bytes "cookie")))) := by
  have h₁ : Building L.heap.next L.stack (pushLine env req L) := by
    unfold pushLine
    apply Building.setFieldTo
    apply Building.setFieldTo
    apply Building.setFieldTo
    apply Building.setFieldTo
    apply Building.setFieldTo
    exact ⟨rfl, Nat.lt_succ_self _⟩
  have h₂ : Building L.heap.next L.stack (pushHead req (pushLine env req L)) := by
    unfold pushHead
    apply Building.setFieldTo
    apply Building.setFieldTo
    exact h₁.pushHeaders req.headers (bytes "headers")
  unfold requestTable pushContent
  simp only [hcookie, if_true]
  generalize pushHead req (pushLine env req L) = L₂ at h₂
  obtain ⟨hstack, hentries⟩ :=
    cookieTable_entries env.behind (req.headers.value (bytes "cookie")) L₂
  rw [h₂.stack] at hstack
  have hne : L₂.heap.next ≠ L.heap.next := h₂.old.ne'
  have hL₃ : (cookieTable env.behind (req.headers.value (bytes "cookie")) L₂).setField
      (bytes "cookies") = { cookieTable env.behind (req.headers.value (bytes "cookie")) L₂ with
      stack := .table L.heap.next :: L.stack
      heap := (cookieTable env.behind (req.headers.value (bytes "cookie")) L₂).heap.rawSet
        L.heap.next (.string (bytes "cookies")) (.table L₂.heap.next) } := setField_eq hstack _
  generalize (cookieTable env.behind (req.headers.value (bytes "cookie")) L₂).setField
    (bytes "cookies") = L₃ at hL₃
  have hstack₃ : L₃.stack = .table L.heap.next :: L.stack := by rw [hL₃]
  have hcookies₃ : (L₃.heap.pairs L.heap.next).get (.string (bytes "cookies")) =
      .table L₂.heap.next := by
    rw [hL₃, LuaHeap.rawSet_pairs]
    exact LuaPairs.get_set_self _ _ (fun h => nomatch h)
  have hentries₃ : HasEntries (L₃.heap.pairs L₂.heap.next)
      ((splitParts (byte ';') 0 [] (req.headers.value (bytes "cookie"))).filterMap
        (readCookie env.behind (req.headers.value (bytes "cookie")))) := by
    rw [hL₃, LuaHeap.rawSet_pairs_of_ne _ hne]
    exact hentries
  refine ⟨L.heap.next, L₂.heap.next, ?_⟩
  by_cases hpost : req.method = .post
  · -- the content of a POST goes to another key of the request
    rw [if_pos hpost, setFieldTo_eq hstack₃]
    refine ⟨hstack₃, ?_, ?_⟩
    · have hvalue : (.string req.content : LuaValue Num) ≠ .nil := fun h => nomatch h
      have hkey : (.string (bytes "cookies") : LuaValue Num) ≠ .string (bytes "content") :=
        fun h => absurd (LuaValue.string.inj h) (by decide)
      rw [LuaHeap.rawSet_pairs, LuaPairs.get_set_of_ne _ hvalue hkey]
      exact hcookies₃
    · rw [LuaHeap.rawSet_pairs_of_ne _ hne]
      exact hentries₃
  · rw [if_neg hpost]
    exact ⟨hstack₃, hcookies₃, hentries₃⟩

end Fields

/-! ## §3. What is read behind a part. -/

/-- Behind a part stands the next separator; behind the last one the string
ends. -/
theorem splitParts_follow {sep : UInt8} {start : Nat} {part s before : Bytes}
    (hstart : before.length = start) {ps₁ ps₂ : List (Nat × Bytes)} {p : Nat × Bytes}
    (h : splitParts sep start part s = ps₁ ++ p :: ps₂) :
    ps₂ = [] ∧ p.1 + p.2.length = (before ++ part ++ s).length ∨
      ps₂ ≠ [] ∧ (before ++ part ++ s)[p.1 + p.2.length]? = some sep := by
  induction s generalizing start part before ps₁ with
  | nil =>
      rw [splitParts] at h
      obtain ⟨rfl, hp⟩ | ⟨-, hnil⟩ := List.singleton_eq_append_iff.mp h
      · obtain ⟨rfl, rfl⟩ := List.cons.inj hp
        refine .inl ⟨rfl, ?_⟩
        simp [hstart]
      · cases hnil
  | cons c s ih =>
      unfold splitParts at h
      by_cases hc : c = sep
      · rw [if_pos hc] at h
        have hassoc : before ++ part ++ c :: s = (before ++ part ++ [c]) ++ [] ++ s := by simp
        cases ps₁ with
        | nil =>
            obtain ⟨rfl, rfl⟩ := List.cons.inj h
            refine .inr ⟨?_, ?_⟩
            · intro hnil
              have hmap := splitParts_splitOn sep (start + part.length + 1) [] s
              rw [hnil] at hmap
              cases hsplit : s.splitOn sep with
              | nil => exact absurd hsplit (List.splitOn_ne_nil sep s)
              | cons q qs => rw [hsplit] at hmap; cases hmap
            · rw [List.getElem?_append_right (by simp [hstart])]
              simp [hstart, hc]
        | cons q ps₁ =>
            have htail := (List.cons.inj h).2
            rw [hassoc]
            exact ih (by simp [hstart]; omega) htail
      · rw [if_neg hc] at h
        have := ih hstart h
        rwa [← List.append_assoc, List.append_assoc _ [c], List.singleton_append] at this

/-- The spaces a part begins with. -/
def leadingSpaces (part : Bytes) : Nat := (part.takeWhile (· = byte ' ')).length

theorem leadingSpaces_eq {part : Bytes} {e : Bytes × Bytes} (h : cookieOf part = some e) :
    leadingSpaces part = part.idxOf (byte '=') - e.1.length := by
  obtain ⟨hlt, hpos, hname, -⟩ := cookieOf_some h
  have hskip := skipped_eq hlt
  rw [← hname] at hskip
  have hne : e.1 ≠ [] := by
    unfold cookieOf at h
    simp only at h
    split at h
    · rename_i hc
      rw [hname]
      exact hc.2.2
    · cases h
  have htake : (part.take (part.idxOf (byte '='))).length = part.idxOf (byte '=') := by
    rw [List.length_take, Nat.min_eq_left (Nat.le_of_lt hlt)]
  have hpos' := List.length_pos_of_ne_nil hne
  unfold leadingSpaces
  conv_lhs => rw [← List.take_append_drop (part.idxOf (byte '=')) part]
  rw [List.takeWhile_append, if_neg (by omega)]
  exact hskip

theorem readOver_succ (behind : Nat → UInt8) (s : Bytes) (pos k : Nat) :
    readOver behind s pos (k + 1) =
      (s[pos]?).getD (if pos = s.length then 0 else behind pos) :: readOver behind s (pos + 1) k := by
  rw [Nat.add_comm k 1, readOver_append]
  rfl

/-- At the end of the string stands its NUL. -/
theorem readOver_end (behind : Nat → UInt8) (s : Bytes) (k : Nat) :
    readOver behind s s.length (k + 1) = 0 :: readOver behind s (s.length + 1) k := by
  rw [readOver_succ, List.getElem?_eq_none (Nat.le_refl _), if_pos rfl]
  rfl

/-- **The bytes behind a part** are those of a value just if there are none, or
the string ends there and the value goes on with its NUL. -/
theorem append_readOver_iff {s v w : Bytes} {pos k : Nat} {last : Prop}
    (hfollow : last ∧ pos = s.length ∨ ¬ last ∧ s[pos]? = some (byte ';')) (hw : byte ';' ∉ w) :
    (∀ behind, v ++ readOver behind s pos k = w) ↔ k = 0 ∧ w = v ∨ last ∧ k = 1 ∧ w = v ++ [0] := by
  match k with
  | 0 =>
      simp only [readOver, List.range_zero, List.map_nil, List.append_nil]
      constructor
      · exact fun h => .inl ⟨trivial, (h (fun _ => 0)).symm⟩
      · rintro (⟨-, rfl⟩ | ⟨-, h, -⟩)
        · exact fun _ => rfl
        · cases h
  | k + 1 =>
      rcases hfollow with ⟨hlast, rfl⟩ | ⟨hlast, hsemi⟩
      · constructor
        · intro h
          match k with
          | 0 =>
              have hnul := h (fun _ => 0)
              rw [readOver_end] at hnul
              exact .inr ⟨hlast, rfl, hnul.symm⟩
          | k + 1 =>
              -- the byte behind the NUL may be any
              have hsame := (h (fun _ => 0)).trans (h (fun _ => 1)).symm
              have hover := List.append_cancel_left hsame
              rw [readOver_end, readOver_end, readOver_succ, readOver_succ] at hover
              have hbyte := (List.cons.inj (List.cons.inj hover).2).1
              simp at hbyte
        · rintro (⟨h, -⟩ | ⟨-, hk, rfl⟩)
          · cases h
          · intro behind
            obtain rfl : k = 0 := by omega
            rw [readOver_end]
            rfl
      · constructor
        · intro h
          have hread := h (fun _ => 0)
          rw [readOver_succ, hsemi] at hread
          refine absurd ?_ hw
          rw [← hread]
          exact List.mem_append_right _ List.mem_cons_self
        · rintro (⟨h, -⟩ | ⟨h, -⟩)
          · cases h
          · exact absurd h hlast

/-! ## §4. The entries of the first field. -/

/-- The last entry of a name among those that a list gives. -/
theorem lookup_reverse_filterMap {α : Type} (f : α → Option (Bytes × Bytes)) (l : List α)
    (name value : Bytes) : (l.filterMap f).reverse.lookup name = some value ↔
      ∃ before a after, l = before ++ a :: after ∧ f a = some (name, value) ∧
        ∀ b ∈ after, ∀ e, f b = some e → e.1 ≠ name := by
  rw [List.lookup_eq_some_iff]
  constructor
  · rintro ⟨l₁, l₂, hl, hl₁⟩
    have hrev : l.filterMap f = l₂.reverse ++ ([(name, value)] ++ l₁.reverse) := by
      rw [← List.reverse_reverse (l.filterMap f), hl]
      simp
    obtain ⟨before, rest, rfl, -, hrest⟩ := List.filterMap_eq_append_iff.mp hrev
    obtain ⟨skipped, a, after, rfl, hskipped, ha, hafter⟩ := List.filterMap_eq_cons_iff.mp hrest
    refine ⟨before ++ skipped, a, after, by simp, ha, fun b hb e he hname => ?_⟩
    have hmem : e ∈ l₁ := by
      have hread : e ∈ after.filterMap f := List.mem_filterMap.mpr ⟨b, hb, he⟩
      rw [hafter] at hread
      exact List.mem_reverse.mp hread
    have hne := hl₁ e hmem
    simp [hname] at hne
  · rintro ⟨before, a, after, rfl, ha, hafter⟩
    refine ⟨(after.filterMap f).reverse, (before.filterMap f).reverse, ?_, ?_⟩
    · rw [List.filterMap_append, List.filterMap_cons, ha]
      simp
    · intro e he
      obtain ⟨b, hb, hbe⟩ := List.mem_filterMap.mp (List.mem_reverse.mp he)
      have hne := hafter b hb e hbe
      simpa using hne.symm

theorem partAt_splitParts (field : Bytes) :
    ∀ p ∈ splitParts (byte ';') 0 [] field, PartAt field p.1 p.2 := by
  have := splitParts_at (byte ';') 0 [] field [] rfl
  simpa using this

/-- The name that is read is the one of the part. -/
theorem readCookie_name (behind : Nat → UInt8) {field : Bytes} {p : Nat × Bytes}
    (hat : PartAt field p.1 p.2) (name : Bytes) :
    (∀ e, readCookie behind field p = some e → e.1 ≠ name) ↔
      ∀ e, cookieOf p.2 = some e → e.1 ≠ name := by
  rw [readCookie_eq behind hat]
  cases cookieOf p.2 with
  | none => exact iff_of_true (fun _ h => nomatch h) (fun _ h => nomatch h)
  | some e => simp

/-- The value that is read for a name: the one of its last part, and the bytes
behind this part. -/
theorem lookup_readCookie (behind : Nat → UInt8) (field name value : Bytes) :
    ((splitParts (byte ';') 0 [] field).filterMap (readCookie behind field)).reverse.lookup name =
        some value ↔
      ∃ before p after v, splitParts (byte ';') 0 [] field = before ++ p :: after ∧
        cookieOf p.2 = some (name, v) ∧ (∀ q ∈ after, ∀ e, cookieOf q.2 = some e → e.1 ≠ name) ∧
        v ++ readOver behind field (p.1 + p.2.length) (leadingSpaces p.2) = value := by
  have hat := partAt_splitParts field
  rw [lookup_reverse_filterMap]
  constructor
  · rintro ⟨before, p, after, hsplit, hp, hafter⟩
    have hmem : ∀ q ∈ p :: after, PartAt field q.1 q.2 := fun q hq =>
      hat q (hsplit ▸ List.mem_append_right _ hq)
    rw [readCookie_eq behind (hmem p List.mem_cons_self)] at hp
    obtain ⟨⟨n, v⟩, he, heq⟩ := Option.map_eq_some_iff.mp hp
    obtain ⟨rfl, hvalue⟩ := Prod.mk.inj heq
    refine ⟨before, p, after, v, hsplit, he, fun q hq => ?_, ?_⟩
    · exact (readCookie_name behind (hmem q (List.mem_cons_of_mem p hq)) _).mp (hafter q hq)
    · rw [leadingSpaces_eq he]
      exact hvalue
  · rintro ⟨before, p, after, v, hsplit, he, hafter, hvalue⟩
    have hmem : ∀ q ∈ p :: after, PartAt field q.1 q.2 := fun q hq =>
      hat q (hsplit ▸ List.mem_append_right _ hq)
    refine ⟨before, p, after, hsplit, ?_, fun q hq => ?_⟩
    · rw [leadingSpaces_eq he] at hvalue
      rw [readCookie_eq behind (hmem p List.mem_cons_self), he, Option.map_some, hvalue]
    · exact (readCookie_name behind (hmem q (List.mem_cons_of_mem p hq)) _).mpr (hafter q hq)

/-- **A cookie string reads a value** of a name: the last part of the name says
it and begins with no space, or the part ends the string, begins with one space,
and the value is what the part says with a NUL behind it. -/
def CookieRead (field name value : Bytes) : Prop :=
  ∃ before part after v, field.splitOn (byte ';') = before ++ part :: after ∧
    cookieOf part = some (name, v) ∧ (∀ q ∈ after, ∀ e, cookieOf q = some e → e.1 ≠ name) ∧
    (leadingSpaces part = 0 ∧ value = v ∨
      after = [] ∧ leadingSpaces part = 1 ∧ value = v ++ [0])

/-- **What the table has of a field**, whatever stands behind the string. -/
theorem lookup_readCookie_iff (field name : Bytes) {value : Bytes} (hsemi : byte ';' ∉ value) :
    (∀ behind, ((splitParts (byte ';') 0 [] field).filterMap
        (readCookie behind field)).reverse.lookup name = some value) ↔
      CookieRead field name value := by
  have hparts := splitParts_header field
  constructor
  · intro h
    obtain ⟨before, p, after, v, hsplit, he, hafter, -⟩ :=
      (lookup_readCookie (fun _ => 0) field name value).mp (h _)
    -- the same part is the last one of the name in every memory
    have hvalue : ∀ behind,
        v ++ readOver behind field (p.1 + p.2.length) (leadingSpaces p.2) = value := by
      intro behind
      have hlookup := (lookup_readCookie behind field name _).mpr
        ⟨before, p, after, v, hsplit, he, hafter, rfl⟩
      rw [h behind] at hlookup
      exact (Option.some.inj hlookup).symm
    have hfollow := splitParts_follow (List.length_nil (α := UInt8)) hsplit
    have hread := (append_readOver_iff hfollow hsemi).mp hvalue
    refine ⟨before.map Prod.snd, p.2, after.map Prod.snd, v, ?_, he, ?_, ?_⟩
    · rw [← hparts, hsplit, List.map_append, List.map_cons]
    · intro q hq
      obtain ⟨p', hp', rfl⟩ := List.mem_map.mp hq
      exact hafter p' hp'
    · rwa [List.map_eq_nil_iff]
  · rintro ⟨before, part, after, v, hsplit, hpart, hafter, hvalue⟩ behind
    rw [← hparts] at hsplit
    obtain ⟨before, rest, hsplit', rfl, hrest⟩ := List.map_eq_append_iff.mp hsplit
    obtain ⟨p, after, rfl, rfl, rfl⟩ := List.map_eq_cons_iff.mp hrest
    have hfollow := splitParts_follow (List.length_nil (α := UInt8)) hsplit'
    rw [List.map_eq_nil_iff] at hvalue
    have hread := (append_readOver_iff hfollow hsemi).mpr hvalue behind
    exact (lookup_readCookie behind field name value).mpr ⟨before, p, after, v, hsplit', hpart,
      fun q hq => hafter q.2 (List.mem_map_of_mem hq), hread⟩

/-! ## §5. The cookies of a stream. -/

theorem not_mem_splitOn (sep : UInt8) (s : Bytes) : ∀ part ∈ s.splitOn sep, sep ∉ part := by
  induction s with
  | nil => simp [List.splitOn_nil]
  | cons c s ih =>
      intro part hpart
      rw [List.splitOn_cons_eq_if_modifyHead] at hpart
      by_cases hc : c = sep
      · rw [if_pos (beq_iff_eq.mpr hc)] at hpart
        rcases List.mem_cons.mp hpart with rfl | hpart
        · exact List.not_mem_nil
        · exact ih part hpart
      · rw [if_neg (fun h => hc (beq_iff_eq.mp h))] at hpart
        cases hsplit : s.splitOn sep with
        | nil => exact absurd hsplit (List.splitOn_ne_nil sep s)
        | cons q qs =>
            rw [hsplit, List.modifyHead_cons] at hpart
            rw [hsplit] at ih
            rcases List.mem_cons.mp hpart with rfl | hpart
            · have := ih q List.mem_cons_self
              simp [this, Ne.symm hc]
            · exact ih part (List.mem_cons_of_mem q hpart)

/-- No value has a separator. -/
theorem semi_not_mem_value {headers : Headers} {e : Bytes × Bytes} (he : e ∈ allCookies headers) :
    byte ';' ∉ e.2 := by
  obtain ⟨field, -, hfield⟩ := List.mem_flatMap.mp he
  obtain ⟨part, hpart, hcookie⟩ := List.mem_filterMap.mp hfield
  rw [(cookieOf_some hcookie).2.2.2]
  exact fun h => not_mem_splitOn _ _ part hpart (List.mem_of_mem_drop h)

theorem mem_of_lookup_reverse {l : List (Bytes × Bytes)} {name value : Bytes}
    (h : l.reverse.lookup name = some value) : (name, value) ∈ l := by
  obtain ⟨l₁, l₂, hl, -⟩ := List.lookup_eq_some_iff.mp h
  rw [← List.mem_reverse, hl]
  exact List.mem_append_right _ List.mem_cons_self

/-- **No cookie is dropped**: of a request with a cookie field a table is made,
and the table under "cookies" of it has the value of every name, where a later
entry of the fields replaces an earlier one. -/
def KeepsCookies (Num : Type) [DecidableEq Num] [LuaNumber Num] (r : Http2Stream) : Prop :=
  ∀ (env : EngineEnv Num) (body : Option Bytes) (L : LuaState Num),
    r.headers.exists (bytes "cookie") = true →
    ∃ M t ct, pushRequest env (.ofHttp2 r body) L = .returned () M ∧ M.stack = .table t :: L.stack ∧
      (M.heap.pairs t).get (.string (bytes "cookies")) = .table ct ∧
      ∀ name value, (allCookies r.headers).reverse.lookup name = some value →
        (.string name, .string value) ∈ M.heap.pairs ct

/-- **NO COOKIE FIELD IS DROPPED** just if no part of the first field is empty
and it reads the value that every name has in the one string of all fields. -/
theorem keepsCookies_iff (Num : Type) [DecidableEq Num] [LuaNumber Num] (r : Http2Stream) :
    KeepsCookies Num r ↔ ∀ first rest, cookieFields r.headers = first :: rest →
      (∀ part ∈ first.splitOn (byte ';'), part ≠ []) ∧
      ∀ name value, (cookiesOf ((bytes "; ").intercalate (first :: rest))).reverse.lookup name =
        some value → CookieRead first name value := by
  constructor
  · intro h first rest hfields
    have hne : cookieFields r.headers ≠ [] := hfields ▸ List.cons_ne_nil first rest
    have hcookie : r.headers.exists (bytes "cookie") = true := (exists_cookieFields r.headers).mpr hne
    have hfirst : r.headers.value (bytes "cookie") = first := by
      rw [value_cookieFields, hfields]
      rfl
    rw [← hfields, cookiesOf_joined hne, ← noEmptyPart_iff, ← hfirst]
    -- any memory may stand behind the string
    let env (behind : Nat → UInt8) : EngineEnv Num :=
      { getState := .error [], call := fun H _ _ => ⟨H, .returned []⟩, behind := behind }
    have hok : (Request.ofHttp2 r none).CookiesOk := by
      by_contra hempty
      have hdied := pushRequest_apply (env fun _ => 0) (.ofHttp2 r none) {}
      rw [if_neg hempty] at hdied
      obtain ⟨M, hM⟩ := hdied
      obtain ⟨M', t, ct, hret, -⟩ := h (env fun _ => 0) none {} hcookie
      exact nomatch hM.symm.trans hret
    refine ⟨hok hcookie, fun name value hlookup => ?_⟩
    rw [← lookup_readCookie_iff _ _ (semi_not_mem_value (mem_of_lookup_reverse hlookup))]
    intro behind
    obtain ⟨M, t, ct, hret, hstack, hget, hmem⟩ := h (env behind) none {} hcookie
    have hreturned := pushRequest_apply (env behind) (.ofHttp2 r none) {}
    rw [if_pos hok] at hreturned
    obtain rfl := (Outcome.returned.inj (hreturned.symm.trans hret)).2
    obtain ⟨t', ct', hstack', hget', hentries⟩ :=
      requestTable_cookies (env behind) (.ofHttp2 r none) {} hcookie
    obtain rfl : t = t' := by
      rw [hstack] at hstack'
      exact LuaValue.table.inj (List.cons.inj hstack').1
    obtain rfl : ct = ct' := LuaValue.table.inj (hget.symm.trans hget')
    obtain ⟨n, v, hn, hv, hread⟩ := (hentries.mem _ _).mp (hmem name value hlookup)
    rw [← LuaValue.string.inj hn, ← LuaValue.string.inj hv] at hread
    exact hread
  · intro h env body L hcookie
    have hne := (exists_cookieFields r.headers).mp hcookie
    obtain ⟨first, rest, hfields⟩ := List.exists_cons_of_ne_nil hne
    obtain ⟨hfull, hread⟩ := h first rest hfields
    have hfirst : r.headers.value (bytes "cookie") = first := by
      rw [value_cookieFields, hfields]
      rfl
    rw [← hfields, cookiesOf_joined hne] at hread
    rw [← hfirst] at hfull hread
    have hok : (Request.ofHttp2 r body).CookiesOk := fun _ => (noEmptyPart_iff _).mpr hfull
    have hreturned := pushRequest_apply env (.ofHttp2 r body) L
    rw [if_pos hok] at hreturned
    obtain ⟨t, ct, hstack, hget, hentries⟩ := requestTable_cookies env (.ofHttp2 r body) L hcookie
    refine ⟨_, t, ct, hreturned, hstack, hget, fun name value hlookup => ?_⟩
    have hvalue := (lookup_readCookie_iff _ _
      (semi_not_mem_value (mem_of_lookup_reverse hlookup))).mpr (hread name value hlookup) env.behind
    exact (hentries.mem _ _).mpr ⟨name, value, rfl, rfl, hvalue⟩

/-- `cookie: a=1` and `cookie: b=2` -/
def splitCookies : Http2Stream where
  method := bytes "GET"
  scheme := bytes "https"
  host := bytes "localhost"
  rawPath := bytes "/"
  rawQuery := []
  headers := [(bytes "cookie", bytes "a=1"), (bytes "cookie", bytes "b=2")]
  chunks := []
  remoteAddr := bytes "127.0.0.1"
  remoteIsV4 := true

/-- **The cookie of the second field is lost.** -/
theorem second_cookie_field : ¬ KeepsCookies Int splitCookies := by
  intro h
  let env : EngineEnv Int := { getState := .error [], call := fun H _ _ => ⟨H, .returned []⟩ }
  obtain ⟨M, t, ct, hret, hstack, hget, hmem⟩ := h env none {} (by decide)
  have hreturned := pushRequest_apply env (.ofHttp2 splitCookies none) {}
  rw [if_pos (by decide)] at hreturned
  obtain rfl := (Outcome.returned.inj (hreturned.symm.trans hret)).2
  obtain ⟨t', ct', hstack', hget', hentries⟩ :=
    requestTable_cookies env (.ofHttp2 splitCookies none) {} (by decide)
  obtain rfl : t = t' := by
    rw [hstack] at hstack'
    exact LuaValue.table.inj (List.cons.inj hstack').1
  obtain rfl : ct = ct' := LuaValue.table.inj (hget.symm.trans hget')
  obtain ⟨name, value, hname, -, hlookup⟩ :=
    (hentries.mem _ _).mp (hmem (bytes "b") (bytes "2") (by decide +kernel))
  rw [← LuaValue.string.inj hname] at hlookup
  have hlost : ((splitParts (byte ';') 0 [] (bytes "a=1")).filterMap
      (readCookie (fun _ => 0) (bytes "a=1"))).reverse.lookup (bytes "b") = none := by
    decide +kernel
  cases hlost.symm.trans hlookup

end Petrel
