/-
  Petrel.Core.LuaPrint — the replacement of Lua's `print`.

  A table is printed entry by entry, and a table among the values is printed in
  its place, to any depth: the limit of `print_table` is -1 where `print` calls
  it, which switches it off.  The keys of the walks stay on the Lua stack.

  The log is the list of what is written to it.  Its filter, its prefix, its
  colours and the text of numbers and pointers are left out, and so is the end
  of the Lua stack.

  Main results:
    * `printPairs_returned`, `printPairs_cases` — the walk over a table writes
      its text, or does not come to an end.
    * `exists_entriesText_iff` — the tables that have a text.
    * `print_exact_iff`        — the arguments that are printed.
    * `self_reference_loops`   — and one that is not.
-/

import Petrel.Core.LuaEngine
import Petrel.Framework.Acyclic

namespace Petrel

open Framework

/-! ## §1. The code. -/

/-- What is written to the log. -/
inductive LogPiece (Num : Type) where
  | text (s : Bytes)
  | number (n : Num)
  | pointer (v : LuaValue Num)      -- `lua_topointer`

structure Printing (Num : Type) where
  L : LuaState Num
  log : List (LogPiece Num) := []

abbrev PrintCode (Num α : Type) := Code Bytes Fault (Printing Num) α

section Print

variable {Num : Type} [DecidableEq Num] [LuaNumber Num]

/-- A text of its own. -/
def piece (s : String) : List (LogPiece Num) := [.text (bytes s)]

/-- Code of the Lua state. -/
def onStack {α : Type} (x : LuaCode Num α) : PrintCode Num α :=
  Code.zoom (fun s => s.L) (fun L s => { s with L := L }) x

/-- `log_plain_noln` -/
def say (pieces : List (LogPiece Num)) : PrintCode Num Unit :=
  Code.modify (fun s => { s with log := s.log ++ pieces })

/-- `lua_typename` -/
def LuaValue.typeName : LuaValue Num → Bytes
  | .nil => bytes "nil"
  | .boolean _ => bytes "boolean"
  | .number _ => bytes "number"
  | .string _ => bytes "string"
  | .table _ => bytes "table"
  | .function _ => bytes "function"
  | .lightuserdata _ | .userdata _ => bytes "userdata"

/-- The value at an index of either sign. -/
def LuaState.valueAt (L : LuaState Num) (i : Int) : LuaValue Num :=
  if i < 0 then L.peek (-i).toNat else L.peekAbs i.toNat

/-- `print_type_simple` of a value that is no table. -/
def simpleText (quotes : Bool) : LuaValue Num → List (LogPiece Num)
  | .string s =>
      if quotes then [.text (bytes "\""), .text (cStr s), .text (bytes "\"")] else [.text (cStr s)]
  | .number n => [.number n]
  | .table _ => piece "table..."
  | v => [.text v.typeName]

mutual

/-- `lua_utils::print_type_simple` -/
def printTypeSimple : Nat → Int → Bool → Bool → Int → PrintCode Num Unit
  | 0, _, _, _, _ => Code.exhaust
  | fuel + 1, i, stringQuotes, showTable, maxTableDepth => do
      let s ← Code.get
      match s.L.valueAt i with
      | .table t =>
          if showTable then printTable fuel i 0 maxTableDepth
          else say (simpleText stringQuotes (.table t))
      | v => say (simpleText stringQuotes v)

/-- `lua_utils::print_table` -/
def printTable : Nat → Int → Int → Int → PrintCode Num Unit
  | 0, _, _, _ => Code.exhaust
  | fuel + 1, i, level, maxLevel => do
      say (piece "\x7b")
      let s ← Code.get
      let t := if i < 0 then s.L.stack.length + i + 1 else i
      onStack (Code.modify (fun L => L.push .nil))
      printPairs fuel t.toNat true level maxLevel
      say (piece "\x7d")

/-- The loop of `print_table` over the pairs of the table at index `t`. -/
def printPairs : Nat → Nat → Bool → Int → Int → PrintCode Num Unit
  | 0, _, _, _, _ => Code.exhaust
  | fuel + 1, t, first, level, maxLevel => do
      if ← onStack (luaNext t) then
        if !first then say (piece ", ")
        say (piece "\x7b")
        printTypeSimple fuel (-2) true false (-1)
        say (piece ", ")
        let s ← Code.get
        if (s.L.valueAt (-1)).isTable && (maxLevel < 0 || level < maxLevel) then
          printTable fuel (-1) (level + 1) maxLevel
        else
          printTypeSimple fuel (-1) true false (-1)
        say (piece "\x7d")
        onStack (Code.modify (fun L => L.pop 1))
        printPairs fuel t false level maxLevel
      else pure ()

end

/-- `lua_utils::print_type` -/
def printType (fuel : Nat) (i : Int) (showTypeName showTableContent : Bool) (maxTableDepth : Int) :
    PrintCode Num Unit := do
  let s ← Code.get
  match s.L.valueAt i with
  | .string _ | .number _ => printTypeSimple fuel i false false (-1)
  | .table t =>
      if showTypeName then say (piece "table" ++ piece ": ")
      say [.pointer (.table t)]
      if showTableContent then
        say (piece ": ")
        printTable fuel i 0 maxTableDepth
  -- the branches of the functions and pointers and of all others are the same
  | v =>
      if showTypeName then say [.text v.typeName, .text (bytes ": ")]
      say [.pointer v]

/-- `log::is_log_priority` -/
def isLogPriority (prio : Int) : Bool := 0 ≤ prio && prio ≤ 7

/-- The loop of `print` over the last `left` of `n` arguments. -/
def printArgs (fuel n : Nat) : Nat → PrintCode Num Unit
  | 0 => pure ()
  | left + 1 => do
      let i := n - left
      printType fuel i true true (-1)
      if i < n then say (piece "\t")
      printArgs fuel n left

/-- `lua_utils::print`.  A first argument that is a log priority sets the
priority and is not printed. -/
def luaPrint (fuel : Nat) : PrintCode Num Unit := do
  let s ← Code.get
  let n := s.L.stack.length
  if n > 0 then
    let first := s.L.valueAt 1
    if first.isNumber && isLogPriority (toInt32 first.toInteger) then printArgs fuel n (n - 1)
    else printArgs fuel n n
  say (piece "\n")

/-! ## §2. One entry. -/

omit [DecidableEq Num] [LuaNumber Num] in
@[simp] theorem onStack_apply {α : Type} (x : LuaCode Num α) (s : Printing Num) :
    onStack x s = (x s.L).mapState (fun L => { s with L := L }) := rfl

omit [DecidableEq Num] [LuaNumber Num] in
@[simp] theorem say_apply (pieces : List (LogPiece Num)) (s : Printing Num) :
    say pieces s = .returned () { s with log := s.log ++ pieces } := rfl

/-- A value is at a positive index of a stack. -/
structure ValueAt (stack : List (LuaValue Num)) (i : Nat) (v : LuaValue Num) : Prop where
  le : i ≤ stack.length
  value : stack[stack.length - i]? = some v

omit [DecidableEq Num] [LuaNumber Num] in
theorem ValueAt.push {stack : List (LuaValue Num)} {i : Nat} {v : LuaValue Num} (h : ValueAt stack i v)
    (v' : LuaValue Num) : ValueAt (v' :: stack) i v where
  le := h.le.trans (Nat.le_succ _)
  value := by
    rw [List.length_cons, Nat.succ_sub h.le, List.getElem?_cons_succ]
    exact h.value

omit [DecidableEq Num] [LuaNumber Num] in
theorem ValueAt.top (rest : List (LuaValue Num)) (v : LuaValue Num) :
    ValueAt (v :: rest) (rest.length + 1) v where
  le := Nat.le_refl _
  value := by rw [List.length_cons, Nat.sub_self, List.getElem?_cons_zero]

omit [DecidableEq Num] [LuaNumber Num] in
theorem ValueAt.peekAbs {L : LuaState Num} {i : Nat} {v : LuaValue Num} (h : ValueAt L.stack i v) :
    L.peekAbs i = v := by
  unfold LuaState.peekAbs
  rw [h.value]
  rfl

omit [DecidableEq Num] [LuaNumber Num] in
theorem ValueAt.valueAt {L : LuaState Num} {i : Nat} {v : LuaValue Num} (h : ValueAt L.stack i v) :
    L.valueAt i = v := by
  unfold LuaState.valueAt
  rw [if_neg (by omega), Int.toNat_natCast, h.peekAbs]

omit [DecidableEq Num] [LuaNumber Num] in
theorem peek_one {L : LuaState Num} {v : LuaValue Num} {rest : List (LuaValue Num)}
    (hstack : L.stack = v :: rest) : L.peek 1 = v := by
  unfold LuaState.peek
  rw [hstack]
  rfl

omit [LuaNumber Num] in
/-- `lua_next` behind the last pair. -/
theorem luaNext_done {L : LuaState Num} {t : Nat} {ref : TableRef} {key : LuaValue Num}
    {rest : List (LuaValue Num)} (hstack : L.stack = key :: rest) (hat : ValueAt rest t (.table ref))
    (hbehind : (L.heap.pairs ref).behind key = some []) :
    luaNext t L = .returned false { L with stack := rest } := by
  have htable : L.peekAbs t = .table ref := ValueAt.peekAbs (hstack ▸ hat.push key)
  unfold luaNext
  rw [htable, peek_one hstack]
  simp only [next_eq, hbehind, Option.map_some, List.head?_nil]
  simp [LuaState.pop, hstack]

omit [LuaNumber Num] in
/-- `lua_next` at a pair. -/
theorem luaNext_pair {L : LuaState Num} {t : Nat} {ref : TableRef} {key k v : LuaValue Num}
    {ps : LuaPairs Num} {rest : List (LuaValue Num)} (hstack : L.stack = key :: rest)
    (hat : ValueAt rest t (.table ref)) (hbehind : (L.heap.pairs ref).behind key = some ((k, v) :: ps)) :
    luaNext t L = .returned true { L with stack := v :: k :: rest } := by
  have htable : L.peekAbs t = .table ref := ValueAt.peekAbs (hstack ▸ hat.push key)
  unfold luaNext
  rw [htable, peek_one hstack]
  simp only [next_eq, hbehind, Option.map_some, List.head?_cons]
  simp [LuaState.pop, LuaState.push, hstack]

/-- Below a table the walk goes down. -/
def descends (maxLevel level : Int) (v : LuaValue Num) : Bool :=
  v.isTable && (maxLevel < 0 || level < maxLevel)

/-- An entry up to its value. -/
def entryHead (first : Bool) (k : LuaValue Num) : List (LogPiece Num) :=
  (if first then [] else piece ", ") ++ piece "\x7b" ++ simpleText true k ++ piece ", "

omit [LuaNumber Num] in
theorem printTypeSimple_apply (fuel : Nat) (i : Int) (quotes : Bool) (maxDepth : Int)
    (s : Printing Num) : printTypeSimple (fuel + 1) i quotes false maxDepth s =
      .returned () { s with log := s.log ++ simpleText quotes (s.L.valueAt i) } := by
  unfold printTypeSimple
  rw [Code.bind_apply, Code.get_apply, Outcome.andThen_returned]
  cases s.L.valueAt i with
  | table t => rfl
  | _ => rfl

/-- What a round does up to the value: the pair is on the stack, and the entry is
begun. -/
def atValue (s : Printing Num) (first : Bool) (k v : LuaValue Num) (rest : List (LuaValue Num)) :
    Printing Num :=
  { s with L := { s.L with stack := v :: k :: rest }, log := s.log ++ entryHead first k }

omit [LuaNumber Num] in
/-- **One round** of the loop. -/
theorem printPairs_pair {s : Printing Num} {t : Nat} {ref : TableRef} {key k v : LuaValue Num}
    {ps : LuaPairs Num} {rest : List (LuaValue Num)} (hstack : s.L.stack = key :: rest)
    (hat : ValueAt rest t (.table ref)) (hbehind : (s.L.heap.pairs ref).behind key = some ((k, v) :: ps))
    (fuel : Nat) (first : Bool) (level maxLevel : Int) :
    printPairs (fuel + 2) t first level maxLevel s =
      ((if descends maxLevel level v then printTable (fuel + 1) (-1) (level + 1) maxLevel
        else printTypeSimple (fuel + 1) (-1) true false (-1)) (atValue s first k v rest)).andThen
      fun _ s' => printPairs (fuel + 1) t false level maxLevel
        { s' with L := s'.L.pop 1, log := s'.log ++ piece "\x7d" } := by
  have hkey : LuaState.valueAt { s.L with stack := v :: k :: rest } (-2) = k := rfl
  have hvalue : LuaState.valueAt { s.L with stack := v :: k :: rest } (-1) = v := rfl
  have hdescends : (v.isTable && (decide (maxLevel < 0) || decide (level < maxLevel))) =
      descends maxLevel level v := rfl
  conv_lhs => unfold printPairs
  cases first with
  | true =>
      simp only [Code.bind_apply, onStack_apply, luaNext_pair hstack hat hbehind,
        Outcome.mapState_returned, Outcome.andThen_returned, if_true, Bool.not_true, Bool.false_eq_true,
        if_false, say_apply, printTypeSimple_apply, hkey, Code.get_apply, hvalue, hdescends]
      have hstate : (⟨{ s.L with stack := v :: k :: rest }, s.log ++ piece "\x7b" ++
          simpleText true k ++ piece ", "⟩ : Printing Num) = atValue s true k v rest := by
        simp [atValue, entryHead]
      rw [hstate]
      cases descends maxLevel level v with
      | true => rfl
      | false => rfl
  | false =>
      simp only [Code.bind_apply, onStack_apply, luaNext_pair hstack hat hbehind,
        Outcome.mapState_returned, Outcome.andThen_returned, if_true, Bool.not_false,
        say_apply, printTypeSimple_apply, hkey, Code.get_apply, hvalue, hdescends]
      have hstate : (⟨{ s.L with stack := v :: k :: rest }, s.log ++ piece ", " ++
          piece "\x7b" ++ simpleText true k ++ piece ", "⟩ : Printing Num) =
            atValue s false k v rest := by
        simp [atValue, entryHead]
      rw [hstate]
      cases descends maxLevel level v with
      | true => rfl
      | false => rfl

omit [LuaNumber Num] in
theorem printPairs_done {s : Printing Num} {t : Nat} {ref : TableRef} {key : LuaValue Num}
    {rest : List (LuaValue Num)} (hstack : s.L.stack = key :: rest) (hat : ValueAt rest t (.table ref))
    (hbehind : (s.L.heap.pairs ref).behind key = some []) (fuel : Nat) (first : Bool)
    (level maxLevel : Int) : printPairs (fuel + 1) t first level maxLevel s =
      .returned () { s with L := { s.L with stack := rest } } := by
  unfold printPairs
  simp only [Code.bind_apply, onStack_apply, luaNext_done hstack hat hbehind,
    Outcome.mapState_returned, Outcome.andThen_returned, Bool.false_eq_true, if_false]
  rfl

omit [LuaNumber Num] in
/-- A table at an index of either sign: its walk between braces. -/
theorem printTable_apply {s : Printing Num} {i : Int} {t : Nat}
    (ht : (if i < 0 then (s.L.stack.length : Int) + i + 1 else i).toNat = t) (fuel : Nat)
    (level maxLevel : Int) : printTable (fuel + 1) i level maxLevel s =
      (printPairs fuel t true level maxLevel
        { s with L := s.L.push .nil, log := s.log ++ piece "\x7b" }).andThen
      fun _ s' => .returned () { s' with log := s'.log ++ piece "\x7d" } := by
  unfold printTable
  simp only [Code.bind_apply, say_apply, Outcome.andThen_returned, Code.get_apply, onStack_apply,
    Code.modify_apply, Outcome.mapState_returned, ht]
  rfl

/-! ## §3. The text of a table. -/

/-- What the loop writes for the pairs that are left of a table: every one of
them, in the order of the walk. -/
inductive EntriesText (H : LuaHeap Num) (maxLevel : Int) :
    Int → Bool → LuaPairs Num → List (LogPiece Num) → Prop where
  | done {level : Int} {first : Bool} : EntriesText H maxLevel level first [] []
  | simple {level : Int} {first : Bool} {k v : LuaValue Num} {ps : LuaPairs Num}
      {text : List (LogPiece Num)} : descends maxLevel level v = false →
      EntriesText H maxLevel level false ps text →
      EntriesText H maxLevel level first ((k, v) :: ps)
        (entryHead first k ++ simpleText true v ++ piece "\x7d" ++ text)
  | table {level : Int} {first : Bool} {k : LuaValue Num} {ref : TableRef} {ps : LuaPairs Num}
      {inner text : List (LogPiece Num)} : descends maxLevel level (.table ref : LuaValue Num) = true →
      EntriesText H maxLevel (level + 1) true (H.pairs ref) inner →
      EntriesText H maxLevel level false ps text →
      EntriesText H maxLevel level first ((k, .table ref) :: ps)
        (entryHead first k ++ (piece "\x7b" ++ inner ++ piece "\x7d") ++ piece "\x7d" ++ text)

/-- The loop stands in front of the pairs `ps` of a table, whose last key is on
the stack. -/
structure Walking (H : LuaHeap Num) (t : Nat) (rest : List (LuaValue Num)) (ps : LuaPairs Num)
    (s : Printing Num) : Prop where
  heap : s.L.heap = H
  place : ∃ key ref, s.L.stack = key :: rest ∧ ValueAt rest t (.table ref) ∧ (H.pairs ref).behind key = some ps

/-- The state behind the loop: the key is popped, and the text is written. -/
def walked (s : Printing Num) (rest : List (LuaValue Num)) (text : List (LogPiece Num)) :
    Printing Num :=
  { s with L := { s.L with stack := rest }, log := s.log ++ text }

/-- The state behind a round: the key is left on the stack. -/
def rounded (s : Printing Num) (k : LuaValue Num) (rest : List (LuaValue Num))
    (text : List (LogPiece Num)) : Printing Num :=
  { s with L := { s.L with stack := k :: rest }, log := s.log ++ text }

omit [LuaNumber Num] in
theorem Walking.step {H : LuaHeap Num} (hH : ∀ ref, (H.pairs ref).KeysSound) {t : Nat}
    {rest : List (LuaValue Num)} {k v : LuaValue Num} {ps : LuaPairs Num} {s : Printing Num}
    (h : Walking H t rest ((k, v) :: ps) s) (text : List (LogPiece Num)) :
    Walking H t rest ps (rounded s k rest text) := by
  obtain ⟨key, ref, -, hat, hbehind⟩ := h.place
  exact ⟨h.heap, k, ref, rfl, hat, behind_step (hH ref) hbehind⟩

omit [LuaNumber Num] in
/-- **One round** at a value the walk does not go down. -/
theorem printPairs_simple {H : LuaHeap Num} {t : Nat} {rest : List (LuaValue Num)}
    {k v : LuaValue Num} {ps : LuaPairs Num} {s : Printing Num}
    (hwalk : Walking H t rest ((k, v) :: ps) s) {level maxLevel : Int}
    (hv : descends maxLevel level v = false) (fuel : Nat) (first : Bool) :
    printPairs (fuel + 2) t first level maxLevel s = printPairs (fuel + 1) t false level maxLevel
      (rounded s k rest (entryHead first k ++ simpleText true v ++ piece "\x7d")) := by
  obtain ⟨key, ref, hstack, hat, hbehind⟩ := hwalk.place
  rw [printPairs_pair hstack hat (by rw [hwalk.heap]; exact hbehind), hv,
    if_neg Bool.false_ne_true, printTypeSimple_apply]
  show printPairs _ _ _ _ _ _ = _
  simp [atValue, rounded, LuaState.pop, LuaState.valueAt, LuaState.peek]

omit [LuaNumber Num] in
/-- A round needs more fuel than the loop. -/
theorem printPairs_one {H : LuaHeap Num} {t : Nat} {rest : List (LuaValue Num)}
    {k v : LuaValue Num} {ps : LuaPairs Num} {s : Printing Num}
    (hwalk : Walking H t rest ((k, v) :: ps) s) (first : Bool) (level maxLevel : Int) :
    ∃ s', printPairs 1 t first level maxLevel s = .exhausted s' := by
  obtain ⟨key, ref, hstack, hat, hbehind⟩ := hwalk.place
  have hpair := luaNext_pair hstack hat (by rw [hwalk.heap]; exact hbehind)
  unfold printPairs printTypeSimple
  simp only [Code.bind_apply, onStack_apply, hpair, Outcome.mapState_returned,
    Outcome.andThen_returned, if_true]
  cases first with
  | true => exact ⟨_, rfl⟩
  | false => exact ⟨_, rfl⟩

/-- The state in front of the first pair of a table that is a value. -/
def entered (s : Printing Num) (first : Bool) (k : LuaValue Num) (ref : TableRef)
    (rest : List (LuaValue Num)) : Printing Num :=
  rounded s .nil (.table ref :: k :: rest) (entryHead first k ++ piece "\x7b")

omit [LuaNumber Num] in
theorem Walking.entered {H : LuaHeap Num} {s : Printing Num} (hheap : s.L.heap = H) (first : Bool)
    (k : LuaValue Num) (ref : TableRef) (rest : List (LuaValue Num)) :
    Walking H (rest.length + 2) (.table ref :: k :: rest) (H.pairs ref)
      (entered s first k ref rest) :=
  ⟨hheap, .nil, ref, rfl, ValueAt.top (k :: rest) (.table ref), if_pos rfl⟩

omit [LuaNumber Num] in
/-- **One round** at a table the walk goes down: its own loop, between braces. -/
theorem printPairs_enter {H : LuaHeap Num} {t : Nat} {rest : List (LuaValue Num)}
    {k : LuaValue Num} {ref : TableRef} {ps : LuaPairs Num} {s : Printing Num}
    (hwalk : Walking H t rest ((k, .table ref) :: ps) s) {level maxLevel : Int}
    (hv : descends maxLevel level (.table ref : LuaValue Num) = true) (fuel : Nat) (first : Bool) :
    printPairs (fuel + 2) t first level maxLevel s =
      (printPairs fuel (rest.length + 2) true (level + 1) maxLevel
        (entered s first k ref rest)).andThen
      fun _ s' => printPairs (fuel + 1) t false level maxLevel
        { s' with L := s'.L.pop 1, log := s'.log ++ (piece "\x7d" ++ piece "\x7d") } := by
  obtain ⟨key, ref', hstack, hat, hbehind⟩ := hwalk.place
  have hindex : (if (-1 : Int) < 0 then
      ((atValue s first k (.table ref) rest).L.stack.length : Int) + -1 + 1 else -1).toNat =
        rest.length + 2 := by
    rw [if_pos (by decide)]
    show (((rest.length + 2 : Nat) : Int) + -1 + 1).toNat = _
    omega
  have hentered : (⟨(atValue s first k (.table ref) rest).L.push .nil,
      (atValue s first k (.table ref) rest).log ++ piece "\x7b"⟩ : Printing Num) =
        entered s first k ref rest := by
    simp [atValue, entered, rounded, LuaState.push]
  rw [printPairs_pair hstack hat (by rw [hwalk.heap]; exact hbehind), hv, if_pos rfl,
    printTable_apply hindex, hentered]
  cases printPairs fuel (rest.length + 2) true (level + 1) maxLevel (entered s first k ref rest) with
  | returned u s' =>
      show printPairs _ _ _ _ _ _ = printPairs _ _ _ _ _ _
      simp
  | threw e s' => rfl
  | died d s' => rfl
  | exhausted s' => rfl

omit [LuaNumber Num] in
/-- A table whose loop returns is left behind its text. -/
theorem printPairs_table {H : LuaHeap Num} {t : Nat} {rest : List (LuaValue Num)}
    {k : LuaValue Num} {ref : TableRef} {ps : LuaPairs Num} {s : Printing Num}
    (hwalk : Walking H t rest ((k, .table ref) :: ps) s) {level maxLevel : Int}
    (hv : descends maxLevel level (.table ref : LuaValue Num) = true) {fuel : Nat} {first : Bool}
    {inner : List (LogPiece Num)}
    (hinner : printPairs fuel (rest.length + 2) true (level + 1) maxLevel
      (entered s first k ref rest) =
        .returned () (walked (entered s first k ref rest) (.table ref :: k :: rest) inner)) :
    printPairs (fuel + 2) t first level maxLevel s = printPairs (fuel + 1) t false level maxLevel
      (rounded s k rest (entryHead first k ++ (piece "\x7b" ++ inner ++ piece "\x7d") ++
        piece "\x7d")) := by
  rw [printPairs_enter hwalk hv, hinner]
  show printPairs _ _ _ _ _ _ = _
  simp [walked, entered, rounded, LuaState.pop]

omit [LuaNumber Num] in
/-- A table whose loop does not come to an end. -/
theorem printPairs_table_exhausted {H : LuaHeap Num} {t : Nat} {rest : List (LuaValue Num)}
    {k : LuaValue Num} {ref : TableRef} {ps : LuaPairs Num} {s s' : Printing Num}
    (hwalk : Walking H t rest ((k, .table ref) :: ps) s) {level maxLevel : Int}
    (hv : descends maxLevel level (.table ref : LuaValue Num) = true) {fuel : Nat} {first : Bool}
    (hinner : printPairs fuel (rest.length + 2) true (level + 1) maxLevel
      (entered s first k ref rest) = .exhausted s') :
    printPairs (fuel + 2) t first level maxLevel s = .exhausted s' := by
  rw [printPairs_enter hwalk hv, hinner]
  rfl

omit [DecidableEq Num] [LuaNumber Num] in
theorem walked_rounded (s : Printing Num) (k : LuaValue Num) (rest : List (LuaValue Num))
    (text text' : List (LogPiece Num)) :
    walked (rounded s k rest text) rest text' = walked s rest (text ++ text') := by
  simp [walked, rounded]

omit [LuaNumber Num] in
/-- **The text of a table is written** by the loop, with enough fuel. -/
theorem printPairs_returned {H : LuaHeap Num} (hH : ∀ ref, (H.pairs ref).KeysSound) {maxLevel level : Int}
    {first : Bool} {ps : LuaPairs Num} {text : List (LogPiece Num)}
    (h : EntriesText H maxLevel level first ps text) :
    ∃ N, ∀ fuel, N ≤ fuel → ∀ {s : Printing Num} {t : Nat} {rest : List (LuaValue Num)},
      Walking H t rest ps s →
        printPairs fuel t first level maxLevel s = .returned () (walked s rest text) := by
  induction h with
  | done =>
      refine ⟨1, fun fuel hfuel s t rest hwalk => ?_⟩
      obtain ⟨f, rfl⟩ := Nat.exists_eq_add_of_le' hfuel
      obtain ⟨key, ref, hstack, hat, hbehind⟩ := hwalk.place
      rw [printPairs_done hstack hat (by rw [hwalk.heap]; exact hbehind)]
      simp [walked]
  | @simple level first k v ps text hv _ ih =>
      obtain ⟨N, hN⟩ := ih
      refine ⟨N + 2, fun fuel hfuel s t rest hwalk => ?_⟩
      obtain ⟨f, rfl⟩ := Nat.exists_eq_add_of_le' hfuel
      rw [← Nat.add_assoc, printPairs_simple hwalk hv, hN (f + N + 1) (by omega) (hwalk.step hH _),
        walked_rounded]
  | @table level first k ref ps inner text hv _ _ ihinner ih =>
      obtain ⟨N₁, hN₁⟩ := ihinner
      obtain ⟨N₂, hN₂⟩ := ih
      refine ⟨N₁ + N₂ + 2, fun fuel hfuel s t rest hwalk => ?_⟩
      obtain ⟨f, rfl⟩ := Nat.exists_eq_add_of_le' hfuel
      have hinner := hN₁ (f + (N₁ + N₂)) (by omega) (Walking.entered hwalk.heap first k ref rest)
      rw [← Nat.add_assoc, printPairs_table hwalk hv hinner,
        hN₂ (f + (N₁ + N₂) + 1) (by omega) (hwalk.step hH _), walked_rounded]

omit [LuaNumber Num] in
/-- The loop **writes the text of the pairs**, or its fuel does not suffice. -/
theorem printPairs_cases {H : LuaHeap Num} (hH : ∀ ref, (H.pairs ref).KeysSound) (maxLevel : Int) :
    ∀ (fuel : Nat) {t : Nat} (first : Bool) (level : Int) {rest : List (LuaValue Num)}
      {ps : LuaPairs Num} {s : Printing Num}, Walking H t rest ps s →
      (∃ s', printPairs fuel t first level maxLevel s = .exhausted s') ∨
        ∃ text, EntriesText H maxLevel level first ps text ∧
          printPairs fuel t first level maxLevel s = .returned () (walked s rest text) := by
  intro fuel
  induction fuel using Nat.strong_induction_on with
  | _ fuel ih =>
      intro t first level rest ps s hwalk
      match fuel, ps with
      | 0, _ => exact .inl ⟨s, by unfold printPairs; rfl⟩
      | fuel + 1, [] =>
          obtain ⟨key, ref, hstack, hat, hbehind⟩ := hwalk.place
          refine .inr ⟨[], .done, ?_⟩
          rw [printPairs_done hstack hat (by rw [hwalk.heap]; exact hbehind)]
          simp [walked]
      | 1, (k, v) :: ps => exact .inl (printPairs_one hwalk first level maxLevel)
      | fuel + 2, (k, v) :: ps =>
          cases hv : descends maxLevel level v with
          | false =>
              rw [printPairs_simple hwalk hv]
              rcases ih (fuel + 1) (by omega) false level (hwalk.step hH _) with
                hfuel | ⟨text, htext, hrun⟩
              · exact .inl hfuel
              · refine .inr ⟨_, .simple hv htext, ?_⟩
                rw [hrun, walked_rounded]
          | true =>
              obtain ⟨ref, rfl⟩ : ∃ ref, v = .table ref := by
                cases v with
                | table ref => exact ⟨ref, rfl⟩
                | _ => cases hv
              rcases ih fuel (by omega) true (level + 1) (Walking.entered hwalk.heap first k ref rest) with
                ⟨s', hfuel⟩ | ⟨inner, hinner, hrun⟩
              · exact .inl ⟨s', printPairs_table_exhausted hwalk hv hfuel⟩
              · rw [printPairs_table hwalk hv hrun]
                rcases ih (fuel + 1) (by omega) false level (hwalk.step hH _) with hfuel | ⟨text, htext, hrun'⟩
                · exact .inl hfuel
                · refine .inr ⟨_, .table hv hinner htext, ?_⟩
                  rw [hrun', walked_rounded]

/-! ## §4. The tables that have a text. -/

/-- A table is a value in another one. -/
def LuaHeap.Contains (H : LuaHeap Num) (ref ref' : TableRef) : Prop :=
  ∃ k, (k, .table ref') ∈ H.pairs ref

omit [DecidableEq Num] [LuaNumber Num] in
theorem exists_entriesText_of_forall {H : LuaHeap Num} {ps : LuaPairs Num}
    (h : ∀ k ref, (k, .table ref) ∈ ps → ∀ level,
      ∃ text, EntriesText H (-1) level true (H.pairs ref) text) (level : Int) (first : Bool) :
    ∃ text, EntriesText H (-1) level first ps text := by
  induction ps generalizing first with
  | nil => exact ⟨[], .done⟩
  | cons p ps ih =>
      obtain ⟨k, v⟩ := p
      obtain ⟨text, htext⟩ := ih (fun k ref hmem => h k ref (List.mem_cons_of_mem _ hmem)) false
      cases v with
      | table ref =>
          obtain ⟨inner, hinner⟩ := h k ref List.mem_cons_self (level + 1)
          exact ⟨_, .table rfl hinner htext⟩
      | _ => exact ⟨_, .simple rfl htext⟩

omit [DecidableEq Num] [LuaNumber Num] in
/-- The walk goes down to every table among the values. -/
theorem EntriesText.acc {H : LuaHeap Num} {maxLevel : Int} (hmax : maxLevel < 0) {level : Int}
    {first : Bool} {ps : LuaPairs Num} {text : List (LogPiece Num)}
    (h : EntriesText H maxLevel level first ps text) {k : LuaValue Num} {ref : TableRef}
    (hmem : (k, .table ref) ∈ ps) : Acc (Function.swap H.Contains) ref := by
  induction h generalizing k ref with
  | done => cases hmem
  | simple hv _ ih =>
      rcases List.mem_cons.mp hmem with heq | hmem
      · obtain ⟨rfl, rfl⟩ := Prod.mk.inj heq
        simp [descends, LuaValue.isTable, hmax] at hv
      · exact ih hmem
  | table _ _ _ ihinner ih =>
      rcases List.mem_cons.mp hmem with heq | hmem
      · obtain ⟨rfl, href⟩ := Prod.mk.inj heq
        obtain rfl := LuaValue.table.inj href
        refine Acc.intro _ ?_
        rintro ref' ⟨k', hmem'⟩
        exact ihinner hmem'
      · exact ih hmem

omit [DecidableEq Num] [LuaNumber Num] in
/-- **The tables that have a text** without a limit of the level. -/
theorem exists_entriesText_iff (H : LuaHeap Num) (ref : TableRef) :
    (∀ level, ∃ text, EntriesText H (-1) level true (H.pairs ref) text) ↔
      Acc (Function.swap H.Contains) ref := by
  constructor
  · intro h
    obtain ⟨text, htext⟩ := h 0
    refine Acc.intro ref ?_
    rintro ref' ⟨k, hmem⟩
    exact htext.acc (by decide) hmem
  · intro hacc
    induction hacc with
    | intro ref _ ih =>
        exact fun level => exists_entriesText_of_forall (fun k ref' hmem => ih ref' ⟨k, hmem⟩) level true

/-! ## §5. The arguments. -/

/-- The text of an argument that is no table. -/
def plainText : LuaValue Num → List (LogPiece Num)
  | .string s => [.text (cStr s)]
  | .number n => [.number n]
  | v => [.text v.typeName, .text (bytes ": "), .pointer v]

/-- The text of an argument in front of the pairs. -/
def tableHead (ref : TableRef) : List (LogPiece Num) :=
  piece "table" ++ piece ": " ++ [.pointer (.table ref)] ++ piece ": " ++ piece "\x7b"

/-- What `print_type` writes for an argument. -/
inductive ArgText (H : LuaHeap Num) : LuaValue Num → List (LogPiece Num) → Prop where
  | plain {v : LuaValue Num} : v.isTable = false → ArgText H v (plainText v)
  | table {ref : TableRef} {inner : List (LogPiece Num)} :
      EntriesText H (-1) 0 true (H.pairs ref) inner →
      ArgText H (.table ref) (tableHead ref ++ inner ++ piece "\x7d")

/-- Between two arguments. -/
def tab : List (LuaValue Num) → List (LogPiece Num)
  | [] => []
  | _ :: _ => piece "\t"

/-- What the loop over the arguments writes. -/
inductive ArgsText (H : LuaHeap Num) : List (LuaValue Num) → List (LogPiece Num) → Prop where
  | nil : ArgsText H [] []
  | cons {v : LuaValue Num} {vs : List (LuaValue Num)} {text text' : List (LogPiece Num)} :
      ArgText H v text → ArgsText H vs text' → ArgsText H (v :: vs) (text ++ tab vs ++ text')

omit [LuaNumber Num] in
theorem printType_plain {s : Printing Num} {i : Nat} {v : LuaValue Num} (hat : ValueAt s.L.stack i v)
    (hv : v.isTable = false) (fuel : Nat) : printType (fuel + 1) i true true (-1) s =
      .returned () { s with log := s.log ++ plainText v } := by
  unfold printType
  rw [Code.bind_apply, Code.get_apply, Outcome.andThen_returned, hat.valueAt]
  cases v with
  | table ref => cases hv
  | string b => simp [printTypeSimple_apply, hat.valueAt, simpleText, plainText]
  | number n => simp [printTypeSimple_apply, hat.valueAt, simpleText, plainText]
  | _ => simp [plainText]

/-- The state in front of the first pair of an argument. -/
def argEntered (s : Printing Num) (ref : TableRef) : Printing Num :=
  { s with L := s.L.push .nil, log := s.log ++ tableHead ref }

omit [LuaNumber Num] in
theorem Walking.argEntered {s : Printing Num} {i : Nat} {ref : TableRef}
    (hat : ValueAt s.L.stack i (.table ref)) :
    Walking s.L.heap i s.L.stack (s.L.heap.pairs ref) (argEntered s ref) :=
  ⟨rfl, .nil, ref, rfl, hat, if_pos rfl⟩

omit [LuaNumber Num] in
theorem printType_enter {s : Printing Num} {i : Nat} {ref : TableRef}
    (hat : ValueAt s.L.stack i (.table ref)) (fuel : Nat) :
    printType (fuel + 1) i true true (-1) s =
      (printPairs fuel i true 0 (-1) (argEntered s ref)).andThen
      fun _ s' => .returned () { s' with log := s'.log ++ piece "\x7d" } := by
  have hindex : (if (i : Int) < 0 then (s.L.stack.length : Int) + i + 1 else i).toNat = i := by
    rw [if_neg (by omega), Int.toNat_natCast]
  have hentered : (⟨s.L.push .nil, s.log ++ (piece "table" ++ piece ": ") ++
      [.pointer (.table ref)] ++ piece ": " ++ piece "\x7b"⟩ : Printing Num) =
        argEntered s ref := by
    simp [argEntered, tableHead]
  unfold printType
  rw [Code.bind_apply, Code.get_apply, Outcome.andThen_returned, hat.valueAt]
  simp only [Code.bind_apply, say_apply, Outcome.andThen_returned, if_true]
  rw [← hentered]
  exact printTable_apply (s := ⟨s.L, s.log ++ (piece "table" ++ piece ": ") ++
    [.pointer (.table ref)] ++ piece ": "⟩) hindex fuel 0 (-1)

omit [LuaNumber Num] in
/-- **The text of an argument is written**, with enough fuel. -/
theorem printType_returned {H : LuaHeap Num} (hH : ∀ ref, (H.pairs ref).KeysSound) {v : LuaValue Num}
    {text : List (LogPiece Num)} (h : ArgText H v text) :
    ∃ N, ∀ fuel, N ≤ fuel → ∀ {s : Printing Num} {i : Nat}, s.L.heap = H → ValueAt s.L.stack i v →
      printType fuel i true true (-1) s = .returned () { s with log := s.log ++ text } := by
  cases h with
  | plain hv =>
      refine ⟨1, fun fuel hfuel s i _ hat => ?_⟩
      obtain ⟨f, rfl⟩ := Nat.exists_eq_add_of_le' hfuel
      exact printType_plain hat hv f
  | @table ref inner hinner =>
      obtain ⟨N, hN⟩ := printPairs_returned hH hinner
      refine ⟨N + 1, fun fuel hfuel s i hheap hat => ?_⟩
      obtain ⟨f, rfl⟩ := Nat.exists_eq_add_of_le' hfuel
      subst hheap
      rw [← Nat.add_assoc, printType_enter hat, hN (f + N) (by omega) (Walking.argEntered hat)]
      show Outcome.returned () _ = _
      simp [walked, argEntered, LuaState.push]

omit [LuaNumber Num] in
/-- An argument is printed **with its text**, or the fuel does not suffice. -/
theorem printType_cases {s : Printing Num} (hH : ∀ ref, (s.L.heap.pairs ref).KeysSound) {i : Nat}
    {v : LuaValue Num} (hat : ValueAt s.L.stack i v) (fuel : Nat) :
    (∃ s', printType fuel i true true (-1) s = .exhausted s') ∨
      ∃ text, ArgText s.L.heap v text ∧
        printType fuel i true true (-1) s = .returned () { s with log := s.log ++ text } := by
  cases fuel with
  | zero =>
      cases v with
      | string b => exact .inl ⟨s, by simp [printType, hat.valueAt, printTypeSimple]⟩
      | number n => exact .inl ⟨s, by simp [printType, hat.valueAt, printTypeSimple]⟩
      | table ref => exact .inl ⟨_, by simp [printType, hat.valueAt, printTable]; rfl⟩
      | _ => exact .inr ⟨_, .plain rfl, by simp [printType, hat.valueAt, plainText]⟩
  | succ fuel =>
      by_cases hv : v.isTable = false
      · exact .inr ⟨_, .plain hv, printType_plain hat hv fuel⟩
      · obtain ⟨ref, rfl⟩ : ∃ ref, v = .table ref := by
          cases v with
          | table ref => exact ⟨ref, rfl⟩
          | _ => exact absurd rfl hv
        rw [printType_enter hat]
        rcases printPairs_cases hH (-1) fuel true 0 (Walking.argEntered hat) with
          ⟨s', hfuel⟩ | ⟨inner, hinner, hrun⟩
        · rw [hfuel]
          exact .inl ⟨s', rfl⟩
        · rw [hrun]
          refine .inr ⟨_, .table hinner, ?_⟩
          show Outcome.returned () _ = _
          simp [walked, argEntered, LuaState.push]

/-- The last `left` values of a stack, which is kept from the top down. -/
def lastArgs (stack : List (LuaValue Num)) (left : Nat) : List (LuaValue Num) :=
  (stack.take left).reverse

omit [DecidableEq Num] [LuaNumber Num] in
theorem lastArgs_succ {stack : List (LuaValue Num)} {left : Nat} (hleft : left < stack.length) :
    lastArgs stack (left + 1) = stack[left] :: lastArgs stack left := by
  unfold lastArgs
  rw [List.take_add_one, List.getElem?_eq_getElem hleft, List.reverse_append]
  rfl

omit [DecidableEq Num] [LuaNumber Num] in
theorem valueAt_lastArgs {stack : List (LuaValue Num)} {left : Nat} (hleft : left < stack.length) :
    ValueAt stack (stack.length - left) stack[left] where
  le := Nat.sub_le _ _
  value := by
    rw [Nat.sub_sub_self hleft.le]
    exact List.getElem?_eq_getElem hleft

omit [DecidableEq Num] [LuaNumber Num] in
/-- A tab stands in front of every argument but the first. -/
theorem tab_lastArgs {stack : List (LuaValue Num)} {left : Nat} (hleft : left < stack.length) :
    tab (lastArgs stack left) =
      if stack.length - left < stack.length then piece "\t" else [] := by
  cases left with
  | zero =>
      rw [if_neg (by omega)]
      rfl
  | succ left => rw [if_pos (by omega), lastArgs_succ (by omega), tab]

omit [LuaNumber Num] in
/-- One argument: its own text, a tab and the rest. -/
theorem printArgs_succ {s : Printing Num} {left : Nat} (hleft : left < s.L.stack.length) {fuel : Nat}
    {text : List (LogPiece Num)}
    (htype : printType fuel (s.L.stack.length - left : Nat) true true (-1) s =
      .returned () { s with log := s.log ++ text }) :
    printArgs fuel s.L.stack.length (left + 1) s = printArgs fuel s.L.stack.length left
      { s with log := s.log ++ (text ++ tab (lastArgs s.L.stack left)) } := by
  rw [tab_lastArgs hleft]
  conv_lhs => unfold printArgs
  rw [Code.bind_apply, htype]
  by_cases htab : s.L.stack.length - left < s.L.stack.length
  · rw [if_pos htab, if_pos htab, ← List.append_assoc]
    rfl
  · rw [if_neg htab, if_neg htab, List.append_nil]
    rfl

omit [LuaNumber Num] in
theorem printArgs_exhausted {s s' : Printing Num} {left fuel : Nat}
    (htype : printType fuel (s.L.stack.length - left : Nat) true true (-1) s = .exhausted s') :
    printArgs fuel s.L.stack.length (left + 1) s = .exhausted s' := by
  unfold printArgs
  rw [Code.bind_apply, htype]
  rfl

omit [LuaNumber Num] in
/-- **The text of the last arguments is written**, with enough fuel. -/
theorem printArgs_returned {H : LuaHeap Num} (hH : ∀ ref, (H.pairs ref).KeysSound)
    (stack : List (LuaValue Num)) : ∀ {left : Nat}, left ≤ stack.length →
      ∀ {text : List (LogPiece Num)}, ArgsText H (lastArgs stack left) text →
        ∃ N, ∀ fuel, N ≤ fuel → ∀ {s : Printing Num}, s.L.heap = H → s.L.stack = stack →
          printArgs fuel stack.length left s = .returned () { s with log := s.log ++ text } := by
  intro left
  induction left with
  | zero =>
      intro _ text htext
      cases htext
      exact ⟨0, fun fuel _ s _ _ => by simp [printArgs]⟩
  | succ left ih =>
      intro hleft text htext
      rw [lastArgs_succ hleft] at htext
      cases htext with
      | @cons _ _ text text' hhead htail =>
          obtain ⟨N₁, hN₁⟩ := printType_returned hH hhead
          obtain ⟨N₂, hN₂⟩ := ih (Nat.le_of_succ_le hleft) htail
          refine ⟨N₁ + N₂, fun fuel hfuel s hheap hstack => ?_⟩
          subst hstack
          have hrest := hN₂ fuel (by omega)
            (s := ⟨s.L, s.log ++ (text ++ tab (lastArgs s.L.stack left))⟩) hheap rfl
          rw [printArgs_succ hleft (hN₁ fuel (by omega) hheap (valueAt_lastArgs hleft)), hrest]
          simp

omit [LuaNumber Num] in
/-- The last arguments are printed **with their texts**, or the fuel does not
suffice. -/
theorem printArgs_cases (fuel : Nat) {left : Nat} : ∀ {s : Printing Num},
    (∀ ref, (s.L.heap.pairs ref).KeysSound) → left ≤ s.L.stack.length →
    (∃ s', printArgs fuel s.L.stack.length left s = .exhausted s') ∨
      ∃ text, ArgsText s.L.heap (lastArgs s.L.stack left) text ∧
        printArgs fuel s.L.stack.length left s = .returned () { s with log := s.log ++ text } := by
  induction left with
  | zero => exact fun _ _ => .inr ⟨[], .nil, by simp [printArgs]⟩
  | succ left ih =>
      intro s hH hleft
      rcases printType_cases hH (valueAt_lastArgs hleft) fuel with
        ⟨s', hfuel⟩ | ⟨text, htext, htype⟩
      · exact .inl ⟨s', printArgs_exhausted hfuel⟩
      · rw [printArgs_succ hleft htype, lastArgs_succ hleft]
        rcases ih (s := ⟨s.L, s.log ++ (text ++ tab (lastArgs s.L.stack left))⟩) hH
          (Nat.le_of_succ_le hleft) with hfuel | ⟨text', htext', hrun⟩
        · exact .inl hfuel
        · refine .inr ⟨_, .cons htext htext', ?_⟩
          rw [hrun]
          simp

/-- The arguments without a log priority in front. -/
def printedArgs (L : LuaState Num) : List (LuaValue Num) :=
  match L.stack.reverse with
  | [] => []
  | v :: vs => if v.isNumber && isLogPriority (toInt32 v.toInteger) then vs else v :: vs

/-- The number of these arguments. -/
def printedCount (L : LuaState Num) : Nat :=
  if (L.valueAt 1).isNumber && isLogPriority (toInt32 (L.valueAt 1).toInteger) then L.stack.length - 1
  else L.stack.length

omit [DecidableEq Num] in
theorem printedCount_le (L : LuaState Num) : printedCount L ≤ L.stack.length := by
  unfold printedCount
  split
  · exact Nat.sub_le _ _
  · exact Nat.le_refl _

omit [DecidableEq Num] in
theorem lastArgs_printedCount (L : LuaState Num) :
    lastArgs L.stack (printedCount L) = printedArgs L := by
  have hall : lastArgs L.stack L.stack.length = L.stack.reverse := by
    rw [lastArgs, List.take_length]
  rcases Nat.eq_zero_or_pos L.stack.length with hzero | hpos
  · have hnil : L.stack = [] := List.length_eq_zero_iff.mp hzero
    simp [lastArgs, printedArgs, hnil]
  · have hsucc : L.stack.length - 1 + 1 = L.stack.length := Nat.succ_pred_eq_of_pos hpos
    have hlt : L.stack.length - 1 < L.stack.length := Nat.sub_lt hpos Nat.one_pos
    have hfirst : L.valueAt 1 = L.stack[L.stack.length - 1] := by
      have hat := valueAt_lastArgs hlt
      rw [Nat.sub_sub_self hpos] at hat
      exact hat.valueAt
    have hreverse : L.stack.reverse =
        L.stack[L.stack.length - 1] :: lastArgs L.stack (L.stack.length - 1) := by
      rw [← hall, ← lastArgs_succ hlt, hsucc]
    unfold printedCount printedArgs
    rw [hreverse, hfirst]
    cases hprio : L.stack[L.stack.length - 1].isNumber &&
        isLogPriority (toInt32 L.stack[L.stack.length - 1].toInteger) with
    | true =>
        rw [if_pos rfl]
        exact (if_pos hprio).symm
    | false =>
        rw [if_neg Bool.false_ne_true, hall, hreverse]
        exact (if_neg (by rw [hprio]; exact Bool.false_ne_true)).symm

theorem luaPrint_apply (fuel : Nat) (s : Printing Num) : luaPrint fuel s =
    (printArgs fuel s.L.stack.length (printedCount s.L) s).andThen
      fun _ s' => .returned () { s' with log := s'.log ++ piece "\n" } := by
  unfold luaPrint
  rw [Code.bind_apply, Code.get_apply, Outcome.andThen_returned]
  rcases Nat.eq_zero_or_pos s.L.stack.length with hzero | hpos
  · have hcount : printedCount s.L = 0 := Nat.le_zero.mp (hzero ▸ printedCount_le s.L)
    rw [hcount, if_neg (by omega)]
    rfl
  · rw [if_pos hpos]
    unfold printedCount
    cases (s.L.valueAt 1).isNumber && isLogPriority (toInt32 (s.L.valueAt 1).toInteger) with
    | true => rfl
    | false => rfl

/-! ## §6. The exact condition. -/

/-- What Lua promises of a heap: the keys of a table differ and are not `nil`,
and no table is behind the last one. -/
structure LuaHeap.Sound (H : LuaHeap Num) : Prop where
  keys : ∀ ref, (H.pairs ref).KeysSound
  fresh : ∀ ref, H.next ≤ ref → H.pairs ref = []

omit [DecidableEq Num] [LuaNumber Num] in
theorem LuaHeap.Sound.finite {H : LuaHeap Num} (h : H.Sound) :
    {ref | ∃ ref', H.Contains ref ref'}.Finite := by
  refine (Set.finite_lt_nat H.next).subset ?_
  rintro ref ⟨ref', k, hmem⟩
  by_contra hlast
  rw [h.fresh ref (Nat.le_of_not_lt hlast)] at hmem
  cases hmem

omit [DecidableEq Num] [LuaNumber Num] in
theorem exists_argsText_iff (H : LuaHeap Num) (args : List (LuaValue Num)) :
    (∃ text, ArgsText H args text) ↔
      ∀ ref, .table ref ∈ args → Acc (Function.swap H.Contains) ref := by
  constructor
  · rintro ⟨text, htext⟩ ref hmem
    induction htext with
    | nil => cases hmem
    | cons hhead _ ih =>
        rcases List.mem_cons.mp hmem with rfl | hmem
        · cases hhead with
          | plain hv => cases hv
          | table hinner =>
              refine Acc.intro ref ?_
              rintro ref' ⟨k, hmem'⟩
              exact hinner.acc (by decide) hmem'
        · exact ih hmem
  · intro h
    induction args with
    | nil => exact ⟨[], .nil⟩
    | cons v args ih =>
        obtain ⟨text', htext'⟩ := ih fun ref hmem => h ref (List.mem_cons_of_mem v hmem)
        have hhead : ∃ text, ArgText H v text := by
          cases v with
          | table ref =>
              obtain ⟨inner, hinner⟩ :=
                (exists_entriesText_iff H ref).mpr (h ref List.mem_cons_self) 0
              exact ⟨_, .table hinner⟩
          | _ => exact ⟨_, .plain rfl⟩
        obtain ⟨text, htext⟩ := hhead
        exact ⟨_, .cons htext htext'⟩

/-- A call of `print` comes to an end, has written every entry of its tables,
and leaves the Lua state as it was. -/
def PrintExact (L : LuaState Num) : Prop :=
  ∃ text, ArgsText L.heap (printedArgs L) text ∧
    ∃ N, ∀ fuel, N ≤ fuel → ∀ log,
      luaPrint fuel ⟨L, log⟩ = .returned () ⟨L, log ++ text ++ piece "\n"⟩

/-- The text of the arguments is written where they have one. -/
theorem printExact_of_argsText {L : LuaState Num} (hH : ∀ ref, (L.heap.pairs ref).KeysSound)
    {text : List (LogPiece Num)} (htext : ArgsText L.heap (printedArgs L) text) : PrintExact L := by
  have hargs := htext
  rw [← lastArgs_printedCount] at hargs
  obtain ⟨N, hN⟩ := printArgs_returned hH L.stack (printedCount_le L) hargs
  refine ⟨text, htext, N, fun fuel hfuel log => ?_⟩
  rw [luaPrint_apply, hN fuel hfuel (s := ⟨L, log⟩) rfl rfl]
  rfl

/-- `print` returns **with the text of its arguments**, or does not come to an
end. -/
theorem luaPrint_cases {L : LuaState Num} (hH : ∀ ref, (L.heap.pairs ref).KeysSound) (fuel : Nat)
    (log : List (LogPiece Num)) :
    (∃ s', luaPrint fuel ⟨L, log⟩ = .exhausted s') ∨
      ∃ text, ArgsText L.heap (printedArgs L) text ∧
        luaPrint fuel ⟨L, log⟩ = .returned () ⟨L, log ++ text ++ piece "\n"⟩ := by
  rw [luaPrint_apply]
  rcases printArgs_cases fuel (s := ⟨L, log⟩) hH (printedCount_le L) with
    ⟨s', hfuel⟩ | ⟨text, htext, hrun⟩
  · rw [hfuel]
    exact .inl ⟨s', rfl⟩
  · rw [hrun]
    rw [lastArgs_printedCount] at htext
    exact .inr ⟨text, htext, rfl⟩

/-- The arguments of a call that returns have a text. -/
theorem argsText_of_returned {L : LuaState Num} (hH : ∀ ref, (L.heap.pairs ref).KeysSound)
    {fuel : Nat} {log : List (LogPiece Num)} {u : Unit} {s : Printing Num}
    (hrun : luaPrint fuel ⟨L, log⟩ = .returned u s) :
    ∃ text, ArgsText L.heap (printedArgs L) text := by
  rcases luaPrint_cases hH fuel log with ⟨s', hfuel⟩ | ⟨text, htext, -⟩
  · rw [hfuel] at hrun
    cases hrun
  · exact ⟨text, htext⟩

/-- **What is printed exactly**: arguments from which no table is reached that
reaches itself. -/
theorem print_exact_iff (L : LuaState Num) (hL : L.heap.Sound) :
    PrintExact L ↔ ∀ ref, .table ref ∈ printedArgs L →
      ∀ c, Relation.ReflTransGen L.heap.Contains ref c → ¬ Relation.TransGen L.heap.Contains c c := by
  have hacyclic : (∃ text, ArgsText L.heap (printedArgs L) text) ↔ ∀ ref, .table ref ∈ printedArgs L →
      ∀ c, Relation.ReflTransGen L.heap.Contains ref c → ¬ Relation.TransGen L.heap.Contains c c := by
    rw [exists_argsText_iff]
    exact forall_congr' fun ref => imp_congr_right fun _ => acc_iff_acyclic hL.finite ref
  rw [← hacyclic]
  constructor
  · rintro ⟨_, _, N, hrun⟩
    exact argsText_of_returned hL.keys (hrun N (Nat.le_refl N) [])
  · rintro ⟨text, htext⟩
    exact printExact_of_argsText hL.keys htext

end Print

/-- `t = { inner = { 1 } }`. -/
def nestedTables : LuaHeap Int where
  pairs ref :=
    if ref = 0 then [(.string (bytes "inner"), .table 1)]
    else if ref = 1 then [(.number 1, .number 1)] else []
  next := 2

theorem nestedTables_sound : nestedTables.Sound where
  keys ref := by
    unfold nestedTables
    by_cases h0 : ref = 0
    · exact ⟨by simp [h0], by simp [h0]⟩
    · by_cases h1 : ref = 1
      · exact ⟨by simp [h1], by simp [h1]⟩
      · exact ⟨by simp [h0, h1], by simp [h0, h1]⟩
  fresh ref hle := by
    have h0 : ref ≠ 0 := by rintro rfl; exact absurd hle (by decide)
    have h1 : ref ≠ 1 := by rintro rfl; exact absurd hle (by decide)
    simp [nestedTables, h0, h1]

theorem nestedTables_lt {ref ref' : TableRef} (h : nestedTables.Contains ref ref') : ref < ref' := by
  obtain ⟨k, hmem⟩ := h
  unfold nestedTables at hmem
  by_cases h0 : ref = 0
  · simp only [h0, if_true, List.mem_singleton, Prod.mk.injEq, LuaValue.table.injEq] at hmem
    rw [h0, hmem.2]
    exact Nat.one_pos
  · by_cases h1 : ref = 1
    · simp [h1] at hmem
    · simp [h0, h1] at hmem

theorem nestedTables_trans_lt {ref ref' : TableRef}
    (h : Relation.TransGen nestedTables.Contains ref ref') : ref < ref' := by
  induction h with
  | single h => exact nestedTables_lt h
  | tail _ h ih => exact Nat.lt_trans ih (nestedTables_lt h)

/-- `print("t", t)`. -/
theorem print_exact_iff_nested :
    PrintExact ({ stack := [.table 0, .string (bytes "t")], heap := nestedTables } : LuaState Int) :=
  (print_exact_iff _ nestedTables_sound).mpr fun _ _ c _ hcycle =>
    Nat.lt_irrefl c (nestedTables_trans_lt hcycle)

/-- `t = {}; t.t = t`. -/
def selfReference : LuaHeap Int where
  pairs ref := if ref = 0 then [(.string (bytes "t"), .table 0)] else []
  next := 1

theorem selfReference_sound : selfReference.Sound where
  keys ref := by
    unfold selfReference
    by_cases h0 : ref = 0
    · exact ⟨by simp [h0], by simp [h0]⟩
    · exact ⟨by simp [h0], by simp [h0]⟩
  fresh ref hle := by
    have h0 : ref ≠ 0 := by rintro rfl; exact absurd hle (by decide)
    simp [selfReference, h0]

/-- `print(t)` does not return. -/
theorem self_reference_loops : selfReference.Sound ∧
    ∀ fuel log u s,
      luaPrint fuel ⟨{ stack := [.table 0], heap := selfReference }, log⟩ ≠ .returned u s := by
  refine ⟨selfReference_sound, fun fuel log u s hrun => ?_⟩
  have hacc := (exists_argsText_iff _ _).mp (argsText_of_returned selfReference_sound.keys hrun) 0
    List.mem_cons_self
  exact not_rel_self_of_acc hacc ⟨.string (bytes "t"), List.mem_cons_self⟩

end Petrel
