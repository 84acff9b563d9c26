/-
  Petrel.Framework.Records — records of fields as lines of text.

  A record is written as its fields with a separator between them and a
  terminator behind the last one.  The reader cuts the text at the terminators
  and every line at the separators; a text that does not end in a terminator
  is not read.

  Main results:
    * `append_sep_inj`         — the cut at the last separator.
    * `splitOn_writeRecords`   — the lines of what was written.
    * `readRecords_write_iff`  — records are read back if and only if no field
      has the separator or the terminator.
-/

import Mathlib

namespace Petrel.Framework

variable {α : Type*} [DecidableEq α] (sep term : α)

/-- Write a record. -/
def writeRecord (r : List (List α)) : List α := [sep].intercalate r ++ [term]

def writeRecords (rs : List (List (List α))) : List α := rs.flatMap (writeRecord sep term)

/-- The records of a text. -/
def readRecords (text : List α) : Option (List (List (List α))) :=
  let lines := text.splitOn term
  if lines.getLast? = some [] then some (lines.dropLast.map (fun line => line.splitOn sep)) else none

variable {sep term}

/-- A part does not have what the text is cut at. -/
theorem notMem_of_mem_splitOn {text part : List α} (h : part ∈ text.splitOn sep) : sep ∉ part := by
  induction text generalizing part with
  | nil =>
      obtain rfl := List.mem_singleton.mp (List.splitOn_nil (a := sep) ▸ h)
      exact List.not_mem_nil
  | cons c text ih =>
      rw [List.splitOn_cons_eq_if_modifyHead] at h
      by_cases hc : c = sep
      · rw [if_pos (beq_iff_eq.mpr hc)] at h
        rcases List.mem_cons.mp h with rfl | h
        · exact List.not_mem_nil
        · exact ih h
      · rw [if_neg (fun h => hc (beq_iff_eq.mp h))] at h
        -- the first part is longer by `c`
        obtain ⟨first, parts, hparts⟩ := List.exists_cons_of_ne_nil (List.splitOn_ne_nil sep text)
        rw [hparts, List.modifyHead_cons] at h
        rcases List.mem_cons.mp h with rfl | h
        · rw [List.mem_cons, not_or]
          exact ⟨Ne.symm hc, ih (hparts ▸ List.mem_cons_self)⟩
        · exact ih (hparts ▸ List.mem_cons_of_mem first h)

/-- A part has only what the text has. -/
theorem mem_of_mem_splitOn {text part : List α} (h : part ∈ text.splitOn sep) {a : α} (ha : a ∈ part) :
    a ∈ text := by
  have htext : [sep].intercalate (text.splitOn sep) = text := List.intercalate_splitOn sep
  rw [← htext]
  generalize text.splitOn sep = parts at h
  induction parts with
  | nil => exact nomatch h
  | cons p ps ih =>
      cases ps with
      | nil =>
          obtain rfl := List.mem_singleton.mp h
          simpa using ha
      | cons q ps =>
          rw [List.intercalate_cons_cons, List.append_assoc, List.mem_append]
          rcases List.mem_cons.mp h with rfl | h
          · exact .inl ha
          · exact .inr (List.mem_append_right _ (ih h))

/-- A text is cut in one way at its last separator. -/
theorem append_sep_inj {a b s t : List α} (hs : sep ∉ s) (ht : sep ∉ t)
    (h : a ++ sep :: s = b ++ sep :: t) : a = b ∧ s = t := by
  -- read from behind, the text has its last part up to the separator
  have hlast : ∀ {a s : List α}, sep ∉ s →
      (a ++ sep :: s).reverse.takeWhile (· ≠ sep) = s.reverse := by
    intro a s hs
    have hne : ∀ c ∈ s.reverse, decide (c ≠ sep) = true := fun c hc =>
      decide_eq_true fun heq => hs (heq ▸ List.mem_reverse.mp hc)
    rw [List.reverse_append, List.reverse_cons, List.append_assoc, List.takeWhile_append_of_pos hne]
    simp
  have hst : s = t := by
    have := (hlast (a := a) hs).symm.trans ((congrArg _ (congrArg List.reverse h)).trans (hlast ht))
    exact List.reverse_injective this
  subst hst
  exact ⟨List.append_cancel_right h, rfl⟩

omit [DecidableEq α] in
theorem notMem_intercalate {a : α} (ha : a ≠ sep) {fields : List (List α)}
    (h : ∀ f ∈ fields, a ∉ f) : a ∉ [sep].intercalate fields := by
  induction fields with
  | nil => exact List.not_mem_nil
  | cons f fields ih =>
      have hf := h f List.mem_cons_self
      cases fields with
      | nil => simpa using hf
      | cons g fields =>
          have hrest := ih fun g' hg' => h g' (List.mem_cons_of_mem f hg')
          rw [List.intercalate_cons_cons]
          simp [hf, ha, hrest]

/-- **The lines of the written records**: each record is one, and nothing
stands behind the last terminator. -/
theorem splitOn_writeRecords (hne : term ≠ sep) {rs : List (List (List α))}
    (h : ∀ r ∈ rs, ∀ f ∈ r, term ∉ f) :
    (writeRecords sep term rs).splitOn term = rs.map (fun r => [sep].intercalate r) ++ [[]] := by
  induction rs with
  | nil => exact List.splitOn_nil (a := term)
  | cons r rs ih =>
      have hr : term ∉ [sep].intercalate r := notMem_intercalate hne (h r List.mem_cons_self)
      have htext : writeRecords sep term (r :: rs) =
          [sep].intercalate r ++ term :: writeRecords sep term rs := by
        unfold writeRecords
        rw [List.flatMap_cons, writeRecord, List.append_assoc]
        rfl
      rw [htext, List.splitOn_append_cons_self_of_not_mem hr,
        ih fun r' hr' => h r' (List.mem_cons_of_mem r hr')]
      rfl

/-- **What is written is read back** exactly when it can be told apart from the
separators and terminators. -/
theorem readRecords_write_iff (hne : term ≠ sep) {rs : List (List (List α))} (hrs : ∀ r ∈ rs, r ≠ []) :
    readRecords sep term (writeRecords sep term rs) = some rs ↔
      ∀ r ∈ rs, ∀ f ∈ r, sep ∉ f ∧ term ∉ f := by
  unfold readRecords
  constructor
  · intro hread r hr f hf
    obtain ⟨-, hmap⟩ := Option.ite_some_none_eq_some.mp hread
    rw [← hmap] at hr
    obtain ⟨line, hline, rfl⟩ := List.mem_map.mp hr
    have hterm := notMem_of_mem_splitOn (List.mem_of_mem_dropLast hline)
    exact ⟨notMem_of_mem_splitOn hf, fun h => hterm (mem_of_mem_splitOn hf h)⟩
  · intro h
    have hfields : ∀ r ∈ rs, ([sep].intercalate r).splitOn sep = r := fun r hr =>
      List.splitOn_intercalate sep (fun f hf => (h r hr f hf).1) (hrs r hr)
    rw [splitOn_writeRecords hne fun r hr f hf => (h r hr f hf).2]
    simp only [List.getLast?_concat, List.dropLast_concat, if_true, List.map_map]
    exact congrArg some ((List.map_congr_left hfields).trans (List.map_id' rs))

end Petrel.Framework
