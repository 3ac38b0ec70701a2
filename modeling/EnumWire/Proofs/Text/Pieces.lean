import EnumWire.Text.Basic
import Mathlib.Data.List.Basic

/-! # The pieces of a text

Cutting at a separator is the library's cut of a list. No piece holds the separator, nothing else is
lost, and another separator in its place gives the same pieces. -/
namespace EnumWire.Text

variable {sep : Char} {t piece : Text}

theorem split_eq_splitOn (sep : Char) (t : Text) : split sep t = t.splitOn sep := by
  induction t with
  | nil => rfl
  | cons c t ih =>
    rw [split, List.splitOn_cons_eq_if_modifyHead, ih]
    by_cases hc : c = sep
    · rw [if_pos hc, if_pos (beq_iff_eq.2 hc)]
    · rw [if_neg hc, if_neg (mt beq_iff_eq.1 hc)]
      obtain ⟨piece, pieces, hsplit⟩ := List.exists_cons_of_ne_nil (List.splitOn_ne_nil sep t)
      rw [hsplit]
      rfl

theorem split_of_not_mem (h : sep ∉ t) : split sep t = [t] := by
  rw [split_eq_splitOn, List.splitOn_eq_singleton h]

theorem split_append_sep (t u : Text) : split sep (t ++ sep :: u) = split sep t ++ split sep u := by
  rw [split_eq_splitOn, List.splitOn_append_cons_self, split_eq_splitOn, split_eq_splitOn]

/-- What stands before the first separator is in the first piece. -/
theorem split_append_of_not_mem (h : sep ∉ piece) (t : Text) :
    split sep (piece ++ t) = (split sep t).modifyHead (piece ++ ·) := by
  obtain ⟨first, pieces, hsplit⟩ := List.exists_cons_of_ne_nil (split_ne_nil sep t)
  induction piece with
  | nil => exact hsplit.trans (congrArg (List.modifyHead id) hsplit.symm)
  | cons c piece ih =>
    rw [List.mem_cons, not_or] at h
    rw [List.cons_append, split, if_neg (Ne.symm h.1), ih h.2, hsplit]
    rfl

theorem split_intercalate {pieces : List Text} (hne : pieces ≠ [])
    (h : ∀ piece ∈ pieces, sep ∉ piece) : split sep ([sep].intercalate pieces) = pieces := by
  rw [split_eq_splitOn, List.splitOn_intercalate sep h hne]

theorem sep_not_mem_of_mem_split (h : piece ∈ split sep t) : sep ∉ piece := by
  induction t generalizing piece with
  | nil =>
    obtain rfl := List.mem_singleton.1 h
    exact List.not_mem_nil
  | cons c t ih =>
    obtain ⟨first, pieces, hsplit⟩ := List.exists_cons_of_ne_nil (split_ne_nil sep t)
    rw [split, hsplit] at h
    rw [hsplit] at ih
    split at h
    · rcases List.mem_cons.1 h with rfl | h
      · exact List.not_mem_nil
      · exact ih h
    · rename_i hc
      rcases List.mem_cons.1 h with rfl | h
      · rw [List.mem_cons, not_or]
        exact ⟨Ne.symm hc, ih List.mem_cons_self⟩
      · exact ih (List.mem_cons_of_mem first h)

theorem mem_of_mem_split {c : Char} (h : piece ∈ split sep t) (hc : c ∈ piece) : c ∈ t := by
  induction t generalizing piece with
  | nil =>
    obtain rfl := List.mem_singleton.1 h
    cases hc
  | cons d t ih =>
    obtain ⟨first, pieces, hsplit⟩ := List.exists_cons_of_ne_nil (split_ne_nil sep t)
    rw [split, hsplit] at h
    rw [hsplit] at ih
    split at h
    · rcases List.mem_cons.1 h with rfl | h
      · cases hc
      · exact List.mem_cons_of_mem d (ih h hc)
    · rcases List.mem_cons.1 h with rfl | h
      · exact (List.mem_cons.1 hc).elim (fun heq => heq ▸ List.mem_cons_self)
          fun hc => List.mem_cons_of_mem d (ih List.mem_cons_self hc)
      · exact List.mem_cons_of_mem d (ih (List.mem_cons_of_mem first h) hc)

/-- Every character that is no separator is in a piece. -/
theorem exists_mem_split {c : Char} (h : c ∈ t) (hc : c ≠ sep) :
    ∃ piece ∈ split sep t, c ∈ piece := by
  induction t with
  | nil => cases h
  | cons d t ih =>
    obtain ⟨first, pieces, hsplit⟩ := List.exists_cons_of_ne_nil (split_ne_nil sep t)
    rw [split, hsplit]
    rw [hsplit] at ih
    rcases List.mem_cons.1 h with rfl | h
    · rw [if_neg hc]
      exact ⟨_, List.mem_cons_self, List.mem_cons_self⟩
    · obtain ⟨piece, hpiece, hmem⟩ := ih h
      split
      · exact ⟨piece, List.mem_cons_of_mem [] hpiece, hmem⟩
      · rcases List.mem_cons.1 hpiece with rfl | hpiece
        · exact ⟨_, List.mem_cons_self, List.mem_cons_of_mem d hmem⟩
        · exact ⟨piece, List.mem_cons_of_mem _ hpiece, hmem⟩

/-- A text with each separator replaced by one that it does not have. -/
theorem split_replaced {other : Char} (h : other ∉ t) :
    split other (t.map fun c => if c = sep then other else c) = split sep t := by
  induction t with
  | nil => rfl
  | cons c t ih =>
    rw [List.mem_cons, not_or] at h
    rw [List.map_cons, split, split, ih h.2]
    by_cases hc : c = sep
    · rw [if_pos hc, if_pos rfl, if_pos hc]
    · rw [if_neg hc, if_neg (Ne.symm h.1), if_neg hc]

/-! ### Leading pieces -/

theorem isPrefixOf?_append (start t : Text) : List.isPrefixOf? start (start ++ t) = some t := by
  induction start with
  | nil => rfl
  | cons c start ih => simp [List.isPrefixOf?, ih]

theorem splitFirst_append_cons {before : Text} (h : sep ∉ before) (after : Text) :
    splitFirst sep (before ++ sep :: after) = some (before, after) := by
  induction before with
  | nil => simp [splitFirst]
  | cons c before ih =>
    rw [List.mem_cons, not_or] at h
    rw [List.cons_append, splitFirst, if_neg (Ne.symm h.1), ih h.2]
    rfl

theorem splitFirst_eq_none_iff : splitFirst sep t = none ↔ sep ∉ t := by
  induction t with
  | nil => simp [splitFirst]
  | cons c t ih =>
    rw [splitFirst, List.mem_cons, not_or]
    by_cases hc : c = sep
    · simp [hc]
    · rw [if_neg hc, Option.map_eq_none_iff, ih]
      exact (and_iff_right (Ne.symm hc)).symm

theorem splitFirst_eq_some_iff {before after : Text} :
    splitFirst sep t = some (before, after) ↔ t = before ++ sep :: after ∧ sep ∉ before := by
  constructor
  · intro h
    induction t generalizing before with
    | nil => cases h
    | cons c t ih =>
      rw [splitFirst] at h
      split at h
      · rename_i hc
        cases h
        exact ⟨hc ▸ rfl, List.not_mem_nil⟩
      · rename_i hc
        obtain ⟨⟨front, _⟩, hfront, heq⟩ := Option.map_eq_some_iff.1 h
        cases heq
        obtain ⟨rfl, hmem⟩ := ih hfront
        rw [List.mem_cons, not_or]
        exact ⟨rfl, Ne.symm hc, hmem⟩
  · rintro ⟨rfl, hmem⟩
    exact splitFirst_append_cons hmem after

end EnumWire.Text
