import EnumWire.Text.Basic
import Mathlib.Data.List.TakeWhile

/-! # Blanks around a text

Trimming takes off as many blanks as there are at both ends, and nothing else. What is left has a
blank at neither end, and there is one such text. -/
namespace EnumWire.Text

variable {t core before after : Text}

def IsBlank (t : Text) : Prop := ∀ c ∈ t, isBlank c = true

/-- There is a blank neither at the beginning nor at the end. -/
def IsTrimmed (t : Text) : Prop :=
  (∀ c ∈ t.head?, isBlank c = false) ∧ ∀ c ∈ t.getLast?, isBlank c = false

-- The instances are named, as inference may find the one that goes through all characters there are.
instance (t : Text) : Decidable (IsBlank t) := List.decidableBAll _ t

instance (t : Text) : Decidable (IsTrimmed t) :=
  @instDecidableAnd _ _ (Option.decidableForallMem t.head?) (Option.decidableForallMem t.getLast?)

/-- The text is the core with blanks around it. -/
structure Trims (t core : Text) : Prop where
  around : ∃ before after, t = before ++ core ++ after ∧ IsBlank before ∧ IsBlank after
  trimmed : IsTrimmed core

theorem not_mem_of_isBlank {c : Char} (ht : IsBlank t) (hc : isBlank c = false) : c ∉ t :=
  fun hmem => Bool.false_ne_true (hc.symm.trans (ht c hmem))

theorem isBlank_reverse (ht : IsBlank t) : IsBlank t.reverse :=
  fun c hc => ht c (List.mem_reverse.1 hc)

theorem trimLeft_append (hbefore : IsBlank before) (ht : ∀ c ∈ t.head?, isBlank c = false) :
    trimLeft (before ++ t) = t := by
  rw [trimLeft, List.dropWhile_append_of_pos hbefore]
  cases t with
  | nil => rfl
  | cons c t =>
    have hc : isBlank c = false := ht c rfl
    rw [List.dropWhile_cons_of_neg (by simp [hc])]

theorem trimRight_append (hafter : IsBlank after) (ht : ∀ c ∈ t.getLast?, isBlank c = false) :
    trimRight (t ++ after) = t := by
  have hreverse : ∀ c ∈ t.reverse.head?, isBlank c = false := by rwa [List.head?_reverse]
  have hleft := trimLeft_append (isBlank_reverse hafter) hreverse
  rw [← List.reverse_append] at hleft
  rw [trimRight, ← trimLeft, hleft, List.reverse_reverse]

theorem trim_of_isBlank (ht : IsBlank t) : trim t = [] := by
  rw [trim, trimLeft, List.dropWhile_eq_nil_iff.2 ht]
  rfl

theorem Trims.trim_eq (h : Trims t core) : trim t = core := by
  obtain ⟨⟨before, after, rfl, hbefore, hafter⟩, hhead, hlast⟩ := h
  cases core with
  | nil =>
    refine trim_of_isBlank ?_
    rw [List.append_nil]
    exact List.forall_mem_append.2 ⟨hbefore, hafter⟩
  | cons c core =>
    -- The first character of the core is also the first one of what follows the leading blanks.
    have hfront : ∀ d ∈ ((c :: core) ++ after).head?, isBlank d = false := hhead
    rw [trim, List.append_assoc, trimLeft_append hbefore hfront, trimRight_append hafter hlast]

theorem head?_trimLeft (t : Text) : ∀ c ∈ (trimLeft t).head?, isBlank c = false := by
  intro c hc
  have hhead := List.head?_dropWhile_not isBlank t
  rw [← trimLeft, Option.mem_def.1 hc] at hhead
  exact hhead

theorem exists_trimLeft (t : Text) : ∃ before, IsBlank before ∧ t = before ++ trimLeft t :=
  ⟨t.takeWhile isBlank, fun _ hc => List.mem_takeWhile_imp hc, List.takeWhile_append_dropWhile.symm⟩

theorem exists_trimRight (t : Text) : ∃ after, IsBlank after ∧ t = trimRight t ++ after := by
  obtain ⟨blanks, hblanks, hreverse⟩ := exists_trimLeft t.reverse
  refine ⟨blanks.reverse, isBlank_reverse hblanks, ?_⟩
  rw [trimRight, ← trimLeft, ← List.reverse_append, ← hreverse, List.reverse_reverse]

theorem trims_trim (t : Text) : Trims t (trim t) := by
  obtain ⟨before, hbefore, hleft⟩ := exists_trimLeft t
  obtain ⟨after, hafter, hright⟩ := exists_trimRight (trimLeft t)
  rw [← trim] at hright
  refine ⟨⟨before, after, ?_, hbefore, hafter⟩, ?_, ?_⟩
  · rw [List.append_assoc, ← hright, ← hleft]
  · intro c hc
    refine head?_trimLeft t c ?_
    rw [hright, List.head?_append, Option.mem_def.1 hc]
    rfl
  · intro c hc
    rw [trim, trimRight, List.getLast?_reverse] at hc
    exact head?_trimLeft _ c hc

theorem trim_eq_iff : trim t = core ↔ Trims t core :=
  ⟨fun h => h ▸ trims_trim t, Trims.trim_eq⟩

theorem trim_eq_nil_iff : trim t = [] ↔ IsBlank t := by
  refine ⟨fun h => ?_, trim_of_isBlank⟩
  obtain ⟨before, after, ht, hbefore, hafter⟩ := (trims_trim t).around
  rw [h, List.append_nil] at ht
  rw [ht]
  exact List.forall_mem_append.2 ⟨hbefore, hafter⟩

/-- Only the ends of a text matter. -/
theorem isTrimmed_append {first last : Text} (hfirst : IsTrimmed first) (hne : first ≠ [])
    (between : Text) (hlast : IsTrimmed last) (hne' : last ≠ []) :
    IsTrimmed (first ++ between ++ last) := by
  obtain ⟨c, first, rfl⟩ := List.exists_cons_of_ne_nil hne
  refine ⟨hfirst.1, ?_⟩
  rw [List.getLast?_append, List.getLast?_eq_some_getLast hne', Option.some_or,
    ← List.getLast?_eq_some_getLast hne']
  exact hlast.2

end EnumWire.Text
