import EnumWire.Text.Basic
import Mathlib.Data.List.Perm.Basic

/-! # The order of texts

Texts are ordered by their code points, which is the order of their bytes in UTF-8. Putting texts in
order keeps each of them once, and what comes out depends only on which texts there are. -/
namespace EnumWire.Text

/-- The bytes of a text in UTF-8. -/
def utf8 (t : Text) : List UInt8 := t.flatMap String.utf8EncodeChar

/-! ### Bytes -/

theorem ofNat_cons_lt {a b : Nat} {as bs : List UInt8} (hb : b < 256) (hle : a ≤ b)
    (h : a = b → as < bs) : UInt8.ofNat a :: as < UInt8.ofNat b :: bs := by
  rw [List.cons_lt_cons_iff]
  rcases Nat.lt_or_eq_of_le hle with hlt | heq
  · exact .inl ((UInt8.ofNat_lt_iff_lt (by rw [UInt8.size]; omega) hb).2 hlt)
  · exact .inr ⟨congrArg UInt8.ofNat heq, h heq⟩

theorem toNat_char_lt (c : Char) : c.toNat < 0x110000 := by
  have h := c.valid
  simp only [UInt32.isValidChar, Nat.isValidChar, Char.toNat_val] at h
  omega

/-- Two characters differ within the bytes of both of them, and there as their code points do. -/
theorem utf8EncodeChar_append_lt {c d : Char} (h : c.toNat < d.toNat) (as bs : List UInt8) :
    String.utf8EncodeChar c ++ as < String.utf8EncodeChar d ++ bs := by
  have hbound := toNat_char_lt d
  simp only [String.utf8EncodeChar, Char.toNat_val]
  -- Where one of them is longer, its first byte is greater; else the bytes are digits to base 64.
  split_ifs <;> simp only [List.cons_append, List.nil_append] <;>
    repeat' first
      | omega
      | refine ofNat_cons_lt (by omega) (by omega) fun _ => ?_

theorem utf8_lt_of_precedes {t u : Text} (h : precedes t u = true) : utf8 t < utf8 u := by
  induction t generalizing u with
  | nil =>
    cases u with
    | nil => cases h
    | cons d u =>
      obtain ⟨byte, bytes, hbytes⟩ :=
        List.exists_cons_of_ne_nil (String.utf8EncodeChar_ne_nil (c := d))
      rw [utf8, utf8, List.flatMap_nil, List.flatMap_cons, hbytes]
      exact List.nil_lt_cons _ _
  | cons c t ih =>
    cases u with
    | nil => cases h
    | cons d u =>
      rw [utf8, utf8, List.flatMap_cons, List.flatMap_cons]
      rw [precedes] at h
      by_cases heq : c = d
      · rw [if_pos heq] at h
        rw [heq]
        exact List.append_left_lt (ih h)
      · rw [if_neg heq, decide_eq_true_eq] at h
        exact utf8EncodeChar_append_lt h _ _

theorem precedes_trichotomous (t u : Text) :
    precedes t u = true ∨ t = u ∨ precedes u t = true := by
  induction t generalizing u with
  | nil =>
    cases u with
    | nil => exact .inr (.inl rfl)
    | cons d u => exact .inl rfl
  | cons c t ih =>
    cases u with
    | nil => exact .inr (.inr rfl)
    | cons d u =>
      rw [precedes, precedes]
      by_cases heq : c = d
      · subst heq
        rw [if_pos rfl, if_pos rfl, List.cons_inj_right]
        exact ih u
      · have hne : c.toNat ≠ d.toNat := fun h => heq (Char.toNat_inj.1 h)
        rw [if_neg heq, if_neg (Ne.symm heq), decide_eq_true_eq, decide_eq_true_eq]
        rcases Nat.lt_or_gt_of_ne hne with hlt | hgt
        · exact .inl hlt
        · exact .inr (.inr hgt)

/-- The order of texts is the order of their bytes. -/
theorem precedes_iff_utf8_lt {t u : Text} : precedes t u = true ↔ utf8 t < utf8 u := by
  refine ⟨utf8_lt_of_precedes, fun h => ?_⟩
  rcases precedes_trichotomous t u with hlt | rfl | hgt
  · exact hlt
  · exact absurd h (List.lt_irrefl _)
  · exact absurd h (List.lt_asymm (utf8_lt_of_precedes hgt))

/-! ### Texts in order -/

variable {texts others : List Text}

theorem mem_insertOrdered {t u : Text} : u ∈ insertOrdered t texts ↔ u = t ∨ u ∈ texts := by
  induction texts with
  | nil => exact List.mem_cons
  | cons v texts ih =>
    rw [insertOrdered]
    split
    · rename_i heq
      rw [heq, List.mem_cons]
      exact ⟨.inr, fun h => h.elim .inl id⟩
    · split
      · rw [List.mem_cons]
      · rw [List.mem_cons, ih, List.mem_cons]
        exact or_left_comm

theorem mem_ascending {t : Text} : t ∈ ascending texts ↔ t ∈ texts := by
  induction texts with
  | nil => rfl
  | cons u texts ih =>
    rw [ascending, List.foldr_cons, mem_insertOrdered, List.mem_cons]
    exact or_congr_right ih

theorem pairwise_insertOrdered (t : Text) (h : texts.Pairwise fun u v => utf8 u < utf8 v) :
    (insertOrdered t texts).Pairwise fun u v => utf8 u < utf8 v := by
  induction texts with
  | nil => exact List.pairwise_singleton _ t
  | cons v texts ih =>
    obtain ⟨hv, hrest⟩ := List.pairwise_cons.1 h
    rw [insertOrdered]
    split
    · exact h
    · rename_i hne
      split
      · rename_i hlt
        have hlt := precedes_iff_utf8_lt.1 hlt
        refine List.pairwise_cons.2 ⟨fun u hu => ?_, h⟩
        rcases List.mem_cons.1 hu with rfl | hu
        · exact hlt
        · exact List.lt_trans hlt (hv u hu)
      · rename_i hge
        have hgt := precedes_iff_utf8_lt.1
          (((precedes_trichotomous t v).resolve_left hge).resolve_left hne)
        refine List.pairwise_cons.2 ⟨fun u hu => ?_, ih hrest⟩
        rcases mem_insertOrdered.1 hu with rfl | hu
        · exact hgt
        · exact hv u hu

theorem pairwise_ascending (texts : List Text) :
    (ascending texts).Pairwise fun t u => utf8 t < utf8 u := by
  induction texts with
  | nil => exact List.Pairwise.nil
  | cons t texts ih => exact pairwise_insertOrdered t ih

theorem nodup_of_ascending (h : texts.Pairwise fun t u => utf8 t < utf8 u) : texts.Nodup :=
  h.imp fun {t u} hlt (heq : t = u) => List.lt_irrefl (utf8 u) (heq ▸ hlt)

/-- Lists in order are the same where they have the same texts. -/
theorem eq_of_ascending (h : texts.Pairwise fun t u => utf8 t < utf8 u)
    (hothers : others.Pairwise fun t u => utf8 t < utf8 u)
    (hmem : ∀ t, t ∈ texts ↔ t ∈ others) : texts = others := by
  have hperm := (List.perm_ext_iff_of_nodup (nodup_of_ascending h) (nodup_of_ascending hothers)).2
    fun t => hmem t
  exact hperm.eq_of_pairwise (fun t u _ _ htu hut => absurd hut (List.lt_asymm htu)) h hothers

theorem ascending_congr (h : ∀ t, t ∈ texts ↔ t ∈ others) : ascending texts = ascending others :=
  eq_of_ascending (pairwise_ascending texts) (pairwise_ascending others) fun t => by
    rw [mem_ascending, mem_ascending, h]

end EnumWire.Text
