import EnumWire.Proofs.Printer.Depths
import Mathlib.Order.WellFounded

/-! # Blocks

A script of whole lines may be run at any depth: it prints the lines that it prints by itself, each
further in, and ends at the depth at which it began. On the way it is never further out than that.
If it were, it would come to the left margin from two depths, and could not tell them apart when it
goes back in. -/
namespace EnumWire

theorem PrintStep.monotone_depthAfter (step : PrintStep) :
    Monotone fun depth => step.depthAfter depth := by
  intro m n h
  cases step with
  | raw t => exact h
  | print vars template => exact h
  | indent => exact Nat.succ_le_succ h
  | outdent => exact Nat.sub_le_sub_right h 1

namespace Script

variable {script before : Script} {t : Text}

/-- The script may be run wherever a line begins. -/
structure IsBlock (script : Script) : Prop where
  /-- Each line of the text that a fresh printer prints, unless it is empty, has the indentation of
  the depth before it. -/
  prints : ∃ t, script.text = .ok t ∧
    ∀ printer : Printer, printer.atLineStart = true → ∃ next, printer.run script = .ok next ∧
      next.text = printer.text ++
        ['\n'].intercalate ((Text.split '\n' t).map (Printer.indentedLine printer.depth)) ∧
      next.depth = printer.depth ∧ next.atLineStart = true
  /-- Wherever the script is broken off, the printer is as far in as it was. -/
  stays : ∀ before : Script, before <+: script →
    ∀ printer : Printer, printer.atLineStart = true → ∃ between, printer.run before = .ok between ∧
      printer.depth ≤ between.depth

theorem depthAfter_append (depth : Nat) (before after : Script) :
    (before ++ after).depthAfter depth = after.depthAfter (before.depthAfter depth) :=
  List.foldl_append

theorem monotone_depthAfter (script : Script) : Monotone fun depth => script.depthAfter depth := by
  induction script with
  | nil => exact monotone_id
  | cons step script ih => exact ih.comp step.monotone_depthAfter

theorem PrintsLines.depthAfter_eq (h : script.PrintsLines t) (depth : Nat) :
    script.depthAfter depth = depth :=
  (depth_of_run (h.run { depth := depth } rfl)).symm

theorem PrintsLines.le_depthAfter (h : script.PrintsLines t) (hbefore : before <+: script)
    (depth : Nat) : depth ≤ before.depthAfter depth := by
  obtain ⟨after, rfl⟩ := hbefore
  -- What follows goes back to the depth of the beginning, so that depth is not lost on the way.
  have hinjective : Function.Injective fun depth => before.depthAfter depth := by
    intro m n hmn
    have hafter := congrArg (fun depth => depthAfter depth after) hmn
    simp only [← depthAfter_append, h.depthAfter_eq] at hafter
    exact hafter
  exact (before.monotone_depthAfter.strictMono_of_injective hinjective).le_apply

theorem PrintsLines.exists_run_prefix (h : script.PrintsLines t) (hbefore : before <+: script)
    {printer : Printer} (hstart : printer.atLineStart = true) :
    ∃ between, printer.run before = .ok between := by
  obtain ⟨after, rfl⟩ := hbefore
  have hrun := h.run printer hstart
  rw [Printer.run_append] at hrun
  obtain ⟨between, hbetween, -⟩ := Traversal.bind_eq_ok.1 hrun
  exact ⟨between, hbetween⟩

theorem PrintsLines.isBlock (h : script.PrintsLines t) : script.IsBlock := by
  refine ⟨⟨t, h.text_eq, fun printer hstart => ?_⟩, fun before hbefore printer hstart => ?_⟩
  · refine ⟨_, h.run printer hstart, ?_, rfl, ?_⟩
    · rw [Printer.text_raw, hstart, ← Printer.split_indented, Text.intercalate_split]
    · rw [Printer.raw, hstart]
      exact h.endsLine
  · obtain ⟨between, hrun⟩ := h.exists_run_prefix hbefore hstart
    refine ⟨between, hrun, ?_⟩
    rw [depth_of_run hrun]
    exact h.le_depthAfter hbefore printer.depth

end Script
end EnumWire
