import EnumWire.Proofs.Printer.Expansion
import EnumWire.Proofs.Traversal

/-! # Templates that can be filled

Between the dollar signs of a template, every second piece is a placeholder. A template expands
exactly when all of them are closed and stand for a text, and then to its pieces with these texts in
their places, which are put in as they are. A script runs exactly when all of its templates can be
filled, and it has the effect of the filled ones. -/
namespace EnumWire

namespace Template

variable {vars : Variables} {template t : Text}

/-- Whether a placeholder stands for a text: it names a variable, or nothing. -/
def Defined (vars : Variables) (name : Text) : Prop := name = [] ∨ (vars.lookup name).isSome

/-- The text that a defined placeholder stands for. -/
def substitute (vars : Variables) (name : Text) : Text :=
  if name = [] then "$" else (vars.lookup name).getD []

/-- Pieces of which every second one, from the second on, is a placeholder. -/
structure PiecesFilled (vars : Variables) (pieces : List Text) : Prop where
  closed : pieces.length % 2 = 1
  defined : ∀ (i : Nat) (name : Text), i % 2 = 1 → pieces[i]? = some name → Defined vars name

/-- Every placeholder of the template is closed and stands for a text. -/
def IsFilled (vars : Variables) (template : Text) : Prop :=
  PiecesFilled vars (Text.split '$' template)

/-- The pieces with texts in the places of the placeholders. -/
def filledPieces (vars : Variables) (pieces : List Text) : Text :=
  (pieces.mapIdx fun i piece => if i % 2 = 1 then substitute vars piece else piece).flatten

def filled (vars : Variables) (template : Text) : Text :=
  filledPieces vars (Text.split '$' template)

theorem value_eq_ok_iff {name : Text} :
    value vars name = .ok t ↔ Defined vars name ∧ t = substitute vars name := by
  unfold value Defined substitute
  by_cases hempty : name = []
  · rw [if_pos hempty, if_pos hempty, Except.ok.injEq, eq_comm]
    exact ⟨fun h => ⟨.inl hempty, h⟩, And.right⟩
  · rw [if_neg hempty, if_neg hempty]
    cases vars.lookup name with
    | none => simp [hempty]
    | some text =>
      rw [Option.getD_some, Except.ok.injEq, eq_comm]
      exact ⟨fun h => ⟨.inr rfl, h⟩, And.right⟩

theorem piecesFilled_singleton (vars : Variables) (literal : Text) :
    PiecesFilled vars [literal] := by
  refine ⟨rfl, fun i name hi hget => ?_⟩
  rw [List.getElem?_eq_none (by rw [List.length_singleton]; omega)] at hget
  cases hget

theorem piecesFilled_cons_cons {literal name : Text} {rest : List Text} :
    PiecesFilled vars (literal :: name :: rest) ↔
      Defined vars name ∧ PiecesFilled vars rest := by
  constructor
  · intro h
    have hclosed := h.closed
    simp only [List.length_cons] at hclosed
    refine ⟨h.defined 1 name rfl rfl, by omega, fun i other hi hget => ?_⟩
    exact h.defined (i + 2) other (by omega) hget
  · rintro ⟨hname, hclosed, hdefined⟩
    refine ⟨by simp only [List.length_cons]; omega, fun i other hi hget => ?_⟩
    match i with
    | 1 => exact Option.some.inj hget ▸ hname
    | i + 2 => exact hdefined i other (by omega) hget

theorem filledPieces_cons_cons (literal name : Text) (rest : List Text) :
    filledPieces vars (literal :: name :: rest) =
      literal ++ (substitute vars name ++ filledPieces vars rest) := by
  simp [filledPieces, List.mapIdx_cons, Nat.add_assoc]

theorem fill_eq_ok_iff {pieces : List Text} (hne : pieces ≠ []) :
    fill vars template pieces = .ok t ↔
      PiecesFilled vars pieces ∧ t = filledPieces vars pieces := by
  fun_induction fill vars template pieces generalizing t with
  | case1 => exact absurd rfl hne
  | case2 literal =>
    have hsingle : filledPieces vars [literal] = literal := by simp [filledPieces]
    simp [hsingle, piecesFilled_singleton, eq_comm]
  | case3 literal name =>
    have hopen : ¬ PiecesFilled vars [literal, name] := fun h => absurd h.closed (by simp)
    simp [hopen]
  | case4 literal name next rest error herror =>
    have hundefined : ¬ Defined vars name := fun h =>
      nomatch herror.symm.trans (value_eq_ok_iff.2 ⟨h, rfl⟩)
    simp [piecesFilled_cons_cons, hundefined]
  | case5 literal name next rest text htext ih =>
    obtain ⟨hdefined, rfl⟩ := value_eq_ok_iff.1 htext
    rw [Traversal.map_eq_ok_iff, piecesFilled_cons_cons, filledPieces_cons_cons]
    constructor
    · rintro ⟨more, hmore, rfl⟩
      obtain ⟨hrest, rfl⟩ := (ih (List.cons_ne_nil _ _)).1 hmore
      exact ⟨⟨hdefined, hrest⟩, rfl⟩
    · rintro ⟨⟨-, hrest⟩, rfl⟩
      exact ⟨_, (ih (List.cons_ne_nil _ _)).2 ⟨hrest, rfl⟩, rfl⟩

theorem expand_eq_ok_iff :
    expand vars template = .ok t ↔ IsFilled vars template ∧ t = filled vars template := by
  rw [expand_eq_fill]
  exact fill_eq_ok_iff (Text.split_ne_nil '$' template)

/-- What is put in is not looked at again. -/
example : expand [("package", "$runtime$"), ("runtime", "a$b")] "`$package$` for $$1 in $runtime$" =
    .ok "`$runtime$` for $1 in a$b" := by decide +kernel

end Template

/-! ### Steps and scripts -/

namespace PrintStep

variable {printer next : Printer}

def IsFilled : PrintStep → Prop
  | .print vars template => Template.IsFilled vars template
  | _ => True

/-- The step with the filled template for a raw text. -/
def filled : PrintStep → PrintStep
  | .print vars template => .raw (Template.filled vars template)
  | step => step

theorem perform_eq_ok_iff (step : PrintStep) :
    printer.perform step = .ok next ↔ step.IsFilled ∧ printer.perform step.filled = .ok next := by
  cases step with
  | print vars template =>
    change (Template.expand vars template).map printer.raw = .ok next ↔
      Template.IsFilled vars template ∧
        Except.ok (printer.raw (Template.filled vars template)) = .ok next
    rw [Traversal.map_eq_ok_iff]
    constructor
    · rintro ⟨t, ht, rfl⟩
      obtain ⟨hfilled, rfl⟩ := Template.expand_eq_ok_iff.1 ht
      exact ⟨hfilled, rfl⟩
    · rintro ⟨hfilled, hnext⟩
      exact ⟨_, Template.expand_eq_ok_iff.2 ⟨hfilled, rfl⟩, Except.ok.inj hnext⟩
  | raw t => exact iff_of_eq (true_and _).symm
  | indent => exact iff_of_eq (true_and _).symm
  | outdent => exact iff_of_eq (true_and _).symm

/-- Without templates, a step has nothing that could fail. -/
theorem exists_perform_filled (printer : Printer) (step : PrintStep) :
    ∃ next, printer.perform step.filled = .ok next := by
  cases step <;> exact ⟨_, rfl⟩

end PrintStep

namespace Script

variable {printer next : Printer} {script : Script} {t : Text}

theorem run_cons_eq_ok_iff {step : PrintStep} :
    printer.run (step :: script) = .ok next ↔
      ∃ between, printer.perform step = .ok between ∧ between.run script = .ok next := by
  rw [Printer.run, List.foldlM_cons]
  exact Traversal.bind_eq_ok

theorem run_eq_ok_iff :
    printer.run script = .ok next ↔
      (∀ step ∈ script, step.IsFilled) ∧ printer.run (script.map PrintStep.filled) = .ok next := by
  induction script generalizing printer with
  | nil => simp
  | cons step script ih =>
    rw [List.map_cons, run_cons_eq_ok_iff, run_cons_eq_ok_iff, List.forall_mem_cons]
    constructor
    · rintro ⟨between, hstep, hrun⟩
      obtain ⟨hstep, hperform⟩ := step.perform_eq_ok_iff.1 hstep
      obtain ⟨hrest, hrun⟩ := ih.1 hrun
      exact ⟨⟨hstep, hrest⟩, between, hperform, hrun⟩
    · rintro ⟨⟨hstep, hrest⟩, between, hperform, hrun⟩
      exact ⟨between, step.perform_eq_ok_iff.2 ⟨hstep, hperform⟩, ih.2 ⟨hrest, hrun⟩⟩

theorem exists_run_filled (printer : Printer) (script : Script) :
    ∃ next, printer.run (script.map PrintStep.filled) = .ok next := by
  induction script generalizing printer with
  | nil => exact ⟨printer, rfl⟩
  | cons step script ih =>
    obtain ⟨between, hstep⟩ := step.exists_perform_filled printer
    obtain ⟨next, hrun⟩ := ih between
    exact ⟨next, run_cons_eq_ok_iff.2 ⟨between, hstep, hrun⟩⟩

/-- Every template of the script can be filled, and on any printer the script has the effect of the
filled texts. -/
structure Fills (script : Script) : Prop where
  filled : ∀ (vars : Variables) (template : Text),
    .print vars template ∈ script → Template.IsFilled vars template
  runs : ∀ printer : Printer, ∃ next, printer.run script = .ok next ∧
    printer.run (script.map PrintStep.filled) = .ok next

/-- A script that runs on one printer runs on all of them. -/
theorem fills_of_run (h : printer.run script = .ok next) : script.Fills := by
  have hfilled := (run_eq_ok_iff.1 h).1
  refine ⟨fun vars template hmem => hfilled _ hmem, fun other => ?_⟩
  obtain ⟨result, hresult⟩ := exists_run_filled other script
  exact ⟨result, run_eq_ok_iff.2 ⟨hfilled, hresult⟩, hresult⟩

end Script
end EnumWire
