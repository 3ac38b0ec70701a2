import EnumWire.Printer.Basic

/-! # What templates and scripts print

Cut at its dollar signs, a template is literal text and names in turn. Where every name has a text,
the expansion succeeds and depends on those texts alone. A script all of whose templates expand has
the effect of one raw text, on any printer. -/
namespace EnumWire

namespace Template

variable {vars others : Variables} {keys : List Text}

/-- Fills the pieces between the dollar signs; the second, the fourth and so on are names. -/
def fill (vars : Variables) (template : Text) : List Text → Except TemplateError Text
  | [] => .ok []
  | [literal] => .ok literal
  | [_, _] => .error (.unterminated template)
  | literal :: name :: next :: rest =>
    match value vars name with
    | .error e => .error e
    | .ok text => (fill vars template (next :: rest)).map fun more => literal ++ (text ++ more)

theorem fill_cons_char (vars : Variables) (template : Text) (c : Char) (piece : Text)
    (pieces : List Text) :
    fill vars template ((c :: piece) :: pieces) =
      (fill vars template (piece :: pieces)).map (c :: ·) := by
  cases pieces with
  | nil => rfl
  | cons name pieces =>
    cases pieces with
    | nil => rfl
    | cons next rest =>
      rw [fill, fill]
      cases value vars name with
      | error e => rfl
      | ok text =>
        cases fill vars template (next :: rest) with
        | error e => rfl
        | ok more => rfl

/-- What is left of a template is filled piece by piece; in a placeholder, the first piece is the
rest of its name. -/
theorem expandFrom_eq_fill (vars : Variables) (template t : Text) :
    expandFrom vars template none t = fill vars template (Text.split '$' t) ∧
    ∀ name : Text, expandFrom vars template (some name) t =
      fill vars template ([] :: (Text.split '$' t).modifyHead (name.reverse ++ ·)) := by
  induction t with
  | nil => exact ⟨rfl, fun name => rfl⟩
  | cons c t ih =>
    obtain ⟨hliteral, hname⟩ := ih
    obtain ⟨piece, pieces, hsplit⟩ := List.exists_cons_of_ne_nil (Text.split_ne_nil '$' t)
    rw [hsplit] at hliteral hname
    by_cases hc : c = '$'
    · have hcut : Text.split '$' (c :: t) = [] :: piece :: pieces := by
        rw [Text.split, if_pos hc, hsplit]
      rw [hcut]
      constructor
      · rw [expandFrom, if_pos hc, hname]
        rfl
      · intro name
        rw [expandFrom, if_pos hc, hliteral, List.modifyHead_cons, List.append_nil, fill]
        rfl
    · have hcut : Text.split '$' (c :: t) = (c :: piece) :: pieces := by
        rw [Text.split, if_neg hc, hsplit]
      rw [hcut]
      constructor
      · rw [expandFrom, if_neg hc, hliteral, fill_cons_char]
      · intro name
        rw [expandFrom, if_neg hc, hname]
        simp

theorem expand_eq_fill (vars : Variables) (template : Text) :
    expand vars template = fill vars template (Text.split '$' template) :=
  (expandFrom_eq_fill vars template template).1

/-- Whether the dollar signs of a template come in pairs, with a key or nothing between them. -/
def isFilledBy (keys : List Text) : List Text → Bool
  | [_] => true
  | _ :: name :: next :: rest => (name = [] || keys.contains name) && isFilledBy keys (next :: rest)
  | _ => false

theorem fill_of_isFilledBy (template : Text) {pieces : List Text}
    (hkeys : ∀ key ∈ keys, ∃ text, vars.lookup key = some text ∧ others.lookup key = some text)
    (h : isFilledBy keys pieces = true) :
    ∃ t, fill vars template pieces = .ok t ∧ fill others template pieces = .ok t := by
  fun_induction isFilledBy keys pieces with
  | case1 literal => exact ⟨literal, rfl, rfl⟩
  | case2 literal name next rest ih =>
    rw [Bool.and_eq_true, Bool.or_eq_true, decide_eq_true_eq, List.contains_iff_mem] at h
    obtain ⟨hname, hrest⟩ := h
    obtain ⟨more, hmore, hmore'⟩ := ih hrest
    have hvalue : ∃ text, value vars name = .ok text ∧ value others name = .ok text := by
      unfold value
      by_cases hempty : name = []
      · exact ⟨_, if_pos hempty, if_pos hempty⟩
      · obtain ⟨text, hlookup, hlookup'⟩ := hkeys name (hname.resolve_left hempty)
        refine ⟨text, ?_, ?_⟩
        · rw [if_neg hempty, hlookup]
        · rw [if_neg hempty, hlookup']
    obtain ⟨text, htext, htext'⟩ := hvalue
    refine ⟨literal ++ (text ++ more), ?_, ?_⟩
    · rw [fill, htext, hmore]
      rfl
    · rw [fill, htext', hmore']
      rfl
  | case3 => cases h

theorem expand_of_split {template : Text} (h : Text.split '$' template = [template]) :
    expand vars template = .ok template := by
  rw [expand_eq_fill, h]
  rfl

/-- Where two lists of variables agree on the names of a template, both expand it to one text. -/
theorem expand_of_isFilledBy {template : Text}
    (hkeys : ∀ key ∈ keys, ∃ text, vars.lookup key = some text ∧ others.lookup key = some text)
    (h : isFilledBy keys (Text.split '$' template) = true) :
    ∃ t, expand vars template = .ok t ∧ expand others template = .ok t := by
  rw [expand_eq_fill, expand_eq_fill]
  exact fill_of_isFilledBy template hkeys h

end Template

/-! ### Scripts -/

theorem Printer.indented_zero (atLineStart : Bool) (t : Text) : indented 0 atLineStart t = t := by
  induction t generalizing atLineStart with
  | nil => rfl
  | cons c t ih => simp [indented, indentation, ih]

theorem Printer.raw_append (printer : Printer) (t u : Text) :
    (printer.raw t).raw u = printer.raw (t ++ u) := by
  simp [raw, indented_append, endsLine_append, List.reverseAux_eq]

namespace Script

variable {script other next otherNext : Script} {t u : Text}

/-- On any printer, the script has the effect of one raw text. -/
def Prints (script : Script) (t : Text) : Prop :=
  ∀ printer : Printer, printer.run script = .ok (printer.raw t)

/-- Both scripts print one text. -/
def PrintsLike (script other : Script) : Prop := ∃ t, script.Prints t ∧ other.Prints t

theorem Prints.append (h : script.Prints t) (hnext : next.Prints u) :
    (script ++ next).Prints (t ++ u) := by
  intro printer
  rw [Printer.run_append, h printer]
  change (printer.raw t).run next = _
  rw [hnext, Printer.raw_append]

theorem PrintsLike.append (h : script.PrintsLike other) (hnext : next.PrintsLike otherNext) :
    (script ++ next).PrintsLike (other ++ otherNext) := by
  obtain ⟨t, ht, hother⟩ := h
  obtain ⟨u, hu, hotherNext⟩ := hnext
  exact ⟨t ++ u, ht.append hu, hother.append hotherNext⟩

theorem prints_print {vars : Variables} {template : Text}
    (h : Template.expand vars template = .ok t) : Prints [.print vars template] t := by
  intro printer
  change (printer.print vars template).bind _ = _
  rw [Printer.print, h]
  rfl

theorem Prints.text_eq (h : script.Prints t) : script.text = .ok t := by
  rw [text, h]
  change Except.ok (Printer.text _) = _
  rw [Printer.text_raw, Printer.indented_zero]
  rfl

theorem PrintsLike.text_eq (h : script.PrintsLike other) : script.text = other.text := by
  obtain ⟨t, ht, hother⟩ := h
  rw [ht.text_eq, hother.text_eq]

end Script
end EnumWire
