import EnumWire.Command.Plan
import EnumWire.Proofs.Files.Making

/-! # What steps leave

Steps that all succeed leave the texts that they write where the paths of these lead. Everything
else is as it was before, or a new directory. -/
namespace EnumWire.Command

open EnumWire.Files FileTree

namespace Step

variable {step : Step} {steps : List Step} {s t u : Surroundings}

/-- A step that writes does so to a path that ends in a plain name. -/
def WritesByName (step : Step) : Prop :=
  ∀ role path text, step = .write role path text → ∃ above name, path.EndsIn above name

/-- A location has a text that some of the steps write to it. -/
def Placed (steps : List Step) (tree : FileTree) (location : Location) : Prop :=
  ∃ role path text, .write role path text ∈ steps ∧ tree.locate path = .ok location ∧
    tree.find? location = some (.text text)

/-- What steps leave of what they found. -/
structure Leaves (steps : List Step) (tree left : FileTree) : Prop where
  wellFormed : left.WellFormed
  grows : Grows tree left
  /-- Nothing else is touched. -/
  find?_eq : ∀ location, left.find? location = tree.find? location ∨
    tree.find? location = none ∧ left.find? location = some .directory ∨
    Placed steps left location
  /-- Each path that was written to leads to a text that was. -/
  placed : ∀ role path text, .write role path text ∈ steps →
    ∃ location, left.locate path = .ok location ∧ Placed steps left location

theorem leaves_nil {tree : FileTree} (h : tree.WellFormed) : Leaves [] tree tree :=
  ⟨h, .refl tree, fun _ => .inl rfl, fun _ _ _ hmem => nomatch hmem⟩

/-! ### One step -/

theorem leaves_of_furnishes {tree left : FileTree} (h : Furnishes tree left)
    (hstep : ∀ role path text, step ≠ .write role path text) : Leaves [step] tree left where
  wellFormed := h.wellFormed
  grows := h.grows
  find?_eq location := (h.find?_eq location).imp_right .inl
  placed role path text hmem := absurd (List.mem_singleton.1 hmem).symm (hstep role path text)

theorem leaves_write {role : FileRole} {path : Path} {text : Text} {tree left : FileTree}
    {above : List Text} {name : Text} (h : tree.WellFormed) (hpath : path.EndsIn above name)
    (hwrite : tree.write path text = .ok left) : Leaves [.write role path text] tree left := by
  obtain ⟨place, -, hdirectory, hfree, rfl, hlocate⟩ := h.write_eq_ok hpath hwrite
  have hne : place ++ [name] ≠ [] := List.concat_ne_nil _ _
  have hentry : tree.find? (place ++ [name]) = some .directory → Entry.text text = .directory :=
    fun hfound => absurd hfound hfree
  have hplaced : Placed [.write role path text] (tree.put (place ++ [name]) (.text text))
      (place ++ [name]) :=
    ⟨role, path, text, List.mem_singleton.2 rfl, hlocate, find?_put_self hne _⟩
  refine ⟨h.put hne ?_ hentry, put_grows hne hentry, fun location => ?_, ?_⟩
  · rwa [List.dropLast_concat]
  · by_cases hlocation : location = place ++ [name]
    · rw [hlocation]
      exact .inr (.inr hplaced)
    · exact .inl (find?_put_of_ne hlocation _)
  · intro other path' text' hmem
    obtain ⟨rfl, rfl, rfl⟩ := Step.write.inj (List.mem_singleton.1 hmem)
    exact ⟨place ++ [name], hlocate, hplaced⟩

theorem leaves_of_perform (h : s.tree.WellFormed) (hname : step.WritesByName)
    (hperform : step.perform s = (.ok (), t)) : Leaves [step] s.tree t.tree := by
  cases step with
  | print text =>
    obtain rfl := (Prod.mk.inj hperform).2
    exact leaves_of_furnishes h.furnishes_self nofun
  | create path =>
    obtain rfl := (Prod.mk.inj hperform).2
    exact leaves_of_furnishes (h.makeDirectories path) nofun
  | write role path text =>
    obtain ⟨above, name, hpath⟩ := hname role path text rfl
    rw [perform] at hperform
    split at hperform
    · rename_i left hwrite
      obtain rfl := (Prod.mk.inj hperform).2
      exact leaves_write h hpath hwrite
    · cases (Prod.mk.inj hperform).1

/-! ### Step after step -/

theorem Placed.mono {more : List Step} {tree : FileTree} {location : Location}
    (h : Placed steps tree location) (hsub : steps ⊆ more) : Placed more tree location := by
  obtain ⟨role, path, text, hmem, hplaced⟩ := h
  exact ⟨role, path, text, hsub hmem, hplaced⟩

/-- A text stays in its place unless another one is written there. -/
theorem Leaves.placed_of_placed {more : List Step} {tree left : FileTree} {location : Location}
    (h : Leaves more tree left) (hplaced : Placed steps tree location) :
    Placed (steps ++ more) left location := by
  obtain ⟨role, path, text, hmem, hlocate, hfound⟩ := hplaced
  obtain hsame | ⟨hnone, -⟩ | hover := h.find?_eq location
  · exact ⟨role, path, text, List.mem_append_left _ hmem, h.grows.locate hlocate, hsame ▸ hfound⟩
  · cases hnone.symm.trans hfound
  · exact hover.mono (List.subset_append_right _ _)

theorem Leaves.append {more : List Step} {tree left later : FileTree} (h : Leaves steps tree left)
    (hmore : Leaves more left later) : Leaves (steps ++ more) tree later where
  wellFormed := hmore.wellFormed
  grows := h.grows.trans hmore.grows
  find?_eq location := by
    obtain hsame | ⟨hnone, hdirectory⟩ | hplaced := hmore.find?_eq location
    · obtain hkept | ⟨hnone, hdirectory⟩ | hplaced := h.find?_eq location
      · exact .inl (hsame.trans hkept)
      · exact .inr (.inl ⟨hnone, hsame.trans hdirectory⟩)
      · exact .inr (.inr (hmore.placed_of_placed hplaced))
    · have hbefore : tree.find? location = none := by
        rw [← Option.not_isSome_iff_eq_none] at hnone ⊢
        exact mt (h.grows.isSome_of_isSome location) hnone
      exact .inr (.inl ⟨hbefore, hdirectory⟩)
    · exact .inr (.inr (hplaced.mono (List.subset_append_right _ _)))
  placed role path text hmem := by
    obtain hmem | hmem := List.mem_append.1 hmem
    · obtain ⟨location, hlocate, hplaced⟩ := h.placed role path text hmem
      exact ⟨location, hmore.grows.locate hlocate, hmore.placed_of_placed hplaced⟩
    · obtain ⟨location, hlocate, hplaced⟩ := hmore.placed role path text hmem
      exact ⟨location, hlocate, hplaced.mono (List.subset_append_right _ _)⟩

theorem performAll_cons_eq_ok : performAll (step :: steps) s = (.ok (), u) ↔
    ∃ t, step.perform s = (.ok (), t) ∧ performAll steps t = (.ok (), u) := by
  rw [performAll]
  split
  · rename_i t hperform
    refine ⟨fun h => ⟨t, hperform, h⟩, fun ⟨other, hother, hrest⟩ => ?_⟩
    obtain rfl := (Prod.mk.inj (hperform.symm.trans hother)).2
    exact hrest
  · rename_i hfailed
    exact ⟨fun h => absurd h (hfailed u), fun ⟨t, ht, _⟩ => absurd ht (hfailed t)⟩

theorem leaves_of_performAll (h : s.tree.WellFormed) (hname : ∀ step ∈ steps, step.WritesByName)
    (hrun : performAll steps s = (.ok (), u)) : Leaves steps s.tree u.tree := by
  induction steps generalizing s with
  | nil =>
    obtain rfl := (Prod.mk.inj hrun).2
    exact leaves_nil h
  | cons step steps ih =>
    rw [List.forall_mem_cons] at hname
    obtain ⟨t, hperform, hrest⟩ := performAll_cons_eq_ok.1 hrun
    have hfirst := leaves_of_perform h hname.1 hperform
    exact hfirst.append (ih hfirst.wellFormed hname.2 hrest)

theorem performAll_append_eq_ok {more : List Step} :
    performAll (steps ++ more) s = (.ok (), u) ↔
      ∃ t, performAll steps s = (.ok (), t) ∧ performAll more t = (.ok (), u) := by
  induction steps generalizing s with
  | nil => exact ⟨fun h => ⟨s, rfl, h⟩, fun ⟨t, ht, hmore⟩ => (Prod.mk.inj ht).2 ▸ hmore⟩
  | cons step steps ih =>
    rw [List.cons_append, performAll_cons_eq_ok]
    simp only [performAll_cons_eq_ok, ih]
    constructor
    · rintro ⟨first, hperform, t, hsteps, hmore⟩
      exact ⟨t, ⟨first, hperform, hsteps⟩, hmore⟩
    · rintro ⟨t, ⟨first, hperform, hsteps⟩, hmore⟩
      exact ⟨first, hperform, t, hsteps, hmore⟩

/-- What is written stays if nothing that is written later leads there. -/
theorem read_of_performAll_write {role : FileRole} {path : Path} {text : Text} {above : List Text}
    {name : Text} (h : s.tree.WellFormed) (hpath : path.EndsIn above name)
    (hname : ∀ step ∈ steps, step.WritesByName)
    (hrun : performAll (.write role path text :: steps) s = (.ok (), u))
    (hlast : ∀ role other text location, .write role other text ∈ steps →
      u.tree.locate path = .ok location → u.tree.locate other ≠ .ok location) :
    u.tree.read path = .ok text := by
  obtain ⟨t, hperform, hrest⟩ := performAll_cons_eq_ok.1 hrun
  have hwrites : WritesByName (.write role path text) := fun _ _ _ heq =>
    (Step.write.inj heq).2.1 ▸ ⟨above, name, hpath⟩
  have hfirst := leaves_of_perform h hwrites hperform
  have hleaves := leaves_of_performAll hfirst.wellFormed hname hrest
  obtain ⟨location, hlocate, _, _, _, hmem, -, hfound⟩ :=
    hfirst.placed _ _ _ (List.mem_singleton.2 rfl)
  obtain ⟨rfl, rfl, rfl⟩ := Step.write.inj (List.mem_singleton.1 hmem)
  have hlater := hleaves.grows.locate hlocate
  obtain hsame | ⟨hnone, -⟩ | ⟨_, _, _, hwrite, hother, -⟩ := hleaves.find?_eq location
  · exact read_of_locate hlater (hsame.trans hfound)
  · cases hnone.symm.trans hfound
  · exact absurd hother (hlast _ _ _ _ hwrite hlater)

/-! ### New directories -/

variable {location : Location}

theorem exists_leadsTo_of_perform {path : Path} (h : s.tree.WellFormed)
    (hperform : (Step.create path).perform s = (.ok (), t)) :
    ∃ root, t.tree.LeadsTo path root := by
  have hok : (s.tree.makeDirectories path).1.mapError (Failure.create path) = .ok () :=
    (Prod.mk.inj hperform).1
  obtain rfl := (Prod.mk.inj hperform).2
  refine h.leadsTo_makeDirectories ?_
  cases hmade : (s.tree.makeDirectories path).1 with
  | ok _ => rfl
  | error fault =>
    rw [hmade] at hok
    cases hok

theorem exists_create_of_perform (h : s.tree.WellFormed) (hname : step.WritesByName)
    (hperform : step.perform s = (.ok (), t)) (hnone : s.tree.find? location = none)
    (hdirectory : t.tree.find? location = some .directory) :
    ∃ path, step = .create path ∧ t.tree.OnWay path location := by
  cases step with
  | print text =>
    obtain rfl := (Prod.mk.inj hperform).2
    cases hnone.symm.trans hdirectory
  | create path =>
    obtain rfl := (Prod.mk.inj hperform).2
    exact ⟨path, rfl, h.makes_makeDirectories path location hnone hdirectory⟩
  | write role path text =>
    obtain ⟨above, name, hpath⟩ := hname role path text rfl
    rw [perform] at hperform
    split at hperform
    · rename_i left hwrite
      obtain rfl := (Prod.mk.inj hperform).2
      obtain ⟨place, -, -, -, rfl, -⟩ := h.write_eq_ok hpath hwrite
      by_cases hlocation : location = place ++ [name]
      · rw [hlocation, find?_put_self (List.concat_ne_nil _ _)] at hdirectory
        cases hdirectory
      · rw [find?_put_of_ne hlocation, hnone] at hdirectory
        cases hdirectory
    · cases (Prod.mk.inj hperform).1

/-- A new directory is on the way of one that was asked for. -/
theorem exists_create_of_performAll (h : s.tree.WellFormed)
    (hname : ∀ step ∈ steps, step.WritesByName) (hrun : performAll steps s = (.ok (), u))
    (hnone : s.tree.find? location = none) (hdirectory : u.tree.find? location = some .directory) :
    ∃ path, .create path ∈ steps ∧ u.tree.OnWay path location := by
  induction steps generalizing s with
  | nil =>
    obtain rfl := (Prod.mk.inj hrun).2
    cases hnone.symm.trans hdirectory
  | cons step steps ih =>
    rw [List.forall_mem_cons] at hname
    obtain ⟨t, hperform, hrest⟩ := performAll_cons_eq_ok.1 hrun
    have hwell := (leaves_of_perform h hname.1 hperform).wellFormed
    have hleaves := leaves_of_performAll hwell hname.2 hrest
    obtain hsame | ⟨hafter, -⟩ | ⟨_, _, text, -, -, htext⟩ := hleaves.find?_eq location
    · obtain ⟨path, rfl, hway⟩ :=
        exists_create_of_perform h hname.1 hperform hnone (hsame.symm.trans hdirectory)
      exact ⟨path, List.mem_cons_self, hleaves.grows.onWay hway⟩
    · obtain ⟨path, hmem, hway⟩ := ih hwell hname.2 hrest hafter
      exact ⟨path, List.mem_cons_of_mem _ hmem, hway⟩
    · cases htext.symm.trans hdirectory

end Step
end EnumWire.Command
