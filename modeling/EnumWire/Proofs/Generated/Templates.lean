import EnumWire.Proofs.Generated.Module
import EnumWire.Proofs.Printer.Blocks
import EnumWire.Proofs.Printer.Filling

/-! # The templates of generated source

Nothing that the generators print leaves a placeholder open or without a text, whatever the names,
numbers and parameters are: the module of a pool, an enumeration or a message by itself, and every
fragment of a field. So none of them fails, on any printer, and a dollar sign in a name is printed
as it is. But for the module, all of them are blocks, so that they may be put into other source
wherever a line begins. -/
namespace EnumWire

theorem Script.PrintsLines.fills {script : Script} {t : Text} (h : script.PrintsLines t) :
    script.Fills :=
  fills_of_run (h.run {} rfl)

/-- What a field may be asked to print. -/
inductive Fragment where
  | members
  | initialization
  | merging
  | parsing
  | alternateParsing
  | serialization
  | size
  | cacheMembers
  | cacheInitialization
  | cacheAccessors
  deriving DecidableEq

namespace Field

def fragment (params : Params) (field : Field) : Fragment → Script
  | .members => field.members params
  | .initialization => field.initialization params
  | .merging => field.merging params
  | .parsing => field.parsing params
  | .alternateParsing => field.alternateParsing params
  | .serialization => field.serialization params
  | .size => field.size params
  | .cacheMembers => field.cacheMembers params
  | .cacheInitialization => field.cacheInitialization params
  | .cacheAccessors => field.cacheAccessors params

variable (params : Params) (field : Field)

/-- Where a fragment is for packed fields only, the others print nothing. -/
theorem exists_printsLines_cached {script : Script} {t : Text} (h : script.PrintsLines t) :
    ∃ t, Script.PrintsLines (if field.hasSizeCache then script else []) t := by
  split
  · exact ⟨t, h⟩
  · exact ⟨[], Script.printsLines_nil⟩

theorem exists_printsLines_alternateParsing :
    ∃ t, (field.alternateParsing params).PrintsLines t := by
  unfold alternateParsing
  split
  · exact ⟨_, printsLines_intake params field _⟩
  · exact ⟨[], Script.printsLines_nil⟩

theorem exists_printsLines_fragment (fragment : Fragment) :
    ∃ t, (field.fragment params fragment).PrintsLines t := by
  cases fragment with
  | members => exact ⟨_, printsLines_members params field⟩
  | initialization => exact ⟨_, printsLines_initialization params field⟩
  | merging => exact ⟨_, printsLines_merging params field⟩
  | parsing => exact ⟨_, printsLines_intake params field field.declaredArm⟩
  | alternateParsing => exact exists_printsLines_alternateParsing params field
  | serialization => exact ⟨_, printsLines_serialization params field⟩
  | size => exact ⟨_, printsLines_size params field⟩
  | cacheMembers => exact field.exists_printsLines_cached (printsLines_cacheMember params field)
  | cacheInitialization => exact field.exists_printsLines_cached (printsLines_cacheStart params field)
  | cacheAccessors => exact field.exists_printsLines_cached (printsLines_cacheAccessor params field)

theorem fills_fragment (fragment : Fragment) : (field.fragment params fragment).Fills := by
  obtain ⟨t, ht⟩ := field.exists_printsLines_fragment params fragment
  exact ht.fills

end Field

/-- Whether its names resolve or not, whatever is generated from a definition has all of its
templates filled. -/
theorem Pool.scripts_fill (params : Params) :
    (∀ pool : Pool, (Module.script params pool).Fills) ∧
    (∀ enum : EnumType, (Constants.script params enum).Fills) ∧
    (∀ message : Message, (message.script params).Fills) ∧
    ∀ (field : Field) (fragment : Fragment), (field.fragment params fragment).Fills := by
  refine ⟨fun pool => ?_, fun enum => ?_, fun message => ?_, fun field fragment => ?_⟩
  · exact (Module.printsLines_script params pool).fills
  · exact (Constants.printsLines_script params enum).fills
  · exact (message.printsLines_script params).fills
  · exact field.fills_fragment params fragment

/-- What is generated from an enumeration, from a message or for a region of a message is a block.
Names that hold line breaks make no difference: their lines go further in like all others. -/
theorem Module.parts_are_blocks (params : Params) :
    (∀ enum : EnumType, (Constants.script params enum).IsBlock) ∧
    (∀ message : Message, (message.script params).IsBlock) ∧
    ∀ (field : Field) (fragment : Fragment), (field.fragment params fragment).IsBlock := by
  refine ⟨fun enum => ?_, fun message => ?_, fun field fragment => ?_⟩
  · exact (Constants.printsLines_script params enum).isBlock
  · exact (message.printsLines_script params).isBlock
  · obtain ⟨t, ht⟩ := field.exists_printsLines_fragment params fragment
    exact ht.isBlock

end EnumWire
