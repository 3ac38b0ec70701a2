import EnumWire.Descriptor.Pool

/-! # Pools built by single additions

Enumerations and messages may also be added one by one, in any order and under names that repeat.
The pool is changed in place and stays in use after an addition that fails. -/
namespace EnumWire

inductive Addition where
  | enum (definition : EnumDef)
  | message (definition : MessageDef)
  deriving DecidableEq

namespace Addition

def enum? : Addition → Option EnumDef
  | .enum definition => some definition
  | .message _ => none

/-- The enumerations among some additions. -/
def enums (additions : List Addition) : List EnumDef := additions.filterMap enum?

end Addition

/-- Steps on a pool that outlives their failures. -/
abbrev Building (α : Type) := ExceptT ResolveError (StateM Pool) α

namespace Building

/-- The answer of a step, and the pool that it leaves. -/
def run {α : Type} (building : Building α) (pool : Pool) : Except ResolveError α × Pool :=
  StateT.run (ExceptT.run building) pool

/-- Links a field to the enumerations that the pool has at this moment. -/
def resolveField (message : Text) (definition : FieldDef) : Building Field := do
  let pool ← get
  liftExcept (pool.resolveField message definition)

/-- A message is only added once all of its fields are linked. -/
def add : Addition → Building Unit
  | .enum definition => modify fun pool => pool.addEnum definition
  | .message definition => do
    let fields ← definition.fields.mapM (resolveField definition.name)
    modify fun pool =>
      { pool with messages := pool.messages ++ [{ name := definition.name, fields := fields }] }

/-- The pool after some additions, whether they have failed or not. -/
def addAll (pool : Pool) (additions : List Addition) : Pool :=
  additions.foldl (fun pool addition => ((add addition).run pool).2) pool

end Building

def Pool.ofAdditions (package : Text) (additions : List Addition) : Pool :=
  Building.addAll { package := package } additions

end EnumWire
