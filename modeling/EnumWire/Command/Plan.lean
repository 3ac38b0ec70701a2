import EnumWire.Command.Failure

/-! # Plans

What a command does after its input has been read: steps in order, up to the first one that fails,
and the failure that the command ends with if all of them succeed. -/
namespace EnumWire.Command

open EnumWire.Files

inductive Step where
  | print (text : Text)
  | create (path : Path)
  | write (role : FileRole) (path : Path) (text : Text)
  deriving DecidableEq

structure Plan where
  steps : List Step := []
  failure : Option Failure := none
  deriving DecidableEq

/-- What a command has printed, and the files around it. -/
structure Surroundings where
  printed : Text := []
  tree : FileTree := {}
  deriving DecidableEq

/-- What a command comes to, and the surroundings that it leaves. -/
abbrev Outcome := Except Failure Unit × Surroundings

namespace Step

def perform (step : Step) (s : Surroundings) : Outcome :=
  match step with
  | .print text => (.ok (), { s with printed := s.printed ++ text })
  | .create path =>
    let (made, tree) := s.tree.makeDirectories path
    (made.mapError (Failure.create path), { s with tree := tree })
  | .write role path text =>
    match s.tree.write path text with
    | .ok tree => (.ok (), { s with tree := tree })
    | .error fault => (.error (.write role path fault), s)

def performAll : List Step → Surroundings → Outcome
  | [], s => (.ok (), s)
  | step :: steps, s =>
    match step.perform s with
    | (.ok (), s) => performAll steps s
    | failed => failed

end Step

namespace Plan

def print (text : Text) : Plan := { steps := [.print text] }

def fail (failure : Failure) : Plan := { failure := failure }

/-- One plan after another that does not fail of itself. -/
def andThen (plan next : Plan) : Plan :=
  match plan.failure with
  | none => ⟨plan.steps ++ next.steps, next.failure⟩
  | some _ => plan

def run (plan : Plan) (s : Surroundings) : Outcome :=
  match Step.performAll plan.steps s, plan.failure with
  | (.ok (), s), some failure => (.error failure, s)
  | outcome, _ => outcome

end Plan
end EnumWire.Command
