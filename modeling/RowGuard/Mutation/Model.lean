import RowGuard.Program.Basic

/-! # Models and their mutations

A model is a name with mutations.  A table model also has a predicate and the four writes as
mutations, each with an automatic check: an insert is checked after its body, so that defaults are
visible, and the others before it, against the row as it stands.  A mutation of the same name
replaces the body of a write but not its check.
-/
namespace RowGuard

abbrev Body := Invocation → Json → Program (Outcome Unit)

structure Model where
  name : String
  /-- The predicate of a table model. -/
  guard : Option Where
  custom : Dict Body

namespace Model

def plain (name : String) : Model := ⟨name, none, .empty⟩

/-- The model of a table, whose writes are guarded. -/
def table (name : String) (w : Where) : Model := ⟨name, some (w.withTable name), .empty⟩

def mutation (m : Model) (name : String) (body : Body) : Model :=
  { m with custom := m.custom.insert name body }

end Model

/-- The check that goes with a write.  It is left to the server, and left out for a subject that the
body has checked. -/
def automaticCheck (table : String) (w : Where) (s : Subject) (i : Invocation) :
    Program (Outcome Unit) :=
  match i.environment with
  | .client => .done (.ok ())
  | .server =>
    (Program.request .checked).bind fun c =>
      if c.covers i.gate table s then .done (.ok ()) else .request (.can i.gate w s)

/-- The body of a write that nothing replaces. -/
def writeRow (table : String) (action : Action) : Body := fun i args =>
  match args.toRow? with
  | some row => .request (.mutate i.tx table action row)
  | none => .fail (.invalid (table ++ "." ++ action.name ++ " expects a row, got " ++ args.compact))

/-- A write as a mutation with its automatic check. -/
def guardedWrite (table : String) (w : Where) (action : Action) (custom : Option Body) :
    Body := fun i args =>
  let check := automaticCheck table w (.ofJson args) i
  let body := (custom.getD (writeRow table action)) i args
  match action with
  | .insert => body.andThen fun _ => check
  | _ => check.andThen fun _ => body

namespace Model

/-- Every mutation of a model: its own, and for a table model the guarded writes in place of those
with their names. -/
def mutations (m : Model) : Dict Body :=
  match m.guard with
  | none => m.custom
  | some w => m.custom.insertMany (Action.all.map fun a =>
      (a.name, guardedWrite m.name w a (m.custom.get? a.name)))

end Model

/-- The models of an application, and the predicates of its table models. -/
structure Models where
  models : Dict Model
  registry : PermissionRegistry

namespace Models

def empty : Models := ⟨.empty, .empty⟩

/-- Add a model; of two with one name the later stays. -/
def add (ms : Models) (m : Model) : Models :=
  ⟨ms.models.insert m.name m, match m.guard with
    | some w => ms.registry.insert m.name w
    | none => ms.registry⟩

def ofList (ms : List Model) : Models := ms.foldl add empty

/-- The mutations of every model with their full names, models and mutations in order of name. -/
def named (ms : Models) : List (String × Body) :=
  ms.models.entries.flatMap fun (model, m) =>
    m.mutations.entries.map fun (name, body) => (model ++ "." ++ name, body)

/-- The mutations of every model by full name; of two with one name the later stays. -/
def mutators (ms : Models) : Dict Body := .ofList ms.named

end Models
end RowGuard
