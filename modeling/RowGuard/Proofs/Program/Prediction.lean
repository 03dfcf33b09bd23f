import RowGuard.Proofs.Mutation.TableModels

/-! # Programs that predict others

The mutations of a client run the same bodies as those of the server, but the gate does nothing
there.  `Program.Predicts` relates what the server runs to what the client runs in its place: the
same writes, each in its own transaction, while whatever the server asks its gate or its record is
passed over, and once the server has failed nothing is said any more.  All mutators of models whose
own mutations follow plans are related so.
-/
namespace RowGuard

inductive Body.Step where
  | write (table : String) (a : Action) (row : Row)
  /-- A call of a gate, which is the one of the invocation if no other one is named. -/
  | can (g : Option Gate) (w : Where) (x : Subject)

def Body.Step.program (i : Invocation) : Body.Step → Program (Outcome Unit)
  | .write table a row => .request (.mutate i.tx table a row)
  | .can g w x => .request (.can (g.getD i.gate) w x)

/-- Steps one after another, up to the first that fails. -/
def Body.takeSteps (i : Invocation) : List Body.Step → Program (Outcome Unit)
  | [] => .done (.ok ())
  | step :: steps => (step.program i).andThen fun _ => takeSteps i steps

/-- The body that takes the steps of a plan, made for the identity and the arguments. -/
def Body.ofPlan (plan : Option Identity → Json → List Body.Step) : Body := fun i args =>
  Body.takeSteps i (plan i.identity args)

/-- Every mutation that the model brings along follows a plan. -/
def Model.Planned (m : Model) : Prop :=
  ∀ name body, m.custom.get? name = some body → ∃ plan, body = .ofPlan plan

namespace Program

/-- A program that does nothing but write in a transaction, call gates and look at its record. -/
inductive Prompt (tx : TxRef) : Program (Outcome Unit) → Prop where
  | done (r : Outcome Unit) : Prompt tx (.done r)
  | mutate (table : String) (a : Action) (row : Row) {next : Outcome Unit → Program (Outcome Unit)}
      (h : ∀ x, Prompt tx (next x)) : Prompt tx (.ask (.mutate tx table a row) next)
  | can (g : Gate) (w : Where) (x : Subject) {next : Outcome Unit → Program (Outcome Unit)}
      (h : ∀ r, Prompt tx (next r)) : Prompt tx (.ask (.can g w x) next)
  | checked {next : Checked → Program (Outcome Unit)} (h : ∀ c, Prompt tx (next c)) :
      Prompt tx (.ask .checked next)

/-- What the server runs in the transaction `tx`, and what a client runs for it in `tx'`. -/
inductive Predicts (tx tx' : TxRef) : Program (Outcome Unit) → Program (Outcome Unit) → Prop where
  | ok : Predicts tx tx' (.done (.ok ())) (.done (.ok ()))
  | failed (e : Failure) (p' : Program (Outcome Unit)) : Predicts tx tx' (.done (.error e)) p'
  | mutate (table : String) (a : Action) (row : Row)
      {next next' : Outcome Unit → Program (Outcome Unit)}
      (h : ∀ x, Predicts tx tx' (next x) (next' x)) :
      Predicts tx tx' (.ask (.mutate tx table a row) next) (.ask (.mutate tx' table a row) next')
  /-- A gate call of the body, which opens on the client. -/
  | can (g g' : Gate) (w : Where) (x : Subject)
      {next next' : Outcome Unit → Program (Outcome Unit)}
      (h : ∀ r, Predicts tx tx' (next r) (next' (.ok ()))) :
      Predicts tx tx' (.ask (.can g w x) next) (.ask (.can g' w x) next')
  /-- A gate call of the automatic check, which the client leaves out. -/
  | check (g : Gate) (w : Where) (x : Subject) {next : Outcome Unit → Program (Outcome Unit)}
      {p' : Program (Outcome Unit)} (h : ∀ r, Predicts tx tx' (next r) p') :
      Predicts tx tx' (.ask (.can g w x) next) p'
  | checked {next : Checked → Program (Outcome Unit)} {p' : Program (Outcome Unit)}
      (h : ∀ c, Predicts tx tx' (next c) p') : Predicts tx tx' (.ask .checked next) p'

variable {tx tx' : TxRef} {p p' : Program (Outcome Unit)} {f f' : Unit → Program (Outcome Unit)}

theorem Prompt.andThen (h : p.Prompt tx) (hf : (f ()).Prompt tx) : (p.andThen f).Prompt tx := by
  induction h with
  | done r =>
    cases r with
    | ok => exact hf
    | error e => exact .done (.error e)
  | mutate table a row _ ih => exact .mutate table a row ih
  | can g w x _ ih => exact .can g w x ih
  | checked _ ih => exact .checked ih

theorem Predicts.andThen (h : p.Predicts tx tx' p') (hf : (f ()).Predicts tx tx' (f' ())) :
    (p.andThen f).Predicts tx tx' (p'.andThen f') := by
  induction h with
  | ok => exact hf
  | failed e p' => exact .failed e (p'.andThen f')
  | mutate table a row _ ih => exact .mutate table a row ih
  | can g g' w x _ ih => exact .can g g' w x ih
  | check g w x _ ih => exact .check g w x ih
  | checked _ ih => exact .checked ih

end Program

/-- An invocation on the server, and one on a client for the same identity. -/
structure Invocation.Mirrors (i i' : Invocation) : Prop where
  server : i.environment = .server
  client : i'.environment = .client
  identity : i.identity = i'.identity

/-- A body that runs without waiting, and that on a client predicts what it does on the server. -/
structure Body.Predictable (body : Body) : Prop where
  prompt : ∀ i args, (body i args).Prompt i.tx
  predicts : ∀ i i' args, i.Mirrors i' → (body i args).Predicts i.tx i'.tx (body i' args)

section Bodies
variable {i i' : Invocation}

theorem Body.Step.prompt (step : Body.Step) (i : Invocation) : (step.program i).Prompt i.tx := by
  cases step with
  | write table a row => exact .mutate table a row .done
  | can g w x => exact .can _ w x .done

theorem Body.Step.predicts (step : Body.Step) (i i' : Invocation) :
    (step.program i).Predicts i.tx i'.tx (step.program i') := by
  have hreply : ∀ r : Outcome Unit, Program.Predicts i.tx i'.tx (.done r) (.done r) := by
    intro r
    cases r with
    | ok => exact .ok
    | error e => exact .failed e _
  cases step with
  | write table a row => exact .mutate table a row hreply
  | can g w x =>
    refine .can _ _ w x fun r => ?_
    cases r with
    | ok => exact .ok
    | error e => exact .failed e _

theorem Body.ofPlan_predictable (plan : Option Identity → Json → List Body.Step) :
    Body.Predictable (.ofPlan plan) where
  prompt i args := by
    unfold ofPlan
    induction plan i.identity args with
    | nil => exact .done _
    | cons step steps ih => exact (step.prompt i).andThen ih
  predicts i i' args hi := by
    unfold ofPlan
    rw [← hi.identity]
    induction plan i.identity args with
    | nil => exact .ok
    | cons step steps ih => exact (step.predicts i i').andThen ih

theorem writeRow_predictable (table : String) (a : Action) :
    Body.Predictable (writeRow table a) where
  prompt i args := by
    unfold writeRow
    cases args.toRow? with
    | none => exact .done _
    | some row => exact .mutate table a row .done
  predicts i i' args _ := by
    unfold writeRow
    cases args.toRow? with
    | none => exact .failed _ _
    | some row => exact (Body.Step.write table a row).predicts i i'

theorem automaticCheck_prompt (table : String) (w : Where) (x : Subject) (i : Invocation) :
    (automaticCheck table w x i).Prompt i.tx := by
  unfold automaticCheck
  cases i.environment with
  | client => exact .done _
  | server =>
    refine .checked fun c => ?_
    by_cases hc : c.covers i.gate table x = true
    · simp only [Program.bind, hc, ↓reduceIte]
      exact .done _
    · simp only [Program.bind, hc, Bool.false_eq_true, ↓reduceIte]
      exact .can _ _ _ .done

/-- The automatic check can only fail on the server, and writes nothing. -/
theorem automaticCheck_predicts (table : String) (w : Where) (x : Subject) (hi : i.Mirrors i') :
    (automaticCheck table w x i).Predicts i.tx i'.tx (automaticCheck table w x i') := by
  unfold automaticCheck
  rw [hi.server, hi.client]
  refine .checked fun c => ?_
  by_cases hc : c.covers i.gate table x = true
  · simp only [Program.bind, hc, ↓reduceIte]
    exact .ok
  · simp only [Program.bind, hc, Bool.false_eq_true, ↓reduceIte]
    refine .check _ _ _ fun r => ?_
    cases r with
    | ok => exact .ok
    | error e => exact .failed e _

/-- A guarded write is predictable if its body is, whether it is checked before or after. -/
theorem guardedWrite_predictable (table : String) (w : Where) (a : Action) (custom : Option Body)
    (hc : ∀ body, custom = some body → body.Predictable) :
    Body.Predictable (guardedWrite table w a custom) := by
  have hbody : Body.Predictable (custom.getD (writeRow table a)) := by
    cases custom with
    | none => exact writeRow_predictable table a
    | some body => exact hc body rfl
  constructor
  · intro i args
    have hcheck := automaticCheck_prompt table w (.ofJson args) i
    cases a with
    | insert => exact (hbody.prompt i args).andThen hcheck
    | upsert | update | delete => exact hcheck.andThen (hbody.prompt i args)
  · intro i i' args hi
    have hcheck := automaticCheck_predicts table w (.ofJson args) hi
    cases a with
    | insert => exact (hbody.predicts i i' args hi).andThen hcheck
    | upsert | update | delete => exact hcheck.andThen (hbody.predicts i i' args hi)

end Bodies

/-- All mutators of models whose own mutations follow plans are predictable. -/
theorem Models.mutator_predictable {models : List Model} (hm : ∀ m ∈ models, m.Planned)
    {name : String} {body : Body} (h : (Models.ofList models).mutators.get? name = some body) :
    body.Predictable := by
  apply mutator_induction guardedWrite_predictable _ h
  intro m hin name body hget
  obtain ⟨plan, rfl⟩ := hm m hin name body hget
  exact Body.ofPlan_predictable plan

end RowGuard
