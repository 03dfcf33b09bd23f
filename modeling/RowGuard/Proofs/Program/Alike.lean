import RowGuard.Schedule.Segment
import RowGuard.Server.Transaction

/-! # Programs that act through one transaction

Two programs are alike when they do the same through two transactions that answer alike: they ask for
the same, except that each names its own transaction, and go on alike after equal replies.  What they
do may not depend on the numbers that stand for their transactions and bags, nor on the actions that
were made for the caller.  A program that is alike itself acts only through its transaction, which it
does not settle.  Trusted code that is nested in a mutation keeps programs alike.
-/
namespace RowGuard

/-- Invocations that differ in their transactions and in what the server has put into them. -/
structure Invocation.Alike (tx tx' : TxRef) (i i' : Invocation) : Prop where
  left : i.tx = tx
  right : i'.tx = tx'
  identity : i.identity = i'.identity
  environment : i.environment = i'.environment
  gate : i.gate = i'.gate
  server : i.server.isSome = i'.server.isSome

theorem Invocation.Alike.refl (i : Invocation) : i.Alike i.tx i.tx i := ⟨rfl, rfl, rfl, rfl, rfl, rfl⟩

/-- Programs that do the same through the transactions `tx` and `tx'`; `o` and `o'` are the bags that
they have opened. -/
inductive Program.Alike {α : Type} (tx tx' : TxRef) :
    List Nat → List Nat → Program α → Program α → Prop where
  | done {o o' : List Nat} (a : α) : Alike tx tx' o o' (.done a) (.done a)
  | run {o o' : List Nat} (q : Query) {next next' : Outcome (List Row) → Program α}
      (h : ∀ x, Alike tx tx' o o' (next x) (next' x)) :
      Alike tx tx' o o' (.ask (.run tx q) next) (.ask (.run tx' q) next')
  | mutate {o o' : List Nat} (table : String) (a : Action) (row : Row)
      {next next' : Outcome Unit → Program α} (h : ∀ x, Alike tx tx' o o' (next x) (next' x)) :
      Alike tx tx' o o' (.ask (.mutate tx table a row) next) (.ask (.mutate tx' table a row) next')
  | can {o o' : List Nat} (g : Gate) (w : Where) (s : Subject)
      {next next' : Outcome Unit → Program α} (h : ∀ x, Alike tx tx' o o' (next x) (next' x)) :
      Alike tx tx' o o' (.ask (.can g w s) next) (.ask (.can g w s) next')
  | checked {o o' : List Nat} {next next' : Checked → Program α}
      (h : ∀ x, Alike tx tx' o o' (next x) (next' x)) :
      Alike tx tx' o o' (.ask .checked next) (.ask .checked next')
  | note {o o' : List Nat} (es es' : List Entry) {next next' : Unit → Program α}
      (h : Alike tx tx' o o' (next ()) (next' ())) :
      Alike tx tx' o o' (.ask (.note es) next) (.ask (.note es') next')
  | openBag {o o' : List Nat} {next next' : Nat → Program α}
      (h : ∀ b b', Alike tx tx' (b :: o) (b' :: o') (next b) (next' b')) :
      Alike tx tx' o o' (.ask .openBag next) (.ask .openBag next')
  /-- Nothing is ever deferred, so that a bag is found empty. -/
  | takeBag {o o' : List Nat} {b b' : Nat} (hb : b ∈ o) (hb' : b' ∈ o')
      {next next' : List Deferred → Program α} (h : Alike tx tx' o o' (next []) (next' [])) :
      Alike tx tx' o o' (.ask (.takeBag b) next) (.ask (.takeBag b') next')
  | makeActions {o o' : List Nat} {next next' : Option String → Program α}
      (h : ∀ a a', Alike tx tx' o o' (next a) (next' a')) :
      Alike tx tx' o o' (.ask .makeActions next) (.ask .makeActions next')
  | sleep {o o' : List Nat} (ms : Nat) {next next' : Program α} (h : Alike tx tx' o o' next next') :
      Alike tx tx' o o' (.sleep ms next) (.sleep ms next')
  | hang {o o' : List Nat} : Alike tx tx' o o' .hang .hang
  | call {o o' : List Nat} {i i' : Invocation} (hi : i.Alike tx tx' i') (name : String) (args : Json)
      {next next' : Outcome Unit → Program α} (h : ∀ r, Alike tx tx' o o' (next r) (next' r)) :
      Alike tx tx' o o' (.call ⟨i, name, args⟩ next) (.call ⟨i', name, args⟩ next')
  | stepAside {o o' : List Nat} {next next' : Program α} (h : Alike tx tx' o o' next next') :
      Alike tx tx' o o' (.stepAside next) (.stepAside next')

/-- A body that reads and writes only through the transaction of its invocation and does not settle
it. -/
def Body.ThroughTx (body : Body) : Prop :=
  ∀ (tx tx' : TxRef) (i i' : Invocation) (args : Json), i.Alike tx tx' i' →
    (body i args).Alike tx tx' [] [] (body i' args)

/-- Every mutator acts only through the transaction of its invocation. -/
def Application.ThroughTx (app : Application) : Prop :=
  ∀ name body, app.mutators.get? name = some body → Body.ThroughTx body

namespace Program.Alike
variable {α β : Type} {tx tx' : TxRef} {o o' p p' : List Nat}

theorem mono {x x' : Program α} (h : x.Alike tx tx' o o' x') (ho : o ⊆ p) (ho' : o' ⊆ p') :
    x.Alike tx tx' p p' x' := by
  induction h generalizing p p' with
  | done a => exact .done a
  | run q _ ih => exact .run q fun x => ih x ho ho'
  | mutate table a row _ ih => exact .mutate table a row fun x => ih x ho ho'
  | can g w s _ ih => exact .can g w s fun x => ih x ho ho'
  | checked _ ih => exact .checked fun x => ih x ho ho'
  | note es es' _ ih => exact .note es es' (ih ho ho')
  | openBag _ ih =>
    exact .openBag fun b b' => ih b b' (List.cons_subset_cons b ho) (List.cons_subset_cons b' ho')
  | takeBag hb hb' _ ih => exact .takeBag (ho hb) (ho' hb') (ih ho ho')
  | makeActions _ ih => exact .makeActions fun a a' => ih a a' ho ho'
  | sleep ms _ ih => exact .sleep ms (ih ho ho')
  | hang => exact .hang
  | call hi name args _ ih => exact .call hi name args fun r => ih r ho ho'
  | stepAside _ ih => exact .stepAside (ih ho ho')

theorem bind {x x' : Program α} {f f' : α → Program β} (h : x.Alike tx tx' o o' x')
    (hf : ∀ a, (f a).Alike tx tx' o o' (f' a)) : (x.bind f).Alike tx tx' o o' (x'.bind f') := by
  induction h with
  | done a => exact hf a
  | run q _ ih => exact .run q fun x => ih x hf
  | mutate table a row _ ih => exact .mutate table a row fun x => ih x hf
  | can g w s _ ih => exact .can g w s fun x => ih x hf
  | checked _ ih => exact .checked fun x => ih x hf
  | note es es' _ ih => exact .note es es' (ih hf)
  | openBag _ ih =>
    exact .openBag fun b b' => ih b b' fun a =>
      (hf a).mono (List.subset_cons_self b _) (List.subset_cons_self b' _)
  | takeBag hb hb' _ ih => exact .takeBag hb hb' (ih hf)
  | makeActions _ ih => exact .makeActions fun a a' => ih a a' hf
  | sleep ms _ ih => exact .sleep ms (ih hf)
  | hang => exact .hang
  | call hi name args _ ih => exact .call hi name args fun r => ih r hf
  | stepAside _ ih => exact .stepAside (ih hf)

theorem andThen {x x' : Program (Outcome α)} {f f' : α → Program (Outcome β)}
    (h : x.Alike tx tx' o o' x') (hf : ∀ a, (f a).Alike tx tx' o o' (f' a)) :
    (x.andThen f).Alike tx tx' o o' (x'.andThen f') :=
  h.bind fun x => by
    cases x with
    | ok a => exact hf a
    | error e => exact Program.Alike.done (Except.error e)

end Program.Alike

section Nested
variable {α : Type} {tx tx' : TxRef} {o o' : List Nat}

/-- Nested in a mutation, a trusted transaction is the one of the mutation. -/
theorem Server.transaction_alike (s : Server) {a a' : Ambient} (ha : a.tx = some tx)
    (ha' : a'.tx = some tx') {code code' : TxRef → Program (Outcome α)}
    (h : (code tx).Alike tx tx' o o' (code' tx')) :
    (s.transaction a code).Alike tx tx' o o' (s.transaction a' code') := by
  simpa only [Server.transaction, ha, ha'] using h

/-- Mutators for one caller, with actions and bags of their own. -/
structure Mutators.Alike (m m' : Mutators) : Prop where
  identity : m.identity = m'.identity
  environment : m.environment = m'.environment
  gate : m.gate = m'.gate
  server : m.server.isSome = m'.server.isSome

theorem Mutators.Alike.invocation {m m' : Mutators} (h : m.Alike m') (tx tx' : TxRef) :
    (m.invocation tx).Alike tx tx' (m'.invocation tx') :=
  ⟨rfl, rfl, h.identity, h.environment, h.gate, h.server⟩

theorem Mutators.Alike.call {m m' : Mutators} (h : m.Alike m') (name : String) (args : Json) :
    (m.call tx name args).Alike tx tx' o o' (m'.call tx' name args) :=
  .call (h.invocation tx tx') name args fun r => .done r

/-- Nested in a mutation, trusted code that mutates keeps within the transaction of the mutation. -/
theorem Server.mutate_alike (s : Server) {a a' : Ambient} (ha : a.tx = some tx)
    (ha' : a'.tx = some tx') (auth : Option Identity)
    {code code' : TxRef → Mutators → Program (Outcome Unit)}
    (h : ∀ m m' p p', Mutators.Alike m m' → o ⊆ p → o' ⊆ p' →
      (code tx m).Alike tx tx' p p' (code' tx' m')) :
    (s.mutate a auth code).Alike tx tx' o o' (s.mutate a' auth code') := by
  refine .openBag fun b b' => .makeActions fun x x' => ?_
  refine Program.Alike.andThen (s.transaction_alike ha ha' (h _ _ _ _ ⟨rfl, rfl, rfl, rfl⟩
    (List.subset_cons_self b o) (List.subset_cons_self b' o'))) fun u => ?_
  exact .takeBag List.mem_cons_self List.mem_cons_self (.note _ _ (.done _))

end Nested

section GuardedWrites
variable {tx tx' : TxRef} {o o' : List Nat} {i i' : Invocation}

theorem automaticCheck_alike (table : String) (w : Where) (s : Subject) (hi : i.Alike tx tx' i') :
    (automaticCheck table w s i).Alike tx tx' o o' (automaticCheck table w s i') := by
  unfold automaticCheck
  rw [← hi.environment, ← hi.gate]
  cases i.environment with
  | client => exact .done _
  | server =>
    refine .checked fun c => ?_
    by_cases hc : c.covers i.gate table s = true
    · simp only [Program.bind, hc, ↓reduceIte]
      exact .done _
    · simp only [Program.bind, hc, Bool.false_eq_true, ↓reduceIte]
      exact .can _ _ _ fun x => .done x

theorem writeRow_throughTx (table : String) (a : Action) : Body.ThroughTx (writeRow table a) := by
  intro tx tx' i i' args hi
  unfold writeRow
  cases args.toRow? with
  | none => exact .done _
  | some row =>
    rw [hi.left, hi.right]
    exact .mutate table a row fun x => .done x

/-- A guarded write acts only through its transaction, if the body that replaces it does. -/
theorem guardedWrite_throughTx (table : String) (w : Where) (a : Action) {custom : Option Body}
    (hc : ∀ body, custom = some body → Body.ThroughTx body) :
    Body.ThroughTx (guardedWrite table w a custom) := by
  intro tx tx' i i' args hi
  have hcheck : (automaticCheck table w (.ofJson args) i).Alike tx tx' [] []
      (automaticCheck table w (.ofJson args) i') := automaticCheck_alike table w _ hi
  have hbody : ((custom.getD (writeRow table a)) i args).Alike tx tx' [] []
      ((custom.getD (writeRow table a)) i' args) := by
    cases custom with
    | none => exact writeRow_throughTx table a tx tx' i i' args hi
    | some body => exact hc body rfl tx tx' i i' args hi
  cases a with
  | insert => exact hbody.andThen fun _ => hcheck
  | _ => exact hcheck.andThen fun _ => hbody

end GuardedWrites
end RowGuard
