import RowGuard.Proofs.Program.Alike
import RowGuard.Proofs.Store.Keys

/-! # Models of tables

A mutator is a mutation of a model, or a guarded write, which may run such a mutation as its body.
An application whose models are all models of tables, with nothing in place of the bodies of their
writes, has guarded writes for mutators and no others.
-/
namespace RowGuard

theorem Model.mutations_cases {m : Model} {name : String} {body : Body}
    (h : m.mutations.get? name = some body) : m.custom.get? name = some body ∨
      ∃ w a, m.guard = some w ∧ name = a.name ∧
        body = guardedWrite m.name w a (m.custom.get? a.name) := by
  unfold mutations at h
  cases hg : m.guard with
  | none =>
    rw [hg] at h
    exact .inl h
  | some w =>
    rw [hg] at h
    rcases Dict.mem_of_get?_insertMany h with hm | hm
    · obtain ⟨a, -, ha⟩ := List.mem_map.1 hm
      obtain ⟨rfl, rfl⟩ := Prod.mk.inj ha
      exact .inr ⟨w, a, rfl, rfl, rfl⟩
    · exact .inl hm

namespace Models

theorem mutators_cases {ms : Models} {name : String} {body : Body}
    (h : ms.mutators.get? name = some body) : ∃ model m mutation,
      ms.models.get? model = some m ∧ m.mutations.get? mutation = some body ∧
      name = model ++ "." ++ mutation := by
  have hmem := Dict.mem_of_mem_ofList (Dict.get?_eq_some_iff.1 h)
  obtain ⟨⟨model, m⟩, hm, hin⟩ := List.mem_flatMap.1 hmem
  obtain ⟨⟨mutation, b⟩, hb, he⟩ := List.mem_map.1 hin
  obtain ⟨rfl, rfl⟩ := Prod.mk.inj he
  exact ⟨model, m, mutation, Dict.get?_eq_some_iff.2 hm, Dict.get?_eq_some_iff.2 hb, rfl⟩

theorem models_ofList (models : List Model) :
    (ofList models).models = .ofList (models.map fun m => (m.name, m)) := by
  have hall : ∀ (models : List Model) (ms : Models), (models.foldl add ms).models =
      ms.models.insertMany (models.map fun m => (m.name, m)) := by
    intro models
    induction models with
    | nil => exact fun _ => rfl
    | cons m models ih => exact fun ms => ih (ms.add m)
  exact hall models .empty

/-- What holds of all mutations that models bring, and of the guarded writes that have such bodies,
holds of all mutators. -/
theorem mutator_induction {P : Body → Prop}
    (hwrite : ∀ table w a custom, (∀ b, custom = some b → P b) → P (guardedWrite table w a custom))
    {models : List Model} (hm : ∀ m ∈ models, ∀ name b, m.custom.get? name = some b → P b)
    {name : String} {body : Body} (h : (ofList models).mutators.get? name = some body) : P body := by
  obtain ⟨model, m, mutation, hget, hbody, -⟩ := mutators_cases h
  rw [models_ofList] at hget
  obtain ⟨m', hin, he⟩ := List.mem_map.1 (Dict.mem_of_mem_ofList (Dict.get?_eq_some_iff.1 hget))
  obtain ⟨-, rfl⟩ := Prod.mk.inj he
  rcases Model.mutations_cases hbody with hcustom | ⟨w, a, -, -, rfl⟩
  · exact hm m' hin mutation body hcustom
  · exact hwrite _ w a _ fun b hb => hm m' hin _ b hb

/-- The models of tables, each with its predicate. -/
def ofTables (specs : List (String × Where)) : Models := .ofList (specs.map fun e => .table e.1 e.2)

/-- Every model is the model of a table, and its predicate is registered. -/
def Plain (ms : Models) : Prop := ∀ name m, ms.models.get? name = some m →
  ∃ w : Where, m = .table name w ∧ ms.registry.get? name = some (w.withTable name)

theorem Plain.add {ms : Models} (hp : ms.Plain) (name : String) (w : Where) :
    (ms.add (.table name w)).Plain := by
  intro other m hm
  simp only [Models.add, Model.table] at hm ⊢
  rw [Dict.get?_insert] at hm ⊢
  by_cases hn : name = other
  · subst hn
    rw [if_pos rfl] at hm
    exact ⟨w, (Option.some.inj hm).symm, by simp⟩
  · rw [if_neg hn] at hm ⊢
    exact hp other m hm

theorem plain_ofTables (specs : List (String × Where)) : (ofTables specs).Plain := by
  have hall : ∀ (specs : List (String × Where)) (ms : Models), ms.Plain →
      ((specs.map fun e => Model.table e.1 e.2).foldl Models.add ms).Plain := by
    intro specs
    induction specs with
    | nil => exact fun _ h => h
    | cons e specs ih => exact fun ms h => ih _ (h.add e.1 e.2)
  exact hall specs .empty fun name m hm => by simp [Models.empty] at hm

/-- A mutator of plain models is a guarded write of a table, with the predicate that is registered. -/
theorem Plain.mutator {ms : Models} (hp : ms.Plain) {name : String} {body : Body}
    (h : ms.mutators.get? name = some body) : ∃ (table : String) (a : Action) (w : Where),
      name = table ++ "." ++ a.name ∧ ms.registry.get? table = some (w.withTable table) ∧
      body = guardedWrite table (w.withTable table) a none := by
  obtain ⟨table, m, mutation, hm, hb, rfl⟩ := mutators_cases h
  obtain ⟨w, rfl, hw⟩ := hp table m hm
  rcases Model.mutations_cases hb with hcustom | ⟨w', a, hg, rfl, rfl⟩
  · simp [Model.table] at hcustom
  · obtain rfl := Option.some.inj hg
    exact ⟨table, a, w, rfl, hw, rfl⟩

end Models

theorem Models.Plain.throughTx {ms : Models} (hp : ms.Plain) (timeout : Nat) :
    Application.ThroughTx ⟨ms.mutators, timeout⟩ := by
  intro name body h
  obtain ⟨table, a, w, -, -, rfl⟩ := hp.mutator h
  exact guardedWrite_throughTx table _ a fun _ hc => by cases hc

end RowGuard
