import RowGuard.Proofs.Mutation.TableModels
import RowGuard.Mutation.Mutators
import RowGuard.Schedule.Machine

/-! # Names of mutators

Mutators are called by the name of a model and the name of a mutation, joined by a point.  Either may
contain points, so that several mutations can come under one name, and then the last one stays.
The guarded writes of a table are safe: no name of a write contains a point, so a model whose
mutation has the full name of a write is named by a proper prefix of the table, and comes before it.
-/
namespace RowGuard

namespace Dict
variable {α : Type}

theorem insertMany_append (d : Dict α) (xs ys : List (String × α)) :
    d.insertMany (xs ++ ys) = (d.insertMany xs).insertMany ys := List.foldl_append

/-- Of two entries with one name the later stays. -/
theorem get?_insertMany_last (d : Dict α) (pre : List (String × α)) {post : List (String × α)}
    {name : String} (v : α) (hpost : ∀ e ∈ post, e.1 ≠ name) :
    (d.insertMany (pre ++ (name, v) :: post)).get? name = some v := by
  have hkeep : ∀ (post : List (String × α)) (d : Dict α), (∀ e ∈ post, e.1 ≠ name) →
      d.get? name = some v → (d.insertMany post).get? name = some v := by
    intro post
    induction post with
    | nil => exact fun _ _ h => h
    | cons e post ih =>
      intro d hne h
      refine ih (d.insert e.1 e.2) (fun e' he' => hne e' (List.mem_cons_of_mem _ he')) ?_
      rw [get?_insert_of_ne d e.2 (hne e List.mem_cons_self), h]
  rw [insertMany_append, ← List.singleton_append, insertMany_append]
  exact hkeep post _ hpost (get?_insert_self ..)

/-- An entry with the entries before and after it. -/
theorem entries_split {d : Dict α} {name : String} {v : α} (h : d.get? name = some v) :
    ∃ pre post, d.entries = pre ++ (name, v) :: post ∧ ∀ e ∈ post, name < e.1 := by
  obtain ⟨pre, post, he⟩ := List.append_of_mem (get?_eq_some_iff.1 h)
  refine ⟨pre, post, he, ?_⟩
  have ha := d.ascending
  rw [Ascending, he] at ha
  exact (List.pairwise_cons.1 (List.pairwise_append.1 ha).2.1).1

end Dict

/-- The name of a write contains no point. -/
theorem Action.point_not_mem_name (a : Action) : '.' ∉ a.name.toList := by
  cases a <;> decide

namespace Models

/-- If a mutation has the full name of a write, then its model comes before the table, or is the
model of the table. -/
theorem not_lt_of_fullName_eq {model name table : String} {a : Action}
    (h : model ++ "." ++ name = table ++ "." ++ a.name) : ¬ table < model := by
  have hl : model.toList ++ '.' :: name.toList = table.toList ++ '.' :: a.name.toList := by
    simpa using congrArg String.toList h
  intro hlt
  rcases List.append_eq_append_iff.1 hl with ⟨rest, htable, -⟩ | ⟨rest, hmodel, hname⟩
  · have hle := List.IsPrefix.le (⟨rest, htable.symm⟩ : model.toList <+: table.toList)
    exact hle (String.lt_iff.1 hlt)
  · cases rest with
    | nil =>
      rw [List.append_nil] at hmodel
      exact String.lt_irrefl _ (String.toList_inj.1 hmodel ▸ hlt)
    | cons c rest =>
      -- Else the name of the write would contain the point behind the name of the model.
      obtain ⟨-, hrest⟩ := List.cons.inj hname
      exact a.point_not_mem_name (hrest ▸ by simp)

end Models

/-- The mutations of a table model contain its guarded writes, whatever else they contain. -/
theorem Model.mutations_write {m : Model} {w : Where} (hg : m.guard = some w) (a : Action) :
    m.mutations.get? a.name = some (guardedWrite m.name w a (m.custom.get? a.name)) := by
  simp only [mutations, hg, Action.all, List.map]
  cases a <;> simp [Dict.insertMany, Dict.get?_insert, Action.name]

/-- A guarded write of a table model is found under its full name. -/
theorem Models.mutators_write {ms : Models} {table : String} {m : Model} {w : Where}
    (hm : ms.models.get? table = some m) (hg : m.guard = some w) (a : Action) :
    ms.mutators.get? (table ++ "." ++ a.name) =
      some (guardedWrite m.name w a (m.custom.get? a.name)) := by
  obtain ⟨pre, post, he, hpost⟩ := Dict.entries_split hm
  obtain ⟨pre', post', he', hpost'⟩ := Dict.entries_split (m.mutations_write hg a)
  rw [mutators, Dict.ofList, named, he, List.flatMap_append, List.flatMap_cons]
  simp only [he', List.map_append, List.map_cons, List.append_assoc, List.cons_append]
  rw [← List.append_assoc]
  refine Dict.get?_insertMany_last _ _ _ fun e hmem hname => ?_
  rcases List.mem_append.1 hmem with hmem | hmem
  · obtain ⟨⟨name, body⟩, hin, rfl⟩ := List.mem_map.1 hmem
    have hlt := hpost' _ hin
    have hsame : name = a.name := by
      have h := congrArg String.toList hname
      simp only [String.toList_append, List.append_cancel_left_eq] at h
      exact String.toList_inj.1 h
    exact String.lt_irrefl _ (hsame ▸ hlt)
  · obtain ⟨⟨model, m'⟩, hin, hbody⟩ := List.mem_flatMap.1 hmem
    obtain ⟨⟨name, body⟩, -, rfl⟩ := List.mem_map.1 hbody
    exact not_lt_of_fullName_eq hname (hpost _ hin)

/-- Of two models with one name the later stays. -/
theorem Models.get?_ofList (pre : List Model) {post : List Model} {m : Model}
    (hpost : ∀ m' ∈ post, m'.name ≠ m.name) :
    (ofList (pre ++ m :: post)).models.get? m.name = some m := by
  rw [models_ofList, List.map_append, List.map_cons]
  refine Dict.get?_insertMany_last _ _ _ fun e he => ?_
  obtain ⟨m', hm', rfl⟩ := List.mem_map.1 he
  exact hpost m' hm'

/-- A model of a table with mutations of its own, added one after another. -/
def Model.ofTable (table : String) (w : Where) (customs : List (String × Body)) : Model :=
  customs.foldl (fun m e => m.mutation e.1 e.2) (.table table w)

theorem Model.ofTable_eq (table : String) (w : Where) (customs : List (String × Body)) :
    ofTable table w customs = ⟨table, some (w.withTable table), .ofList customs⟩ := by
  have hall : ∀ (customs : List (String × Body)) (m : Model),
      customs.foldl (fun m e => m.mutation e.1 e.2) m =
        { m with custom := m.custom.insertMany customs } := by
    intro customs
    induction customs with
    | nil => exact fun _ => rfl
    | cons e customs ih => exact fun m => ih (m.mutation e.1 e.2)
  exact hall customs _

/-- Whatever models there are and whatever they are called: if the last model of a name is the model
of a table, then a call of one of its writes runs the guarded write, with the predicate bound to the
table and with the mutation of the model itself in place of the body, if it has one. -/
theorem write_never_shadowed {table : String} {w : Where} {customs : List (String × Body)}
    (pre : List Model) {post : List Model} (hpost : ∀ m ∈ post, m.name ≠ table) (timeout : Nat)
    (a : Action) (caller : Mutators) (tx : TxRef) (args : Json) (b : Background) :
    b.spawnCall ⟨(Models.ofList (pre ++ .ofTable table w customs :: post)).mutators, timeout⟩
        ⟨caller.invocation tx, table ++ "." ++ a.name, args⟩ =
      b.spawn (.ofInvocation (caller.invocation tx))
        (guardedWrite table (w.withTable table) a ((Dict.ofList customs).get? a.name)
          (caller.invocation tx) args) := by
  have hname : (Model.ofTable table w customs).name = table := by rw [Model.ofTable_eq]
  have hget := Models.get?_ofList pre fun m hm => hname ▸ hpost m hm
  rw [hname] at hget
  have hwrite := Models.mutators_write hget (by rw [Model.ofTable_eq]) a
  rw [Model.ofTable_eq] at hwrite ⊢
  simp only [Background.spawnCall, Application.program, hwrite]

/-- A call on behalf of nobody. -/
def Mutators.anonymous : Mutators := ⟨none, .server, ⟨.server, .empty, false⟩, none⟩

theorem write_never_shadowed_by_dotted_name :
    (Models.ofList [(Model.plain "note").mutation "tag.insert" fun _ _ => .done (.ok ()),
      .ofTable "note.tag" (.denyAll "note.tag") []]).named.map Prod.fst =
        ["note.tag.insert", "note.tag.delete", "note.tag.insert", "note.tag.update",
          "note.tag.upsert"] ∧
    (Background.idle (.new 0 [])).spawnCall
        ⟨(Models.ofList [(Model.plain "note").mutation "tag.insert" fun _ _ => .done (.ok ()),
          .ofTable "note.tag" (.denyAll "note.tag") []]).mutators, 0⟩
        ⟨Mutators.anonymous.invocation ⟨0, 0⟩, "note.tag.insert", .null⟩ =
      (Background.idle (.new 0 [])).spawn (.ofInvocation (Mutators.anonymous.invocation ⟨0, 0⟩))
        (guardedWrite "note.tag" (.denyAll "note.tag") .insert none
          (Mutators.anonymous.invocation ⟨0, 0⟩) .null) :=
  ⟨by decide +kernel, write_never_shadowed
    [(Model.plain "note").mutation "tag.insert" fun _ _ => .done (.ok ())] (by simp) 0 .insert
    .anonymous ⟨0, 0⟩ .null (.idle (.new 0 []))⟩

end RowGuard
