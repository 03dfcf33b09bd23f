import RowGuard.Proofs.Gate.Exactness
import RowGuard.Proofs.Program.Running

/-! # Blanket permissions

A predicate that answers with a blanket permission is still put to the transaction as a query for
one row of the table.  So the gate opens for every subject as long as the table has a row, and for
none while it is empty, unless the identity bypasses it.  Of the guarded writes only the insert is
checked when a row is sure to be there.
-/
namespace RowGuard

/-- Whether a failure is the answer of a gate that does not open. -/
def Failure.isAuthorization : Failure → Bool
  | denied .. | checkFailed .. => true
  | _ => false

/-- An outcome fails, if at all, for a reason with a property. -/
def Outcome.FailsOnly {α : Type} (P : Failure → Prop) (x : Outcome α) : Prop :=
  ∀ e, x = .error e → P e

namespace Outcome
variable {α β : Type} {P : Failure → Prop}

theorem failsOnly_ok (a : α) : FailsOnly P (.ok a : Outcome α) := fun _ h => nomatch h

theorem failsOnly_error {e : Failure} (h : P e) : FailsOnly P (.error e : Outcome α) :=
  fun _ h' => Except.error.inj h' ▸ h

theorem FailsOnly.bind {x : Outcome α} {f : α → Outcome β} (hx : FailsOnly P x)
    (hf : ∀ a, FailsOnly P (f a)) : FailsOnly P (x >>= f) := by
  cases x with
  | ok a => exact hf a
  | error e => exact failsOnly_error (hx e rfl)

theorem FailsOnly.map {x : Outcome α} (hx : FailsOnly P x) (f : α → β) :
    FailsOnly P (x.map f) := by
  cases x with
  | ok a => exact failsOnly_ok _
  | error e => exact failsOnly_error (hx e rfl)

theorem failsOnly_mapM {f : α → Outcome β} (hf : ∀ a, FailsOnly P (f a)) (xs : List α) :
    FailsOnly P (xs.mapM f) := by
  induction xs with
  | nil => exact failsOnly_ok []
  | cons a xs ih =>
    rw [List.mapM_cons]
    exact (hf a).bind fun b => ih.bind fun bs => failsOnly_ok (b :: bs)

theorem failsOnly_foldlM {f : β → α → Outcome β} (hf : ∀ b a, FailsOnly P (f b a)) (xs : List α)
    (b : β) : FailsOnly P (xs.foldlM f b) := by
  induction xs generalizing b with
  | nil => exact failsOnly_ok b
  | cons a xs ih =>
    rw [List.foldlM_cons]
    exact (hf b a).bind ih

end Outcome

open Outcome

/-- The store never answers a write in the name of the gate. -/
theorem Schema.write_failsOnly (s : Schema) (now : Nat) (ts : Tables) (table : String) (a : Action)
    (row : Row) : FailsOnly (·.isAuthorization = false) (s.write now ts table a row) := by
  have hrequire : FailsOnly (·.isAuthorization = false) (s.require table) := by
    unfold Schema.require
    split
    · exact failsOnly_ok _
    · exact failsOnly_error rfl
  refine hrequire.bind fun t => FailsOnly.bind ?_ fun rows => failsOnly_ok _
  have hcolumns : FailsOnly (·.isAuthorization = false) (t.checkColumns row) := by
    unfold Table.checkColumns
    split
    · exact failsOnly_error rfl
    · exact failsOnly_ok _
  have hkey : ∀ c, FailsOnly (·.isAuthorization = false) (t.keyValue row c) := by
    intro c
    rw [t.keyValue_eq]
    split
    · exact failsOnly_error rfl
    · exact failsOnly_ok _
  have hfill : ∀ r c, FailsOnly (·.isAuthorization = false) (t.fillColumn now r c) := by
    intro r c
    unfold Table.fillColumn
    repeat' split
    all_goals first | exact failsOnly_ok _ | exact failsOnly_error rfl
  refine hcolumns.bind fun _ => (failsOnly_mapM hkey _).bind fun key => ?_
  have happend : FailsOnly (·.isAuthorization = false) (t.append now (ts.rows table) row) :=
    (failsOnly_foldlM hfill _ row).map _
  unfold Table.applyAt
  generalize (ts.rows table).any (t.hasKey key) = found
  match a, found with
  | .insert, true => exact failsOnly_error rfl
  | .insert, false | .upsert, false => exact happend
  | .upsert, true | .update, true | .update, false | .delete, true | .delete, false =>
    exact failsOnly_ok _

theorem Subject.keyValues_failsOnly (x : Subject) (t : Table) :
    FailsOnly (·.isAuthorization = false) (x.keyValues t) := by
  refine failsOnly_mapM (fun c => ?_) _
  unfold Subject.keyValue
  split
  · exact failsOnly_ok _
  · split
    · exact failsOnly_ok _
    · exact failsOnly_error rfl

/-- What a write with the given arguments comes to where nothing guards it. -/
def Store.bareWrite (s : Store) (now handle : Nat) (table : String) (a : Action) (args : Json) :
    Outcome Unit :=
  match args.toRow? with
  | some row => (s.mutate now handle table a row).1
  | none => .error (.invalid (table ++ "." ++ a.name ++ " expects a row, got " ++ args.compact))

section
variable {s : Store} {W : Tables} {table : String} {t : Table} {w : Where} {a : Action}
  {i : Invocation} {args : Json} {site : Site} {p : Post} {g : Gate} {x : Subject}

theorem Store.Held.bareWrite_failsOnly {h : Nat} (hh : s.Held h W) (now : Nat) (table : String)
    (a : Action) (args : Json) :
    FailsOnly (·.isAuthorization = false) (s.bareWrite now h table a args) := by
  unfold Store.bareWrite
  split
  · rename_i row _
    have hw := s.schema.write_failsOnly now W table a row
    rw [hh.mutate]
    split
    · exact failsOnly_ok _
    · rename_i e he
      exact failsOnly_error (hw e he)
  · exact failsOnly_error rfl

/-- A write that the store accepts has the arguments of a row with a full key. -/
theorem Store.Held.of_bareWrite {h now : Nat} (hh : s.Held h W)
    (ht : s.schema.table? table = some t) (hok : s.bareWrite now h table a args = .ok ()) :
    ∃ row W', args.toRow? = some row ∧ s.mutate now h table a row = (.ok (), s.setTables h W') ∧
      t.FullKey row ∧ t.Written (W.rows table) row a (W'.rows table) := by
  unfold Store.bareWrite at hok
  cases hrow : args.toRow? with
  | none => simp [hrow] at hok
  | some row =>
    simp only [hrow] at hok
    have hm := hh.mutate now table a row
    cases hw : s.schema.write now W table a row with
    | error e => simp [hm, hw] at hok
    | ok W' =>
      obtain ⟨t', rows', ht', -, hf, hwr, rfl⟩ := Schema.write_written hw
      obtain rfl : t = t' := Option.some.inj (ht.symm.trans ht')
      rw [hw] at hm
      exact ⟨row, _, rfl, hm, hf, by simpa [Tables.rows_setRows] using hwr⟩

/-- The body of a guarded write runs to its end, and it comes to the write alone. -/
theorem advance_writeRow (hst : site.HasStore i.tx.database s) (table : String) (a : Action)
    (args : Json) (app : Application) (queues : List Nat) (credit : Nat) (p : Post) :
    (writeRow table a i args).advance app queues ⟨credit, p, site⟩ =
      (.finished (s.bareWrite site.clock i.tx.handle table a args), ⟨credit, p,
        match args.toRow? with
        | some row => site.withStore i.tx.database (s.mutate site.clock i.tx.handle table a row).2
        | none => site⟩) := by
  unfold writeRow Store.bareWrite
  cases args.toRow? with
  | none => rfl
  | some row =>
    simp only [Program.request, Program.advance, hst.answer_mutate]

/-- A predicate that allows everything opens the gate for those who bypass it, and for all others as
long as the table has a row. -/
theorem Site.enforce_blanket (hs : i.environment = .server) (hw : w.table = some table)
    (ht : g.schema.table? table = some t) {b : Actor}
    (hp : w.decide b table i.identity = some (.blanket true)) {rows : List Row}
    (hrows : site.shown i.tx table = .ok rows) :
    (Gate.bypasses i.identity = true ∨ rows ≠ []) ∧
        (g.enforce b i.actor (site.run i.tx) table w x).result = .ok () ∨
      (Gate.bypasses i.identity = false ∧ rows = []) ∧
        ∃ query, (g.enforce b i.actor (site.run i.tx) table w x).result =
          .error (.denied (Gate.title table i.identity) query) := by
  cases hb : Gate.bypasses i.identity with
  | true => exact .inl ⟨.inl rfl, Gate.enforce_of_bypasses hb⟩
  | false =>
    have hans := site.enforce_answers (g := g) (x := x) hs hb hw ht b [] fun c hc =>
      nomatch hp.symm.trans hc
    rw [hp, hrows] at hans
    generalize (g.enforce b i.actor (site.run i.tx) table w x).result = r at hans
    cases hans with
    | admitted h =>
      obtain ⟨row, hrow, -⟩ := h
      exact .inl ⟨.inr (List.ne_nil_of_mem hrow), rfl⟩
    | refused h query =>
      refine .inr ⟨⟨rfl, ?_⟩, query, rfl⟩
      exact List.eq_nil_iff_forall_not_mem.2 fun row hrow => h row hrow rfl

/-- The automatic check of a mutation that has not passed any check is a call of the gate. -/
theorem advance_automaticCheck (hs : i.environment = .server) (table : String) (w : Where)
    (x : Subject) (app : Application) (queues : List Nat) (credit : Nat) (site : Site) :
    (automaticCheck table w x i).advance app queues ⟨credit, .ofInvocation i, site⟩ =
      (.finished (site.can (.ofInvocation i) i.gate w x).1,
        ⟨credit, (site.can (.ofInvocation i) i.gate w x).2.1,
          (site.can (.ofInvocation i) i.gate w x).2.2⟩) := by
  have hc : Checked.covers [] i.gate table x = false := Checked.covers_nil ..
  simp only [automaticCheck, hs, Program.request, Program.bind, Program.advance, Site.answer,
    Post.ofInvocation, hc, Bool.false_eq_true, ↓reduceIte]

section Blanket
variable (hs : i.environment = .server) (hg : i.gate.schema = s.schema)
  (ht : s.schema.table? table = some t) (hst : site.HasStore i.tx.database s)
  (hh : s.Held i.tx.handle W) (hp : w.decide i.actor table i.identity = some (.blanket true))
include hs hg ht hst hh hp

/-- A guarded insert that is allowed to everyone comes to the insert alone: when it is checked, the
row that it has added is there. -/
theorem advance_insert_of_blanket (args : Json) (app : Application) (queues : List Nat)
    (credit : Nat) : ∃ turn,
    (guardedWrite table (w.withTable table) .insert none i args).advance app queues
        ⟨credit, .ofInvocation i, site⟩ =
      (.finished (s.bareWrite site.clock i.tx.handle table .insert args), turn) := by
  have hrun := advance_writeRow hst table .insert args app queues credit (.ofInvocation i)
  cases hr : s.bareWrite site.clock i.tx.handle table .insert args with
  | error e =>
    rw [hr] at hrun
    exact ⟨_, Program.advance_andThen_error hrun⟩
  | ok u =>
    rw [hr] at hrun
    obtain ⟨row, W', hrow, hm, hf, hwr⟩ := hh.of_bareWrite ht hr
    -- The check comes after the insert, so it finds at least the new row.
    have hne : W'.rows table ≠ [] := by
      intro he
      generalize W'.rows table = rows' at hwr he
      cases hwr with
      | added => simp at he
      | merged ha => simp at ha
      | kept ha => simp at ha
    have hshown := (hst.withStore (s.setTables i.tx.handle W')).shown (hh.setTables W') ht
    have hopen := (Site.enforce_blanket (g := i.gate) (w := w.withTable table) (x := .row row) hs
      rfl (hg ▸ ht) hp hshown).resolve_right fun h => hne h.1.2
    obtain ⟨checked, journal, hcan, -⟩ :=
      (site.withStore i.tx.database (s.setTables i.tx.handle W')).can_of_key (g := i.gate)
        (w := w.withTable table) (p := .ofInvocation i) rfl hs rfl (hg ▸ ht)
        (Subject.keyValues_row hf)
    have hcheck := advance_automaticCheck hs table (w.withTable table) (.row row) app queues credit
      (site.withStore i.tx.database (s.setTables i.tx.handle W'))
    rw [hcan, show (Post.ofInvocation i).scope.actor = i.actor from rfl, hopen.2] at hcheck
    simp only [hrow, hm] at hrun
    rw [← Subject.ofJson_of_toRow? hrow] at hcheck
    exact ⟨_, (Program.advance_andThen_ok hrun).trans hcheck⟩

/-- A guarded update, upsert or delete that is allowed to everyone is denied if the table is empty.
Else it comes to the write alone, if the arguments have a full key. -/
theorem advance_guardedWrite_of_blanket (ha : a ≠ .insert) (args : Json) (app : Application)
    (queues : List Nat) (credit : Nat) :
    ∃ r turn, (guardedWrite table (w.withTable table) a none i args).advance app queues
        ⟨credit, .ofInvocation i, site⟩ = (.finished r, turn) ∧
      ((Gate.bypasses i.identity = false ∧ W.rows table = []) ∧
          (∃ query, r = .error (.denied (Gate.title table i.identity) query)) ∨
        (Gate.bypasses i.identity = true ∨ W.rows table ≠ []) ∧
          match (Subject.ofJson args).keyValues t with
          | .ok _ => r = s.bareWrite site.clock i.tx.handle table a args
          | .error e => r = .error e) := by
  have hx := hst.shown hh ht
  obtain ⟨r, checked, journal, hcan, hr⟩ := site.can_eq_enforce (g := i.gate)
    (w := w.withTable table) (x := .ofJson args) (p := .ofInvocation i) rfl hs rfl
  have hrun := @advance_guardedWrite table w a i args ha hs app queues credit site
  rw [hcan] at hrun
  rw [Gate.subjectKey_eq (hg ▸ ht)] at hr
  rcases Site.enforce_blanket (g := i.gate) (w := w.withTable table) (x := .ofJson args) hs rfl
    (hg ▸ ht) hp hx with ⟨hopen, he⟩ | ⟨hclosed, query, he⟩
  · rw [show (Post.ofInvocation i).scope.actor = i.actor from rfl, he] at hr
    cases hk : (Subject.ofJson args).keyValues t with
    | error e =>
      rw [hk] at hr
      obtain ⟨rfl, -⟩ := hr
      exact ⟨_, _, hrun, .inr ⟨hopen, rfl⟩⟩
    | ok key =>
      rw [hk] at hr
      obtain ⟨rfl, -⟩ := hr
      have hj : ({ site with journal } : Site).HasStore i.tx.database s := hst
      exact ⟨_, _, hrun.trans (advance_writeRow hj table a args app queues credit _),
        .inr ⟨hopen, rfl⟩⟩
  · rw [show (Post.ofInvocation i).scope.actor = i.actor from rfl, he] at hr
    obtain ⟨rfl, -⟩ := hr
    exact ⟨_, _, hrun, .inl ⟨hclosed, query, rfl⟩⟩

end Blanket

/-- The store accepts a write only with a full key. -/
theorem Store.Held.keyValues_of_bareWrite {h now : Nat} (hh : s.Held h W)
    (ht : s.schema.table? table = some t) (hok : s.bareWrite now h table a args = .ok ()) :
    ∃ key, (Subject.ofJson args).keyValues t = .ok key := by
  obtain ⟨row, W', hrow, -, hf, -⟩ := hh.of_bareWrite ht hok
  rw [Subject.ofJson_of_toRow? hrow]
  exact ⟨_, Subject.keyValues_row hf⟩

/-- A predicate that allows everything opens the gate exactly for those who bypass it, and while the
table has a row.  A guarded write under it fails in the name of the gate exactly if it is checked
before the table has a row, and else it comes to the write alone. -/
theorem blanket_allow_opens_iff (hs : i.environment = .server) (hg : i.gate.schema = s.schema)
    (ht : s.schema.table? table = some t) (hst : site.HasStore i.tx.database s)
    (hh : s.Held i.tx.handle W) :
    (∀ (p : Post) (w : Where) (x : Subject) (key : List (String × Json)),
      p.invocation = some i → w.table = some table →
      w.decide p.scope.actor table i.identity = some (.blanket true) → x.keyValues t = .ok key →
        ((site.can p i.gate w x).1 = .ok () ↔
          Gate.bypasses i.identity = true ∨ W.rows table ≠ []) ∧
        ((site.can p i.gate w x).1 = .ok () ∨ ∃ query,
          (site.can p i.gate w x).1 = .error (.denied (Gate.title table i.identity) query))) ∧
    ∀ (w : Where) (a : Action) (args : Json) (app : Application) (queues : List Nat) (credit : Nat),
      w.decide i.actor table i.identity = some (.blanket true) →
      ∃ r turn, (guardedWrite table (w.withTable table) a none i args).advance app queues
          ⟨credit, .ofInvocation i, site⟩ = (.finished r, turn) ∧
        ((∃ e, r = .error e ∧ e.isAuthorization = true) ↔
          a ≠ .insert ∧ Gate.bypasses i.identity = false ∧ W.rows table = []) ∧
        ((a = .insert ∨ Gate.bypasses i.identity = true ∨ W.rows table ≠ []) →
          (r = .ok () ↔ s.bareWrite site.clock i.tx.handle table a args = .ok ()) ∧
          ∀ key, (Subject.ofJson args).keyValues t = .ok key →
            r = s.bareWrite site.clock i.tx.handle table a args) := by
  have hbare : ∀ a args, ¬ ∃ e, s.bareWrite site.clock i.tx.handle table a args = .error e ∧
      e.isAuthorization = true := by
    rintro a args ⟨e, he, hauth⟩
    have hnot : e.isAuthorization = false := hh.bareWrite_failsOnly _ _ _ _ e he
    exact Bool.noConfusion (hauth.symm.trans hnot)
  constructor
  · intro p w x key hi hw hp hx
    obtain ⟨checked, journal, hcan, -⟩ := site.can_of_key (g := i.gate) hi hs hw (hg ▸ ht) hx
    rw [hcan]
    rcases site.enforce_blanket (g := i.gate) (x := x) hs hw (hg ▸ ht) hp (hst.shown hh ht) with
      ⟨hopen, he⟩ | ⟨hclosed, query, he⟩
    · exact ⟨iff_of_true he hopen, .inl he⟩
    · refine ⟨iff_of_false (by simp [he]) ?_, .inr ⟨query, he⟩⟩
      simp [hclosed.1, hclosed.2]
  · intro w a args app queues credit hp
    by_cases ha : a = .insert
    · subst ha
      obtain ⟨turn, hrun⟩ := advance_insert_of_blanket hs hg ht hst hh hp args app queues credit
      exact ⟨_, turn, hrun, iff_of_false (hbare _ args) (by simp), fun _ =>
        ⟨Iff.rfl, fun _ _ => rfl⟩⟩
    · obtain ⟨r, turn, hrun, ⟨hclosed, query, rfl⟩ | ⟨hopen, hr⟩⟩ :=
        advance_guardedWrite_of_blanket hs hg ht hst hh hp ha args app queues credit
      · refine ⟨_, turn, hrun, iff_of_true ⟨_, rfl, rfl⟩ ⟨ha, hclosed⟩, ?_⟩
        rintro (hi | hb | hne)
        · exact absurd hi ha
        · simp [hclosed.1] at hb
        · exact absurd hclosed.2 hne
      · have hnot : ¬ (a ≠ .insert ∧ Gate.bypasses i.identity = false ∧ W.rows table = []) := by
          rintro ⟨-, hb, he⟩
          simp [hb, he] at hopen
        refine ⟨r, turn, hrun, ?_⟩
        cases hk : (Subject.ofJson args).keyValues t with
        | ok key =>
          rw [hk] at hr
          subst hr
          exact ⟨iff_of_false (hbare a args) hnot, fun _ => ⟨Iff.rfl, fun _ _ => rfl⟩⟩
        | error e =>
          rw [hk] at hr
          subst hr
          have hauth : e.isAuthorization = false := Subject.keyValues_failsOnly _ t e hk
          refine ⟨iff_of_false (by simp [hauth]) hnot, fun _ => ⟨iff_of_false (by simp) ?_,
            fun key h => nomatch h⟩⟩
          intro hok
          obtain ⟨key, hkey⟩ := hh.keyValues_of_bareWrite ht hok
          exact nomatch hk.symm.trans hkey

end

open ProjectTasks in
theorem blanket_allow_opens_for_tasks :
    ((Site.new 0 [.direct store]).can (.ofInvocation invocation) invocation.gate
      (.allowAll "task") (subject 7)).1 = .ok () ∧
    ∃ turn, (guardedWrite "task" (.allowAll "task") .delete none invocation
        (subject 7).toJson).advance ⟨.empty, 0⟩ []
          ⟨0, .ofInvocation invocation, Site.new 0 [.direct store]⟩ =
      (.finished (.ok ()), turn) := by
  have hall := @blanket_allow_opens_iff store tables "task" table invocation
    (.new 0 [.direct store]) rfl rfl rfl rfl held
  refine ⟨(hall.1 _ (.allowAll "task") (subject 7) _ rfl rfl rfl rfl).1.2 (.inr (by decide)), ?_⟩
  obtain ⟨r, turn, hrun, -, hstore⟩ :=
    hall.2 (.allowAll "task") .delete (subject 7).toJson ⟨.empty, 0⟩ [] 0 rfl
  obtain rfl : r = .ok () := (hstore (.inr (.inr (by decide)))).1.2 rfl
  exact ⟨turn, hrun⟩

namespace ProjectTasks

/-- A store in which the first transaction finds no task. -/
def emptyStore : Store := (Store.new schema).after [.begin]

theorem held_emptyStore : emptyStore.Held 0 .empty := ⟨rfl, rfl, by decide⟩

end ProjectTasks

open ProjectTasks in
/-- In an empty table a write that is allowed to everyone is denied, though the store accepts it. -/
theorem upsert_denied_in_empty_table : ∃ query turn,
    (guardedWrite "task" (.allowAll "task") .upsert none invocation (.ofRow shared)).advance
        ⟨.empty, 0⟩ [] ⟨0, .ofInvocation invocation, Site.new 0 [.direct emptyStore]⟩ =
      (.finished (.error (.denied "task with auth id: u1" query)), turn) ∧
    emptyStore.bareWrite 0 0 "task" .upsert (.ofRow shared) = .ok () := by
  obtain ⟨r, turn, hrun, ⟨-, query, rfl⟩ | ⟨hopen, -⟩⟩ := @advance_guardedWrite_of_blanket
    emptyStore .empty "task" table (.allowAll "task") .upsert invocation
    (.new 0 [.direct emptyStore]) rfl rfl rfl rfl held_emptyStore rfl (by simp) (.ofRow shared)
    ⟨.empty, 0⟩ [] 0
  · exact ⟨query, turn, hrun, rfl⟩
  · exact absurd hopen (by decide)

end RowGuard
