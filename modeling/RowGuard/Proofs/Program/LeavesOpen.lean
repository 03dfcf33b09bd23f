import RowGuard.Proofs.Mutation.TableModels
import RowGuard.Proofs.Schedule.DirectSite
import RowGuard.Proofs.Schedule.Interleaving
import RowGuard.Proofs.Store.Writes

/-! # Programs that settle nothing

A program that neither begins nor settles a transaction can read, write, call mutators and queue
work as it likes.  What it does to a store is no more than a number of writes, and a write changes
the working tables of an open transaction or nothing at all.
-/
namespace RowGuard

namespace Store
variable {s s' : Store}

/-- The second store is the first one, or the first one after a write in some transaction. -/
def Wrote (s s' : Store) : Prop :=
  s' = s ∨ ∃ now h table a row, s' = (s.mutate now h table a row).2

theorem Wrote.held (hw : s.Wrote s') {h : Nat} {W : Tables} (hs : s.Held h W) :
    ∃ W', s'.Held h W' := by
  rcases hw with rfl | ⟨now, g, table, a, row, rfl⟩
  · exact ⟨W, hs⟩
  · by_cases hg : g = h
    · subst hg
      rw [hs.mutate]
      cases s.schema.write now W table a row with
      | ok W' => exact ⟨W', hs.setTables W'⟩
      | error e => exact ⟨W, hs⟩
    · have hc : s.tables? g = none := by rw [hs.tables?, if_neg hg]
      rw [mutate_of_closed hc]
      exact ⟨W, hs⟩

theorem Wrote.quiet (hw : s.Wrote s') (hs : s.Quiet) : s' = s := by
  rcases hw with rfl | ⟨now, g, table, a, row, rfl⟩
  · rfl
  · rw [mutate_of_closed (hs.tables? g)]

theorem Wrote.steady (hw : s.Wrote s') (hs : s.Steady) : s'.Steady := by
  rcases hs with hq | ⟨h, W, hh⟩
  · exact .inl (hw.quiet hq ▸ hq)
  · obtain ⟨W', hh'⟩ := hw.held hh
    exact .inr ⟨h, W', hh'⟩

theorem Wrote.committed (hw : s.Wrote s') : s'.committed = s.committed := by
  rcases hw with rfl | ⟨now, g, table, a, row, rfl⟩
  · rfl
  · unfold mutate
    cases s.tables? g with
    | none => rfl
    | some W => cases hr : s.schema.write now W table a row <;> simp [hr]

theorem Steady.drop (hs : s.Steady) (h : Nat) : (s.drop h).Steady := hs.perform (.drop h)

end Store

/-- Whether a request settles a transaction. -/
def Request.settles : Request → Bool
  | commit _ => true
  | rollback _ => true
  | _ => false

/-- A program that neither begins nor settles a transaction, as long as the committed rows of the
database `d` can be read without one. -/
inductive Program.LeavesOpen (d : Nat) {α : Type} : Program α → Prop where
  | done (a : α) : LeavesOpen d (.done a)
  | ask {r : Request} (hr : r.settles = false) {next : r.Reply → Program α}
      (h : ∀ x, LeavesOpen d (next x)) : LeavesOpen d (.ask r next)
  | snapshot (e : Nat) (q : Query) {next : Option (Outcome (List Row)) → Program α}
      (h : ∀ x, (e = d → x.isSome) → LeavesOpen d (next x)) :
      LeavesOpen d (.ask (.snapshot e q) next)
  | sleep (ms : Nat) {next : Program α} (h : LeavesOpen d next) : LeavesOpen d (.sleep ms next)
  | hang : LeavesOpen d .hang
  | call (c : Call) {next : Outcome Unit → Program α} (h : ∀ r, LeavesOpen d (next r)) :
      LeavesOpen d (.call c next)
  | stepAside {next : Program α} (h : LeavesOpen d next) : LeavesOpen d (.stepAside next)

/-- No mutator begins or settles a transaction, whoever it runs for. -/
def Application.LeavesOpen (app : Application) (d : Nat) : Prop :=
  ∀ name body, app.mutators.get? name = some body → ∀ i args, (body i args).LeavesOpen d

/-- A program under way that neither begins nor settles a transaction. -/
def Standing.LeavesOpen {α : Type} (d : Nat) : Standing α → Prop
  | running p => p.LeavesOpen d
  | waiting _ _ next => ∀ r, (next r).LeavesOpen d

/-- The tasks beside a program neither begin nor settle a transaction. -/
def Tasks.LeaveOpen (d : Nat) (ts : Tasks) : Prop := ∀ k ∈ ts, k.standing.LeavesOpen d

theorem Tasks.LeaveOpen.append {d : Nat} {ts new : Tasks} (ht : ts.LeaveOpen d)
    (hn : new.LeaveOpen d) : Tasks.LeaveOpen d (ts ++ new) := by
  intro k hk
  rcases List.mem_append.1 hk with hk | hk
  · exact ht k hk
  · exact hn k hk

theorem Tasks.LeaveOpen.set {d : Nat} {ts : Tasks} (ht : ts.LeaveOpen d) (t : Nat)
    {k : Strand (Outcome Unit)} (hk : k.standing.LeavesOpen d) : Tasks.LeaveOpen d (ts.set t k) := by
  intro j hj
  rcases List.mem_or_eq_of_mem_set hj with hj | rfl
  · exact ht j hj
  · exact hk

theorem Program.LeavesOpen.bind {d : Nat} {α β : Type} {p : Program α} {f : α → Program β}
    (hp : p.LeavesOpen d) (hf : ∀ a, (f a).LeavesOpen d) : (p.bind f).LeavesOpen d := by
  induction hp with
  | done a => exact hf a
  | ask hr _ ih => exact .ask hr ih
  | snapshot e q _ ih => exact .snapshot e q ih
  | sleep ms _ ih => exact .sleep ms ih
  | hang => exact .hang
  | call c _ ih => exact .call c ih
  | stepAside _ ih => exact .stepAside ih

theorem Program.LeavesOpen.andThen {d : Nat} {α β : Type} {p : Program (Outcome α)}
    {f : α → Program (Outcome β)} (hp : p.LeavesOpen d) (hf : ∀ a, (f a).LeavesOpen d) :
    (p.andThen f).LeavesOpen d := by
  refine hp.bind fun r => ?_
  cases r with
  | ok a => exact hf a
  | error e => exact .done _

section GuardedWrites
variable {d : Nat} (table : String) (w : Where) (a : Action) (i : Invocation) (args : Json)

theorem automaticCheck_leavesOpen (s : Subject) : (automaticCheck table w s i).LeavesOpen d := by
  unfold automaticCheck
  cases i.environment with
  | client => exact .done _
  | server =>
    refine .ask rfl fun c => ?_
    dsimp only [Program.bind]
    split
    · exact .done _
    · exact .ask rfl .done

theorem writeRow_leavesOpen : (writeRow table a i args).LeavesOpen d := by
  unfold writeRow
  cases args.toRow? with
  | none => exact .done _
  | some row => exact .ask rfl .done

theorem guardedWrite_leavesOpen {custom : Option Body}
    (hc : ∀ body, custom = some body → (body i args).LeavesOpen d) :
    (guardedWrite table w a custom i args).LeavesOpen d := by
  have hcheck := automaticCheck_leavesOpen (d := d) table w i (.ofJson args)
  have hbody : ((custom.getD (writeRow table a)) i args).LeavesOpen d := by
    cases custom with
    | none => exact writeRow_leavesOpen table a i args
    | some body => exact hc body rfl
  cases a with
  | insert => exact hbody.andThen fun _ => hcheck
  | _ => exact hcheck.andThen fun _ => hbody

end GuardedWrites

/-- Models whose own mutations neither begin nor settle a transaction have no mutator that does. -/
theorem Models.leavesOpen {d : Nat} {models : List Model}
    (hm : ∀ m ∈ models, ∀ name b, m.custom.get? name = some b →
      ∀ i args, Program.LeavesOpen d (b i args)) (timeout : Nat) :
    Application.LeavesOpen ⟨(Models.ofList models).mutators, timeout⟩ d := by
  intro name body hget
  refine mutator_induction (P := fun b => ∀ i args, Program.LeavesOpen d (b i args))
    (fun table w a custom hc i args => ?_) hm hget
  exact guardedWrite_leavesOpen table w a i args fun b hb => hc b hb i args

section Moves
variable {app : Application} {d : Nat}

theorem Call.strand_leavesOpen (ha : app.LeavesOpen d) (c : Call) :
    (c.strand app).standing.LeavesOpen d := by
  show (app.program c).LeavesOpen d
  unfold Application.program
  cases hb : app.mutators.get? c.name with
  | none => exact .done _
  | some body => exact ha _ _ hb _ _

theorem Job.strand_leavesOpen (ha : app.LeavesOpen d) (j : Job) :
    (j.strand app).standing.LeavesOpen d := by
  cases j with
  | perform work => exact .ask rfl fun _ => .done _
  | mutation c => exact c.strand_leavesOpen ha

theorem Job.strands_leaveOpen (ha : app.LeavesOpen d) (js : List Job) :
    Tasks.LeaveOpen d (js.map (Job.strand app)) := by
  intro k hk
  obtain ⟨j, -, rfl⟩ := List.mem_map.1 hk
  exact j.strand_leavesOpen ha

variable {site site' : Site} {s : Store}

theorem Site.can_databases (site : Site) (p : Post) (g : Gate) (w : Where) (x : Subject) :
    (site.can p g w x).2.2.databases = site.databases := by
  unfold Site.can
  split
  · rfl
  · dsimp only
    split <;> rfl

/-- A request that settles nothing is at most a write. -/
theorem Site.HasStore.answer_wrote (hs : site.HasStore d s) (post : Post) {r : Request}
    (hr : r.settles = false) : ∃ s', (site.answer post r).2.2.HasStore d s' ∧ s.Wrote s' := by
  have hstay : (site.answer post r).2.2.databases = site.databases →
      ∃ s', (site.answer post r).2.2.HasStore d s' ∧ s.Wrote s' := fun h =>
    ⟨s, (congrArg (·[d]?) h).trans hs, .inl rfl⟩
  cases r with
  | commit tx => cases hr
  | rollback tx => cases hr
  | can g w x => exact hstay (site.can_databases post g w x)
  | launch work =>
    apply hstay
    simp only [Site.answer]
    split <;> rfl
  | mutate tx table a row =>
    by_cases hd : tx.database = d
    · subst hd
      rw [hs.answer_mutate]
      exact ⟨_, hs.withStore _, .inr ⟨_, _, _, _, _, rfl⟩⟩
    · -- The write goes to another database.
      refine ⟨s, ?_, .inl rfl⟩
      have he : site.databases[d]? = some (.direct s) := hs
      simp only [Site.answer, Site.onDatabase]
      cases site.databases[tx.database]? with
      | none => exact hs
      | some db =>
        simp only [Site.HasStore]
        rw [List.getElem?_set_ne hd]
        exact he
  | _ => exact hstay rfl

theorem Site.HasStore.snapshot_isSome (hs : site.HasStore d s) (q : Query) :
    (site.snapshot d q).isSome = true := by
  have he : site.databases[d]? = some (.direct s) := hs
  simp [Site.snapshot, he, Database.direct]

/-- What a program that settles nothing does in one move: it writes at most, and neither it nor the
tasks that it starts will settle anything. -/
theorem Standing.LeavesOpen.move {α : Type} {ts new : Tasks} {k k' : Strand α}
    (ha : app.LeavesOpen d) (hk : k.standing.LeavesOpen d) (hs : site.HasStore d s)
    (hm : k.Move app ts site site' k' new) : k'.standing.LeavesOpen d ∧ new.LeaveOpen d ∧
      ∃ s', site'.HasStore d s' ∧ s.Wrote s' := by
  have hnone : Tasks.LeaveOpen d [] := fun _ h => nomatch h
  cases hm with
  | ask _ post r next =>
    have hnew := Job.strands_leaveOpen ha (site.answer post r).2.2.outbox
    cases hk with
    | ask hr h => exact ⟨h _, hnew, hs.answer_wrote post hr⟩
    | snapshot e q h =>
      refine ⟨h _ fun he => ?_, hnew, hs.answer_wrote post rfl⟩
      subst he
      exact hs.snapshot_isSome q
  | sleep =>
    cases hk with
    | sleep ms h => exact ⟨h, hnone, s, hs, .inl rfl⟩
  | begin => cases hk
  | call _ _ hc next =>
    cases hk with
    | call c h =>
      refine ⟨h, fun k hk => ?_, s, hs, .inl rfl⟩
      rw [List.mem_singleton.1 hk]
      exact Call.strand_leavesOpen ha _
  | unknown =>
    cases hk with
    | call c h => exact ⟨h _, hnone, s, hs, .inl rfl⟩
  | stepAside =>
    cases hk with
    | stepAside h =>
      refine ⟨fun _ => h, fun k hk => ?_, s, hs, .inl rfl⟩
      rw [List.mem_singleton.1 hk]
      exact .done _
  | deliver => exact ⟨hk _, hnone, s, hs, .inl rfl⟩
  | expire => exact ⟨hk _, hnone, s, hs, .inl rfl⟩

end Moves
end RowGuard
