import RowGuard.Proofs.Store.Transactions
import RowGuard.Schedule.Site

/-! # Sites over a store that is reached directly

A request to a database whose connection refuses nothing is a call on its store.
-/
namespace RowGuard

/-- The site reaches the store directly, as the database of that number. -/
def Site.HasStore (site : Site) (d : Nat) (s : Store) : Prop := site.databases[d]? = some (.direct s)

/-- The site with another store behind a direct database. -/
def Site.withStore (site : Site) (d : Nat) (s : Store) : Site :=
  { site with databases := site.databases.set d (.direct s) }

namespace Site
variable {site : Site} {d : Nat} {s : Store}

theorem HasStore.unique {s' : Store} (hs : site.HasStore d s) (hs' : site.HasStore d s') :
    s = s' := by
  have he := Option.some.inj (hs.symm.trans hs')
  injection he

theorem HasStore.withStore (hs : site.HasStore d s) (s' : Store) :
    (site.withStore d s').HasStore d s' := by
  obtain ⟨hlt, -⟩ := List.getElem?_eq_some_iff.1 hs
  simp [HasStore, Site.withStore, hlt]

theorem HasStore.withStore_self (hs : site.HasStore d s) : site.withStore d s = site := by
  obtain ⟨hlt, he⟩ := List.getElem?_eq_some_iff.1 hs
  unfold Site.withStore
  rw [← he, List.set_getElem_self]

theorem HasStore.onDatabase {α : Type} (hs : site.HasStore d s)
    (f : Database → Outcome α × Database) : site.onDatabase d f =
      ((f (.direct s)).1, { site with databases := site.databases.set d (f (.direct s)).2 }) := by
  have he : site.databases[d]? = some (.direct s) := hs
  simp only [Site.onDatabase, he]

theorem HasStore.run {tx : TxRef} (hs : site.HasStore tx.database s) :
    site.run tx = s.run tx.handle := by
  have he : site.databases[tx.database]? = some (.direct s) := hs
  funext q
  simp only [Site.run, he]
  rfl

theorem HasStore.begin? (hs : site.HasStore d s) :
    site.begin? d = s.begin?.map fun (h, s') => (.ok ⟨d, h⟩, site.withStore d s') := by
  have he : site.databases[d]? = some (.direct s) := hs
  simp only [Site.begin?, he]
  have hb : (Database.direct s).begin? = s.begin?.map fun (h, s') => (.ok h, .direct s') := rfl
  rw [hb]
  cases s.begin? <;> rfl

theorem HasStore.drop {tx : TxRef} (hs : site.HasStore tx.database s) :
    site.drop tx = site.withStore tx.database (s.drop tx.handle) := by
  rw [Site.drop, hs.onDatabase]
  rfl

theorem drop_eq (site : Site) (tx : TxRef) :
    ∃ databases, site.drop tx = { site with databases } := by
  unfold Site.drop Site.onDatabase
  cases site.databases[tx.database]? with
  | none => exact ⟨site.databases, rfl⟩
  | some d => exact ⟨_, rfl⟩

theorem HasStore.after_drop (hs : site.HasStore d s) (tx : TxRef) :
    (site.drop tx).HasStore d (if tx.database = d then s.drop tx.handle else s) := by
  by_cases hd : tx.database = d
  · subst hd
    rw [if_pos rfl, hs.drop]
    exact hs.withStore _
  · rw [if_neg hd]
    have he : site.databases[d]? = some (.direct s) := hs
    unfold Site.drop Site.onDatabase
    cases site.databases[tx.database]? with
    | none => exact hs
    | some db =>
      simp only [HasStore]
      rw [List.getElem?_set_ne hd]
      exact he

/-- Dropping a handle while no transaction is open leaves the store as it is. -/
theorem HasStore.drop_of_quiet (hs : site.HasStore d s) (hq : s.Quiet) (tx : TxRef) :
    (site.drop tx).HasStore d s := by
  have hr : s.drop tx.handle = s := hq.release tx.handle
  simpa [hr] using hs.after_drop tx

section Answer
variable {tx : TxRef} (hs : site.HasStore tx.database s) (p : Post)
include hs

theorem HasStore.answer_run (q : Query) :
    site.answer p (.run tx q) = (s.run tx.handle q, p, site) := by
  simp [answer, hs.run]

theorem HasStore.answer_mutate (table : String) (a : Action) (row : Row) :
    site.answer p (.mutate tx table a row) = ((s.mutate site.clock tx.handle table a row).1, p,
      site.withStore tx.database (s.mutate site.clock tx.handle table a row).2) := by
  simp only [answer, hs.onDatabase]
  rfl

theorem HasStore.answer_commit : site.answer p (.commit tx) =
    ((s.commit tx.handle).1, p, site.withStore tx.database (s.commit tx.handle).2) := by
  simp only [answer, hs.onDatabase]
  rfl

theorem HasStore.answer_rollback : site.answer p (.rollback tx) =
    ((s.rollback tx.handle).1, p, site.withStore tx.database (s.rollback tx.handle).2) := by
  simp only [answer, hs.onDatabase]
  rfl

end Answer

@[simp] theorem withStore_clock (site : Site) (d : Nat) (s : Store) :
    (site.withStore d s).clock = site.clock := rfl

@[simp] theorem withStore_outbox (site : Site) (d : Nat) (s : Store) :
    (site.withStore d s).outbox = site.outbox := rfl

@[simp] theorem withStore_bags (site : Site) (d : Nat) (s : Store) :
    (site.withStore d s).bags = site.bags := rfl

end Site
end RowGuard
