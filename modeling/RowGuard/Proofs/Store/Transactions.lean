import RowGuard.Store.Basic

/-! # The two states of a store

Between two calls a store is quiet, or it is held by the one transaction that is not settled.  Each
call is described once for each of the two, and a call on any other handle finds it settled.
-/
namespace RowGuard.Store

/-- No transaction is open, and the lock is free. -/
structure Quiet (s : Store) : Prop where
  working : s.working = []
  writer : s.writer = none

/-- The one open transaction has the handle `h` and the working tables `W`, and it has the lock. -/
structure Held (s : Store) (h : Nat) (W : Tables) : Prop where
  working : s.working = [(h, W)]
  writer : s.writer = some h
  issued : h < s.issued

/-- The states that a store is in between two calls. -/
def Steady (s : Store) : Prop := s.Quiet ∨ ∃ h W, s.Held h W

theorem quiet_new (schema : Schema) : (new schema).Quiet := ⟨rfl, rfl⟩

section Quiet
variable {s : Store}

theorem Quiet.locked (hs : s.Quiet) : s.locked = false := by simp [Store.locked, hs.writer]

theorem Quiet.tables? (hs : s.Quiet) (h : Nat) : s.tables? h = none := by
  simp [Store.tables?, hs.working]

theorem Quiet.isOpen (hs : s.Quiet) (h : Nat) : s.isOpen h = false := by
  simp [Store.isOpen, hs.tables?]

theorem Quiet.seed (hs : s.Quiet) (now : Nat) (table : String) (rows : List Row) :
    (s.seed now table rows).2.Quiet := ⟨hs.working, hs.writer⟩

/-- What a quiet store becomes when a transaction begins. -/
def entered (s : Store) : Store :=
  { s with working := [(s.issued, s.committed)], writer := some s.issued, issued := s.issued + 1 }

theorem Quiet.begin? (hs : s.Quiet) : s.begin? = some (s.issued, s.entered) := by
  simp [Store.begin?, hs.locked, entered, hs.working]

theorem entered_held (s : Store) : s.entered.Held s.issued s.committed :=
  ⟨rfl, rfl, Nat.lt_succ_self _⟩

end Quiet

section Held
variable {s : Store} {h : Nat} {W : Tables}

theorem Held.locked (hs : s.Held h W) : s.locked = true := by simp [Store.locked, hs.writer]

theorem Held.begin? (hs : s.Held h W) : s.begin? = none := by simp [Store.begin?, hs.locked]

theorem Held.tables? (hs : s.Held h W) (g : Nat) :
    s.tables? g = if g = h then some W else none := by
  unfold Store.tables?
  rw [hs.working]
  by_cases hg : g = h
  · simp [hg]
  · have hb : (g == h) = false := beq_false_of_ne hg
    simp [List.lookup_cons, hb, hg]

theorem Held.isOpen_iff (hs : s.Held h W) (g : Nat) : s.isOpen g = true ↔ g = h := by
  unfold isOpen
  rw [hs.tables?]
  by_cases hg : g = h <;> simp [hg]

theorem Held.setTables (hs : s.Held h W) (W' : Tables) : (s.setTables h W').Held h W' :=
  ⟨by simp [Store.setTables, hs.working], hs.writer, hs.issued⟩

/-- What a store becomes when a transaction commits its tables. -/
def concluded (s : Store) (h : Nat) (W : Tables) : Store := { s.release h with committed := W }

theorem Held.release (hs : s.Held h W) : (s.release h).Quiet :=
  ⟨by simp [Store.release, hs.working], by simp [Store.release, hs.writer]⟩

theorem Held.concluded (hs : s.Held h W) (W' : Tables) : (s.concluded h W').Quiet :=
  ⟨hs.release.working, hs.release.writer⟩

/-- Settling a handle that is not open changes nothing. -/
theorem Held.release_of_ne (hs : s.Held h W) {g : Nat} (hg : g ≠ h) : s.release g = s := by
  unfold Store.release
  rw [hs.working, hs.writer]
  have hn : some h ≠ some g := fun e => hg (Option.some.inj e).symm
  simp only [ne_eq, hg.symm, not_false_eq_true, decide_true, List.filter_cons_of_pos,
    List.filter_nil, if_neg hn]
  rw [← hs.working, ← hs.writer]

end Held

theorem Quiet.release {s : Store} (hs : s.Quiet) (g : Nat) : s.release g = s := by
  unfold Store.release
  rw [hs.working, hs.writer]
  simp only [List.filter_nil, reduceCtorEq, ↓reduceIte]
  rw [← hs.working, ← hs.writer]

section Settled
variable {s : Store} {h : Nat}

theorem run_of_closed (hc : s.tables? h = none) (q : Query) : s.run h q = .error .settled := by
  simp [run, hc]

theorem mutate_of_closed (hc : s.tables? h = none) (now : Nat) (table : String) (a : Action)
    (row : Row) : s.mutate now h table a row = (.error .settled, s) := by
  simp [mutate, hc]

theorem commit_of_closed (hc : s.tables? h = none) : s.commit h = (.error .settled, s) := by
  simp [commit, hc]

theorem rollback_of_closed (hc : s.tables? h = none) : s.rollback h = (.error .settled, s) := by
  simp [rollback, hc]

/-- A steady store ignores that a settled handle is dropped. -/
theorem Steady.drop_of_closed (hs : s.Steady) (hc : s.tables? h = none) : s.drop h = s := by
  rcases hs with hq | ⟨g, W, hg⟩
  · exact hq.release h
  · apply hg.release_of_ne
    intro e
    rw [hg.tables?, if_pos e] at hc
    exact absurd hc (by simp)

end Settled

section Open
variable {s : Store} {h : Nat} {W : Tables}

theorem Held.run (hs : s.Held h W) (q : Query) : s.run h q = s.schema.execute W q := by
  simp [Store.run, hs.tables?]

/-- A write inside the open transaction: it changes the working tables, or fails. -/
theorem Held.mutate (hs : s.Held h W) (now : Nat) (table : String) (a : Action) (row : Row) :
    s.mutate now h table a row = match s.schema.write now W table a row with
      | .ok W' => (.ok (), s.setTables h W')
      | .error e => (.error e, s) := by
  have hw : s.tables? h = some W := by simp [hs.tables?]
  cases hr : s.schema.write now W table a row with
  | ok W' => simp [Store.mutate, hw, hr]
  | error e => simp [Store.mutate, hw, hr]

theorem Held.commit (hs : s.Held h W) : s.commit h = (.ok (), s.concluded h W) := by
  simp [Store.commit, hs.tables?, Store.concluded]

theorem Held.rollback (hs : s.Held h W) : s.rollback h = (.ok (), s.release h) := by
  simp [Store.rollback, hs.tables?]

end Open

theorem Held.unique {s : Store} {g h : Nat} {V W : Tables} (hg : s.Held g V) (hh : s.Held h W) :
    g = h ∧ V = W := by
  have he := hg.working.symm.trans hh.working
  simpa using he

theorem Quiet.not_held {s : Store} (hq : s.Quiet) {h : Nat} {W : Tables} : ¬ s.Held h W :=
  fun hh => by simpa [hq.writer] using hh.writer

@[simp] theorem entered_schema (s : Store) : s.entered.schema = s.schema := rfl

@[simp] theorem entered_committed (s : Store) : s.entered.committed = s.committed := rfl

@[simp] theorem entered_issued (s : Store) : s.entered.issued = s.issued + 1 := rfl

@[simp] theorem setTables_schema (s : Store) (h : Nat) (W : Tables) :
    (s.setTables h W).schema = s.schema := rfl

@[simp] theorem setTables_committed (s : Store) (h : Nat) (W : Tables) :
    (s.setTables h W).committed = s.committed := rfl

@[simp] theorem setTables_issued (s : Store) (h : Nat) (W : Tables) :
    (s.setTables h W).issued = s.issued := rfl

@[simp] theorem concluded_schema (s : Store) (h : Nat) (W : Tables) :
    (s.concluded h W).schema = s.schema := rfl

@[simp] theorem concluded_committed (s : Store) (h : Nat) (W : Tables) :
    (s.concluded h W).committed = W := rfl

@[simp] theorem concluded_issued (s : Store) (h : Nat) (W : Tables) :
    (s.concluded h W).issued = s.issued := rfl

@[simp] theorem release_schema (s : Store) (h : Nat) : (s.release h).schema = s.schema := rfl

@[simp] theorem release_committed (s : Store) (h : Nat) :
    (s.release h).committed = s.committed := rfl

@[simp] theorem release_issued (s : Store) (h : Nat) : (s.release h).issued = s.issued := rfl

end RowGuard.Store
