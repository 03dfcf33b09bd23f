import RowGuard.Proofs.Store.History

/-! # Transactions are serializable and isolated

Calls of any number of transactions may come in any order, late calls on settled handles included.
The main statement says what every such run has in common.  It rests on the agreement of the store
with its history, which each call keeps.
-/
namespace RowGuard.Store

/-- Every call on the handle fails as settled and leaves the store as it is. -/
structure Refuses (s : Store) (h : Nat) : Prop where
  run : ∀ q, s.run h q = .error .settled
  mutate : ∀ now table action row, s.mutate now h table action row = (.error .settled, s)
  commit : s.commit h = (.error .settled, s)
  rollback : s.rollback h = (.error .settled, s)
  drop : s.drop h = s

/-- What calls on a store come to, whatever their order. -/
structure Serializable (s : Store) (ops : List Op) : Prop where
  /-- At most one handle is open. -/
  one_open : ∀ g h, (s.after ops).isOpen g = true → (s.after ops).isOpen h = true → g = h
  /-- The lock is held exactly while a handle is open. -/
  locked_iff : (s.after ops).locked = true ↔ ∃ h, (s.after ops).isOpen h = true
  /-- Another transaction has to wait exactly while a handle is open. -/
  begin_blocks_iff : (s.after ops).begin? = none ↔ ∃ h, (s.after ops).isOpen h = true
  /-- The committed tables are the first ones with the transactions replayed in the order of their
  commits. -/
  serial : serial s.schema (s.history ops) s.committed = .ok (s.after ops).committed
  /-- No transaction is committed twice. -/
  commits_once : (commits (s.history ops)).Nodup
  /-- A transaction that was rolled back or dropped is not among those replayed. -/
  discarded : ∀ h, .discarded h ∈ s.history ops → h ∉ commits (s.history ops)
  /-- An open transaction sees the committed tables at its begin with its own writes. -/
  reads_inside : ∀ h, (s.after ops).isOpen h = true → ∃ pre post W,
    ops = pre ++ .begin :: post ∧ (s.after pre).begin? = some (h, (s.after pre).entered) ∧
    s.schema.replay (s.after pre).committed (writesOf h (s.history ops)) = .ok W ∧
    ∀ q, (s.after ops).run h q = s.schema.execute W q
  /-- Outside transactions only the replayed tables are seen. -/
  reads_outside : ∀ T, Store.serial s.schema (s.history ops) s.committed = .ok T →
    (∀ q, (s.after ops).execute q = s.schema.execute T q) ∧
    (∀ table, (s.after ops).rows table = s.schema.listing T table) ∧
    ∀ (site : Site) d q, site.databases[d]? = some (.direct (s.after ops)) →
      site.snapshot d q = some (s.schema.execute T q)
  /-- A handle that is not open refuses every call. -/
  settled : ∀ h, (s.after ops).isOpen h = false → (s.after ops).Refuses h

theorem perform_began {s : Store} {op : Op} {h : Nat} (he : (s.perform op).1 = [.began h]) :
    op = .begin := by
  cases op with
  | begin => rfl
  | mutate g w => simp only [perform] at he; split at he <;> simp at he
  | commit g => simp only [perform] at he; split at he <;> simp at he
  | rollback g => simp only [perform] at he; split at he <;> simp at he
  | drop g => simp only [perform] at he; split at he <;> simp at he
  | _ => simp [perform] at he

/-- A handle that a call opens was given out by it. -/
theorem opened_by_begin {s : Store} (hs : s.Steady) {op : Op}
    (ho : op.seeds = true → s.locked = false) {h : Nat} (hn : s.isOpen h = false)
    (hopen : (s.perform op).2.isOpen h = true) : op = .begin ∧ s.Quiet ∧ s.issued = h := by
  have hc := perform_change hs ho
  generalize he : (s.perform op).1 = es at hc
  generalize (s.perform op).2 = s' at hc hopen
  cases hc with
  | nothing => simp [hn] at hopen
  | seed hq => simp [(hq.seed ..).isOpen] at hopen
  | begin hq => exact ⟨perform_began he, hq, ((s.entered_held.isOpen_iff h).1 hopen).symm⟩
  | write hh =>
    have hg := ((hh.setTables _).isOpen_iff h).1 hopen
    simp [(hh.isOpen_iff h).2 hg] at hn
  | commit hh => simp [(hh.concluded _).isOpen] at hopen
  | discard hh => simp [hh.release.isOpen] at hopen

/-- Every open transaction began at some point of the run, when no other one was open. -/
theorem begin_of_open {s : Store} (hs : s.Steady) {ops : List Op} (ho : s.Orderly ops) {h : Nat}
    (hn : s.isOpen h = false) (hopen : (s.after ops).isOpen h = true) :
    ∃ pre post, ops = pre ++ .begin :: post ∧ (s.after pre).Quiet ∧ (s.after pre).issued = h := by
  induction ops generalizing s with
  | nil => simp [after, hn] at hopen
  | cons op ops ih =>
    by_cases hm : (s.perform op).2.isOpen h = true
    · obtain ⟨rfl, hq, hi⟩ := opened_by_begin hs ho.1 hn hm
      exact ⟨[], ops, rfl, hq, hi⟩
    · have hs' := (perform_change hs ho.1).steady hs
      obtain ⟨pre, post, rfl, hq, hi⟩ := ih hs' ho.2 (by simpa using hm) hopen
      exact ⟨op :: pre, post, rfl, hq, hi⟩

theorem Steady.held_of_isOpen {s : Store} (hs : s.Steady) {h : Nat} (ho : s.isOpen h = true) :
    ∃ W, s.Held h W := by
  rcases hs.closed_or_held h with hc | hh
  · simp [isOpen, hc] at ho
  · exact hh

theorem Steady.one_open {s : Store} (hs : s.Steady) {g h : Nat} (hg : s.isOpen g = true)
    (hh : s.isOpen h = true) : g = h := by
  obtain ⟨V, hV⟩ := hs.held_of_isOpen hg
  obtain ⟨W, hW⟩ := hs.held_of_isOpen hh
  exact (hV.unique hW).1

theorem Steady.locked_iff {s : Store} (hs : s.Steady) :
    s.locked = true ↔ ∃ h, s.isOpen h = true := by
  rcases hs with hq | ⟨h, W, hh⟩
  · simp [hq.locked, hq.isOpen]
  · exact iff_of_true hh.locked ⟨h, (hh.isOpen_iff h).2 rfl⟩

theorem Steady.begin?_eq_none_iff {s : Store} (hs : s.Steady) :
    s.begin? = none ↔ s.locked = true := by
  rcases hs with hq | ⟨h, W, hh⟩
  · simp [hq.begin?, hq.locked]
  · simp [hh.begin?, hh.locked]

theorem Steady.refuses {s : Store} (hs : s.Steady) {h : Nat} (hn : s.isOpen h = false) :
    s.Refuses h := by
  have hc : s.tables? h = none := by simpa [isOpen] using hn
  exact ⟨run_of_closed hc, mutate_of_closed hc, commit_of_closed hc, rollback_of_closed hc,
    hs.drop_of_closed hc⟩

/-- The tables that an open transaction reads. -/
theorem reads_of_open {s : Store} (hs : s.Quiet) {ops : List Op} (ho : s.Orderly ops) {h : Nat}
    (hopen : (s.after ops).isOpen h = true) : ∃ pre post W,
      ops = pre ++ .begin :: post ∧ (s.after pre).begin? = some (h, (s.after pre).entered) ∧
      s.schema.replay (s.after pre).committed (writesOf h (s.history ops)) = .ok W ∧
      ∀ q, (s.after ops).run h q = s.schema.execute W q := by
  have hl := (Ledger.start hs).run ho
  rw [List.nil_append] at hl
  obtain ⟨W, hW⟩ := hl.steady.held_of_isOpen hopen
  have hsch := s.after_schema ops
  obtain ⟨pre, post, rfl, hq, rfl⟩ := begin_of_open (.inl hs) ho (hs.isOpen h) hopen
  refine ⟨pre, post, W, rfl, hq.begin?, ?_, fun q => by rw [hW.run, hsch]⟩
  -- the lock keeps the committed tables of the begin in place until now
  have hpost : (s.after pre).entered.Orderly post := by
    have := (orderly_append.1 ho).2.2
    simpa [perform, hq.begin?] using this
  have hafter : s.after (pre ++ .begin :: post) = (s.after pre).entered.after post := by
    simp [after_append, after, perform, hq.begin?]
  have hcom := (committed_after (.inr ⟨_, _, entered_held _⟩) hpost (Nat.lt_succ_self _)
    (hafter ▸ hopen)).2
  have hr := hl.working _ W hW
  rwa [hsch, hafter, hcom] at hr

/-- Transactions are serializable and isolated, in whatever order calls reach the store. -/
theorem transactions_serializable {s : Store} (hs : s.Quiet) {ops : List Op} (ho : s.Orderly ops) :
    s.Serializable ops := by
  have hl := (Ledger.start hs).run ho
  have hsch := s.after_schema ops
  rw [List.nil_append] at hl
  have hserial : serial s.schema (s.history ops) s.committed = .ok (s.after ops).committed := by
    rw [← hsch]
    exact hl.serial
  exact {
    one_open := fun _ _ => hl.steady.one_open
    locked_iff := hl.steady.locked_iff
    begin_blocks_iff := hl.steady.begin?_eq_none_iff.trans hl.steady.locked_iff
    serial := hserial
    commits_once := hl.once
    discarded := fun h hd hm => hl.apart h hd (mem_commits.1 hm)
    reads_inside := fun _ => reads_of_open hs ho
    reads_outside := by
      intro T hT
      obtain rfl : (s.after ops).committed = T := Except.ok.inj (hserial.symm.trans hT)
      refine ⟨fun q => by rw [execute, hsch], fun t => by rw [rows, hsch], fun site d q hd => ?_⟩
      simp [Site.snapshot, hd, Database.direct, execute, hsch]
    settled := fun _ => hl.steady.refuses }

/-! A run in which a transaction has to wait, one is rolled back, and settled handles are used. -/
namespace LateCalls

def notes : Schema := Schema.empty.addTable ⟨"note", [⟨"id", .string, false, none⟩], ["id"]⟩

def note (id : String) : Row := .ofList [("id", .str id)]

def ops : List Op := [.seed 1 "note" [note "a"], .begin, .mutate 0 ⟨2, "note", .insert, note "b"⟩,
  .begin, .commit 0, .mutate 0 ⟨3, "note", .insert, note "c"⟩, .begin,
  .mutate 1 ⟨4, "note", .delete, note "a"⟩, .rollback 1, .commit 1, .rows "note"]

end LateCalls

open LateCalls in
theorem transactions_serializable_of_late_calls : (new notes).Quiet ∧ (new notes).Orderly ops ∧
    (((new notes).after ops).committed.rows "note").map (fun r => (r.value "id").toString?) =
      [some "a", some "b"] ∧
    (new notes).Serializable ops := by
  have ho : (new notes).Orderly ops := by
    refine ⟨fun _ => rfl, ?_⟩
    simp [Orderly, Op.seeds]
  exact ⟨quiet_new notes, ho, by decide +kernel, transactions_serializable (quiet_new notes) ho⟩

end RowGuard.Store
