import RowGuard.Proofs.Store.Transactions
import RowGuard.Schedule.Site

/-! # Histories of a store

Any number of transactions call a store in any order.  The history of such a run keeps what the
calls have changed: rows seeded, transactions begun, rows written, transactions committed or
discarded.  The main statement reads the tables off the history: the committed tables are the first
ones with the writes of the committed transactions applied one transaction after another.
-/
namespace RowGuard

/-- A write to a row, with the time that it sees. -/
structure Write where
  now : Nat
  table : String
  action : Action
  row : Row

/-- Apply writes one after another; each of them has to succeed. -/
def Schema.replay (schema : Schema) (ts : Tables) (ws : List Write) : Outcome Tables :=
  ws.foldlM (fun ts w => schema.write w.now ts w.table w.action w.row) ts

theorem Schema.replay_append (schema : Schema) (ts : Tables) (ws vs : List Write) :
    schema.replay ts (ws ++ vs) = (schema.replay ts ws).bind fun ts => schema.replay ts vs := by
  simp only [Schema.replay, List.foldlM_append]
  rfl

theorem Schema.replay_one (schema : Schema) (ts : Tables) (w : Write) :
    schema.replay ts [w] = schema.write w.now ts w.table w.action w.row := by
  simp [Schema.replay]

namespace Store

/-- A call on a store.  A call on a transaction names its handle. -/
inductive Op where
  | seed (now : Nat) (table : String) (rows : List Row)
  | begin
  | run (h : Nat) (q : Query)
  | mutate (h : Nat) (w : Write)
  | commit (h : Nat)
  | rollback (h : Nat)
  | drop (h : Nat)
  | execute (q : Query)
  | rows (table : String)

/-- Whether the call inserts rows outside transactions. -/
def Op.seeds : Op → Bool
  | seed .. => true
  | _ => false

/-- What a call has changed. -/
inductive Event where
  | seeded (now : Nat) (table : String) (rows : List Row)
  | began (h : Nat)
  | wrote (h : Nat) (w : Write)
  | committed (h : Nat)
  /-- Rolled back, or dropped while open. -/
  | discarded (h : Nat)

/-- The handle of an event, if it belongs to a transaction. -/
def Event.handle? : Event → Option Nat
  | seeded .. => none
  | began h | wrote h _ | committed h | discarded h => some h

/-- Make a call: the events, and the store afterwards. -/
def perform (s : Store) : Op → List Event × Store
  | .seed now table rows => ([.seeded now table rows], (s.seed now table rows).2)
  | .begin =>
    match s.begin? with
    | some (h, s') => ([.began h], s')
    | none => ([], s)
  | .mutate h w =>
    match s.mutate w.now h w.table w.action w.row with
    | (.ok _, s') => ([.wrote h w], s')
    | (.error _, s') => ([], s')
  | .commit h =>
    match s.commit h with
    | (.ok _, s') => ([.committed h], s')
    | (.error _, s') => ([], s')
  | .rollback h =>
    match s.rollback h with
    | (.ok _, s') => ([.discarded h], s')
    | (.error _, s') => ([], s')
  | .drop h => (if s.isOpen h then [.discarded h] else [], s.drop h)
  | .run .. | .execute .. | .rows .. => ([], s)

/-- The store after calls. -/
def after (s : Store) : List Op → Store
  | [] => s
  | op :: ops => (s.perform op).2.after ops

/-- The history of calls. -/
def history (s : Store) : List Op → List Event
  | [] => []
  | op :: ops => (s.perform op).1 ++ (s.perform op).2.history ops

/-- No rows are seeded while a transaction is open. -/
def Orderly (s : Store) : List Op → Prop
  | [] => True
  | op :: ops => (op.seeds = true → s.locked = false) ∧ (s.perform op).2.Orderly ops

/-- The writes of a transaction, in order. -/
def writesOf (h : Nat) (hist : List Event) : List Write :=
  hist.filterMap fun
    | .wrote g w => if g = h then some w else none
    | _ => none

/-- The committed transactions, in the order of their commits. -/
def commits (hist : List Event) : List Nat :=
  hist.filterMap fun
    | .committed h => some h
    | _ => none

/-- What an event of a history adds to the committed tables: a commit adds all writes of its
transaction. -/
def publish (schema : Schema) (hist : List Event) (ts : Tables) : Event → Outcome Tables
  | .committed h => schema.replay ts (writesOf h hist)
  | .seeded now table rows => .ok (schema.seed now table ts rows).1
  | _ => .ok ts

/-- The tables after the seeds and the committed transactions of a history, one after another. -/
def serial (schema : Schema) (hist : List Event) (ts : Tables) : Outcome Tables :=
  hist.foldlM (publish schema hist) ts

theorem after_append (s : Store) (xs ys : List Op) : s.after (xs ++ ys) = (s.after xs).after ys := by
  induction xs generalizing s with
  | nil => rfl
  | cons x xs ih => exact ih _

theorem history_append (s : Store) (xs ys : List Op) :
    s.history (xs ++ ys) = s.history xs ++ (s.after xs).history ys := by
  induction xs generalizing s with
  | nil => rfl
  | cons x xs ih => simp [history, after, ih]

theorem perform_schema (s : Store) (op : Op) : (s.perform op).2.schema = s.schema := by
  cases op with
  | begin =>
    cases hb : s.begin? with
    | none => simp [perform, hb]
    | some r =>
      obtain ⟨-, rfl⟩ : s.locked = false ∧ _ = r := by simpa [Store.begin?] using hb
      simp [perform, hb]
  | mutate h w =>
    cases ht : s.tables? h with
    | none => simp [perform, mutate, ht]
    | some W => cases hw : s.schema.write w.now W w.table w.action w.row <;>
        simp [perform, mutate, ht, hw]
  | commit h => cases ht : s.tables? h <;> simp [perform, commit, ht]
  | rollback h => cases ht : s.tables? h <;> simp [perform, rollback, ht]
  | _ => rfl

theorem after_schema (s : Store) (ops : List Op) : (s.after ops).schema = s.schema := by
  induction ops generalizing s with
  | nil => rfl
  | cons op ops ih => exact (ih _).trans (perform_schema s op)

theorem orderly_append {s : Store} {xs ys : List Op} :
    s.Orderly (xs ++ ys) ↔ s.Orderly xs ∧ (s.after xs).Orderly ys := by
  induction xs generalizing s with
  | nil => simp [Orderly, after]
  | cons x xs ih => simp [Orderly, after, ih, and_assoc]

@[simp] theorem writesOf_append (h : Nat) (xs ys : List Event) :
    writesOf h (xs ++ ys) = writesOf h xs ++ writesOf h ys := by
  simp [writesOf, List.filterMap_append]

theorem writesOf_eq_nil {h : Nat} {hist : List Event} (hn : ∀ e ∈ hist, e.handle? ≠ some h) :
    writesOf h hist = [] := by
  refine List.filterMap_eq_nil_iff.2 fun e he => ?_
  have hne := hn e he
  cases e <;> simp_all [Event.handle?]

@[simp] theorem commits_append (xs ys : List Event) :
    commits (xs ++ ys) = commits xs ++ commits ys := by
  simp [commits, List.filterMap_append]

theorem mem_commits {h : Nat} {hist : List Event} : h ∈ commits hist ↔ .committed h ∈ hist := by
  simp only [commits, List.mem_filterMap]
  constructor
  · rintro ⟨e, he, hs⟩
    cases e <;> simp_all
  · exact fun he => ⟨_, he, rfl⟩

/-- Later events leave what was published alone, as long as no committed transaction writes. -/
theorem serial_append (schema : Schema) (ts : Tables) {hist es : List Event}
    (hw : ∀ h ∈ commits hist, writesOf h es = []) :
    serial schema (hist ++ es) ts =
      (serial schema hist ts).bind fun ts => es.foldlM (publish schema (hist ++ es)) ts := by
  have hc : ∀ (xs : List Event) (ts : Tables), (∀ e ∈ xs, e ∈ hist) →
      xs.foldlM (publish schema (hist ++ es)) ts = xs.foldlM (publish schema hist) ts := by
    intro xs
    induction xs with
    | nil => exact fun _ _ => rfl
    | cons e xs ih =>
      intro ts hx
      have he : publish schema (hist ++ es) ts e = publish schema hist ts e := by
        cases e with
        | committed h =>
          have hm : h ∈ commits hist := mem_commits.2 (hx _ List.mem_cons_self)
          simp [publish, hw h hm]
        | _ => rfl
      rw [List.foldlM_cons, List.foldlM_cons, he]
      congr 1
      funext ts
      exact ih ts fun e he => hx e (List.mem_cons_of_mem _ he)
  rw [serial, List.foldlM_append, hc hist ts fun _ he => he]
  rfl

/-- What a call can do to a steady store. -/
inductive Change (s : Store) : List Event → Store → Prop where
  | nothing : Change s [] s
  | seed (hq : s.Quiet) (now : Nat) (table : String) (rows : List Row) :
      Change s [.seeded now table rows] (s.seed now table rows).2
  | begin (hq : s.Quiet) : Change s [.began s.issued] s.entered
  | write {h : Nat} {W W' : Tables} {w : Write} (hh : s.Held h W)
      (hw : s.schema.write w.now W w.table w.action w.row = .ok W') :
      Change s [.wrote h w] (s.setTables h W')
  | commit {h : Nat} {W : Tables} (hh : s.Held h W) :
      Change s [.committed h] (s.concluded h W)
  | discard {h : Nat} {W : Tables} (hh : s.Held h W) : Change s [.discarded h] (s.release h)

theorem Steady.closed_or_held {s : Store} (hs : s.Steady) (h : Nat) :
    s.tables? h = none ∨ ∃ W, s.Held h W := by
  rcases hs with hq | ⟨g, W, hg⟩
  · exact .inl (hq.tables? h)
  · by_cases e : h = g
    · exact .inr ⟨W, e ▸ hg⟩
    · exact .inl (by rw [hg.tables?, if_neg e])

theorem perform_change {s : Store} (hs : s.Steady) {op : Op}
    (ho : op.seeds = true → s.locked = false) : s.Change (s.perform op).1 (s.perform op).2 := by
  cases op with
  | seed now table rows =>
    rcases hs with hq | ⟨h, W, hh⟩
    · exact .seed hq now table rows
    · exact absurd (hh.locked.symm.trans (ho rfl)) (by simp)
  | begin =>
    rcases hs with hq | ⟨h, W, hh⟩
    · simpa only [perform, hq.begin?] using .begin hq
    · simpa only [perform, hh.begin?] using .nothing
  | mutate h w =>
    rcases hs.closed_or_held h with hc | ⟨W, hh⟩
    · simpa only [perform, mutate_of_closed hc] using .nothing
    · simp only [perform, hh.mutate]
      cases hw : s.schema.write w.now W w.table w.action w.row with
      | ok W' => exact .write hh hw
      | error e => exact .nothing
  | commit h =>
    rcases hs.closed_or_held h with hc | ⟨W, hh⟩
    · simpa only [perform, commit_of_closed hc] using .nothing
    · simpa only [perform, hh.commit] using .commit hh
  | rollback h =>
    rcases hs.closed_or_held h with hc | ⟨W, hh⟩
    · simpa only [perform, rollback_of_closed hc] using .nothing
    · simpa only [perform, hh.rollback] using .discard hh
  | drop h =>
    rcases hs.closed_or_held h with hc | ⟨W, hh⟩
    · have he : s.isOpen h = false := by simp [isOpen, hc]
      simpa [perform, he, hs.drop_of_closed hc] using Change.nothing
    · have he : s.isOpen h = true := (hh.isOpen_iff h).2 rfl
      simpa [perform, he, drop] using Change.discard hh
  | run | execute | rows => exact .nothing

section Change
variable {s s' : Store} {es : List Event}

theorem Change.steady (hc : s.Change es s') (hs : s.Steady) : s'.Steady := by
  cases hc with
  | nothing => exact hs
  | seed hq => exact .inl (hq.seed ..)
  | begin hq => exact .inr ⟨_, _, s.entered_held⟩
  | write hh => exact .inr ⟨_, _, hh.setTables _⟩
  | commit hh => exact .inl (hh.concluded _)
  | discard hh => exact .inl hh.release

theorem Change.schema (hc : s.Change es s') : s'.schema = s.schema := by
  cases hc <;> rfl

theorem Change.issued_le (hc : s.Change es s') : s.issued ≤ s'.issued := by
  cases hc with
  | begin hq => exact Nat.le_succ _
  | _ => exact Nat.le_refl _

theorem Change.handle_lt (hc : s.Change es s') {e : Event} (he : e ∈ es) {h : Nat}
    (hn : e.handle? = some h) : h < s'.issued := by
  cases hc with
  | nothing => simp at he
  | seed hq => simp_all [Event.handle?]
  | begin hq =>
    obtain rfl := List.mem_singleton.1 he
    obtain rfl := Option.some.inj hn
    exact Nat.lt_succ_self _
  | write hh | commit hh | discard hh =>
    obtain rfl := List.mem_singleton.1 he
    obtain rfl := Option.some.inj hn
    exact hh.issued

/-- While a transaction stays open, the committed tables stay the same. -/
theorem Change.committed_eq (hc : s.Change es s') {h : Nat} (hlt : h < s.issued)
    (ho : s'.isOpen h = true) : s.isOpen h = true ∧ s'.committed = s.committed := by
  cases hc with
  | nothing => exact ⟨ho, rfl⟩
  | seed hq => simp [(hq.seed ..).isOpen] at ho
  | begin hq =>
    have he := (s.entered_held.isOpen_iff h).1 ho
    omega
  | write hh => exact ⟨(hh.isOpen_iff h).2 (((hh.setTables _).isOpen_iff h).1 ho), rfl⟩
  | commit hh => simp [(hh.concluded _).isOpen] at ho
  | discard hh => simp [hh.release.isOpen] at ho

end Change

/-- A history mentions only handles that were given out, and the open one is not settled in it. -/
structure Record (hist : List Event) (s : Store) : Prop where
  steady : s.Steady
  known : ∀ e ∈ hist, ∀ h, e.handle? = some h → h < s.issued
  unsettled : ∀ h W, s.Held h W → .committed h ∉ hist ∧ .discarded h ∉ hist

section Record
variable {hist es : List Event} {s s' : Store}

theorem Record.start (hs : s.Quiet) : Record [] s :=
  ⟨.inl hs, by simp, fun _ _ hh => absurd hh hs.not_held⟩

/-- No settled transaction takes part in a change. -/
theorem Record.fresh (hr : Record hist s) (hc : s.Change es s') {h : Nat}
    (hm : .committed h ∈ hist ∨ .discarded h ∈ hist) : ∀ e ∈ es, e.handle? ≠ some h := by
  intro e he hn
  have hlt : h < s.issued := by
    rcases hm with hm | hm
    · exact hr.known _ hm h rfl
    · exact hr.known _ hm h rfl
  have hopen : ∀ g W, s.Held g W → g ≠ h := by
    rintro g W hg rfl
    have hu := hr.unsettled g W hg
    rcases hm with hm | hm
    · exact hu.1 hm
    · exact hu.2 hm
  cases hc with
  | nothing => simp at he
  | seed hq => simp_all [Event.handle?]
  | begin hq =>
    obtain rfl := List.mem_singleton.1 he
    have hi : s.issued = h := Option.some.inj hn
    omega
  | write hh | commit hh | discard hh =>
    obtain rfl := List.mem_singleton.1 he
    exact hopen _ _ hh (Option.some.inj hn)

/-- The handle that is given out next is in no event. -/
theorem Record.not_mentioned (hr : Record hist s) : ∀ e ∈ hist, e.handle? ≠ some s.issued :=
  fun e he hn => absurd (hr.known e he _ hn) (Nat.lt_irrefl _)

theorem Record.unsettled_step (hr : Record hist s) (hc : s.Change es s') {h : Nat} {W : Tables}
    (hh : s'.Held h W) : .committed h ∉ hist ++ es ∧ .discarded h ∉ hist ++ es := by
  cases hc with
  | nothing => simpa using hr.unsettled h W hh
  | seed hq => exact absurd hh (hq.seed ..).not_held
  | begin hq =>
    obtain ⟨rfl, rfl⟩ := hh.unique s.entered_held
    constructor
    · simpa using fun hm => hr.not_mentioned _ hm rfl
    · simpa using fun hm => hr.not_mentioned _ hm rfl
  | write hg =>
    obtain ⟨rfl, rfl⟩ := hh.unique (hg.setTables _)
    simpa using hr.unsettled _ _ hg
  | commit hg => exact absurd hh (hg.concluded _).not_held
  | discard hg => exact absurd hh hg.release.not_held

theorem Record.step (hr : Record hist s) (hc : s.Change es s') : Record (hist ++ es) s' where
  steady := hc.steady hr.steady
  known e he h hn := by
    rcases List.mem_append.1 he with he | he
    · exact Nat.lt_of_lt_of_le (hr.known e he h hn) hc.issued_le
    · exact hc.handle_lt he hn
  unsettled _ _ hh := hr.unsettled_step hc hh

end Record

/-- How a store and its history agree, if the committed tables were `T` at first. -/
structure Ledger (T : Tables) (hist : List Event) (s : Store) : Prop where
  steady : s.Steady
  serial : serial s.schema hist T = .ok s.committed
  known : ∀ e ∈ hist, ∀ h, e.handle? = some h → h < s.issued
  working : ∀ h W, s.Held h W → s.schema.replay s.committed (writesOf h hist) = .ok W
  unsettled : ∀ h W, s.Held h W → .committed h ∉ hist ∧ .discarded h ∉ hist
  once : (commits hist).Nodup
  apart : ∀ h, .discarded h ∈ hist → .committed h ∉ hist

section Ledger
variable {T : Tables} {hist es : List Event} {s s' : Store}

theorem Ledger.start (hq : s.Quiet) : Ledger s.committed [] s where
  steady := .inl hq
  serial := rfl
  known := by simp
  working _ _ hh := absurd hh hq.not_held
  unsettled _ _ hh := absurd hh hq.not_held
  once := .nil
  apart := by simp

theorem Ledger.record (hl : Ledger T hist s) : Record hist s :=
  ⟨hl.steady, hl.known, hl.unsettled⟩

theorem Ledger.serial_step (hl : Ledger T hist s) (hc : s.Change es s') :
    Store.serial s'.schema (hist ++ es) T = .ok s'.committed := by
  have hw : ∀ h ∈ commits hist, writesOf h es = [] := fun h hm =>
    writesOf_eq_nil (hl.record.fresh hc (.inl (mem_commits.1 hm)))
  rw [hc.schema, serial_append _ _ hw, hl.serial]
  cases hc with
  | commit hh =>
    have hr := hl.working _ _ hh
    simp only [Except.bind, List.foldlM_cons, List.foldlM_nil, bind_pure, publish, writesOf_append]
    simpa [writesOf] using hr
  | _ => rfl

theorem Ledger.working_step (hl : Ledger T hist s) (hc : s.Change es s') {h : Nat} {W : Tables}
    (hh : s'.Held h W) : s'.schema.replay s'.committed (writesOf h (hist ++ es)) = .ok W := by
  rw [writesOf_append, hc.schema]
  cases hc with
  | nothing => simpa [writesOf] using hl.working h W hh
  | seed hq => exact absurd hh (hq.seed ..).not_held
  | begin hq =>
    obtain ⟨rfl, rfl⟩ := hh.unique s.entered_held
    have hn : writesOf s.issued hist = [] := writesOf_eq_nil hl.record.not_mentioned
    rw [hn]
    rfl
  | @write g V W' w hg hw =>
    obtain ⟨rfl, rfl⟩ := hh.unique (hg.setTables W')
    have hr := hl.working _ _ hg
    have hone : writesOf h [.wrote h w] = [w] := by simp [writesOf]
    rw [hone, Schema.replay_append, setTables_committed, hr]
    exact (s.schema.replay_one _ _).trans hw
  | commit hg => exact absurd hh (hg.concluded _).not_held
  | discard hg => exact absurd hh hg.release.not_held

theorem Ledger.once_step (hl : Ledger T hist s) (hc : s.Change es s') :
    (commits (hist ++ es)).Nodup ∧
      ∀ h, .discarded h ∈ hist ++ es → .committed h ∉ hist ++ es := by
  cases hc with
  | commit hg =>
    have hu := hl.unsettled _ _ hg
    constructor
    · rw [commits_append]
      refine List.nodup_append.2 ⟨hl.once, by simp [commits], ?_⟩
      rintro a ha b hb rfl
      obtain rfl := List.mem_singleton.1 hb
      exact hu.1 (mem_commits.1 ha)
    · intro h hd hm
      simp only [List.mem_append, List.mem_singleton, reduceCtorEq, or_false,
        Event.committed.injEq] at hd hm
      rcases hm with hm | rfl
      · exact hl.apart h hd hm
      · exact hu.2 hd
  | discard hg =>
    have hu := hl.unsettled _ _ hg
    refine ⟨by simpa [commits] using hl.once, fun h hd hm => ?_⟩
    simp only [List.mem_append, List.mem_singleton, reduceCtorEq, or_false,
      Event.discarded.injEq] at hd hm
    rcases hd with hd | rfl
    · exact hl.apart h hd hm
    · exact hu.1 hm
  | _ => exact ⟨by simpa [commits] using hl.once, fun h => by simpa using hl.apart h⟩

theorem Ledger.step (hl : Ledger T hist s) (hc : s.Change es s') : Ledger T (hist ++ es) s' :=
  have hr := hl.record.step hc
  { steady := hr.steady
    serial := hl.serial_step hc
    known := hr.known
    working := fun _ _ hh => hl.working_step hc hh
    unsettled := hr.unsettled
    once := (hl.once_step hc).1
    apart := (hl.once_step hc).2 }

theorem Ledger.run {ops : List Op} (hl : Ledger T hist s) (ho : s.Orderly ops) :
    Ledger T (hist ++ s.history ops) (s.after ops) := by
  induction ops generalizing s hist with
  | nil => simpa [history, after] using hl
  | cons op ops ih =>
    have hc := perform_change hl.steady ho.1
    have ht := ih (hl.step hc) ho.2
    rwa [List.append_assoc] at ht

end Ledger

/-- A transaction that is still open after calls was open before them, and the committed tables are
what they were. -/
theorem committed_after {s : Store} (hs : s.Steady) {ops : List Op} (ho : s.Orderly ops) {h : Nat}
    (hlt : h < s.issued) (hopen : (s.after ops).isOpen h = true) :
    s.isOpen h = true ∧ (s.after ops).committed = s.committed := by
  induction ops generalizing s with
  | nil => exact ⟨hopen, rfl⟩
  | cons op ops ih =>
    have hc := perform_change hs ho.1
    obtain ⟨hmid, hcom⟩ := ih (hc.steady hs) ho.2 (Nat.lt_of_lt_of_le hlt hc.issued_le) hopen
    obtain ⟨hfirst, hcom'⟩ := hc.committed_eq hlt hmid
    exact ⟨hfirst, hcom.trans hcom'⟩

end Store
end RowGuard
