import RowGuard.Proofs.Store.Isolation
import RowGuard.Proofs.Store.Rows
import Mathlib.Data.List.Induction

/-! # Rows seeded beside transactions

Rows may be seeded at any time, also while a transaction is open, which works on the tables as they
were when it began.  The main statement tells what the commits of a run make of seeded rows.  Every
row stays until a committed write names its key, exactly if each commit finds no other rows than
those of its begin and those that its own writes name.  The committed tables are the seeds and the
committed writes in order, exactly if the writes of each commit come to the same on the tables of
the commit as on those of the begin.
-/
namespace RowGuard

namespace Table
variable {t : Table} {now : Nat} {name : String} {rows rows' : List Row} {row r : Row} {a : Action}

/-- A row that a write brings has the key that the write names. -/
theorem Written.sameKey_of_new (hw : t.Written rows row a rows') (hf : t.FullKey row)
    (hr : r ∈ rows') (hn : r ∉ rows) : t.SameKey r row := by
  cases hw with
  | added _ _ hs =>
    rcases List.mem_append.1 hr with hr | hr
    · exact absurd hr hn
    · exact List.mem_singleton.1 hr ▸ hs
  | @merged _ pre post x _ hp hs =>
    subst hp
    obtain rfl : r = merge x row := by simp_all
    exact (sameKey_merge hf hs).trans hs
  | removed hp =>
    subst hp
    simp_all
  | kept => exact absurd hr hn

theorem applyTo_insert (h : t.applyTo now name rows .insert row = .ok rows') :
    ∃ r, t.withDefaults now row = .ok r ∧ rows' = rows ++ [r] := by
  obtain ⟨hc, hf, -⟩ := applyTo_written h
  have hk : t.keyOf row = .ok (t.primaryKey.map row.value) := keyOf_eq_ok_iff.2 ⟨hf, rfl⟩
  simp only [applyTo, hc, hk, bind, Except.bind, applyAt] at h
  cases hx : rows.any (t.hasKey (t.primaryKey.map row.value)) with
  | true => simp [hx] at h
  | false =>
    rw [hx] at h
    cases hd : t.withDefaults now row with
    | error e => simp [append, hd, Except.map] at h
    | ok r =>
      simp only [append, hd, Except.map] at h
      exact ⟨r, rfl, (Except.ok.inj h).symm⟩

end Table

namespace Schema
variable {s : Schema} {now : Nat} {ts ts' : Tables} {table name : String} {a : Action} {row r : Row}

/-- One of the writes names the key of a row of a table. -/
def Names (s : Schema) (ws : List Write) (name : String) (r : Row) : Prop :=
  ∃ w ∈ ws, w.table = name ∧ ∃ t, s.table? name = some t ∧ t.SameKey r w.row

theorem mem_write_iff {w : Write} (h : s.write w.now ts w.table w.action w.row = .ok ts')
    (hn : ¬ s.Names [w] name r) : r ∈ ts'.rows name ↔ r ∈ ts.rows name := by
  obtain ⟨t, rows', ht, -, hf, hw, rfl⟩ := write_written h
  rw [Tables.rows_setRows]
  by_cases hname : w.table = name
  · subst hname
    have hkey : ¬ t.SameKey r w.row := fun hs =>
      hn ⟨w, List.mem_singleton_self w, rfl, t, ht, hs⟩
    rw [if_pos rfl]
    constructor
    · exact fun hr => by_contra fun hnew => hkey (hw.sameKey_of_new hf hr hnew)
    · exact fun hr => by_contra fun hgone => hkey (hw.sameKey_of_gone hr hgone)
  · rw [if_neg hname]

/-- Writes that do not name the key of a row neither bring the row nor take it away. -/
theorem mem_replay_iff {ws : List Write} (h : s.replay ts ws = .ok ts') (hn : ¬ s.Names ws name r) :
    r ∈ ts'.rows name ↔ r ∈ ts.rows name := by
  induction ws generalizing ts with
  | nil => rw [Except.ok.inj h]
  | cons w ws ih =>
    have hone : ¬ s.Names [w] name r := fun ⟨x, hx, hrest⟩ =>
      hn ⟨x, List.mem_cons.2 (.inl (List.mem_singleton.1 hx)), hrest⟩
    have hrest : ¬ s.Names ws name r := fun ⟨x, hx, hrest⟩ =>
      hn ⟨x, List.mem_cons_of_mem w hx, hrest⟩
    have hcons : s.replay ts (w :: ws) = (s.replay ts [w]).bind fun ts => s.replay ts ws :=
      s.replay_append ts [w] ws
    rw [hcons, replay_one] at h
    cases hw : s.write w.now ts w.table w.action w.row with
    | error e => simp [hw, Except.bind] at h
    | ok mid =>
      rw [hw] at h
      exact (ih h hrest).trans (mem_write_iff hw hone)

theorem write_insert (h : s.write now ts table .insert row = .ok ts') : ∃ t r,
    s.table? table = some t ∧ t.withDefaults now row = .ok r ∧
      ts' = ts.setRows table (ts.rows table ++ [r]) := by
  obtain ⟨t, rows', ht, ha, rfl⟩ := write_eq_ok_iff.1 h
  obtain ⟨r, hd, rfl⟩ := Table.applyTo_insert ha
  exact ⟨t, r, ht, hd, rfl⟩

/-- Rows that were there stay when others are seeded, whether the seed comes to its end or not. -/
theorem mem_seed (now : Nat) (table : String) (rows : List Row) (hr : r ∈ ts.rows name) :
    r ∈ (s.seed now table ts rows).1.rows name := by
  refine seed_induction (P := fun ts => r ∈ ts.rows name) (fun ts ts' row h hr => ?_) rows hr
  obtain ⟨t, x, -, -, rfl⟩ := write_insert h
  rw [Tables.rows_setRows]
  by_cases hn : table = name
  · subst hn
    simp [hr]
  · simpa [hn] using hr

/-- A seed that succeeds has added each of its rows, with the defaults filled in. -/
theorem mem_of_seed_ok {rows : List Row} (h : s.seed now table ts rows = (ts', .ok ())) :
    ∀ row ∈ rows, ∃ t r, s.table? table = some t ∧ t.withDefaults now row = .ok r ∧
      r ∈ ts'.rows table := by
  induction rows generalizing ts with
  | nil => exact fun _ hr => absurd hr List.not_mem_nil
  | cons row rows ih =>
    rw [seed] at h
    cases hw : s.write now ts table .insert row with
    | error e => simp [hw] at h
    | ok mid =>
      rw [hw] at h
      intro x hx
      rcases List.mem_cons.1 hx with rfl | hx
      · obtain ⟨t, r, ht, hd, hmid⟩ := write_insert hw
        have hr : r ∈ mid.rows table := by simp [hmid, Tables.rows_setRows]
        have hseed : s.seed now table mid rows = (ts', .ok ()) := h
        have hall := mem_seed (s := s) now table rows hr
        rw [hseed] at hall
        exact ⟨t, r, ht, hd, hall⟩
      · exact ih h x hx

/-- A seed that fails is a seed of the rows before the one that is refused. -/
theorem seed_of_error {rows : List Row} {e : Failure}
    (h : s.seed now table ts rows = (ts', .error e)) : ∃ done row rest,
      rows = done ++ row :: rest ∧ s.seed now table ts done = (ts', .ok ()) ∧
      s.write now ts' table .insert row = .error e := by
  induction rows generalizing ts with
  | nil => simp [seed] at h
  | cons row rows ih =>
    rw [seed] at h
    cases hw : s.write now ts table .insert row with
    | error e' =>
      rw [hw] at h
      obtain ⟨rfl, he⟩ := Prod.mk.inj h
      exact ⟨[], row, rows, rfl, rfl, Except.error.inj he ▸ hw⟩
    | ok mid =>
      rw [hw] at h
      obtain ⟨done, x, rest, rfl, hdone, hx⟩ := ih h
      exact ⟨row :: done, x, rest, rfl, by rw [seed, hw]; exact hdone, hx⟩

end Schema

namespace Store

/-- The time of a transaction in a run: the calls before its begin, those after it, and the handle
that it is given. -/
structure Span where
  before : List Op
  during : List Op
  handle : Nat

/-- All calls until the end of the span. -/
def Span.calls (x : Span) : List Op := x.before ++ .begin :: x.during

/-- The transaction begins after the calls before, and it is open at the end of the span. -/
structure Spans (s : Store) (x : Span) : Prop where
  begins : (s.after x.before).begin?.map Prod.fst = some x.handle
  lasts : (s.after x.calls).isOpen x.handle = true

/-- The run goes on with the commit of the transaction. -/
structure Commits (s : Store) (ops : List Op) (x : Span) : Prop extends s.Spans x where
  next : ∃ post, ops = x.calls ++ .commit x.handle :: post

/-- The writes of the transaction. -/
def written (s : Store) (x : Span) : List Write := writesOf x.handle (s.history x.calls)

/-- A call takes no committed row away, unless it commits a transaction that has named its key. -/
def Keeps (s : Store) (hist : List Event) (op : Op) : Prop :=
  ∀ name, ∀ r ∈ s.committed.rows name, r ∈ (s.perform op).2.committed.rows name ∨
    ∃ h, .committed h ∈ (s.perform op).1 ∧ s.schema.Names (writesOf h hist) name r

section Calls
variable {s : Store} {op : Op} {h : Nat} {W W' : Tables}

/-- A transaction that is open after a change has just begun, or it was open before and has been
given the writes of the change. -/
theorem Change.held_before {es : List Event} {s' : Store} (hc : s.Change es s')
    (hh : s'.Held h W') : (es = [.began h] ∧ s.issued = h) ∨
      ∃ W, s.Held h W ∧ s.schema.replay W (writesOf h es) = .ok W' := by
  cases hc with
  | nothing => exact .inr ⟨W', hh, rfl⟩
  | seed hq => exact absurd hh (hq.seed ..).not_held
  | begin hq =>
    obtain ⟨rfl, -⟩ := hh.unique s.entered_held
    exact .inl ⟨rfl, rfl⟩
  | @write g W _ w hg hw =>
    obtain ⟨rfl, rfl⟩ := hh.unique (hg.setTables _)
    have hone : writesOf h [.wrote h w] = [w] := by simp [writesOf]
    exact .inr ⟨W, hg, by rw [hone, Schema.replay_one, hw]⟩
  | commit hg => exact absurd hh (hg.concluded _).not_held
  | discard hg => exact absurd hh hg.release.not_held

theorem Steady.held_before (hs : s.Steady) (op : Op) (hh : (s.perform op).2.Held h W') :
    (op = .begin ∧ s.issued = h) ∨
      ∃ W, s.Held h W ∧ s.schema.replay W (writesOf h (s.perform op).1) = .ok W' := by
  by_cases hseed : op.seeds = true
  · cases op with
    | seed now table rows => exact .inr ⟨W', ⟨hh.working, hh.writer, hh.issued⟩, rfl⟩
    | _ => simp [Op.seeds] at hseed
  · have hc := perform_change hs fun ho => absurd ho hseed
    rcases hc.held_before hh with ⟨he, hi⟩ | hW
    · exact .inl ⟨perform_began he, hi⟩
    · exact .inr hW

theorem Record.perform {hist : List Event} (hr : Record hist s) (op : Op) :
    Record (hist ++ (s.perform op).1) (s.perform op).2 := by
  by_cases hseed : op.seeds = true
  · cases op with
    | seed now table rows =>
      refine ⟨hr.steady.perform _, fun e he h hn => ?_, fun h W hh => ?_⟩
      · rcases List.mem_append.1 he with he | he
        · exact hr.known e he h hn
        · obtain rfl := List.mem_singleton.1 he
          cases hn
      · have hu := hr.unsettled h W ⟨hh.working, hh.writer, hh.issued⟩
        simpa [Store.perform] using hu
    | _ => simp [Op.seeds] at hseed
  · exact hr.step (perform_change hr.steady fun ho => absurd ho hseed)

theorem Record.after (hs : s.Quiet) (ops : List Op) : Record (s.history ops) (s.after ops) := by
  induction ops using List.reverseRecOn with
  | nil => exact Record.start hs
  | append_singleton ops op ih =>
    have hp := ih.perform op
    rw [history_append, after_append]
    simpa [history, Store.after] using hp

/-- The open transaction is at the end of a span. -/
theorem exists_span (hs : s.Quiet) {ops : List Op} (hh : (s.after ops).Held h W) :
    ∃ x, s.Spans x ∧ x.calls = ops ∧ x.handle = h := by
  induction ops using List.reverseRecOn generalizing W with
  | nil => exact absurd hh hs.not_held
  | append_singleton ops op ih =>
    have hopen : (s.after (ops ++ [op])).isOpen h = true := (hh.isOpen_iff h).2 rfl
    rw [after_append] at hh
    have hsteady := (Steady.after (.inl hs) ops).1
    rcases hsteady.held_before op hh with ⟨rfl, rfl⟩ | ⟨V, hV, -⟩
    · refine ⟨⟨ops, [], (s.after ops).issued⟩, ⟨?_, hopen⟩, rfl, rfl⟩
      rcases hsteady with hq | ⟨g, V, hg⟩
      · simp [hq.begin?]
      · have hstill : (s.after ops).Held (s.after ops).issued W := by
          simpa [Store.after, Store.perform, hg.begin?] using hh
        exact absurd hstill.issued (Nat.lt_irrefl _)
    · obtain ⟨x, hx, rfl, rfl⟩ := ih hV
      refine ⟨⟨x.before, x.during ++ [op], x.handle⟩, ⟨hx.begins, ?_⟩, ?_, rfl⟩
      · simpa [Span.calls] using hopen
      · simp [Span.calls]

theorem begins_quiet (hs : s.Steady) (hb : s.begin?.map Prod.fst = some h) :
    s.Quiet ∧ s.issued = h := by
  rcases hs with hq | ⟨g, V, hg⟩
  · rw [hq.begin?] at hb
    exact ⟨hq, Option.some.inj hb⟩
  · simp [hg.begin?] at hb

theorem replay_since_begin (hs : s.Quiet) {before during : List Op} (hq : (s.after before).Quiet)
    (hh : (s.after (before ++ .begin :: during)).Held (s.after before).issued W) :
    s.schema.replay (s.after before).committed
      (writesOf (s.after before).issued (s.history (before ++ .begin :: during))) = .ok W := by
  have hbegun : s.after (before ++ [.begin]) = (s.after before).entered := by
    simp [after_append, Store.after, perform, hq.begin?]
  induction during using List.reverseRecOn generalizing W with
  | nil =>
    rw [hbegun] at hh
    obtain ⟨-, rfl⟩ := hh.unique (entered_held _)
    have hnone : writesOf (s.after before).issued (s.history before) = [] :=
      writesOf_eq_nil (Record.after hs before).not_mentioned
    have hbegan : writesOf (s.after before).issued ((s.after before).history [.begin]) = [] := by
      simp [history, perform, hq.begin?, writesOf]
    rw [history_append, writesOf_append, hnone, hbegan]
    rfl
  | append_singleton during op ih =>
    have hcut : before ++ .begin :: (during ++ [op]) = (before ++ .begin :: during) ++ [op] := by simp
    rw [hcut, after_append] at hh
    have hsteady := (Steady.after (.inl hs) (before ++ .begin :: during)).1
    rcases hsteady.held_before op hh with ⟨-, hi⟩ | ⟨V, hV, hr⟩
    · have hle := (Steady.after (.inr ⟨_, _, entered_held (s.after before)⟩) during).2
      rw [← hbegun, ← after_append, List.append_assoc, List.singleton_append, hi, hbegun] at hle
      exact absurd hle (Nat.not_succ_le_self _)
    · have hmid := ih hV
      rw [s.after_schema] at hr
      rw [hcut, history_append, writesOf_append, Schema.replay_append, hmid]
      simpa [history, Except.bind] using hr

/-- An open transaction has the tables of its begin with its own writes. -/
theorem Spans.replay (hs : s.Quiet) {x : Span} (hx : s.Spans x) :
    ∃ W, (s.after x.calls).Held x.handle W ∧
      s.schema.replay (s.after x.before).committed (s.written x) = .ok W := by
  obtain ⟨hq, hi⟩ := begins_quiet (Steady.after (.inl hs) x.before).1 hx.begins
  obtain ⟨W, hW⟩ := (Steady.after (.inl hs) x.calls).1.held_of_isOpen hx.lasts
  refine ⟨W, hW, ?_⟩
  rw [← hi] at hW
  rw [written, ← hi]
  exact replay_since_begin hs hq hW

end Calls

section Laws
variable {s : Store} {hist : List Event} {op : Op}

theorem committed_mem_perform_iff {h : Nat} :
    .committed h ∈ (s.perform op).1 ↔ op = .commit h ∧ s.isOpen h = true := by
  cases op with
  | commit g =>
    cases ht : s.tables? g with
    | none =>
      simp only [perform, commit_of_closed ht, List.not_mem_nil, false_iff]
      rintro ⟨he, ho⟩
      obtain rfl := Op.commit.inj he
      simp [isOpen, ht] at ho
    | some W =>
      simp only [perform, commit, ht, List.mem_singleton, Event.committed.injEq, Op.commit.injEq]
      constructor
      · rintro rfl
        simp [isOpen, ht]
      · exact fun he => he.1.symm
  | begin => simp only [perform]; split <;> simp
  | mutate g w => simp only [perform]; split <;> simp
  | rollback g => simp only [perform]; split <;> simp
  | drop g => simp only [perform]; split <;> simp
  | _ => simp [perform]

/-- One more call leaves the committed tables what the history makes of them, exactly if no commit
takes place or the writes of its transaction lead from the committed tables to its own. -/
theorem serial_perform_iff {T : Tables} (hr : Record hist s)
    (hT : serial s.schema hist T = .ok s.committed) (op : Op) :
    serial s.schema (hist ++ (s.perform op).1) T = .ok (s.perform op).2.committed ↔
      ∀ h W, .committed h ∈ (s.perform op).1 → s.Held h W →
        s.schema.replay s.committed (writesOf h hist) = .ok W := by
  by_cases hseed : op.seeds = true
  · cases op with
    | seed now table rows =>
      rw [serial_append _ _ fun _ _ => rfl, hT]
      exact iff_of_true rfl fun h W hm => by simp [perform] at hm
    | _ => simp [Op.seeds] at hseed
  · have hc := perform_change hr.steady fun ho => absurd ho hseed
    generalize (s.perform op).1 = es at hc ⊢
    generalize (s.perform op).2 = s' at hc ⊢
    have hw : ∀ h ∈ commits hist, writesOf h es = [] := fun h hm =>
      writesOf_eq_nil (hr.fresh hc (.inl (mem_commits.1 hm)))
    rw [serial_append _ _ hw, hT]
    cases hc with
    | @commit h W hh =>
      have hes : writesOf h (hist ++ [.committed h]) = writesOf h hist := by simp [writesOf]
      simp only [Except.bind, List.foldlM_cons, List.foldlM_nil, bind_pure, publish, hes]
      constructor
      · intro hW g V hm hg
        obtain ⟨rfl, rfl⟩ := hg.unique hh
        exact hW
      · exact fun hall => hall h W (List.mem_singleton_self _) hh
    | nothing | seed | begin | write | discard => exact iff_of_true rfl fun h W hm => by simp at hm

/-- One more call keeps the committed rows, exactly if no commit takes place or its transaction has
them all but for those whose keys it has named. -/
theorem keeps_iff (hs : s.Steady) : s.Keeps hist op ↔
    ∀ h W, .committed h ∈ (s.perform op).1 → s.Held h W → ∀ name, ∀ r ∈ s.committed.rows name,
      r ∈ W.rows name ∨ s.schema.Names (writesOf h hist) name r := by
  unfold Keeps
  by_cases hseed : op.seeds = true
  · cases op with
    | seed now table rows =>
      refine iff_of_true (fun name r hr => .inl ?_) fun h W hm => by simp [perform] at hm
      exact Schema.mem_seed now table rows hr
    | _ => simp [Op.seeds] at hseed
  · have hc := perform_change hs fun ho => absurd ho hseed
    generalize (s.perform op).1 = es at hc ⊢
    generalize (s.perform op).2 = s' at hc ⊢
    cases hc with
    | @commit h W hh =>
      constructor
      · intro hall g V hm hg name r hr
        obtain ⟨rfl, rfl⟩ := hg.unique hh
        refine (hall name r hr).imp_right ?_
        rintro ⟨h, hm, hnames⟩
        obtain rfl : h = g := by simpa using hm
        exact hnames
      · intro hall name r hr
        refine (hall h W (List.mem_singleton_self _) hh name r hr).imp_right fun hnames => ?_
        exact ⟨h, List.mem_singleton_self _, hnames⟩
    | seed hq =>
      exact iff_of_true (fun name r hr => .inl (Schema.mem_seed _ _ _ hr)) fun h W hm => by simp at hm
    | nothing | begin | write | discard =>
      exact iff_of_true (fun name r hr => .inl hr) fun h W hm => by simp at hm

theorem exists_commits (hs : s.Quiet) {pre : List Op} (post : List Op) {h : Nat} {W : Tables}
    (hm : .committed h ∈ ((s.after pre).perform op).1) (hh : (s.after pre).Held h W) :
    ∃ x, s.Commits (pre ++ op :: post) x ∧ x.calls = pre ∧ x.handle = h := by
  obtain ⟨x, hx, rfl, rfl⟩ := exists_span hs hh
  obtain ⟨rfl, -⟩ := committed_mem_perform_iff.1 hm
  exact ⟨x, ⟨hx, post, rfl⟩, rfl, rfl⟩

theorem Commits.committed_mem {ops : List Op} {x : Span} (hx : s.Commits ops x) :
    .committed x.handle ∈ ((s.after x.calls).perform (.commit x.handle)).1 :=
  committed_mem_perform_iff.2 ⟨rfl, hx.lasts⟩

theorem keeps_all_iff (hs : s.Quiet) (ops : List Op) :
    (∀ pre op post, ops = pre ++ op :: post → (s.after pre).Keeps (s.history pre) op) ↔
      ∀ x, s.Commits ops x → ∀ name, ∀ r ∈ (s.after x.calls).committed.rows name,
        r ∈ (s.after x.before).committed.rows name ∨ s.schema.Names (s.written x) name r := by
  have hsteady := fun pre => (Steady.after (.inl hs) pre).1
  constructor
  · intro hall x hx name r hr
    obtain ⟨post, hops⟩ := hx.next
    obtain ⟨W, hW, hreplay⟩ := hx.replay hs
    -- a row whose key no write names is in the tables of the transaction as it was at the begin
    have hkept := (keeps_iff (hsteady _)).1 (hall _ _ _ hops) _ W hx.committed_mem hW name r hr
    rw [s.after_schema] at hkept
    by_cases hnames : s.schema.Names (s.written x) name r
    · exact .inr hnames
    · exact .inl ((Schema.mem_replay_iff hreplay hnames).1 (hkept.resolve_right hnames))
  · rintro hall pre op post rfl
    refine (keeps_iff (hsteady pre)).2 fun h W hm hW name r hr => ?_
    obtain ⟨x, hx, rfl, rfl⟩ := exists_commits hs post hm hW
    obtain ⟨V, hV, hreplay⟩ := hx.replay hs
    obtain ⟨-, rfl⟩ := hV.unique hW
    rw [s.after_schema]
    by_cases hnames : s.schema.Names (s.written x) name r
    · exact .inr hnames
    · have hbegin := (hall x hx name r hr).resolve_right hnames
      exact .inl ((Schema.mem_replay_iff hreplay hnames).2 hbegin)

theorem serial_all_iff (hs : s.Quiet) (ops : List Op) :
    (∀ pre post, ops = pre ++ post →
        serial s.schema (s.history pre) s.committed = .ok (s.after pre).committed) ↔
      ∀ x, s.Commits ops x → s.schema.replay (s.after x.calls).committed (s.written x) =
        s.schema.replay (s.after x.before).committed (s.written x) := by
  -- what one more call does to a run so far, which the two directions use at each of its calls
  have hstep : ∀ pre op, serial s.schema (s.history pre) s.committed = .ok (s.after pre).committed →
      (serial s.schema (s.history (pre ++ [op])) s.committed =
          .ok (s.after (pre ++ [op])).committed ↔
        ∀ h W, .committed h ∈ ((s.after pre).perform op).1 → (s.after pre).Held h W →
          s.schema.replay (s.after pre).committed (writesOf h (s.history pre)) = .ok W) := by
    intro pre op hpre
    rw [← s.after_schema pre] at hpre ⊢
    rw [history_append, after_append]
    simpa [history, after] using serial_perform_iff (Record.after hs pre) hpre op
  constructor
  · intro hall x hx
    obtain ⟨post, hops⟩ := hx.next
    obtain ⟨W, hW, hreplay⟩ := hx.replay hs
    have hnext := hall (x.calls ++ [.commit x.handle]) post (by simp [hops])
    have hpre := hall x.calls _ hops
    have hthere := (hstep x.calls _ hpre).1 hnext x.handle W hx.committed_mem hW
    exact hthere.trans hreplay.symm
  · intro hall pre
    induction pre using List.reverseRecOn with
    | nil => exact fun _ _ => rfl
    | append_singleton pre op ih =>
      intro post hops
      have hcut : ops = pre ++ op :: post := by simpa using hops
      refine (hstep pre op (ih _ hcut)).2 fun h W hm hW => ?_
      obtain ⟨x, hx, rfl, rfl⟩ := exists_commits hs post hm hW
      rw [← hcut] at hx
      obtain ⟨V, hV, hreplay⟩ := hx.replay hs
      obtain ⟨-, rfl⟩ := hV.unique hW
      exact (hall x hx).trans hreplay

theorem orderly_of_no_seeds {ops : List Op} (hn : ∀ op ∈ ops, op.seeds = false) :
    s.Orderly ops := by
  induction ops generalizing s with
  | nil => exact trivial
  | cons op ops ih =>
    obtain ⟨hop, hops⟩ := List.forall_mem_cons.1 hn
    exact ⟨fun ho => absurd (hop.symm.trans ho) (by simp), ih hops⟩

theorem Spans.committed_eq (hs : s.Quiet) {x : Span} (hx : s.Spans x)
    (hn : ∀ op ∈ x.during, op.seeds = false) :
    (s.after x.calls).committed = (s.after x.before).committed := by
  obtain ⟨hq, hi⟩ := begins_quiet (Steady.after (.inl hs) x.before).1 hx.begins
  have hcalls : s.after x.calls = (s.after x.before).entered.after x.during := by
    simp [Span.calls, after_append, after, perform, hq.begin?]
  have hlt : x.handle < (s.after x.before).entered.issued := hi ▸ Nat.lt_succ_self _
  have hopen := hx.lasts
  rw [hcalls] at hopen ⊢
  exact (committed_after (.inr ⟨_, _, entered_held _⟩) (orderly_of_no_seeds hn) hlt hopen).2

/-- What becomes of seeded rows, in whatever order seeds and transactions take their turns. -/
structure KeepsSeeds (s : Store) (ops : List Op) : Prop where
  /-- The rows of a seed that succeeds are committed, with their defaults filled in. -/
  seeded : ∀ pre now table rows post, ops = pre ++ .seed now table rows :: post →
    ((s.after pre).seed now table rows).1 = .ok () → ∀ row ∈ rows, ∃ t r,
      s.schema.table? table = some t ∧ t.withDefaults now row = .ok r ∧
      r ∈ (s.after (pre ++ [.seed now table rows])).committed.rows table
  /-- A seed that fails comes to the seed of the rows before the one that is refused. -/
  refused : ∀ pre now table rows post e, ops = pre ++ .seed now table rows :: post →
    ((s.after pre).seed now table rows).1 = .error e → ∃ done row rest, rows = done ++ row :: rest ∧
      (s.after pre).seed now table done = (.ok (), s.after (pre ++ [.seed now table rows])) ∧
      s.schema.write now (s.after (pre ++ [.seed now table rows])).committed table .insert row =
        .error e
  /-- Rows stay until a committed write names their keys, exactly if each commit finds no other rows
  than those of its begin and those that its writes name. -/
  rows_iff : (∀ pre op post, ops = pre ++ op :: post → (s.after pre).Keeps (s.history pre) op) ↔
    ∀ x, s.Commits ops x → ∀ name, ∀ r ∈ (s.after x.calls).committed.rows name,
      r ∈ (s.after x.before).committed.rows name ∨ s.schema.Names (s.written x) name r
  /-- The committed tables are the seeds and the committed writes in order, exactly if the writes of
  each commit come to the same on the tables of the commit as on those of the begin. -/
  serial_iff : (∀ pre post, ops = pre ++ post →
      serial s.schema (s.history pre) s.committed = .ok (s.after pre).committed) ↔
    ∀ x, s.Commits ops x → s.schema.replay (s.after x.calls).committed (s.written x) =
      s.schema.replay (s.after x.before).committed (s.written x)
  /-- Nothing is lost if nothing is seeded while a transaction is open that is committed later. -/
  apart : (∀ x, s.Commits ops x → ∀ op ∈ x.during, op.seeds = false) →
    (∀ pre op post, ops = pre ++ op :: post → (s.after pre).Keeps (s.history pre) op) ∧
    ∀ pre post, ops = pre ++ post →
      serial s.schema (s.history pre) s.committed = .ok (s.after pre).committed

theorem mem_after_seed_ok {pre : List Op} {now : Nat} {table : String} {rows : List Row}
    (hok : ((s.after pre).seed now table rows).1 = .ok ()) : ∀ row ∈ rows, ∃ t r,
      s.schema.table? table = some t ∧ t.withDefaults now row = .ok r ∧
      r ∈ (s.after (pre ++ [.seed now table rows])).committed.rows table := by
  rw [← s.after_schema pre, after_append]
  exact Schema.mem_of_seed_ok (Prod.ext rfl hok)

theorem seed_refused {pre : List Op} {now : Nat} {table : String} {rows : List Row} {e : Failure}
    (he : ((s.after pre).seed now table rows).1 = .error e) : ∃ done row rest,
      rows = done ++ row :: rest ∧
      (s.after pre).seed now table done = (.ok (), s.after (pre ++ [.seed now table rows])) ∧
      s.schema.write now (s.after (pre ++ [.seed now table rows])).committed table .insert row =
        .error e := by
  obtain ⟨done, row, rest, hrows, hdone, hrow⟩ := Schema.seed_of_error (Prod.ext rfl he)
  rw [← s.after_schema pre, after_append]
  refine ⟨done, row, rest, hrows, ?_, hrow⟩
  simp only [seed, hdone, after, perform]

/-- Rows that are seeded beside transactions are kept under an exact condition. -/
theorem seeds_kept {s : Store} (hs : s.Quiet) (ops : List Op) : s.KeepsSeeds ops where
  seeded _ _ _ _ _ _ hok := mem_after_seed_ok hok
  refused _ _ _ _ _ _ _ he := seed_refused he
  rows_iff := keeps_all_iff hs ops
  serial_iff := serial_all_iff hs ops
  apart hn := by
    have heq := fun x (hx : s.Commits ops x) => hx.committed_eq hs (hn x hx)
    constructor
    · exact (keeps_all_iff hs ops).2 fun x hx name r hr => .inl (heq x hx ▸ hr)
    · exact (serial_all_iff hs ops).2 fun x hx => by rw [heq x hx]

end Laws

/-! A note is seeded while a transaction is open that writes nothing and is committed. -/
namespace LostSeed

def notes : Schema := Schema.empty.addTable ⟨"note", [⟨"id", .string, false, none⟩], ["id"]⟩

def note (id : String) : Row := .ofList [("id", .str id)]

def seeded : List Op := [.begin, .seed 1 "note" [note "n1"]]

end LostSeed

open LostSeed in
theorem seeds_kept_beside_idle : (new notes).Quiet ∧ (new notes).KeepsSeeds (seeded ++ [.commit 0]) :=
  ⟨quiet_new notes, seeds_kept (quiet_new notes) _⟩

open LostSeed in
theorem seed_lost_at_commit : (((new notes).after [.begin]).seed 1 "note" [note "n1"]).1 = .ok () ∧
    writesOf 0 ((new notes).history (seeded ++ [.commit 0])) = [] ∧
    (∃ r ∈ ((new notes).after seeded).committed.rows "note",
      r ∉ ((new notes).after (seeded ++ [.commit 0])).committed.rows "note") ∧
    serial notes ((new notes).history (seeded ++ [.commit 0])) .empty ≠
      .ok ((new notes).after (seeded ++ [.commit 0])).committed := by
  have hthere : (((new notes).after seeded).committed.rows "note").length = 1 := by decide +kernel
  have hgone : (((new notes).after (seeded ++ [.commit 0])).committed.rows "note").length = 0 := by
    decide +kernel
  have hserial : ∃ T, serial notes ((new notes).history (seeded ++ [.commit 0])) .empty = .ok T ∧
      (T.rows "note").length = 1 := ⟨_, by rfl, by decide +kernel⟩
  refine ⟨by rfl, by rfl, ?_, ?_⟩
  · obtain ⟨r, hr⟩ := List.exists_mem_of_length_pos (Nat.lt_of_lt_of_eq Nat.one_pos hthere.symm)
    exact ⟨r, hr, by simp [List.length_eq_zero_iff.1 hgone]⟩
  · intro h
    obtain ⟨T, hT, hone⟩ := hserial
    obtain rfl := Except.ok.inj (hT.symm.trans h)
    exact absurd (hone.symm.trans hgone) Nat.one_ne_zero

end Store
end RowGuard
