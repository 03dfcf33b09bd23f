import RowGuard.Proofs.Gate.KeyAgreement

/-! # What the gate answers

A call of the gate on the server reads the rows that the transaction of the mutation shows, and
nothing else.  For a subject with a full key its answer is determined by these rows and the answer
of the predicate: a missing answer is a configuration failure, rows that cannot be read are a failed
check, and otherwise the gate opens exactly when some row admits the subject.  A call changes no
row, and it records its subject exactly when it passes.
-/
namespace RowGuard

/-! ### The rows that a transaction shows -/

/-- The rows of a table in a transaction. -/
def Store.shown (s : Store) (handle : Nat) (table : String) : Outcome (List Row) :=
  match s.tables? handle with
  | some ts => (s.schema.require table).map fun _ => ts.rows table
  | none => .error .settled

/-- The rows of a table in a transaction, over a connection that may refuse the call. -/
def Database.shown (d : Database) (handle : Nat) (table : String) : Outcome (List Row) :=
  if d.refuses .run then .error (fault .run) else d.store.shown handle table

/-- The rows of a table in a transaction of one of the databases. -/
def Site.shown (s : Site) (tx : TxRef) (table : String) : Outcome (List Row) :=
  match s.databases[tx.database]? with
  | none => .error noDatabase
  | some d => d.shown tx.handle table

theorem Store.run_eq_shown (s : Store) (handle : Nat) (q : Query) :
    s.run handle q = (s.shown handle q.table).map q.completed.select := by
  unfold Store.run Store.shown
  cases s.tables? handle with
  | none => rfl
  | some ts =>
    simp only [Schema.execute]
    cases s.schema.require q.table <;> rfl

/-- A transaction answers a query from the rows that it shows of the table of the query. -/
theorem Site.run_eq_shown (site : Site) (tx : TxRef) (q : Query) :
    site.run tx q = (site.shown tx q.table).map q.completed.select := by
  unfold Site.run Site.shown
  cases site.databases[tx.database]? with
  | none => rfl
  | some d =>
    simp only [Database.run, Database.shown]
    split
    · rfl
    · exact d.store.run_eq_shown tx.handle q

/-- An open transaction of a store that is reached directly shows its working tables. -/
theorem Site.HasStore.shown {site : Site} {tx : TxRef} {s : Store} {W : Tables} {table : String}
    {t : Table} (hst : site.HasStore tx.database s) (hh : s.Held tx.handle W)
    (ht : s.schema.table? table = some t) : site.shown tx table = .ok (W.rows table) := by
  have hd : site.databases[tx.database]? = some (.direct s) := hst
  have hw : s.tables? tx.handle = some W := by simp [hh.tables?]
  simp only [Site.shown, hd, Database.shown, Store.shown, Database.direct, hw,
    Schema.require_eq_ok_iff.2 ht]
  rfl

/-- A settled transaction shows no rows. -/
theorem Site.shown_of_settled {site : Site} {tx : TxRef} {d : Database}
    (hd : site.databases[tx.database]? = some d) (hc : d.store.isOpen tx.handle = false)
    (table : String) : ∃ e, site.shown tx table = .error e := by
  have hw : d.store.tables? tx.handle = none := by simpa [Store.isOpen] using hc
  simp only [Site.shown, hd, Database.shown, Store.shown, hw]
  split <;> exact ⟨_, rfl⟩

/-- The row has a value in every column of a key, and it compares as equal to the one given. -/
def Row.Matches (r : Row) (key : List (String × Json)) : Prop :=
  ∀ e ∈ key, (r.value e.1).isNull = false ∧ Json.compareValues (r.value e.1) e.2 = some .eq

instance (r : Row) (key : List (String × Json)) : Decidable (r.Matches key) :=
  inferInstanceAs (Decidable (∀ e ∈ key, _ ∧ _))

theorem Row.matches_iff {r : Row} {key : List (String × Json)} :
    r.Matches key ↔ ∀ e ∈ key, (Condition.columnIs e.1 e.2).holds r = true := by
  refine forall₂_congr fun e _ => ?_
  rw [Condition.holds_columnIs]
  refine ⟨fun h => ⟨h.1, ?_, h.2⟩, fun h => ⟨h.1, h.2.2⟩⟩
  rcases (Json.compareValues_eq_iff _ _).1 h.2 with hs | ⟨m, n, -, hn, -⟩
  · exact (Json.isNull_eq_of_same hs).symm.trans h.1
  · rw [hn]
    rfl

namespace Gate
variable {g : Gate} {a m : Actor} {w : Where} {x : Subject} {table : String} {t : Table}
  {key : List (String × Json)} {read : Query → Outcome (List Row)}

/-- The answer of a gate to a subject with the given key, from the rows that the transaction shows
and the answer of the predicate. -/
inductive Answers (subject : String) (key : List (String × Json)) :
    Outcome (List Row) → Option Permit → Outcome Unit → Prop where
  | undefined (rows : Outcome (List Row)) (message : String) :
      Answers subject key rows none (.error (.configuration message))
  | unreadable (e : Failure) (p : Permit) :
      Answers subject key (.error e) (some p) (.error (.checkFailed subject e.message))
  | admitted {rows : List Row} {p : Permit} (h : ∃ r ∈ rows, Permit.Admits key r (some p)) :
      Answers subject key (.ok rows) (some p) (.ok ())
  | refused {rows : List Row} {p : Permit} (h : ∀ r ∈ rows, ¬ Permit.Admits key r (some p))
      (query : Option String) :
      Answers subject key (.ok rows) (some p) (.error (.denied subject query))

/-- The gate opens exactly when some row that is shown admits the subject. -/
theorem Answers.eq_ok_iff {subject : String} {rows : Outcome (List Row)} {p : Option Permit}
    {r : Outcome Unit} (h : Answers subject key rows p r) :
    r = .ok () ↔ ∃ xs, rows = .ok xs ∧ ∃ y ∈ xs, Permit.Admits key y p := by
  cases h with
  | undefined rows message => simp [Permit.Admits]
  | unreadable e p => simp
  | admitted h => exact iff_of_true rfl ⟨_, rfl, h⟩
  | refused h query =>
    refine iff_of_false (by simp) ?_
    rintro ⟨xs, hxs, y, hy, had⟩
    obtain rfl := Except.ok.inj hxs
    exact h y hy had

/-- The text that stands for the subject with a key. -/
def textOf (table : String) (key : List (String × Json)) : String :=
  table ++ ":" ++ (Json.arr (key.map Prod.snd)).compact

theorem subjectKey_of_key (ht : g.schema.table? table = some t) (hx : x.keyValues t = .ok key) :
    g.subjectKey table x = .ok (textOf table key) := by
  rw [subjectKey_eq ht, hx]
  rfl

/-- A gate on the server asks the predicate, then the transaction, then for the text of the
subject. -/
theorem can_server (hm : m.environment = .server) (hw : w.table = some table)
    (read : Query → Outcome (List Row)) : (g.can a m read w x).result =
      (g.enforce a m read table w x).result.bind fun _ => (g.subjectKey table x).map some := by
  simp only [can, hm, hw, Ruling.andThen]
  cases (g.enforce a m read table w x).result <;> rfl

/-- The condition of an answer holds for the rows that admit the subject.  Only an answer that is a
condition needs the key. -/
theorem conditionFor_admits (table : String) {p : Permit}
    (hx : ∀ c, p = .rows c → x.keyValues t = .ok key) :
    ∃ c, conditionFor table t x (some p) = .ok c ∧
      ∀ r, c.holds r = true ↔ Permit.Admits key r (some p) := by
  cases p with
  | blanket b =>
    refine ⟨_, rfl, fun r => ?_⟩
    rw [Condition.holds_compareLiterals]
    rfl
  | rows c =>
    refine ⟨.all (c :: key.map fun e => .columnIs e.1 e.2),
      by simp [conditionFor, hx c rfl, Except.map], fun r => ?_⟩
    simp [Condition.holds_all, Permit.Admits]

/-- The verdict of the gate on an identity that does not bypass it, read off the rows that are
shown. -/
theorem enforce_answers (hm : m.environment = .server) (hb : bypasses m.identity = false)
    (hw : w.table = some table) (ht : g.schema.table? table = some t)
    (hx : ∀ c, w.decide a table m.identity = some (.rows c) → x.keyValues t = .ok key)
    (rows : Outcome (List Row))
    (hread : ∀ q : Query, q.table = table → read q = rows.map q.completed.select) :
    Answers (title table m.identity) key rows (w.decide a table m.identity)
      (g.enforce a m read table w x).result := by
  rw [enforce_server hm hb hw ht]
  cases hp : w.decide a table m.identity with
  | none => exact .undefined rows _
  | some p =>
    obtain ⟨c, hc, hiff⟩ := conditionFor_admits (t := t) table fun c h =>
      hx c (hp.trans (congrArg some h))
    rw [hc]
    simp only [Except.bind]
    rw [hread (existenceQuery table t c) rfl]
    cases rows with
    | error e => exact .unreadable e p
    | ok xs =>
      have hsel := Plan.select_ne_nil_iff (p := (existenceQuery table t c).completed) rfl rfl xs
      have hpass : ∀ r, (existenceQuery table t c).completed.passes r = true ↔
          Permit.Admits key r (some p) := hiff
      simp only [hpass] at hsel
      simp only [Except.map]
      cases hl : (existenceQuery table t c).completed.select xs with
      | nil =>
        refine .refused (fun r hr had => ?_) _
        exact hsel.2 ⟨r, hr, had⟩ hl
      | cons y ys => exact .admitted (hsel.1 (by simp [hl]))

theorem enforce_of_bypasses (hb : bypasses m.identity = true) :
    (g.enforce a m read table w x).result = .ok () := by
  simp [enforce, hb, Ruling.ofOutcome]

end Gate

namespace Site
variable (site : Site) {p : Post} {i : Invocation} {g : Gate} {w : Where} {x : Subject}
  {table : String} {t : Table} {key : List (String × Json)}

/-- For an ordinary identity the gate answers from the rows that the transaction shows. -/
theorem enforce_answers (hs : i.environment = .server) (hb : Gate.bypasses i.identity = false)
    (hw : w.table = some table) (ht : g.schema.table? table = some t) (a : Actor)
    (key : List (String × Json))
    (hx : ∀ c, w.decide a table i.identity = some (.rows c) → x.keyValues t = .ok key) :
    Gate.Answers (Gate.title table i.identity) key (site.shown i.tx table)
      (w.decide a table i.identity) (g.enforce a i.actor (site.run i.tx) table w x).result :=
  Gate.enforce_answers (m := i.actor) hs hb hw ht hx _ fun q hq => by
    rw [site.run_eq_shown, hq]

/-- A call of the gate on the server leaves all but the journal as it was, and the record of the
checks where it fails. -/
theorem can_eq_enforce (hi : p.invocation = some i) (hs : i.environment = .server)
    (hw : w.table = some table) :
    ∃ r checked journal, site.can p g w x = (r, { p with checked }, { site with journal }) ∧
      match (g.enforce p.scope.actor i.actor (site.run i.tx) table w x).result.bind fun _ =>
        g.subjectKey table x with
      | .ok text => r = .ok () ∧ checked = p.checked.mark text
      | .error e => r = .error e ∧ checked = p.checked := by
  obtain ⟨invocation, scope, checked⟩ := p
  obtain rfl : invocation = some i := hi
  have hc := Gate.can_server (g := g) (a := scope.actor) (m := i.actor) (x := x) hs hw
    (site.run i.tx)
  simp only [can]
  rw [hc]
  cases (g.enforce scope.actor i.actor (site.run i.tx) table w x).result with
  | error e => exact ⟨_, checked, _, rfl, rfl, rfl⟩
  | ok u =>
    cases g.subjectKey table x with
    | error e => exact ⟨_, checked, _, rfl, rfl, rfl⟩
    | ok text => exact ⟨_, _, _, rfl, rfl, rfl⟩

/-- For a subject with a full key the gate's verdict is its answer. -/
theorem can_of_key (hi : p.invocation = some i) (hs : i.environment = .server)
    (hw : w.table = some table) (ht : g.schema.table? table = some t)
    (hx : x.keyValues t = .ok key) :
    ∃ checked journal, site.can p g w x =
        ((g.enforce p.scope.actor i.actor (site.run i.tx) table w x).result,
          { p with checked }, { site with journal }) ∧
      match (g.enforce p.scope.actor i.actor (site.run i.tx) table w x).result with
      | .ok () => checked = p.checked.mark (Gate.textOf table key)
      | .error _ => checked = p.checked := by
  obtain ⟨r, checked, journal, hcan, h⟩ := site.can_eq_enforce (g := g) (x := x) hi hs hw
  rw [Gate.subjectKey_of_key ht hx] at h
  cases he : (g.enforce p.scope.actor i.actor (site.run i.tx) table w x).result with
  | error e =>
    rw [he] at h
    obtain ⟨rfl, hchecked⟩ := h
    exact ⟨checked, journal, hcan, hchecked⟩
  | ok u =>
    rw [he] at h
    obtain ⟨rfl, hchecked⟩ := h
    exact ⟨checked, journal, hcan, hchecked⟩

end Site

theorem Checked.mem_mark {c : Checked} {text k : String} :
    k ∈ c.mark text ↔ k = text ∨ k ∈ c := by
  unfold mark
  split
  · rename_i h
    have hm : text ∈ c := by simpa using h
    exact ⟨.inr, fun hk => hk.elim (fun e => e ▸ hm) id⟩
  · simp

/-! Tasks of projects, whose key has two columns. -/
namespace ProjectTasks

def table : Table :=
  ⟨"task", [⟨"project", .string, false, none⟩, ⟨"number", .number, false, none⟩,
    ⟨"author", .string, false, none⟩, ⟨"open", .boolean, false, none⟩], ["project", "number"]⟩

def schema : Schema := Schema.empty.addTable table

def mine : Row := .ofList
  [("project", .str "p"), ("number", .ofNat 1), ("author", .str "u1"), ("open", .bool false)]

def shared : Row := .ofList
  [("project", .str "p"), ("number", .ofNat 2), ("author", .str "u2"), ("open", .bool true)]

def tables : Tables := Tables.setRows .empty "task" [mine, shared]

def ops : List Store.Op := [.seed 0 "task" [mine, shared], .begin]

def store : Store := (Store.new schema).after ops

/-- The predicate that permits the open tasks of a project and one's own. -/
def visible : Where := .onTable "task" fun _ _ auth => auth.map fun a => .rows
  (.all [.columnIs "project" (.str "p"),
    .any [.columnIs "open" (.bool true), .columnIs "author" (.str a.id)]])

def invocation : Invocation := plainInvocation schema 0 (some (.ofId "u1"))

def subject (n : Nat) : Subject := .row (.ofList [("project", .str "p"), ("number", .ofNat n)])

theorem held : store.Held 0 tables := ⟨rfl, rfl, by decide⟩

end ProjectTasks

section
variable {site : Site} {p : Post} {i : Invocation} {g : Gate} {w : Where} {x : Subject}
  {table : String} {t : Table} {key : List (String × Json)}

/-- What the gate answers on the server to an ordinary identity about a subject with a full key. -/
theorem gate_answers_exactly (hi : p.invocation = some i) (hs : i.environment = .server)
    (hb : Gate.bypasses i.identity = false) (hw : w.table = some table)
    (ht : g.schema.table? table = some t) (hx : x.keyValues t = .ok key) :
    ∃ r checked journal,
      site.answer p (.can g w x) = (r, { p with checked }, { site with journal }) ∧
      (w.decide p.scope.actor table i.identity = none →
        ∃ message, r = .error (.configuration message)) ∧
      (∀ o, w.decide p.scope.actor table i.identity = some o →
        (∀ e, site.shown i.tx table = .error e →
          r = .error (.checkFailed (Gate.title table i.identity) e.message)) ∧
        ∀ rows, site.shown i.tx table = .ok rows →
          (∀ c, o = .rows c →
            (r = .ok () ↔ ∃ row ∈ rows, c.holds row = true ∧ row.Matches key) ∧
            ((∀ row ∈ rows, ¬ (c.holds row = true ∧ row.Matches key)) →
              ∃ query, r = .error (.denied (Gate.title table i.identity) query))) ∧
          (o = .blanket false →
            ∃ query, r = .error (.denied (Gate.title table i.identity) query))) ∧
      (∀ d, site.databases[i.tx.database]? = some d → d.store.isOpen i.tx.handle = false →
        ∃ e, site.shown i.tx table = .error e) ∧
      (r = .ok () → Checked.passed checked g table x = .ok true ∧ ∀ k ∈ p.checked, k ∈ checked) ∧
      ∀ e, r = .error e → checked = p.checked := by
  obtain ⟨checked, journal, hcan, hchecked⟩ := site.can_of_key (g := g) hi hs hw ht hx
  have hans := site.enforce_answers (g := g) hs hb hw ht p.scope.actor key fun _ _ => hx
  generalize (g.enforce p.scope.actor i.actor (site.run i.tx) table w x).result = r at *
  have hadm : ∀ c row, Permit.Admits key row (some (.rows c)) ↔ c.holds row = true ∧
      row.Matches key := fun c row => and_congr_right fun _ => Row.matches_iff.symm
  refine ⟨r, checked, journal, hcan, fun hp => ?_, fun o ho => ⟨fun e he => ?_, fun rows hrows =>
    ⟨fun c hc => ⟨?_, fun hno => ?_⟩, fun hf => ?_⟩⟩, fun d hd hc => Site.shown_of_settled hd hc _,
    fun hr => ?_, fun e hr => ?_⟩
  · rw [hp] at hans
    generalize site.shown i.tx table = rows at hans
    cases hans with
    | undefined rows message => exact ⟨message, rfl⟩
  · rw [ho, he] at hans
    cases hans with
    | unreadable e p => rfl
  · rw [ho, hrows, hc] at hans
    simp only [hans.eq_ok_iff, Except.ok.injEq, exists_eq_left', hadm]
  · rw [ho, hrows, hc] at hans
    cases hans with
    | admitted h =>
      obtain ⟨row, hrow, had⟩ := h
      exact absurd ((hadm c row).1 had) (hno row hrow)
    | refused h query => exact ⟨query, rfl⟩
  · rw [ho, hrows, hf] at hans
    cases hans with
    | admitted h =>
      obtain ⟨row, -, had⟩ := h
      cases had
    | refused h query => exact ⟨query, rfl⟩
  · subst hr
    obtain rfl := hchecked
    refine ⟨?_, fun k hk => Checked.mem_mark.2 (.inr hk)⟩
    rw [Checked.passed, Gate.subjectKey_of_key ht hx]
    simp [Except.map, Checked.mem_mark]
  · subst hr
    exact hchecked

end

open ProjectTasks in
theorem gate_answers_of_tasks : ∃ checked journal,
    (Site.new 0 [.direct store]).answer (.ofInvocation invocation)
        (.can invocation.gate visible (subject 2)) =
      (.ok (), { Post.ofInvocation invocation with checked },
        { Site.new 0 [.direct store] with journal }) := by
  obtain ⟨r, checked, journal, hcan, -, hread, -⟩ :=
    @gate_answers_exactly (.new 0 [.direct store]) (.ofInvocation invocation) invocation
      invocation.gate visible (subject 2) "task" table _ rfl rfl rfl rfl rfl rfl
  have hopen : r = .ok () := ((hread _ rfl).2 [mine, shared] rfl).1 _ rfl |>.1.2
    ⟨shared, by simp, by decide +kernel, by decide +kernel⟩
  exact ⟨checked, journal, hopen ▸ hcan⟩

end RowGuard
