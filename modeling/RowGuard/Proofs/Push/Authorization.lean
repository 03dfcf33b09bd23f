import RowGuard.Proofs.Gate.GuardedWrites
import RowGuard.Proofs.Mutation.TableModels
import RowGuard.Proofs.Push.Serializability

/-! # Pushes change permitted rows only

A push of guarded writes leaves the tables that its mutations leave one after another, and each of
them changes at most one row, as the predicate of its table permits.  What one mutation does is read
off a run in which it is alone: there its task is the only one, and what is still before the task
ensures that the tables are as they should be when it has succeeded.
-/
namespace RowGuard

/-- What a task still does ensures `Q`, as in `Program.Ensures`. -/
structure Strand.Ensures (schema : Schema) (i : Invocation) (Q : Tables → Prop) (W : Tables)
    (k : Strand (Outcome Unit)) : Prop where
  invocation : k.post.invocation = some i
  scope : k.post.scope = i.ambient.scope
  running : ∃ p, k.standing = .running p ∧ p.Ensures schema i Q k.post.checked W

/-- How far the run of one mutation is in which it is alone: the push, its tasks and the store. -/
inductive Solo (s : Server) (m : Mutators) (p : PushMutation) (schema : Schema) (Q : Tables → Prop)
    (T : Tables) : Stage → Tasks → Store → Prop where
  | idle {st : Store} (hc : st.committed = T) : Solo s m p schema Q T (.idle [] [p]) [] st
  | called {st : Store} {h : Nat} (hh : st.Held h T) :
      Solo s m p schema Q T (.busy [] p [] h .called) [] st
  | waiting {st : Store} {h : Nat} {W : Tables} {k : Strand (Outcome Unit)} (hh : st.Held h W)
      (hk : k.Ensures schema (m.invocation ⟨s.database, h⟩) Q W) :
      Solo s m p schema Q T (.busy [] p [] h (.waiting 0)) [k] st
  | succeeded {st : Store} {h : Nat} {W : Tables} {k : Strand (Outcome Unit)} (hh : st.Held h W)
      (hq : Q W) (hk : k.standing = .running (.done (.ok ()))) :
      Solo s m p schema Q T (.busy [] p [] h (.settling (.ok ()))) [k] st
  | failed {st : Store} {ts : Tasks} {h : Nat} {e : Failure} :
      Solo s m p schema Q T (.busy [] p [] h (.settling (.error e))) ts st
  | committed {st : Store} {ts : Tasks} {r : MutationResult} (hq : Q st.committed) :
      Solo s m p schema Q T (.idle [r] []) ts st
  | ended {st : Store} {ts : Tasks} {e : Failure} :
      Solo s m p schema Q T (.idle [p.result (.error e)] []) ts st

section Alone
variable {app : Application} {s : Server} {m : Mutators} {p : PushMutation} {schema : Schema}
  {Q : Tables → Prop} {T T' W : Tables} {i : Invocation} {k k' : Strand (Outcome Unit)}
  {site site' : Site} {st st' : Store} {ts new : Tasks}
  {c c' : Scene (Outcome (List MutationResult))} {σ σ' : Nat → Stage}

/-- A task that has succeeded has ensured it. -/
theorem Strand.Ensures.of_result (hk : k.Ensures schema i Q W) (hr : k.result? = some (.ok ())) :
    Q W ∧ k.standing = .running (.done (.ok ())) := by
  obtain ⟨post, standing⟩ := k
  obtain ⟨x, rfl, hx⟩ := hk.running
  cases hx with
  | ok hq => exact ⟨hq, rfl⟩
  | _ => simp [Strand.result?] at hr

/-- A move of a task keeps what the task ensures, from the tables that it leaves. -/
theorem Strand.Ensures.move (hk : k.Ensures schema i Q W) (hs : site.HasStore i.tx.database st)
    (ho : site.outbox = []) (hh : st.Held i.tx.handle W) (hschema : st.schema = schema)
    (hm : k.Move app ts site site' k' new) :
    new = [] ∧ ∃ W' st', site'.HasStore i.tx.database st' ∧ st'.Held i.tx.handle W' ∧
      k'.Ensures schema i Q W' := by
  obtain ⟨post, standing⟩ := k
  obtain ⟨hi, hscope, x, rfl, hx⟩ := hk
  cases hx with
  | ok | fail => cases hm
  | @mutate _ _ table a row next hok herror =>
    cases hm with
    | ask =>
      have hans := hs.answer_mutate post table a row
      rw [hans, hh.mutate, hschema]
      cases hw : schema.write site.clock W table a row with
      | ok W' =>
        exact ⟨by simp [ho], W', _, hs.withStore _, hh.setTables W', hi, hscope, _, rfl,
          hok _ _ hw⟩
      | error e =>
        exact ⟨by simp [ho], W, _, hs.withStore _, hh, hi, hscope, _, rfl, herror e⟩
  | @checked _ _ next h =>
    cases hm with
    | ask => exact ⟨by simp [Site.answer, ho], W, st, hs, hh, hi, hscope, _, rfl, h⟩
  | @can _ _ g w y next hok herror =>
    cases hm with
    | ask =>
      obtain ⟨r, checked, journal, hcan, hiff⟩ := site.can_of_invocation hi hscope g w y
      have hrun : site.run i.tx = schema.execute W := by
        rw [hs.run, ← hschema]
        funext q
        exact hh.run q
      have hans : site.answer post (.can g w y) = _ := hcan
      rw [hans]
      refine ⟨by simp [ho], W, st, hs, hh, hi, hscope, _, rfl, ?_⟩
      cases r with
      | ok u =>
        obtain ⟨key, hkey⟩ := hiff.1 rfl
        exact hok checked key (hrun ▸ hkey)
      | error e => exact herror checked e

section Step
variable {x x' : Stage} (hsolo : Solo s m p schema Q T x ts st) (hschema : st.schema = schema)
include hsolo hschema

/-- What the push does next whose only mutation is alone. -/
theorem Solo.push
    (hbody : ∀ h, (Call.strand app ⟨m.invocation ⟨s.database, h⟩, p.name, p.args⟩).Ensures schema
      (m.invocation ⟨s.database, h⟩) Q T)
    (hn : x.Next app s m ts st st' x' new) :
    st'.schema = schema ∧ Solo s m p schema Q T x' (ts ++ new) st' := by
  cases hsolo with
  | idle hcommitted =>
    cases hn with
    | begin hq => exact ⟨hschema, .called (hcommitted ▸ st.entered_held)⟩
  | called hh =>
    cases hn with
    | call hp => exact ⟨hschema, .waiting hh (hbody _)⟩
    | unknown hp => exact ⟨hschema, .failed⟩
  | @waiting _ h W k hh hk =>
    cases hn with
    | @deliver _ k' ht r hr =>
      obtain rfl : k = k' := Option.some.inj ht
      rw [List.append_nil]
      cases r with
      | ok u =>
        obtain ⟨hq, hdone⟩ := hk.of_result hr
        exact ⟨hschema, .succeeded hh hq hdone⟩
      | error e => exact ⟨hschema, .failed⟩
    | expire => exact ⟨hschema, .failed⟩
  | succeeded hh hq hk =>
    cases hn with
    | commit hh' =>
      obtain ⟨-, rfl⟩ := hh.unique hh'
      exact ⟨hschema, .committed hq⟩
  | failed =>
    cases hn with
    | rollback hh => exact ⟨hschema, .ended⟩
  | committed | ended => cases hn

/-- What the task of a mutation does next that is alone. -/
theorem Solo.task {t g : Nat} {ms : List Mark} {change : Amendment}
    (hs : site.HasStore s.database st)
    (ho : site.outbox = []) (hk : ts[t]? = some k) (hm : k.Move app ts site site' k' new)
    (ha : site.Amends s.database g st ms change site') :
    Solo s m p schema Q T x (ts.set t k' ++ new) (st.amend g change) := by
  cases hsolo with
  | idle | called => simp at hk
  | @waiting _ h W j hh hj =>
    obtain ⟨rfl, rfl⟩ : t = 0 ∧ j = k := by simpa [List.getElem?_singleton] using hk
    obtain ⟨rfl, W', st', hs', hh', hj'⟩ := hj.move (i := m.invocation ⟨s.database, h⟩) hs ho hh
      hschema hm
    obtain rfl := hs'.unique ha.store
    exact .waiting hh' hj'
  | @succeeded _ h W j hh hq hj =>
    obtain ⟨rfl, rfl⟩ : t = 0 ∧ j = k := by simpa [List.getElem?_singleton] using hk
    obtain ⟨post, standing⟩ := j
    obtain rfl := hj
    cases hm
  | failed => exact .failed
  | committed hq => exact .committed ((st.amend_committed g change).symm ▸ hq)
  | ended => exact .ended

end Step

/-- What happens where one mutation is alone. -/
theorem Solo.step {ms : List Mark} (hc : Coherent app s [⟨m, [p]⟩] c σ st)
    (hschema : st.schema = schema)
    (hsolo : Solo s m p schema Q T (σ 0) c.tasks st)
    (hbody : ∀ h, (Call.strand app ⟨m.invocation ⟨s.database, h⟩, p.name, p.args⟩).Ensures schema
      (m.invocation ⟨s.database, h⟩) Q T)
    (he : Evolves app s [⟨m, [p]⟩] c σ st ms c' σ' st') :
    st'.schema = schema ∧ Solo s m p schema Q T (σ' 0) c'.tasks st' := by
  cases he with
  | @push i u x' _ new hu hn =>
    obtain ⟨rfl, rfl⟩ : i = 0 ∧ (⟨m, [p]⟩ : Submission) = u := by
      simpa [List.getElem?_singleton] using hu
    rw [Function.update_self]
    exact hsolo.push hschema hbody hn
  | @task t g k k' change site' new hk hg hcon hm ha =>
    exact ⟨(st.amend_schema g change).trans hschema,
      hsolo.task hschema hc.store hc.outbox hk hm ha⟩
  | tick | drop => exact ⟨hschema, hsolo⟩

/-- A mutation whose task ensures `Q` leaves tables for which `Q` holds, when it can run alone. -/
theorem RunsAlone.ensures {ws : List Write} (happ : app.ThroughTx)
    (h : RunsAlone app s schema m p ws T T')
    (hsite : site.AtRest s.database schema T)
    (hbody : ∀ h, (Call.strand app ⟨m.invocation ⟨s.database, h⟩, p.name, p.args⟩).Ensures schema
      (m.invocation ⟨s.database, h⟩) Q T) : Q T' := by
  obtain ⟨es, c, hlog, hres, -, st', hs', -, -, hT', -⟩ := h.runs site hsite
  obtain ⟨st, hs, hq, hschema, hT, ho⟩ := hsite
  obtain ⟨σ, st₁, hc, -, hsolo⟩ := (Coherent.start hs ho hq).run
    (P := fun _ c σ st => st.schema = schema ∧ Solo s m p schema Q T (σ 0) c.tasks st)
    happ ⟨hschema, .idle hT⟩ (fun hc ⟨hsch, hsolo⟩ he => hsolo.step hc hsch hbody he) hlog
  obtain rfl := hc.store.unique hs'
  obtain ⟨hr, hidle, -⟩ := hc.results hres (i := 0) (u := ⟨m, [p]⟩) rfl
  have hone : (σ 0).results = [p.result .ok] := by simpa using hr.symm
  rw [hone] at hidle
  rw [hidle] at hsolo
  cases hsolo with
  | committed hq => exact hT' ▸ hq

end Alone

/-- The values of primary key columns, in the rows of the tables and in the arguments of mutations. -/
def primaryKeyValues (schema : Schema) (T : Tables) (ps : List PushMutation) : KeyValues :=
  fun table v => ∃ t c, schema.table? table = some t ∧ c ∈ t.primaryKey ∧
    ((∃ r ∈ T.rows table, r.value c = v) ∨ ∃ p ∈ ps, ∃ (a : Action) (row : Row),
      p.name = table ++ "." ++ a.name ∧ p.args.toRow? = some row ∧ row.value c = v)

/-- A mutation changes no row, or one row of its own table that the predicate registered for it
permits. -/
def Authorized (ms : Models) (auth : Option Identity) (p : PushMutation) (T T' : Tables) : Prop :=
  (∀ table, T'.rows table = T.rows table) ∨ ∃ (table : String) (a : Action) (w : Where),
    p.name = table ++ "." ++ a.name ∧ ms.registry.get? table = some w ∧
    (∀ other, other ≠ table → T'.rows other = T.rows other) ∧
    RowChange (fun r => Permit.Allows r (w.decide ⟨auth, .server⟩ table auth)) (T.rows table) a
      (T'.rows table)

section Push
variable {app : Application} {s : Server} {m : Mutators} {p : PushMutation} {ps : List PushMutation}
  {schema : Schema} {T T' : Tables} {site : Site} {st : Store} {ms : Models} {timeout : Nat}
  {K : KeyValues}

/-- The task of a mutation of plain models ensures that the mutation is authorized, and that the
tables are as it found them. -/
theorem Models.Plain.ensures (hms : ms.Plain) (hs : m.environment = .server)
    (hb : Gate.bypasses m.identity = false) (hg : m.gate.schema = schema)
    (hkeyed : schema.Keyed T) (hK : K.Apart) (hT : K.Cover schema T)
    (hargs : ∀ table t c (a : Action) row, p.name = table ++ "." ++ a.name →
      p.args.toRow? = some row → schema.table? table = some t → c ∈ t.primaryKey →
        K table (row.value c)) (tx : TxRef) :
    (Call.strand ⟨ms.mutators, timeout⟩ ⟨m.invocation tx, p.name, p.args⟩).Ensures schema
      (m.invocation tx) (fun T' => Authorized ms m.identity p T T' ∧ schema.Keyed T' ∧
        K.Cover schema T') T := by
  refine ⟨rfl, rfl, _, rfl, ?_⟩
  simp only [Application.program]
  cases hget : ms.mutators.get? p.name with
  | none => exact .fail _ _ _
  | some body =>
    obtain ⟨table, a, w, hname, hw, rfl⟩ := hms.mutator hget
    apply guardedWrite_ensures hs
    intro row now T' k hrow hwrite hcan
    have hrowK : ∀ t, schema.table? table = some t → ∀ c ∈ t.primaryKey, K table (row.value c) :=
      fun t ht c hc => hargs table t c a row hname hrow ht hc
    obtain ⟨hothers, hchange⟩ := rowChange_of_write (i := m.invocation tx) hs hb hg hkeyed hK hT hrowK
      hwrite hcan
    have hactor : (m.invocation tx).actor = ⟨m.identity, .server⟩ := by
      simp [Invocation.actor, Mutators.invocation, hs]
    rw [hactor] at hchange
    exact ⟨.inr ⟨table, a, _, hname, hw, hothers, hchange⟩, hkeyed.write hwrite,
      hT.write hrowK hwrite⟩

/-- Mutations that failed have changed nothing. -/
theorem OneByOne.of_succeeded {Q : PushMutation → Tables → Tables → Prop} (hQ : ∀ p T, Q p T T)
    {rs : List MutationResult} {done : List PushMutation}
    (hr : List.Forall₂ MutationResult.Reports rs done) {T U : Tables}
    (h : OneByOne Q (succeeded done rs) T U) : OneByOne Q done T U := by
  induction hr generalizing T with
  | nil => exact h
  | @cons r p rs done _ _ ih =>
    rw [succeeded] at h
    split at h
    · obtain ⟨V, ha, hrest⟩ := h.of_cons
      exact .cons ha (ih hrest)
    · exact .cons (hQ p T) (ih h)

theorem mem_of_mem_succeeded {rs : List MutationResult} {p : PushMutation}
    (h : p ∈ succeeded ps rs) : p ∈ ps := by
  induction ps generalizing rs with
  | nil => simp [succeeded] at h
  | cons q ps ih =>
    cases rs with
    | nil => simp [succeeded] at h
    | cons r rs =>
      rw [succeeded] at h
      split at h
      · rcases List.mem_cons.1 h with rfl | h
        · exact List.mem_cons_self
        · exact List.mem_cons_of_mem _ (ih h)
      · exact List.mem_cons_of_mem _ (ih h)

theorem succeeded_append_left {rs : List MutationResult} {done : List PushMutation}
    (hr : List.Forall₂ MutationResult.Reports rs done) (left : List PushMutation) :
    succeeded (done ++ left) rs = succeeded done rs := by
  induction hr with
  | nil => cases left <;> rfl
  | cons _ _ ih => simp only [List.cons_append, succeeded, ih]

/-- Where a transaction of others is open, a push has to wait, and nothing is committed. -/
theorem waits_of_held {h : Nat} {W : Tables} {c : Scene (Outcome (List MutationResult))}
    (hs : site.HasStore s.database st) (hh : st.Held h W)
    (hsteps : Scene.Steps app (.pushes s site [⟨m, ps⟩]) c) :
    ∃ st', c.site.HasStore s.database st' ∧ st'.committed = st.committed ∧
      (c.results?.isSome → ps = []) := by
  have hdone : ∀ c : Scene (Outcome (List MutationResult)),
      c.mains = [(Stage.idle [] ps).strand app s m] → c.results?.isSome → ps = [] := by
    intro c hmains hf
    obtain ⟨rs, hrs⟩ := Option.isSome_iff_exists.1 hf
    obtain ⟨a, -, ha⟩ := Scene.result?_of_results? hrs (i := 0) (by rw [hmains]; rfl)
    obtain ⟨rs', he, -⟩ := Stage.result?_strand.1 ha
    exact (Stage.idle.inj he).2
  have hall : c.mains = [(Stage.idle [] ps).strand app s m] ∧ c.tasks = [] ∧
      ∃ st', c.site.HasStore s.database st' ∧ st'.committed = st.committed ∧
        (ps ≠ [] → st'.Held h W) := by
    induction hsteps with
    | refl =>
      rw [Scene.pushes_single]
      exact ⟨rfl, rfl, st, hs, rfl, fun _ => hh⟩
    | @tail c₁ c₂ _ hstep ih =>
      obtain ⟨hmains, htasks, st', hs', hcom, hheld⟩ := ih
      cases hstep with
      | @main i k k' site new hk hm =>
        exfalso
        have hk' : k = (Stage.idle [] ps).strand app s m := by
          simpa [hmains] using List.mem_of_getElem? hk
        subst hk'
        cases ps with
        | nil =>
          rw [Stage.strand, Stage.standing, Server.rest_nil] at hm
          cases hm
        | cons p ps =>
          rw [Stage.strand, Stage.standing, Server.rest_cons] at hm
          cases hm with
          | begin hb =>
            rw [hs'.begin?, (hheld (by simp)).begin?] at hb
            cases hb
      | task hk => simp [htasks] at hk
      | tick => exact ⟨hmains, htasks, st', hs', hcom, hheld⟩
      | @drop tx hf =>
        have hps : ps = [] := hdone c₁ hmains hf
        refine ⟨hmains, htasks, _, hs'.after_drop tx, ?_, fun h => absurd hps h⟩
        split
        · exact hcom
        · exact hcom
  obtain ⟨hmains, -, st', hs', hcom, -⟩ := hall
  exact ⟨st', hs', hcom, hdone c hmains⟩

/-- A push of guarded writes for an ordinary identity, on a reachable store and in any interleaving
with what it starts: the committed tables are at any time those that the first mutations have left one
after another, and each mutation has changed no row, or one permitted row of its own table.  All of
them have had their turn when the push is answered. -/
theorem push_authorized {specs : List (String × Where)} {c : Scene (Outcome (List MutationResult))}
    (hs : site.HasStore s.database st) (hst : st.Reachable schema) (ho : site.outbox = [])
    (henv : m.environment = .server) (hgate : m.gate.schema = schema)
    (hb : Gate.bypasses m.identity = false)
    (hkeys : (primaryKeyValues schema st.committed ps).Apart)
    (hsteps : Scene.Steps ⟨(Models.ofTables specs).mutators, timeout⟩ (.pushes s site [⟨m, ps⟩]) c) :
    ∃ n st', c.site.HasStore s.database st' ∧
      OneByOne (Authorized (.ofTables specs) m.identity) (ps.take n) st.committed st'.committed ∧
      (c.results?.isSome → ps.length ≤ n) := by
  rcases hst.steady with hq | ⟨h, W, hh⟩
  · have hms := Models.plain_ofTables specs
    have happ := hms.throughTx timeout
    obtain ⟨es, hlog⟩ := Scene.Recorded.exists_of_steps hsteps
    obtain ⟨σ, st', order, hc, -, hl⟩ := Coherent.account happ hs hq ho hlog
    obtain ⟨done, hdone, hrep⟩ := hc.answers 0 ⟨m, ps⟩ rfl
    have hchain := hl.single ⟨m, ps⟩ rfl
    have hsound := hst.sound
    have hsame : st.schema = schema := hst.schema_eq
    have hcover : (primaryKeyValues schema st.committed ps).Cover schema st.committed :=
      fun table t ht r hr c hc => ⟨_, ⟨t, c, ht, hc, .inl ⟨r, hr, rfl⟩⟩, Json.same_refl _⟩
    have hone : ∀ p ∈ succeeded ps (σ 0).results, ∀ T U,
        schema.Keyed T ∧ (primaryKeyValues schema st.committed ps).Cover schema T →
        (∃ ws, CanRun ⟨(Models.ofTables specs).mutators, timeout⟩ s st.schema m p ws T U) →
        Authorized (.ofTables specs) m.identity p T U ∧ schema.Keyed U ∧
          (primaryKeyValues schema st.committed ps).Cover schema U := by
      rintro p hp T U ⟨hkeyed, hT⟩ ⟨ws, hrun⟩
      have hsite : (site.withStore s.database { st with committed := T }).AtRest s.database schema
          T := ⟨_, hs.withStore _, ⟨hq.working, hq.writer⟩, hsame, rfl, ho⟩
      rw [hsame] at hrun
      exact hrun.runsAlone.ensures happ hsite fun h => hms.ensures henv hb hgate hkeyed hkeys hT
        (fun table t c a row hname hrow ht hc =>
          ⟨t, c, ht, hc, .inr ⟨p, mem_of_mem_succeeded hp, a, row, hname, hrow, rfl⟩⟩)
        ⟨s.database, h⟩
    obtain ⟨hauth, -⟩ := hchain.carry ⟨hsame ▸ hsound.committed, hcover⟩ hone
    refine ⟨done.length, st', hc.store, ?_, fun hf => ?_⟩
    · have hps : ps = done ++ (σ 0).left := hdone
      rw [hps, succeeded_append_left hrep] at hauth
      rw [hps, List.take_left]
      exact hauth.of_succeeded (fun _ _ => .inl fun _ => rfl) hrep
    · obtain ⟨answers, hans⟩ := Option.isSome_iff_exists.1 hf
      obtain ⟨-, -, hall⟩ := hc.results hans (i := 0) (u := ⟨m, ps⟩) rfl
      have hlen := hall.length_eq.symm.trans hrep.length_eq
      exact hlen.le
  · obtain ⟨st', hs', hcom, hps⟩ := waits_of_held hs hh hsteps
    exact ⟨0, st', hs', hcom ▸ .nil _, fun hf => by simp [hps hf]⟩

end Push

/-! A push whose first mutation is denied, and whose others delete a row and add one. -/
namespace OwnNotes

def table : Table :=
  ⟨"note", [⟨"id", .string, false, none⟩, ⟨"author", .string, false, none⟩], ["id"]⟩

def schema : Schema := Schema.empty.addTable table

def note (id author : String) : Row := .ofList [("id", .str id), ("author", .str author)]

def ops : List Store.Op := [.seed 0 "note" [note "a" "u1", note "b" "u2"]]

def store : Store := (Store.new schema).after ops

def site : Site := .new 0 [.direct store]

/-- Whoever asks may write the notes of which they are the author. -/
def specs : List (String × Where) :=
  [("note", .new fun _ _ auth => auth.map fun a => .rows (.columnIs "author" (.str a.id)))]

def app : Application := ⟨(Models.ofTables specs).mutators, 1000⟩

def server : Server := ⟨0, ⟨.server, schema, false⟩, .empty, none, none⟩

def caller : Mutators := ⟨some (.ofId "u1"), .server, server.gate, none⟩

def mutation (n : Nat) (name id : String) : PushMutation :=
  ⟨n, "c", name, .ofRow (note id "u1")⟩

def ps : List PushMutation :=
  [mutation 1 "note.delete" "b", mutation 2 "note.delete" "a", mutation 3 "note.insert" "c"]

def answers : List (Outcome (List MutationResult)) :=
  [.ok [⟨1, "c", .error (.denied "note with auth id: u1" none)⟩, ⟨2, "c", .ok⟩, ⟨3, "c", .ok⟩]]

theorem keys_apart : (primaryKeyValues schema store.committed ps).Apart := by
  have hstr : ∀ name v, primaryKeyValues schema store.committed ps name v → ∃ id, v = .str id := by
    rintro name v ⟨t, c, ht, hc, hv⟩
    have hname : "note" = name ∧ table = t := by
      simpa [schema, Schema.addTable, Schema.table?, Schema.empty, Dict.get?_insert, table] using ht
    obtain ⟨rfl, rfl⟩ := hname
    obtain rfl := List.mem_singleton.1 hc
    rcases hv with ⟨r, hr, rfl⟩ | ⟨p, hp, a, row, -, hrow, rfl⟩
    · have hrows : r ∈ [note "a" "u1", note "b" "u2"] := hr
      simp only [List.mem_cons, List.not_mem_nil, or_false] at hrows
      rcases hrows with rfl | rfl
      · exact ⟨"a", rfl⟩
      · exact ⟨"b", rfl⟩
    · simp only [ps, List.mem_cons, List.not_mem_nil, or_false] at hp
      rcases hp with rfl | rfl | rfl <;> obtain rfl := Option.some.inj hrow
      · exact ⟨"b", rfl⟩
      · exact ⟨"a", rfl⟩
      · exact ⟨"c", rfl⟩
  rintro name v v' hv - ⟨m, n, rfl, -⟩
  obtain ⟨id, hid⟩ := hstr name _ hv
  cases hid

/-- What the machine makes of the push. -/
def outcome : Option (List (Outcome (List MutationResult))) × Background :=
  (Background.idle site).runAll app ([⟨caller, ps⟩].map fun u : Submission =>
    (.outside, server.pushAll u.mutators u.mutations))

end OwnNotes

open OwnNotes in
theorem push_authorized_of_own_notes :
    ∃ c, Scene.Steps app (.pushes server site [⟨caller, ps⟩]) c ∧ c.results? = some answers ∧
      ∃ st', c.site.HasStore server.database st' ∧
        (st'.committed.rows "note").map (fun r => (r.value "id").toString?) = [some "b", some "c"] ∧
        OneByOne (Authorized (.ofTables specs) caller.identity) ps store.committed st'.committed := by
  have hrun : outcome.1 = some answers := by decide +kernel
  have hrows : (outcome.2.site.databases[0]?.map fun d =>
      (d.store.committed.rows "note").map fun r => (r.value "id").toString?) =
        some [some "b", some "c"] := by decide +kernel
  obtain ⟨c, hsteps, hres, hc⟩ := Scene.pushes_of_runAll rfl hrun
  have hs : site.HasStore server.database store := rfl
  obtain ⟨n, st', hs', hauth, hall⟩ := push_authorized hs ⟨ops, rfl⟩ rfl rfl rfl rfl keys_apart hsteps
  rw [List.take_of_length_le (hall (by rw [hres]; rfl))] at hauth
  have hdb : outcome.2.site.databases[0]? = some (.direct st') := hc ▸ hs'
  rw [hdb] at hrows
  exact ⟨c, hsteps, hres, st', hs', Option.some.inj hrows, hauth⟩

end RowGuard
