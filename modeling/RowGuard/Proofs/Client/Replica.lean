import RowGuard.Client.Basic
import RowGuard.Proofs.Client.Prediction
import RowGuard.Server.Push

/-! # Replicas keep up with the server

A client applies a mutation to its replica in a transaction of its own, and the server runs it in
another one when it is pushed.  If the replica and the database held the same tables before, and the
push succeeds, then the mutation succeeds on the replica, and both hold the same tables afterwards.
-/
namespace RowGuard

/-- Call a mutator in a transaction of its own, and go on with its result. -/
def Mutators.callAlone {β : Type} (m : Mutators) (d : Nat) (name : String) (args : Json)
    (k : TxRef → Outcome Unit → Program (Outcome β)) : Program (Outcome β) :=
  (Program.begin d .done).andThen fun tx => (m.call tx name args).bind (k tx)

/-- What settling a transaction makes of a store. -/
def Store.settled (s : Store) (h : Nat) (V : Tables) : Outcome Unit → Store
  | .ok _ => s.concluded h V
  | .error _ => s.release h

/-- The code commits its transaction after a success and rolls it back after a failure, and then
comes to an end. -/
def Settles {β : Type} (k : TxRef → Outcome Unit → Program (Outcome β))
    (result : Outcome Unit → Outcome β) : Prop :=
  ∀ (app : Application) (queues : List Nat) (tx : TxRef) (r : Outcome Unit) (t : Turn) (s : Store)
    (V : Tables), t.site.HasStore tx.database s → s.Held tx.handle V →
    (k tx r).advance app queues t = (.finished (result r),
      { t with site := t.site.withStore tx.database (s.settled tx.handle V r) })

section Alone
variable {β : Type} {k : TxRef → Outcome Unit → Program (Outcome β)}
  {result : Outcome Unit → Outcome β} {app : Application} {m : Mutators} {name : String} {body : Body}
  {args : Json} {site : Site} {d : Nat} {s : Store}

/-- The transaction of such a call begins at once while no other one is open. -/
theorem callAlone_advance (hs : site.HasStore d s) (hq : s.Quiet) :
    (m.callAlone d name args k).advance app [] ⟨Turn.fullCredit, .outside, site⟩ =
      ((m.call ⟨d, s.issued⟩ name args).bind (k ⟨d, s.issued⟩)).advance app []
        ⟨Turn.fullCredit - 1, .outside, site.withStore d s.entered⟩ := by
  have hb : site.begin? d = some (.ok ⟨d, s.issued⟩, site.withStore d s.entered) := by
    rw [hs.begin?, hq.begin?]
    rfl
  simp only [Mutators.callAlone, Program.andThen, Program.bind, Program.advance, hb, Turn.fullCredit,
    List.contains_nil, Bool.false_eq_true, ↓reduceIte]

theorem callAlone_fails (hk : Settles k result) (hs : site.HasStore d s) (hq : s.Quiet)
    (h : app.mutators.get? name = none ∨ app.timeout = 0) :
    ∃ e b, Background.runOne app (m.callAlone d name args k) (.holding site []) =
      (some (result (.error e)), b) := by
  obtain ⟨e, u, hcall, hsame⟩ := Program.advance_call_of_futile
    (c := ⟨m.invocation ⟨d, s.issued⟩, name, args⟩) h (k ⟨d, s.issued⟩) []
    (t := ⟨Turn.fullCredit - 1, .outside, site.withStore d s.entered⟩) (Nat.succ_ne_zero 126)
  have hstore : u.site.HasStore d s.entered := by
    rw [Site.HasStore, hsame]
    exact hs.withStore s.entered
  have hsettle := hk app [] ⟨d, s.issued⟩ (.error e) u s.entered s.committed hstore s.entered_held
  obtain ⟨b, hb⟩ := Background.runOne_of_finished []
    ((callAlone_advance hs hq).trans (hcall.trans hsettle))
  exact ⟨e, b, hb⟩

theorem Site.HasStore.foldl_drop (hs : site.HasStore d s) (hq : s.Quiet) (txs : List TxRef) :
    (txs.foldl Site.drop site).HasStore d s := by
  induction txs generalizing site with
  | nil => exact hs
  | cons tx txs ih => exact ih (hs.drop_of_quiet hq tx)

/-- A call of a prompt body has the result of the body, whose tables are committed if it succeeds. -/
theorem callAlone_of_body (hk : Settles k result) (hs : site.HasStore d s) (hq : s.Quiet)
    (hget : app.mutators.get? name = some body) (htimeout : app.timeout ≠ 0)
    (hbox : site.outbox = []) {r : Outcome Unit} {u : Turn}
    (hbody : (body (m.invocation ⟨d, s.issued⟩) args).advance app []
      ⟨Turn.fullCredit, .ofInvocation (m.invocation ⟨d, s.issued⟩), site.withStore d s.entered⟩ =
        (.finished r, u)) (hu : u.site.outbox = []) {V : Tables}
    (hV : u.site.Offers ⟨d, s.issued⟩ s.schema V) :
    ∃ b, Background.runOne app (m.callAlone d name args k) (.holding site []) =
        (some (result r), b) ∧
      ∃ s', b.site.HasStore d s' ∧ (r = .ok () → s'.committed = V) := by
  have hcall := (callAlone_advance hs hq).trans (Program.advance_call
    (c := ⟨m.invocation ⟨d, s.issued⟩, name, args⟩) hget htimeout (k ⟨d, s.issued⟩) []
    ⟨Turn.fullCredit - 1, .outside, site.withStore d s.entered⟩)
  rw [← Application.program_of_get? (c := ⟨m.invocation ⟨d, s.issued⟩, name, args⟩) hget] at hbody
  obtain ⟨s', hs', -, hh⟩ := hV
  have hsettle := hk app [] ⟨d, s.issued⟩ r ⟨Turn.fullCredit - 1, .outside, u.site⟩ s' V hs' hh
  obtain ⟨b, hb, hsite⟩ := Background.runOne_of_call [] hcall (Nat.succ_ne_zero 126) hbox hbody hu
    hsettle hu
  refine ⟨b, hb, s'.settled s.issued V r, hsite ▸ ?_, ?_⟩
  · have hquiet : (s'.settled s.issued V r).Quiet := by
      cases r with
      | ok => exact hh.concluded V
      | error e => exact hh.release
    exact (hs'.withStore _).foldl_drop hquiet _
  · rintro rfl
    rfl

end Alone

def PushMutation.reported (p : PushMutation) : Outcome Unit → MutationResult
  | .ok _ => ⟨p.id, p.clientId, .ok⟩
  | .error e => ⟨p.id, p.clientId, .error e⟩

/-- The server settles the transaction of a mutation, and reports the result. -/
theorem pushOne_settles (p : PushMutation) : Settles (fun tx r => (Server.settle tx r).bind fun o =>
    .done (.ok (⟨p.id, p.clientId, o⟩ : MutationResult))) fun r => .ok (p.reported r) := by
  intro app queues tx r t s V hs hh
  cases r with
  | ok =>
    simp only [Server.settle, Program.request, Program.bind, Program.advance, hs.answer_commit,
      hh.commit]
    rfl
  | error e =>
    simp only [Server.settle, Program.request, Program.bind, Program.advance, hs.answer_rollback,
      hh.rollback]
    rfl

theorem mutate_settles : Settles (fun tx r => match r with
      | .ok () => .request (.commit tx)
      | .error e => (Program.request (.rollback tx)).andThen fun _ => .fail e) id := by
  intro app queues tx r t s V hs hh
  cases r with
  | ok =>
    simp only [Program.request, Program.advance, hs.answer_commit, hh.commit]
    rfl
  | error e =>
    simp only [Program.request, Program.andThen, Program.bind, Program.advance, hs.answer_rollback,
      hh.rollback]
    rfl

/-- What is committed on a replica and on the server, while no transaction is open on either. -/
structure Site.InStep (site site' : Site) (d d' : Nat) (s s' : Store) : Prop where
  store : site.HasStore d s
  store' : site'.HasStore d' s'
  quiet : s.Quiet
  quiet' : s'.Quiet
  schema : s.schema = s'.schema
  committed : s.committed = s'.committed
  clock : site.clock = site'.clock
  idle : site.outbox = []
  idle' : site'.outbox = []

/-- A replica that is in step with the server stays so through every mutation that the server
accepts. -/
theorem replica_keeps_up {models : List Model} (hm : ∀ m ∈ models, m.Planned) (timeout : Nat)
    (server : Server) {caller : Mutators} (hserver : caller.environment = .server) (client : Client)
    {current : ClientInstance} (hcurrent : client.require = .ok current)
    (hid : caller.identity = current.identity) {site site' : Site} {s s' : Store}
    (hstep : site.InStep site' server.database current.database s s') (p : PushMutation) :
    ∃ r r' b b', Background.runOne ⟨(Models.ofList models).mutators, timeout⟩
        (server.pushOne caller p) (.holding site []) = (some (.ok (p.reported r)), b) ∧
      Background.runOne ⟨(Models.ofList models).mutators, timeout⟩ (client.mutate p.name p.args)
        (.holding site' []) = (some r', b') ∧
      (r = .ok () → r' = .ok () ∧ ∃ t t', b.site.HasStore server.database t ∧
        b'.site.HasStore current.database t' ∧ t.committed = t'.committed) := by
  have hpush : server.pushOne caller p = caller.callAlone server.database p.name p.args
      fun tx r => (Server.settle tx r).bind fun o => .done (.ok ⟨p.id, p.clientId, o⟩) := rfl
  have hmutate : client.mutate p.name p.args =
      (client.mutators current).callAlone current.database p.name p.args fun tx r => match r with
        | .ok () => .request (.commit tx)
        | .error e => (Program.request (.rollback tx)).andThen fun _ => .fail e := by
    simp only [Client.mutate, Program.ofOutcome, hcurrent]
    rfl
  rw [hpush, hmutate]
  generalize happ : (⟨(Models.ofList models).mutators, timeout⟩ : Application) = app
  by_cases hfails : app.mutators.get? p.name = none ∨ app.timeout = 0
  · obtain ⟨e, b, hb⟩ := callAlone_fails (pushOne_settles p) hstep.store hstep.quiet hfails
    obtain ⟨e', b', hb'⟩ := callAlone_fails mutate_settles hstep.store' hstep.quiet' hfails
    exact ⟨.error e, _, b, b', hb, hb', fun h => by simp at h⟩
  obtain ⟨hknown, htimeout⟩ := not_or.1 hfails
  obtain ⟨body, hget⟩ := Option.ne_none_iff_exists'.1 hknown
  have hbody : body.Predictable := Models.mutator_predictable hm (happ ▸ hget)
  have hmirror : (caller.invocation ⟨server.database, s.issued⟩).Mirrors
      ((client.mutators current).invocation ⟨current.database, s'.issued⟩) := ⟨hserver, rfl, hid⟩
  have hopen : (site.withStore server.database s.entered).Offers ⟨server.database, s.issued⟩
      s.schema s.committed := ⟨_, hstep.store.withStore _, rfl, s.entered_held⟩
  have hopen' : (site'.withStore current.database s'.entered).Offers ⟨current.database, s'.issued⟩
      s'.schema s'.committed := ⟨_, hstep.store'.withStore _, rfl, s'.entered_held⟩
  rw [← hstep.schema, ← hstep.committed] at hopen'
  obtain ⟨r, r', u, u', V, V', hadv, hadv', hu, hu', hends⟩ :=
    hbody.advance hmirror app p.args hopen hopen' hstep.clock
  obtain ⟨b, hb, t, ht, hcommitted⟩ := callAlone_of_body (pushOne_settles p) hstep.store hstep.quiet
    hget htimeout hstep.idle hadv (hu.trans hstep.idle) hends.left
  obtain ⟨b', hb', t', ht', hcommitted'⟩ := callAlone_of_body mutate_settles hstep.store'
    hstep.quiet' hget htimeout hstep.idle' hadv' (hu'.trans hstep.idle') (hstep.schema ▸ hends.right)
  refine ⟨r, _, b, b', hb, hb', fun hr => ?_⟩
  obtain ⟨hr', rfl⟩ := hends.predicts hr
  exact ⟨hr', t, t', ht, ht', (hcommitted hr).trans (hcommitted' hr').symm⟩

end RowGuard
