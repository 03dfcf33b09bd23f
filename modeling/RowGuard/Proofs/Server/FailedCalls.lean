import RowGuard.Client.Basic
import RowGuard.Proofs.Schedule.Brackets
import RowGuard.Proofs.Schedule.Refinement
import RowGuard.Proofs.Server.TrustedCode

/-! # Calls that fail

A transaction on the server and a mutation on a replica write nothing if they fail, and what their
code has written if they succeed.  Trusted code that mutates commits before it does its deferred
work: when some of that work fails, the call fails although its writes are committed.
-/
namespace RowGuard

/-- One call is about to begin beside tasks that settle no transaction of the database `d`, which has
`T` as its committed tables. -/
structure Scene.Begins {γ : Type} (c : Scene γ) (p : Program γ) (d : Nat) (T : Tables) : Prop where
  main : ∃ post, c.mains = [⟨post, .running p⟩]
  store : ∃ s, c.Beside d s ∧ s.Steady ∧ s.committed = T

section Calls
variable {app : Application} {d : Nat} {T : Tables}

/-- A call that brackets code and has come to a result. -/
theorem Program.Brackets.result {ι α β : Type} {f : ι → TxRef → Outcome α → Program (Outcome β)}
    {rest : ι → α → Program (Outcome β)} {p : Program (Outcome β)} (hp : p.Brackets d f)
    (hf : ∀ b tx, tx.database = d → Concludes d tx (f b tx) (rest b)) (ha : app.LeavesOpen d)
    {c₀ c : Scene (Outcome β)} (h₀ : c₀.Begins p d T) (hs : Scene.Steps app c₀ c) {r : Outcome β}
    (hr : c.results? = some [r]) : (∃ e, r = .error e ∧ c.Committed d T) ∨
      ∃ b tx v W c₁ c₂ post₂, Scene.Carried app c₀ c₁ c d tx (f b tx (.ok v)) W ∧
        Scene.Steps app c₁ c₂ ∧ c₂.mains = [⟨post₂, .running (rest b v)⟩] ∧
        Scene.Steps app c₂ c := by
  obtain ⟨⟨post, hm⟩, s, hb, hsteady, hT⟩ := h₀
  have hbegin : Bracketing d f rest app c₀ T c₀ := .entering hm hp hb hsteady hT
  exact (hbegin.run hf ha hs).result hf hr

/-- A call whose result is that of its code fails and writes nothing, or succeeds and commits. -/
theorem Program.Brackets.all_or_nothing {ι α : Type}
    {f : ι → TxRef → Outcome α → Program (Outcome α)} {p : Program (Outcome α)}
    (hp : p.Brackets d f)
    (hf : ∀ b tx, tx.database = d → Concludes d tx (f b tx) fun v => .done (.ok v))
    (ha : app.LeavesOpen d) {c₀ c : Scene (Outcome α)} (h₀ : c₀.Begins p d T)
    (hs : Scene.Steps app c₀ c) {r : Outcome α} (hr : c.results? = some [r]) :
    (∀ e, r = .error e → c.Committed d T) ∧
      ∀ v, r = .ok v → ∃ b tx W c₁, Scene.Carried app c₀ c₁ c d tx (f b tx (.ok v)) W := by
  rcases hp.result hf ha h₀ hs hr with ⟨e, rfl, hT⟩ | ⟨b, tx, v, W, c₁, c₂, post₂, hc, -, hm, h⟩
  · exact ⟨fun _ _ => hT, nofun⟩
  · obtain rfl : r = .ok v := h.done_result hm hr
    refine ⟨nofun, fun v' hv => ?_⟩
    cases hv
    exact ⟨b, tx, W, c₁, hc⟩

end Calls

namespace Server

/-- What is left of a transaction of its own when the code has come to an end. -/
def transactionAfter {α : Type} (tx : TxRef) : Outcome α → Program (Outcome α)
  | .ok x => .ask (.commit tx) fun y => .done (y.map fun _ => x)
  | .error e => .ask (.rollback tx) fun _ => .done (.error e)

theorem transactionAfter_concludes {α : Type} (d : Nat) (tx : TxRef) :
    Concludes d tx (transactionAfter (α := α) tx) fun v => .done (.ok v) where
  ok _ := ⟨_, rfl, rfl⟩
  error _ := ⟨_, rfl, rfl⟩
  rest _ := .done _

theorem transaction_brackets {α : Type} {d : Nat} (s : Server) {a : Ambient}
    {code : TxRef → Program (Outcome α)} (hd : s.database = d) (ha : a.tx = none)
    (hc : ∀ tx, (code tx).LeavesOpen d) :
    (s.transaction a code).Brackets d fun (_ : Unit) tx => transactionAfter tx := by
  subst hd
  simp only [transaction, ha]
  refine .begin () hc fun tx => ?_
  show (code tx).bind _ = (code tx).bind _
  refine congrArg _ (funext fun r => ?_)
  cases r <;> rfl

/-- Deferred work comes to a success exactly if none of it fails. -/
theorem deferredOutcome_eq_ok_iff (work : List Deferred) :
    deferredOutcome work = .ok () ↔ ∀ w ∈ work, w.fails = false := by
  have hnone : deferredOutcome work = .ok () ↔ work.filterMap Deferred.failure? = [] := by
    unfold deferredOutcome
    split <;> simp_all
  rw [hnone, List.filterMap_eq_nil_iff]
  simp [Deferred.failure?]

theorem mutateAfter_concludes {d : Nat} {a : Ambient} (ha : a.tx = none) (bag : Nat) (tx : TxRef) :
    Concludes d tx (mutateAfter a bag tx) fun _ => mutateEnd a bag where
  ok v := by
    simp only [mutateAfter, ha]
    exact ⟨_, rfl, rfl⟩
  error e := by
    simp only [mutateAfter, ha]
    exact ⟨_, rfl, rfl⟩
  rest _ := .ask rfl fun _ => .ask rfl fun _ => .done _

theorem mutate_brackets {d : Nat} (s : Server) {a : Ambient} (identity : Option Identity)
    {code : TxRef → Mutators → Program (Outcome Unit)} (hd : s.database = d) (ha : a.tx = none)
    (hc : ∀ tx m, (code tx m).LeavesOpen d) :
    (s.mutate a identity code).Brackets d (mutateAfter a) := by
  subst hd
  rw [mutate_eq]
  refine .ask rfl fun bag => ?_
  rw [mutators_bind]
  refine .ask rfl fun actions => ?_
  rw [mutateFrom_outside s a code ha]
  exact .begin bag (fun tx => hc tx _) fun tx => rfl

/-- The end of trusted code comes to what was in its bag. -/
theorem mutateEnd_result {app : Application} {c c' : Scene (Outcome Unit)} {post : Post} {a : Ambient}
    {bag : Nat} (hs : Scene.Steps app c c') (hm : c.mains = [⟨post, .running (mutateEnd a bag)⟩])
    {r : Outcome Unit} (hr : c'.results? = some [r]) : ∃ c₁, Scene.Steps app c c₁ ∧
      c₁.mains = [⟨post, .running (mutateEnd a bag)⟩] ∧ Scene.Steps app c₁ c' ∧
      r = deferredOutcome (c₁.site.bag bag) := by
  obtain ⟨c₁, c₂, post₂, h₁, hm₁, hstep, hm₂, h₂⟩ := Scene.Steps.ask_result hs hm hr
  obtain ⟨c₃, c₄, post₄, -, -, -, hm₄, h₄⟩ := Scene.Steps.ask_result h₂ hm₂ hr
  exact ⟨c₁, h₁, hm₁, h₂.head hstep, h₄.done_result hm₄ hr⟩

end Server

namespace Client

/-- What is left of a mutation of a replica when its mutator has come to an end. -/
def mutateAfter (tx : TxRef) : Outcome Unit → Program (Outcome Unit)
  | .ok () => .request (.commit tx)
  | .error e => (Program.request (.rollback tx)).andThen fun _ => .fail e

theorem mutateAfter_concludes (d : Nat) (tx : TxRef) :
    Concludes d tx (mutateAfter tx) fun v => .done (.ok v) where
  ok _ := ⟨_, rfl, rfl⟩
  error _ := ⟨_, rfl, rfl⟩
  rest _ := .done _

theorem mutate_brackets {d : Nat} (c : Client) (name : String) (args : Json)
    (hd : ∀ current, c.current = some current → current.database = d) :
    (c.mutate name args).Brackets d fun (_ : Unit) tx => mutateAfter tx := by
  unfold mutate require Installation.requireInstance
  cases hc : c.current with
  | none =>
    simp only [hc, Option.bind_some]
    exact .failed _
  | some current =>
    obtain rfl := hd current hc
    simp only [hc, Option.bind_some]
    have hcall : ∀ tx, ((c.mutators current).call tx name args).LeavesOpen current.database :=
      fun tx => .call _ .done
    refine .begin () hcall fun tx => ?_
    show ((c.mutators current).call tx name args).bind _ = _
    refine congrArg _ (funext fun r => ?_)
    cases r <;> rfl

end Client

/-- A transaction on the server and a mutation on a replica write nothing if they fail, and if they
succeed they commit the working tables that their code has left.  Trusted code that mutates fails and
writes nothing, or it commits the working tables that it has left and comes to its deferred work,
which succeeds exactly if none of it fails. -/
theorem calls_commit_code_or_nothing {app : Application} {d : Nat} (ha : app.LeavesOpen d)
    (T : Tables) :
    (∀ (α : Type) (s : Server) (a : Ambient) (code : TxRef → Program (Outcome α))
      (c₀ c : Scene (Outcome α)) (r : Outcome α), s.database = d → a.tx = none →
      (∀ tx, (code tx).LeavesOpen d) → c₀.Begins (s.transaction a code) d T →
      Scene.Steps app c₀ c → c.results? = some [r] →
      (∀ e, r = .error e → c.Committed d T) ∧ ∀ v, r = .ok v → ∃ tx W c₁,
        Scene.Carried app c₀ c₁ c d tx (Server.transactionAfter tx (.ok v)) W) ∧
    (∀ (client : Client) (name : String) (args : Json) (c₀ c : Scene (Outcome Unit))
      (r : Outcome Unit), (∀ current, client.current = some current → current.database = d) →
      c₀.Begins (client.mutate name args) d T → Scene.Steps app c₀ c → c.results? = some [r] →
      (∀ e, r = .error e → c.Committed d T) ∧ (r = .ok () → ∃ tx W c₁,
        Scene.Carried app c₀ c₁ c d tx (Client.mutateAfter tx (.ok ())) W)) ∧
    ∀ (s : Server) (a : Ambient) (identity : Option Identity)
      (code : TxRef → Mutators → Program (Outcome Unit)) (c₀ c : Scene (Outcome Unit))
      (r : Outcome Unit), s.database = d → a.tx = none → (∀ tx m, (code tx m).LeavesOpen d) →
      c₀.Begins (s.mutate a identity code) d T → Scene.Steps app c₀ c → c.results? = some [r] →
      (∃ e, r = .error e ∧ c.Committed d T) ∨ ∃ bag tx W c₁ c₂ post,
        Scene.Carried app c₀ c₁ c d tx (Server.mutateAfter a bag tx (.ok ())) W ∧
        Scene.Steps app c₁ c₂ ∧ c₂.mains = [⟨post, .running (Server.mutateEnd a bag)⟩] ∧
        Scene.Steps app c₂ c ∧ r = Server.deferredOutcome (c₂.site.bag bag) ∧
        (r = .ok () ↔ ∀ w ∈ c₂.site.bag bag, w.fails = false) := by
  refine ⟨?_, ?_, ?_⟩
  · intro α s a code c₀ c r hd htx hc h₀ hs hr
    have hp := s.transaction_brackets hd htx hc
    obtain ⟨herror, hok⟩ := hp.all_or_nothing (fun _ tx _ => Server.transactionAfter_concludes d tx)
      ha h₀ hs hr
    refine ⟨herror, fun v hv => ?_⟩
    obtain ⟨-, tx, W, c₁, hcarried⟩ := hok v hv
    exact ⟨tx, W, c₁, hcarried⟩
  · intro client name args c₀ c r hd h₀ hs hr
    have hp := client.mutate_brackets name args hd
    obtain ⟨herror, hok⟩ := hp.all_or_nothing (fun _ tx _ => Client.mutateAfter_concludes d tx)
      ha h₀ hs hr
    refine ⟨herror, fun hv => ?_⟩
    obtain ⟨-, tx, W, c₁, hcarried⟩ := hok () hv
    exact ⟨tx, W, c₁, hcarried⟩
  · intro s a identity code c₀ c r hd htx hc h₀ hs hr
    have hp := s.mutate_brackets identity hd htx hc
    rcases hp.result (fun bag tx _ => Server.mutateAfter_concludes htx bag tx) ha h₀ hs hr with
      hfailed | ⟨bag, tx, ⟨⟩, W, c₁, c₂, post, hcarried, h₂, hm₂, h⟩
    · exact .inl hfailed
    · -- Between the commit and the end tasks may still queue work.
      obtain ⟨c₃, h₃, hm₃, hend, rfl⟩ := Server.mutateEnd_result h hm₂ hr
      exact .inr ⟨bag, tx, W, c₁, c₃, post, hcarried, h₂.trans h₃, hm₃, hend, rfl,
        Server.deferredOutcome_eq_ok_iff _⟩

/-! A transaction, trusted code and a mutation on a replica, each over a table of notes that is empty
before. -/
namespace Notices

def schema : Schema := Schema.empty.addTable ⟨"note", [⟨"id", .string, false, none⟩], ["id"]⟩

def site : Site := .new 0 [.direct (.new schema)]

def server : Server := ⟨0, ⟨.server, schema, false⟩, .empty, none, none⟩

def client : Client :=
  ⟨⟨.client, schema, true⟩, .empty, ⟨schema, .empty⟩, some ⟨none, 0, .complete, false⟩, .new 0⟩

def write (tx : TxRef) : Program (Outcome Unit) :=
  .request (.mutate tx "note" .insert (.ofList [("id", .str "n1")]))

/-- Write a note, and ask for a mail that cannot be sent. -/
def send : Body := fun i _ => (write i.tx).andThen fun _ =>
  match i.server with
  | some part => .ask (.defer part.bag ⟨"mail-n1", true⟩) fun _ => .done (.ok ())
  | none => .fail .notInMutator

def app : Application :=
  ⟨(Models.ofList [(Model.plain "mail").mutation "send" send]).mutators, 1000⟩

def writing : Program (Outcome Unit) := server.transaction .none write

def predicting : Program (Outcome Unit) := client.mutate "mail.send" .null

def sending : Program (Outcome Unit) :=
  server.mutate .none none fun tx m => m.call tx "mail.send" .null

/-- The failure of trusted code whose mail cannot be sent. -/
def unsent : Failure := .mutation "async tasks failed: task mail-n1 failed"

theorem write_leavesOpen (tx : TxRef) : (write tx).LeavesOpen 0 := .ask rfl .done

theorem send_leavesOpen (i : Invocation) (args : Json) : (send i args).LeavesOpen 0 := by
  refine (write_leavesOpen i.tx).andThen fun _ => ?_
  cases i.server with
  | some part => exact .ask rfl fun _ => .done _
  | none => exact .done _

theorem app_leavesOpen : app.LeavesOpen 0 := by
  refine Models.leavesOpen (fun m hm name b hb => ?_) 1000
  obtain rfl := List.mem_singleton.1 hm
  obtain ⟨-, rfl⟩ : "send" = name ∧ send = b := by
    simpa [Model.plain, Model.mutation, Dict.get?_insert] using hb
  exact send_leavesOpen

theorem begins (p : Program (Outcome Unit)) :
    (Scene.start site [⟨.outside, .running p⟩]).Begins p 0 .empty where
  main := ⟨.outside, rfl⟩
  store := ⟨.new schema, ⟨rfl, fun _ h => nomatch h⟩, .inl (Store.quiet_new schema), rfl⟩

/-- The machine makes one of the runs of a program. -/
theorem exists_run {p : Program (Outcome Unit)} {r : Outcome Unit}
    (hrun : ((Background.idle site).runAll app [(.outside, p)]).1 = some [r]) :
    ∃ c, Scene.Steps app (.start site [⟨.outside, .running p⟩]) c ∧ c.results? = some [r] ∧
      c.site = ((Background.idle site).runAll app [(.outside, p)]).2.site :=
  Background.runAll_steps rfl (Prod.ext hrun rfl)

/-- The mail of the trusted code cannot be sent, and its note is committed. -/
theorem run_sending : ∃ c, Scene.Steps app (.start site [⟨.outside, .running sending⟩]) c ∧
    c.results? = some [.error unsent] ∧ ¬ c.Committed 0 .empty := by
  obtain ⟨c, hsteps, hres, hsite⟩ := exists_run (p := sending) (r := .error unsent)
    (by decide +kernel)
  have hnote : (c.site.databases[0]?.map fun db => (db.store.committed.rows "note").length) =
      some 1 := by
    rw [hsite]
    decide +kernel
  refine ⟨c, hsteps, hres, ?_⟩
  rintro ⟨s, hs, hT⟩
  have he : c.site.databases[0]? = some (.direct s) := hs
  simp [he, Database.direct, hT, Tables.rows_empty] at hnote

end Notices

open Notices in
theorem calls_commit_code_or_nothing_of_notices :
    (∃ c tx W c₁, c.results? = some [.ok ()] ∧
      Scene.Carried app (.start site [⟨.outside, .running writing⟩]) c₁ c 0 tx
        (Server.transactionAfter tx (.ok ())) W) ∧
    (∃ c, Scene.Steps app (.start site [⟨.outside, .running predicting⟩]) c ∧
      c.results? = some [.error .notInMutator] ∧ c.Committed 0 .empty) ∧
    ∃ c bag tx W c₁, c.results? = some [.error unsent] ∧
      Scene.Carried app (.start site [⟨.outside, .running sending⟩]) c₁ c 0 tx
        (Server.mutateAfter .none bag tx (.ok ())) W := by
  obtain ⟨hwriting, hpredicting, hsending⟩ := calls_commit_code_or_nothing app_leavesOpen .empty
  refine ⟨?_, ?_, ?_⟩
  · obtain ⟨c, hsteps, hres, -⟩ := exists_run (p := writing) (r := .ok ()) (by decide +kernel)
    obtain ⟨-, hok⟩ := hwriting Unit server .none write _ c _ rfl rfl write_leavesOpen
      (begins writing) hsteps hres
    obtain ⟨tx, W, c₁, hcarried⟩ := hok () rfl
    exact ⟨c, tx, W, c₁, hres, hcarried⟩
  · obtain ⟨c, hsteps, hres, -⟩ := exists_run (p := predicting) (r := .error .notInMutator)
      (by decide +kernel)
    obtain ⟨herror, -⟩ := hpredicting client "mail.send" .null _ c _
      (fun current h => by cases h; rfl) (begins predicting) hsteps hres
    exact ⟨c, hsteps, hres, herror _ rfl⟩
  · obtain ⟨c, hsteps, hres, hnot⟩ := run_sending
    rcases hsending server .none none _ _ c _ rfl rfl (fun tx m => .call _ .done)
      (begins sending) hsteps hres with
      ⟨e, -, hT⟩ | ⟨bag, tx, W, c₁, -, -, hcarried, -⟩
    · exact absurd hT hnot
    · exact ⟨c, bag, tx, W, c₁, hres, hcarried⟩

open Notices in
/-- Trusted code fails with its deferred work, although what it has written is committed. -/
theorem note_kept_after_failure : ∃ c e,
    Scene.Steps app (.start site [⟨.outside, .running sending⟩]) c ∧ c.results? = some [.error e] ∧
    (Scene.start site [⟨.outside, .running sending⟩]).Committed 0 .empty ∧
    ¬ c.Committed 0 .empty := by
  obtain ⟨c, hsteps, hres, hnot⟩ := run_sending
  exact ⟨c, unsent, hsteps, hres, ⟨.new schema, rfl, rfl⟩, hnot⟩

end RowGuard
