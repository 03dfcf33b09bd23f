import RowGuard.Schedule.Machine

/-! # A single call on the machine

A program that comes to one call of a mutator, on a machine where nothing else goes on.
-/
namespace RowGuard

theorem Application.program_of_get? {app : Application} {c : Call} {body : Body}
    (h : app.mutators.get? c.name = some body) : app.program c = body c.invocation c.args := by
  simp only [program, h]

namespace Program
variable {α : Type} {app : Application} {c : Call}

/-- A call of a mutator stops the program, if it may take time. -/
theorem advance_call {body : Body} (hget : app.mutators.get? c.name = some body)
    (htimeout : app.timeout ≠ 0) (next : Outcome Unit → Program α) (queues : List Nat) (t : Turn) :
    (Program.call c next).advance app queues t = (.calling c next, t) := by
  have hc : app.mutators.contains c.name = true := by simp [Dict.contains, hget]
  obtain ⟨timeout, ht⟩ := Nat.exists_eq_succ_of_ne_zero htimeout
  simp only [advance, hc, ↓reduceIte, ht]

/-- A call that names no mutator, or that may take no time, fails at once. -/
theorem advance_call_of_futile (h : app.mutators.get? c.name = none ∨ app.timeout = 0)
    (next : Outcome Unit → Program α) (queues : List Nat) {t : Turn} (hcredit : t.credit ≠ 0) :
    ∃ e u, (Program.call c next).advance app queues t = (next (.error e)).advance app queues u ∧
      u.site.databases = t.site.databases := by
  obtain ⟨credit, post, site⟩ := t
  obtain ⟨credit, rfl⟩ := Nat.exists_eq_succ_of_ne_zero hcredit
  by_cases hc : app.mutators.contains c.name = true
  · have ht : app.timeout = 0 := h.resolve_left fun hn => by simp [Dict.contains, hn] at hc
    simp only [advance, hc, ↓reduceIte, ht]
    exact ⟨_, _, rfl, rfl⟩
  · simp only [advance, hc, Bool.false_eq_true, ↓reduceIte]
    exact ⟨_, _, rfl, rfl⟩

end Program

namespace Background
variable {α : Type} {app : Application} {site : Site}

/-- A site where nothing runs, with handles that are held outside. -/
def holding (site : Site) (txs : List TxRef) : Background := { idle site with pinned := txs }

/-- The handles that nobody holds once all programs are finished. -/
def strays (site : Site) (txs : List TxRef) : List TxRef :=
  (openHandles site).filter fun tx => !txs.contains tx

theorem startJobs_of_empty {b : Background} (h : b.site.outbox = []) : b.startJobs app = b := by
  unfold startJobs
  rw [h, List.foldl_nil, ← h]

theorem startJobs_queue (app : Application) (b : Background) : (b.startJobs app).queue = b.queue := by
  have hall : ∀ (jobs : List Job) (b : Background),
      (jobs.foldl (startJob app) b).queue = b.queue := by
    intro jobs
    induction jobs with
    | nil => exact fun _ => rfl
    | cons job jobs ih =>
      intro b
      rw [List.foldl_cons, ih]
      cases job <;> rfl
  exact hall _ _

section Turns
variable {b b' : Background} {owner : Owner} {credit toll : Nat} {post post' : Post} {p : Program α}
  {t : Turn} {a : α}

theorem proceed_of_ready (h : toll ≤ credit) : b.proceed app owner credit post (.ready toll p) =
    b.take app owner (credit - toll) post p := by
  simp only [proceed, if_neg (Nat.not_lt.2 h)]

theorem take_of_finished
    (h : p.advance app b.queues ⟨credit, post, b.site⟩ = (.finished a, t)) :
    b.take app owner credit post p =
      (.finished a, t.credit, t.post, ({ b with site := t.site }).startJobs app) := by
  simp only [take, h, arrange]

/-- A program that calls a mutator waits for the task that runs it, and for the timeout. -/
theorem take_of_calling {c : Call} {next : Outcome Unit → Program α}
    (h : p.advance app b.queues ⟨credit, post, b.site⟩ = (.calling c next, t))
    (hcredit : t.credit ≠ 0) (hbox : t.site.outbox = []) :
    b.take app owner credit post p =
      (.awaiting b.started (some (app.overrun c.name)) next, t.credit, t.post,
        (({ b with site := t.site }).spawnCall app c).2.setTimer owner app.timeout) := by
  have hjobs := @startJobs_of_empty app { b with site := t.site } hbox
  simp only [take, h, hjobs, arrange, spawnCall, spawn, join, if_neg hcredit, waitFor,
    Option.isSome_some, ↓reduceIte]

theorem grant_of_no_queue {m : Machine α} (h : m.queue = []) : m.grant = m := by
  unfold Machine.grant
  rw [h, List.foldl_nil, ← h]

theorem runTask_of_proceed {m : Machine α} {id : Nat} {task : Task} {state : Thread (Outcome Unit)}
    (hfind : m.tasks.find? (·.id = id) = some task)
    (h : m.toBackground.proceed app (.task id) Turn.fullCredit task.post task.state =
      (state, credit, post, b)) :
    m.runTask app id = ((m.withBackground b).stopTask id post state).grant := by
  simp only [Machine.runTask, hfind, h]

theorem runMains_single {state state' : Thread α}
    (h : b.proceed app (.main 0) Turn.fullCredit post state = (state', credit, post', b'))
    (hq : b'.queue = []) :
    (⟨b, [⟨post, state⟩]⟩ : Machine α).runMains app = ⟨b', [⟨post', state'⟩]⟩ := by
  simp only [Machine.runMains, Machine.runMain, List.length_singleton, List.range_one,
    List.foldl_cons, List.foldl_nil, List.getElem?_cons_zero, h, Machine.withBackground]
  exact grant_of_no_queue hq

end Turns

/-- A program waits for the call of a mutator, which runs as the only task. -/
def calling (app : Application) (c : Call) (next : Outcome Unit → Program α) (post : Post)
    (site : Site) (txs : List TxRef) : Machine α :=
  ⟨((holding site txs).spawnCall app c).2.setTimer (.main 0) app.timeout,
    [⟨post, .awaiting 0 (some (app.overrun c.name)) next⟩]⟩

/-- The task has come to its end, and the program has its result. -/
def answered (r : Outcome Unit) (next : Outcome Unit → Program α) (post : Post) (site : Site)
    (txs : List TxRef) : Machine α :=
  ⟨{ holding site txs with started := 1 }, [⟨post, .ready 1 (next r)⟩]⟩

/-- The program has come to its end, and no task is left. -/
def ended (t : Turn) (a : α) (txs : List TxRef) : Machine α :=
  ⟨{ holding t.site txs with started := 1 }, [⟨t.post, .finished a⟩]⟩

theorem runMains_calling {p : Program α} {c : Call} {next : Outcome Unit → Program α} {t : Turn}
    (txs : List TxRef)
    (h : p.advance app [] ⟨Turn.fullCredit, .outside, site⟩ = (.calling c next, t))
    (hcredit : t.credit ≠ 0) (hbox : t.site.outbox = []) :
    (⟨holding site txs, [⟨.outside, .ready 0 p⟩]⟩ : Machine α).runMains app =
      calling app c next t.post t.site txs :=
  runMains_single ((proceed_of_ready (Nat.zero_le _)).trans (take_of_calling h hcredit hbox)) rfl

/-- The result of the only task goes to the program that waits for it. -/
theorem stopTask_calling {c : Call} {r : Outcome Unit} (next : Outcome Unit → Program α)
    (post post' : Post) (site' : Site) (txs : List TxRef) :
    Machine.stopTask { calling app c next post site txs with ready := [], site := site' } 0 post'
      (.finished r) = answered r next post site' txs := by
  have htask : (calling app c next post site txs).tasks.filter (·.id ≠ 0) = [] := rfl
  have horphans : (calling app c next post site txs).orphans = [] := rfl
  simp only [Machine.stopTask, htask, Machine.withBackground, sweep, horphans, List.filter_nil,
    List.foldl_nil]
  rfl

/-- The task runs in one turn and hands its result over. -/
theorem runBatch_calling {c : Call} {r : Outcome Unit} {t : Turn} (next : Outcome Unit → Program α)
    (post : Post) (txs : List TxRef)
    (h : (app.program c).advance app [] ⟨Turn.fullCredit, .ofInvocation c.invocation, site⟩ =
      (.finished r, t)) (hbox : t.site.outbox = []) :
    (calling app c next post site txs).runBatch app = answered r next post t.site txs := by
  have htake : ({ (calling app c next post site txs).toBackground with ready := [] }).take app
      (.task 0) Turn.fullCredit (.ofInvocation c.invocation) (app.program c) = _ := take_of_finished h
  rw [startJobs_of_empty hbox] at htake
  have hrun : ({ calling app c next post site txs with ready := [] } : Machine α).runTask app 0 =
      answered r next post t.site txs := by
    refine (runTask_of_proceed rfl ((proceed_of_ready (Nat.zero_le _)).trans htake)).trans ?_
    refine (congrArg Machine.grant (stopTask_calling next post t.post t.site txs)).trans ?_
    exact grant_of_no_queue rfl
  have hready : (calling app c next post site txs).ready = [0] := rfl
  have hidle : (answered r next post t.site txs).ready = [] := rfl
  have hdrain : (calling app c next post site txs).drain app Machine.batchSize =
      answered r next post t.site txs := by
    simp only [Machine.batchSize, Machine.drain, hready, hrun, hidle]
  simp only [Machine.runBatch, hdrain]
  rfl

theorem runMains_answered {r : Outcome Unit} {next : Outcome Unit → Program α} {post : Post} {a : α}
    {t : Turn} (txs : List TxRef)
    (h : (next r).advance app [] ⟨Turn.fullCredit - 1, post, site⟩ = (.finished a, t))
    (hbox : t.site.outbox = []) :
    (answered r next post site txs).runMains app = ended t a txs := by
  have htake : (({ holding site txs with started := 1 } : Background).take app (.main 0)
      (Turn.fullCredit - 1) post (next r)) = _ := take_of_finished h
  rw [startJobs_of_empty hbox] at htake
  exact runMains_single ((proceed_of_ready (by decide)).trans htake) rfl

theorem settle_of_calm {b : Background} (hq : b.queue = []) (hr : b.ready = []) :
    b.settle app = b := by
  have hturns : turns = 999999 + 1 := rfl
  have hgrant : (⟨b, []⟩ : Machine Unit).grant = ⟨b, []⟩ := grant_of_no_queue hq
  simp only [settle, hgrant, hturns, Machine.calm, hr, List.isEmpty_nil, ↓reduceIte]

theorem run_of_results {m : Machine α} {rs : List α} (limit fuel : Nat)
    (h : (m.runMains app).results? = some rs) :
    m.run app limit (fuel + 1) = (some rs, (m.runMains app).leave) := by
  simp only [Machine.run, h]

theorem run_of_busy {m : Machine α} {limit : Nat} (fuel : Nat)
    (h : (m.runMains app).results? = none) (hl : ¬ limit ≤ (m.runMains app).now)
    (hb : ((m.runMains app).runBatch app).isBusy = true) :
    m.run app limit (fuel + 1) = ((m.runMains app).runBatch app).run app limit fuel := by
  simp only [Machine.run, h, if_neg hl, hb, ↓reduceIte]

/-- Whatever it has started, a program that comes to its end in its first turn has its result. -/
theorem runOne_of_finished {p : Program α} {a : α} {t : Turn} (txs : List TxRef)
    (h : p.advance app [] ⟨Turn.fullCredit, .outside, site⟩ = (.finished a, t)) :
    ∃ b, runOne app p (holding site txs) = (some a, b) := by
  have hproceed :
      (holding site txs).proceed app (.main 0) Turn.fullCredit .outside (.ready 0 p) = _ :=
    (proceed_of_ready (Nat.zero_le _)).trans (take_of_finished h)
  have hmains := runMains_single hproceed (startJobs_queue app _)
  have hresults : ((⟨holding site txs, [⟨.outside, .ready 0 p⟩]⟩ : Machine α).runMains app).results? =
      some [a] := by
    rw [hmains]
    rfl
  have hturns : turns = 999999 + 1 := rfl
  unfold runOne runAll
  simp only [List.map_cons, List.map_nil, hturns, run_of_results _ _ hresults]
  exact ⟨_, rfl⟩

/-- A program that makes one call, on a machine of its own: the mutator runs in one turn, and the
program then comes to its end.  Handles that are not held outside are dropped. -/
theorem runOne_of_call {p : Program α} {c : Call} {next : Outcome Unit → Program α} {r : Outcome Unit}
    {a : α} {t u v : Turn} (txs : List TxRef)
    (hcall : p.advance app [] ⟨Turn.fullCredit, .outside, site⟩ = (.calling c next, t))
    (hcredit : t.credit ≠ 0) (ht : t.site.outbox = [])
    (hbody : (app.program c).advance app [] ⟨Turn.fullCredit, .ofInvocation c.invocation, t.site⟩ =
      (.finished r, u)) (hu : u.site.outbox = [])
    (hnext : (next r).advance app [] ⟨Turn.fullCredit - 1, t.post, u.site⟩ = (.finished a, v))
    (hv : v.site.outbox = []) :
    ∃ b, runOne app p (holding site txs) = (some a, b) ∧
      b.site = (strays v.site txs).foldl Site.drop v.site := by
  have hfirst := runMains_calling txs hcall hcredit ht
  have hbatch := runBatch_calling next t.post txs hbody hu
  have hlast := runMains_answered txs hnext hv
  have hwait : (calling app c next t.post t.site txs).results? = none := by
    simp [calling, Machine.results?, Thread.result?]
  have hrun : (⟨holding site txs, [⟨.outside, .ready 0 p⟩]⟩ : Machine α).run app
      ((holding site txs).now + patience) turns = (some [a], (ended v a txs).leave) := by
    have hturns : turns = 999998 + 1 + 1 := rfl
    rw [hturns, run_of_busy, hfirst, hbatch, run_of_results, hlast]
    · rw [hlast]
      rfl
    · rw [hfirst]
      exact hwait
    · rw [hfirst]
      simp [holding, idle, calling, patience, spawnCall, spawn, setTimer]
    · rw [hfirst, hbatch]
      simp [answered, Machine.isBusy, Thread.isReady]
  have hcalm : (ended v a txs).leave.settle app = (ended v a txs).leave :=
    settle_of_calm (by simp [ended, Machine.leave, sweep, holding, idle]) rfl
  unfold runOne runAll
  simp only [List.map_cons, List.map_nil, hrun, hcalm]
  refine ⟨_, rfl, ?_⟩
  simp [ended, Machine.leave, sweep, holds, holding, idle, strays]

end Background
end RowGuard
