import RowGuard.Schedule.Segment

/-! # The machine

Programs run on one thread and hand over only where they have to wait or their credit is used up.
The main programs, of which there is one unless several requests are served at once, are looked
after first and in order, on one credit; then the background tasks run in the order in which they
became ready, each on a credit of its own.  After a batch of tasks it is the main programs' turn
again, and the tasks that have paused queue up.  When nothing can proceed, time jumps to the next
timer.  Timers of one moment go off in the order in which they were set.

A call of a mutator runs as a task of its own.  Its caller waits for the task or for the timeout,
whichever comes first; a task that nobody waits for any more keeps running.
-/
namespace RowGuard

/-- How running code stands. -/
inductive Thread (α : Type) where
  /-- Able to proceed; the toll is what that costs if the code has been waiting. -/
  | ready (toll : Nat) (p : Program α)
  | asleep (p : Program α)
  | hung
  | atLock (next : Outcome TxRef → Program α)
  /-- Waiting for a task, with the failure that a timer stands for. -/
  | awaiting (task : Nat) (overrun : Option Failure) (next : Outcome Unit → Program α)
  /-- Out of credit before it could begin to wait for a task. -/
  | stalled (task : Nat) (overrun : Option Failure) (next : Outcome Unit → Program α)
  | finished (a : α)

namespace Thread
variable {α : Type}

def isReady : Thread α → Bool
  | ready .. | stalled .. => true
  | _ => false

/-- Whether the code waits for a task, or is about to. -/
def awaits (task : Nat) : Thread α → Bool
  | awaiting t .. | stalled t .. => t == task
  | _ => false

def result? : Thread α → Option α
  | finished a => some a
  | _ => none

/-- A timer has gone off. -/
def expire : Thread α → Thread α
  | asleep p => ready 1 p
  | awaiting _ (some e) next => ready 1 (next (.error e))
  | t => t

/-- A task has finished for which the code waits. -/
def deliver (r : Outcome Unit) : Thread α → Thread α
  | awaiting _ _ next | stalled _ _ next => ready 1 (next r)
  | t => t

/-- The transaction for which the code waits has begun. -/
def enter (r : Outcome TxRef) : Thread α → Thread α
  | atLock next => ready 1 (next r)
  | t => t

end Thread

structure Task where
  id : Nat
  post : Post
  state : Thread (Outcome Unit)

structure Main (α : Type) where
  post : Post
  state : Thread α

/-- Who waits for a timer or a lock. -/
inductive Owner where
  | main (index : Nat)
  | task (id : Nat)
deriving DecidableEq, Repr

def Owner.isMain : Owner → Bool
  | main _ => true
  | task _ => false

structure Timer where
  deadline : Nat
  owner : Owner

/-- What goes on beside the main programs. -/
structure Background where
  site : Site
  now : Nat
  /-- The tasks that are not finished. -/
  tasks : List Task
  /-- The number of tasks started so far. -/
  started : Nat
  /-- The tasks that can proceed, in the order in which they became ready. -/
  ready : List Nat
  /-- The tasks that have paused since the last batch began, in order. -/
  paused : List Nat
  /-- The timers in the order in which they were set. -/
  timers : List Timer
  /-- Who waits for the lock of which database, in order of arrival. -/
  queue : List (Nat × Owner)
  /-- Handles that are held outside the machine. -/
  pinned : List TxRef
  /-- Open handles that nothing but running tasks may still hold. -/
  orphans : List TxRef

/-- The background with the main programs. -/
structure Machine (α : Type) extends Background where
  mains : List (Main α)

namespace Background

def idle (site : Site) : Background := ⟨site, 0, [], 0, [], [], [], [], [], []⟩

/-- The databases for whose lock someone waits. -/
def queues (b : Background) : List Nat := b.queue.map Prod.fst

def spawn (b : Background) (post : Post) (p : Program (Outcome Unit)) : Nat × Background :=
  (b.started, { b with
    tasks := b.tasks ++ [⟨b.started, post, .ready 0 p⟩]
    started := b.started + 1
    ready := b.ready ++ [b.started] })

/-- Start a call of a mutator. -/
def spawnCall (b : Background) (app : Application) (c : Call) : Nat × Background :=
  b.spawn (.ofInvocation c.invocation) (app.program c)

def startJob (app : Application) (b : Background) : Job → Background
  | .perform work => (b.spawn .outside ((Program.perform false work).bind fun _ => .done (.ok ()))).2
  | .mutation c => (b.spawnCall app c).2

def startJobs (app : Application) (b : Background) : Background :=
  b.site.outbox.foldl (startJob app) { b with site := { b.site with outbox := [] } }

def setTimer (b : Background) (owner : Owner) (ms : Nat) : Background :=
  { b with timers := b.timers ++ [⟨b.now + ms, owner⟩] }

/-- Put code off until after the batch; the main programs come then by themselves. -/
def putOff (b : Background) : Owner → Background
  | .main _ => b
  | .task id => { b with paused := b.paused ++ [id] }

/-- Begin to wait for a task and for the timeout, if there is one. -/
def waitFor {α : Type} (app : Application) (owner : Owner) (b : Background) (task : Nat)
    (overrun : Option Failure) (next : Outcome Unit → Program α) : Thread α × Background :=
  (.awaiting task overrun next, if overrun.isSome then b.setTimer owner app.timeout else b)

/-- Wait for a task that has just been started; without credit that has to be put off. -/
def join {α : Type} (app : Application) (owner : Owner) (b : Background) (credit task : Nat)
    (overrun : Option Failure) (next : Outcome Unit → Program α) : Thread α × Background :=
  if credit = 0 then (.stalled task overrun next, b.putOff owner)
  else b.waitFor app owner task overrun next

/-- Arrange for what code waits for that has come to a stop. -/
def arrange {α : Type} (app : Application) (owner : Owner) (b : Background) (credit : Nat) :
    Stop α → Thread α × Background
  | .finished a => (.finished a, b)
  | .asleep ms next => (.asleep next, b.setTimer owner ms)
  | .hung => (.hung, b)
  | .atLock database next => (.atLock next, { b with queue := b.queue ++ [(database, owner)] })
  | .calling c next =>
    let (task, b) := b.spawnCall app c
    b.join app owner credit task (some (app.overrun c.name)) next
  | .aside next =>
    let (task, b) := b.spawn .outside (.done (.ok ()))
    b.join app owner credit task none fun _ => next
  | .paused p => (.ready 0 p, b.putOff owner)

/-- Take up a program on a credit. -/
def take {α : Type} (app : Application) (owner : Owner) (b : Background) (credit : Nat) (post : Post)
    (p : Program α) : Thread α × Nat × Post × Background :=
  let (stop, t) := p.advance app b.queues ⟨credit, post, b.site⟩
  let (state, b) := (({ b with site := t.site }).startJobs app).arrange app owner t.credit stop
  (state, t.credit, t.post, b)

/-- Let code proceed on a credit, if it can. -/
def proceed {α : Type} (app : Application) (owner : Owner) (b : Background) (credit : Nat)
    (post : Post) : Thread α → Thread α × Nat × Post × Background
  | .ready toll p =>
    if credit < toll then (.ready toll p, credit, post, b.putOff owner)
    else b.take app owner (credit - toll) post p
  | .stalled task overrun next =>
    match credit, overrun, app.timeout with
    | 0, _, _ => (.stalled task overrun next, 0, post, b.putOff owner)
    | credit + 1, some e, 0 => b.take app owner credit post (next (.error e))
    | credit, _, _ =>
      let (state, b) := b.waitFor app owner task overrun next
      (state, credit, post, b)
  | state => (state, credit, post, b)

def holds (b : Background) (tx : TxRef) : Bool :=
  b.tasks.any fun t => (t.post.invocation.map (·.tx)) == some tx

/-- Drop the orphaned handles that no running task holds. -/
def sweep (b : Background) : Background :=
  { b with
    site := (b.orphans.filter fun tx => !b.holds tx).foldl Site.drop b.site
    orphans := b.orphans.filter b.holds }

def openHandles (s : Site) : List TxRef :=
  s.databases.zipIdx.flatMap fun (d, i) => d.store.working.map fun e => ⟨i, e.1⟩

end Background

namespace Machine
variable {α : Type}

def withBackground (m : Machine α) (b : Background) : Machine α := { m with toBackground := b }

/-- Whether a task has its place among those that run next. -/
def isScheduled (m : Machine α) (id : Nat) : Bool := m.ready.contains id || m.paused.contains id

/-- Change the state of an owner; a task that becomes ready queues up, if it does not already. -/
def change (m : Machine α) (owner : Owner) (f : {β : Type} → Thread β → Thread β) : Machine α :=
  match owner with
  | .main i => { m with mains := m.mains.modify i fun t => { t with state := f t.state } }
  | .task id => { m with
      tasks := m.tasks.map fun t => if t.id = id then { t with state := f t.state } else t
      ready := if m.isScheduled id then m.ready else m.ready ++ [id] }

def waiters (m : Machine α) (task : Nat) : List Owner :=
  (m.mains.zipIdx.filterMap fun (t, i) => if t.state.awaits task then some (.main i) else none)
    ++ m.tasks.filterMap fun t => if t.state.awaits task then some (.task t.id) else none

/-- Hand the result of a task to whoever waits for it. -/
def deliver (m : Machine α) (task : Nat) (r : Outcome Unit) : Machine α :=
  (m.waiters task).foldl (fun m owner =>
    { m.change owner (.deliver r) with timers := m.timers.filter (·.owner ≠ owner) }) m

/-- Begin the transactions that others were in the way of, in order of arrival. -/
def grant (m : Machine α) : Machine α :=
  m.queue.foldl (fun m (database, owner) =>
    match m.site.begin? database with
    | some (r, site) =>
      ({ m with site }).change owner (.enter r)
    | none => { m with queue := m.queue ++ [(database, owner)] }) { m with queue := [] }

/-- Run a main program on a credit, if it can proceed, and tell what is left of the credit. -/
def runMain (app : Application) (m : Machine α) (credit i : Nat) : Machine α × Nat :=
  match m.mains[i]? with
  | some ⟨post, state⟩ =>
    let (state, credit, post, b) := m.toBackground.proceed app (.main i) credit post state
    ((({ m with mains := m.mains.set i ⟨post, state⟩ }).withBackground b).grant, credit)
  | none => (m, credit)

def runMains (app : Application) (m : Machine α) : Machine α :=
  ((List.range m.mains.length).foldl (fun (m, credit) i => m.runMain app credit i)
    (m, Turn.fullCredit)).1

/-- A task has come to a stop: it is finished, or waits. -/
def stopTask (m : Machine α) (id : Nat) (post : Post) : Thread (Outcome Unit) → Machine α
  | .finished r =>
    let m := { m with tasks := m.tasks.filter (·.id ≠ id) }
    (m.withBackground m.sweep).deliver id r
  | state => { m with tasks := m.tasks.map fun t => if t.id = id then ⟨id, post, state⟩ else t }

def runTask (app : Application) (m : Machine α) (id : Nat) : Machine α :=
  match m.tasks.find? (·.id = id) with
  | some ⟨_, post, state⟩ =>
    let (state, _, post, b) := m.toBackground.proceed app (.task id) Turn.fullCredit post state
    ((m.withBackground b).stopTask id post state).grant
  | none => m

def drain (app : Application) : Nat → Machine α → Machine α
  | 0, m => m
  | fuel + 1, m =>
    match m.ready with
    | [] => m
    | id :: ready => (({ m with ready }).runTask app id).drain app fuel

/-- The number of tasks that run between two turns of the main programs. -/
def batchSize : Nat := 61

/-- Run a batch of tasks.  The tasks that pause queue up at its end. -/
def runBatch (app : Application) (m : Machine α) : Machine α :=
  let m := m.drain app batchSize
  { m with ready := m.ready ++ m.paused, paused := [] }

def isBusy (m : Machine α) : Bool := m.mains.any (·.state.isReady) || !m.ready.isEmpty

/-- Run batches of tasks until none can proceed. -/
def calm (app : Application) : Nat → Machine α → Machine α
  | 0, m => m
  | fuel + 1, m => if m.ready.isEmpty then m else (m.runBatch app).calm app fuel

def nextDeadline (m : Machine α) : Option Nat := (m.timers.map (·.deadline)).min?

/-- Move to a time, at which timers may go off. -/
def moveTo (m : Machine α) (time : Nat) : Machine α :=
  let due := m.timers.filter (·.deadline ≤ time)
  due.foldl (fun m t => m.change t.owner .expire)
    { m with now := time, timers := m.timers.filter (time < ·.deadline) }

/-- The results of the main programs, once all are finished. -/
def results? (m : Machine α) : Option (List α) := m.mains.mapM (·.state.result?)

/-- Leave the main programs, finished or not. -/
def leave (m : Machine α) : Background :=
  Background.sweep { m.toBackground with
    timers := m.timers.filter fun t => !t.owner.isMain
    queue := m.queue.filter fun e => !e.2.isMain
    orphans := (Background.openHandles m.site).filter fun tx => !m.pinned.contains tx }

/-- Run until the main programs are finished or a time has come. -/
def run (app : Application) (limit : Nat) : Nat → Machine α → Option (List α) × Background
  | 0, m => (none, m.leave)
  | fuel + 1, m =>
    let m := m.runMains app
    match m.results? with
    | some rs => (some rs, m.leave)
    | none =>
      if limit ≤ m.now then (none, m.leave)
      else
        let m := m.runBatch app
        if m.isBusy then m.run app limit fuel
        else (m.moveTo (min limit (m.nextDeadline.getD limit))).run app limit fuel

end Machine

namespace Background

/-- The time that a main program may take: an hour, in milliseconds. -/
def patience : Nat := 3600000

/-- The number of turns after which a run is given up. -/
def turns : Nat := 1000000

def settle (app : Application) (b : Background) : Background :=
  let m : Machine Unit := ⟨b, []⟩
  (m.grant.calm app turns).toBackground

/-- Run programs side by side; `none` if they are not finished within an hour.  Afterwards the tasks
run that can proceed. -/
def runAll {α : Type} (app : Application) (posts : List (Post × Program α)) (b : Background) :
    Option (List α) × Background :=
  let m : Machine α := ⟨b, posts.map fun (post, p) => ⟨post, .ready 0 p⟩⟩
  let (r, b) := m.run app (b.now + patience) turns
  (r, b.settle app)

/-- Run a program; `none` if it is not finished within an hour. -/
def runOne {α : Type} (app : Application) (p : Program α) (b : Background) : Option α × Background :=
  let (r, b) := b.runAll app [(.outside, p)]
  (r.bind List.head?, b)

end Background
end RowGuard
