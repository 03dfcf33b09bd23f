import RowGuard.Proofs.Schedule.Interleaving
import RowGuard.Schedule.Machine

/-! # Turns are moves

The machine gives running code a turn, in which it makes many moves at once.  Each turn is a sequence
of moves of one strand; the jobs that it asks for on the way are tasks that it starts.
-/
namespace RowGuard

/-- Moves of one strand in a row, none of which takes the result of a task; `n` is the number of tasks
before them. -/
inductive Strand.Run {α : Type} (app : Application) :
    Nat → Site → Strand α → Site → Strand α → Tasks → Prop where
  | refl (n : Nat) (site : Site) (k : Strand α) : Run app n site k site k []
  | head {n : Nat} {site site₁ site₂ : Site} {k k₁ k₂ : Strand α} {new new₂ : Tasks}
      (hm : ∀ ts : Tasks, ts.length = n → k.Move app ts site site₁ k₁ new)
      (hr : Run app (n + new.length) site₁ k₁ site₂ k₂ new₂) :
      Run app n site k site₂ k₂ (new ++ new₂)

/-- The program that a stop leaves. -/
def Stop.program {α : Type} : Stop α → Program α
  | .finished a => .done a
  | .asleep ms next => .sleep ms next
  | .hung => .hang
  | .atLock d next => .begin d next
  | .calling c next => .call c next
  | .aside next => .stepAside next
  | .paused p => p

/-- A thread stands as a strand. -/
inductive Thread.Stands {α : Type} : Thread α → Standing α → Prop where
  | ready (toll : Nat) (p : Program α) : Stands (.ready toll p) (.running p)
  | asleep (ms : Nat) (p : Program α) : Stands (.asleep p) (.running (.sleep ms p))
  | hung : Stands .hung (.running .hang)
  | atLock (d : Nat) (next : Outcome TxRef → Program α) :
      Stands (.atLock next) (.running (.begin d next))
  | awaiting (t : Nat) (overrun : Option Failure) (next : Outcome Unit → Program α) :
      Stands (.awaiting t overrun next) (.waiting t overrun next)
  | stalled (t : Nat) (overrun : Option Failure) (next : Outcome Unit → Program α) :
      Stands (.stalled t overrun next) (.waiting t overrun next)
  | finished (a : α) : Stands (.finished a) (.running (.done a))

namespace Site

/-- The site with other jobs asked for. -/
def withOutbox (site : Site) (jobs : List Job) : Site := { site with outbox := jobs }

@[simp] theorem withOutbox_outbox (site : Site) (jobs : List Job) :
    (site.withOutbox jobs).outbox = jobs := rfl

@[simp] theorem withOutbox_withOutbox (site : Site) (jobs more : List Job) :
    (site.withOutbox jobs).withOutbox more = site.withOutbox more := rfl

theorem withOutbox_self {site : Site} {jobs : List Job} (h : site.outbox = jobs) :
    site.withOutbox jobs = site := by
  subst h
  rfl

theorem onDatabase_withOutbox {α : Type} (site : Site) (jobs : List Job) (d : Nat)
    (f : Database → Outcome α × Database) : (site.withOutbox jobs).onDatabase d f =
      ((site.onDatabase d f).1, (site.onDatabase d f).2.withOutbox jobs) ∧
    (site.onDatabase d f).2.outbox = site.outbox := by
  unfold onDatabase
  simp only [withOutbox]
  cases site.databases[d]? <;> exact ⟨rfl, rfl⟩

theorem begin?_withOutbox (site : Site) (jobs : List Job) (d : Nat) :
    (site.withOutbox jobs).begin? d = (site.begin? d).map fun x => (x.1, x.2.withOutbox jobs) := by
  unfold begin?
  simp only [withOutbox]
  cases site.databases[d]? with
  | none => rfl
  | some db =>
    dsimp only
    cases db.begin? <;> rfl

theorem begin?_outbox {site site' : Site} {d : Nat} {r : Outcome TxRef}
    (h : site.begin? d = some (r, site')) : site'.outbox = site.outbox := by
  unfold begin? at h
  cases hd : site.databases[d]? with
  | none =>
    rw [hd] at h
    obtain ⟨-, rfl⟩ := Prod.mk.inj (Option.some.inj h)
    rfl
  | some db =>
    rw [hd] at h
    dsimp only at h
    cases hb : db.begin? with
    | none => simp [hb] at h
    | some x =>
      rw [hb] at h
      obtain ⟨-, rfl⟩ := Prod.mk.inj (Option.some.inj h)
      rfl

theorem can_withOutbox (site : Site) (jobs : List Job) (p : Post) (g : Gate) (w : Where)
    (x : Subject) : (site.withOutbox jobs).can p g w x =
      ((site.can p g w x).1, (site.can p g w x).2.1, (site.can p g w x).2.2.withOutbox jobs) ∧
    (site.can p g w x).2.2.outbox = site.outbox := by
  unfold can
  cases hp : p.invocation with
  | none => exact ⟨rfl, rfl⟩
  | some i =>
    have hrun : (site.withOutbox jobs).run i.tx = site.run i.tx := rfl
    simp only [hrun]
    cases (g.can p.scope.actor i.actor (site.run i.tx) w x).result with
    | error e => exact ⟨rfl, rfl⟩
    | ok key => cases key <;> exact ⟨rfl, rfl⟩

/-- An answer does not depend on the jobs asked for so far, and adds to them. -/
theorem answer_withOutbox {site : Site} (ho : site.outbox = []) (jobs : List Job) (p : Post)
    (r : Request) : (site.withOutbox jobs).answer p r = ((site.answer p r).1, (site.answer p r).2.1,
      (site.answer p r).2.2.withOutbox (jobs ++ (site.answer p r).2.2.outbox)) := by
  cases r with
  | mutate tx table a row =>
    have hd := site.onDatabase_withOutbox jobs tx.database
      fun d => d.mutate site.clock tx.handle table a row
    have hc : (site.withOutbox jobs).clock = site.clock := rfl
    simp only [answer, hc, hd.1, hd.2, ho, List.append_nil]
  | commit tx =>
    have hd := site.onDatabase_withOutbox jobs tx.database fun d => d.commit tx.handle
    simp only [answer, hd.1, hd.2, ho, List.append_nil]
  | rollback tx =>
    have hd := site.onDatabase_withOutbox jobs tx.database fun d => d.rollback tx.handle
    simp only [answer, hd.1, hd.2, ho, List.append_nil]
  | can g w x =>
    have hd := site.can_withOutbox jobs p g w x
    simp only [answer, hd.1, hd.2, ho, List.append_nil]
  | launch work =>
    simp only [answer]
    split <;> simp [ho, post, withOutbox]
  | snapshot d q =>
    simp only [answer, ho, List.append_nil]
    rfl
  | run tx q =>
    simp only [answer, ho, List.append_nil]
    rfl
  | _ => simp [answer, withOutbox, note, setBag, bag, ho]

end Site

section Runs
variable {α : Type} {app : Application} {n : Nat} {site site₁ site₂ : Site} {k k₁ k₂ : Strand α}
  {new new₁ new₂ : Tasks}

theorem Strand.Run.trans (h : Strand.Run app n site k site₁ k₁ new₁)
    (h' : Strand.Run app (n + new₁.length) site₁ k₁ site₂ k₂ new₂) :
    Strand.Run app n site k site₂ k₂ (new₁ ++ new₂) := by
  induction h with
  | refl => simpa using h'
  | @head n site site₁ site₃ k k₁ k₃ new₃ new₁ hm _ ih =>
    rw [List.append_assoc]
    refine .head hm (ih ?_)
    simpa [Nat.add_assoc] using h'

theorem Strand.Run.single (hm : ∀ ts : Tasks, ts.length = n → k.Move app ts site site₁ k₁ new) :
    Strand.Run app n site k site₁ k₁ new := by
  simpa using Strand.Run.head hm (.refl _ site₁ k₁)

/-- Where a turn has ended, its strand can run to from `k` at `site`; the jobs that it has asked for,
after those in `jobs`, are the tasks that the strand starts. -/
def Strand.Turns (app : Application) (n : Nat) (jobs : List Job) (site : Site) (k : Strand α)
    (x : Stop α × Turn) : Prop :=
  ∃ site₁ more, x.2.site = site₁.withOutbox (jobs ++ more) ∧ site₁.outbox = [] ∧
    (∀ c next, x.1 = .calling c next → app.mutators.contains c.name = true) ∧
    Strand.Run app n site k site₁ ⟨x.2.post, .running x.1.program⟩ (more.map (Job.strand app))

theorem Strand.Turns.stay {jobs : List Job} (ho : site.outbox = []) (stop : Stop α)
    (hc : ∀ c next, stop = .calling c next → app.mutators.contains c.name = true) (credit : Nat)
    (post : Post) : Strand.Turns app n jobs site ⟨post, .running stop.program⟩
      (stop, ⟨credit, post, site.withOutbox jobs⟩) :=
  ⟨site, [], by rw [List.append_nil], ho, hc, .refl _ _ _⟩

theorem Strand.Turns.head {jobs : List Job} {x : Stop α × Turn} (more : List Job)
    (hm : ∀ ts : Tasks, ts.length = n → k.Move app ts site site₁ k₁ (more.map (Job.strand app)))
    (h : Strand.Turns app (n + more.length) (jobs ++ more) site₁ k₁ x) :
    Strand.Turns app n jobs site k x := by
  obtain ⟨site₂, last, hsite, ho, hc, hrun⟩ := h
  refine ⟨site₂, more ++ last, by rw [hsite, List.append_assoc], ho, hc, ?_⟩
  rw [List.map_append]
  exact .head hm (by simpa using hrun)

/-- An uninterrupted run of a program is a run of its strand. -/
theorem Program.advance_turns (queues : List Nat) (p : Program α) (credit : Nat) (post : Post)
    (site : Site) (ho : site.outbox = []) (jobs : List Job) (n : Nat) :
    Strand.Turns app n jobs site ⟨post, .running p⟩
      (p.advance app queues ⟨credit, post, site.withOutbox jobs⟩) := by
  induction p generalizing credit post site jobs n with
  | done a => exact .stay ho (.finished a) (by simp) credit post
  | hang => exact .stay ho .hung (by simp) credit post
  | stepAside next ih => exact .stay ho (.aside next) (by simp) credit post
  | ask r next ih =>
    rw [Program.advance, Site.answer_withOutbox ho]
    apply Strand.Turns.head _ fun ts _ => .ask site post r next
    have hnext := ih (site.answer post r).1 credit (site.answer post r).2.1
      ((site.answer post r).2.2.withOutbox []) rfl (jobs ++ (site.answer post r).2.2.outbox)
      (n + (site.answer post r).2.2.outbox.length)
    exact hnext
  | sleep ms next ih =>
    cases credit with
    | zero => exact .stay ho (.paused (.sleep ms next)) (by simp) 0 post
    | succ credit =>
      by_cases hms : ms = 0
      · have he : (Program.sleep ms next).advance app queues
            ⟨credit + 1, post, site.withOutbox jobs⟩ =
              next.advance app queues ⟨credit, post, site.withOutbox jobs⟩ := by
          simp [Program.advance, hms]
        rw [he]
        apply Strand.Turns.head [] fun ts _ => .sleep site post ms next
        simpa using ih credit post site ho jobs n
      · have he : (Program.sleep ms next).advance app queues
            ⟨credit + 1, post, site.withOutbox jobs⟩ =
              (.asleep ms next, ⟨credit + 1, post, site.withOutbox jobs⟩) := by
          simp [Program.advance, hms]
        rw [he]
        exact .stay ho (.asleep ms next) (by simp) _ post
  | begin d next ih =>
    have hbegin : ∀ r site₂ credit₂, site.begin? d = some (r, site₂) →
        Strand.Turns app n jobs site ⟨post, .running (.begin d next)⟩
          ((next r).advance app queues ⟨credit₂, post, site₂.withOutbox jobs⟩) := by
      intro r site₂ credit₂ hb
      apply Strand.Turns.head [] fun ts _ => .begin hb post next
      simpa using ih r credit₂ post site₂ ((Site.begin?_outbox hb).trans ho) jobs n
    rw [Program.advance]
    simp only [Site.begin?_withOutbox]
    cases hb : site.begin? d with
    | none =>
      cases credit with
      | zero => exact .stay ho (.paused (.begin d next)) (by simp) 0 post
      | succ credit => exact .stay ho (.atLock d next) (by simp) _ post
    | some x =>
      obtain ⟨r, site₂⟩ := x
      cases r with
      | error e => exact hbegin (.error e) site₂ credit hb
      | ok tx =>
        cases credit with
        | zero => exact .stay ho (.paused (.begin d next)) (by simp) 0 post
        | succ credit =>
          simp only [Option.map_some]
          split
          · exact .stay ho (.atLock d next) (by simp) _ post
          · exact hbegin (.ok tx) site₂ credit hb
  | call c next ih =>
    rw [Program.advance]
    by_cases hc : app.mutators.contains c.name = true
    · rw [if_pos hc]
      have hcall : Strand.Turns app n jobs site ⟨post, .running (.call c next)⟩
          (.calling c next, ⟨credit, post, site.withOutbox jobs⟩) :=
        .stay ho (.calling c next) (by simp [hc]) credit post
      cases ht : app.timeout with
      | succ ms => exact hcall
      | zero =>
        cases credit with
        | zero => exact hcall
        | succ credit =>
          have hm : ∀ ts : Tasks, ts.length = n → Strand.Move app ts site
              ⟨post, .running (.call c next)⟩ site
              ⟨post, .waiting n (some (app.overrun c.name)) next⟩ [c.strand app] := by
            rintro ts rfl
            exact .call site post hc next
          apply Strand.Turns.head [.mutation c] hm
          apply Strand.Turns.head [] fun ts _ => .expire ..
          have hnext := ih (.error (app.overrun c.name)) credit post site ho (jobs ++ [.mutation c])
            (n + 1)
          have hpost : (site.withOutbox jobs).post (.mutation c) =
            site.withOutbox (jobs ++ [.mutation c]) := rfl
          simpa [hpost] using hnext
    · rw [if_neg hc]
      have hc : app.mutators.contains c.name = false := by simpa using hc
      apply Strand.Turns.head [] fun ts _ => .unknown site post hc next
      simpa using ih (.error (Application.unknown c.name)) credit post site ho jobs n

end Runs

/-- A task of the machine stands as a strand. -/
structure Task.Stands (x : Task) (k : Strand (Outcome Unit)) : Prop where
  post : k.post = x.post
  state : x.state.Stands k.standing

namespace Background

/-- Backgrounds that differ in timers and in the order of tasks at most. -/
structure Same (b b' : Background) : Prop where
  site : b'.site = b.site
  tasks : b'.tasks = b.tasks
  started : b'.started = b.started
  queue : b'.queue = b.queue
  orphans : b'.orphans = b.orphans

/-- Tasks have been started, and nothing has happened to the others. -/
structure Grew (b b' : Background) (new : Tasks) : Prop where
  started : b'.started = b.started + new.length
  tasks : ∃ fresh : List Task, b'.tasks = b.tasks ++ fresh ∧
    fresh.map Task.id = List.range' b.started new.length ∧ List.Forall₂ Task.Stands fresh new
  orphans : b'.orphans = b.orphans

section Growth
variable {b b' b₁ b₂ : Background} {new new₁ new₂ : Tasks} (app : Application) (owner : Owner)

theorem Same.refl (b : Background) : b.Same b := ⟨rfl, rfl, rfl, rfl, rfl⟩

theorem Same.grew (h : b.Same b') : b.Grew b' [] :=
  ⟨h.started, ⟨[], by rw [h.tasks, List.append_nil], rfl, .nil⟩, h.orphans⟩

theorem Grew.trans (h : b.Grew b₁ new₁) (h' : b₁.Grew b₂ new₂) : b.Grew b₂ (new₁ ++ new₂) := by
  obtain ⟨fresh₁, ht₁, hid₁, hf₁⟩ := h.tasks
  obtain ⟨fresh₂, ht₂, hid₂, hf₂⟩ := h'.tasks
  refine ⟨?_, ⟨fresh₁ ++ fresh₂, ?_, ?_, List.rel_append hf₁ hf₂⟩, h'.orphans.trans h.orphans⟩
  · rw [h'.started, h.started, List.length_append, Nat.add_assoc]
  · rw [ht₂, ht₁, List.append_assoc]
  · rw [List.map_append, hid₁, hid₂, h.started, List.length_append, ← List.range'_append_1]

theorem spawn_grew (b : Background) (post : Post) (p : Program (Outcome Unit)) :
    b.Grew (b.spawn post p).2 [⟨post, .running p⟩] :=
  ⟨rfl, ⟨[⟨b.started, post, .ready 0 p⟩], rfl, rfl, .cons ⟨rfl, .ready 0 p⟩ .nil⟩, rfl⟩

theorem startJob_grew (b : Background) (j : Job) :
    b.Grew (startJob app b j) [j.strand app] ∧ (startJob app b j).site = b.site ∧
      (startJob app b j).queue = b.queue := by
  cases j with
  | perform work => exact ⟨b.spawn_grew _ _, rfl, rfl⟩
  | mutation c => exact ⟨b.spawn_grew _ _, rfl, rfl⟩

/-- The jobs that were asked for are started as tasks, in order. -/
theorem startJobs_grew (b : Background) :
    b.Grew (b.startJobs app) (b.site.outbox.map (Job.strand app)) ∧
      (b.startJobs app).site = b.site.withOutbox [] ∧ (b.startJobs app).queue = b.queue := by
  have hall : ∀ (jobs : List Job) (b : Background),
      b.Grew (jobs.foldl (startJob app) b) (jobs.map (Job.strand app)) ∧
        (jobs.foldl (startJob app) b).site = b.site ∧
        (jobs.foldl (startJob app) b).queue = b.queue := by
    intro jobs
    induction jobs with
    | nil => exact fun b => ⟨(Same.refl b).grew, rfl, rfl⟩
    | cons j jobs ih =>
      intro b
      obtain ⟨hg, hs, hq⟩ := b.startJob_grew app j
      obtain ⟨hg', hs', hq'⟩ := ih (startJob app b j)
      exact ⟨hg.trans hg', hs'.trans hs, hq'.trans hq⟩
  obtain ⟨hg, hs, hq⟩ := hall b.site.outbox { b with site := { b.site with outbox := [] } }
  exact ⟨⟨hg.started, hg.tasks, hg.orphans⟩, hs, hq⟩

theorem putOff_same (b : Background) : b.Same (b.putOff owner) := by
  cases owner <;> exact ⟨rfl, rfl, rfl, rfl, rfl⟩

theorem setTimer_same (b : Background) (ms : Nat) : b.Same (b.setTimer owner ms) :=
  ⟨rfl, rfl, rfl, rfl, rfl⟩

theorem waitFor_same {α : Type} (b : Background) (task : Nat) (overrun : Option Failure)
    (next : Outcome Unit → Program α) : b.Same (b.waitFor app owner task overrun next).2 ∧
      (b.waitFor app owner task overrun next).1.Stands (.waiting task overrun next) := by
  refine ⟨?_, .awaiting _ _ _⟩
  unfold waitFor
  dsimp only
  split
  · exact b.setTimer_same owner _
  · exact .refl b

theorem join_same {α : Type} (b : Background) (credit task : Nat) (overrun : Option Failure)
    (next : Outcome Unit → Program α) : b.Same (b.join app owner credit task overrun next).2 ∧
      (b.join app owner credit task overrun next).1.Stands (.waiting task overrun next) := by
  unfold join
  split
  · exact ⟨b.putOff_same owner, .stalled _ _ _⟩
  · exact b.waitFor_same app owner task overrun next

end Growth

/-- The owner of a strand has run: the strand has made moves, and either the lock that it waits for
has been noted, or it does not wait for one. -/
def Ran {α : Type} (app : Application) (owner : Owner) (b : Background) (k : Strand α)
    (b' : Background) (post : Post) (state : Thread α) : Prop :=
  ∃ standing new, Strand.Run app b.started b.site k b'.site ⟨post, standing⟩ new ∧
    b'.site.outbox = [] ∧ state.Stands standing ∧ b.Grew b' new ∧
    (b'.queue = b.queue ∨ ∃ d next, b'.queue = b.queue ++ [(d, owner)] ∧ state = .atLock next ∧
      standing = .running (.begin d next))

section Take
variable {α : Type} {app : Application} {owner : Owner} {b b' b₁ : Background} {k k₁ : Strand α}
  {post : Post} {state : Thread α} {new : Tasks}

theorem Ran.of_same (hs : b.Same b') (ho : b.site.outbox = []) {standing : Standing α}
    (hst : state.Stands standing) : Ran app owner b ⟨post, standing⟩ b' post state :=
  ⟨standing, [], hs.site ▸ .refl _ _ _, by rw [hs.site, ho], hst, hs.grew, .inl hs.queue⟩

theorem Ran.head (h : Ran app owner b₁ k₁ b' post state)
    (hr : Strand.Run app b.started b.site k b₁.site k₁ new) (hg : b.Grew b₁ new)
    (hq : b₁.queue = b.queue) : Ran app owner b k b' post state := by
  obtain ⟨standing, new', hr', ho, hst, hg', hq'⟩ := h
  rw [hg.started] at hr'
  refine ⟨standing, new ++ new', hr.trans hr', ho, hst, hg.trans hg', ?_⟩
  rwa [hq] at hq'

theorem arrange_ran (b : Background) (ho : b.site.outbox = []) (credit : Nat) (post : Post)
    (stop : Stop α) (hc : ∀ c next, stop = .calling c next → app.mutators.contains c.name = true) :
    Ran app owner b ⟨post, .running stop.program⟩ (b.arrange app owner credit stop).2 post
      (b.arrange app owner credit stop).1 := by
  cases stop with
  | finished a => exact .of_same (.refl b) ho (.finished a)
  | asleep ms next => exact .of_same (b.setTimer_same owner ms) ho (.asleep ms next)
  | hung => exact .of_same (.refl b) ho .hung
  | paused p => exact .of_same (b.putOff_same owner) ho (.ready 0 p)
  | atLock d next =>
    exact ⟨_, [], .refl _ _ _, ho, .atLock d next, ⟨rfl, ⟨[], by simp [arrange], rfl, .nil⟩, rfl⟩,
      .inr ⟨d, next, rfl, rfl, rfl⟩⟩
  | calling c next =>
    have hm : ∀ ts : Tasks, ts.length = b.started → Strand.Move app ts b.site
        ⟨post, .running (.call c next)⟩ b.site
        ⟨post, .waiting b.started (some (app.overrun c.name)) next⟩ [c.strand app] := by
      intro ts hl
      rw [← hl]
      exact .call b.site post (hc c next rfl) next
    obtain ⟨hsame, hst⟩ := (b.spawnCall app c).2.join_same app owner credit b.started
      (some (app.overrun c.name)) next
    have hrest : Ran app owner (b.spawnCall app c).2 _ _ post _ := .of_same hsame ho hst
    exact hrest.head (.single hm) (b.spawn_grew _ _) rfl
  | aside next =>
    have hm : ∀ ts : Tasks, ts.length = b.started → Strand.Move app ts b.site
        ⟨post, .running (.stepAside next)⟩ b.site ⟨post, .waiting b.started none fun _ => next⟩
        [⟨.outside, .running (.done (.ok ()))⟩] := by
      intro ts hl
      rw [← hl]
      exact .stepAside b.site post next
    obtain ⟨hsame, hst⟩ := (b.spawn .outside (.done (.ok ()))).2.join_same app owner credit
      b.started none fun _ => next
    have hrest : Ran app owner (b.spawn .outside (.done (.ok ()))).2 _ _ post _ :=
      .of_same hsame ho hst
    exact hrest.head (.single hm) (b.spawn_grew _ _) rfl

/-- Taking up a program is a run of its strand. -/
theorem take_ran (b : Background) (ho : b.site.outbox = []) (credit : Nat) (post : Post)
    (p : Program α) : ∃ state credit' post' b', b.take app owner credit post p =
      (state, credit', post', b') ∧ Ran app owner b ⟨post, .running p⟩ b' post' state := by
  have ht : Strand.Turns app b.started [] b.site ⟨post, .running p⟩
      (p.advance app b.queues ⟨credit, post, b.site⟩) := by
    have hadv := @Program.advance_turns α app b.queues p credit post b.site ho [] b.started
    rwa [Site.withOutbox_self ho] at hadv
  obtain ⟨site₁, more, hsite, ho₁, hc, hrun⟩ := ht
  refine ⟨_, _, _, _, rfl, ?_⟩
  generalize p.advance app b.queues ⟨credit, post, b.site⟩ = x at hsite hc hrun
  obtain ⟨stop, t⟩ := x
  obtain ⟨hg, hs, hq⟩ := ({ b with site := t.site } : Background).startJobs_grew app
  have hsite : t.site = site₁.withOutbox more := hsite
  have hs₁ : (({ b with site := t.site } : Background).startJobs app).site = site₁ := by
    rw [hs]
    dsimp only
    rw [hsite, Site.withOutbox_withOutbox, Site.withOutbox_self ho₁]
  have hg : b.Grew (({ b with site := t.site } : Background).startJobs app)
      (more.map (Job.strand app)) := by
    dsimp only at hg
    rw [hsite, Site.withOutbox_outbox] at hg
    rw [hsite]
    exact ⟨hg.started, hg.tasks, hg.orphans⟩
  refine (arrange_ran _ (hs₁ ▸ ho₁) t.credit t.post stop hc).head ?_ hg hq
  rw [hs₁]
  exact hrun

theorem proceed_of_not_ready (b : Background) (credit : Nat) (post : Post) {state : Thread α}
    (h : state.isReady = false) :
    b.proceed app owner credit post state = (state, credit, post, b) := by
  cases state with
  | ready | stalled => simp [Thread.isReady] at h
  | _ => rfl

/-- A turn of code that can proceed is a run of its strand. -/
theorem proceed_ran (b : Background) (ho : b.site.outbox = []) (credit : Nat) (post : Post)
    {state : Thread α} {standing : Standing α} (hst : state.Stands standing)
    (h : state.isReady = true) : ∃ state' credit' post' b',
      b.proceed app owner credit post state = (state', credit', post', b') ∧
        Ran app owner b ⟨post, standing⟩ b' post' state' := by
  cases hst with
  | ready toll p =>
    unfold proceed
    dsimp only
    split
    · exact ⟨_, _, _, _, rfl, .of_same (b.putOff_same owner) ho (.ready toll p)⟩
    · exact b.take_ran ho _ post p
  | stalled task overrun next =>
    unfold proceed
    dsimp only
    split
    · exact ⟨_, _, _, _, rfl, .of_same (b.putOff_same owner) ho (.stalled task _ next)⟩
    · obtain ⟨state', credit', post', b', he, hran⟩ :=
        @take_ran α app owner b ho _ post (next (.error _))
      exact ⟨state', credit', post', b', he,
        hran.head (.single fun ts _ => .expire ..) (Same.refl b).grew rfl⟩
    · obtain ⟨hsame, hst⟩ := b.waitFor_same app owner task _ next
      exact ⟨_, _, _, _, rfl, .of_same hsame ho hst⟩
  | _ => simp [Thread.isReady] at h

end Take
end Background
end RowGuard
