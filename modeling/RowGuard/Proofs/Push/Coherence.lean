import RowGuard.Proofs.Push.Stages
import RowGuard.Proofs.Schedule.Mirror
import Mathlib.Logic.Function.Basic

/-! # Pushes side by side

Any number of pushes run over one store, beside the tasks of their mutations.  `Coherent` says how
the pushes, the tasks and the store agree between two steps: the lock belongs to the one push that is
busy, and each task acts through one transaction.  Every step keeps this, and `Evolves` lists what a
step can be, with its marks in the log.
-/
namespace RowGuard

/-- The mutations of a push and the mutators that they call. -/
structure Submission where
  mutators : Mutators
  mutations : List PushMutation

/-- A result belongs to a mutation. -/
def MutationResult.Reports (r : MutationResult) (p : PushMutation) : Prop :=
  r.id = p.id ∧ r.clientId = p.clientId

theorem PushMutation.result_reports (p : PushMutation) (o : MutationOutcome) :
    (p.result o).Reports p := ⟨rfl, rfl⟩

/-- Pushes that have not begun. -/
def Scene.pushes (s : Server) (site : Site) (us : List Submission) :
    Scene (Outcome (List MutationResult)) :=
  .start site (us.map fun u => ⟨.outside, .running (s.pushAll u.mutators u.mutations)⟩)

/-- A task acts through the transaction of a handle: it is alike to something.  Of the other site
only the bags matter. -/
def Strand.Confined (d g : Nat) (site : Site) (k : Strand (Outcome Unit)) : Prop :=
  ∃ site' k', k.Alike (· = ·) ⟨d, g⟩ ⟨d, g⟩ site site' k'

/-- Who has the lock: nobody, or the one push that is busy. -/
inductive Stage.Locks (st : Store) (σ : Nat → Stage) : Prop where
  | free (hq : st.Quiet) (hi : ∀ i, (σ i).handle? = none)
  | held {i h : Nat} {W : Tables} (hh : st.Held h W) (hi : (σ i).handle? = some h)
      (ho : ∀ j, j ≠ i → (σ j).handle? = none)

/-- How the pushes, the tasks and the store agree between two steps. -/
structure Coherent (app : Application) (s : Server) (us : List Submission)
    (c : Scene (Outcome (List MutationResult))) (σ : Nat → Stage) (st : Store) : Prop where
  store : c.site.HasStore s.database st
  outbox : c.site.outbox = []
  mains : ∀ i, c.mains[i]? = us[i]?.map fun u => (σ i).strand app s u.mutators
  nobody : ∀ i, us[i]? = none → σ i = .idle [] []
  locks : Stage.Locks st σ
  tasks : ∀ k ∈ c.tasks, ∃ g < st.issued, k.Confined s.database g c.site
  answers : ∀ i u, us[i]? = some u → ∃ ps, u.mutations = ps ++ (σ i).left ∧
    List.Forall₂ MutationResult.Reports (σ i).results ps

/-- The mark of the next move of a push. -/
def Stage.marks (d i : Nat) : Stage → List Mark
  | busy _ _ _ h .called => [.called i ⟨d, h⟩]
  | _ => []

/-- What a step of pushes and tasks can be. -/
inductive Evolves (app : Application) (s : Server) (us : List Submission)
    (c : Scene (Outcome (List MutationResult))) (σ : Nat → Stage) (st : Store) :
    List Mark → Scene (Outcome (List MutationResult)) → (Nat → Stage) → Store → Prop where
  | push {i : Nat} {u : Submission} {σ' : Stage} {st' : Store} {new : Tasks} (hu : us[i]? = some u)
      (hn : (σ i).Next app s u.mutators c.tasks st st' σ' new) :
      Evolves app s us c σ st ((σ i).marks s.database i) ⟨c.site.withStore s.database st',
        c.mains.set i (σ'.strand app s u.mutators), c.tasks ++ new⟩ (Function.update σ i σ') st'
  | task {t g : Nat} {k k' : Strand (Outcome Unit)} {change : Amendment} {site : Site}
      {new : Tasks} (hk : c.tasks[t]? = some k) (hg : g < st.issued)
      (hc : k.Confined s.database g c.site) (hm : k.Move app c.tasks c.site site k' new)
      (ha : c.site.Amends s.database g st (k.writes c.site) change site) :
      Evolves app s us c σ st (k.writes c.site) ⟨site, c.mains, c.tasks.set t k' ++ new⟩ σ
        (st.amend g change)
  | tick (clock : Nat) : Evolves app s us c σ st [] { c with site := { c.site with clock } } σ st
  | drop (tx : TxRef) (hq : st.Quiet) (hi : ∀ i, (σ i).handle? = none)
      (hs : (c.site.drop tx).HasStore s.database st) :
      Evolves app s us c σ st [] { c with site := c.site.drop tx } σ st

section Store
variable {st : Store} {g h : Nat} {W : Tables} {change : Amendment}

theorem Store.Quiet.amend (hq : st.Quiet)
    (ho : change ≠ .nothing → (st.tables? g).isSome = true) : change = .nothing := by
  by_contra hc
  simpa [hq.tables?] using ho hc

theorem Store.Held.amend (hh : st.Held h W)
    (ho : change ≠ .nothing → (st.tables? g).isSome = true) :
    change = .nothing ∨ g = h ∧ ∃ w W', change = .wrote w W' := by
  cases change with
  | nothing => exact .inl rfl
  | wrote w W' =>
    by_cases hg : g = h
    · exact .inr ⟨hg, w, W', rfl⟩
    · simp [hh.tables?, hg] at ho

theorem Store.amend_issued (st : Store) (g : Nat) (change : Amendment) :
    (st.amend g change).issued = st.issued := by
  cases change <;> rfl

theorem Store.amend_schema (st : Store) (g : Nat) (change : Amendment) :
    (st.amend g change).schema = st.schema := by
  cases change <;> rfl

theorem Store.amend_committed (st : Store) (g : Nat) (change : Amendment) :
    (st.amend g change).committed = st.committed := by
  cases change <;> rfl

end Store

section Keep
variable {app : Application} {s : Server} {us : List Submission}
  {c c' : Scene (Outcome (List MutationResult))} {σ σ' : Nat → Stage} {st st' : Store}

theorem Stage.Locks.steady (hl : Locks st σ) : st.Steady := by
  cases hl with
  | free hq => exact .inl hq
  | held hh => exact .inr ⟨_, _, hh⟩

theorem Stage.Locks.quiet (hl : Locks st σ) (hi : ∀ i, (σ i).handle? = none) : st.Quiet := by
  cases hl with
  | free hq => exact hq
  | @held i h W hh hb => simp [hi i] at hb

/-- The push that is busy has the lock. -/
theorem Stage.Locks.held_of_handle (hl : Locks st σ) {i h : Nat} (hi : (σ i).handle? = some h) :
    (∃ W, st.Held h W) ∧ ∀ j, j ≠ i → (σ j).handle? = none := by
  cases hl with
  | free hq hall => simp [hall i] at hi
  | @held j g W hh hj ho =>
    by_cases he : i = j
    · subst he
      obtain rfl : g = h := Option.some.inj (hj.symm.trans hi)
      exact ⟨⟨W, hh⟩, ho⟩
    · simp [ho i he] at hi

theorem Stage.Locks.amend (hl : Locks st σ) {g : Nat} {change : Amendment}
    (ho : change ≠ .nothing → (st.tables? g).isSome = true) : Locks (st.amend g change) σ := by
  cases hl with
  | free hq hall =>
    rw [hq.amend ho]
    exact .free hq hall
  | held hh hi hall =>
    rcases hh.amend ho with rfl | ⟨rfl, w, W', rfl⟩
    · exact .held hh hi hall
    · exact .held (hh.setTables W') hi hall

theorem Strand.Confined.mono {d g : Nat} {site site' : Site} {k : Strand (Outcome Unit)}
    (hk : k.Confined d g site) (he : ∀ o, site.Empty o → site'.Empty o) : k.Confined d g site' := by
  obtain ⟨x, k', ha⟩ := hk
  exact ⟨x, k', ha.mono (fun _ _ => id) he fun _ => id⟩

/-- A confined task amends its transaction at most, and what it starts is confined as well. -/
theorem Strand.Confined.move {d g : Nat} {site site₁ : Site} {ts new : Tasks}
    {k k₁ : Strand (Outcome Unit)} (happ : app.ThroughTx) (hk : k.Confined d g site)
    (hs : site.HasStore d st) (ho : site.outbox = []) (hm : k.Move app ts site site₁ k₁ new) :
    ∃ change, site.Amends d g st (k.writes site) change site₁ ∧ k₁.Confined d g site₁ ∧
      ∀ x ∈ new, x.Confined d g site₁ := by
  obtain ⟨x, k', ha⟩ := hk
  have ht : site.Twins d g g { site with bags := x.bags } st st := ⟨hs, hs, rfl, rfl, rfl, ho, ho⟩
  have ha' : k.Alike (· = ·) ⟨d, g⟩ ⟨d, g⟩ site { site with bags := x.bags } k' :=
    ha.mono (fun _ _ => id) (fun _ => id) fun _ he => he
  have hts : ∀ (t t' : Nat) j r, t = t' → ts[t]? = some j → j.result? = some r →
      ∃ j', ts[t']? = some j' ∧ j'.result? = some r := by
    rintro t _ j r rfl hj hr
    exact ⟨j, hj, hr⟩
  obtain ⟨site₁', k₁', new', change, -, hl, -, hk₁, -, hnew⟩ := hm.mirror happ ht ha' hts
  have hR : ∀ t t', Joined (· = ·) ts.length ts.length new t t' → t = t' := by
    rintro t t' (h | ⟨-, rfl, rfl⟩)
    · exact h
    · rfl
  refine ⟨change, hl, ⟨site₁', k₁', hk₁.mono hR (fun _ => id) fun _ => id⟩, fun y hy => ?_⟩
  obtain ⟨i, hi, rfl⟩ := List.getElem_of_mem hy
  have hyy := hnew.get hi (hnew.length_eq ▸ hi)
  exact ⟨site₁', _, Strand.Alike.mono hyy hR (fun _ => id) fun _ => id⟩

/-- A push is finished once it has a result for each mutation. -/
theorem Stage.result?_strand {m : Mutators} {x : Stage} {a : Outcome (List MutationResult)} :
    (x.strand app s m).result? = some a ↔ ∃ rs, x = idle rs [] ∧ a = .ok rs := by
  match x with
  | idle rs [] =>
    simp only [Strand.result?, strand, standing, Server.rest_nil, Option.some.injEq, idle.injEq,
      and_true, exists_eq_left']
    exact eq_comm
  | idle rs (p :: ps) => simp [Strand.result?, strand, standing, Server.rest_cons]
  | busy rs p ps h .called | busy rs p ps h (.waiting t) =>
    simp [Strand.result?, strand, standing]
  | busy rs p ps h (.settling (.ok ())) =>
    simp [Strand.result?, strand, standing, Server.conclude_ok]
  | busy rs p ps h (.settling (.error e)) =>
    simp [Strand.result?, strand, standing, Server.conclude_error]

section Next
variable {m : Mutators} {ts new : Tasks} {x x' : Stage}

theorem Stage.Next.issued_le (hn : x.Next app s m ts st st' x' new) : st.issued ≤ st'.issued := by
  cases hn with
  | begin => exact Nat.le_succ _
  | _ => exact Nat.le_refl _

theorem Stage.Next.locks {i : Nat} (hl : Locks st σ) (hn : (σ i).Next app s m ts st st' x' new) :
    Locks st' (Function.update σ i x') := by
  have hkeep : ∀ {h : Nat}, (σ i).handle? = some h → x'.handle? = some h →
      Locks st (Function.update σ i x') := by
    intro h hi hx
    obtain ⟨⟨W, hW⟩, hothers⟩ := hl.held_of_handle hi
    exact .held (i := i) hW (by simpa using hx) fun j hj => by simpa [hj] using hothers j hj
  have hfree : ∀ {h : Nat}, (σ i).handle? = some h → x'.handle? = none → st'.Quiet →
      Locks st' (Function.update σ i x') := by
    intro h hi hx hq
    obtain ⟨-, hothers⟩ := hl.held_of_handle hi
    refine .free hq fun j => ?_
    by_cases hj : j = i
    · subst hj
      simpa using hx
    · simpa [hj] using hothers j hj
  generalize hσ : σ i = x at hn hkeep hfree
  cases hn with
  | begin hq rs p ps =>
    cases hl with
    | free _ hall =>
      refine .held (i := i) st.entered_held (by simp [handle?]) fun j hj => ?_
      simpa [hj] using hall j
    | held hh => exact absurd hh hq.not_held
  | call | unknown | deliver | expire => exact hkeep rfl rfl
  | commit hh => exact hfree rfl rfl (hh.concluded _)
  | rollback hh => exact hfree rfl rfl hh.release

/-- The tasks that a push starts act through its transaction. -/
theorem Stage.Next.confined (happ : app.ThroughTx) (hn : x.Next app s m ts st st' x' new)
    {k : Strand (Outcome Unit)} (hk : k ∈ new) (site : Site) :
    ∃ h, x.handle? = some h ∧ k.Confined s.database h site := by
  cases hn with
  | call hp rs ps h =>
    obtain rfl := List.mem_singleton.1 hk
    have hi := Invocation.Alike.refl (m.invocation ⟨s.database, h⟩)
    exact ⟨h, rfl, site, _, Call.strand_alike happ hi _ _⟩
  | _ => simp at hk

theorem Stage.Next.answers {all ps : List PushMutation}
    (hn : x.Next app s m ts st st' x' new) (ha : all = ps ++ x.left)
    (hr : List.Forall₂ MutationResult.Reports x.results ps) :
    ∃ ps', all = ps' ++ x'.left ∧ List.Forall₂ MutationResult.Reports x'.results ps' := by
  have hone : ∀ (rs : List MutationResult) (p : PushMutation) (o : MutationOutcome),
      List.Forall₂ MutationResult.Reports rs ps →
        List.Forall₂ MutationResult.Reports (rs ++ [p.result o]) (ps ++ [p]) :=
    fun rs p o h => List.rel_append h (.cons (p.result_reports o) .nil)
  cases hn with
  | begin | call | unknown | deliver | expire => exact ⟨ps, ha, hr⟩
  | commit hh rs p qs => exact ⟨ps ++ [p], by simpa [left] using ha, hone rs p _ hr⟩
  | rollback hh e rs p qs => exact ⟨ps ++ [p], by simpa [left] using ha, hone rs p _ hr⟩

end Next

/-- How pushes stand that have not begun. -/
def Stage.first (us : List Submission) (i : Nat) : Stage :=
  .idle [] ((us[i]?.map Submission.mutations).getD [])

theorem Coherent.start {site : Site} (hs : site.HasStore s.database st) (ho : site.outbox = [])
    (hq : st.Quiet) : Coherent app s us (.pushes s site us) (Stage.first us) st where
  store := hs
  outbox := ho
  mains i := by
    rw [Scene.pushes, Scene.start, List.getElem?_map]
    cases hu : us[i]? with
    | none => rfl
    | some u =>
      simp [Stage.strand, Stage.standing, Stage.first, hu, Server.rest_nil_left]
  nobody i hu := by simp [Stage.first, hu]
  locks := .free hq fun _ => rfl
  tasks := by simp [Scene.pushes, Scene.start]
  answers i u hu := ⟨[], by simp [Stage.first, Stage.left, hu], .nil⟩

/-- A push can make any of its moves, which leaves everything coherent. -/
theorem Coherent.push (happ : app.ThroughTx) (hc : Coherent app s us c σ st) {i : Nat}
    {u : Submission} (hu : us[i]? = some u) {x' : Stage} {new : Tasks}
    (hn : (σ i).Next app s u.mutators c.tasks st st' x' new) :
    Coherent app s us ⟨c.site.withStore s.database st',
      c.mains.set i (x'.strand app s u.mutators), c.tasks ++ new⟩ (Function.update σ i x') st' where
  store := hc.store.withStore st'
  outbox := hc.outbox
  mains j := by
    by_cases hj : j = i
    · subst hj
      have hm := hc.mains j
      rw [hu, Option.map_some] at hm
      obtain ⟨hlt, -⟩ := List.getElem?_eq_some_iff.1 hm
      simp [hlt, hu]
    · rw [List.getElem?_set_ne (Ne.symm hj), hc.mains j, Function.update_of_ne hj]
  nobody j hj := by
    have hij : j ≠ i := by
      rintro rfl
      simp [hu] at hj
    simpa [hij] using hc.nobody j hj
  locks := hn.locks hc.locks
  tasks k hk := by
    have hle := hn.issued_le
    rcases List.mem_append.1 hk with hk | hk
    · obtain ⟨g, hg, hcon⟩ := hc.tasks k hk
      exact ⟨g, by omega, hcon.mono fun _ => id⟩
    · obtain ⟨h, hh, hcon⟩ := hn.confined happ hk (c.site.withStore s.database st')
      obtain ⟨⟨W, hW⟩, -⟩ := hc.locks.held_of_handle hh
      have hlt := hW.issued
      exact ⟨h, by omega, hcon⟩
  answers j v hv := by
    by_cases hj : j = i
    · subst hj
      obtain rfl : v = u := Option.some.inj (hv.symm.trans hu)
      obtain ⟨ps, hps, hr⟩ := hc.answers j v hv
      simpa using hn.answers hps hr
    · simpa [hj] using hc.answers j v hv

/-- Finished pushes are not busy. -/
theorem Coherent.handle?_of_finished (hc : Coherent app s us c σ st)
    (hf : c.results?.isSome = true) (i : Nat) : (σ i).handle? = none := by
  obtain ⟨rs, hrs⟩ := Option.isSome_iff_exists.1 hf
  cases hu : us[i]? with
  | none => rw [hc.nobody i hu, Stage.handle?]
  | some u =>
    have hm := hc.mains i
    rw [hu, Option.map_some] at hm
    obtain ⟨a, -, ha⟩ := Scene.result?_of_results? hrs hm
    obtain ⟨qs, hi, -⟩ := Stage.result?_strand.1 ha
    rw [hi, Stage.handle?]

theorem Stage.marks_strand (m : Mutators) (i : Nat) (site : Site) (x : Stage) :
    (x.strand app s m).calls i ++ (x.strand app s m).writes site = x.marks s.database i := by
  match x with
  | idle rs [] => simp [Strand.calls, Strand.writes, strand, standing, Server.rest_nil, marks]
  | idle rs (p :: ps) =>
    simp [Strand.calls, Strand.writes, strand, standing, Server.rest_cons, marks]
  | busy rs p ps h .called => rfl
  | busy rs p ps h (.waiting t) => rfl
  | busy rs p ps h (.settling (.ok ())) =>
    simp [Strand.calls, Strand.writes, strand, standing, Server.conclude_ok, Request.writes, marks]
  | busy rs p ps h (.settling (.error e)) =>
    simp [Strand.calls, Strand.writes, strand, standing, Server.conclude_error, Request.writes,
      marks]

section Step
variable {site : Site} {new : Tasks} (hc : Coherent app s us c σ st)
include hc

theorem Coherent.main (happ : app.ThroughTx) {i : Nat}
    {k k' : Strand (Outcome (List MutationResult))} (hk : c.mains[i]? = some k)
    (hm : k.Move app c.tasks c.site site k' new) :
    ∃ σ' st', Evolves app s us c σ st (k.calls i ++ k.writes c.site)
      ⟨site, c.mains.set i k', c.tasks ++ new⟩ σ' st' ∧
      Coherent app s us ⟨site, c.mains.set i k', c.tasks ++ new⟩ σ' st' := by
  obtain ⟨u, hu, rfl⟩ : ∃ u, us[i]? = some u ∧ (σ i).strand app s u.mutators = k := by
    simpa [hc.mains i] using hk
  obtain ⟨st', x', hn, rfl, rfl⟩ := Stage.next_of_move hm hc.store hc.outbox hc.locks.steady
    fun h hi => (hc.locks.held_of_handle hi).1
  rw [Stage.marks_strand]
  exact ⟨_, _, .push hu hn, hc.push happ hu hn⟩

theorem Coherent.task (happ : app.ThroughTx) {t : Nat} {k k' : Strand (Outcome Unit)}
    (hk : c.tasks[t]? = some k) (hm : k.Move app c.tasks c.site site k' new) :
    ∃ σ' st', Evolves app s us c σ st (k.writes c.site)
      ⟨site, c.mains, c.tasks.set t k' ++ new⟩ σ' st' ∧
      Coherent app s us ⟨site, c.mains, c.tasks.set t k' ++ new⟩ σ' st' := by
  obtain ⟨g, hg, hcon⟩ := hc.tasks k (List.mem_of_getElem? hk)
  obtain ⟨change, ha, hk', hnew⟩ := hcon.move happ hc.store hc.outbox hm
  refine ⟨σ, st.amend g change, .task hk hg hcon hm ha, ?_⟩
  exact {
    store := ha.store
    outbox := ha.outbox
    mains := hc.mains
    nobody := hc.nobody
    locks := hc.locks.amend ha.opened
    tasks := by
      intro y hy
      rw [st.amend_issued]
      rcases List.mem_append.1 hy with hy | hy
      · rcases List.mem_or_eq_of_mem_set hy with hy | rfl
        · obtain ⟨f, hf, hy⟩ := hc.tasks y hy
          exact ⟨f, hf, hy.mono ha.empty⟩
        · exact ⟨g, hg, hk'⟩
      · exact ⟨g, hg, hnew y hy⟩
    answers := hc.answers }

theorem Coherent.tick (clock : Nat) :
    Coherent app s us { c with site := { c.site with clock } } σ st :=
  ⟨hc.store, hc.outbox, hc.mains, hc.nobody, hc.locks,
    fun k hk => (hc.tasks k hk).imp fun _ hg => ⟨hg.1, hg.2.mono fun _ => id⟩, hc.answers⟩

theorem Coherent.drop {tx : TxRef} (hf : c.results?.isSome = true) :
    Evolves app s us c σ st [] { c with site := c.site.drop tx } σ st ∧
      Coherent app s us { c with site := c.site.drop tx } σ st := by
  have hidle := hc.handle?_of_finished hf
  have hq : st.Quiet := hc.locks.quiet hidle
  obtain ⟨databases, hd⟩ := c.site.drop_eq tx
  refine ⟨.drop tx hq hidle (hc.store.drop_of_quiet hq tx), hc.store.drop_of_quiet hq tx, ?_,
    hc.mains, hc.nobody, hc.locks, fun k hk => ?_, hc.answers⟩
  · simpa [hd] using hc.outbox
  · obtain ⟨g, hg, hcon⟩ := hc.tasks k hk
    refine ⟨g, hg, hcon.mono fun o he => ?_⟩
    rw [hd]
    exact he

end Step

/-- Every run of pushes and tasks is coherent, and what each of its steps keeps holds at its end. -/
theorem Coherent.run {c₀ : Scene (Outcome (List MutationResult))} {σ₀ : Nat → Stage} {st₀ : Store}
    {es : List Mark}
    {P : List Mark → Scene (Outcome (List MutationResult)) → (Nat → Stage) → Store → Prop}
    (happ : app.ThroughTx) (hc : Coherent app s us c₀ σ₀ st₀) (hstart : P [] c₀ σ₀ st₀)
    (hstep : ∀ {es ms c c' σ σ' st st'}, Coherent app s us c σ st → P es c σ st →
      Evolves app s us c σ st ms c' σ' st' → P (es ++ ms) c' σ' st')
    (h : Scene.Logged app c₀ es c) : ∃ σ st, Coherent app s us c σ st ∧ P es c σ st := by
  induction h with
  | start => exact ⟨σ₀, st₀, hc, hstart⟩
  | main _ hk hm ih =>
    obtain ⟨σ, st, hcoh, hP⟩ := ih
    obtain ⟨σ', st', he, hcoh'⟩ := hcoh.main happ hk hm
    exact ⟨σ', st', hcoh', hstep hcoh hP he⟩
  | task _ hk hm ih =>
    obtain ⟨σ, st, hcoh, hP⟩ := ih
    obtain ⟨σ', st', he, hcoh'⟩ := hcoh.task happ hk hm
    exact ⟨σ', st', hcoh', hstep hcoh hP he⟩
  | @tick es c _ clock ih =>
    obtain ⟨σ, st, hcoh, hP⟩ := ih
    refine ⟨σ, st, hcoh.tick clock, ?_⟩
    simpa using hstep hcoh hP (.tick clock)
  | drop _ hf ht ih =>
    obtain ⟨σ, st, hcoh, hP⟩ := ih
    obtain ⟨he, hcoh'⟩ := hcoh.drop hf
    refine ⟨σ, st, hcoh', ?_⟩
    simpa using hstep hcoh hP he

end Keep
end RowGuard
