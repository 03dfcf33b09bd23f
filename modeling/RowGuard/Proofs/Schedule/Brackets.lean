import RowGuard.Proofs.Program.LeavesOpen
import RowGuard.Proofs.Schedule.Deeds

/-! # Code in a transaction of its own

A call that brackets code begins a transaction, runs the code in it and settles it, by a commit or by
a rollback.  In any interleaving with the tasks that the code has started, the call fails with the
committed tables as they were, or it commits the working tables that the code has left.
-/
namespace RowGuard

/-- What follows on code in a transaction: a commit after a success, and then the rest, or a rollback
after a failure, which stands. -/
structure Concludes {α β : Type} (d : Nat) (tx : TxRef) (f : Outcome α → Program (Outcome β))
    (rest : α → Program (Outcome β)) : Prop where
  ok : ∀ v, ∃ next, f (.ok v) = .ask (.commit tx) next ∧ next (.ok ()) = rest v
  error : ∀ e, ∃ next, f (.error e) = .ask (.rollback tx) next ∧ next (.ok ()) = .done (.error e)
  rest : ∀ v, (rest v).LeavesOpen d

/-- A call that asks for what it needs, and then fails or runs code in a transaction of database `d`
that `f` concludes.  The call may have chosen a bag before. -/
inductive Program.Brackets {ι α β : Type} (d : Nat) (f : ι → TxRef → Outcome α → Program (Outcome β)) :
    Program (Outcome β) → Prop where
  | failed (e : Failure) : Brackets d f (.done (.error e))
  | ask {r : Request} (hr : r.settles = false) {next : r.Reply → Program (Outcome β)}
      (h : ∀ x, Brackets d f (next x)) : Brackets d f (.ask r next)
  | begin (b : ι) {next : Outcome TxRef → Program (Outcome β)} {code : TxRef → Program (Outcome α)}
      (hcode : ∀ tx, (code tx).LeavesOpen d) (hok : ∀ tx, next (.ok tx) = (code tx).bind (f b tx)) :
      Brackets d f (.begin d next)

namespace Scene
variable {γ : Type}

/-- The store behind a database has these tables as its committed ones. -/
def Committed (c : Scene γ) (d : Nat) (T : Tables) : Prop :=
  ∃ s, c.site.HasStore d s ∧ s.committed = T

/-- The one main program has come as far as `p`, and the working tables of its open transaction
are `W`. -/
structure Inside (c : Scene γ) (tx : TxRef) (p : Program γ) (W : Tables) : Prop where
  main : ∃ post, c.mains = [⟨post, .running p⟩]
  held : ∃ s, c.site.HasStore tx.database s ∧ s.Held tx.handle W

/-- A store behind a database, with tasks that settle none of its transactions. -/
structure Beside (c : Scene γ) (d : Nat) (s : Store) : Prop where
  store : c.site.HasStore d s
  tasks : c.tasks.LeaveOpen d

/-- A run in which code in a transaction has come to its end, as far as `p`, with the working tables
that the database `d` has as its committed ones in the end. -/
structure Carried (app : Application) (c₀ c₁ c : Scene γ) (d : Nat) (tx : TxRef) (p : Program γ)
    (W : Tables) : Prop where
  before : Steps app c₀ c₁
  inside : c₁.Inside tx p W
  after : Steps app c₁ c
  committed : c.Committed d W

section Single
variable {app : Application} {c c' : Scene γ}

theorem eq_of_getElem?_singleton {k k' : Strand γ} {i : Nat} (h : [k][i]? = some k') :
    i = 0 ∧ k = k' := by
  cases i with
  | zero => exact ⟨rfl, by simpa using h⟩
  | succ i => simp at h

theorem result_of_done {post : Post} {a r : γ} (hc : c.mains = [⟨post, .running (.done a)⟩])
    (hr : c.results? = some [r]) : r = a := by
  have ha : some [a] = some [r] := by simpa [results?, hc, Strand.result?] using hr
  cases ha
  rfl

/-- Where one main program runs, it moves or stays as it is. -/
theorem Step.of_single {k : Strand γ} (hk : c.mains = [k]) (hs : Step app c c') :
    c'.mains = [k] ∨ ∃ site k' new, k.Move app c.tasks c.site site k' new ∧
      c' = ⟨site, [k'], c.tasks ++ new⟩ := by
  cases hs with
  | @main i k₀ k' site new hk₀ hm =>
    rw [hk] at hk₀ ⊢
    obtain ⟨rfl, rfl⟩ := eq_of_getElem?_singleton hk₀
    exact .inr ⟨site, k', new, hm, rfl⟩
  | task => exact .inl hk
  | tick => exact .inl hk
  | drop => exact .inl hk

/-- A program that asks for something and comes to a result has been answered on its way. -/
theorem Steps.ask_result {post : Post} {r : Request} {next : r.Reply → Program γ} {rs : List γ}
    (hs : Steps app c c') (hc : c.mains = [⟨post, .running (.ask r next)⟩])
    (hr : c'.results? = some rs) : ∃ c₁ c₂ post₂, Steps app c c₁ ∧
      c₁.mains = [⟨post, .running (.ask r next)⟩] ∧ Step app c₁ c₂ ∧
      c₂.mains = [⟨post₂, .running (next (c₁.site.answer post r).1)⟩] ∧ Steps app c₂ c' := by
  -- The induction is on the first step, since others may take their turns before the answer.
  induction hs using Relation.ReflTransGen.head_induction_on with
  | refl => simp [results?, hc, Strand.result?] at hr
  | @head c c₁ hstep hs ih =>
    rcases hstep.of_single hc with hc₁ | ⟨site, k', new, hm, rfl⟩
    · obtain ⟨c₂, c₃, post₃, h₁, rest⟩ := ih hc₁
      exact ⟨c₂, c₃, post₃, h₁.head hstep, rest⟩
    · cases hm with
      | ask => exact ⟨c, _, _, .refl, hc, hstep, rfl, hs⟩

/-- A program that has its result keeps it. -/
theorem Steps.done_result {post : Post} {a r : γ} (hs : Steps app c c')
    (hc : c.mains = [⟨post, .running (.done a)⟩]) (hr : c'.results? = some [r]) : r = a := by
  induction hs using Relation.ReflTransGen.head_induction_on with
  | refl => exact result_of_done hc hr
  | head hstep hs ih =>
    rcases hstep.of_single hc with hc₁ | ⟨site, k', new, hm, rfl⟩
    · exact ih hc₁
    · cases hm

end Single

section Beside
variable {app : Application} {c : Scene γ} {d : Nat} {s : Store}

/-- A move of code that settles nothing leaves the store as it is, but for a write. -/
theorem Beside.main {α : Type} (hb : c.Beside d s) (ha : app.LeavesOpen d) {k k' : Strand α}
    {site : Site} {new : Tasks} (hk : k.standing.LeavesOpen d)
    (hm : k.Move app c.tasks c.site site k' new) (mains : List (Strand γ)) :
    k'.standing.LeavesOpen d ∧ ∃ s', Beside ⟨site, mains, c.tasks ++ new⟩ d s' ∧ s.Wrote s' := by
  obtain ⟨hk', hnew, s', hs', hw⟩ := hk.move ha hb.store hm
  exact ⟨hk', s', ⟨hs', hb.tasks.append hnew⟩, hw⟩

theorem Beside.task (hb : c.Beside d s) (ha : app.LeavesOpen d) {t : Nat}
    {k k' : Strand (Outcome Unit)} {site : Site} {new : Tasks} (hk : c.tasks[t]? = some k)
    (hm : k.Move app c.tasks c.site site k' new) (mains : List (Strand γ)) :
    ∃ s', Beside ⟨site, mains, c.tasks.set t k' ++ new⟩ d s' ∧ s.Wrote s' := by
  obtain ⟨hk', hnew, s', hs', hw⟩ := (hb.tasks k (List.mem_of_getElem? hk)).move ha hb.store hm
  exact ⟨s', ⟨hs', (hb.tasks.set t hk').append hnew⟩, hw⟩

theorem Beside.drop (hb : c.Beside d s) (tx : TxRef) : ∃ s',
    Beside { c with site := c.site.drop tx } d s' ∧ (s.Steady → s'.Steady) ∧
      s'.committed = s.committed ∧ (s.Quiet → s' = s) := by
  refine ⟨_, ⟨hb.store.after_drop tx, hb.tasks⟩, ?_, ?_, ?_⟩
  · split
    · exact fun hs => hs.drop _
    · exact id
  · split <;> rfl
  · split
    · exact fun hq => hq.release _
    · exact fun _ => rfl

end Beside
end Scene

section Run
variable {ι α β : Type} {d : Nat} {f : ι → TxRef → Outcome α → Program (Outcome β)}
  {rest : ι → α → Program (Outcome β)} {app : Application} {c₀ c c' : Scene (Outcome β)} {T : Tables}

/-- How far a call has come that brackets code: it has not begun a transaction, the code is running,
the working tables that the code has left are committed, or the call has failed. -/
inductive Bracketing (d : Nat) (f : ι → TxRef → Outcome α → Program (Outcome β))
    (rest : ι → α → Program (Outcome β)) (app : Application) (c₀ : Scene (Outcome β)) (T : Tables)
    (c : Scene (Outcome β)) : Prop where
  | entering {post : Post} {p : Program (Outcome β)} {s : Store}
      (hm : c.mains = [⟨post, .running p⟩]) (hp : p.Brackets d f) (hb : c.Beside d s)
      (hs : s.Steady) (hT : s.committed = T)
  | inside {post : Post} {x : Standing (Outcome α)} {b : ι} {tx : TxRef} {s : Store} {W : Tables}
      (hm : c.mains = [⟨post, x.bind (f b tx)⟩]) (hx : x.LeavesOpen d) (htx : tx.database = d)
      (hb : c.Beside d s) (hs : s.Held tx.handle W) (hT : s.committed = T)
  | committed {post post₂ : Post} {x : Standing (Outcome β)} {b : ι} {tx : TxRef} {v : α} {s : Store}
      {c₁ c₂ : Scene (Outcome β)} (hm : c.mains = [⟨post, x⟩]) (hx : x.LeavesOpen d)
      (hb : c.Beside d s) (hs : s.Quiet) (h₁ : Scene.Steps app c₀ c₁)
      (hin : c₁.Inside tx (f b tx (.ok v)) s.committed) (h₂ : Scene.Steps app c₁ c₂)
      (hm₂ : c₂.mains = [⟨post₂, .running (rest b v)⟩]) (h : Scene.Steps app c₂ c)
  | failed {post : Post} {e : Failure} {s : Store}
      (hm : c.mains = [⟨post, .running (.done (.error e))⟩]) (hb : c.Beside d s) (hs : s.Steady)
      (hT : s.committed = T)

theorem Bracketing.single (h : Bracketing d f rest app c₀ T c) : ∃ k, c.mains = [k] := by
  cases h with
  | entering hm | inside hm | committed hm | failed hm => exact ⟨_, hm⟩

/-- What happens beside the call is at most a write. -/
theorem Bracketing.beside (h : Bracketing d f rest app c₀ T c) (hstep : Scene.Step app c c')
    (hm' : c'.mains = c.mains)
    (hw : ∀ s, c.Beside d s → ∃ s', c'.Beside d s' ∧ s.Wrote s') :
    Bracketing d f rest app c₀ T c' := by
  cases h with
  | entering hm hp hb hs hT =>
    obtain ⟨s', hb', hw⟩ := hw _ hb
    exact .entering (hm'.trans hm) hp hb' (hw.steady hs) (hw.committed.trans hT)
  | inside hm hx htx hb hs hT =>
    obtain ⟨s', hb', hw⟩ := hw _ hb
    obtain ⟨W', hs'⟩ := hw.held hs
    exact .inside (hm'.trans hm) hx htx hb' hs' (hw.committed.trans hT)
  | committed hm hx hb hs h₁ hin h₂ hm₂ h =>
    obtain ⟨s', hb', hw⟩ := hw _ hb
    obtain rfl := hw.quiet hs
    exact .committed (hm'.trans hm) hx hb' hs h₁ hin h₂ hm₂ (h.tail hstep)
  | failed hm hb hs hT =>
    obtain ⟨s', hb', hw⟩ := hw _ hb
    exact .failed (hm'.trans hm) hb' (hw.steady hs) (hw.committed.trans hT)

/-- Code in a transaction is not the end of the call. -/
theorem Concludes.unfinished {tx : TxRef} {g : Outcome α → Program (Outcome β)}
    {rest : α → Program (Outcome β)} (hf : Concludes d tx g rest) (post : Post)
    (x : Standing (Outcome α)) : (⟨post, x.bind g⟩ : Strand (Outcome β)).result? = none := by
  cases x with
  | waiting t overrun next => rfl
  | running p =>
    cases p with
    | done r =>
      cases r with
      | ok v =>
        obtain ⟨next, hg, -⟩ := hf.ok v
        simp [Standing.bind, Program.bind, hg, Strand.result?]
      | error e =>
        obtain ⟨next, hg, -⟩ := hf.error e
        simp [Standing.bind, Program.bind, hg, Strand.result?]
    | _ => rfl

section Step
variable (hf : ∀ b tx, tx.database = d → Concludes d tx (f b tx) (rest b))
include hf

theorem Bracketing.drop (h : Bracketing d f rest app c₀ T c) {tx : TxRef} (hr : c.results?.isSome)
    (hstep : Scene.Step app c { c with site := c.site.drop tx }) :
    Bracketing d f rest app c₀ T { c with site := c.site.drop tx } := by
  cases h with
  | entering hm hp hb hs hT =>
    obtain ⟨s', hb', hs', hT', -⟩ := hb.drop tx
    exact .entering hm hp hb' (hs' hs) (hT'.trans hT)
  | @inside post x b tx' _ _ hm _ htx _ _ _ =>
    -- Handles are dropped when the call has ended.
    have hnone := (hf b tx' htx).unfinished post x
    simp [Scene.results?, hm, hnone] at hr
  | committed hm hx hb hs h₁ hin h₂ hm₂ h =>
    obtain ⟨s', hb', -, -, hq⟩ := hb.drop tx
    obtain rfl := hq hs
    exact .committed hm hx hb' hs h₁ hin h₂ hm₂ (h.tail hstep)
  | failed hm hb hs hT =>
    obtain ⟨s', hb', hs', hT', -⟩ := hb.drop tx
    exact .failed hm hb' (hs' hs) (hT'.trans hT)

/-- Code that has come to an end commits its working tables, or rolls them back. -/
theorem Bracketing.conclude {post : Post} {r : Outcome α} {b : ι} {tx : TxRef} {s : Store} {W : Tables}
    (hm : c.mains = [⟨post, .running (f b tx r)⟩]) (htx : tx.database = d) (hb : c.Beside d s)
    (hs : s.Held tx.handle W) (hT : s.committed = T) (ha : app.LeavesOpen d)
    (h₀ : Scene.Steps app c₀ c) {k' : Strand (Outcome β)} {site : Site} {new : Tasks}
    (hmove : Strand.Move app c.tasks c.site ⟨post, .running (f b tx r)⟩ site k' new)
    (hstep : Scene.Step app c ⟨site, [k'], c.tasks ++ new⟩) :
    Bracketing d f rest app c₀ T ⟨site, [k'], c.tasks ++ new⟩ := by
  subst htx
  have hnew := Job.strands_leaveOpen ha
  cases r with
  | ok v =>
    obtain ⟨next, hnext, hrest⟩ := (hf b tx rfl).ok v
    rw [hnext] at hmove
    cases hmove with
    | ask =>
      rw [hb.store.answer_commit, hs.commit] at hstep ⊢
      have hin : c.Inside tx (f b tx (.ok v)) W := ⟨⟨post, hm⟩, s, hb.store, hs⟩
      have hstore := hb.store.withStore (s.concluded tx.handle W)
      exact .committed rfl (hrest ▸ (hf b tx rfl).rest v) ⟨hstore, hb.tasks.append (hnew _)⟩
        (hs.concluded W) h₀ hin (.single hstep) (by rw [hrest]) .refl
  | error e =>
    obtain ⟨next, hnext, hend⟩ := (hf b tx rfl).error e
    rw [hnext] at hmove
    cases hmove with
    | ask =>
      rw [hb.store.answer_rollback, hs.rollback]
      have hstore := hb.store.withStore (s.release tx.handle)
      exact .failed (by rw [hend]) ⟨hstore, hb.tasks.append (hnew _)⟩ (.inl hs.release) hT

/-- A move of the call leads to its next stage. -/
theorem Bracketing.main (h : Bracketing d f rest app c₀ T c) (ha : app.LeavesOpen d)
    (h₀ : Scene.Steps app c₀ c) {k k' : Strand (Outcome β)} (hk : c.mains = [k]) {site : Site}
    {new : Tasks} (hmove : k.Move app c.tasks c.site site k' new)
    (hstep : Scene.Step app c ⟨site, [k'], c.tasks ++ new⟩) :
    Bracketing d f rest app c₀ T ⟨site, [k'], c.tasks ++ new⟩ := by
  cases h with
  | entering hm hp hb hs hT =>
    obtain rfl := List.singleton_inj.1 (hk.symm.trans hm)
    cases hp with
    | failed e => cases hmove
    | ask hr h =>
      cases hmove with
      | ask =>
        obtain ⟨s', hs', hw⟩ := hb.store.answer_wrote _ hr
        exact .entering rfl (h _) ⟨hs', hb.tasks.append (Job.strands_leaveOpen ha _)⟩
          (hw.steady hs) (hw.committed.trans hT)
    | begin b hcode hok =>
      cases hmove with
      | begin hbegin =>
        rw [hb.store.begin?] at hbegin
        -- While another transaction is open the call waits, and there is no such move.
        rcases hs with hq | ⟨h, W, hh⟩
        · rw [hq.begin?] at hbegin
          obtain ⟨rfl, rfl⟩ := Prod.mk.inj (Option.some.inj hbegin)
          refine .inside (x := .running _) (by rw [hok]; rfl) (hcode _) rfl
            ⟨hb.store.withStore _, hb.tasks.append fun _ h => nomatch h⟩ (Store.entered_held _) hT
        · simp [hh.begin?] at hbegin
  | inside hm hx htx hb hs hT =>
    obtain rfl := List.singleton_inj.1 (hk.symm.trans hm)
    -- The move is that of the code, or the code is at its end.
    rcases hmove.of_bind with ⟨r, rfl⟩ | ⟨k, rfl, hown⟩
    · exact .conclude hf hm htx hb hs hT ha h₀ hmove hstep
    · obtain ⟨hx', s', hb', hw⟩ := hb.main (k := ⟨_, _⟩) ha hx hown [⟨k.post, k.standing.bind _⟩]
      obtain ⟨W', hs'⟩ := hw.held hs
      exact .inside rfl hx' htx hb' hs' (hw.committed.trans hT)
  | committed hm hx hb hs h₁ hin h₂ hm₂ h =>
    obtain rfl := List.singleton_inj.1 (hk.symm.trans hm)
    obtain ⟨hx', s', hb', hw⟩ := hb.main (k := ⟨_, _⟩) ha hx hmove [k']
    obtain rfl := hw.quiet hs
    exact .committed rfl hx' hb' hs h₁ hin h₂ hm₂ (h.tail hstep)
  | failed hm hb hs hT =>
    obtain rfl := List.singleton_inj.1 (hk.symm.trans hm)
    cases hmove

/-- Whatever happens next, the call is at one of its stages. -/
theorem Bracketing.step (h : Bracketing d f rest app c₀ T c) (ha : app.LeavesOpen d)
    (h₀ : Scene.Steps app c₀ c) (hstep : Scene.Step app c c') :
    Bracketing d f rest app c₀ T c' := by
  have hs := hstep
  cases hstep with
  | @main i k k' site new hk hmove =>
    obtain ⟨k₀, hmains⟩ := h.single
    rw [hmains] at hk
    obtain ⟨rfl, rfl⟩ := Scene.eq_of_getElem?_singleton hk
    rw [hmains] at hs ⊢
    exact h.main hf ha h₀ hmains hmove hs
  | task hk hmove => exact h.beside hs rfl fun s hb => hb.task ha hk hmove c.mains
  | tick clock => exact h.beside hs rfl fun s hb => ⟨s, ⟨hb.store, hb.tasks⟩, .inl rfl⟩
  | drop hr hd => exact h.drop hf hr hs

theorem Bracketing.run (h : Bracketing d f rest app c₀ T c₀) (ha : app.LeavesOpen d)
    (hsteps : Scene.Steps app c₀ c) : Bracketing d f rest app c₀ T c := by
  induction hsteps with
  | refl => exact h
  | tail hs hstep ih => exact ih.step hf ha hs hstep

/-- A call that has come to a result has failed, and nothing is written, or the working tables that
its code has left are committed, and the rest of the call has followed. -/
theorem Bracketing.result (h : Bracketing d f rest app c₀ T c) {r : Outcome β}
    (hr : c.results? = some [r]) : (∃ e, r = .error e ∧ c.Committed d T) ∨
      ∃ b tx v W c₁ c₂ post₂, Scene.Carried app c₀ c₁ c d tx (f b tx (.ok v)) W ∧
        Scene.Steps app c₁ c₂ ∧ c₂.mains = [⟨post₂, .running (rest b v)⟩] ∧ Scene.Steps app c₂ c := by
  cases h with
  | @entering post p s hm hp hb hs hT =>
    cases hp with
    | failed e => exact .inl ⟨e, Scene.result_of_done hm hr, s, hb.store, hT⟩
    | ask => simp [Scene.results?, hm, Strand.result?] at hr
    | begin => simp [Scene.results?, hm, Strand.result?] at hr
  | @inside post x b tx _ _ hm _ htx _ _ _ =>
    have hnone := (hf b tx htx).unfinished post x
    simp [Scene.results?, hm, hnone] at hr
  | @committed post post₂ x b tx v s c₁ c₂ hm hx hb hs h₁ hin h₂ hm₂ h =>
    exact .inr ⟨b, tx, v, s.committed, c₁, c₂, post₂, ⟨h₁, hin, h₂.trans h, s, hb.store, rfl⟩,
      h₂, hm₂, h⟩
  | @failed post e s hm hb hs hT =>
    exact .inl ⟨e, Scene.result_of_done hm hr, s, hb.store, hT⟩

end Step

end Run
end RowGuard
