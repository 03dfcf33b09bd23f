import RowGuard.Proofs.Push.Coherence
import Mathlib.Algebra.Order.BigOperators.Group.Finset

/-! # Every push can be answered

Whatever the bodies of mutations do, a push that is not finished can move, unless it waits for the
lock; and then the push that has the lock can.  Each push makes a bounded number of moves, so that
all of them can be answered from everywhere.
-/
namespace RowGuard

/-- The number of moves that a push has before it at most. -/
def Stage.work : Stage → Nat
  | idle _ ps => 4 * ps.length
  | busy _ _ ps _ .called => 4 * ps.length + 3
  | busy _ _ ps _ (.waiting _) => 4 * ps.length + 2
  | busy _ _ ps _ (.settling _) => 4 * ps.length + 1

section Progress
variable {app : Application} {s : Server} {us : List Submission}
  {c : Scene (Outcome (List MutationResult))} {σ : Nat → Stage} {st st' : Store}

theorem Stage.Next.work_lt {m : Mutators} {ts new : Tasks} {x x' : Stage}
    (hn : x.Next app s m ts st st' x' new) : x'.work < x.work := by
  cases hn <;> simp only [work, List.length_cons] <;> omega

theorem Stage.idle_of_work {x : Stage} (hw : x.work = 0) : ∃ rs, x = idle rs [] := by
  cases x with
  | idle rs ps =>
    cases ps with
    | nil => exact ⟨rs, rfl⟩
    | cons p ps => simp [work] at hw
  | busy rs p ps h phase => cases phase <;> simp [work] at hw

/-- A busy push can always move. -/
theorem Stage.next_of_busy (m : Mutators) (ts : Tasks) {x : Stage} {h : Nat} {W : Tables}
    (hh : st.Held h W) (hx : x.handle? = some h) :
    ∃ st' x' new, x.Next app s m ts st st' x' new := by
  match x with
  | idle rs ps => simp [handle?] at hx
  | busy rs p ps g .called =>
    cases hp : app.mutators.contains p.name with
    | true => exact ⟨_, _, _, .call hp rs ps g⟩
    | false => exact ⟨_, _, _, .unknown hp rs ps g⟩
  | busy rs p ps g (.waiting t) => exact ⟨_, _, _, .expire rs p ps g t⟩
  | busy rs p ps g (.settling (.ok ())) =>
    obtain rfl := Option.some.inj hx
    exact ⟨_, _, _, .commit hh rs p ps⟩
  | busy rs p ps g (.settling (.error e)) =>
    obtain rfl := Option.some.inj hx
    exact ⟨_, _, _, .rollback hh e rs p ps⟩

/-- Some push can move, as long as there is work. -/
theorem Coherent.next (hc : Coherent app s us c σ st) {i : Nat} (hw : (σ i).work ≠ 0) :
    ∃ j u st' x' new, us[j]? = some u ∧ (σ j).Next app s u.mutators c.tasks st st' x' new := by
  have hsome : ∀ j, (σ j).work ≠ 0 → ∃ u, us[j]? = some u := by
    intro j hj
    cases hu : us[j]? with
    | some u => exact ⟨u, rfl⟩
    | none => simp [hc.nobody j hu, Stage.work] at hj
  cases hc.locks with
  | free hq hall =>
    obtain ⟨u, hu⟩ := hsome i hw
    have hi := hall i
    generalize hσ : σ i = x at hw hi
    cases x with
    | busy rs p ps h phase => simp [Stage.handle?] at hi
    | idle rs ps =>
      cases ps with
      | nil => simp [Stage.work] at hw
      | cons p ps =>
        have hn := @Stage.Next.begin app s u.mutators c.tasks st hq rs p ps
        exact ⟨i, u, _, _, _, hu, hσ ▸ hn⟩
  | @held j h W hh hj ho =>
    have hbusy : (σ j).work ≠ 0 := fun h0 => by
      obtain ⟨rs, hx⟩ := Stage.idle_of_work h0
      simp [hx, Stage.handle?] at hj
    obtain ⟨u, hu⟩ := hsome j hbusy
    obtain ⟨st', x', new, hn⟩ := Stage.next_of_busy u.mutators c.tasks hh hj
    exact ⟨j, u, st', x', new, hu, hn⟩

/-- From a coherent scene all pushes can be finished. -/
theorem Coherent.finish (happ : app.ThroughTx) (hc : Coherent app s us c σ st) :
    ∃ c' σ' st', Scene.Steps app c c' ∧ Coherent app s us c' σ' st' ∧ ∀ i, (σ' i).work = 0 := by
  induction hn : ∑ i ∈ Finset.range us.length, (σ i).work using Nat.strong_induction_on
    generalizing c σ st with
  | _ n ih =>
    by_cases hw : ∃ i, (σ i).work ≠ 0
    · obtain ⟨i, hi⟩ := hw
      obtain ⟨j, u, st', x', new, hu, hnext⟩ := hc.next hi
      obtain ⟨hj, -⟩ := List.getElem?_eq_some_iff.1 hu
      have hm := hc.mains j
      rw [hu, Option.map_some] at hm
      have hstep := Scene.Step.main hm (hnext.move hc.store hc.outbox)
      have hlt : ∑ i ∈ Finset.range us.length, (Function.update σ j x' i).work < n := by
        rw [← hn]
        refine Finset.sum_lt_sum (fun i _ => ?_) ⟨j, Finset.mem_range.2 hj, ?_⟩
        · by_cases he : i = j
          · subst he
            simpa using hnext.work_lt.le
          · simp [he]
        · simpa using hnext.work_lt
      obtain ⟨c', σ', st'', hsteps, hc', hall⟩ := ih _ hlt (hc.push happ hu hnext) rfl
      exact ⟨c', σ', st'', .head hstep hsteps, hc', hall⟩
    · exact ⟨c, σ, st, .refl, hc, fun i => by simpa using fun h => hw ⟨i, h⟩⟩

/-- When no work is left, the pushes have their results. -/
theorem Coherent.results?_of_work (hc : Coherent app s us c σ st) (hw : ∀ i, (σ i).work = 0) :
    ∃ rs, c.results? = some rs := by
  apply Scene.exists_results?
  intro k hk
  obtain ⟨i, hi⟩ := List.getElem?_of_mem hk
  obtain ⟨u, hu, rfl⟩ : ∃ u, us[i]? = some u ∧ (σ i).strand app s u.mutators = k := by
    simpa [hc.mains i] using hi
  obtain ⟨rs, hx⟩ := Stage.idle_of_work (hw i)
  exact ⟨.ok rs, Stage.result?_strand.2 ⟨rs, hx, rfl⟩⟩

/-- The results of finished pushes. -/
theorem Coherent.results (hc : Coherent app s us c σ st)
    {rs : List (Outcome (List MutationResult))} (hr : c.results? = some rs) {i : Nat}
    {u : Submission} (hu : us[i]? = some u) :
    rs[i]? = some (.ok (σ i).results) ∧ σ i = .idle (σ i).results [] ∧
      List.Forall₂ MutationResult.Reports (σ i).results u.mutations := by
  have hm := hc.mains i
  rw [hu, Option.map_some] at hm
  obtain ⟨a, ha, hres⟩ := Scene.result?_of_results? hr hm
  obtain ⟨qs, hx, rfl⟩ := Stage.result?_strand.1 hres
  obtain ⟨ps, hps, hrep⟩ := hc.answers i u hu
  rw [hx, Stage.left, List.append_nil] at hps
  subst hps
  have hq : (σ i).results = qs := by rw [hx]; rfl
  rw [hq] at hrep ⊢
  exact ⟨ha, hx, hrep⟩

/-- There are as many answers as pushes. -/
theorem Coherent.length_answers (hc : Coherent app s us c σ st)
    {answers : List (Outcome (List MutationResult))} (ha : c.results? = some answers) :
    answers.length = us.length := by
  have hiff : ∀ i, i < c.mains.length ↔ i < us.length := by
    intro i
    rw [← not_le, ← not_le, ← List.getElem?_eq_none_iff, ← List.getElem?_eq_none_iff, hc.mains i,
      Option.map_eq_none_iff]
  have hm : c.mains.length = us.length := by
    have hlow := hiff us.length
    have hhigh := hiff c.mains.length
    omega
  rw [← (Scene.results?_eq_some_iff.1 ha).length_eq, hm]

/-- The results of a push are those in its answer. -/
theorem Coherent.results_eq (hc : Coherent app s us c σ st)
    {answers : List (Outcome (List MutationResult))} (ha : c.results? = some answers) {i : Nat}
    {rs : List MutationResult} (hi : answers[i]? = some (.ok rs)) : (σ i).results = rs := by
  have hlt : i < us.length := by
    rw [← hc.length_answers ha]
    exact (List.getElem?_eq_some_iff.1 hi).1
  obtain ⟨hr, -, -⟩ := hc.results ha (List.getElem?_eq_getElem hlt)
  rw [hi] at hr
  injection hr with hr
  injection hr with hr
  exact hr.symm

end Progress
end RowGuard
