import RowGuard.Proofs.Schedule.DirectSite
import RowGuard.Proofs.Schedule.Turns
import Mathlib.Data.List.Nodup

/-! # The machine is one of the interleavings

Whatever the machine does to its programs and tasks, they can do in steps of their own.  `Agrees` says
when a machine and a scene stand alike; every part of a run of the machine keeps it, while the scene
makes steps.  So what holds after every interleaving holds when the machine is through.
-/
namespace RowGuard

/-- A main program of the machine stands as a strand. -/
structure Main.Stands {α : Type} (x : Main α) (k : Strand α) : Prop where
  post : k.post = x.post
  state : x.state.Stands k.standing

section Lift
variable {α β : Type} {app : Application} {n : Nat} {site site' : Site} {new : Tasks}

theorem set_of_getElem? {l : List β} {i : Nat} {a : β} (h : l[i]? = some a) : l.set i a = l := by
  obtain ⟨hi, rfl⟩ := List.getElem?_eq_some_iff.1 h
  exact List.set_getElem_self hi

/-- A run of a main program, step by step. -/
theorem Strand.Run.steps_main {k k' : Strand α} (hr : Strand.Run app n site k site' k' new)
    {c : Scene α} {i : Nat} (hs : c.site = site) (hn : c.tasks.length = n)
    (hk : c.mains[i]? = some k) :
    Scene.Steps app c ⟨site', c.mains.set i k', c.tasks ++ new⟩ := by
  induction hr generalizing c with
  | refl n site k =>
    subst hs
    rw [set_of_getElem? hk, List.append_nil]
  | @head n site site₁ site₂ k k₁ k₂ new new₂ hm _ ih =>
    subst hs
    have hstep : Scene.Step app c ⟨site₁, c.mains.set i k₁, c.tasks ++ new⟩ := .main hk (hm _ hn)
    have hi := (List.getElem?_eq_some_iff.1 hk).1
    have hrest := @ih ⟨site₁, c.mains.set i k₁, c.tasks ++ new⟩ rfl (by simp [hn])
      (List.getElem?_set_self hi)
    rw [List.set_set, List.append_assoc] at hrest
    exact .head hstep hrest

/-- A run of a task, step by step. -/
theorem Strand.Run.steps_task {k k' : Strand (Outcome Unit)}
    (hr : Strand.Run app n site k site' k' new) {c : Scene α} {t : Nat} (hs : c.site = site)
    (hn : c.tasks.length = n) (hk : c.tasks[t]? = some k) :
    Scene.Steps app c ⟨site', c.mains, c.tasks.set t k' ++ new⟩ := by
  induction hr generalizing c with
  | refl n site k =>
    subst hs
    rw [set_of_getElem? hk, List.append_nil]
  | @head n site site₁ site₂ k k₁ k₂ new new₂ hm _ ih =>
    subst hs
    have hstep : Scene.Step app c ⟨site₁, c.mains, c.tasks.set t k₁ ++ new⟩ := .task hk (hm _ hn)
    have ht := (List.getElem?_eq_some_iff.1 hk).1
    have ht' : t < (c.tasks.set t k₁).length := by simpa using ht
    have hrest := @ih ⟨site₁, c.mains, c.tasks.set t k₁ ++ new⟩ rfl (by simp [hn])
      (by rw [List.getElem?_append_left ht', List.getElem?_set_self ht])
    rw [List.set_append_left _ _ ht', List.set_set, List.append_assoc] at hrest
    exact .head hstep hrest

end Lift

namespace Machine

/-- An entry of the queue: its owner waits for that lock, in the machine and in the scene. -/
inductive Queued {α : Type} (m : Machine α) (c : Scene α) : Nat × Owner → Prop where
  | main {i d : Nat} {x : Main α} {k : Strand α} {next : Outcome TxRef → Program α}
      (hx : m.mains[i]? = some x) (hk : c.mains[i]? = some k) (hs : x.state = .atLock next)
      (hr : k.standing = .running (.begin d next)) : Queued m c (d, .main i)
  | task {d : Nat} {x : Task} {k : Strand (Outcome Unit)}
      {next : Outcome TxRef → Program (Outcome Unit)} (hx : x ∈ m.tasks)
      (hk : c.tasks[x.id]? = some k) (hs : x.state = .atLock next)
      (hr : k.standing = .running (.begin d next)) : Queued m c (d, .task x.id)

/-- A machine and a scene stand alike; `Q` are the waits for locks. -/
structure Agrees {α : Type} (m : Machine α) (Q : List (Nat × Owner)) (c : Scene α) : Prop where
  site : c.site = m.site
  outbox : m.site.outbox = []
  started : m.started = c.tasks.length
  ids : (m.tasks.map Task.id).Nodup
  length : m.mains.length = c.mains.length
  main : ∀ (i : Nat) (x : Main α), m.mains[i]? = some x → ∃ k, c.mains[i]? = some k ∧ x.Stands k
  task : ∀ x ∈ m.tasks, ∃ k, c.tasks[x.id]? = some k ∧ x.Stands k
  gone : ∀ (t : Nat) (k : Strand (Outcome Unit)), c.tasks[t]? = some k →
    (∀ x ∈ m.tasks, x.id ≠ t) → k.result?.isSome = true
  queued : ∀ e ∈ Q, m.Queued c e
  owners : (Q.map Prod.snd).Nodup
  orphans : m.orphans = [] ∨ c.mains = []

section Agrees
variable {α : Type} (app : Application) {m m' : Machine α} {Q Q' : List (Nat × Owner)} {c : Scene α}

theorem Agrees.congr (h : m.Agrees Q c) (hs : m'.site = m.site) (ht : m'.tasks = m.tasks)
    (hn : m'.started = m.started) (hm : m'.mains = m.mains) (ho : m'.orphans = [] ∨ c.mains = []) :
    m'.Agrees Q c where
  site := h.site.trans hs.symm
  outbox := by rw [hs, h.outbox]
  started := by rw [hn, h.started]
  ids := by rw [ht]; exact h.ids
  length := by rw [hm, h.length]
  main := by rw [hm]; exact h.main
  task := by rw [ht]; exact h.task
  gone := by rw [ht]; exact h.gone
  queued e he := by
    cases h.queued e he with
    | main hx hk hs hr => exact .main (by rw [hm]; exact hx) hk hs hr
    | task hx hk hs hr => exact .task (by rw [ht]; exact hx) hk hs hr
  owners := h.owners
  orphans := ho

theorem Agrees.lt (h : m.Agrees Q c) {x : Task} (hx : x ∈ m.tasks) : x.id < c.tasks.length := by
  obtain ⟨k, hk, -⟩ := h.task x hx
  exact (List.getElem?_eq_some_iff.1 hk).1

/-- A task is known by its number. -/
theorem Agrees.eq_of_id (h : m.Agrees Q c) {x y : Task} (hx : x ∈ m.tasks) (hy : y ∈ m.tasks)
    (he : x.id = y.id) : x = y := List.inj_on_of_nodup_map h.ids hx hy he

/-- Tasks that the machine starts are started in the scene as well. -/
theorem Agrees.grow (h : m.Agrees Q c) {b : Background} {new : Tasks}
    (hg : m.toBackground.Grew b new) (ho : b.site.outbox = []) :
    (m.withBackground b).Agrees Q ⟨b.site, c.mains, c.tasks ++ new⟩ := by
  obtain ⟨fresh, ht, hid, hf⟩ := hg.tasks
  have ht : (m.withBackground b).tasks = m.tasks ++ fresh := ht
  have hlen : fresh.length = new.length := hf.length_eq
  have hat : ∀ j, (hj : j < fresh.length) → fresh[j].id = c.tasks.length + j := by
    intro j hj
    have hj' : j < (fresh.map Task.id).length := by simpa using hj
    have he : (fresh.map Task.id)[j] = fresh[j].id := by simp
    rw [← he]
    simp only [hid, List.getElem_range', Nat.one_mul]
    rw [← h.started]
  have hfresh : ∀ x ∈ fresh, c.tasks.length ≤ x.id ∧
      ∃ k, (c.tasks ++ new)[x.id]? = some k ∧ x.Stands k := by
    intro x hx
    obtain ⟨j, hj, rfl⟩ := List.getElem_of_mem hx
    have hj' : j < new.length := hlen ▸ hj
    refine ⟨by rw [hat j hj]; omega, new[j], ?_, by simpa using hf.get hj hj'⟩
    rw [hat j hj, List.getElem?_append_right (by omega), Nat.add_sub_cancel_left,
      List.getElem?_eq_getElem hj']
  have hold : ∀ t < c.tasks.length, (c.tasks ++ new)[t]? = c.tasks[t]? :=
    fun t ht => List.getElem?_append_left ht
  exact {
    site := rfl
    outbox := ho
    started := by
      rw [List.length_append, ← h.started]
      exact hg.started
    ids := by
      rw [ht, List.map_append, hid]
      apply List.Nodup.append h.ids List.nodup_range'
      intro i hi hi'
      obtain ⟨x, hx, rfl⟩ := List.mem_map.1 hi
      have hlt := h.lt hx
      have hge := (List.mem_range'_1.1 hi').1
      have hn := h.started
      omega
    length := h.length
    main := h.main
    task := by
      intro x hx
      rw [ht] at hx
      rcases List.mem_append.1 hx with hx | hx
      · obtain ⟨k, hk, hs⟩ := h.task x hx
        exact ⟨k, by rw [hold _ (h.lt hx), hk], hs⟩
      · exact (hfresh x hx).2
    gone := by
      intro t k hk hno
      rw [ht] at hno
      by_cases hlt : t < c.tasks.length
      · dsimp only at hk
        rw [hold t hlt] at hk
        exact h.gone t k hk fun x hx => hno x (List.mem_append_left _ hx)
      · have hlt' := (List.getElem?_eq_some_iff.1 hk).1
        rw [List.length_append] at hlt'
        have hj : t - c.tasks.length < fresh.length := by omega
        have he := hat _ hj
        exact absurd (by omega) (hno _ (List.mem_append_right _ (List.getElem_mem hj)))
    queued := by
      intro e he
      cases h.queued e he with
      | main hx hk hs hr => exact .main hx hk hs hr
      | task hx hk hs hr =>
        refine .task (by rw [ht]; exact List.mem_append_left _ hx) ?_ hs hr
        rw [← hk]
        exact hold _ (h.lt hx)
    owners := h.owners
    orphans := by
      have ho : (m.withBackground b).orphans = m.orphans := hg.orphans
      rw [ho]
      exact h.orphans }

/-- What may become of the queue when its owner `o` has moved on. -/
def Requeues (Q Q' : List (Nat × Owner)) (o : Owner) (waits : Nat → Prop) : Prop :=
  (∀ e ∈ Q', e ∈ Q ∧ e.2 ≠ o ∨ e.2 = o ∧ waits e.1) ∧ (Q'.map Prod.snd).Nodup

theorem Agrees.setMain (h : m.Agrees Q c) {i : Nat} {x' : Main α} {k' : Strand α}
    (hi : i < m.mains.length) (hs : x'.Stands k')
    (hQ : Requeues Q Q' (.main i) fun d => ∃ next, x'.state = .atLock next ∧
      k'.standing = .running (.begin d next)) :
    ({ m with mains := m.mains.set i x' } : Machine α).Agrees Q'
      { c with mains := c.mains.set i k' } := by
  have hic : i < c.mains.length := h.length ▸ hi
  exact {
    site := h.site
    outbox := h.outbox
    started := h.started
    ids := h.ids
    length := by simp [h.length]
    main := by
      intro j x hx
      dsimp only at hx ⊢
      by_cases hj : i = j
      · subst hj
        rw [List.getElem?_set_self hi] at hx
        obtain rfl := Option.some.inj hx
        exact ⟨k', List.getElem?_set_self hic, hs⟩
      · rw [List.getElem?_set_ne hj] at hx ⊢
        exact h.main j x hx
    task := h.task
    gone := h.gone
    queued := by
      rintro ⟨d, o⟩ he
      rcases hQ.1 _ he with ⟨hold, hne⟩ | ⟨ho, next, hx, hk⟩
      · cases h.queued _ hold with
        | @main j _ _ _ next hx hk hs hr =>
          have hj : i ≠ j := fun e => hne (by rw [e])
          exact .main (by dsimp only; rw [List.getElem?_set_ne hj]; exact hx)
            (by dsimp only; rw [List.getElem?_set_ne hj]; exact hk) hs hr
        | task hx hk hs hr => exact .task hx hk hs hr
      · obtain rfl : o = .main i := ho
        exact .main (List.getElem?_set_self hi) (List.getElem?_set_self hic) hx hk
    owners := hQ.2
    orphans := h.orphans.imp_right fun hn => by simp [hn] }

theorem Agrees.setTask (h : m.Agrees Q c) {x x' : Task} {k' : Strand (Outcome Unit)}
    (hx : x ∈ m.tasks) (hs : x'.Stands k') (hid : x'.id = x.id)
    (hQ : Requeues Q Q' (.task x.id) fun d => ∃ next, x'.state = .atLock next ∧
      k'.standing = .running (.begin d next)) :
    ({ m with tasks := m.tasks.map fun t => if t.id = x.id then x' else t } : Machine α).Agrees Q'
      { c with tasks := c.tasks.set x.id k' } := by
  have hlt := h.lt hx
  have hkeep : ∀ t : Task, (if t.id = x.id then x' else t).id = t.id := by
    intro t
    split
    · rename_i he
      rw [hid, he]
    · rfl
  exact {
    site := h.site
    outbox := h.outbox
    started := by simp [h.started]
    ids := by
      rw [List.map_map]
      have he : (Task.id ∘ fun t => if t.id = x.id then x' else t) = Task.id := funext hkeep
      rw [he]
      exact h.ids
    length := h.length
    main := h.main
    task := by
      intro y hy
      obtain ⟨t, ht, rfl⟩ := List.mem_map.1 hy
      dsimp only
      rw [hkeep]
      by_cases he : t.id = x.id
      · rw [if_pos he, he]
        exact ⟨k', List.getElem?_set_self hlt, hs⟩
      · rw [if_neg he, List.getElem?_set_ne (Ne.symm he)]
        exact h.task t ht
    gone := by
      intro t k hk hno
      have hne : ∀ y ∈ m.tasks, y.id ≠ t := fun y hy => by
        have hn := hno _ (List.mem_map_of_mem hy)
        rwa [hkeep] at hn
      dsimp only at hk
      rw [List.getElem?_set_ne (hne x hx)] at hk
      exact h.gone t k hk hne
    queued := by
      rintro ⟨d, o⟩ he
      rcases hQ.1 _ he with ⟨hold, hne⟩ | ⟨ho, next, hxs, hk⟩
      · cases h.queued _ hold with
        | main hx hk hs hr => exact .main hx hk hs hr
        | @task _ y _ _ hy hk hs hr =>
          have hj : y.id ≠ x.id := fun e => hne (by rw [e])
          refine .task (List.mem_map.2 ⟨y, hy, if_neg hj⟩) ?_ hs hr
          dsimp only
          rw [List.getElem?_set_ne (Ne.symm hj)]
          exact hk
      · obtain rfl : o = .task x.id := ho
        have hx' : x' ∈ m.tasks.map fun t => if t.id = x.id then x' else t :=
          List.mem_map.2 ⟨x, hx, if_pos rfl⟩
        have hk' : (c.tasks.set x.id k')[x'.id]? = some k' := by
          rw [hid]
          exact List.getElem?_set_self hlt
        have hq : Queued { m with tasks := m.tasks.map fun t => if t.id = x.id then x' else t }
          { c with tasks := c.tasks.set x.id k' } (d, .task x'.id) := .task hx' hk' hxs hk
        rwa [hid] at hq
    owners := hQ.2
    orphans := h.orphans }

section Turns
variable (h : m.Agrees Q c)
include h

theorem Agrees.not_queued_main {i : Nat} {x : Main α} (hx : m.mains[i]? = some x)
    (hs : ∀ next, x.state ≠ .atLock next) : ∀ e ∈ Q, e.2 ≠ .main i := by
  rintro ⟨d, o⟩ he rfl
  cases h.queued _ he with
  | main hx' _ hs' =>
    obtain rfl := Option.some.inj (hx.symm.trans hx')
    exact hs _ hs'

theorem Agrees.not_queued_task {x : Task} (hx : x ∈ m.tasks) (hs : ∀ next, x.state ≠ .atLock next) :
    ∀ e ∈ Q, e.2 ≠ .task x.id := by
  rintro ⟨d, o⟩ he ho
  cases h.queued _ he with
  | main => cases ho
  | @task _ y _ next hy _ hs' =>
    obtain rfl := h.eq_of_id hy hx (Owner.task.inj ho)
    exact hs _ hs'

/-- An owner that has not been in the queue is in it now if it waits for a lock. -/
theorem Agrees.requeues {o : Owner} (hno : ∀ e ∈ Q, e.2 ≠ o) {waits : Nat → Prop}
    (hQ : Q' = Q ∨ ∃ d, Q' = Q ++ [(d, o)] ∧ waits d) : Requeues Q Q' o waits := by
  rcases hQ with rfl | ⟨d, rfl, hw⟩
  · exact ⟨fun e he => .inl ⟨he, hno e he⟩, h.owners⟩
  · constructor
    · intro e he
      rcases List.mem_append.1 he with he | he
      · exact .inl ⟨he, hno e he⟩
      · obtain rfl := List.mem_singleton.1 he
        exact .inr ⟨rfl, hw⟩
    · rw [List.map_append]
      apply List.Nodup.append h.owners (List.nodup_singleton _)
      intro x hx hx'
      obtain ⟨e, he, rfl⟩ := List.mem_map.1 hx
      exact hno e he (by simpa using hx')

end Turns

theorem Agrees.ran_main (h : m.Agrees m.queue c) {i : Nat} {x : Main α} {k : Strand α}
    (hx : m.mains[i]? = some x) (hk : c.mains[i]? = some k) (hready : x.state.isReady = true)
    {b : Background} {post : Post} {state : Thread α}
    (hran : Background.Ran app (.main i) m.toBackground k b post state) :
    ∃ c', Scene.Steps app c c' ∧
      (({ m with mains := m.mains.set i ⟨post, state⟩ } : Machine α).withBackground b).Agrees
        b.queue c' := by
  obtain ⟨standing, new, hrun, ho, hst, hg, hq⟩ := hran
  have hno := h.not_queued_main hx fun next he => by simp [he, Thread.isReady] at hready
  have hgrow := h.grow hg ho
  have hstands : (⟨post, state⟩ : Main α).Stands ⟨post, standing⟩ := ⟨rfl, hst⟩
  have hset := hgrow.setMain (List.getElem?_eq_some_iff.1 hx).1 hstands
    (hgrow.requeues hno (hq.imp_right fun hq => by
      obtain ⟨d, next, hq, hs, hr⟩ := hq
      exact ⟨d, hq, next, hs, hr⟩))
  exact ⟨_, hrun.steps_main h.site h.started.symm hk, hset⟩

theorem Agrees.ran_task (h : m.Agrees m.queue c) {x : Task} {k : Strand (Outcome Unit)}
    (hx : x ∈ m.tasks) (hk : c.tasks[x.id]? = some k) (hready : x.state.isReady = true)
    {b : Background} {post : Post} {state : Thread (Outcome Unit)}
    (hran : Background.Ran app (.task x.id) m.toBackground k b post state) :
    ∃ c', Scene.Steps app c c' ∧ c'.mains = c.mains ∧
      ({ m.withBackground b with
        tasks := b.tasks.map fun t => if t.id = x.id then ⟨x.id, post, state⟩ else t } :
          Machine α).Agrees b.queue c' := by
  obtain ⟨standing, new, hrun, ho, hst, hg, hq⟩ := hran
  have hno := h.not_queued_task hx fun next he => by simp [he, Thread.isReady] at hready
  have hgrow := h.grow hg ho
  have hx' : x ∈ (m.withBackground b).tasks := by
    obtain ⟨fresh, ht, -⟩ := hg.tasks
    have ht : (m.withBackground b).tasks = m.tasks ++ fresh := ht
    rw [ht]
    exact List.mem_append_left _ hx
  have hstands : (⟨x.id, post, state⟩ : Task).Stands ⟨post, standing⟩ := ⟨rfl, hst⟩
  have hset := hgrow.setTask hx' hstands rfl
    (hgrow.requeues hno (hq.imp_right fun hq => by
      obtain ⟨d, next, hq, hs, hr⟩ := hq
      exact ⟨d, hq, next, hs, hr⟩))
  refine ⟨_, hrun.steps_task h.site h.started.symm hk, rfl, ?_⟩
  rwa [List.set_append_left _ _ (h.lt hx)] at hset

/-- What holds of the code of an owner, if it is there. -/
def Each (m : Machine α) (o : Owner) (P : {β : Type} → Thread β → Prop) : Prop :=
  match o with
  | .main i => ∀ x, m.mains[i]? = some x → P x.state
  | .task t => ∀ x ∈ m.tasks, x.id = t → P x.state

theorem Each.change {P : {β : Type} → Thread β → Prop} {f : {β : Type} → Thread β → Thread β}
    (hP : ∀ {β : Type} (x : Thread β), P x → P (f x)) {o : Owner} (h : m.Each o P) (o' : Owner) :
    (m.change o' f).Each o P := by
  cases o with
  | main i =>
    intro x hx
    cases o' with
    | task t => exact h x hx
    | main j =>
      have hx : (m.mains.modify j fun t => { t with state := f t.state })[i]? = some x := hx
      rw [List.getElem?_modify] at hx
      obtain ⟨y, hy, rfl⟩ := Option.map_eq_some_iff.1 hx
      by_cases hij : j = i
      · rw [if_pos hij]
        exact hP _ (h y hy)
      · rw [if_neg hij]
        exact h y hy
  | task t =>
    intro x hx hid
    cases o' with
    | main j => exact h x hx hid
    | task t' =>
      obtain ⟨y, hy, rfl⟩ := List.mem_map.1 hx
      by_cases hy' : y.id = t'
      · rw [if_pos hy'] at hid ⊢
        exact hP _ (h y hy hid)
      · rw [if_neg hy'] at hid ⊢
        exact h y hy hid

theorem change_main {f : {β : Type} → Thread β → Thread β} {i : Nat} {x : Main α}
    (hx : m.mains[i]? = some x) :
    (m.change (.main i) f).mains = m.mains.set i { x with state := f x.state } := by
  obtain ⟨hi, rfl⟩ := List.getElem?_eq_some_iff.1 hx
  apply List.ext_getElem?
  intro j
  by_cases hj : i = j
  · subst hj
    simp [Machine.change, hi]
  · simp [Machine.change, hj]

theorem Agrees.change_task (h : m.Agrees Q c) {f : {β : Type} → Thread β → Thread β} {x : Task}
    (hx : x ∈ m.tasks) : (m.change (.task x.id) f).tasks =
      m.tasks.map fun t => if t.id = x.id then { x with state := f x.state } else t := by
  apply List.map_congr_left
  intro t ht
  by_cases he : t.id = x.id
  · rw [if_pos he, if_pos he, h.eq_of_id ht hx he]
  · rw [if_neg he, if_neg he]

/-- Code that reacts by a move of its own: the scene makes the move. -/
theorem Agrees.change (h : m.Agrees Q c) (o : Owner) (f : {β : Type} → Thread β → Thread β)
    (hf : m.Each o fun x => ∀ post standing, x.Stands standing → f x = x ∨
      (∀ next, x ≠ .atLock next) ∧ ∃ standing', (f x).Stands standing' ∧
        Strand.Move app c.tasks c.site ⟨post, standing⟩ c.site ⟨post, standing'⟩ []) :
    ∃ c', Scene.Steps app c c' ∧ (m.change o f).Agrees Q c' ∧
      ∀ t, (∀ x ∈ m.tasks, x.id ≠ t) → c'.tasks[t]? = c.tasks[t]? := by
  cases o with
  | main i =>
    cases hx : m.mains[i]? with
    | none =>
      refine ⟨c, .refl, h.congr rfl rfl rfl ?_ h.orphans, fun _ _ => rfl⟩
      exact List.ext_getElem? fun j => by
        by_cases hj : i = j
        · subst hj
          simp [Machine.change, hx]
        · simp [Machine.change, hj]
    | some x =>
      obtain ⟨k, hk, hst⟩ := h.main i x hx
      have hset := change_main (f := f) hx
      rcases hf x hx k.post k.standing hst.state with he | ⟨hno, standing', hst', hm⟩
      · refine ⟨c, .refl, h.congr rfl rfl rfl ?_ h.orphans, fun _ _ => rfl⟩
        rw [hset, he, set_of_getElem? hx]
      · have hstands : ({ x with state := f x.state } : Main α).Stands ⟨k.post, standing'⟩ :=
          ⟨hst.post, hst'⟩
        have hsetm := h.setMain (List.getElem?_eq_some_iff.1 hx).1 hstands
          (h.requeues (h.not_queued_main hx hno) (.inl rfl))
        have hstep : Scene.Step app c ⟨c.site, c.mains.set i ⟨k.post, standing'⟩, c.tasks ++ []⟩ :=
          .main hk hm
        rw [List.append_nil] at hstep
        exact ⟨_, .single hstep, hsetm.congr rfl rfl rfl hset hsetm.orphans, fun _ _ => rfl⟩
  | task t =>
    by_cases hx : ∃ x ∈ m.tasks, x.id = t
    · obtain ⟨x, hx, rfl⟩ := hx
      obtain ⟨k, hk, hst⟩ := h.task x hx
      have hset := h.change_task (f := f) hx
      rcases hf x hx rfl k.post k.standing hst.state with he | ⟨hno, standing', hst', hm⟩
      · refine ⟨c, .refl, h.congr rfl ?_ rfl rfl h.orphans, fun _ _ => rfl⟩
        rw [hset, he]
        refine (List.map_congr_left fun t ht => ?_).trans (List.map_id _)
        by_cases he : t.id = x.id
        · rw [if_pos he, h.eq_of_id ht hx he]
          rfl
        · rw [if_neg he]
          rfl
      · have hstands : ({ x with state := f x.state } : Task).Stands ⟨k.post, standing'⟩ :=
          ⟨hst.post, hst'⟩
        have hsett := h.setTask hx hstands rfl (h.requeues (h.not_queued_task hx hno) (.inl rfl))
        have hstep : Scene.Step app c ⟨c.site, c.mains, c.tasks.set x.id ⟨k.post, standing'⟩ ++ []⟩ :=
          .task hk hm
        rw [List.append_nil] at hstep
        exact ⟨_, .single hstep, hsett.congr rfl hset rfl rfl hsett.orphans,
          fun t ht => List.getElem?_set_ne (ht x hx)⟩
    · refine ⟨c, .refl, h.congr rfl ?_ rfl rfl h.orphans, fun _ _ => rfl⟩
      refine (List.map_congr_left fun y hy => ?_).trans (List.map_id _)
      rw [if_neg fun he => hx ⟨y, hy, he⟩]
      rfl

/-- Code that waits for a task at most waits for this one. -/
def Waits (task : Nat) {β : Type} (x : Thread β) : Prop := ∀ t, x.awaits t = true → t = task

theorem Waits.deliver {task : Nat} (r : Outcome Unit) {β : Type} (x : Thread β)
    (hx : Waits task x) : Waits task (x.deliver r) := by
  cases x with
  | awaiting | stalled => simp [Waits, Thread.deliver, Thread.awaits]
  | _ => exact hx

theorem Agrees.waits_of_mem (h : m.Agrees Q c) {task : Nat} {o : Owner} (ho : o ∈ m.waiters task) :
    m.Each o (Waits task) := by
  have hwaits : ∀ {β : Type} (x : Thread β), x.awaits task = true → Waits task x := by
    intro β x hx t ht
    cases x <;> simp_all [Thread.awaits]
  rcases List.mem_append.1 ho with ho | ho
  · obtain ⟨⟨x, i⟩, hx, he⟩ := List.mem_filterMap.1 ho
    by_cases ha : x.state.awaits task = true
    · simp only [ha, ↓reduceIte, Option.some.injEq] at he
      subst he
      intro y hy
      obtain rfl : x = y := Option.some.inj ((List.mem_zipIdx_iff_getElem?.1 hx).symm.trans hy)
      exact hwaits _ ha
    · simp [ha] at he
  · obtain ⟨x, hx, he⟩ := List.mem_filterMap.1 ho
    by_cases ha : x.state.awaits task = true
    · simp only [ha, ↓reduceIte, Option.some.injEq] at he
      subst he
      intro y hy hid
      obtain rfl := h.eq_of_id hy hx hid
      exact hwaits _ ha
    · simp [ha] at he

/-- The result of a task that is gone is handed to whoever waits for it. -/
theorem Agrees.deliver (h : m.Agrees Q c) {task : Nat} {k : Strand (Outcome Unit)} {r : Outcome Unit}
    (hno : ∀ x ∈ m.tasks, x.id ≠ task) (hk : c.tasks[task]? = some k) (hr : k.result? = some r) :
    ∃ c', Scene.Steps app c c' ∧ (m.deliver task r).Agrees Q c' ∧
      (m.deliver task r).queue = m.queue := by
  have hall : ∀ (owners : List Owner) (m : Machine α) (c : Scene α), m.Agrees Q c →
      (∀ o ∈ owners, m.Each o (Waits task)) → (∀ x ∈ m.tasks, x.id ≠ task) →
      c.tasks[task]? = some k → ∃ c', Scene.Steps app c c' ∧
        (owners.foldl (fun m owner => { m.change owner (.deliver r) with
          timers := m.timers.filter (·.owner ≠ owner) }) m).Agrees Q c' ∧
        (owners.foldl (fun m owner => { m.change owner (.deliver r) with
          timers := m.timers.filter (·.owner ≠ owner) }) m).queue = m.queue := by
    intro owners
    induction owners with
    | nil => exact fun m c h _ _ _ => ⟨c, .refl, h, rfl⟩
    | cons o owners ih =>
      intro m c h hw hno hk
      obtain ⟨c₁, hs₁, h₁, hkeep⟩ := h.change app o (Thread.deliver r) (by
        have ho := hw o List.mem_cons_self
        have hreact : ∀ {β : Type} (x : Thread β), Waits task x → ∀ post standing,
            x.Stands standing → x.deliver r = x ∨ (∀ next, x ≠ .atLock next) ∧
              ∃ standing', (x.deliver r).Stands standing' ∧ Strand.Move app c.tasks c.site
                ⟨post, standing⟩ c.site ⟨post, standing'⟩ [] := by
          intro β x hx post standing hst
          cases hst with
          | awaiting t overrun next | stalled t overrun next =>
            obtain rfl := hx t (by simp [Thread.awaits])
            exact .inr ⟨by simp, _, .ready 1 _, .deliver hk hr ..⟩
          | _ => exact .inl rfl
        cases o with
        | main i => exact fun x hx => hreact _ (ho x hx)
        | task t => exact fun x hx hid => hreact _ (ho x hx hid))
      have hids : ∀ x ∈ (m.change o (Thread.deliver r)).tasks, x.id ≠ task := by
        intro x hx
        cases o with
        | main i => exact hno x hx
        | task t =>
          obtain ⟨y, hy, rfl⟩ := List.mem_map.1 hx
          have hyid := hno y hy
          split <;> exact hyid
      have hqueue : (m.change o (Thread.deliver r)).queue = m.queue := by cases o <;> rfl
      obtain ⟨c₂, hs₂, h₂, hq₂⟩ := ih { m.change o (Thread.deliver r) with
          timers := m.timers.filter (·.owner ≠ o) } c₁ (h₁.congr rfl rfl rfl rfl h₁.orphans)
        (fun o' ho' =>
          Each.change (fun x => Waits.deliver r x) (hw o' (List.mem_cons_of_mem _ ho')) o)
        hids (by rw [hkeep task hno, hk])
      exact ⟨c₂, hs₁.trans hs₂, h₂, hq₂.trans hqueue⟩
  exact hall (m.waiters task) m c h (fun o ho => h.waits_of_mem ho) hno hk

/-- Timers may go off. -/
theorem Agrees.moveTo (h : m.Agrees Q c) (time : Nat) :
    ∃ c', Scene.Steps app c c' ∧ (m.moveTo time).Agrees Q c' ∧ (m.moveTo time).queue = m.queue := by
  have hall : ∀ (due : List Timer) (m : Machine α) (c : Scene α), m.Agrees Q c →
      ∃ c', Scene.Steps app c c' ∧ (due.foldl (fun m t => m.change t.owner .expire) m).Agrees Q c' ∧
        (due.foldl (fun m t => m.change t.owner .expire) m).queue = m.queue := by
    intro due
    induction due with
    | nil => exact fun m c h => ⟨c, .refl, h, rfl⟩
    | cons t due ih =>
      intro m c h
      obtain ⟨c₁, hs₁, h₁, -⟩ := h.change app t.owner Thread.expire (by
        have hreact : ∀ {β : Type} (x : Thread β) post standing, x.Stands standing →
            x.expire = x ∨ (∀ next, x ≠ .atLock next) ∧ ∃ standing', x.expire.Stands standing' ∧
              Strand.Move app c.tasks c.site ⟨post, standing⟩ c.site ⟨post, standing'⟩ [] := by
          intro β x post standing hst
          cases hst with
          | asleep ms p => exact .inr ⟨by simp, _, .ready 1 p, .sleep ..⟩
          | awaiting t overrun next =>
            cases overrun with
            | none => exact .inl rfl
            | some e => exact .inr ⟨by simp, _, .ready 1 _, .expire ..⟩
          | _ => exact .inl rfl
        cases t.owner with
        | main i => exact fun x _ => hreact _
        | task t => exact fun x _ _ => hreact _)
      have hqueue : (m.change t.owner Thread.expire).queue = m.queue := by
        cases t.owner <;> rfl
      obtain ⟨c₂, hs₂, h₂, hq₂⟩ := ih _ c₁ h₁
      exact ⟨c₂, hs₁.trans hs₂, h₂, hq₂.trans hqueue⟩
  exact hall _ _ c (h.congr rfl rfl rfl rfl h.orphans)

theorem Agrees.withSite (h : m.Agrees Q c) {site : Site} (ho : site.outbox = []) :
    ({ m with site } : Machine α).Agrees Q { c with site } where
  site := rfl
  outbox := ho
  started := h.started
  ids := h.ids
  length := h.length
  main := h.main
  task := h.task
  gone := h.gone
  queued e he := by
    cases h.queued e he with
    | main hx hk hs hr => exact .main hx hk hs hr
    | task hx hk hs hr => exact .task hx hk hs hr
  owners := h.owners
  orphans := h.orphans

/-- A transaction begins for one of those who have been waiting. -/
theorem Agrees.enter {before after : List (Nat × Owner)} {d : Nat} {o : Owner}
    (h : m.Agrees (before ++ (d, o) :: after) c) {r : Outcome TxRef} {site : Site}
    (hb : m.site.begin? d = some (r, site)) : ∃ c', Scene.Steps app c c' ∧
      (({ m with site } : Machine α).change o (.enter r)).Agrees (before ++ after) c' := by
  have ho : site.outbox = [] := (Site.begin?_outbox hb).trans h.outbox
  rw [← h.site] at hb
  have hreq : Requeues (before ++ (d, o) :: after) (before ++ after) o fun _ => False := by
    have hown := h.owners
    rw [List.map_append, List.map_cons, List.nodup_middle] at hown
    obtain ⟨hnot, hnodup⟩ := List.nodup_cons.1 hown
    rw [← List.map_append] at hnot hnodup
    refine ⟨fun e he => .inl ⟨?_, fun ho' => hnot (List.mem_map.2 ⟨e, he, ho'⟩)⟩, hnodup⟩
    rcases List.mem_append.1 he with he | he <;> simp [he]
  have hw := h.withSite ho
  cases h.queued (d, o) (by simp) with
  | @main i _ x k next hx hk hs hr =>
    obtain ⟨k', hk', hst⟩ := h.main i x hx
    obtain rfl : k = k' := Option.some.inj (hk.symm.trans hk')
    have hstands : ({ x with state := Thread.enter r x.state } : Main α).Stands
        ⟨k.post, .running (next r)⟩ := by
      refine ⟨hst.post, ?_⟩
      rw [hs]
      exact .ready 1 _
    obtain ⟨post, standing⟩ := k
    obtain rfl : standing = _ := hr
    have hset := hw.setMain (List.getElem?_eq_some_iff.1 hx).1 hstands
      ⟨fun e he => (hreq.1 e he).imp_right fun hf => hf.2.elim, hreq.2⟩
    have hstep : Scene.Step app c
        ⟨site, c.mains.set i ⟨post, .running (next r)⟩, c.tasks ++ []⟩ :=
      .main hk (.begin hb post next)
    rw [List.append_nil] at hstep
    exact ⟨_, .single hstep, hset.congr rfl rfl rfl (change_main hx) hset.orphans⟩
  | @task _ x k next hx hk hs hr =>
    obtain ⟨k', hk', hst⟩ := h.task x hx
    obtain rfl : k = k' := Option.some.inj (hk.symm.trans hk')
    have hstands : ({ x with state := Thread.enter r x.state } : Task).Stands
        ⟨k.post, .running (next r)⟩ := by
      refine ⟨hst.post, ?_⟩
      rw [hs]
      exact .ready 1 _
    obtain ⟨post, standing⟩ := k
    obtain rfl : standing = _ := hr
    have hset := hw.setTask hx hstands rfl
      ⟨fun e he => (hreq.1 e he).imp_right fun hf => hf.2.elim, hreq.2⟩
    have hstep : Scene.Step app c
        ⟨site, c.mains, c.tasks.set x.id ⟨post, .running (next r)⟩ ++ []⟩ :=
      .task hk (.begin hb post next)
    rw [List.append_nil] at hstep
    exact ⟨_, .single hstep, hset.congr rfl (hw.change_task hx) rfl rfl hset.orphans⟩

/-- Let the next of those who wait begin, or wait on. -/
def grantOne (m : Machine α) (e : Nat × Owner) : Machine α :=
  match m.site.begin? e.1 with
  | some (r, site) => ({ m with site } : Machine α).change e.2 (.enter r)
  | none => { m with queue := m.queue ++ [e] }

/-- Transactions begin for those who have been waiting. -/
theorem Agrees.grant (h : m.Agrees m.queue c) :
    ∃ c', Scene.Steps app c c' ∧ m.grant.Agrees m.grant.queue c' := by
  have hall : ∀ (pending : List (Nat × Owner)) (m : Machine α) (c : Scene α),
      m.Agrees (m.queue ++ pending) c → ∃ c', Scene.Steps app c c' ∧
        (pending.foldl grantOne m).Agrees (pending.foldl grantOne m).queue c' := by
    intro pending
    induction pending with
    | nil =>
      intro m c h
      exact ⟨c, .refl, by simpa using h⟩
    | cons e pending ih =>
      obtain ⟨d, o⟩ := e
      intro m c h
      simp only [List.foldl_cons]
      cases hb : m.site.begin? d with
      | none =>
        have hone : m.grantOne (d, o) = { m with queue := m.queue ++ [(d, o)] } := by
          simp [grantOne, hb]
        have hc : (m.grantOne (d, o)).Agrees (m.queue ++ (d, o) :: pending) c := by
          rw [hone]
          exact h.congr rfl rfl rfl rfl h.orphans
        apply ih
        rw [hone] at hc ⊢
        simpa using hc
      | some x =>
        obtain ⟨r, site⟩ := x
        have hone : m.grantOne (d, o) = ({ m with site } : Machine α).change o (.enter r) := by
          simp [grantOne, hb]
        have hqueue : (({ m with site } : Machine α).change o (.enter r)).queue = m.queue := by
          cases o <;> rfl
        obtain ⟨c₁, hs₁, h₁⟩ := h.enter app hb
        have hc₁ : (m.grantOne (d, o)).Agrees ((m.grantOne (d, o)).queue ++ pending) c₁ := by
          rw [hone, hqueue]
          exact h₁
        obtain ⟨c₂, hs₂, h₂⟩ := ih _ c₁ hc₁
        exact ⟨c₂, hs₁.trans hs₂, h₂⟩
  exact hall m.queue { m with queue := [] } c (h.congr rfl rfl rfl rfl h.orphans)

theorem Agrees.runMain (h : m.Agrees m.queue c) (credit i : Nat) :
    ∃ c', Scene.Steps app c c' ∧
      (m.runMain app credit i).1.Agrees (m.runMain app credit i).1.queue c' := by
  unfold Machine.runMain
  cases hx : m.mains[i]? with
  | none => exact ⟨c, .refl, h⟩
  | some x =>
    obtain ⟨post, state⟩ := x
    obtain ⟨⟨kpost, standing⟩, hk, hpost, hst⟩ := h.main i _ hx
    obtain rfl : kpost = post := hpost
    by_cases hr : state.isReady = true
    · obtain ⟨state', credit', post', b, he, hran⟩ := @Background.proceed_ran α app (.main i)
        m.toBackground h.outbox credit kpost state standing hst hr
      obtain ⟨c₁, hs₁, h₁⟩ := h.ran_main app hx hk hr hran
      obtain ⟨c₂, hs₂, h₂⟩ := h₁.grant app
      dsimp only
      rw [he]
      exact ⟨c₂, hs₁.trans hs₂, h₂⟩
    · have he := @Background.proceed_of_not_ready α app (.main i) m.toBackground credit kpost state
        (by simpa using hr)
      have hsame : (({ m with mains := m.mains.set i ⟨kpost, state⟩ } : Machine α).withBackground
          m.toBackground).Agrees m.queue c := h.congr rfl rfl rfl (set_of_getElem? hx) h.orphans
      obtain ⟨c₁, hs₁, h₁⟩ := hsame.grant app
      dsimp only
      rw [he]
      exact ⟨c₁, hs₁, h₁⟩

theorem Agrees.runMains (h : m.Agrees m.queue c) :
    ∃ c', Scene.Steps app c c' ∧ (m.runMains app).Agrees (m.runMains app).queue c' := by
  have hall : ∀ (is : List Nat) (m : Machine α) (credit : Nat) (c : Scene α), m.Agrees m.queue c →
      ∃ c', Scene.Steps app c c' ∧
        (is.foldl (fun s i => s.1.runMain app s.2 i) (m, credit)).1.Agrees
        (is.foldl (fun s i => s.1.runMain app s.2 i) (m, credit)).1.queue c' := by
    intro is
    induction is with
    | nil => exact fun m credit c h => ⟨c, .refl, h⟩
    | cons i is ih =>
      intro m credit c h
      obtain ⟨c₁, hs₁, h₁⟩ := h.runMain app credit i
      obtain ⟨c₂, hs₂, h₂⟩ := ih (m.runMain app credit i).1 (m.runMain app credit i).2 c₁ h₁
      exact ⟨c₂, hs₁.trans hs₂, h₂⟩
  exact hall _ m _ c h

/-- A task that is finished may be forgotten. -/
theorem Agrees.retire (h : m.Agrees Q c) {x : Task} (hx : x ∈ m.tasks) {r : Outcome Unit}
    (hs : x.state = .finished r) :
    ({ m with tasks := m.tasks.filter (·.id ≠ x.id) } : Machine α).Agrees Q c ∧
      ∃ k, c.tasks[x.id]? = some k ∧ k.result? = some r := by
  obtain ⟨⟨post, standing⟩, hk, hst⟩ := h.task x hx
  have hresult : standing = .running (.done r) := by
    have hst := hst.state
    rw [hs] at hst
    cases hst
    rfl
  subst hresult
  have hmem : ∀ y : Task, y ∈ m.tasks.filter (·.id ≠ x.id) ↔ y ∈ m.tasks ∧ y.id ≠ x.id := by
    simp [List.mem_filter]
  refine ⟨?_, _, hk, rfl⟩
  exact {
    site := h.site
    outbox := h.outbox
    started := h.started
    ids := h.ids.sublist (List.filter_sublist.map Task.id)
    length := h.length
    main := h.main
    task := fun y hy => h.task y ((hmem y).1 hy).1
    gone := by
      intro t k ht hno
      by_cases he : t = x.id
      · subst he
        obtain rfl := Option.some.inj (hk.symm.trans ht)
        rfl
      · exact h.gone t k ht fun y hy hyt => hno y ((hmem y).2 ⟨hy, hyt ▸ he⟩) hyt
    queued := by
      intro e he
      cases h.queued e he with
      | main hx hk hs hr => exact .main hx hk hs hr
      | @task _ y _ _ hy hk' hs' hr =>
        refine .task ((hmem y).2 ⟨hy, fun hyx => ?_⟩) hk' hs' hr
        obtain rfl := h.eq_of_id hy hx hyx
        rw [hs] at hs'
        cases hs'
    owners := h.owners
    orphans := h.orphans }

/-- Handles that no task holds may be dropped when the main programs are finished. -/
theorem drops {c : Scene α} (hf : c.results?.isSome = true) (txs : List TxRef)
    (hno : ∀ tx ∈ txs, ¬ c.Holds tx) :
    Scene.Steps app c { c with site := txs.foldl Site.drop c.site } ∧
      (txs.foldl Site.drop c.site).outbox = c.site.outbox := by
  induction txs generalizing c with
  | nil => exact ⟨.refl, rfl⟩
  | cons tx txs ih =>
    have hstep : Scene.Step app c { c with site := c.site.drop tx } :=
      .drop hf (hno tx List.mem_cons_self)
    obtain ⟨hrest, ho⟩ := @ih { c with site := c.site.drop tx } hf
      fun tx' h => hno tx' (List.mem_cons_of_mem _ h)
    obtain ⟨databases, hd⟩ := c.site.drop_eq tx
    exact ⟨.head hstep hrest, ho.trans (by rw [hd])⟩

theorem Agrees.not_holds (h : m.Agrees Q c) {tx : TxRef} (ht : m.holds tx = false) :
    ¬ c.Holds tx := by
  rintro ⟨k, hk, hr, hp⟩
  obtain ⟨t, hkt⟩ := List.getElem?_of_mem hk
  by_cases hx : ∃ x ∈ m.tasks, x.id = t
  · obtain ⟨x, hx, rfl⟩ := hx
    obtain ⟨k', hk', hst⟩ := h.task x hx
    obtain rfl := Option.some.inj (hkt.symm.trans hk')
    have hheld : m.holds tx = true := by
      refine List.any_eq_true.2 ⟨x, hx, ?_⟩
      rw [← hst.post, hp]
      simp
    simp [hheld] at ht
  · have hgone := h.gone t k hkt fun x hx' hid => hx ⟨x, hx', hid⟩
    simp [hr] at hgone

theorem Agrees.sweep (h : m.Agrees Q c) : ∃ c', Scene.Steps app c c' ∧
    (m.withBackground m.sweep).Agrees Q c' ∧ c'.tasks = c.tasks := by
  rcases h.orphans with hn | hn
  · refine ⟨c, .refl, h.congr ?_ rfl rfl rfl (.inl ?_), rfl⟩
    · simp [withBackground, Background.sweep, hn]
    · simp [withBackground, Background.sweep, hn]
  · have hf : c.results?.isSome = true := by
      obtain ⟨rs, hrs⟩ := Scene.exists_results? (c := c) (by simp [hn])
      rw [hrs]
      rfl
    obtain ⟨hsteps, ho⟩ := drops app hf (m.orphans.filter fun tx => !m.holds tx)
      fun tx htx => h.not_holds (by simpa using (List.mem_filter.1 htx).2)
    rw [h.site] at hsteps ho
    have hw := h.withSite (ho.trans h.outbox)
    exact ⟨_, hsteps, hw.congr rfl rfl rfl rfl (.inr hn), rfl⟩

/-- A task has come to a stop. -/
theorem Agrees.stopTask {t : Nat} {post : Post} {state : Thread (Outcome Unit)}
    (ht : ∃ x ∈ m.tasks, x.id = t)
    (h : ({ m with tasks := m.tasks.map fun x => if x.id = t then ⟨t, post, state⟩ else x } :
      Machine α).Agrees m.queue c) :
    ∃ c', Scene.Steps app c c' ∧ (m.stopTask t post state).Agrees m.queue c' ∧
      (m.stopTask t post state).queue = m.queue := by
  cases state with
  | finished r =>
    obtain ⟨x, hx, rfl⟩ := ht
    have hmem : (⟨x.id, post, .finished r⟩ : Task) ∈ m.tasks.map fun y =>
        if y.id = x.id then ⟨x.id, post, .finished r⟩ else y := List.mem_map.2 ⟨x, hx, if_pos rfl⟩
    obtain ⟨hret, k, hk, hr⟩ := h.retire hmem rfl
    have hfilter : (m.tasks.map fun y => if y.id = x.id then ⟨x.id, post, .finished r⟩ else y).filter
        (·.id ≠ x.id) = m.tasks.filter (·.id ≠ x.id) := by
      induction m.tasks with
      | nil => rfl
      | cons y ys ih =>
        by_cases hy : y.id = x.id <;> simp_all
    have hm : ({ m with tasks := m.tasks.filter (·.id ≠ x.id) } : Machine α).Agrees m.queue c :=
      hret.congr rfl hfilter.symm rfl rfl hret.orphans
    obtain ⟨c₁, hs₁, h₁, htasks⟩ := hm.sweep app
    have hno : ∀ y ∈ m.tasks.filter (·.id ≠ x.id), y.id ≠ x.id := by
      intro y hy
      simpa using (List.mem_filter.1 hy).2
    obtain ⟨c₂, hs₂, h₂, hq⟩ := h₁.deliver app hno (htasks ▸ hk) hr
    exact ⟨c₂, hs₁.trans hs₂, h₂, hq⟩
  | _ => exact ⟨c, .refl, h, rfl⟩

theorem Agrees.runTask (h : m.Agrees m.queue c) (t : Nat) :
    ∃ c', Scene.Steps app c c' ∧ (m.runTask app t).Agrees (m.runTask app t).queue c' := by
  unfold Machine.runTask
  cases hfind : m.tasks.find? (·.id = t) with
  | none => exact ⟨c, .refl, h⟩
  | some x =>
    have hx := List.mem_of_find?_eq_some hfind
    obtain rfl : x.id = t := by simpa using List.find?_some hfind
    obtain ⟨⟨kpost, standing⟩, hk, hpost, hst⟩ := h.task x hx
    obtain rfl : kpost = x.post := hpost
    -- In its turn the task makes moves of its own, or it cannot proceed.
    obtain ⟨state, credit, post, b, he, hb, c₁, hs₁, h₁⟩ : ∃ state credit post b,
        m.toBackground.proceed app (.task x.id) Turn.fullCredit x.post x.state =
          (state, credit, post, b) ∧ (∃ y ∈ b.tasks, y.id = x.id) ∧
        ∃ c₁, Scene.Steps app c c₁ ∧ ({ m.withBackground b with
          tasks := b.tasks.map fun y => if y.id = x.id then ⟨x.id, post, state⟩ else y } :
            Machine α).Agrees b.queue c₁ := by
      by_cases hr : x.state.isReady = true
      · obtain ⟨state', credit', post', b, he, hran⟩ := @Background.proceed_ran _ app (.task x.id)
          m.toBackground h.outbox Turn.fullCredit x.post x.state standing hst hr
        obtain ⟨c₁, hs₁, -, h₁⟩ := h.ran_task app hx hk hr hran
        obtain ⟨_, _, _, _, _, hg, _⟩ := hran
        obtain ⟨fresh, hfresh, -⟩ := hg.tasks
        exact ⟨_, _, _, b, he, ⟨x, by rw [hfresh]; exact List.mem_append_left _ hx, rfl⟩, c₁, hs₁, h₁⟩
      · refine ⟨_, _, _, _, @Background.proceed_of_not_ready _ app (.task x.id) m.toBackground
          Turn.fullCredit x.post x.state (by simpa using hr), ⟨x, hx, rfl⟩, c, .refl, ?_⟩
        refine h.congr rfl ?_ rfl rfl h.orphans
        refine (List.map_congr_left fun y hy => ?_).trans (List.map_id _)
        by_cases he : y.id = x.id
        · rw [if_pos he, h.eq_of_id hy hx he]
          rfl
        · rw [if_neg he]
          rfl
    dsimp only
    rw [he]
    obtain ⟨c₂, hs₂, h₂, hq⟩ := Agrees.stopTask app (m := m.withBackground b) hb h₁
    obtain ⟨c₃, hs₃, h₃⟩ := Agrees.grant app
      (m := (m.withBackground b).stopTask x.id post state) (by rw [hq]; exact h₂)
    exact ⟨c₃, (hs₁.trans hs₂).trans hs₃, h₃⟩

theorem Agrees.drain (h : m.Agrees m.queue c) (fuel : Nat) :
    ∃ c', Scene.Steps app c c' ∧ (m.drain app fuel).Agrees (m.drain app fuel).queue c' := by
  induction fuel generalizing m c with
  | zero => exact ⟨c, .refl, h⟩
  | succ fuel ih =>
    unfold Machine.drain
    split
    · exact ⟨c, .refl, h⟩
    · rename_i t ready _
      have hm : ({ m with ready } : Machine α).Agrees m.queue c :=
        h.congr rfl rfl rfl rfl h.orphans
      obtain ⟨c₁, hs₁, h₁⟩ := hm.runTask app t
      obtain ⟨c₂, hs₂, h₂⟩ := ih h₁
      exact ⟨c₂, hs₁.trans hs₂, h₂⟩

theorem Agrees.runBatch (h : m.Agrees m.queue c) :
    ∃ c', Scene.Steps app c c' ∧ (m.runBatch app).Agrees (m.runBatch app).queue c' := by
  obtain ⟨c₁, hs₁, h₁⟩ := h.drain app batchSize
  exact ⟨c₁, hs₁, h₁.congr rfl rfl rfl rfl h₁.orphans⟩

theorem Agrees.calm (h : m.Agrees m.queue c) (fuel : Nat) :
    ∃ c', Scene.Steps app c c' ∧ (m.calm app fuel).Agrees (m.calm app fuel).queue c' := by
  induction fuel generalizing m c with
  | zero => exact ⟨c, .refl, h⟩
  | succ fuel ih =>
    unfold Machine.calm
    split
    · exact ⟨c, .refl, h⟩
    · obtain ⟨c₁, hs₁, h₁⟩ := h.runBatch app
      obtain ⟨c₂, hs₂, h₂⟩ := ih h₁
      exact ⟨c₂, hs₁.trans hs₂, h₂⟩

/-- When the machine has the results of its main programs, the scene has them. -/
theorem Agrees.results (h : m.Agrees Q c) {rs : List α} (hr : m.results? = some rs) :
    c.results? = some rs := by
  have hall : ∀ (xs : List (Main α)) (ks : List (Strand α)) (rs : List α),
      List.Forall₂ Main.Stands xs ks → xs.mapM (·.state.result?) = some rs →
        ks.mapM Strand.result? = some rs := by
    intro xs ks rs hf
    induction hf generalizing rs with
    | nil => exact id
    | @cons x k xs ks hst _ ih =>
      rw [List.mapM_cons, List.mapM_cons]
      cases hx : x.state.result? with
      | none => simp
      | some a =>
        have hk : k.result? = some a := by
          obtain ⟨post, standing⟩ := k
          have hstate := hst.state
          cases hs : x.state with
          | finished b =>
            rw [hs] at hx hstate
            obtain rfl := Option.some.inj hx
            cases hstate
            rfl
          | _ => simp [hs, Thread.result?] at hx
        cases hxs : xs.mapM (·.state.result?) with
        | none => simp
        | some as =>
          rw [hk, ih as hxs]
          exact id
  refine hall m.mains c.mains rs (List.forall₂_iff_get.2 ⟨h.length, fun i hi hi' => ?_⟩) hr
  obtain ⟨k, hk, hst⟩ := h.main i _ (List.getElem?_eq_getElem hi)
  rw [List.getElem?_eq_getElem hi'] at hk
  obtain rfl := Option.some.inj hk
  simpa using hst

theorem Agrees.run (h : m.Agrees m.queue c) (limit fuel : Nat) {rs : List α} {b : Background}
    (hr : m.run app limit fuel = (some rs, b)) :
    ∃ c' m', Scene.Steps app c c' ∧ Machine.Agrees m' m'.queue c' ∧ c'.results? = some rs ∧
      b = m'.leave := by
  induction fuel generalizing m c with
  | zero => cases hr
  | succ fuel ih =>
    unfold Machine.run at hr
    obtain ⟨c₁, hs₁, h₁⟩ := h.runMains app
    dsimp only at hr
    cases hres : (m.runMains app).results? with
    | some rs' =>
      rw [hres] at hr
      obtain ⟨hrs, rfl⟩ := Prod.mk.inj hr
      obtain rfl := Option.some.inj hrs
      exact ⟨c₁, _, hs₁, h₁, h₁.results hres, rfl⟩
    | none =>
      rw [hres] at hr
      dsimp only at hr
      split at hr
      · cases hr
      · obtain ⟨c₂, hs₂, h₂⟩ := h₁.runBatch app
        split at hr
        · obtain ⟨c₃, m', hs₃, hrest⟩ := ih h₂ hr
          exact ⟨c₃, m', (hs₁.trans hs₂).trans hs₃, hrest⟩
        · obtain ⟨c₃, hs₃, h₃, hq⟩ := h₂.moveTo app (min limit
            (((m.runMains app).runBatch app).nextDeadline.getD limit))
          obtain ⟨c₄, m', hs₄, hrest⟩ := ih (by rw [hq]; exact h₃) hr
          exact ⟨c₄, m', ((hs₁.trans hs₂).trans hs₃).trans hs₄, hrest⟩

/-- The machine leaves its main programs: the tasks go on as beside none. -/
theorem Agrees.leave (h : m.Agrees m.queue c) : ∃ c' : Scene Unit,
    Scene.Steps app ⟨c.site, [], c.tasks⟩ c' ∧
      (⟨m.leave, []⟩ : Machine Unit).Agrees m.leave.queue c' := by
  have hmem : ∀ e ∈ m.queue.filter fun e => !e.2.isMain, e ∈ m.queue ∧ e.2.isMain = false := by
    intro e he
    simpa using List.mem_filter.1 he
  have hm : (⟨{ m.toBackground with
      timers := m.timers.filter fun t => !t.owner.isMain
      queue := m.queue.filter fun e => !e.2.isMain
      orphans := (Background.openHandles m.site).filter fun tx => !m.pinned.contains tx }, []⟩ :
        Machine Unit).Agrees (m.queue.filter fun e => !e.2.isMain) ⟨c.site, [], c.tasks⟩ := {
    site := h.site
    outbox := h.outbox
    started := h.started
    ids := h.ids
    length := rfl
    main := by simp
    task := h.task
    gone := h.gone
    queued := by
      intro e he
      obtain ⟨he, hno⟩ := hmem e he
      cases h.queued e he with
      | main => cases hno
      | task hx hk hs hr => exact .task hx hk hs hr
    owners := h.owners.sublist (List.filter_sublist.map Prod.snd)
    orphans := .inr rfl }
  obtain ⟨c', hs, h', -⟩ := hm.sweep app
  exact ⟨c', hs, h'⟩

end Agrees
end Machine

/-- Beside main programs that are finished, tasks can do what they can do beside none. -/
theorem Scene.Steps.beside {α : Type} {app : Application} {ks : List (Strand α)} {c c' : Scene Unit}
    (hs : Scene.Steps app c c') (hm : c.mains = [])
    (hf : (ks.mapM Strand.result?).isSome = true) :
    c'.mains = [] ∧
      Scene.Steps app (⟨c.site, ks, c.tasks⟩ : Scene α) ⟨c'.site, ks, c'.tasks⟩ := by
  induction hs with
  | refl => exact ⟨hm, .refl⟩
  | @tail c₁ c₂ _ hstep ih =>
    obtain ⟨hm₁, hs₁⟩ := ih
    have hlast : c₂.mains = [] ∧
        Scene.Step app (⟨c₁.site, ks, c₁.tasks⟩ : Scene α) ⟨c₂.site, ks, c₂.tasks⟩ := by
      cases hstep with
      | main hk => simp [hm₁] at hk
      | task hk hmove => exact ⟨hm₁, .task hk hmove⟩
      | tick clock => exact ⟨hm₁, .tick _ clock⟩
      | drop _ ht => exact ⟨hm₁, .drop hf ht⟩
    exact ⟨hlast.1, .tail hs₁ hlast.2⟩

/-- A run of the machine is one of the interleavings, if all its programs are answered. -/
theorem Background.runAll_steps {α : Type} {app : Application} {site : Site}
    (ho : site.outbox = []) {posts : List (Post × Program α)} {rs : List α} {b : Background}
    (h : (Background.idle site).runAll app posts = (some rs, b)) :
    ∃ c, Scene.Steps app (.start site (posts.map fun (post, p) => ⟨post, .running p⟩)) c ∧
      c.results? = some rs ∧ c.site = b.site := by
  have hstart : (⟨Background.idle site, posts.map fun (post, p) => ⟨post, .ready 0 p⟩⟩ :
      Machine α).Agrees [] (.start site (posts.map fun (post, p) => ⟨post, .running p⟩)) := {
    site := rfl
    outbox := ho
    started := rfl
    ids := .nil
    length := by simp [Scene.start]
    main := by
      intro i x hx
      rw [List.getElem?_map] at hx
      obtain ⟨⟨post, p⟩, hp, rfl⟩ := Option.map_eq_some_iff.1 hx
      exact ⟨⟨post, .running p⟩, by simp [Scene.start, hp], rfl, .ready 0 p⟩
    task := by simp [Background.idle]
    gone := by simp [Scene.start]
    queued := by simp
    owners := .nil
    orphans := .inl rfl }
  unfold runAll settle at h
  -- How many turns there are does not matter, and evaluating that many would not end.
  generalize turns = fuel at h
  obtain ⟨hanswer, hb⟩ := Prod.mk.inj h
  obtain ⟨c₁, m₁, hs₁, h₁, hres, hleave⟩ := hstart.run app _ fuel (Prod.ext hanswer rfl)
  have hb' : ((⟨m₁.leave, []⟩ : Machine Unit).grant.calm app fuel).toBackground = b :=
    (congrArg (fun b₁ => ((⟨b₁, []⟩ : Machine Unit).grant.calm app fuel).toBackground)
      hleave.symm).trans hb
  subst hb'
  obtain ⟨c₂, hs₂, h₂⟩ := h₁.leave app
  obtain ⟨c₃, hs₃, h₃⟩ := h₂.grant app
  obtain ⟨c₄, hs₄, h₄⟩ := h₃.calm app fuel
  have hf : (c₁.mains.mapM Strand.result?).isSome = true := by
    have hm : c₁.mains.mapM Strand.result? = some rs := hres
    rw [hm]
    rfl
  obtain ⟨-, hbeside⟩ := Scene.Steps.beside ((hs₂.trans hs₃).trans hs₄) rfl hf
  exact ⟨⟨c₄.site, c₁.mains, c₄.tasks⟩, hs₁.trans hbeside, hres, h₄.site⟩

end RowGuard
