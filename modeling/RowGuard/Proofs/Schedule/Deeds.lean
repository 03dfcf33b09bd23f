import RowGuard.Proofs.Schedule.DirectSite
import RowGuard.Proofs.Schedule.Interleaving
import Mathlib.Data.List.Perm.Subperm

/-! # Deferred work in an interleaving

A run leaves a trace: the mutators that were called, the transactions that were committed, the work
that was queued, and the bags that were emptied so that their work can be started.  What is in a bag
can be read off the trace, with the transaction in which each piece of work was queued.
-/
namespace RowGuard

/-- What a step does that matters for deferred work. -/
inductive Deed where
  | called (c : Call)
  | committed (tx : TxRef)
  /-- Work was queued in a bag by code in a transaction, or by code in none. -/
  | queued (bag : Nat) (tx : Option TxRef) (d : Deferred)
  /-- Everything was taken from a bag, to be started. -/
  | taken (bag : Nat) (work : List Deferred)

/-- Work that waits in a bag, each piece with the transaction in which it was queued. -/
abbrev Pending := List (Option TxRef × Deferred)

namespace Deed

/-- What waits in a bag after a deed. -/
def pend (bag : Nat) (w : Pending) : Deed → Pending
  | queued b tx d => if b = bag then w ++ [(tx, d)] else w
  | taken b _ => if b = bag then [] else w
  | _ => w

end Deed

/-- What waits in a bag after a trace. -/
def pending (bag : Nat) (es : List Deed) : Pending := es.foldl (Deed.pend bag) []

theorem pending_append (bag : Nat) (es ds : List Deed) :
    pending bag (es ++ ds) = ds.foldl (Deed.pend bag) (pending bag es) := List.foldl_append

/-- Whether a transaction was committed in a trace. -/
def commits (es : List Deed) (tx : Option TxRef) : Bool :=
  es.any fun
    | .committed t => tx == some t
    | _ => false

theorem commits_iff {es : List Deed} {tx : Option TxRef} :
    commits es tx = true ↔ ∃ t, tx = some t ∧ Deed.committed t ∈ es := by
  rw [commits, List.any_eq_true]
  constructor
  · rintro ⟨e, he, h⟩
    cases e with
    | committed t => exact ⟨t, by simpa using h, he⟩
    | called c => simp at h
    | queued b tx d => simp at h
    | taken b w => simp at h
  · rintro ⟨t, rfl, he⟩
    exact ⟨_, he, by simp⟩

/-- What a request does at a site. -/
def Request.deeds (site : Site) (post : Post) : Request → List Deed
  | .commit tx =>
    match (site.answer post (.commit tx)).1 with
    | .ok () => [.committed tx]
    | .error _ => []
  | .defer b d =>
    if b < site.bags.length then [.queued b (post.invocation.map (·.tx)) d] else []
  | .takeBag b => [.taken b (site.bag b)]
  | _ => []

/-- What the next move of a strand does at a site. -/
def Strand.deeds {α : Type} (site : Site) (k : Strand α) : List Deed :=
  match k.standing with
  | .running (.ask r _) => r.deeds site k.post
  | .running (.call c _) => [.called c]
  | _ => []

/-- A run with its trace. -/
abbrev Scene.Trace {α : Type} (app : Application) : Scene α → List Deed → Scene α → Prop :=
  Scene.Recorded app (fun _ site k => k.deeds site) fun site k => k.deeds site

/-- A main program stands so at the end of some run with the trace. -/
def Scene.Reaches {α : Type} (app : Application) (c₀ : Scene α) (i : Nat) (es : List Deed)
    (k : Strand α) : Prop := ∃ c, Scene.Trace app c₀ es c ∧ c.mains[i]? = some k

/-- A bag holds what the trace has left in it. -/
def Site.Bagged (site : Site) (es : List Deed) : Prop :=
  ∀ bag, site.bag bag = (pending bag es).map Prod.snd

section Bags
variable {site site' : Site} {es : List Deed}

theorem Site.bag_of_bags (h : site'.bags = site.bags) (bag : Nat) :
    site'.bag bag = site.bag bag := by
  simp only [Site.bag, h]

theorem Site.bag_setBag (site : Site) (bag other : Nat) (work : List Deferred) :
    (site.setBag bag work).bag other =
      if bag = other ∧ bag < site.bags.length then work else site.bag other := by
  simp only [Site.bag, Site.setBag, List.getElem?_set]
  by_cases hb : bag = other
  · subst hb
    by_cases hl : bag < site.bags.length
    · simp [hl]
    · simp [hl]
  · simp [hb]

theorem Site.Bagged.of_bags (hs : site.Bagged es) (h : site'.bags = site.bags) :
    site'.Bagged es := fun bag => (Site.bag_of_bags h bag).trans (hs bag)

theorem Site.onDatabase_bags {α : Type} (site : Site) (d : Nat)
    (f : Database → Outcome α × Database) : (site.onDatabase d f).2.bags = site.bags := by
  unfold Site.onDatabase
  cases site.databases[d]? <;> rfl

theorem Site.can_bags (site : Site) (p : Post) (g : Gate) (w : Where) (x : Subject) :
    (site.can p g w x).2.2.bags = site.bags := by
  unfold Site.can
  split
  · rfl
  · dsimp only
    split <;> rfl

/-- An answer to a request leaves in the bags what its deeds leave in them. -/
theorem Site.Bagged.answer (hs : site.Bagged es) (post : Post) (r : Request) :
    (site.answer post r).2.2.Bagged (es ++ r.deeds site post) := by
  have hstay : ∀ r : Request, (site.answer post r).2.2.bags = site.bags →
      r.deeds site post = [] → (site.answer post r).2.2.Bagged (es ++ r.deeds site post) := by
    intro r hb hd
    rw [hd, List.append_nil]
    exact hs.of_bags hb
  cases r with
  | note entries => exact hstay _ rfl rfl
  | run tx q => exact hstay _ rfl rfl
  | mutate tx table a row => exact hstay _ (site.onDatabase_bags _ _) rfl
  | rollback tx => exact hstay _ (site.onDatabase_bags _ _) rfl
  | snapshot d q => exact hstay _ rfl rfl
  | can g w x => exact hstay _ (site.can_bags post g w x) rfl
  | checked => exact hstay _ rfl rfl
  | bag b => exact hstay _ rfl rfl
  | installed => exact hstay _ rfl rfl
  | makeActions => exact hstay _ rfl rfl
  | launch work =>
    refine hstay _ ?_ rfl
    simp only [Site.answer]
    split <;> rfl
  | commit tx =>
    have hb : (site.answer post (.commit tx)).2.2.Bagged es := hs.of_bags (site.onDatabase_bags _ _)
    intro bag
    rw [hb bag, pending_append, Request.deeds]
    split <;> rfl
  | openBag =>
    have hd : Request.openBag.deeds site post = [] := rfl
    intro bag
    rw [hd, List.append_nil, ← hs bag]
    simp only [Site.answer, Site.bag, List.getElem?_append]
    split
    · rfl
    · rename_i hl
      rw [List.getElem?_eq_none (Nat.le_of_not_lt hl)]
      cases bag - site.bags.length <;> rfl
  | defer b d =>
    intro bag
    have he : (site.answer post (.defer b d)).2.2.bag bag = _ := site.bag_setBag b bag _
    rw [he, Request.deeds, pending_append]
    by_cases hl : b < site.bags.length
    · by_cases hb : b = bag
      · subst hb
        simp [hl, Deed.pend, hs b]
      · simp [hl, Deed.pend, hb, hs bag]
    · simp [hl, hs bag]
  | takeBag b =>
    intro bag
    have he : (site.answer post (.takeBag b)).2.2.bag bag = _ := site.bag_setBag b bag []
    rw [he, Request.deeds, pending_append]
    by_cases hb : b = bag
    · subst hb
      by_cases hl : b < site.bags.length
      · simp [hl, Deed.pend]
      · simp [hl, Deed.pend, Site.bag]
    · simp [Deed.pend, hb, hs bag]

theorem Site.Bagged.move {α : Type} {app : Application} {ts new : Tasks} {k k' : Strand α}
    (hs : site.Bagged es) (hm : k.Move app ts site site' k' new) :
    site'.Bagged (es ++ k.deeds site) := by
  have hstay : ∀ (x : Site), x.bags = site.bags → ∀ e, (∀ bag w, Deed.pend bag w e = w) →
      x.Bagged (es ++ [e]) := by
    intro x hx e he bag
    rw [pending_append, List.foldl_cons, List.foldl_nil, he]
    exact hs.of_bags hx bag
  cases hm with
  | ask _ post r next => exact (hs.answer post r).of_bags rfl
  | sleep => simpa [Strand.deeds] using hs
  | begin hb post next =>
    rw [Strand.deeds, List.append_nil]
    refine hs.of_bags ?_
    unfold Site.begin? at hb
    split at hb
    · rw [← (Prod.mk.inj (Option.some.inj hb)).2]
    · obtain ⟨x, -, hx⟩ := Option.map_eq_some_iff.1 hb
      rw [← (Prod.mk.inj hx).2]
  | call => exact hstay _ rfl _ fun _ _ => rfl
  | unknown => exact hstay _ rfl _ fun _ _ => rfl
  | stepAside => simpa [Strand.deeds] using hs
  | deliver => simpa [Strand.deeds] using hs
  | expire => simpa [Strand.deeds] using hs

end Bags

/-- A move that takes the work from a bag does nothing else. -/
theorem Strand.deeds_of_taken {α : Type} {site : Site} {k : Strand α} {bag : Nat}
    {work : List Deferred} (h : Deed.taken bag work ∈ k.deeds site) :
    k.deeds site = [.taken bag work] ∧ work = site.bag bag := by
  unfold Strand.deeds at h ⊢
  split at h
  · rename_i r next hk
    unfold Request.deeds at h ⊢
    split at h
    · split at h <;> simp at h
    · split at h <;> simp at h
    · simp only [List.mem_singleton, Deed.taken.injEq] at h
      obtain ⟨rfl, rfl⟩ := h
      exact ⟨rfl, rfl⟩
    · simp at h
  · simp at h
  · simp at h

namespace Scene.Trace
variable {α : Type} {app : Application} {c₀ c : Scene α} {es : List Deed}

theorem bagged (h : Trace app c₀ es c) (hb : c₀.site.bags = []) : c.site.Bagged es := by
  induction h with
  | start =>
    intro bag
    simp [Site.bag, hb, pending]
  | main _ hk hm ih => exact ih.move hm
  | task _ hk hm ih => exact ih.move hm
  | tick _ clock ih => exact ih.of_bags rfl
  | @drop es c _ tx hf ht ih =>
    obtain ⟨databases, hd⟩ := c.site.drop_eq tx
    exact ih.of_bags (by rw [hd])

/-- The work that is taken from a bag is what was queued in it since it was last emptied. -/
theorem taken (h : Trace app c₀ es c) (hb : c₀.site.bags = []) {pre post : List Deed} {bag : Nat}
    {work : List Deferred} (he : es = pre ++ .taken bag work :: post) :
    work = (pending bag pre).map Prod.snd := by
  have hstep : ∀ {β : Type} (es : List Deed) (site : Site) (k : Strand β), site.Bagged es →
      (∀ pre post, es = pre ++ .taken bag work :: post → work = (pending bag pre).map Prod.snd) →
      ∀ pre post, es ++ k.deeds site = pre ++ .taken bag work :: post →
        work = (pending bag pre).map Prod.snd := by
    intro β es site k hs ih pre post he
    -- The bag is emptied in the last step, or it was emptied before.
    rcases List.append_eq_append_iff.1 he with ⟨mid, rfl, hd⟩ | ⟨mid, hes, hd⟩
    · obtain ⟨hone, hw⟩ := Strand.deeds_of_taken (by simp [hd] : Deed.taken bag work ∈ k.deeds site)
      rw [hone] at hd
      obtain rfl : mid = [] := by
        cases mid with
        | nil => rfl
        | cons e mid => simp at hd
      rw [List.append_nil, hw, hs bag]
    · cases mid with
      | nil =>
        rw [List.append_nil] at hes
        have hmem : Deed.taken bag work ∈ k.deeds site := by
          rw [← List.nil_append (k.deeds site), ← hd]
          exact List.mem_cons_self
        rw [← hes, (Strand.deeds_of_taken hmem).2, hs bag]
      | cons e mid =>
        obtain ⟨rfl, -⟩ := List.cons.inj hd
        exact ih pre mid hes
  induction h generalizing pre post with
  | start => simp at he
  | main h hk hm ih => exact hstep _ _ _ (bagged h hb) (fun _ _ => ih) pre post he
  | task h hk hm ih => exact hstep _ _ _ (bagged h hb) (fun _ _ => ih) pre post he
  | tick h clock ih => exact ih he
  | drop h hf ht ih => exact ih he

/-- What one main program keeps through its own moves and through those of others, it keeps through
the whole run. -/
theorem main_invariant {P : List Deed → Strand α → Prop} {i : Nat} {k₀ : Strand α}
    (happend : ∀ es k ds, P es k → P (es ++ ds) k)
    (hmove : ∀ es (site : Site) (k : Strand α) ts site' k' new, P es k →
      k.Move app ts site site' k' new → Scene.Reaches app c₀ i (es ++ k.deeds site) k' →
      P (es ++ k.deeds site) k')
    (hstart : c₀.mains[i]? = some k₀) (hP : P [] k₀) (h : Trace app c₀ es c) :
    ∃ k, c.mains[i]? = some k ∧ P es k := by
  induction h with
  | start => exact ⟨k₀, hstart, hP⟩
  | @main es c h j k k' site new hk hm ih =>
    obtain ⟨x, hx, hPx⟩ := ih
    by_cases hj : j = i
    · subst hj
      obtain rfl := Option.some.inj (hx.symm.trans hk)
      have hk' : (c.mains.set j k')[j]? = some k' := by simp [(List.getElem?_eq_some_iff.1 hk).1]
      exact ⟨k', hk', hmove _ _ _ _ _ _ _ hPx hm ⟨_, h.main hk hm, hk'⟩⟩
    · exact ⟨x, (List.getElem?_set_ne hj).trans hx, happend _ _ _ hPx⟩
  | task h hk hm ih =>
    obtain ⟨x, hx, hPx⟩ := ih
    exact ⟨x, hx, happend _ _ _ hPx⟩
  | tick h clock ih => exact ih
  | drop h hf ht ih => exact ih

end Scene.Trace

/-- The part of the waiting work that was queued where a test passes. -/
def Pending.kept (p : Option TxRef → Bool) (w : Pending) : List Deferred :=
  (w.filter fun e => p e.1).map Prod.snd

/-- Work is among what was queued where a test passes exactly if all of it was queued there. -/
theorem Pending.subperm_kept_iff (p : Option TxRef → Bool) (w : Pending) :
    (w.map Prod.snd).Subperm (w.kept p) ↔ ∀ e ∈ w, p e.1 = true := by
  constructor
  · intro h
    have hl : w.length ≤ (w.filter fun e => p e.1).length := by
      simpa [Pending.kept] using h.length_le
    have he := List.length_filter_eq_length_iff.1
      (Nat.le_antisymm (List.length_filter_le (fun e => p e.1) w) hl)
    exact he
  · intro h
    rw [Pending.kept, List.filter_eq_self.2 h]

namespace Standing
variable {α β : Type}

/-- A program under way that is followed by another one. -/
def bind (x : Standing α) (f : α → Program β) : Standing β :=
  match x with
  | running p => .running (p.bind f)
  | waiting t overrun next => .waiting t overrun fun r => (next r).bind f

end Standing

/-- What a program does that is followed by another one, it does alone, until it is finished. -/
theorem Strand.Move.of_bind {α β : Type} {app : Application} {ts new : Tasks} {site site' : Site}
    {post : Post} {x : Standing α} {f : α → Program β} {k' : Strand β}
    (hm : Strand.Move app ts site ⟨post, x.bind f⟩ site' k' new) :
    (∃ a, x = .running (.done a)) ∨ ∃ k : Strand α, k' = ⟨k.post, k.standing.bind f⟩ ∧
      Strand.Move app ts site ⟨post, x⟩ site' k new := by
  match x with
  | .running (.done a) => exact .inl ⟨a, rfl⟩
  | .running (.ask r next) =>
    cases hm with
    | ask => exact .inr ⟨⟨_, .running _⟩, rfl, .ask ..⟩
  | .running (.sleep ms next) =>
    cases hm with
    | sleep => exact .inr ⟨⟨_, .running _⟩, rfl, .sleep ..⟩
  | .running .hang => cases hm
  | .running (.begin d next) =>
    cases hm with
    | begin hb => exact .inr ⟨⟨_, .running _⟩, rfl, .begin hb ..⟩
  | .running (.call c next) =>
    cases hm with
    | call _ _ hc => exact .inr ⟨⟨_, .waiting _ _ _⟩, rfl, .call _ _ hc _⟩
    | unknown _ _ hc => exact .inr ⟨⟨_, .running _⟩, rfl, .unknown _ _ hc _⟩
  | .running (.stepAside next) =>
    cases hm with
    | stepAside => exact .inr ⟨⟨_, .waiting _ _ fun _ => next⟩, rfl, .stepAside ..⟩
  | .waiting t overrun next =>
    cases hm with
    | deliver ht hr => exact .inr ⟨⟨_, .running _⟩, rfl, .deliver ht hr ..⟩
    | expire => exact .inr ⟨⟨_, .running _⟩, rfl, .expire ..⟩

end RowGuard
