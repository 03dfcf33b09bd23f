import RowGuard.Proofs.Mutation.TableModels
import RowGuard.Proofs.Push.Progress
import RowGuard.Proofs.Push.Shadow
import RowGuard.Proofs.Schedule.Refinement

/-! # Pushes are serializable

However the steps of pushes and their tasks interleave, the committed tables are the first ones with
the writes of the successful mutations applied, one mutation after another; and each of them could
have run alone, with these writes, on the tables that the ones before have left.  The order is the one
in which they commit, and it keeps the order of every push.
-/
namespace RowGuard

/-- Where nothing else runs, a push of this one mutation can succeed on the tables `T`.  It makes the
writes `ws` in the transaction of the mutation, and leaves the tables `T'`, which are `T` with these
writes applied. -/
structure RunsAlone (app : Application) (s : Server) (schema : Schema) (m : Mutators)
    (p : PushMutation) (ws : List Write) (T T' : Tables) : Prop where
  replay : schema.replay T ws = .ok T'
  runs : ∀ site : Site, site.AtRest s.database schema T → ∃ es c,
    Scene.Logged app (.pushes s site [⟨m, [p]⟩]) es c ∧ c.results? = some [.ok [p.result .ok]] ∧
    writesAt es (0, 0) = ws ∧ c.site.AtRest s.database schema T'

/-- Tables that become others one by one. -/
inductive OneByOne {α : Type} (Q : α → Tables → Tables → Prop) : List α → Tables → Tables → Prop where
  | nil (T : Tables) : OneByOne Q [] T T
  | snoc {as : List α} {a : α} {T U V : Tables} (h : OneByOne Q as T U) (ha : Q a U V) :
      OneByOne Q (as ++ [a]) T V

/-- What `Q` says of the mutation at a place of a push and of its writes in the log. -/
def AtPlace (us : List Submission) (es : List Mark)
    (Q : Mutators → PushMutation → List Write → Tables → Tables → Prop) (a : Nat × Nat)
    (T T' : Tables) : Prop :=
  ∃ u p, us[a.1]? = some u ∧ u.mutations[a.2]? = some p ∧ Q u.mutators p (writesAt es a) T T'

/-- The mutations that have succeeded, by the results of the first ones. -/
def succeeded : List PushMutation → List MutationResult → List PushMutation
  | p :: ps, r :: rs => if r.outcome = .ok then p :: succeeded ps rs else succeeded ps rs
  | _, _ => []

/-- The answers say that a mutation has succeeded, which is given by its push and its place there. -/
def Succeeds (answers : List (Outcome (List MutationResult))) (i k : Nat) : Prop :=
  ∃ rs r, answers[i]? = some (.ok rs) ∧ rs[k]? = some r ∧ r.outcome = .ok

/-- A list keeps the order of every push. -/
def KeepsOrder (order : List (Nat × Nat)) : Prop := order.Pairwise fun a b => a.1 = b.1 → a.2 < b.2

/-- How the mutations that have succeeded account for the committed tables, and what is known of the
mutation that is under way. -/
structure Ledger (app : Application) (s : Server) (us : List Submission) (schema : Schema)
    (T : Tables) (es : List Mark) (c : Scene (Outcome (List MutationResult))) (σ : Nat → Stage)
    (st : Store) (order : List (Nat × Nat)) : Prop where
  same : st.schema = schema
  active : ∀ i u rs p ps h phase, us[i]? = some u → σ i = .busy rs p ps h phase →
    Follows app s u.mutators p c st h phase (writesThrough ⟨s.database, h⟩ es) st.committed
  turns : OneByOne (AtPlace us es (CanRun app s schema)) order T st.committed
  keeps : KeepsOrder order
  mem : ∀ i k, (i, k) ∈ order ↔ ∃ r, (σ i).results[k]? = some r ∧ r.outcome = .ok
  single : ∀ u, us = [u] → OneByOne (fun p U V => ∃ ws, CanRun app s schema u.mutators p ws U V)
    (succeeded u.mutations (σ 0).results) T st.committed

section Lists

/-- What the steps keep of the tables may be used for each of them. -/
theorem OneByOne.carry {α : Type} {Q Q' : α → Tables → Tables → Prop} {I : Tables → Prop}
    {as : List α} {T U : Tables} (h : OneByOne Q as T U) (hT : I T)
    (hq : ∀ a ∈ as, ∀ T U, I T → Q a T U → Q' a T U ∧ I U) : OneByOne Q' as T U ∧ I U := by
  induction h with
  | nil T => exact ⟨.nil T, hT⟩
  | snoc _ ha ih =>
    obtain ⟨hso, hU⟩ := ih hT fun a ha => hq a (List.mem_append_left _ ha)
    obtain ⟨hlast, hV⟩ := hq _ (by simp) _ _ hU ha
    exact ⟨.snoc hso hlast, hV⟩

theorem OneByOne.mono {α : Type} {Q Q' : α → Tables → Tables → Prop} {as : List α} {T U : Tables}
    (h : OneByOne Q as T U) (hq : ∀ a ∈ as, ∀ T U, Q a T U → Q' a T U) : OneByOne Q' as T U :=
  (h.carry (I := fun _ => True) trivial fun a ha T U _ hQ => ⟨hq a ha T U hQ, trivial⟩).1

theorem OneByOne.cons {α : Type} {Q : α → Tables → Tables → Prop} {a : α} {as : List α}
    {T U V : Tables} (ha : Q a T U) (h : OneByOne Q as U V) : OneByOne Q (a :: as) T V := by
  induction h with
  | nil U => exact .snoc (.nil T) ha
  | snoc _ hb ih => exact .snoc (ih ha) hb

theorem OneByOne.eq_of_nil {α : Type} {Q : α → Tables → Tables → Prop} {T U : Tables}
    (h : OneByOne Q [] T U) : T = U := by
  generalize hl : [] = l at h
  cases h with
  | nil => rfl
  | snoc => simp at hl

theorem OneByOne.of_cons {α : Type} {Q : α → Tables → Tables → Prop} {a : α} {as : List α}
    {T V : Tables} (h : OneByOne Q (a :: as) T V) : ∃ U, Q a T U ∧ OneByOne Q as U V := by
  generalize hl : a :: as = l at h
  induction h generalizing as with
  | nil => cases hl
  | @snoc bs b T U V h hb ih =>
    cases bs with
    | nil =>
      obtain ⟨rfl, rfl⟩ := List.cons.inj hl
      obtain rfl := h.eq_of_nil
      exact ⟨V, hb, .nil V⟩
    | cons x bs =>
      obtain ⟨rfl, rfl⟩ := List.cons.inj hl
      obtain ⟨U', ha, hrest⟩ := ih rfl
      exact ⟨U', ha, .snoc hrest hb⟩

theorem succeeded_append {rs : List MutationResult} {ps : List PushMutation}
    (hr : List.Forall₂ MutationResult.Reports rs ps) (p : PushMutation) (qs : List PushMutation)
    (r : MutationResult) : succeeded (ps ++ p :: qs) (rs ++ [r]) =
      succeeded (ps ++ p :: qs) rs ++ if r.outcome = .ok then [p] else [] := by
  induction hr with
  | nil => simp [succeeded]
  | @cons r' p' _ _ _ _ ih =>
    simp only [List.cons_append, succeeded, ih]
    split <;> simp

theorem result_succeeded {rs : List MutationResult} {ps : List PushMutation}
    (hr : List.Forall₂ MutationResult.Reports rs ps) :
    (succeeded ps rs).map (·.result .ok) = rs.filter fun r => decide (r.outcome = .ok) := by
  induction hr with
  | nil => rfl
  | @cons r p rs ps h _ ih =>
    by_cases ho : r.outcome = .ok
    · have he : p.result .ok = r := by
        obtain ⟨id, clientId, outcome⟩ := r
        obtain ⟨rfl, rfl⟩ := h
        obtain rfl := ho
        rfl
      simp [succeeded, ho, ih, he]
    · simp [succeeded, ho, ih]

theorem exists_ok_snoc_iff {rs : List MutationResult} {r : MutationResult} {k : Nat} :
    (∃ x, (rs ++ [r])[k]? = some x ∧ x.outcome = .ok) ↔
      (∃ x, rs[k]? = some x ∧ x.outcome = .ok) ∨ r.outcome = .ok ∧ k = rs.length := by
  rcases lt_trichotomy k rs.length with hk | rfl | hk
  · rw [List.getElem?_append_left hk]
    simp [hk.ne]
  · simp
  · have hnone : (rs ++ [r])[k]? = none := by
      rw [List.getElem?_eq_none_iff, List.length_append, List.length_singleton]
      omega
    have hnone' : rs[k]? = none := List.getElem?_eq_none_iff.2 hk.le
    simp [hnone, hnone', hk.ne']

/-- The next mutation of a push may be the next in the order. -/
theorem KeepsOrder.snoc {order : List (Nat × Nat)} (ho : KeepsOrder order) {i n : Nat}
    (hlt : ∀ k, (i, k) ∈ order → k < n) : KeepsOrder (order ++ [(i, n)]) := by
  refine List.pairwise_append.2 ⟨ho, List.pairwise_singleton _ _, ?_⟩
  rintro ⟨j, k⟩ hj b hb
  obtain rfl := List.mem_singleton.1 hb
  rintro rfl
  exact hlt k hj

end Lists

section Runs
variable {app : Application} {s : Server} {us : List Submission} {schema : Schema} {T : Tables}
  {c c' : Scene (Outcome (List MutationResult))} {σ σ' : Nat → Stage} {st st' : Store}
  {order : List (Nat × Nat)} {m : Mutators} {es es' ms : List Mark}

theorem Scene.pushes_single (s : Server) (site : Site) (m : Mutators) (ps : List PushMutation) :
    Scene.pushes s site [⟨m, ps⟩] = ⟨site, [(Stage.idle [] ps).strand app s m], []⟩ := by
  simp [Scene.pushes, Scene.start, Stage.strand, Stage.standing, Server.rest_nil_left]

/-- Mutations that can run one by one can run as one push, before others. -/
theorem OneByOne.push {site : Site} (hsite : site.AtRest s.database schema T) {qs : List PushMutation}
    {U : Tables} (hq : OneByOne (fun q U V => ∃ ws, CanRun app s schema m q ws U V) qs T U)
    (more : List PushMutation) :
    ∃ c, Scene.Steps app (.pushes s site [⟨m, qs ++ more⟩]) c ∧ c.site.AtRest s.database schema U ∧
      c.mains = [(Stage.idle (qs.map (·.result .ok)) more).strand app s m] := by
  induction hq generalizing more with
  | nil T => exact ⟨_, .refl, hsite, by rw [Scene.pushes_single]; rfl⟩
  | @snoc qs q T U V _ ha ih =>
    obtain ⟨c, hsteps, hrest, hmains⟩ := ih hsite (q :: more)
    obtain ⟨ws, hrun⟩ := ha
    obtain ⟨es, tx, c', hlog, -, -, hrest', hmains'⟩ :=
      hrun.runs c 0 _ _ hrest (by rw [hmains]; rfl)
    refine ⟨c', ?_, hrest', ?_⟩
    · rw [List.append_assoc, List.singleton_append]
      exact hsteps.trans hlog.steps
    · rw [hmains', hmains, List.map_append]
      rfl

/-- A push that has run all its mutations has answered. -/
theorem Scene.results?_of_single {c : Scene (Outcome (List MutationResult))}
    {rs : List MutationResult} (hc : c.mains = [(Stage.idle rs []).strand app s m]) :
    c.results? = some [.ok rs] := by
  rw [Scene.results?_eq_some_iff, hc]
  exact .cons (Stage.result?_strand.2 ⟨rs, rfl, rfl⟩) .nil

/-- What the machine makes of pushes that it runs side by side is one of the ways in which their steps
can interleave. -/
theorem Scene.pushes_of_runAll {site : Site} (ho : site.outbox = [])
    {answers : List (Outcome (List MutationResult))}
    (h : ((Background.idle site).runAll app (us.map fun u =>
      (.outside, s.pushAll u.mutators u.mutations))).1 = some answers) :
    ∃ c, Scene.Steps app (.pushes s site us) c ∧ c.results? = some answers ∧
      c.site = ((Background.idle site).runAll app (us.map fun u =>
        (.outside, s.pushAll u.mutators u.mutations))).2.site := by
  have hposts : Scene.start site ((us.map fun u =>
      (Post.outside, s.pushAll u.mutators u.mutations)).map fun (post, p) => ⟨post, .running p⟩) =
      .pushes s site us := by
    rw [List.map_map]
    rfl
  rw [← hposts]
  exact Background.runAll_steps ho (Prod.ext h rfl)

theorem CanRun.runsAlone {p : PushMutation} {ws : List Write} {U : Tables}
    (h : CanRun app s schema m p ws T U) : RunsAlone app s schema m p ws T U where
  replay := h.replay
  runs site hsite := by
    have hstart : Scene.pushes s site [⟨m, [p]⟩] =
        ⟨site, [(Stage.idle [] [p]).strand app s m], []⟩ := Scene.pushes_single s site m [p]
    obtain ⟨es, tx, c, hlog, hcalls, hws, hrest, hmains⟩ :=
      h.runs (.pushes s site [⟨m, [p]⟩]) 0 [] [] hsite (by rw [hstart]; rfl)
    rw [hstart] at hmains
    refine ⟨es, c, hlog, Scene.results?_of_single hmains, ?_, hrest⟩
    rw [writesAt_of_calls (by rw [hcalls]; rfl), hws]

/-- Mutations that have run one by one have made all their writes one after another. -/
theorem OneByOne.replay {as : List (Nat × Nat)} {U : Tables}
    (h : OneByOne (AtPlace us es (RunsAlone app s schema)) as T U) :
    schema.replay T (as.flatMap (writesAt es)) = .ok U := by
  induction h with
  | nil T => rfl
  | @snoc as a T U V _ ha ih =>
    obtain ⟨u, p, -, -, hrun⟩ := ha
    rw [List.flatMap_append, List.flatMap_singleton, Schema.replay_append, ih]
    exact hrun.replay

theorem Ledger.start {site : Site} :
    Ledger app s us st.schema st.committed [] (.pushes s site us) (Stage.first us) st [] where
  same := rfl
  active i u rs p ps h phase _ hi := by simp [Stage.first] at hi
  turns := .nil _
  keeps := .nil
  mem i k := by simp [Stage.first, Stage.results]
  single u _ := by
    have he : succeeded u.mutations [] = [] := by cases u.mutations <;> rfl
    simpa only [Stage.first, Stage.results, he] using OneByOne.nil _

/-- While no transaction is open, no push is busy. -/
theorem Coherent.handle?_of_quiet (hc : Coherent app s us c σ st) (hq : st.Quiet) (j : Nat) :
    (σ j).handle? = none := by
  cases hc.locks with
  | free _ hall => exact hall j
  | held hh => exact (hq.not_held hh).elim

/-- When the push that is busy comes to rest, none is busy. -/
theorem Coherent.rest_of_busy (hc : Coherent app s us c σ st) {i : Nat}
    {rs : List MutationResult} {p : PushMutation} {ps : List PushMutation} {h : Nat} {phase : Phase}
    (hi : σ i = .busy rs p ps h phase) (rs' : List MutationResult) (j : Nat) :
    (Function.update σ i (.idle rs' ps) j).handle? = none := by
  by_cases hj : j = i
  · subst hj
    simp [Stage.handle?]
  · rw [Function.update_of_ne hj]
    exact (hc.locks.held_of_handle (i := i) (by rw [hi]; rfl)).2 j hj

section Step
variable (ha : Attributed s.database es σ st) (hc : Coherent app s us c σ st)
  (hl : Ledger app s us schema T es c σ st order)
include hl

/-- The writes of the mutations that have succeeded stay as they are. -/
theorem Ledger.turns_step (ha : Attributed s.database es σ st)
    (he : Evolves app s us c σ st ms c' σ' st') :
    OneByOne (AtPlace us (es ++ ms) (CanRun app s schema)) order T st.committed := by
  refine hl.turns.mono fun a hmem U V hat => ?_
  obtain ⟨u, p, hu, hp, hrun⟩ := hat
  obtain ⟨r, hr, -⟩ := (hl.mem a.1 a.2).1 hmem
  have hwrites := ha.writesAt_step he (List.getElem?_eq_some_iff.1 hr).1
  exact ⟨u, p, hu, hp, hwrites ▸ hrun⟩

/-- Steps that neither settle a transaction nor touch the committed tables. -/
theorem Ledger.stay (hschema : st'.schema = st.schema) (hcommitted : st'.committed = st.committed)
    (hturns : OneByOne (AtPlace us es' (CanRun app s schema)) order T st.committed)
    (hres : ∀ i, (σ' i).results = (σ i).results)
    (hact : ∀ i u rs p ps h phase, us[i]? = some u → σ' i = .busy rs p ps h phase →
      Follows app s u.mutators p c' st' h phase (writesThrough ⟨s.database, h⟩ es') st.committed) :
    Ledger app s us schema T es' c' σ' st' order where
  same := by rw [hschema, hl.same]
  active := by
    rw [hcommitted]
    exact hact
  turns := by
    rw [hcommitted]
    exact hturns
  keeps := hl.keeps
  mem i k := by rw [hl.mem, hres]
  single u hu := by
    rw [hcommitted, hres]
    exact hl.single u hu

/-- A step of one push that settles no transaction, while no other push is busy. -/
theorem Ledger.stay_push {i : Nat} {u : Submission} (hu : us[i]? = some u) {x' : Stage}
    (hschema : st'.schema = st.schema) (hcommitted : st'.committed = st.committed)
    (hturns : OneByOne (AtPlace us es' (CanRun app s schema)) order T st.committed)
    (hres : x'.results = (σ i).results) (halone : ∀ j, j ≠ i → (σ j).handle? = none)
    (hact : ∀ rs p ps h phase, x' = .busy rs p ps h phase →
      Follows app s u.mutators p c' st' h phase (writesThrough ⟨s.database, h⟩ es') st.committed) :
    Ledger app s us schema T es' c' (Function.update σ i x') st' order := by
  apply hl.stay hschema hcommitted hturns
  · intro j
    by_cases hj : j = i
    · rw [hj, Function.update_self, hres]
    · rw [Function.update_of_ne hj]
  · intro j v rs p ps h phase hv hb
    by_cases hj : j = i
    · subst hj
      rw [Function.update_self] at hb
      obtain rfl : v = u := Option.some.inj (hv.symm.trans hu)
      exact hact rs p ps h phase hb
    · rw [Function.update_of_ne hj] at hb
      have hnone := halone j hj
      simp [hb, Stage.handle?] at hnone

/-- The order takes in a mutation that comes to its end exactly if it succeeds. -/
theorem Ledger.mem_settle {i : Nat} {rs : List MutationResult} {p : PushMutation}
    {ps : List PushMutation} {h : Nat} {phase : Phase} (hi : σ i = .busy rs p ps h phase)
    {o : MutationOutcome} {order' : List (Nat × Nat)}
    (ho : ∀ j k, (j, k) ∈ order' ↔ (j, k) ∈ order ∨ o = .ok ∧ j = i ∧ k = rs.length) (j k : Nat) :
    (j, k) ∈ order' ↔ ∃ r,
      (Function.update σ i (.idle (rs ++ [p.result o]) ps) j).results[k]? = some r ∧
        r.outcome = .ok := by
  rw [ho, hl.mem]
  by_cases hj : j = i
  · subst hj
    rw [Function.update_self, hi, Stage.results, Stage.results, exists_ok_snoc_iff]
    simp [PushMutation.result]
  · rw [Function.update_of_ne hj]
    simp [hj]

include hc

/-- A single push goes on to its next mutation with one more that has succeeded, or with none. -/
theorem Ledger.single_settle {i : Nat} {u v : Submission} (hu : us[i]? = some u)
    {rs : List MutationResult} {p : PushMutation} {ps : List PushMutation} {h : Nat} {phase : Phase}
    (hi : σ i = .busy rs p ps h phase) (o : MutationOutcome) (hv : us = [v]) :
    v = u ∧ OneByOne (fun p U V => ∃ ws, CanRun app s schema v.mutators p ws U V)
      (succeeded v.mutations rs) T st.committed ∧
    succeeded v.mutations (Function.update σ i (.idle (rs ++ [p.result o]) ps) 0).results =
      succeeded v.mutations rs ++ if o = .ok then [p] else [] := by
  obtain ⟨qs, hqs, hrep⟩ := hc.answers i u hu
  rw [hi] at hqs hrep
  subst hv
  obtain ⟨rfl, rfl⟩ : i = 0 ∧ v = u := by simpa [List.getElem?_singleton] using hu
  have hsofar := hl.single v rfl
  rw [hi] at hsofar
  refine ⟨rfl, hsofar, ?_⟩
  rw [Function.update_self, hqs]
  exact succeeded_append hrep p ps (p.result o)

/-- A mutation comes to an end: it is the next in the order, or it leaves no trace. -/
theorem Ledger.settle {i : Nat} {u : Submission} (hu : us[i]? = some u) {rs : List MutationResult}
    {p : PushMutation} {ps : List PushMutation} {h : Nat} {phase : Phase}
    (hi : σ i = .busy rs p ps h phase) {o : MutationOutcome} (hschema : st'.schema = st.schema)
    (hturns : OneByOne (AtPlace us es' (CanRun app s schema)) order T st.committed)
    (ho : o = .ok ∧ CanRun app s schema u.mutators p (writesAt es' (i, rs.length)) st.committed
        st'.committed ∨ o ≠ .ok ∧ st'.committed = st.committed) :
    ∃ order', Ledger app s us schema T es' c' (Function.update σ i (.idle (rs ++ [p.result o]) ps))
      st' order' := by
  obtain ⟨qs, hqs, hrep⟩ := hc.answers i u hu
  rw [hi, Stage.results] at hrep
  rw [hi, Stage.left] at hqs
  have hactive : ∀ j v rs' p' ps' h' phase', us[j]? = some v →
      Function.update σ i (.idle (rs ++ [p.result o]) ps) j = .busy rs' p' ps' h' phase' →
        Follows app s v.mutators p' c' st' h' phase' (writesThrough ⟨s.database, h'⟩ es')
          st'.committed := by
    intro j v rs' p' ps' h' phase' _ hb
    have hrest := hc.rest_of_busy hi (rs ++ [p.result o]) j
    simp [hb, Stage.handle?] at hrest
  rcases ho with ⟨rfl, hrun⟩ | ⟨hne, hsame⟩
  · have hplace : u.mutations[rs.length]? = some p := by
      rw [hqs, hrep.length_eq]
      simp
    have hlt : ∀ k, (i, k) ∈ order → k < rs.length := by
      intro k hk
      obtain ⟨r, hr, -⟩ := (hl.mem i k).1 hk
      rw [hi] at hr
      exact (List.getElem?_eq_some_iff.1 hr).1
    exact ⟨order ++ [(i, rs.length)], {
      same := by rw [hschema, hl.same]
      active := hactive
      turns := .snoc hturns ⟨u, p, hu, hplace, hrun⟩
      keeps := hl.keeps.snoc hlt
      mem := hl.mem_settle hi fun j k => by simp
      single := by
        intro v hv
        obtain ⟨rfl, hsofar, hsucceeded⟩ := hl.single_settle hc hu hi .ok hv
        rw [hsucceeded]
        exact .snoc hsofar ⟨_, hrun⟩ }⟩
  · exact ⟨order, {
      same := by rw [hschema, hl.same]
      active := hactive
      turns := by rw [hsame]; exact hturns
      keeps := hl.keeps
      mem := hl.mem_settle hi fun j k => by simp [hne]
      single := by
        intro v hv
        obtain ⟨rfl, hsofar, hsucceeded⟩ := hl.single_settle hc hu hi o hv
        rw [hsucceeded, hsame]
        simpa [hne] using hsofar }⟩

include ha

theorem Ledger.push (happ : app.ThroughTx) {i : Nat} {u : Submission} (hu : us[i]? = some u)
    {x' : Stage} {new : Tasks} (hn : (σ i).Next app s u.mutators c.tasks st st' x' new) :
    ∃ order', Ledger app s us schema T (es ++ (σ i).marks s.database i)
      ⟨c.site.withStore s.database st', c.mains.set i (x'.strand app s u.mutators), c.tasks ++ new⟩
      (Function.update σ i x') st' order' := by
  have hturns := hl.turns_step ha (.push hu hn)
  have hstay : ∀ {rs p ps h phase phase₁}, σ i = .busy rs p ps h phase →
      x' = .busy rs p ps h phase₁ → st' = st →
        ∃ order', Ledger app s us schema T (es ++ (σ i).marks s.database i)
          ⟨c.site.withStore s.database st', c.mains.set i (x'.strand app s u.mutators),
            c.tasks ++ new⟩ (Function.update σ i x') st' order' := by
    rintro rs p ps h phase phase₁ hi rfl rfl
    have halone := (hc.locks.held_of_handle (i := i) (by rw [hi]; rfl)).2
    refine ⟨order, hl.stay_push hu rfl rfl hturns (by rw [hi]; rfl) halone ?_⟩
    rintro _ _ _ _ _ ⟨⟩
    rw [hi] at hn
    rw [hc.store.withStore_self, writesThrough_append, Stage.writesThrough_marks, List.append_nil]
    exact (hl.active i u _ _ _ _ _ hu hi).push happ hn _
  generalize hσ : σ i = x at hn hstay hturns
  cases hn with
  | begin hq rs p ps =>
    refine ⟨order, hl.stay_push hu st.entered_schema st.entered_committed hturns (by rw [hσ]; rfl)
      (fun j _ => hc.handle?_of_quiet hq j) ?_⟩
    rintro _ _ _ _ _ ⟨⟩
    rw [List.append_nil, writesThrough_append, ha.fresh _ le_rfl]
    exact .begin hc.store hc.outbox hc.tasks _
  | call | unknown | deliver | expire => exact hstay rfl rfl rfl
  | @commit h W hh rs p ps =>
    have hwrites : writesAt (es ++ (Stage.busy rs p ps h (.settling (.ok ()))).marks s.database i)
        (i, rs.length) = writesThrough ⟨s.database, h⟩ es := by
      have hnone : (Stage.busy rs p ps h (.settling (.ok ()))).marks s.database i = [] := rfl
      rw [hnone, List.append_nil]
      exact writesAt_of_calls (ha.call_of_busy hσ)
    have hrun := (hl.active i u _ _ _ _ _ hu hσ).commit hh (ha.working h W hh)
    rw [hl.same, ← hwrites] at hrun
    exact hl.settle hc hu hσ (st.concluded_schema h W) hturns (.inl ⟨rfl, hrun⟩)
  | @rollback h W hh e rs p ps =>
    exact hl.settle hc hu hσ (st.release_schema h) hturns (.inr ⟨by simp, st.release_committed h⟩)

/-- Every step keeps the account of the committed tables. -/
theorem Ledger.step (happ : app.ThroughTx) (he : Evolves app s us c σ st ms c' σ' st') :
    ∃ order', Ledger app s us schema T (es ++ ms) c' σ' st' order' := by
  have hturns := hl.turns_step ha he
  cases he with
  | push hu hn => exact hl.push ha hc happ hu hn
  | task hk hg hcon hm hamend =>
    refine ⟨order, hl.stay (st.amend_schema _ _) (st.amend_committed _ _) hturns (fun _ => rfl) ?_⟩
    intro i u rs p ps h phase hu hi
    obtain ⟨⟨W, hh⟩, -⟩ := hc.locks.held_of_handle (i := i) (by rw [hi]; rfl)
    rw [writesThrough_append]
    exact (hl.active i u rs p ps h phase hu hi).task happ hh hk hm hamend.store
      (st.amend_schema _ _) _
  | tick clock =>
    rw [List.append_nil] at hturns ⊢
    exact ⟨order, hl.stay rfl rfl hturns (fun _ => rfl) fun i u rs p ps h phase hu hi =>
      (hl.active i u rs p ps h phase hu hi).tick clock⟩
  | drop tx hq hall hs =>
    refine ⟨order, hl.stay rfl rfl hturns (fun _ => rfl) fun i u rs p ps h phase hu hi => ?_⟩
    have hnone := hall i
    simp [hi, Stage.handle?] at hnone

end Step

/-- Whatever pushes and tasks do, the committed tables are accounted for. -/
theorem Coherent.account (happ : app.ThroughTx) {site : Site} (hs : site.HasStore s.database st)
    (hq : st.Quiet) (ho : site.outbox = []) (hlog : Scene.Logged app (.pushes s site us) es c) :
    ∃ σ st' order, Coherent app s us c σ st' ∧ Attributed s.database es σ st' ∧
      Ledger app s us st.schema st.committed es c σ st' order := by
  obtain ⟨σ, st', hc, ha, order, hl⟩ := (Coherent.start hs ho hq).run
    (P := fun es c σ st' => Attributed s.database es σ st' ∧
      ∃ order, Ledger app s us st.schema st.committed es c σ st' order)
    happ ⟨.start _ us hq, [], .start⟩
    (fun hc ⟨ha, _, hl⟩ he => ⟨ha.step hc he, hl.step ha hc happ he⟩) hlog
  exact ⟨σ, st', order, hc, ha, hl⟩

/-- The answers say which mutations are in the order. -/
theorem Ledger.mem_iff_succeeds (hl : Ledger app s us schema T es c σ st order)
    (hc : Coherent app s us c σ st) {answers : List (Outcome (List MutationResult))}
    (ha : c.results? = some answers) {i k : Nat} : (i, k) ∈ order ↔ Succeeds answers i k := by
  rw [hl.mem]
  constructor
  · rintro ⟨r, hr, hok⟩
    cases hu : us[i]? with
    | none =>
      rw [hc.nobody i hu] at hr
      simp [Stage.results] at hr
    | some u => exact ⟨_, r, (hc.results ha hu).1, hr, hok⟩
  · rintro ⟨rs, r, hi, hr, hok⟩
    exact ⟨r, by rw [hc.results_eq ha hi, hr], hok⟩

/-- A push that is answered has called once for each mutation. -/
theorem Attributed.length_calls (ha : Attributed s.database es σ st)
    (hc : Coherent app s us c σ st) {answers : List (Outcome (List MutationResult))}
    (hans : c.results? = some answers) {i : Nat} {u : Submission} (hu : us[i]? = some u) :
    (callsOf i es).length = u.mutations.length := by
  obtain ⟨-, hidle, hrep⟩ := hc.results hans hu
  obtain ⟨hs, htxs, hlen, -⟩ := ha.calls i
  rw [htxs, ← hrep.length_eq, ← hlen, hidle]
  simp [Stage.calls]

/-- Pushes that run side by side can always be answered.  Their answers have one result for each
mutation, which was called in a transaction of its own.  The committed tables are the first ones with
the writes of the successful mutations applied, and of no others, one mutation after another in an
order that keeps the order of every push; each of them could have run alone on the tables that the
ones before it have left, with the same writes.  A single push leaves the same tables, with the same
other results, without the mutations that failed. -/
theorem pushes_serializable (happ : app.ThroughTx) {site : Site}
    (hsite : site.AtRest s.database schema T)
    (hlog : Scene.Logged app (.pushes s site us) es c) :
    (∃ c' answers, Scene.Steps app c c' ∧ c'.results? = some answers) ∧
    ∀ answers : List (Outcome (List MutationResult)), c.results? = some answers →
      answers.length = us.length ∧
      (∀ (i : Nat) (u : Submission), us[i]? = some u → ∃ rs, answers[i]? = some (.ok rs) ∧
        List.Forall₂ MutationResult.Reports rs u.mutations ∧
        (callsOf i es).length = u.mutations.length) ∧
      ∃ T', c.site.AtRest s.database schema T' ∧
        (∃ order, KeepsOrder order ∧ (∀ i k, (i, k) ∈ order ↔ Succeeds answers i k) ∧
          schema.replay T (order.flatMap (writesAt es)) = .ok T' ∧
          OneByOne (AtPlace us es (RunsAlone app s schema)) order T T') ∧
        ∀ (u : Submission) (rs : List MutationResult), us = [u] → answers = [.ok rs] → ∃ c',
          Scene.Steps app (.pushes s site [⟨u.mutators, succeeded u.mutations rs⟩]) c' ∧
          c'.results? = some [.ok (rs.filter fun r => r.outcome = .ok)] ∧
          c'.site.AtRest s.database schema T' := by
  have hrest := hsite
  obtain ⟨st, hs, hq, rfl, rfl, ho⟩ := hsite
  obtain ⟨σ, st', order, hc, ha, hl⟩ := Coherent.account happ hs hq ho hlog
  refine ⟨?_, fun answers hans => ?_⟩
  · obtain ⟨c', σ', st'', hmore, hc', hwork⟩ := hc.finish happ
    obtain ⟨answers, hans⟩ := hc'.results?_of_work hwork
    exact ⟨c', answers, hmore, hans⟩
  have hidle : ∀ i, (σ i).handle? = none := by
    apply hc.handle?_of_finished
    rw [hans]
    rfl
  have hturns : OneByOne (AtPlace us es (RunsAlone app s st.schema)) order st.committed
      st'.committed := by
    refine hl.turns.mono fun a _ U V hat => ?_
    obtain ⟨u, p, hu, hp, hrun⟩ := hat
    exact ⟨u, p, hu, hp, hrun.runsAlone⟩
  refine ⟨hc.length_answers hans, fun i u hu => ?_, st'.committed,
    ⟨st', hc.store, hc.locks.quiet hidle, hl.same, rfl, hc.outbox⟩,
    ⟨order, hl.keeps, fun i k => hl.mem_iff_succeeds hc hans, hturns.replay, hturns⟩, ?_⟩
  · obtain ⟨hr, -, hrep⟩ := hc.results hans hu
    exact ⟨_, hr, hrep, ha.length_calls hc hans hu⟩
  · rintro u rs rfl rfl
    obtain ⟨-, -, hrep⟩ := hc.results hans (i := 0) (u := u) rfl
    have hchain := hl.single u rfl
    have hrs : (σ 0).results = rs := hc.results_eq hans rfl
    rw [hrs] at hrep hchain
    obtain ⟨c', hsteps', hrest', hmains⟩ := hchain.push hrest []
    rw [List.append_nil] at hsteps'
    rw [result_succeeded hrep] at hmains
    exact ⟨c', hsteps', Scene.results?_of_single hmains, hrest'⟩

end Runs

/-! Two pushes, in each of which a mutation runs out of time and writes later. -/
namespace LateWrites

def schema : Schema := Schema.empty.addTable ⟨"note", [⟨"id", .string, false, none⟩], ["id"]⟩

def server : Server := ⟨0, ⟨.server, schema, false⟩, .empty, none, none⟩

/-- On the server, let trusted code insert a note, and delete the note when the time is up. -/
def linger : Body := fun i args =>
  match i.server with
  | some _ => (server.mutate i.ambient none fun tx m => m.call tx "note.insert" args).bind fun _ =>
      .sleep 1500 (writeRow "note" .delete i args)
  | none => .fail .notInMutator

def app : Application where
  mutators := .ofList [("note.insert", guardedWrite "note" (.allowAll "note") .insert none),
    ("note.linger", linger)]
  timeout := 1000

theorem linger_throughTx : linger.ThroughTx := by
  intro tx tx' i i' args hi
  have hserver := hi.server
  unfold linger
  cases hs : i.server with
  | none =>
    have hs' : i'.server = none := by simpa [hs] using hserver.symm
    rw [hs']
    exact .done _
  | some part =>
    obtain ⟨part', hs'⟩ : ∃ part', i'.server = some part' := by
      simpa [hs, Option.isSome_iff_exists] using hserver.symm
    rw [hs']
    refine Program.Alike.bind (server.mutate_alike (by simp [Invocation.ambient, hi.left])
      (by simp [Invocation.ambient, hi.right]) _ fun m m' p p' hm _ _ => hm.call _ _) fun x => ?_
    exact .sleep 1500 (writeRow_throughTx "note" .delete tx tx' i i' args hi)

theorem app_throughTx : app.ThroughTx := by
  intro name body h
  rcases Dict.mem_of_get?_insertMany h with hm | hm
  · simp only [List.mem_cons, List.not_mem_nil, or_false, Prod.mk.injEq] at hm
    rcases hm with ⟨-, rfl⟩ | ⟨-, rfl⟩
    · exact guardedWrite_throughTx "note" _ .insert fun _ hc => by cases hc
    · exact linger_throughTx
  · cases hm

def site : Site := .new 0 [.direct (.new schema)]

theorem site_atRest : site.AtRest server.database schema .empty :=
  ⟨.new schema, rfl, Store.quiet_new schema, rfl, rfl, rfl⟩

def caller (id : String) : Mutators := ⟨some (.ofId id), .server, server.gate, some ⟨none, 0⟩⟩

def mutation (n : Nat) (name id : String) : PushMutation :=
  ⟨n, "c", name, .ofRow (.ofList [("id", .str id)])⟩

def us : List Submission := [
  ⟨caller "u1", [mutation 1 "note.insert" "a", mutation 2 "note.linger" "b",
    mutation 3 "note.insert" "c"]⟩,
  ⟨caller "u2", [mutation 1 "note.linger" "c", mutation 2 "note.insert" "b",
    mutation 3 "note.erase" "a"]⟩]

def answers : List (Outcome (List MutationResult)) := [
  .ok [⟨1, "c", .ok⟩, ⟨2, "c", .error (.timeout "note.linger" 1000)⟩, ⟨3, "c", .ok⟩],
  .ok [⟨1, "c", .error (.timeout "note.linger" 1000)⟩, ⟨2, "c", .ok⟩,
    ⟨3, "c", .error (.invalid "unknown mutator note.erase")⟩]]

/-- What the machine makes of the pushes. -/
def outcome : Option (List (Outcome (List MutationResult))) × Background :=
  (Background.idle site).runAll app (us.map fun u =>
    (.outside, server.pushAll u.mutators u.mutations))

end LateWrites

open LateWrites in
theorem pushes_serializable_of_late_writes :
    ∃ es c, Scene.Logged app (.pushes server site us) es c ∧ c.results? = some answers ∧
      ∃ T', c.site.AtRest server.database schema T' ∧
        (T'.rows "note").map (fun r => (r.value "id").toString?) = [some "a", some "b", some "c"] ∧
        ∃ order, KeepsOrder order ∧ (∀ i k, (i, k) ∈ order ↔ Succeeds answers i k) ∧
          schema.replay .empty (order.flatMap (writesAt es)) = .ok T' ∧
          OneByOne (AtPlace us es (RunsAlone app server schema)) order .empty T' := by
  have hrun : outcome.1 = some answers := by decide +kernel
  have hrows : (outcome.2.site.databases[0]?.map fun d =>
      (d.store.committed.rows "note").map fun r => (r.value "id").toString?) =
        some [some "a", some "b", some "c"] := by decide +kernel
  obtain ⟨c, hsteps, hres, hc⟩ := Scene.pushes_of_runAll rfl hrun
  obtain ⟨es, hlog⟩ := Scene.Recorded.exists_of_steps hsteps
  obtain ⟨-, hall⟩ := pushes_serializable app_throughTx site_atRest hlog
  obtain ⟨-, -, T', hrest, horder, -⟩ := hall answers hres
  have hsite := hrest
  obtain ⟨st, hs, -, -, rfl, -⟩ := hrest
  have hdb : outcome.2.site.databases[0]? = some (.direct st) := hc ▸ hs
  rw [hdb] at hrows
  exact ⟨es, c, hlog, hres, st.committed, hsite, Option.some.inj hrows, horder⟩

end RowGuard
