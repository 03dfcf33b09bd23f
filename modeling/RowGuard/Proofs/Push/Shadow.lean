import RowGuard.Proofs.Push.Attribution

/-! # A mutation as if it ran alone

While a push is busy with a mutation, a second scene with the same tables can follow it: there the
mutation runs without interruption.  The tasks of the mutation are paired with tasks of the second
scene; all other tasks act through transactions that are settled, and are left behind.
-/
namespace RowGuard

/-- Tasks that act through the transaction of `h` are paired with alike tasks, and no others are. -/
structure Paired (d h h' : Nat) (R : Nat → Nat → Prop) (site site' : Site) (ts ts' : Tasks) :
    Prop where
  pairs : ∀ t t', R t t' → ∃ k k', ts[t]? = some k ∧ ts'[t']? = some k' ∧
    k.Alike R ⟨d, h⟩ ⟨d, h'⟩ site site' k'
  others : ∀ t k, ts[t]? = some k → (∃ t', R t t') ∨ ∃ g, g ≠ h ∧ k.Confined d g site
  one : ∀ t t' u u', R t t' → R u u' → (t = u ↔ t' = u')

namespace Paired
variable {d h h' : Nat} {R : Nat → Nat → Prop} {site site' site₁ site₁' : Site}
  {ts ts' new new' : Tasks}

theorem lt (hp : Paired d h h' R site site' ts ts') {t t' : Nat} (ht : R t t') :
    t < ts.length ∧ t' < ts'.length := by
  obtain ⟨k, k', hk, hk', -⟩ := hp.pairs t t' ht
  exact ⟨(List.getElem?_eq_some_iff.1 hk).1, (List.getElem?_eq_some_iff.1 hk').1⟩

theorem result (hp : Paired d h h' R site site' ts ts') (t t' : Nat) (j : Strand (Outcome Unit))
    (r : Outcome Unit) (ht : R t t') (hj : ts[t]? = some j) (hr : j.result? = some r) :
    ∃ j', ts'[t']? = some j' ∧ j'.result? = some r := by
  obtain ⟨k, k', hk, hk', ha⟩ := hp.pairs t t' ht
  obtain rfl : k = j := Option.some.inj (hk.symm.trans hj)
  refine ⟨k', hk', ?_⟩
  obtain ⟨post, standing⟩ := k
  obtain ⟨post', standing'⟩ := k'
  have hs := ha.standing
  cases hs with
  | running ho ho' hx => cases hx <;> simp_all [Strand.result?]
  | waiting => simp [Strand.result?] at hr

theorem move (hp : Paired d h h' R site site' ts ts') (he : ∀ o, site.Empty o → site₁.Empty o)
    (he' : ∀ o, site'.Empty o → site₁'.Empty o) : Paired d h h' R site₁ site₁' ts ts' where
  pairs t t' ht := by
    obtain ⟨k, k', hk, hk', ha⟩ := hp.pairs t t' ht
    exact ⟨k, k', hk, hk', ha.mono (fun _ _ => id) he he'⟩
  others t k hk := (hp.others t k hk).imp_right fun ⟨g, hg, hc⟩ => ⟨g, hg, hc.mono he⟩
  one := hp.one

/-- The tasks that alike strands start are paired. -/
theorem start (hp : Paired d h h' R site site' ts ts') (hl : new.length ≤ 1)
    (hn : List.Forall₂ (Strand.Alike (Joined R ts.length ts'.length new) ⟨d, h⟩ ⟨d, h'⟩ site site')
      new new') :
    Paired d h h' (Joined R ts.length ts'.length new) site site' (ts ++ new) (ts' ++ new') where
  pairs t t' ht := by
    rcases ht with ht | ⟨hne, rfl, rfl⟩
    · obtain ⟨k, k', hk, hk', ha⟩ := hp.pairs t t' ht
      obtain ⟨hlt, hlt'⟩ := hp.lt ht
      refine ⟨k, k', ?_, ?_, ha.mono (fun _ _ => .inl) (fun _ => id) fun _ => id⟩
      · rw [List.getElem?_append_left hlt, hk]
      · rw [List.getElem?_append_left hlt', hk']
    · cases hn with
      | nil => exact absurd rfl hne
      | @cons k k' _ _ ha => exact ⟨k, k', by simp, by simp, ha⟩
  others t k hk := by
    by_cases hlt : t < ts.length
    · rw [List.getElem?_append_left hlt] at hk
      exact (hp.others t k hk).imp_left fun ⟨t', ht⟩ => ⟨t', .inl ht⟩
    · have hlen := (List.getElem?_eq_some_iff.1 hk).1
      rw [List.length_append] at hlen
      have ht : t = ts.length := by omega
      have hne : new ≠ [] := by
        rintro rfl
        simp at hlen
        omega
      exact .inl ⟨ts'.length, .inr ⟨hne, ht, rfl⟩⟩
  one t t' u u' ht hu := by
    rcases ht with ht | ⟨-, rfl, rfl⟩
    · have hlt := hp.lt ht
      rcases hu with hu | ⟨-, rfl, rfl⟩
      · exact hp.one t t' u u' ht hu
      · omega
    · rcases hu with hu | ⟨-, rfl, rfl⟩
      · have hlt := hp.lt hu
        omega
      · exact ⟨fun _ => rfl, fun _ => rfl⟩

/-- Paired tasks may go on alike. -/
theorem replace (hp : Paired d h h' R site site' ts ts') {t t' : Nat} (ht : R t t')
    {k k' : Strand (Outcome Unit)} (ha : k.Alike R ⟨d, h⟩ ⟨d, h'⟩ site site' k') :
    Paired d h h' R site site' (ts.set t k) (ts'.set t' k') where
  pairs u u' hu := by
    obtain ⟨hlt, hlt'⟩ := hp.lt ht
    by_cases he : t = u
    · have he' := (hp.one t t' u u' ht hu).1 he
      subst he he'
      exact ⟨k, k', by simp [hlt], by simp [hlt'], ha⟩
    · have he' : t' ≠ u' := fun e => he ((hp.one t t' u u' ht hu).2 e)
      rw [List.getElem?_set_ne he, List.getElem?_set_ne he']
      exact hp.pairs u u' hu
  others u x hx := by
    by_cases he : t = u
    · subst he
      exact .inl ⟨t', ht⟩
    · rw [List.getElem?_set_ne he] at hx
      exact hp.others u x hx
  one := hp.one

/-- The tasks of other transactions may do whatever they do. -/
theorem ignore (hp : Paired d h h' R site site' ts ts') {t g : Nat} (ht : ∀ t', ¬ R t t')
    {k : Strand (Outcome Unit)} (hg : g ≠ h) (hk : k.Confined d g site)
    (hn : ∀ x ∈ new, x.Confined d g site) :
    Paired d h h' R site site' (ts.set t k ++ new) ts' where
  pairs u u' hu := by
    have hne : t ≠ u := by
      rintro rfl
      exact ht u' hu
    have hlt := (hp.lt hu).1
    rw [List.getElem?_append_left (by simpa using hlt), List.getElem?_set_ne hne]
    exact hp.pairs u u' hu
  others u x hx := by
    by_cases hlt : u < ts.length
    · rw [List.getElem?_append_left (by simpa using hlt)] at hx
      by_cases he : t = u
      · subst he
        simp only [List.getElem?_set_self hlt, Option.some.injEq] at hx
        exact .inr ⟨g, hg, hx ▸ hk⟩
      · rw [List.getElem?_set_ne he] at hx
        exact hp.others u x hx
    · rw [List.getElem?_append_right (by simpa using hlt)] at hx
      exact .inr ⟨g, hg, hn x (List.mem_of_getElem? hx)⟩
  one := hp.one

end Paired

/-- Phases of one mutation in two scenes. -/
inductive Phase.Alike (R : Nat → Nat → Prop) : Phase → Phase → Prop where
  | called : Alike R .called .called
  | waiting {t t' : Nat} (ht : R t t') : Alike R (.waiting t) (.waiting t')
  | settling (r : Outcome Unit) : Alike R (.settling r) (.settling r)

/-- No transaction is open and no job asked for, and the committed tables are these. -/
def Site.AtRest (d : Nat) (schema : Schema) (site : Site) (T : Tables) : Prop :=
  ∃ st, site.HasStore d st ∧ st.Quiet ∧ st.schema = schema ∧ st.committed = T ∧ site.outbox = []

/-- A scene follows another one in the mutation whose transaction has the handle `h` there, and `h'`
here. -/
structure Shadow (d : Nat) (R : Nat → Nat → Prop) (c c' : Scene (Outcome (List MutationResult)))
    (st st' : Store) (h h' : Nat) (phase phase' : Phase) : Prop where
  twins : c.site.Twins d h h' c'.site st st'
  held : ∃ W, st'.Held h' W
  phase : phase.Alike R phase'
  paired : Paired d h h' R c.site c'.site c.tasks c'.tasks

/-- From every scene at rest with the tables `T` in which a push is about to run the mutation, the
mutation can be run, with the writes `ws`, up to the point that it has reached in `c`. -/
def Follows (app : Application) (s : Server) (m : Mutators) (p : PushMutation)
    (c : Scene (Outcome (List MutationResult))) (st : Store) (h : Nat) (phase : Phase)
    (ws : List Write) (T : Tables) : Prop :=
  ∀ c₀ j rs ps, c₀.site.AtRest s.database st.schema T →
    c₀.mains[j]? = some ((Stage.idle rs (p :: ps)).strand app s m) →
      ∃ R es c' st' h' phase', Scene.Logged app c₀ es c' ∧
        callsOf j es = phase'.calls ⟨s.database, h'⟩ ∧ writesThrough ⟨s.database, h'⟩ es = ws ∧
        c'.mains = c₀.mains.set j ((Stage.busy rs p ps h' phase').strand app s m) ∧
        Shadow s.database R c c' st st' h h' phase phase'

/-- From every scene at rest with the tables `T` in which a push is about to run the mutation, the
push can run it, successfully and without any other push, in one transaction with the writes `ws`:
that leaves the tables `T'`, which are `T` with these writes applied. -/
structure CanRun (app : Application) (s : Server) (schema : Schema) (m : Mutators)
    (p : PushMutation) (ws : List Write) (T T' : Tables) : Prop where
  replay : schema.replay T ws = .ok T'
  runs : ∀ (c₀ : Scene (Outcome (List MutationResult))) j rs ps,
    c₀.site.AtRest s.database schema T →
    c₀.mains[j]? = some ((Stage.idle rs (p :: ps)).strand app s m) →
      ∃ es tx c', Scene.Logged app c₀ es c' ∧ callsOf j es = [tx] ∧ writesThrough tx es = ws ∧
        c'.site.AtRest s.database schema T' ∧
        c'.mains = c₀.mains.set j ((Stage.idle (rs ++ [p.result .ok]) ps).strand app s m)

section Follow
variable {app : Application} {s : Server} {m : Mutators} {p : PushMutation}
  {c c' c₀ : Scene (Outcome (List MutationResult))} {st st' : Store} {h : Nat} {phase : Phase}
  {ws : List Write} {T : Tables} {es : List Mark}

/-- A push takes its next step, at its place among the main programs. -/
theorem Stage.Next.logged {j : Nat} {x x' : Stage} {new : Tasks}
    (hn : x.Next app s m c.tasks st st' x' new) (hs : c.site.HasStore s.database st)
    (ho : c.site.outbox = []) (hj : c.mains[j]? = some (x.strand app s m))
    (hlog : Scene.Logged app c₀ es c) : Scene.Logged app c₀ (es ++ x.marks s.database j)
      ⟨c.site.withStore s.database st', c.mains.set j (x'.strand app s m), c.tasks ++ new⟩ := by
  rw [← Stage.marks_strand m j c.site x]
  exact hlog.main hj (hn.move hs ho)

theorem Follows.begin (hs : c.site.HasStore s.database st) (ho : c.site.outbox = [])
    (ht : ∀ k ∈ c.tasks, ∃ g < st.issued, k.Confined s.database g c.site)
    (mains : List (Strand (Outcome (List MutationResult)))) :
    Follows app s m p ⟨c.site.withStore s.database st.entered, mains, c.tasks⟩ st.entered st.issued
      .called [] st.committed := by
  rintro c₀ j rs ps ⟨st₀, hs₀, hq₀, hschema, hT, ho₀⟩ hj
  have htick : Scene.Logged app c₀ [] { c₀ with site := { c₀.site with clock := c.site.clock } } :=
    .tick .start c.site.clock
  have hs₁ : ({ c₀.site with clock := c.site.clock } : Site).HasStore s.database st₀ := hs₀
  have hnext : (Stage.idle rs (p :: ps)).Next app s m c₀.tasks st₀ st₀.entered
    (.busy rs p ps st₀.issued .called) [] := .begin hq₀ rs p ps
  have hbegin := hnext.logged (c := { c₀ with site := { c₀.site with clock := c.site.clock } }) hs₁
    ho₀ hj htick
  refine ⟨fun _ _ => False, _, _, st₀.entered, st₀.issued, .called, hbegin, rfl, by simp, rfl, ?_⟩
  exact {
    twins := {
      left := hs.withStore _
      right := hs₁.withStore _
      schema := hschema.symm
      view := by
        rw [st.entered_held.tables?, st₀.entered_held.tables?, if_pos rfl, if_pos rfl, hT]
      clock := rfl
      outbox := ho
      outbox' := ho₀ }
    held := ⟨_, st₀.entered_held⟩
    phase := .called
    paired := {
      pairs := fun _ _ hf => hf.elim
      others := fun t k hk => by
        obtain ⟨g, hg, hcon⟩ := ht k (List.mem_of_getElem? hk)
        exact .inr ⟨g, by omega, hcon.mono fun _ => id⟩
      one := fun _ _ _ _ hf => hf.elim } }

section Shadow
variable {R : Nat → Nat → Prop} {h' : Nat} {phase' : Phase}
  (hf : Shadow s.database R c c' st st' h h' phase phase')
include hf

/-- In the other scene the push can make the same move within the mutation. -/
theorem Shadow.push {st₁ : Store} {phase₁ : Phase} {rs : List MutationResult}
    {ps : List PushMutation} {new : Tasks} (happ : app.ThroughTx)
    (hn : (Stage.busy rs p ps h phase).Next app s m c.tasks st st₁ (.busy rs p ps h phase₁) new)
    (mains : List (Strand (Outcome (List MutationResult)))) (rs' : List MutationResult)
    (ps' : List PushMutation) :
    ∃ R₁ phase₁' new', (Stage.busy rs' p ps' h' phase').Next app s m c'.tasks st' st'
        (.busy rs' p ps' h' phase₁') new' ∧
      ∀ mains', Shadow s.database R₁ ⟨c.site, mains, c.tasks ++ new⟩
        ⟨c'.site, mains', c'.tasks ++ new'⟩ st st' h h' phase₁ phase₁' := by
  obtain ⟨ht, hheld, hphase, hp⟩ := hf
  cases hn with
  | call hname =>
    cases hphase
    refine ⟨Joined R c.tasks.length c'.tasks.length
      [Call.strand app ⟨m.invocation ⟨s.database, h⟩, p.name, p.args⟩], _, _,
      .call hname rs' ps' h', fun _ =>
        ⟨ht, hheld, .waiting (.inr ⟨List.cons_ne_nil _ _, rfl, rfl⟩), ?_⟩⟩
    have hi : (m.invocation ⟨s.database, h⟩).Alike ⟨s.database, h⟩ ⟨s.database, h'⟩
        (m.invocation ⟨s.database, h'⟩) := Mutators.Alike.invocation ⟨rfl, rfl, rfl, rfl⟩ _ _
    exact hp.start (by simp) (.cons (Call.strand_alike happ hi _ _) .nil)
  | unknown hname =>
    cases hphase
    exact ⟨R, _, _, .unknown hname rs' ps' h',
      fun _ => ⟨ht, hheld, .settling _, by simpa using hp⟩⟩
  | @deliver t k htask r hr =>
    cases hphase with
    | @waiting _ t' htt =>
      obtain ⟨k', hk', hr'⟩ := hp.result t t' k r htt htask hr
      exact ⟨R, _, _, .deliver hk' hr' rs' p ps' h',
        fun _ => ⟨ht, hheld, .settling _, by simpa using hp⟩⟩
  | expire =>
    cases hphase with
    | @waiting _ t' htt =>
      exact ⟨R, _, _, .expire rs' p ps' h' t',
        fun _ => ⟨ht, hheld, .settling _, by simpa using hp⟩⟩

/-- The other scene lets the paired task move alike, with the same writes, and stays as it is when
another task moves. -/
theorem Shadow.task (happ : app.ThroughTx) {W : Tables} (hh : st.Held h W) {t : Nat}
    {k k₁ : Strand (Outcome Unit)} {site₁ : Site} {st₁ : Store} {new : Tasks}
    (hk : c.tasks[t]? = some k) (hm : k.Move app c.tasks c.site site₁ k₁ new)
    (hs₁ : site₁.HasStore s.database st₁)
    (mains : List (Strand (Outcome (List MutationResult)))) (hlog : Scene.Logged app c₀ es c') :
    ∃ R₁ ms c₁ st₁', Scene.Logged app c₀ (es ++ ms) c₁ ∧ (∀ j, callsOf j ms = []) ∧
      writesThrough ⟨s.database, h'⟩ ms = writesThrough ⟨s.database, h⟩ (k.writes c.site) ∧
      c₁.mains = c'.mains ∧
      Shadow s.database R₁ ⟨site₁, mains, c.tasks.set t k₁ ++ new⟩ c₁ st₁ st₁' h h' phase phase' := by
  obtain ⟨ht, ⟨W', hh'⟩, hphase, hp⟩ := hf
  by_cases hpair : ∃ t', R t t'
  · obtain ⟨t', htt⟩ := hpair
    obtain ⟨x, k', hx, hk', ha⟩ := hp.pairs t t' htt
    obtain rfl : x = k := Option.some.inj (hx.symm.trans hk)
    obtain ⟨site₁', k₁', new', change, hm', hl, hr, hk₁, hlen, hnew⟩ := hm.mirror happ ht ha hp.result
    obtain rfl := hs₁.unique hl.store
    refine ⟨Joined R c.tasks.length c'.tasks.length new, _, _, st'.amend h' change,
      hlog.task hk' hm', fun j => ?_, ?_, rfl, ?_⟩
    · rw [hr.marks, Amendment.callsOf_marks]
    · rw [hl.marks, hr.marks, Amendment.writesThrough_marks, Amendment.writesThrough_marks]
    have hstart := (hp.move hl.empty hr.empty).start hlen hnew
    have hlt := hp.lt htt
    have hset := hstart.replace (.inl htt) hk₁
    rw [List.set_append_left _ _ hlt.1, List.set_append_left _ _ hlt.2] at hset
    refine ⟨⟨hl.store, hr.store, ?_, ?_, ?_, hl.outbox, hr.outbox⟩, ?_, ?_, hset⟩
    · rw [st.amend_schema, st'.amend_schema, ht.schema]
    · cases change with
      | nothing => exact ht.view
      | wrote w V =>
        have hv := (hh.setTables V).tables? h
        have hv' := (hh'.setTables V).tables? h'
        simp only [Store.amend]
        rw [hv, hv', if_pos rfl, if_pos rfl]
    · rw [hl.clock, hr.clock, ht.clock]
    · cases change with
      | nothing => exact ⟨W', hh'⟩
      | wrote w V => exact ⟨V, hh'.setTables V⟩
    · cases hphase with
      | called => exact .called
      | waiting hw => exact .waiting (.inl hw)
      | settling r => exact .settling r
  · have hnone : ∀ t', ¬ R t t' := fun t' hr => hpair ⟨t', hr⟩
    obtain ⟨g, hg, hcon⟩ : ∃ g, g ≠ h ∧ k.Confined s.database g c.site := by
      rcases hp.others t k hk with h₁ | h₁
      · exact absurd h₁ hpair
      · exact h₁
    obtain ⟨change, ha, hk₁, hnew⟩ := hcon.move happ ht.left ht.outbox hm
    have hsame : change = .nothing := by
      rcases hh.amend ha.opened with hc | ⟨hc, -⟩
      · exact hc
      · exact absurd hc hg
    subst hsame
    obtain rfl : st₁ = st := hs₁.unique ha.store
    refine ⟨R, [], c', st', by simpa using hlog, fun _ => rfl, by rw [ha.marks]; rfl, rfl, ?_⟩
    refine ⟨⟨hs₁, ht.right, ht.schema, ht.view, ?_, ha.outbox, ht.outbox'⟩, ⟨W', hh'⟩, hphase, ?_⟩
    · rw [ha.clock, ht.clock]
    · exact (hp.move ha.empty fun _ => id).ignore hnone hg hk₁ hnew

end Shadow

theorem Follows.push {st₁ : Store} {phase₁ : Phase} {rs : List MutationResult}
    {ps : List PushMutation} {new : Tasks} (happ : app.ThroughTx)
    (hf : Follows app s m p c st h phase ws T)
    (hn : (Stage.busy rs p ps h phase).Next app s m c.tasks st st₁ (.busy rs p ps h phase₁) new)
    (mains : List (Strand (Outcome (List MutationResult)))) :
    Follows app s m p ⟨c.site, mains, c.tasks ++ new⟩ st h phase₁ ws T := by
  intro c₀ j rs' ps' hrest hj
  obtain ⟨R, es, c', st', h', phase', hlog, hcalls, hws, hmains, hsh⟩ := hf c₀ j rs' ps' hrest hj
  have hlt := (List.getElem?_eq_some_iff.1 hj).1
  have hbusy : c'.mains[j]? = some ((Stage.busy rs' p ps' h' phase').strand app s m) := by
    rw [hmains, List.getElem?_set_self hlt]
  obtain ⟨R₁, phase₁', new', hn', hsh₁⟩ := hsh.push happ hn mains rs' ps'
  have hlog₁ := hn'.logged hsh.twins.right hsh.twins.outbox' hbusy hlog
  rw [hsh.twins.right.withStore_self] at hlog₁
  refine ⟨R₁, _, _, st', h', phase₁', hlog₁, ?_, ?_, ?_, hsh₁ _⟩
  · rw [callsOf_append, hcalls, hn'.calls j]
  · simpa using hws
  · rw [hmains, List.set_set]

theorem Follows.task (happ : app.ThroughTx) (hf : Follows app s m p c st h phase ws T) {W : Tables}
    (hh : st.Held h W) {t : Nat} {k k₁ : Strand (Outcome Unit)} {site₁ : Site} {st₁ : Store}
    {new : Tasks} (hk : c.tasks[t]? = some k) (hm : k.Move app c.tasks c.site site₁ k₁ new)
    (hs₁ : site₁.HasStore s.database st₁) (hschema : st₁.schema = st.schema)
    (mains : List (Strand (Outcome (List MutationResult)))) :
    Follows app s m p ⟨site₁, mains, c.tasks.set t k₁ ++ new⟩ st₁ h phase
      (ws ++ writesThrough ⟨s.database, h⟩ (k.writes c.site)) T := by
  intro c₀ j rs' ps' hrest hj
  rw [hschema] at hrest
  obtain ⟨R, es, c', st', h', phase', hlog, hcalls, hws, hmains, hsh⟩ := hf c₀ j rs' ps' hrest hj
  obtain ⟨R₁, ms, c₁, st₁', hlog₁, hms, hwrites, hmains₁, hsh₁⟩ :=
    hsh.task happ hh hk hm hs₁ mains hlog
  refine ⟨R₁, _, c₁, st₁', h', phase', hlog₁, ?_, ?_, by rw [hmains₁, hmains], hsh₁⟩
  · rw [callsOf_append, hcalls, hms, List.append_nil]
  · rw [writesThrough_append, hws, hwrites]

theorem Follows.tick (hf : Follows app s m p c st h phase ws T) (clock : Nat) :
    Follows app s m p { c with site := { c.site with clock } } st h phase ws T := by
  intro c₀ j rs' ps' hrest hj
  obtain ⟨R, es, c', st', h', phase', hlog, hcalls, hws, hmains, ⟨ht, hheld, hphase, hp⟩⟩ :=
    hf c₀ j rs' ps' hrest hj
  refine ⟨R, es, _, st', h', phase', hlog.tick clock, hcalls, hws, hmains, ?_⟩
  exact ⟨⟨ht.left, ht.right, ht.schema, ht.view, rfl, ht.outbox, ht.outbox'⟩, hheld, hphase,
    hp.move (fun _ => id) fun _ => id⟩

/-- A mutation that commits can be run alone. -/
theorem Follows.commit {W : Tables} (hf : Follows app s m p c st h (.settling (.ok ())) ws T)
    (hh : st.Held h W) (hw : st.schema.replay T ws = .ok W) : CanRun app s st.schema m p ws T W where
  replay := hw
  runs c₀ j rs ps hrest hj := by
    obtain ⟨R, es, c', st', h', phase', hlog, hcalls, hws, hmains, ⟨ht, ⟨W', hh'⟩, hphase, hp⟩⟩ :=
      hf c₀ j rs ps hrest hj
    have hlt := (List.getElem?_eq_some_iff.1 hj).1
    obtain rfl : W = W' := by
      have hv := ht.view
      rw [hh.tables?, hh'.tables?, if_pos rfl, if_pos rfl] at hv
      exact Option.some.inj hv
    cases hphase
    have hnext : (Stage.busy rs p ps h' (.settling (.ok ()))).Next app s m c'.tasks st'
      (st'.concluded h' W) (.idle (rs ++ [p.result .ok]) ps) [] := .commit hh' rs p ps
    have hlog₁ := hnext.logged (j := j) ht.right ht.outbox'
      (by rw [hmains, List.getElem?_set_self hlt]) hlog
    refine ⟨_, ⟨s.database, h'⟩, _, hlog₁, ?_, ?_,
      ⟨_, ht.right.withStore _, hh'.concluded W, ?_, rfl, ht.outbox'⟩, ?_⟩
    · rw [callsOf_append, hcalls]
      rfl
    · simpa using hws
    · rw [Store.concluded_schema, ht.schema]
    · dsimp only
      rw [hmains, List.set_set]

end Follow
end RowGuard
