import RowGuard.Proofs.Program.Alike
import RowGuard.Proofs.Schedule.DirectSite
import RowGuard.Proofs.Schedule.WriteLog
import Mathlib.Data.List.Forall2

/-! # Alike strands move alike

A strand that acts through one transaction can be followed, move by move, by an alike strand at
another site, as long as the two transactions show the same tables.  Followed by itself, it shows
what such a strand can do at all: it changes the tables of its transaction while that is open, and
nothing else in the store.
-/
namespace RowGuard

/-- The bags are there, and empty. -/
def Site.Empty (site : Site) (o : List Nat) : Prop := ∀ b ∈ o, site.bags[b]? = some []

/-- What belongs to strands that act alike. -/
structure Post.Alike (tx tx' : TxRef) (p p' : Post) : Prop where
  invocation : (p.invocation = none ∧ p'.invocation = none) ∨
    ∃ i i', p.invocation = some i ∧ p'.invocation = some i' ∧ i.Alike tx tx' i'
  scope : p.scope = p'.scope
  checked : p.checked = p'.checked

/-- Programs under way that go on alike; `R` relates the tasks that they wait for. -/
inductive Standing.Alike {α : Type} (R : Nat → Nat → Prop) (tx tx' : TxRef) (site site' : Site) :
    Standing α → Standing α → Prop where
  | running {o o' : List Nat} (ho : site.Empty o) (ho' : site'.Empty o') {p p' : Program α}
      (h : p.Alike tx tx' o o' p') : Alike R tx tx' site site' (.running p) (.running p')
  | waiting {t t' : Nat} (ht : R t t') (overrun : Option Failure) {o o' : List Nat}
      (ho : site.Empty o) (ho' : site'.Empty o') {next next' : Outcome Unit → Program α}
      (h : ∀ r, (next r).Alike tx tx' o o' (next' r)) :
      Alike R tx tx' site site' (.waiting t overrun next) (.waiting t' overrun next')

/-- Strands that go on alike at their sites. -/
structure Strand.Alike {α : Type} (R : Nat → Nat → Prop) (tx tx' : TxRef) (site site' : Site)
    (k k' : Strand α) : Prop where
  post : k.post.Alike tx tx' k'.post
  standing : k.standing.Alike R tx tx' site site' k'.standing

/-- The store after a change in an open transaction. -/
def Store.amend (s : Store) (h : Nat) : Amendment → Store
  | .nothing => s
  | .wrote _ W => s.setTables h W

/-- Two sites at which two transactions show the same tables, with no job asked for. -/
structure Site.Twins (d h h' : Nat) (site site' : Site) (s s' : Store) : Prop where
  left : site.HasStore d s
  right : site'.HasStore d s'
  schema : s.schema = s'.schema
  view : s.tables? h = s'.tables? h'
  clock : site.clock = site'.clock
  outbox : site.outbox = []
  outbox' : site'.outbox = []

/-- A move from `site` to `site₁` that amends a transaction of the store, leaves the marks of that in
the log, and does nothing else that other strands could notice. -/
structure Site.Amends (d h : Nat) (site : Site) (s : Store) (ms : List Mark) (change : Amendment)
    (site₁ : Site) : Prop where
  marks : ms = change.marks ⟨d, h⟩
  store : site₁.HasStore d (s.amend h change)
  written : ∀ w W, change = .wrote w W → ∃ V, s.tables? h = some V ∧
    s.schema.write w.now V w.table w.action w.row = .ok W
  clock : site₁.clock = site.clock
  outbox : site₁.outbox = []
  empty : ∀ o, site.Empty o → site₁.Empty o

namespace Site
variable {d h h' : Nat} {site site' site₁ : Site} {s s' : Store}

/-- A new bag is empty, and the others stay as they are. -/
theorem Empty.openBag {o : List Nat} (he : site.Empty o) (hb : site₁.bags = site.bags ++ [[]]) :
    site₁.Empty (site.bags.length :: o) := by
  intro b hm
  rw [hb]
  rcases List.mem_cons.1 hm with rfl | hm
  · simp
  · exact List.getElem?_append_left (List.getElem?_eq_some_iff.1 (he b hm)).1 ▸ he b hm

/-- A move that leaves the databases alone. -/
theorem Amends.nothing (hs : site.HasStore d s) (hd : site₁.databases = site.databases)
    (hc : site₁.clock = site.clock) (ho : site₁.outbox = [])
    (hb : ∀ b : Nat, site.bags[b]? = some [] → site₁.bags[b]? = some []) :
    site.Amends d h s [] .nothing site₁ where
  marks := rfl
  store := by
    have he : site₁.databases[d]? = some (.direct s) := by rw [hd]; exact hs
    exact he
  written := by simp
  clock := hc
  outbox := ho
  empty o he b hm := hb b (he b hm)

/-- Only in an open transaction is anything written. -/
theorem Amends.opened {ms : List Mark} {change : Amendment} (ha : site.Amends d h s ms change site₁)
    (hc : change ≠ .nothing) : (s.tables? h).isSome = true := by
  cases change with
  | nothing => exact absurd rfl hc
  | wrote w W =>
    obtain ⟨V, hV, -⟩ := ha.written w W rfl
    rw [hV]
    rfl

/-- What a write comes to in a transaction, for the tables that it has while it is open. -/
def attempt (schema : Schema) (now : Nat) (table : String) (a : Action) (row : Row) :
    Option Tables → Outcome Unit × Amendment
  | none => (.error .settled, .nothing)
  | some V =>
    match schema.write now V table a row with
    | .ok W => (.ok (), .wrote ⟨now, table, a, row⟩ W)
    | .error e => (.error e, .nothing)

theorem mutate_eq_attempt (s : Store) (now h : Nat) (table : String) (a : Action) (row : Row) :
    s.mutate now h table a row = ((attempt s.schema now table a row (s.tables? h)).1,
      s.amend h (attempt s.schema now table a row (s.tables? h)).2) := by
  unfold Store.mutate attempt
  cases s.tables? h with
  | none => rfl
  | some V =>
    dsimp only
    cases s.schema.write now V table a row <;> rfl

theorem written_of_attempt {schema : Schema} {now : Nat} {table : String} {a : Action} {row : Row}
    {V : Option Tables} {w : Write} {W : Tables}
    (hc : (attempt schema now table a row V).2 = .wrote w W) :
    ∃ T, V = some T ∧ schema.write w.now T w.table w.action w.row = .ok W := by
  cases V with
  | none => cases hc
  | some T =>
    unfold attempt at hc
    cases hw : schema.write now T table a row with
    | error e => simp [hw] at hc
    | ok W' =>
      simp only [hw, Amendment.wrote.injEq] at hc
      obtain ⟨rfl, rfl⟩ := hc
      exact ⟨T, rfl, hw⟩

theorem HasStore.writes_mutate (hs : site.HasStore d s) (post : Post) (table : String) (a : Action)
    (row : Row) : (Request.mutate ⟨d, h⟩ table a row).writes site post =
      (attempt s.schema site.clock table a row (s.tables? h)).2.marks ⟨d, h⟩ := by
  have hans : site.answer post (.mutate ⟨d, h⟩ table a row) = _ :=
    Site.HasStore.answer_mutate hs post table a row
  rw [Request.writes, hans, mutate_eq_attempt]
  unfold attempt
  cases s.tables? h with
  | none => rfl
  | some V =>
    dsimp only
    cases s.schema.write site.clock V table a row <;> rfl

theorem Amends.attempt (hs : site.HasStore d s) (ho : site.outbox = []) (post : Post)
    (table : String) (a : Action) (row : Row) :
    site.Amends d h s ((Request.mutate ⟨d, h⟩ table a row).writes site post)
      (attempt s.schema site.clock table a row (s.tables? h)).2
      (site.withStore d
        (s.amend h (Site.attempt s.schema site.clock table a row (s.tables? h)).2)) where
  marks := hs.writes_mutate post table a row
  store := hs.withStore _
  written _ _ := written_of_attempt
  clock := rfl
  outbox := ho
  empty _ he := he

theorem Twins.run_eq (ht : Twins d h h' site site' s s') : s.run h = s'.run h' := by
  funext q
  simp only [Store.run, ht.view, ht.schema]

theorem Twins.attempt_eq (ht : Twins d h h' site site' s s') (table : String) (a : Action)
    (row : Row) : attempt s.schema site.clock table a row (s.tables? h) =
      attempt s'.schema site'.clock table a row (s'.tables? h') := by
  rw [ht.schema, ht.clock, ht.view]

/-- Gates decide alike for strands that act alike. -/
theorem Twins.can (ht : Twins d h h' site site' s s') {p p' : Post}
    (hp : p.Alike ⟨d, h⟩ ⟨d, h'⟩ p') (g : Gate) (w : Where) (x : Subject) :
    ∃ r q q' journal journal', site.can p g w x = (r, q, { site with journal }) ∧
      site'.can p' g w x = (r, q', { site' with journal := journal' }) ∧
      q.Alike ⟨d, h⟩ ⟨d, h'⟩ q' := by
  rcases hp.invocation with ⟨hn, hn'⟩ | ⟨i, i', hi, hi', hia⟩
  · exact ⟨.error .notInMutator, p, p', site.journal, site'.journal, by simp [Site.can, hn],
      by simp [Site.can, hn'], hp⟩
  · have hrun : site.run i.tx = site'.run i'.tx := by
      have hl : site.HasStore i.tx.database s := by rw [hia.left]; exact ht.left
      have hr : site'.HasStore i'.tx.database s' := by rw [hia.right]; exact ht.right
      rw [hl.run, hr.run, hia.left, hia.right]
      exact ht.run_eq
    have hactor : i.actor = i'.actor := by
      simp only [Invocation.actor, hia.identity, hia.environment]
    simp only [Site.can, hi, hi', hp.scope, hactor, hrun]
    cases (g.can p'.scope.actor i'.actor (site'.run i'.tx) w x).result with
    | error e => exact ⟨_, _, _, _, _, rfl, rfl, hp⟩
    | ok key =>
      cases key with
      | none => exact ⟨_, _, _, _, _, rfl, rfl, hp⟩
      | some key =>
        exact ⟨_, _, _, _, _, rfl, rfl,
          ⟨.inr ⟨i, i', rfl, rfl, hia⟩, rfl, by simp only [hp.checked]⟩⟩

end Site

/-- The related tasks, and the one that each side starts next. -/
def Joined (R : Nat → Nat → Prop) (n n' : Nat) (new : Tasks) (t t' : Nat) : Prop :=
  R t t' ∨ new ≠ [] ∧ t = n ∧ t' = n'

section Move
variable {α : Type} {app : Application} {R R' : Nat → Nat → Prop} {d h h' : Nat}
  {site site' site₁ site₁' : Site} {s s' : Store} {ts ts' new : Tasks}

theorem Standing.Alike.mono {tx tx' : TxRef} {x x' : Standing α}
    (hx : x.Alike R tx tx' site site' x') (hR : ∀ t t', R t t' → R' t t')
    (he : ∀ o, site.Empty o → site₁.Empty o) (he' : ∀ o, site'.Empty o → site₁'.Empty o) :
    x.Alike R' tx tx' site₁ site₁' x' := by
  cases hx with
  | running ho ho' h => exact .running (he _ ho) (he' _ ho') h
  | waiting ht overrun ho ho' h => exact .waiting (hR _ _ ht) overrun (he _ ho) (he' _ ho') h

theorem Standing.Alike.of_bags {tx tx' : TxRef} {x x' : Standing α}
    (hx : x.Alike R tx tx' site site' x') (hb : site₁.bags = site.bags)
    (hb' : site₁'.bags = site'.bags) : x.Alike R tx tx' site₁ site₁' x' :=
  hx.mono (fun _ _ => id) (fun _ he b hm => by rw [hb]; exact he b hm)
    fun _ he b hm => by rw [hb']; exact he b hm

theorem Strand.Alike.mono {tx tx' : TxRef} {k k' : Strand α} (hk : k.Alike R tx tx' site site' k')
    (hR : ∀ t t', R t t' → R' t t') (he : ∀ o, site.Empty o → site₁.Empty o)
    (he' : ∀ o, site'.Empty o → site₁'.Empty o) : k.Alike R' tx tx' site₁ site₁' k' :=
  ⟨hk.post, hk.standing.mono hR he he'⟩

/-- A task that was just started for alike calls is alike on both sides. -/
theorem Call.strand_alike (happ : app.ThroughTx) {tx tx' : TxRef} {i i' : Invocation}
    (hi : i.Alike tx tx' i') (name : String) (args : Json) :
    (Call.strand app ⟨i, name, args⟩).Alike R tx tx' site site'
      (Call.strand app ⟨i', name, args⟩) := by
  have hp : (app.program ⟨i, name, args⟩).Alike tx tx' [] [] (app.program ⟨i', name, args⟩) := by
    unfold Application.program
    cases hb : app.mutators.get? name with
    | none => exact .done _
    | some body => exact happ name body hb tx tx' i i' args hi
  refine ⟨⟨.inr ⟨i, i', rfl, rfl, hi⟩, ?_, rfl⟩,
    .running (fun _ hb => by simp at hb) (fun _ hb => by simp at hb) hp⟩
  simp only [Call.strand, Post.ofInvocation, Invocation.ambient, Invocation.actor, hi.identity,
    hi.environment]

/-- Alike programs get alike answers from twin sites. -/
theorem Site.Twins.answer (ht : site.Twins d h h' site' s s') {post post' : Post}
    (hp : post.Alike ⟨d, h⟩ ⟨d, h'⟩ post') {o o' : List Nat} (ho : site.Empty o)
    (ho' : site'.Empty o') {r : Request} {next : r.Reply → Program α} {p' : Program α}
    (hx : (Program.ask r next).Alike ⟨d, h⟩ ⟨d, h'⟩ o o' p') :
    ∃ r' next' x x' q q' site₂ site₂' change,
      p' = .ask r' next' ∧ site.answer post r = (x, q, site₂) ∧
      site'.answer post' r' = (x', q', site₂') ∧ site₂.outbox = [] ∧ site₂'.outbox = [] ∧
      site.Amends d h s (r.writes site post) change site₂ ∧
      site'.Amends d h' s' (r'.writes site' post') change site₂' ∧ q.Alike ⟨d, h⟩ ⟨d, h'⟩ q' ∧
      (Standing.running (next x)).Alike R ⟨d, h⟩ ⟨d, h'⟩ site₂ site₂' (.running (next' x')) := by
  have hsame : site.Amends d h s [] .nothing site := .nothing ht.left rfl rfl ht.outbox fun _ => id
  have hsame' : site'.Amends d h' s' [] .nothing site' :=
    .nothing ht.right rfl rfl ht.outbox' fun _ => id
  cases hx with
  | run q hx =>
    refine ⟨_, _, _, _, _, _, _, _, .nothing, rfl, ht.left.answer_run post q,
      ht.right.answer_run post' q, ht.outbox, ht.outbox', hsame, hsame', hp, ?_⟩
    rw [ht.run_eq]
    exact .running ho ho' (hx _)
  | mutate table a row hx =>
    have hl : site.answer post (.mutate ⟨d, h⟩ table a row) = _ :=
      Site.HasStore.answer_mutate ht.left post table a row
    have hr : site'.answer post' (.mutate ⟨d, h'⟩ table a row) = _ :=
      Site.HasStore.answer_mutate ht.right post' table a row
    rw [mutate_eq_attempt] at hl hr
    refine ⟨_, _, _, _, _, _, _, _, _, rfl, hl, hr, ht.outbox, ht.outbox',
      .attempt ht.left ht.outbox post table a row, ?_, hp, ?_⟩
    · rw [ht.attempt_eq]
      exact .attempt ht.right ht.outbox' post' table a row
    · rw [ht.attempt_eq]
      exact Standing.Alike.of_bags (.running ho ho' (hx _)) rfl rfl
  | can g w x hx =>
    obtain ⟨r, q, q', j, j', hl, hr, hq⟩ := ht.can hp g w x
    refine ⟨_, _, _, _, _, _, _, _, .nothing, rfl, hl, hr, ht.outbox, ht.outbox', ?_, ?_, hq, ?_⟩
    · exact .nothing ht.left rfl rfl ht.outbox fun _ => id
    · exact .nothing ht.right rfl rfl ht.outbox' fun _ => id
    · exact Standing.Alike.of_bags (.running ho ho' (hx _)) rfl rfl
  | checked hx =>
    refine ⟨_, _, _, _, _, _, _, _, .nothing, rfl, rfl, rfl, ht.outbox, ht.outbox', hsame, hsame', hp,
      ?_⟩
    rw [hp.checked]
    exact .running ho ho' (hx _)
  | note es es' hx =>
    refine ⟨_, _, _, _, _, _, _, _, .nothing, rfl, rfl, rfl, ht.outbox, ht.outbox', ?_, ?_, hp, ?_⟩
    · exact .nothing ht.left rfl rfl ht.outbox fun _ => id
    · exact .nothing ht.right rfl rfl ht.outbox' fun _ => id
    · exact Standing.Alike.of_bags (.running ho ho' hx) rfl rfl
  | openBag hx =>
    have hgrow : ∀ (x : Site) (b : Nat), x.bags[b]? = some [] → (x.bags ++ [[]])[b]? = some [] :=
      fun x b hb => List.getElem?_append_left (List.getElem?_eq_some_iff.1 hb).1 ▸ hb
    refine ⟨_, _, _, _, _, _, _, _, .nothing, rfl, rfl, rfl, ht.outbox, ht.outbox', ?_, ?_, hp, ?_⟩
    · exact .nothing ht.left rfl rfl ht.outbox (hgrow site)
    · exact .nothing ht.right rfl rfl ht.outbox' (hgrow site')
    · exact .running (ho.openBag rfl) (ho'.openBag rfl) (hx _ _)
  | @takeBag _ _ b b' hb hb' next next' hx =>
    have hempty : site.bag b = [] := by simp [Site.bag, ho b hb]
    have hempty' : site'.bag b' = [] := by simp [Site.bag, ho' b' hb']
    have hstay : ∀ (x : Site) (b c : Nat), x.bags[c]? = some [] →
        (x.bags.set b [])[c]? = some [] := by
      intro x b c hc
      obtain ⟨hlt, -⟩ := List.getElem?_eq_some_iff.1 hc
      by_cases hbc : b = c
      · simp [hbc, hlt]
      · rw [List.getElem?_set_ne hbc]
        exact hc
    have hl : site.answer post (.takeBag b) = ([], post, site.setBag b []) := by
      simp only [Site.answer, hempty]
    have hr : site'.answer post' (.takeBag b') = ([], post', site'.setBag b' []) := by
      simp only [Site.answer, hempty']
    refine ⟨_, _, _, _, _, _, _, _, .nothing, rfl, hl, hr, ht.outbox, ht.outbox', ?_, ?_, hp, ?_⟩
    · exact .nothing ht.left rfl rfl ht.outbox (hstay site b)
    · exact .nothing ht.right rfl rfl ht.outbox' (hstay site' b')
    · exact .running (fun c hc => hstay site b c (ho c hc))
        (fun c hc => hstay site' b' c (ho' c hc)) hx
  | makeActions hx =>
    refine ⟨_, _, site.installation.makeActions.1, site'.installation.makeActions.1, _, _,
      { site with installation := site.installation.makeActions.2 },
      { site' with installation := site'.installation.makeActions.2 }, .nothing, rfl, rfl, rfl,
      ht.outbox, ht.outbox', ?_, ?_, hp, ?_⟩
    · exact .nothing ht.left rfl rfl ht.outbox fun _ => id
    · exact .nothing ht.right rfl rfl ht.outbox' fun _ => id
    · exact Standing.Alike.of_bags (.running ho ho' (hx _ _)) rfl rfl

/-- A strand at a twin site can follow a move of a strand that is alike. -/
theorem Strand.Move.mirror {k k' k₁ : Strand α} (happ : app.ThroughTx)
    (ht : site.Twins d h h' site' s s') (hk : k.Alike R ⟨d, h⟩ ⟨d, h'⟩ site site' k')
    (hR : ∀ t t' j r, R t t' → ts[t]? = some j → j.result? = some r →
      ∃ j', ts'[t']? = some j' ∧ j'.result? = some r)
    (hm : k.Move app ts site site₁ k₁ new) :
    ∃ site₁' k₁' new' change, k'.Move app ts' site' site₁' k₁' new' ∧
      site.Amends d h s (k.writes site) change site₁ ∧
      site'.Amends d h' s' (k'.writes site') change site₁' ∧
      k₁.Alike (Joined R ts.length ts'.length new) ⟨d, h⟩ ⟨d, h'⟩ site₁ site₁' k₁' ∧
      new.length ≤ 1 ∧ List.Forall₂ (Strand.Alike (Joined R ts.length ts'.length new) ⟨d, h⟩ ⟨d, h'⟩
        site₁ site₁') new new' := by
  obtain ⟨post', standing'⟩ := k'
  obtain ⟨hp, hst⟩ := hk
  have hsame : site.Amends d h s [] .nothing site := .nothing ht.left rfl rfl ht.outbox fun _ => id
  have hsame' : site'.Amends d h' s' [] .nothing site' :=
    .nothing ht.right rfl rfl ht.outbox' fun _ => id
  cases hm with
  | ask _ post r next =>
    cases hst with
    | running ho ho' hx =>
      obtain ⟨r', next', x, x', q, q', site₂, site₂', change, rfl, hl, hr, hout, hout', ha, ha', hq,
        hn⟩ := ht.answer (R := Joined R ts.length ts'.length []) hp ho ho' hx
      have hself : ∀ y : Site, y.outbox = [] → { y with outbox := [] } = y := by
        rintro ⟨⟩ rfl
        rfl
      have hm' := @Strand.Move.ask _ app ts' site' post' r' next'
      rw [hl]
      rw [hr] at hm'
      simp only [hout, hout', hself _ hout, hself _ hout', List.map_nil] at hm' ⊢
      exact ⟨site₂', _, [], change, hm', ha, ha', ⟨hq, hn⟩, by simp, .nil⟩
  | sleep _ post ms next =>
    cases hst with
    | running ho ho' hx =>
      cases hx with
      | sleep _ hx =>
        exact ⟨site', _, [], .nothing, .sleep .., hsame, hsame', ⟨hp, .running ho ho' hx⟩, by simp,
          .nil⟩
  | begin hb post next =>
    cases hst with
    | running ho ho' hx => cases hx
  | call _ post hc next =>
    cases hst with
    | running ho ho' hx =>
      cases hx with
      | @call _ _ i i' hi name args _ next' hx =>
        have hc' : app.mutators.contains (Call.mk i' name args).name = true := hc
        refine ⟨site', _, _, .nothing, .call _ _ hc' _, hsame, hsame', ⟨hp, ?_⟩, by simp, .cons ?_ .nil⟩
        · exact .waiting (.inr ⟨by simp, rfl, rfl⟩) _ ho ho' hx
        · exact Call.strand_alike happ hi name args
  | unknown _ post hc next =>
    cases hst with
    | running ho ho' hx =>
      cases hx with
      | @call _ _ i i' hi name args _ next' hx =>
        have hc' : app.mutators.contains (Call.mk i' name args).name = false := hc
        exact ⟨site', _, [], .nothing, .unknown _ _ hc' _, hsame, hsame',
          ⟨hp, .running ho ho' (hx _)⟩, by simp, .nil⟩
  | stepAside _ post next =>
    cases hst with
    | running ho ho' hx =>
      cases hx with
      | stepAside hx =>
        refine ⟨site', _, _, .nothing, .stepAside .., hsame, hsame', ⟨hp, ?_⟩, by simp, .cons ?_ .nil⟩
        · exact .waiting (.inr ⟨by simp, rfl, rfl⟩) _ ho ho' fun _ => hx
        · have hd : (Program.done (Except.ok () : Outcome Unit)).Alike ⟨d, h⟩ ⟨d, h'⟩ [] []
            (.done (.ok ())) := .done _
          exact ⟨⟨.inl ⟨rfl, rfl⟩, rfl, rfl⟩,
            .running (fun _ hb => by simp at hb) (fun _ hb => by simp at hb) hd⟩
  | deliver hj hr _ post overrun next =>
    cases hst with
    | waiting hw _ ho ho' hx =>
      obtain ⟨j', hj', hr'⟩ := hR _ _ _ _ hw hj hr
      exact ⟨site', _, [], .nothing, .deliver hj' hr' _ _ _ _, hsame, hsame',
        ⟨hp, .running ho ho' (hx _)⟩, by simp, .nil⟩
  | expire _ post t e next =>
    cases hst with
    | waiting hw _ ho ho' hx =>
      exact ⟨site', _, [], .nothing, .expire .., hsame, hsame', ⟨hp, .running ho ho' (hx _)⟩, by simp,
        .nil⟩

end Move
end RowGuard
