import RowGuard.Proofs.Schedule.DirectSite
import RowGuard.Proofs.Schedule.Interleaving
import RowGuard.Server.Push

/-! # The stages of a push

Between two steps a push is idle, with some results and the mutations still to run, or busy with one
mutation in an open transaction.  `Stage.Next` lists what it can do next; a strand that runs a push
makes exactly these moves.
-/
namespace RowGuard

/-- The result that reports an outcome of a mutation. -/
def PushMutation.result (p : PushMutation) (o : MutationOutcome) : MutationResult :=
  ⟨p.id, p.clientId, o⟩

namespace Server

/-- What is left of a push that has some results, with the mutations still to run. -/
def rest (s : Server) (m : Mutators) (rs : List MutationResult) (ps : List PushMutation) :
    Program (Outcome (List MutationResult)) := (s.pushAll m ps).mapOk (rs ++ ·)

/-- What is left of a push when a mutation has come to an end in its transaction. -/
def conclude (s : Server) (m : Mutators) (rs : List MutationResult) (p : PushMutation)
    (ps : List PushMutation) (tx : TxRef) (r : Outcome Unit) :
    Program (Outcome (List MutationResult)) :=
  (settle tx r).bind fun o => s.rest m (rs ++ [p.result o]) ps

variable (s : Server) (m : Mutators) (rs : List MutationResult) (p : PushMutation)
  (ps : List PushMutation) (tx : TxRef)

theorem rest_nil_left : s.rest m [] ps = s.pushAll m ps := by
  have he : ∀ x : Outcome (List MutationResult), x.map (([] : List MutationResult) ++ ·) = x := by
    intro x
    cases x <;> rfl
  simp only [rest, Program.mapOk, he, Program.bind_done]

theorem rest_nil : s.rest m rs [] = .done (.ok rs) := by
  simp [rest, pushAll, Program.mapOk, Program.bind, Except.map]

/-- The continuation of a push that has begun a transaction. -/
def afterBegin : Outcome TxRef → Program (Outcome (List MutationResult))
  | .ok tx => .call ⟨m.invocation tx, p.name, p.args⟩ (s.conclude m rs p ps tx)
  | .error e => .done (.error e)

theorem rest_cons : s.rest m rs (p :: ps) = .begin s.database (s.afterBegin m rs p ps) := by
  unfold rest pushAll pushOne Program.mapOk Program.andThen
  simp only [Program.bind]
  refine congrArg _ ?_
  funext x
  cases x with
  | error e => rfl
  | ok tx =>
    simp only [Mutators.call, Program.bind, afterBegin]
    refine congrArg _ ?_
    funext r
    rw [conclude, Program.bind_assoc, Program.bind_assoc]
    refine congrArg _ ?_
    funext o
    simp only [Program.bind, Program.bind_assoc, rest, Program.mapOk]
    refine congrArg _ ?_
    funext y
    cases y <;> simp [Except.map, PushMutation.result]

/-- The continuation of a push that has tried to commit. -/
def afterCommit : Outcome Unit → Program (Outcome (List MutationResult))
  | .ok _ => s.rest m (rs ++ [p.result .ok]) ps
  | .error e => s.rest m (rs ++ [p.result (.error e)]) ps

theorem conclude_ok : s.conclude m rs p ps tx (.ok ()) =
    .ask (.commit tx) (s.afterCommit m rs p ps) := by
  simp only [conclude, settle, Program.request, Program.bind]
  refine congrArg _ ?_
  funext x
  cases x <;> rfl

theorem conclude_error (e : Failure) : s.conclude m rs p ps tx (.error e) =
    .ask (.rollback tx) fun _ => s.rest m (rs ++ [p.result (.error e)]) ps := rfl

end Server

/-- How far a push is with the mutation that it is busy with. -/
inductive Phase where
  | called
  | waiting (task : Nat)
  /-- The call has come to an end, and the transaction is to be settled. -/
  | settling (r : Outcome Unit)

/-- How a push stands: the results so far, the mutations after the current one, if there is one, and
the handle of its transaction. -/
inductive Stage where
  | idle (rs : List MutationResult) (ps : List PushMutation)
  | busy (rs : List MutationResult) (p : PushMutation) (ps : List PushMutation) (h : Nat)
    (phase : Phase)

namespace Stage

/-- The handle of the open transaction. -/
def handle? : Stage → Option Nat
  | idle .. => none
  | busy _ _ _ h _ => some h

def results : Stage → List MutationResult
  | idle rs _ | busy rs .. => rs

def left : Stage → List PushMutation
  | idle _ ps => ps
  | busy _ p ps _ _ => p :: ps

/-- The strand of a push stands so. -/
def standing (app : Application) (s : Server) (m : Mutators) :
    Stage → Standing (Outcome (List MutationResult))
  | idle rs ps => .running (s.rest m rs ps)
  | busy rs p ps h .called => .running (.call ⟨m.invocation ⟨s.database, h⟩, p.name, p.args⟩
      (s.conclude m rs p ps ⟨s.database, h⟩))
  | busy rs p ps h (.waiting t) =>
    .waiting t (some (app.overrun p.name)) (s.conclude m rs p ps ⟨s.database, h⟩)
  | busy rs p ps h (.settling r) => .running (s.conclude m rs p ps ⟨s.database, h⟩ r)

def strand (app : Application) (s : Server) (m : Mutators) (σ : Stage) :
    Strand (Outcome (List MutationResult)) := ⟨.outside, σ.standing app s m⟩

/-- What a push can do next, over a store and beside some tasks: the store and the stage afterwards,
and the tasks that it has started. -/
inductive Next (app : Application) (s : Server) (m : Mutators) (ts : Tasks) (st : Store) :
    Stage → Store → Stage → Tasks → Prop where
  | begin (hq : st.Quiet) (rs : List MutationResult) (p : PushMutation) (ps : List PushMutation) :
      Next app s m ts st (idle rs (p :: ps)) st.entered (busy rs p ps st.issued .called) []
  | call {p : PushMutation} (hp : app.mutators.contains p.name = true) (rs : List MutationResult)
      (ps : List PushMutation) (h : Nat) :
      Next app s m ts st (busy rs p ps h .called) st (busy rs p ps h (.waiting ts.length))
        [Call.strand app ⟨m.invocation ⟨s.database, h⟩, p.name, p.args⟩]
  | unknown {p : PushMutation} (hp : app.mutators.contains p.name = false)
      (rs : List MutationResult) (ps : List PushMutation) (h : Nat) :
      Next app s m ts st (busy rs p ps h .called) st
        (busy rs p ps h (.settling (.error (Application.unknown p.name)))) []
  | deliver {t : Nat} {k : Strand (Outcome Unit)} (ht : ts[t]? = some k) {r : Outcome Unit}
      (hr : k.result? = some r) (rs : List MutationResult) (p : PushMutation)
      (ps : List PushMutation) (h : Nat) :
      Next app s m ts st (busy rs p ps h (.waiting t)) st (busy rs p ps h (.settling r)) []
  | expire (rs : List MutationResult) (p : PushMutation) (ps : List PushMutation) (h t : Nat) :
      Next app s m ts st (busy rs p ps h (.waiting t)) st
        (busy rs p ps h (.settling (.error (app.overrun p.name)))) []
  | commit {h : Nat} {W : Tables} (hh : st.Held h W) (rs : List MutationResult) (p : PushMutation)
      (ps : List PushMutation) :
      Next app s m ts st (busy rs p ps h (.settling (.ok ()))) (st.concluded h W)
        (idle (rs ++ [p.result .ok]) ps) []
  | rollback {h : Nat} {W : Tables} (hh : st.Held h W) (e : Failure) (rs : List MutationResult)
      (p : PushMutation) (ps : List PushMutation) :
      Next app s m ts st (busy rs p ps h (.settling (.error e))) (st.release h)
        (idle (rs ++ [p.result (.error e)]) ps) []

section Moves
variable {app : Application} {s : Server} {m : Mutators} {ts new : Tasks} {site site₁ : Site}
  {st st₁ : Store} {σ σ₁ : Stage}

theorem withStore_outbox_nil {d : Nat} {x : Store} (ho : site.outbox = []) :
    { site.withStore d x with outbox := [] } = site.withStore d x := by
  cases site
  subst ho
  rfl

theorem answer_commit {h : Nat} {W : Tables} {post : Post} (hs : site.HasStore s.database st)
    (hh : st.Held h W) : site.answer post (.commit ⟨s.database, h⟩) =
      (.ok (), post, site.withStore s.database (st.concluded h W)) := by
  have ha : site.answer post (.commit ⟨s.database, h⟩) = _ := Site.HasStore.answer_commit hs post
  rw [ha, hh.commit]

theorem answer_rollback {h : Nat} {W : Tables} {post : Post} (hs : site.HasStore s.database st)
    (hh : st.Held h W) : site.answer post (.rollback ⟨s.database, h⟩) =
      (.ok (), post, site.withStore s.database (st.release h)) := by
  have ha : site.answer post (.rollback ⟨s.database, h⟩) = _ := Site.HasStore.answer_rollback hs post
  rw [ha, hh.rollback]

/-- The strand of a push can make each of these moves. -/
theorem Next.move (hn : σ.Next app s m ts st st₁ σ₁ new) (hs : site.HasStore s.database st)
    (ho : site.outbox = []) : (σ.strand app s m).Move app ts site (site.withStore s.database st₁)
      (σ₁.strand app s m) new := by
  have hself := hs.withStore_self
  cases hn with
  | begin hq rs p ps =>
    have hb : site.begin? s.database = some (.ok ⟨s.database, st.issued⟩,
        site.withStore s.database st.entered) := by
      rw [hs.begin?, hq.begin?]
      rfl
    simpa only [strand, standing, Server.rest_cons, Server.afterBegin] using
      Strand.Move.begin hb .outside (s.afterBegin m rs p ps)
  | call hp rs ps h =>
    rw [hself]
    exact .call (c := ⟨m.invocation ⟨s.database, h⟩, _, _⟩) site .outside hp _
  | unknown hp rs ps h =>
    rw [hself]
    exact .unknown (c := ⟨m.invocation ⟨s.database, h⟩, _, _⟩) site .outside hp _
  | deliver ht hr rs p ps h =>
    rw [hself]
    exact .deliver ht hr ..
  | expire rs p ps h t =>
    rw [hself]
    exact .expire ..
  | @commit h W hh rs p ps =>
    have hm := @Strand.Move.ask _ app ts site .outside (.commit ⟨s.database, h⟩)
      (s.afterCommit m rs p ps)
    rw [answer_commit hs hh] at hm
    simpa only [strand, standing, Server.conclude_ok, Server.afterCommit, withStore_outbox_nil ho,
      Site.withStore_outbox, ho, List.map_nil] using hm
  | @rollback h W hh e rs p ps =>
    have hm := @Strand.Move.ask _ app ts site .outside (.rollback ⟨s.database, h⟩)
      (fun _ => s.rest m (rs ++ [p.result (.error e)]) ps)
    rw [answer_rollback hs hh] at hm
    simpa only [strand, standing, Server.conclude_error, withStore_outbox_nil ho,
      Site.withStore_outbox, ho, List.map_nil] using hm

/-- The strand of a push makes no other moves. -/
theorem next_of_move {k₁ : Strand (Outcome (List MutationResult))}
    (hm : (σ.strand app s m).Move app ts site site₁ k₁ new) (hs : site.HasStore s.database st)
    (ho : site.outbox = []) (hst : st.Steady)
    (hheld : ∀ h, σ.handle? = some h → ∃ W, st.Held h W) :
    ∃ st₁ σ₁, σ.Next app s m ts st st₁ σ₁ new ∧ site₁ = site.withStore s.database st₁ ∧
      k₁ = σ₁.strand app s m := by
  have hself := hs.withStore_self.symm
  match σ with
  | idle rs [] =>
    rw [strand, standing, Server.rest_nil] at hm
    cases hm
  | idle rs (p :: ps) =>
    rw [strand, standing, Server.rest_cons] at hm
    cases hm with
    | begin hb post next =>
      rcases hst with hq | ⟨h, W, hh⟩
      · rw [hs.begin?, hq.begin?] at hb
        simp only [Option.map_some, Option.some.injEq, Prod.mk.injEq] at hb
        obtain ⟨rfl, rfl⟩ := hb
        exact ⟨_, _, .begin hq rs p ps, rfl, rfl⟩
      · rw [hs.begin?, hh.begin?] at hb
        cases hb
  | busy rs p ps h .called =>
    cases hm with
    | call _ _ hc next => exact ⟨_, _, .call hc rs ps h, hself, rfl⟩
    | unknown _ _ hc next => exact ⟨_, _, .unknown hc rs ps h, hself, rfl⟩
  | busy rs p ps h (.waiting t) =>
    cases hm with
    | deliver ht hr => exact ⟨_, _, .deliver ht hr rs p ps h, hself, rfl⟩
    | expire => exact ⟨_, _, .expire rs p ps h t, hself, rfl⟩
  | busy rs p ps h (.settling (.ok ())) =>
    obtain ⟨W, hh⟩ := hheld h rfl
    rw [strand, standing, Server.conclude_ok] at hm
    cases hm with
    | ask =>
      rw [answer_commit hs hh, withStore_outbox_nil ho, Site.withStore_outbox, ho]
      exact ⟨_, _, .commit hh rs p ps, rfl, rfl⟩
  | busy rs p ps h (.settling (.error e)) =>
    obtain ⟨W, hh⟩ := hheld h rfl
    rw [strand, standing, Server.conclude_error] at hm
    cases hm with
    | ask =>
      rw [answer_rollback hs hh, withStore_outbox_nil ho, Site.withStore_outbox, ho]
      exact ⟨_, _, .rollback hh e rs p ps, rfl, rfl⟩

end Moves
end Stage
end RowGuard
