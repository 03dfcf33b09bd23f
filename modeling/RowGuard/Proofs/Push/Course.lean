import RowGuard.Proofs.Push.Stages
import RowGuard.Proofs.Schedule.Deeds

/-! # The course of a push

Beside any other code, a push goes through its mutations one after another.  Each is called in a
transaction of its own, which has been committed when the result says that the mutation succeeded.
The bag that the mutations share is emptied after the last of them, if it is emptied at all.
-/
namespace RowGuard

/-- A mutation of a push was called in a transaction, which was committed if the mutation has
succeeded. -/
structure PushMutation.Accounted (es : List Deed) (m : Mutators) (p : PushMutation)
    (h : TxRef × MutationOutcome) : Prop where
  called : .called ⟨m.invocation h.1, p.name, p.args⟩ ∈ es
  committed : h.2 = .ok → .committed h.1 ∈ es

/-- The transactions and the outcomes of mutations that were called one after another, each in a
transaction of its own, with their results. -/
structure PushHistory (es : List Deed) (m : Mutators) (ps : List PushMutation)
    (rs : List MutationResult) (hist : List (TxRef × MutationOutcome)) : Prop where
  accounted : List.Forall₂ (PushMutation.Accounted es m) ps hist
  results : rs = List.zipWith (fun p h => p.result h.2) ps hist

/-- A push has got through the mutations before `rest`, with the results `rs`. -/
def PushProgress (es : List Deed) (m : Mutators) (ps rest : List PushMutation)
    (rs : List MutationResult) : Prop :=
  ∃ done hist, ps = done ++ rest ∧ PushHistory es m done rs hist

section Progress
variable {es ds : List Deed} {m : Mutators} {p : PushMutation} {ps rest : List PushMutation}
  {rs : List MutationResult} {tx : TxRef} {o : MutationOutcome}

theorem PushMutation.Accounted.mono {h : TxRef × MutationOutcome} (ha : p.Accounted es m h)
    (hd : es ⊆ ds) : p.Accounted ds m h :=
  ⟨hd ha.called, fun ho => hd (ha.committed ho)⟩

theorem PushMutation.accounted_of_error {e : Failure}
    (hc : .called ⟨m.invocation tx, p.name, p.args⟩ ∈ es) : p.Accounted es m (tx, .error e) :=
  ⟨hc, fun h => nomatch h⟩

theorem PushProgress.start (es : List Deed) (m : Mutators) (ps : List PushMutation) :
    PushProgress es m ps ps [] := ⟨[], [], rfl, .nil, rfl⟩

theorem PushProgress.mono (hp : PushProgress es m ps rest rs) (hd : es ⊆ ds) :
    PushProgress ds m ps rest rs := by
  obtain ⟨done, hist, hps, hacc, hrs⟩ := hp
  exact ⟨done, hist, hps, hacc.imp fun _ _ h => h.mono hd, hrs⟩

theorem PushProgress.snoc (hp : PushProgress es m ps (p :: rest) rs)
    (ha : p.Accounted es m (tx, o)) : PushProgress es m ps rest (rs ++ [p.result o]) := by
  obtain ⟨done, hist, hps, hacc, hrs⟩ := hp
  refine ⟨done ++ [p], hist ++ [(tx, o)], by simp [hps], ?_, ?_⟩
  · exact List.rel_append hacc (.cons ha .nil)
  · rw [List.zipWith_append hacc.length_eq, hrs]
    rfl

theorem PushProgress.history (hp : PushProgress es m ps [] rs) :
    ∃ hist, PushHistory es m ps rs hist := by
  obtain ⟨done, hist, hps, hh⟩ := hp
  rw [List.append_nil] at hps
  exact ⟨hist, hps ▸ hh⟩

/-- Work that was queued in the transactions of successful mutations was queued in transactions that
have been committed. -/
theorem PushHistory.commits_of_ok {hist : List (TxRef × MutationOutcome)}
    (hh : PushHistory es m ps rs hist) (h : (tx, .ok) ∈ hist) : commits es (some tx) = true := by
  obtain ⟨i, hi, he⟩ := List.getElem_of_mem h
  have hp : i < ps.length := by rw [hh.accounted.length_eq]; exact hi
  have ha := hh.accounted.get hp hi
  simp only [List.get_eq_getElem, he] at ha
  exact commits_iff.2 ⟨tx, rfl, ha.committed rfl⟩

end Progress

/-- Whether code in a transaction belongs to a mutation that has failed. -/
def failedIn (hist : List (TxRef × MutationOutcome)) (tx : Option TxRef) : Bool :=
  hist.any fun h => tx == some h.1 && h.2 != .ok

namespace Server
variable (s : Server) (identity : Option Identity) (ps : List PushMutation) (leave : Bool)

/-- The end of a push: the work is started or left in its bag. -/
def pushEnd (leave : Bool) (bag : Nat) (rs : List MutationResult) :
    Program (Outcome (PushResponse × Nat)) :=
  if leave then .done (.ok (⟨rs⟩, bag))
  else
    (Program.request (.takeBag bag)).bind fun work =>
      (Program.request (.launch work)).bind fun _ => .done (.ok (⟨rs⟩, bag))

/-- What is left of a push with some results and the mutations still to run. -/
def pushFrom (bag : Nat) (m : Mutators) (rs : List MutationResult) (rest : List PushMutation) :
    Program (Outcome (PushResponse × Nat)) := (s.rest m rs rest).andThen (pushEnd leave bag)

theorem push_eq : s.push identity ps leave = .ask .openBag fun bag =>
    (s.mutators identity bag).bind fun m => s.pushFrom leave bag m [] ps := by
  unfold pushFrom push
  simp only [rest_nil_left]
  rfl

/-- The mutators of a caller, once its actions are made. -/
def mutatorsOf (bag : Nat) (actions : Option String) : Mutators :=
  ⟨identity, .server, s.gate, some ⟨actions, bag⟩⟩

theorem mutators_bind {α : Type} (bag : Nat) (f : Mutators → Program α) :
    (s.mutators identity bag).bind f =
      .ask .makeActions fun actions => f (s.mutatorsOf identity bag actions) := rfl

theorem pushFrom_nil (bag : Nat) (m : Mutators) (rs : List MutationResult) :
    s.pushFrom leave bag m rs [] = pushEnd leave bag rs := by
  rw [pushFrom, rest_nil]
  rfl

theorem pushFrom_cons (bag : Nat) (m : Mutators) (rs : List MutationResult) (p : PushMutation)
    (rest : List PushMutation) : s.pushFrom leave bag m rs (p :: rest) =
      .begin s.database fun x => (s.afterBegin m rs p rest x).andThen (pushEnd leave bag) := by
  rw [pushFrom, rest_cons]
  rfl

/-- What is left of a push when a mutation has come to an end in its transaction. -/
def concludeFrom (bag : Nat) (m : Mutators) (rs : List MutationResult) (p : PushMutation)
    (rest : List PushMutation) (tx : TxRef) (r : Outcome Unit) :
    Program (Outcome (PushResponse × Nat)) :=
  (s.conclude m rs p rest tx r).andThen (pushEnd leave bag)

theorem concludeFrom_ok (bag : Nat) (m : Mutators) (rs : List MutationResult) (p : PushMutation)
    (rest : List PushMutation) (tx : TxRef) : s.concludeFrom leave bag m rs p rest tx (.ok ()) =
      .ask (.commit tx) fun x => (s.afterCommit m rs p rest x).andThen (pushEnd leave bag) := by
  rw [concludeFrom, conclude_ok]
  rfl

theorem concludeFrom_error (bag : Nat) (m : Mutators) (rs : List MutationResult) (p : PushMutation)
    (rest : List PushMutation) (tx : TxRef) (e : Failure) :
    s.concludeFrom leave bag m rs p rest tx (.error e) =
      .ask (.rollback tx) fun _ => s.pushFrom leave bag m (rs ++ [p.result (.error e)]) rest := rfl

/-- How a push stands after a trace. -/
inductive PushCourse (es : List Deed) : Strand (Outcome (PushResponse × Nat)) → Prop where
  | fresh : PushCourse es ⟨.outside, .running (s.push identity ps leave)⟩
  | opened (bag : Nat) : PushCourse es ⟨.outside, .running
      ((s.mutators identity bag).bind fun m => s.pushFrom leave bag m [] ps)⟩
  | idle {bag : Nat} {actions : Option String} {rs : List MutationResult}
      {rest : List PushMutation}
      (hp : PushProgress es (s.mutatorsOf identity bag actions) ps rest rs) :
      PushCourse es ⟨.outside, .running
        (s.pushFrom leave bag (s.mutatorsOf identity bag actions) rs rest)⟩
  | begun {bag : Nat} {actions : Option String} {rs : List MutationResult} {p : PushMutation}
      {rest : List PushMutation}
      (hp : PushProgress es (s.mutatorsOf identity bag actions) ps (p :: rest) rs) (tx : TxRef) :
      PushCourse es ⟨.outside, .running
        (.call ⟨(s.mutatorsOf identity bag actions).invocation tx, p.name, p.args⟩
          (s.concludeFrom leave bag (s.mutatorsOf identity bag actions) rs p rest tx))⟩
  | waiting {bag : Nat} {actions : Option String} {rs : List MutationResult} {p : PushMutation}
      {rest : List PushMutation}
      (hp : PushProgress es (s.mutatorsOf identity bag actions) ps (p :: rest) rs) {tx : TxRef}
      (hc : .called ⟨(s.mutatorsOf identity bag actions).invocation tx, p.name, p.args⟩ ∈ es)
      (t : Nat) (overrun : Option Failure) :
      PushCourse es ⟨.outside, .waiting t overrun
        (s.concludeFrom leave bag (s.mutatorsOf identity bag actions) rs p rest tx)⟩
  | settling {bag : Nat} {actions : Option String} {rs : List MutationResult} {p : PushMutation}
      {rest : List PushMutation}
      (hp : PushProgress es (s.mutatorsOf identity bag actions) ps (p :: rest) rs) {tx : TxRef}
      (hc : .called ⟨(s.mutatorsOf identity bag actions).invocation tx, p.name, p.args⟩ ∈ es)
      (r : Outcome Unit) :
      PushCourse es ⟨.outside, .running
        (s.concludeFrom leave bag (s.mutatorsOf identity bag actions) rs p rest tx r)⟩
  | emptied {bag : Nat} {actions : Option String} {rs : List MutationResult} {seen : List Deed}
      {work : List Deferred} (hl : leave = false)
      (hp : PushProgress seen (s.mutatorsOf identity bag actions) ps [] rs)
      (hs : seen ++ [.taken bag work] <+: es) :
      PushCourse es ⟨.outside, .running ((Program.request (.launch work)).bind fun _ =>
        .done (.ok (⟨rs⟩, bag)))⟩
  | launched {bag : Nat} {actions : Option String} {rs : List MutationResult} {seen : List Deed}
      {work : List Deferred} (hl : leave = false)
      (hp : PushProgress seen (s.mutatorsOf identity bag actions) ps [] rs)
      (hs : seen ++ [.taken bag work] <+: es) :
      PushCourse es ⟨.outside, .running (.done (.ok (⟨rs⟩, bag)))⟩
  | failed (e : Failure) : PushCourse es ⟨.outside, .running (.done (.error e))⟩

variable {s identity ps leave} {es ds : List Deed} {k k' : Strand (Outcome (PushResponse × Nat))}

theorem PushCourse.append (h : s.PushCourse identity ps leave es k) (ds : List Deed) :
    s.PushCourse identity ps leave (es ++ ds) k := by
  have hd : es ⊆ es ++ ds := List.subset_append_left es ds
  cases h with
  | fresh => exact .fresh
  | opened bag => exact .opened bag
  | idle hp => exact .idle (hp.mono hd)
  | begun hp tx => exact .begun (hp.mono hd) tx
  | waiting hp hc t overrun => exact .waiting (hp.mono hd) (hd hc) t overrun
  | settling hp hc r => exact .settling (hp.mono hd) (hd hc) r
  | emptied hl hp hs => exact .emptied hl hp (hs.trans (List.prefix_append es ds))
  | launched hl hp hs => exact .launched hl hp (hs.trans (List.prefix_append es ds))
  | failed e => exact .failed e

/-- Every move of a push leads from one of its stages to the next. -/
theorem PushCourse.move {app : Application} {ts new : Tasks} {site site' : Site}
    (h : s.PushCourse identity ps leave es k) (hm : k.Move app ts site site' k' new) :
    s.PushCourse identity ps leave (es ++ k.deeds site) k' := by
  cases h with
  | fresh =>
    rw [push_eq] at hm
    cases hm with
    | ask => exact .opened _
  | opened bag =>
    rw [mutators_bind] at hm
    cases hm with
    | ask => exact .idle (.start ..)
  | @idle bag actions rs rest hp =>
    cases rest with
    | nil =>
      rw [pushFrom_nil] at hm ⊢
      cases leave with
      | true => cases hm
      | false =>
        cases hm with
        | ask => exact .emptied rfl hp (List.prefix_refl _)
    | cons p rest =>
      rw [pushFrom_cons] at hm ⊢
      cases hm with
      | @begin _ _ _ r hb =>
        rw [Strand.deeds, List.append_nil]
        cases r with
        | error e => exact .failed e
        | ok tx => exact .begun hp tx
  | @begun bag actions rs p rest hp tx =>
    have hsub : es ⊆ es ++ [Deed.called _] := List.subset_append_left es [.called
      ⟨(s.mutatorsOf identity bag actions).invocation tx, p.name, p.args⟩]
    cases hm with
    | call => exact .waiting (hp.mono hsub) (by simp) ..
    | unknown => exact .settling (hp.mono hsub) (by simp) _
  | waiting hp hc t overrun =>
    cases hm with
    | deliver => exact (PushCourse.settling hp hc _).append _
    | expire => exact (PushCourse.settling hp hc _).append _
  | @settling bag actions rs p rest hp tx hc r =>
    cases r with
    | ok u =>
      rw [concludeFrom_ok] at hm ⊢
      cases hm with
      | ask =>
        cases hr : (site.answer .outside (.commit tx)).1 with
        | ok u =>
          have hd : Strand.deeds site (⟨.outside, .running (.ask (.commit tx) fun x =>
              (s.afterCommit (s.mutatorsOf identity bag actions) rs p rest x).andThen
                (pushEnd leave bag))⟩ : Strand (Outcome (PushResponse × Nat))) =
              [.committed tx] := by
            simp only [Strand.deeds, Request.deeds, hr]
          rw [hd]
          have hsub : es ⊆ es ++ [Deed.committed tx] := List.subset_append_left _ _
          exact .idle ((hp.mono hsub).snoc ⟨hsub hc, fun _ => by simp⟩)
        | error e =>
          -- A commit that fails is the failure of the mutation.
          exact (PushCourse.idle (hp.snoc (PushMutation.accounted_of_error hc))).append _
    | error e =>
      rw [concludeFrom_error] at hm ⊢
      cases hm with
      | ask => exact (PushCourse.idle (hp.snoc (PushMutation.accounted_of_error hc))).append _
  | emptied hl hp hs =>
    cases hm with
    | ask => exact .launched hl hp (hs.trans (List.prefix_append ..))
  | launched => cases hm
  | failed => cases hm

/-- When a push has succeeded, its bag is left as it is or was emptied after the last mutation. -/
theorem PushCourse.account (h : s.PushCourse identity ps leave es k) {rs : List MutationResult}
    {bag : Nat} (hr : k.result? = some (.ok (⟨rs⟩, bag))) :
    ∃ actions hist seen, PushHistory seen (s.mutatorsOf identity bag actions) ps rs hist ∧
      ((leave = true ∧ seen = es) ∨
        (leave = false ∧ ∃ work, seen ++ [.taken bag work] <+: es)) := by
  cases h with
  | fresh =>
    rw [push_eq] at hr
    cases hr
  | opened bag =>
    rw [mutators_bind] at hr
    cases hr
  | @idle bag actions rs rest hp =>
    cases rest with
    | nil =>
      rw [pushFrom_nil] at hr
      cases leave with
      | true =>
        cases hr
        obtain ⟨hist, hh⟩ := hp.history
        exact ⟨actions, hist, es, hh, .inl ⟨rfl, rfl⟩⟩
      | false => cases hr
    | cons p rest =>
      rw [pushFrom_cons] at hr
      cases hr
  | begun hp tx => cases hr
  | waiting hp hc t overrun => cases hr
  | @settling bag actions rs p rest hp tx hc r =>
    cases r with
    | ok u =>
      rw [concludeFrom_ok] at hr
      cases hr
    | error e =>
      rw [concludeFrom_error] at hr
      cases hr
  | emptied hl hp hs => cases hr
  | @launched bag actions rs seen work hl hp hs =>
    cases hr
    obtain ⟨hist, hh⟩ := hp.history
    exact ⟨actions, hist, seen, hh, .inr ⟨hl, work, hs⟩⟩
  | failed e => cases hr

end Server
end RowGuard
