import RowGuard.Proofs.Server.TrustedCode

/-! # Deferred work and commits

Deferred work is meant for what has been committed.  But the mutations of a push share one bag,
which is not emptied when one of them fails, and trusted code inside a mutation does its work before
the transaction of the mutation is settled.  So what is started is all that was queued, and it
belongs to committed transactions exactly if all of it was queued in such.  The mutations of a push
that succeed, and trusted code outside mutations, have been committed by then.
-/
namespace RowGuard

/-- Work is no more than what was queued in a bag in transactions that have been committed. -/
def OnlyCommitted (es : List Deed) (bag : Nat) (work : List Deferred) : Prop :=
  work.Subperm ((pending bag es).kept (commits es))

/-- Work is no more than what was queued in a bag outside the failed mutations of a push. -/
def NoneFailed (es : List Deed) (hist : List (TxRef × MutationOutcome)) (bag : Nat)
    (work : List Deferred) : Prop :=
  work.Subperm ((pending bag es).kept fun tx => !failedIn hist tx)

section Law
variable {es : List Deed} {bag : Nat} {work : List Deferred}

theorem onlyCommitted_iff (hw : work = (pending bag es).map Prod.snd) :
    OnlyCommitted es bag work ↔ ∀ e ∈ pending bag es, commits es e.1 = true := by
  subst hw
  exact Pending.subperm_kept_iff ..

theorem noneFailed_iff {hist : List (TxRef × MutationOutcome)}
    (hw : work = (pending bag es).map Prod.snd) :
    NoneFailed es hist bag work ↔ ∀ e ∈ pending bag es, failedIn hist e.1 = false := by
  subst hw
  rw [NoneFailed, Pending.subperm_kept_iff]
  simp

theorem PushHistory.onlyCommitted {m : Mutators} {ps : List PushMutation} {rs : List MutationResult}
    {hist : List (TxRef × MutationOutcome)} (hh : PushHistory es m ps rs hist)
    (hw : work = (pending bag es).map Prod.snd)
    (hok : ∀ e ∈ pending bag es, ∃ tx, e.1 = some tx ∧ (tx, .ok) ∈ hist) :
    OnlyCommitted es bag work := by
  refine (onlyCommitted_iff hw).2 fun e he => ?_
  obtain ⟨tx, htx, hmem⟩ := hok e he
  rw [htx]
  exact hh.commits_of_ok hmem

end Law

/-- Work that is started, or left in a bag, is everything that was queued in the bag, whatever has
become of the transactions: it belongs to committed transactions exactly if all of it was queued in
such.  A push starts or leaves work of failed mutations exactly if they have queued some; the
successful ones have been committed.  Trusted code outside mutations commits before it does its
work. -/
theorem deferred_work_committed_iff (app : Application) {site : Site} (hb : site.bags = []) :
    (∀ (α : Type) (mains : List (Strand α)) (es : List Deed) (c : Scene α),
      Scene.Trace app (.start site mains) es c →
      (∀ pre bag work post, es = pre ++ .taken bag work :: post →
        work = (pending bag pre).map Prod.snd ∧
        (OnlyCommitted pre bag work ↔ ∀ e ∈ pending bag pre, commits pre e.1 = true)) ∧
      ∀ bag, c.site.bag bag = (pending bag es).map Prod.snd ∧
        (OnlyCommitted es bag (c.site.bag bag) ↔ ∀ e ∈ pending bag es, commits es e.1 = true)) ∧
    (∀ (s : Server) (identity : Option Identity) (ps : List PushMutation) (leave : Bool)
      (mains : List (Strand (Outcome (PushResponse × Nat)))) (es : List Deed)
      (c : Scene (Outcome (PushResponse × Nat))) (i : Nat)
      (k : Strand (Outcome (PushResponse × Nat))) (rs : List MutationResult) (bag : Nat),
      Scene.Trace app (.start site mains) es c →
      mains[i]? = some ⟨.outside, .running (s.push identity ps leave)⟩ →
      c.mains[i]? = some k → k.result? = some (.ok (⟨rs⟩, bag)) →
      ∃ actions hist seen work,
        PushHistory seen (s.mutatorsOf identity bag actions) ps rs hist ∧
        ((leave = true ∧ seen = es ∧ work = c.site.bag bag) ∨
          (leave = false ∧ seen ++ [.taken bag work] <+: es)) ∧
        ((∀ e ∈ pending bag seen, ∃ tx, e.1 = some tx ∧ (tx, .ok) ∈ hist) →
          OnlyCommitted seen bag work) ∧
        (NoneFailed seen hist bag work ↔ ∀ e ∈ pending bag seen, failedIn hist e.1 = false)) ∧
    ∀ (s : Server) (a : Ambient) (identity : Option Identity)
      (code : TxRef → Mutators → Program (Outcome Unit)) (post : Post)
      (mains : List (Strand (Outcome Unit))) (es : List Deed) (c : Scene (Outcome Unit)) (i : Nat)
      (k : Strand (Outcome Unit)),
      Scene.Trace app (.start site mains) es c →
      mains[i]? = some ⟨post, .running (s.mutate a identity code)⟩ →
      c.mains[i]? = some k → k.result? = some (.ok ()) →
      ∃ seen bag work, seen ++ [.taken bag work] <+: es ∧ Server.deferredOutcome work = .ok () ∧
        s.CodeCommitted app (.start site mains) i a identity code bag seen := by
  refine ⟨?_, ?_, ?_⟩
  · intro α mains es c ht
    refine ⟨fun pre bag work post he => ?_, fun bag => ?_⟩
    · have hw := ht.taken hb he
      exact ⟨hw, onlyCommitted_iff hw⟩
    · have hw := ht.bagged hb bag
      exact ⟨hw, onlyCommitted_iff hw⟩
  · intro s identity ps leave mains es c i k rs bag ht hstart hk hr
    obtain ⟨x, hx, hcourse⟩ := Scene.Trace.main_invariant (P := s.PushCourse identity ps leave)
      (fun _ _ ds h => h.append ds) (fun _ _ _ _ _ _ _ h hm _ => h.move hm) hstart .fresh ht
    obtain rfl := Option.some.inj (hx.symm.trans hk)
    obtain ⟨actions, hist, seen, hh, ⟨hl, rfl⟩ | ⟨hl, work, hpre⟩⟩ := hcourse.account hr
    · have hw := ht.bagged hb bag
      exact ⟨actions, hist, _, _, hh, .inl ⟨hl, rfl, rfl⟩, hh.onlyCommitted hw, noneFailed_iff hw⟩
    · obtain ⟨post, he⟩ := hpre
      have hes : es = seen ++ .taken bag work :: post := by simp [← he]
      have hw := ht.taken hb hes
      exact ⟨actions, hist, seen, work, hh, .inr ⟨hl, post, he⟩, hh.onlyCommitted hw,
        noneFailed_iff hw⟩
  · intro s a identity code post mains es c i k ht hstart hk hr
    obtain ⟨x, hx, hcourse⟩ := Scene.Trace.main_invariant
      (P := s.MutateCourse app (.start site mains) i a identity code)
      (fun _ _ ds h => h.append ds) (fun _ _ _ _ _ _ _ h hm => h.move hm) hstart (.fresh post) ht
    obtain rfl := Option.some.inj (hx.symm.trans hk)
    exact hcourse.account hr

/-! Mails that are asked for by a mutation of a push, which then fails, and by trusted code, which
succeeds. -/
namespace Mails

def server : Server := ⟨0, ⟨.server, .empty, false⟩, .empty, none, none⟩

def mail : Deferred := ⟨"mail", false⟩

/-- Ask for a mail, and end so. -/
def send (r : Outcome Unit) : Body := fun i _ =>
  match i.server with
  | some part => .ask (.defer part.bag mail) fun _ => .done r
  | none => .fail .notInMutator

def app : Application :=
  ⟨.ofList [("mail.order", send (.error (.mutation "out of stock"))),
    ("mail.greet", send (.ok ()))], 1000⟩

def site : Site := .new 0 [.direct (.new .empty)]

def tx : TxRef := ⟨0, 0⟩

def ordering : Strand (Outcome (PushResponse × Nat)) :=
  ⟨.outside, .running (server.push none [⟨1, "c1", "mail.order", .null⟩] false)⟩

def answer : PushResponse × Nat := (⟨[⟨1, "c1", .error (.mutation "out of stock")⟩]⟩, 0)

/-- What is done before the push empties its bag. -/
def ordered : List Deed := [
  .called ⟨(server.mutatorsOf none 0 none).invocation tx, "mail.order", .null⟩,
  .queued 0 (some tx) mail]

theorem trace_ordering : ∃ k c,
    Scene.Trace app (.start site [ordering]) (ordered ++ [.taken 0 [mail]]) c ∧
      c.mains = [k] ∧ k.result? = some (.ok answer) := by
  have fresh : Scene.Trace app (.start site [ordering]) [] (.start site [ordering]) := .start
  have opened := fresh.main (i := 0) rfl (.ask ..)
  have made := opened.main (i := 0) rfl (.ask ..)
  have begun := made.main (i := 0) rfl (.begin rfl ..)
  have called := begun.main (i := 0) rfl (.call _ _ (by decide) _)
  have queued := called.task (t := 0) rfl (.ask ..)
  have failed := queued.main (i := 0) rfl (.deliver (t := 0) rfl rfl ..)
  have undone := failed.main (i := 0) rfl (.ask ..)
  have emptied := undone.main (i := 0) rfl (.ask ..)
  have launched := emptied.main (i := 0) rfl (.ask ..)
  exact ⟨_, _, launched, rfl, rfl⟩

def greet : TxRef → Mutators → Program (Outcome Unit) := fun tx m => m.call tx "mail.greet" .null

def greeting : Strand (Outcome Unit) := ⟨.outside, .running (server.mutate .none none greet)⟩

/-- What is done before the trusted code empties its bag. -/
def greeted : List Deed := [
  .called ⟨(server.mutatorsOf (some .admin) 0 none).invocation tx, "mail.greet", .null⟩,
  .queued 0 (some tx) mail, .committed tx]

theorem trace_greeting : ∃ k c,
    Scene.Trace app (.start site [greeting]) (greeted ++ [.taken 0 [mail]]) c ∧
      c.mains = [k] ∧ k.result? = some (.ok ()) := by
  have fresh : Scene.Trace app (.start site [greeting]) [] (.start site [greeting]) := .start
  have opened := fresh.main (i := 0) rfl (.ask ..)
  have made := opened.main (i := 0) rfl (.ask ..)
  have begun := made.main (i := 0) rfl (.begin rfl ..)
  have called := begun.main (i := 0) rfl (.call _ _ (by decide) _)
  have queued := called.task (t := 0) rfl (.ask ..)
  have succeeded := queued.main (i := 0) rfl (.deliver (t := 0) rfl rfl ..)
  have committed := succeeded.main (i := 0) rfl (.ask ..)
  have emptied := committed.main (i := 0) rfl (.ask ..)
  have performed := emptied.main (i := 0) rfl (.ask ..)
  exact ⟨_, _, performed, rfl, rfl⟩

end Mails

open Mails in
theorem deferred_work_committed_of_mails :
    ¬ OnlyCommitted ordered 0 [mail] ∧ OnlyCommitted greeted 0 [mail] ∧
    (∃ actions hist seen, PushHistory seen (server.mutatorsOf none 0 actions)
      [⟨1, "c1", "mail.order", .null⟩] answer.1.results hist) ∧
    ∃ seen bag, server.CodeCommitted app (.start site [greeting]) 0 .none none greet bag seen := by
  obtain ⟨k, c, ht, hk, hr⟩ := trace_ordering
  obtain ⟨k', c', ht', hk', hr'⟩ := trace_greeting
  obtain ⟨hall, hpush, hmutate⟩ := @deferred_work_committed_iff app Mails.site rfl
  have hfailed := ((hall _ _ _ c ht).1 ordered 0 [mail] [] rfl).2
  have hok := ((hall _ _ _ c' ht').1 greeted 0 [mail] [] rfl).2
  refine ⟨fun h => ?_, hok.2 ?_, ?_, ?_⟩
  · have hc := hfailed.1 h (some tx, mail) (by simp [ordered, pending, Deed.pend])
    exact Bool.noConfusion hc
  · simp [greeted, pending, Deed.pend, commits]
  · obtain ⟨actions, hist, seen, -, hh, -⟩ :=
      hpush server none _ false _ _ c 0 k _ 0 ht rfl (by simp [hk]) hr
    exact ⟨actions, hist, seen, hh⟩
  · obtain ⟨seen, bag, -, -, -, hc⟩ :=
      hmutate server .none none greet .outside _ _ c' 0 k' ht' rfl (by simp [hk']) hr'
    exact ⟨seen, bag, hc⟩

open Mails in
/-- The mail of a mutation that has failed is sent, and nothing is ever committed. -/
theorem mail_of_failed_mutation_sent : ∃ es k c,
    Scene.Trace app (.start site [ordering]) es c ∧ c.mains = [k] ∧
      k.result? = some (.ok answer) ∧ .queued 0 (some tx) mail ∈ es ∧ .taken 0 [mail] ∈ es ∧
      ∀ t, .committed t ∉ es := by
  obtain ⟨k, c, ht, hk, hr⟩ := trace_ordering
  exact ⟨_, k, c, ht, hk, hr, by simp [ordered], by simp, by simp [ordered]⟩

end RowGuard
