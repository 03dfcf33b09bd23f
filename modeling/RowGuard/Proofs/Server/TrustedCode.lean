import RowGuard.Proofs.Push.Course
import RowGuard.Server.Transaction

/-! # The course of trusted code

Beside any other code, trusted code outside mutations begins a transaction, and commits it before it
takes the work from its bag.  Inside a mutation it takes the work as soon as it has succeeded.
-/
namespace RowGuard.Server

variable (app : Application) (c₀ : Scene (Outcome Unit)) (i : Nat) (s : Server) (a : Ambient)
  (identity : Option Identity) (code : TxRef → Mutators → Program (Outcome Unit))

/-- The end of trusted code that has succeeded: its work is done. -/
def mutateEnd (a : Ambient) (bag : Nat) : Program (Outcome Unit) :=
  (Program.request (.takeBag bag)).bind fun work =>
    (Program.perform a.scope.inMutation work).bind fun _ => .done (deferredOutcome work)

/-- What is left of trusted code that has its mutators. -/
def mutateFrom (bag : Nat) (m : Mutators) : Program (Outcome Unit) :=
  (s.transaction a fun tx => code tx m).andThen fun _ => mutateEnd a bag

/-- What is left of trusted code when it has come to an end in a transaction: outside mutations the
transaction is settled first. -/
def mutateAfter (a : Ambient) (bag : Nat) (tx : TxRef) : Outcome Unit → Program (Outcome Unit)
  | .ok () =>
    match a.tx with
    | some _ => mutateEnd a bag
    | none => .ask (.commit tx) fun
      | .ok () => mutateEnd a bag
      | .error e => .done (.error e)
  | .error e =>
    match a.tx with
    | some _ => .done (.error e)
    | none => .ask (.rollback tx) fun _ => .done (.error e)

theorem mutate_eq : s.mutate a identity code = .ask .openBag fun bag =>
    (s.mutators (some (trusted identity)) bag).bind (s.mutateFrom a code bag) := rfl

theorem mutateFrom_inside {tx : TxRef} (ha : a.tx = some tx) (bag : Nat) (m : Mutators) :
    s.mutateFrom a code bag m = (code tx m).bind (mutateAfter a bag tx) := by
  simp only [mutateFrom, transaction, ha, Program.andThen]
  refine congrArg _ (funext fun r => ?_)
  cases r <;> simp only [mutateAfter, ha]

theorem mutateFrom_outside (ha : a.tx = none) (bag : Nat) (m : Mutators) :
    s.mutateFrom a code bag m = .begin s.database fun
      | .ok tx => (code tx m).bind (mutateAfter a bag tx)
      | .error e => .done (.error e) := by
  simp only [mutateFrom, transaction, ha, Program.andThen, Program.bind]
  refine congrArg _ (funext fun x => ?_)
  cases x with
  | error e => rfl
  | ok tx =>
    simp only [Program.bind_assoc]
    refine congrArg _ (funext fun r => ?_)
    cases r with
    | error e => simp only [mutateAfter, ha]; rfl
    | ok u =>
      simp only [mutateAfter, ha, Program.mapOk, Program.request, Program.bind]
      refine congrArg _ (funext fun x => ?_)
      cases x <;> rfl

/-- The code of a main program was begun in a transaction, with mutators that share a bag. -/
def CodeBegan (bag : Nat) (tx : TxRef) (es : List Deed) : Prop :=
  ∃ post actions es₁, es₁ <+: es ∧ Scene.Reaches app c₀ i es₁ ⟨post, .running
    ((code tx (s.mutatorsOf (some (trusted identity)) bag actions)).bind (mutateAfter a bag tx))⟩

/-- The code of a main program outside mutations has been committed. -/
def CodeCommitted (bag : Nat) (es : List Deed) : Prop :=
  a.tx = none → ∃ tx, CodeBegan app c₀ i s a identity code bag tx es ∧ .committed tx ∈ es

/-- How trusted code stands after a trace. -/
inductive MutateCourse (es : List Deed) : Strand (Outcome Unit) → Prop where
  | fresh (post : Post) : MutateCourse es ⟨post, .running (s.mutate a identity code)⟩
  | opened (post : Post) (bag : Nat) : MutateCourse es ⟨post, .running
      ((s.mutators (some (trusted identity)) bag).bind (s.mutateFrom a code bag))⟩
  | entering (post : Post) (bag : Nat) (actions : Option String) : MutateCourse es ⟨post, .running
      (s.mutateFrom a code bag (s.mutatorsOf (some (trusted identity)) bag actions))⟩
  | inside {bag : Nat} {tx : TxRef}
      (hb : a.tx = none → CodeBegan app c₀ i s a identity code bag tx es) (post : Post)
      (x : Standing (Outcome Unit)) : MutateCourse es ⟨post, x.bind (mutateAfter a bag tx)⟩
  | settled {bag : Nat} (ht : CodeCommitted app c₀ i s a identity code bag es) (post : Post) :
      MutateCourse es ⟨post, .running (mutateEnd a bag)⟩
  | emptied {bag : Nat} {seen : List Deed} {work : List Deferred}
      (ht : CodeCommitted app c₀ i s a identity code bag seen)
      (hs : seen ++ [.taken bag work] <+: es) (post : Post) :
      MutateCourse es ⟨post, .running ((Program.perform a.scope.inMutation work).bind fun _ =>
        .done (deferredOutcome work))⟩
  | performed {bag : Nat} {seen : List Deed} {work : List Deferred}
      (ht : CodeCommitted app c₀ i s a identity code bag seen)
      (hs : seen ++ [.taken bag work] <+: es) (post : Post) :
      MutateCourse es ⟨post, .running (.done (deferredOutcome work))⟩
  | failed (post : Post) (e : Failure) : MutateCourse es ⟨post, .running (.done (.error e))⟩

variable {app c₀ i s a identity code} {es ds : List Deed} {k k' : Strand (Outcome Unit)}

theorem CodeBegan.mono {bag : Nat} {tx : TxRef}
    (hb : CodeBegan app c₀ i s a identity code bag tx es) (hpre : es <+: ds) :
    CodeBegan app c₀ i s a identity code bag tx ds := by
  obtain ⟨post, actions, es₁, hes, hr⟩ := hb
  exact ⟨post, actions, es₁, hes.trans hpre, hr⟩

theorem CodeCommitted.mono {bag : Nat} (ht : CodeCommitted app c₀ i s a identity code bag es)
    (hpre : es <+: ds) : CodeCommitted app c₀ i s a identity code bag ds := by
  intro ha
  obtain ⟨tx, hb, hc⟩ := ht ha
  exact ⟨tx, hb.mono hpre, hpre.subset hc⟩

theorem MutateCourse.append (h : s.MutateCourse app c₀ i a identity code es k) (ds : List Deed) :
    s.MutateCourse app c₀ i a identity code (es ++ ds) k := by
  have hpre : es <+: es ++ ds := List.prefix_append es ds
  cases h with
  | fresh post => exact .fresh post
  | opened post bag => exact .opened post bag
  | entering post bag actions => exact .entering post bag actions
  | inside hb post x => exact .inside (fun ha => (hb ha).mono hpre) post x
  | settled ht post => exact .settled (ht.mono hpre) post
  | emptied ht hs post => exact .emptied ht (hs.trans hpre) post
  | performed ht hs post => exact .performed ht (hs.trans hpre) post
  | failed post e => exact .failed post e

section Moves
variable {ts new : Tasks} {site site' : Site} {post : Post} {bag : Nat} {tx : TxRef}

/-- Code that has come to an end takes the work from its bag next. -/
theorem MutateCourse.move_end (ht : CodeCommitted app c₀ i s a identity code bag es)
    (hm : Strand.Move app ts site ⟨post, .running (mutateEnd a bag)⟩ site' k' new) :
    s.MutateCourse app c₀ i a identity code
      (es ++ (⟨post, .running (mutateEnd a bag)⟩ : Strand (Outcome Unit)).deeds site) k' := by
  cases hm with
  | ask => exact .emptied ht (List.prefix_refl _) post

/-- Code that has come to an end in its own transaction settles it next. -/
theorem MutateCourse.move_settle (ha : a.tx = none) {r : Outcome Unit}
    (hb : CodeBegan app c₀ i s a identity code bag tx es)
    (hm : Strand.Move app ts site ⟨post, .running (mutateAfter a bag tx r)⟩ site' k' new) :
    s.MutateCourse app c₀ i a identity code
      (es ++ (⟨post, .running (mutateAfter a bag tx r)⟩ : Strand (Outcome Unit)).deeds site)
      k' := by
  cases r with
  | error e =>
    simp only [mutateAfter, ha] at hm ⊢
    cases hm with
    | ask => exact .failed _ e
  | ok u =>
    simp only [mutateAfter, ha] at hm ⊢
    cases hm with
    | ask =>
      cases hr : (site.answer post (.commit tx)).1 with
      | error e => exact .failed _ e
      | ok u =>
        refine .settled (fun _ => ⟨tx, hb.mono (List.prefix_append ..), ?_⟩) _
        exact List.mem_append_right es (by simp [Strand.deeds, Request.deeds, hr])

theorem MutateCourse.move_inside {x : Standing (Outcome Unit)}
    (hb : a.tx = none → CodeBegan app c₀ i s a identity code bag tx es)
    (hm : Strand.Move app ts site ⟨post, x.bind (mutateAfter a bag tx)⟩ site' k' new) :
    s.MutateCourse app c₀ i a identity code
      (es ++ (⟨post, x.bind (mutateAfter a bag tx)⟩ : Strand (Outcome Unit)).deeds site) k' := by
  rcases hm.of_bind with ⟨r, rfl⟩ | ⟨k, rfl, -⟩
  · cases ha : a.tx with
    | none => exact .move_settle ha (hb ha) hm
    | some outer =>
      -- The transaction is that of the mutation around the code, and stays open.
      have hin : CodeCommitted app c₀ i s a identity code bag es :=
        fun h => nomatch ha.symm.trans h
      simp only [Standing.bind, Program.bind] at hm ⊢
      cases r with
      | error e =>
        simp only [mutateAfter, ha] at hm
        cases hm
      | ok u =>
        simp only [mutateAfter, ha] at hm ⊢
        exact .move_end hin hm
  · exact .inside (fun ha => (hb ha).mono (List.prefix_append ..)) ..

/-- Every move of trusted code leads from one of its stages to the next. -/
theorem MutateCourse.move (h : s.MutateCourse app c₀ i a identity code es k)
    (hm : k.Move app ts site site' k' new)
    (hr : Scene.Reaches app c₀ i (es ++ k.deeds site) k') :
    s.MutateCourse app c₀ i a identity code (es ++ k.deeds site) k' := by
  cases h with
  | fresh post =>
    rw [mutate_eq] at hm
    cases hm with
    | ask => exact .opened ..
  | opened post bag =>
    rw [mutators_bind] at hm
    cases hm with
    | ask => exact .entering ..
  | entering post bag actions =>
    cases ha : a.tx with
    | some tx =>
      have he := s.mutateFrom_inside a code ha bag
        (s.mutatorsOf (some (trusted identity)) bag actions)
      rw [he] at hm ⊢
      exact .move_inside (x := .running _) (fun h => nomatch ha.symm.trans h) hm
    | none =>
      rw [mutateFrom_outside s a code ha] at hm hr ⊢
      cases hm with
      | @begin _ _ _ r hb =>
        cases r with
        | error e => exact .failed post e
        | ok tx =>
          refine .inside (x := .running _) (fun _ => ⟨post, actions, _, List.prefix_refl _, hr⟩) _
  | inside hb post x => exact .move_inside hb hm
  | settled ht post => exact .move_end ht hm
  | emptied ht hs post =>
    cases hm with
    | ask => exact .performed ht (hs.trans (List.prefix_append ..)) _
  | performed => cases hm
  | failed => cases hm

end Moves

/-- Code that may still have to settle its transaction has not succeeded yet. -/
theorem mutateAfter_unfinished (a : Ambient) (post : Post) (x : Standing (Outcome Unit)) (bag : Nat)
    (tx : TxRef) :
    (⟨post, x.bind (mutateAfter a bag tx)⟩ : Strand (Outcome Unit)).result? ≠ some (.ok ()) := by
  cases x with
  | waiting t overrun next => simp [Standing.bind, Strand.result?]
  | running p =>
    cases p with
    | done r =>
      cases r <;> cases ha : a.tx <;>
        simp [Standing.bind, Program.bind, mutateAfter, ha, Strand.result?, mutateEnd,
          Program.request]
    | _ => simp [Standing.bind, Program.bind, Strand.result?]

/-- Trusted code that has succeeded has emptied its bag, and outside mutations that was after a
commit. -/
theorem MutateCourse.account (h : s.MutateCourse app c₀ i a identity code es k)
    (hr : k.result? = some (.ok ())) : ∃ seen bag work, seen ++ [.taken bag work] <+: es ∧
      deferredOutcome work = .ok () ∧ CodeCommitted app c₀ i s a identity code bag seen := by
  cases h with
  | fresh post =>
    rw [mutate_eq] at hr
    cases hr
  | opened post bag =>
    rw [mutators_bind] at hr
    cases hr
  | entering post bag actions =>
    cases ha : a.tx with
    | some tx =>
      rw [s.mutateFrom_inside a code ha] at hr
      exact absurd hr (mutateAfter_unfinished a post (.running _) bag tx)
    | none =>
      rw [mutateFrom_outside s a code ha] at hr
      cases hr
  | inside hb post x => exact absurd hr (mutateAfter_unfinished a post x _ _)
  | settled ht post => cases hr
  | emptied ht hs post => cases hr
  | @performed bag seen work ht hs post =>
    exact ⟨seen, bag, work, hs, Option.some.inj hr, ht⟩
  | failed post e => cases hr

end RowGuard.Server
