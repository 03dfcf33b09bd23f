import RowGuard.Proofs.Push.Coherence

/-! # Whose writes they are

Every mutation of a push is called in a transaction of its own.  The log of a run shows the working
tables of the open transaction, and once a mutation has its result nothing more is written through its
transaction: late writes are refused.
-/
namespace RowGuard

/-- A handle that was given out and is settled. -/
structure Store.Settled (st : Store) (h : Nat) : Prop where
  issued : h < st.issued
  closed : st.tables? h = none

/-- The call of the mutation that a push is busy with, by its transaction, once it is made. -/
def Phase.calls (tx : TxRef) : Phase → List TxRef
  | called => []
  | _ => [tx]

def Stage.calls (d : Nat) : Stage → List TxRef
  | idle .. => []
  | busy _ _ _ h phase => phase.calls ⟨d, h⟩

/-- A push has called in these transactions: one for each of its results, all settled, and one for the
mutation that it is busy with. -/
def Stage.Called (d : Nat) (st : Store) (x : Stage) (txs : List TxRef) : Prop :=
  ∃ hs : List Nat, txs = hs.map (TxRef.mk d) ++ x.calls d ∧ hs.length = x.results.length ∧
    ∀ h ∈ hs, st.Settled h

/-- How the log agrees with the pushes and the store. -/
structure Attributed (d : Nat) (es : List Mark) (σ : Nat → Stage) (st : Store) : Prop where
  fresh : ∀ g, st.issued ≤ g → writesThrough ⟨d, g⟩ es = []
  working : ∀ h W, st.Held h W → st.schema.replay st.committed (writesThrough ⟨d, h⟩ es) = .ok W
  calls : ∀ i, (σ i).Called d st (callsOf i es)

section Stages
variable {app : Application} {s : Server} {m : Mutators} {ts new : Tasks} {x x' : Stage}
  {st st' : Store} {d h : Nat} {txs : List TxRef}

@[simp] theorem Stage.writesThrough_marks (d i : Nat) (x : Stage) (tx : TxRef) :
    writesThrough tx (x.marks d i) = [] := by
  match x with
  | idle .. | busy _ _ _ _ .called | busy _ _ _ _ (.waiting _) | busy _ _ _ _ (.settling _) => rfl

theorem Stage.callsOf_marks_of_ne {i j : Nat} (hj : j ≠ i) (x : Stage) :
    callsOf j (x.marks d i) = [] := by
  match x with
  | busy _ _ _ _ .called => simp [marks, hj.symm]
  | idle .. | busy _ _ _ _ (.waiting _) | busy _ _ _ _ (.settling _) => rfl

theorem Stage.Next.settled (hn : x.Next app s m ts st st' x' new) (hs : st.Settled h) :
    st'.Settled h := by
  cases hn with
  | begin =>
    refine ⟨Nat.lt_succ_of_lt hs.issued, ?_⟩
    rw [st.entered_held.tables?, if_neg (Nat.ne_of_lt hs.issued)]
  | call | unknown | deliver | expire => exact hs
  | commit hh => exact ⟨hs.issued, (hh.concluded _).tables? h⟩
  | rollback hh => exact ⟨hs.issued, hh.release.tables? h⟩

theorem Stage.Called.mono (hx : x.Called d st txs) (hs : ∀ h, st.Settled h → st'.Settled h) :
    x.Called d st' txs := by
  obtain ⟨hs', htxs, hlen, hall⟩ := hx
  exact ⟨hs', htxs, hlen, fun h hm => hs h (hall h hm)⟩

/-- A push makes one call for each mutation, and settles its transaction before the next. -/
theorem Stage.Next.called (hn : x.Next app s m ts st st' x' new) (i : Nat)
    (hx : x.Called s.database st txs) :
    x'.Called s.database st' (txs ++ callsOf i (x.marks s.database i)) := by
  obtain ⟨hs, rfl, hlen, hall⟩ := hx
  have hsettled : ∀ h ∈ hs, st'.Settled h := fun h hm => hn.settled (hall h hm)
  have hdone : ∀ {h rs ps} {r : MutationResult}, x.calls s.database = [⟨s.database, h⟩] →
      x.results = rs → x' = .idle (rs ++ [r]) ps → callsOf i (x.marks s.database i) = [] →
      st'.Settled h → x'.Called s.database st'
        (hs.map (TxRef.mk s.database) ++ x.calls s.database ++
          callsOf i (x.marks s.database i)) := by
    rintro h rs ps r hcalls rfl rfl hmarks hh
    refine ⟨hs ++ [h], ?_, by simp [hlen, results], fun g hg => ?_⟩
    · rw [hcalls, hmarks]
      simp [calls]
    · rcases List.mem_append.1 hg with hg | hg
      · exact hsettled g hg
      · obtain rfl := List.mem_singleton.1 hg
        exact hh
  cases hn with
  | begin | call | unknown | deliver | expire =>
    exact ⟨hs, by simp [calls, Phase.calls, marks], hlen, hsettled⟩
  | commit hh => exact hdone rfl rfl rfl rfl ⟨hh.issued, (hh.concluded _).tables? _⟩
  | rollback hh => exact hdone rfl rfl rfl rfl ⟨hh.issued, hh.release.tables? _⟩

/-- While a push is busy, its marks are the calls that it makes. -/
theorem Stage.Next.calls {rs : List MutationResult} {p : PushMutation} {ps : List PushMutation}
    {phase phase₁ : Phase}
    (hn : (Stage.busy rs p ps h phase).Next app s m ts st st' (.busy rs p ps h phase₁) new)
    (i : Nat) : phase₁.calls ⟨s.database, h⟩ = phase.calls ⟨s.database, h⟩ ++
      callsOf i ((Stage.busy rs p ps h phase).marks s.database i) := by
  cases hn <;> simp [Phase.calls, marks]

/-- A move of a push leaves the log in agreement with the open transaction. -/
theorem Stage.Next.working (hn : x.Next app s m ts st st' x' new) {es : List Mark}
    (hfresh : ∀ g, st.issued ≤ g → writesThrough ⟨d, g⟩ es = [])
    (hw : ∀ h W, st.Held h W → st.schema.replay st.committed (writesThrough ⟨d, h⟩ es) = .ok W)
    {W : Tables} (hh : st'.Held h W) :
    st'.schema.replay st'.committed (writesThrough ⟨d, h⟩ es) = .ok W := by
  cases hn with
  | begin =>
    obtain ⟨rfl, rfl⟩ := hh.unique st.entered_held
    rw [hfresh _ (Nat.le_refl _)]
    rfl
  | call | unknown | deliver | expire => exact hw h W hh
  | commit hg => exact absurd hh (hg.concluded _).not_held
  | rollback hg => exact absurd hh hg.release.not_held

end Stages

section Amend
variable {d g h : Nat} {site site₁ : Site} {st : Store} {ms : List Mark} {change : Amendment}
  (ha : site.Amends d g st ms change site₁)
include ha

/-- Nothing is written through a transaction that is settled. -/
theorem Site.Amends.writes_of_closed (hc : st.tables? h = none) : writesThrough ⟨d, h⟩ ms = [] := by
  rw [ha.marks]
  by_cases hg : g = h
  · subst hg
    cases change with
    | nothing => rfl
    | wrote w W => simpa [hc] using ha.opened
  · exact Amendment.writesThrough_marks_of_ne _ _ (by simpa using hg)

theorem Site.Amends.settled (hst : st.Steady) (hs : st.Settled h) :
    (st.amend g change).Settled h := by
  refine ⟨(st.amend_issued g change).symm ▸ hs.issued, ?_⟩
  rcases hst with hq | ⟨f, W, hh⟩
  · rw [hq.amend ha.opened]
    exact hs.closed
  · rcases hh.amend ha.opened with rfl | ⟨rfl, w, W', rfl⟩
    · exact hs.closed
    · have hclosed := hs.closed
      have htables := (hh.setTables W').tables? h
      rw [hh.tables?] at hclosed
      by_cases he : h = g
      · simp [he] at hclosed
      · rw [if_neg he] at htables
        exact htables

/-- The log shows what a write has made of the working tables. -/
theorem Site.Amends.working (hst : st.Steady) {es : List Mark}
    (hw : ∀ h W, st.Held h W → st.schema.replay st.committed (writesThrough ⟨d, h⟩ es) = .ok W)
    {W : Tables} (hh : (st.amend g change).Held h W) :
    st.schema.replay st.committed (writesThrough ⟨d, h⟩ (es ++ ms)) = .ok W := by
  rw [writesThrough_append, ha.marks]
  rcases hst with hq | ⟨f, V, hf⟩
  · rw [hq.amend ha.opened] at hh
    exact absurd hh hq.not_held
  · rcases hf.amend ha.opened with rfl | ⟨rfl, w, W', rfl⟩
    · simpa [Amendment.marks, Amendment.writes] using hw h W hh
    · obtain ⟨rfl, rfl⟩ := hh.unique (hf.setTables W')
      obtain ⟨V', hV, hwrite⟩ := ha.written w W rfl
      obtain rfl : V = V' := by simpa [hf.tables?] using hV
      rw [Schema.replay_append, hw h V hf, Amendment.writesThrough_marks]
      exact (st.schema.replay_one V w).trans hwrite

end Amend

section Steps
variable {app : Application} {s : Server} {us : List Submission}
  {c c' : Scene (Outcome (List MutationResult))} {σ σ' : Nat → Stage} {st st' : Store}
  {es ms : List Mark} {h : Nat}

theorem Evolves.issued_le (he : Evolves app s us c σ st ms c' σ' st') : st.issued ≤ st'.issued := by
  cases he with
  | push hu hn => exact hn.issued_le
  | task hk hg hcon hm ha => exact Nat.le_of_eq (st.amend_issued _ _).symm
  | tick | drop => exact Nat.le_refl _

theorem Evolves.settled (he : Evolves app s us c σ st ms c' σ' st')
    (hc : Coherent app s us c σ st) (hs : st.Settled h) : st'.Settled h := by
  cases he with
  | push hu hn => exact hn.settled hs
  | task hk hg hcon hm ha => exact ha.settled hc.locks.steady hs
  | tick | drop => exact hs

/-- Through a transaction that is settled, or not begun, a step writes nothing. -/
theorem Evolves.writes_of_closed (he : Evolves app s us c σ st ms c' σ' st')
    (hh : st.tables? h = none) : writesThrough ⟨s.database, h⟩ ms = [] := by
  cases he with
  | push hu hn => simp
  | task hk hg hcon hm ha => exact ha.writes_of_closed hh
  | tick | drop => rfl

theorem Attributed.start (d : Nat) (us : List Submission) (hq : st.Quiet) :
    Attributed d [] (Stage.first us) st where
  fresh _ _ := rfl
  working _ _ hh := absurd hh hq.not_held
  calls _ := ⟨[], rfl, rfl, by simp⟩

theorem Attributed.step (ha : Attributed s.database es σ st) (hc : Coherent app s us c σ st)
    (he : Evolves app s us c σ st ms c' σ' st') : Attributed s.database (es ++ ms) σ' st' where
  fresh g hg := by
    have hle := he.issued_le
    have hclosed : st.tables? g = none := by
      rcases hc.locks.steady with hq | ⟨f, W, hh⟩
      · exact hq.tables? g
      · have hlt := hh.issued
        rw [hh.tables?, if_neg (by omega)]
    rw [writesThrough_append, ha.fresh g (Nat.le_trans hle hg), he.writes_of_closed hclosed]
    rfl
  working h W hh := by
    cases he with
    | push hu hn => simpa using hn.working ha.fresh ha.working hh
    | task hk hg hcon hm hamend =>
      rw [st.amend_schema, st.amend_committed]
      exact hamend.working hc.locks.steady ha.working hh
    | tick | drop => simpa using ha.working h W hh
  calls i := by
    have hkeep := (ha.calls i).mono fun h hs => he.settled hc hs
    cases he with
    | @push j u x' _ new hu hn =>
      rw [callsOf_append]
      by_cases hij : i = j
      · subst hij
        rw [Function.update_self]
        exact hn.called i (ha.calls i)
      · rw [Function.update_of_ne hij, Stage.callsOf_marks_of_ne hij, List.append_nil]
        exact hkeep
    | task hk hg hcon hm hamend => simpa [hamend.marks] using hkeep
    | tick | drop => simpa using hkeep

/-- A mutation with a result was called in a transaction that is settled. -/
theorem Attributed.call (ha : Attributed s.database es σ st) {i k : Nat}
    (hk : k < (σ i).results.length) :
    ∃ h, (callsOf i es)[k]? = some ⟨s.database, h⟩ ∧ st.Settled h := by
  obtain ⟨hs, htxs, hlen, hall⟩ := ha.calls i
  rw [← hlen] at hk
  refine ⟨hs[k], ?_, hall _ (List.getElem_mem hk)⟩
  rw [htxs, List.getElem?_append_left (by simpa using hk)]
  simp [hk]

/-- The mutation that a push is busy with is the next one. -/
theorem Attributed.call_of_busy (ha : Attributed s.database es σ st) {i : Nat}
    {rs : List MutationResult} {p : PushMutation} {ps : List PushMutation} {r : Outcome Unit}
    (hi : σ i = .busy rs p ps h (.settling r)) :
    (callsOf i es)[rs.length]? = some ⟨s.database, h⟩ := by
  obtain ⟨hs, htxs, hlen, -⟩ := ha.calls i
  rw [hi, Stage.results] at hlen
  rw [htxs, hi, ← hlen]
  simp [Stage.calls, Phase.calls]

/-- No step adds to the writes of a mutation that has its result. -/
theorem Attributed.writesAt_step (ha : Attributed s.database es σ st)
    (he : Evolves app s us c σ st ms c' σ' st') {i k : Nat} (hk : k < (σ i).results.length) :
    writesAt (es ++ ms) (i, k) = writesAt es (i, k) := by
  obtain ⟨h, hcall, hs⟩ := ha.call hk
  exact writesAt_append hcall (he.writes_of_closed hs.closed)

end Steps
end RowGuard
