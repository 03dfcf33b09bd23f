import RowGuard.Schedule.Segment

/-! # Programs run one after another

A program that runs to its end within a turn hands over to whatever follows it within the same turn.
-/
namespace RowGuard.Program
variable {α β : Type} {app : Application} {queues : List Nat} {t t' : Turn}

theorem advance_bind {p : Program α} {f : α → Program β} {a : α}
    (h : p.advance app queues t = (.finished a, t')) :
    (p.bind f).advance app queues t = (f a).advance app queues t' := by
  induction p generalizing t with
  | done b =>
    cases h
    rfl
  | ask r next ih => exact ih _ h
  | sleep ms next ih =>
    simp only [bind, advance] at h ⊢
    cases hc : t.credit with
    | zero => simp [hc] at h
    | succ credit =>
      simp only [hc] at h ⊢
      split at h
      · rename_i hms
        rw [if_pos hms]
        exact ih h
      · simp at h
  | hang => cases h
  | begin d next ih =>
    simp only [bind, advance] at h ⊢
    split at h
    · exact ih _ h
    · simp at h
    · split at h
      · simp at h
      · rename_i hq
        rw [if_neg hq]
        exact ih _ h
    · simp at h
  | call c next ih =>
    simp only [bind, advance] at h ⊢
    split at h
    · rename_i hn
      rw [if_pos hn]
      split at h
      · exact ih _ h
      · simp at h
    · rename_i hn
      rw [if_neg hn]
      exact ih _ h
  | stepAside next ih => cases h

theorem advance_andThen_ok {p : Program (Outcome α)} {f : α → Program (Outcome β)} {a : α}
    (h : p.advance app queues t = (.finished (.ok a), t')) :
    (p.andThen f).advance app queues t = (f a).advance app queues t' := advance_bind h

theorem advance_andThen_error {p : Program (Outcome α)} {f : α → Program (Outcome β)} {e : Failure}
    (h : p.advance app queues t = (.finished (.error e), t')) :
    (p.andThen f).advance app queues t = (.finished (.error e), t') := advance_bind h

theorem advance_mapOk {p : Program (Outcome α)} {f : α → β} {x : Outcome α}
    (h : p.advance app queues t = (.finished x, t')) :
    (p.mapOk f).advance app queues t = (.finished (x.map f), t') := advance_bind h

/-- A ruling comes to its result, and nothing but the journal changes. -/
theorem advance_rule (x : Ruling α) (app : Application) (queues : List Nat) (t : Turn) :
    ∃ journal, (rule x).advance app queues t =
      (.finished x.result, { t with site := { t.site with journal } }) := by
  unfold rule
  split
  · exact ⟨t.site.journal, rfl⟩
  · exact ⟨_, rfl⟩

end RowGuard.Program
