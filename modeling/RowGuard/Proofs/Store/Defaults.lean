import RowGuard.Proofs.Store.Rows

/-! # Defaults

The columns of a new row are filled in the order of their declarations, and a column may be declared
more than once.  So the first default of a column that is not null fills it, and a required
declaration refuses the row unless the row or a declaration before it gives the column a value.
-/
namespace RowGuard

theorem exists_error_iff {ε α : Type} {x : Except ε α} : (∃ e, x = .error e) ↔ ∀ a, x ≠ .ok a := by
  cases x <;> simp

/-- A fold that fails does so at the first element that is refused. -/
theorem foldlM_error {α β ε : Type} {f : β → α → Except ε β} {xs : List α} {b : β} {e : ε}
    (h : xs.foldlM f b = .error e) : ∃ pre x post b', xs = pre ++ x :: post ∧
      pre.foldlM f b = .ok b' ∧ f b' x = .error e := by
  induction xs generalizing b with
  | nil => cases h
  | cons x xs ih =>
    rw [List.foldlM_cons] at h
    cases hx : f b x with
    | error e' =>
      rw [hx] at h
      exact ⟨[], x, xs, b, rfl, rfl, hx.trans h⟩
    | ok b₁ =>
      rw [hx] at h
      obtain ⟨pre, y, post, b', rfl, hpre, hy⟩ := ih h
      refine ⟨x :: pre, y, post, b', rfl, ?_, hy⟩
      rw [List.foldlM_cons, hx]
      exact hpre

namespace Table
variable {t : Table} {now : Nat} {row r : Row} {columns : List Column}

/-- What an empty column is filled with: its first default that is not null, or null if it has none
but null ones. -/
def fallback (now : Nat) (name : String) : List Column → Option Json
  | [] => none
  | c :: columns =>
    if c.name = name then
      match c.default with
      | none => fallback now name columns
      | some d =>
        if (d.produce now).isNull then some ((fallback now name columns).getD .null)
        else some (d.produce now)
    else fallback now name columns

/-- The row is the other one with its empty columns filled. -/
def Completes (columns : List Column) (now : Nat) (row r : Row) : Prop :=
  ∀ name, r.get? name = if (row.value name).isNull then
    (fallback now name columns).or (row.get? name) else row.get? name

/-- A required column is declared and neither the row nor a declaration before gives it a value. -/
def LeavesEmpty (columns : List Column) (now : Nat) (row : Row) : Prop :=
  ∃ pre c post, columns = pre ++ c :: post ∧ c.mayOmit = false ∧
    (row.value c.name).isNull = true ∧ ∀ v, fallback now c.name pre = some v → v.isNull = true

theorem eq_null_of_isNull {v : Json} (h : v.isNull = true) : v = .null := by
  cases v <;> simp_all [Json.isNull]

theorem fillColumn_get? {c : Column} (h : t.fillColumn now row c = .ok r) (name : String) :
    r.get? name = if c.name = name ∧ (row.value name).isNull = true then
      (c.default.map (·.produce now)).or (row.get? name) else row.get? name := by
  unfold fillColumn at h
  by_cases hn : (row.value c.name).isNull = true
  · rw [if_pos hn] at h
    cases hd : c.default with
    | none =>
      rw [hd] at h
      by_cases ho : c.optional = true
      · rw [if_pos ho] at h
        simp [Except.ok.inj h]
      · simp [ho] at h
    | some d =>
      rw [hd] at h
      obtain rfl := Except.ok.inj h
      rw [Dict.get?_insert]
      by_cases hname : c.name = name
      · subst hname
        simp [hn]
      · simp [hname]
  · rw [if_neg hn] at h
    obtain rfl := Except.ok.inj h
    rw [if_neg]
    rintro ⟨rfl, hnull⟩
    exact hn hnull

theorem completes_of_fillColumns (h : columns.foldlM (t.fillColumn now) row = .ok r) :
    Completes columns now row r := by
  induction columns generalizing row with
  | nil =>
    intro name
    simp [Except.ok.inj h, fallback]
  | cons c columns ih =>
    rw [List.foldlM_cons] at h
    cases hc : t.fillColumn now row c with
    | error e => simp [hc, bind, Except.bind] at h
    | ok row₁ =>
      rw [hc] at h
      intro name
      have hrest := ih h name
      have hfirst := fillColumn_get? hc name
      -- A column that this declaration has filled with null is left to the later ones.
      by_cases hfill : c.name = name ∧ (row.value name).isNull = true
      · obtain ⟨rfl, hn⟩ := hfill
        rw [if_pos ⟨rfl, hn⟩] at hfirst
        rw [hrest, Row.value, hfirst, fallback, if_pos rfl, if_pos hn]
        cases hd : c.default with
        | none =>
          rw [Option.map_none, Option.none_or, ← Row.value, if_pos hn]
        | some d =>
          by_cases hp : (d.produce now).isNull = true
          · cases fallback now c.name columns <;> simp [eq_null_of_isNull hp, Json.isNull]
          · simp [hp]
      · rw [if_neg hfill] at hfirst
        rw [hrest, Row.value, hfirst, ← Row.value, fallback]
        by_cases hname : c.name = name
        · have hn : ¬ (row.value name).isNull = true := fun hn => hfill ⟨hname, hn⟩
          rw [if_neg hn, if_neg hn]
        · rw [if_neg hname]

theorem completes_of_withDefaults (h : t.withDefaults now row = .ok r) :
    Completes t.columns now row r := completes_of_fillColumns h

theorem Completes.isNull_iff (h : Completes columns now row r) (name : String) :
    (r.value name).isNull = true ↔ (row.value name).isNull = true ∧
      ∀ v, fallback now name columns = some v → v.isNull = true := by
  rw [Row.value, h name]
  by_cases hn : (row.value name).isNull = true
  · cases hf : fallback now name columns with
    | none =>
      rw [if_pos hn, Option.none_or, ← Row.value]
      simp [hn]
    | some v => simp [hn]
  · rw [if_neg hn]
    exact iff_of_false hn fun hnull => hn hnull.1

theorem fillColumn_error_iff {c : Column} :
    (∃ e, t.fillColumn now row c = .error e) ↔
      c.mayOmit = false ∧ (row.value c.name).isNull = true := by
  unfold fillColumn Column.mayOmit
  cases hn : (row.value c.name).isNull with
  | false => simp
  | true =>
    cases c.default with
    | some d => simp
    | none => cases c.optional <;> simp

/-- A row is refused exactly if it leaves a required column empty. -/
theorem withDefaults_error_iff :
    (∃ e, t.withDefaults now row = .error e) ↔ LeavesEmpty t.columns now row := by
  constructor
  · rintro ⟨e, h⟩
    obtain ⟨pre, c, post, row', hp, hpre, hc⟩ := foldlM_error h
    obtain ⟨hreq, hnull⟩ := fillColumn_error_iff.1 ⟨e, hc⟩
    obtain ⟨hrow, hf⟩ := ((completes_of_fillColumns hpre).isNull_iff c.name).1 hnull
    exact ⟨pre, c, post, hp, hreq, hrow, hf⟩
  · rintro ⟨pre, c, post, hp, hreq, hrow, hf⟩
    unfold withDefaults
    rw [hp, List.foldlM_append]
    cases hpre : pre.foldlM (t.fillColumn now) row with
    | error e => exact ⟨e, rfl⟩
    | ok row' =>
      have hnull := ((completes_of_fillColumns hpre).isNull_iff c.name).2 ⟨hrow, hf⟩
      obtain ⟨e, hc⟩ : ∃ e, t.fillColumn now row' c = .error e :=
        fillColumn_error_iff.2 ⟨hreq, hnull⟩
      exact ⟨e, by simp [List.foldlM_cons, hc, bind, Except.bind]⟩

end Table
end RowGuard
