import RowGuard.Proofs.Json.Equality
import RowGuard.Proofs.Store.History

/-! # Rows and their keys

In every table that a store can reach, each row has a full primary key and no two rows have the
same one.  A write that succeeds adds, merges or removes one row with the key that it names, or it
finds no such row and changes nothing.
-/
namespace RowGuard

theorem Dict.get?_insertMany {α : Type} (d : Dict α) {entries : List (String × α)}
    (ha : Ascending entries) (name : String) :
    (d.insertMany entries).get? name = (findEntry name entries).or (d.get? name) := by
  induction entries generalizing d with
  | nil => rfl
  | cons e rest ih =>
    rw [Ascending, List.pairwise_cons] at ha
    have hi := ih (d.insert e.1 e.2) ha.2
    rw [insertMany, List.foldl_cons, ← insertMany, hi, get?_insert, findEntry]
    by_cases hn : e.1 = name
    · have hf : findEntry name rest = none := findEntry_eq_none fun x hx hxn =>
        String.lt_irrefl name (by simpa [hn, hxn] using ha.1 x hx)
      simp [hn, hf]
    · simp [hn]

theorem Dict.ofList_entries {α : Type} (d : Dict α) : Dict.ofList d.entries = d :=
  Dict.ext_get? fun name => by
    rw [ofList, get?_insertMany _ d.ascending, get?_empty, Option.or_none]
    rfl

theorem Json.toRow?_ofRow (r : Row) : (Json.ofRow r).toRow? = some r :=
  congrArg some (Dict.ofList_entries r)

namespace Table
variable {t : Table}

/-- The rows have the same primary key, structurally. -/
def SameKey (t : Table) (r r' : Row) : Prop :=
  ∀ c ∈ t.primaryKey, (r.value c).same (r'.value c) = true

theorem SameKey.refl (t : Table) (r : Row) : t.SameKey r r := fun _ _ => Json.same_refl _

theorem SameKey.symm {r r' : Row} (h : t.SameKey r r') : t.SameKey r' r := fun c hc => by
  rw [Json.same_comm]
  exact h c hc

theorem SameKey.trans {r r' r'' : Row} (h : t.SameKey r r') (h' : t.SameKey r' r'') :
    t.SameKey r r'' := fun c hc => Json.same_trans _ _ _ (h c hc) (h' c hc)

/-- The row has a value in every key column. -/
def FullKey (t : Table) (r : Row) : Prop := ∀ c ∈ t.primaryKey, (r.value c).isNull = false

theorem FullKey.of_sameKey {r r' : Row} (h : t.FullKey r) (hs : t.SameKey r' r) : t.FullKey r' :=
  fun c hc => (Json.isNull_eq_of_same (hs c hc)).trans (h c hc)

theorem agrees_iff {r : Row} {columns : List String} {key : List Json}
    (hk : ∀ v ∈ key, v.isNull = false) :
    agrees r columns key = true ↔ ∀ e ∈ columns.zip key, (r.value e.1).same e.2 = true := by
  induction columns generalizing key with
  | nil => simp [agrees]
  | cons c columns ih =>
    cases key with
    | nil => simp [agrees]
    | cons v key =>
      have hv := hk v List.mem_cons_self
      have hc : agrees r (c :: columns) (v :: key) =
          ((r.value c).same v && agrees r columns key) := by
        rw [agrees]
        unfold Row.value
        cases r.get? c with
        | some w => rfl
        | none => cases v <;> simp_all [Json.same, Json.isNull]
      rw [hc, Bool.and_eq_true, ih fun v hv => hk v (List.mem_cons_of_mem _ hv)]
      simp

theorem zip_map_value (r : Row) (columns : List String) :
    columns.zip (columns.map r.value) = columns.map fun c => (c, r.value c) := by
  induction columns with
  | nil => rfl
  | cons c columns ih => simp [ih]

/-- The row that a full key is taken from tells which rows have that key. -/
theorem hasKey_iff {row : Row} (hf : t.FullKey row) (r : Row) :
    t.hasKey (t.primaryKey.map row.value) r = true ↔ t.SameKey r row := by
  rw [hasKey, agrees_iff fun v hv => ?_, zip_map_value]
  · simp [SameKey]
  · obtain ⟨c, hc, rfl⟩ := List.mem_map.1 hv
    exact hf c hc

theorem keyValue_eq (t : Table) (row : Row) (c : String) :
    t.keyValue row c = if (row.value c).isNull then
      .error (.invalid (t.name ++ ": missing primary key column '" ++ c ++ "'"))
    else .ok (row.value c) := by
  unfold keyValue Row.value
  cases row.get? c <;> rfl

theorem mapM_keyValue_eq_ok_iff {row : Row} {columns : List String} {key : List Json} :
    columns.mapM (t.keyValue row) = .ok key ↔
      (∀ c ∈ columns, (row.value c).isNull = false) ∧ key = columns.map row.value := by
  induction columns generalizing key with
  | nil =>
    rw [List.mapM_nil]
    constructor
    · intro h
      exact ⟨by simp, (Except.ok.inj h).symm⟩
    · rintro ⟨-, rfl⟩
      rfl
  | cons c columns ih =>
    rw [List.mapM_cons, keyValue_eq]
    cases hn : (row.value c).isNull with
    | true =>
      refine iff_of_false (fun h => by cases h) fun h => ?_
      simpa [hn] using h.1 c List.mem_cons_self
    | false =>
      cases hm : columns.mapM (t.keyValue row) with
      | error e =>
        refine iff_of_false (fun h => by cases h) fun h => ?_
        have hok := ih.2 ⟨fun x hx => h.1 x (List.mem_cons_of_mem _ hx), rfl⟩
        cases hm.symm.trans hok
      | ok vs =>
        obtain ⟨hall, rfl⟩ := ih.1 hm
        constructor
        · intro h
          refine ⟨fun x hx => ?_, (Except.ok.inj h).symm⟩
          rcases List.mem_cons.1 hx with rfl | hx
          · exact hn
          · exact hall x hx
        · rintro ⟨-, rfl⟩
          rfl

theorem keyOf_eq_ok_iff {row : Row} {key : List Json} :
    t.keyOf row = .ok key ↔ t.FullKey row ∧ key = t.primaryKey.map row.value :=
  mapM_keyValue_eq_ok_iff

/-- Every row has a full key, and no two rows have the same one. -/
structure Keyed (t : Table) (rows : List Row) : Prop where
  full : ∀ r ∈ rows, t.FullKey r
  distinct : rows.Pairwise fun r r' => ¬ t.SameKey r r'

theorem keyed_nil (t : Table) : t.Keyed [] := ⟨by simp, .nil⟩

/-- Two rows of a keyed table with the same key stand in the same place. -/
theorem Keyed.unique {rows pre post : List Row} {r x : Row} (hk : t.Keyed rows)
    (hp : rows = pre ++ r :: post) (hx : x ∈ rows) (hs : t.SameKey x r) : x = r := by
  subst hp
  have hd := List.pairwise_append.1 hk.distinct
  rcases List.mem_append.1 hx with hx | hx
  · exact absurd hs (hd.2.2 x hx r List.mem_cons_self)
  · rcases List.mem_cons.1 hx with rfl | hx
    · rfl
    · exact absurd hs.symm ((List.pairwise_cons.1 hd.2.1).1 x hx)

theorem value_insert (r : Row) (c other : String) (v : Json) :
    Row.value (r.insert c v) other = if c = other then v else r.value other := by
  unfold Row.value
  rw [Dict.get?_insert]
  split <;> simp

theorem value_merge (row change : Row) (c : String) :
    (merge row change).value c = ((change.get? c).or (row.get? c)).getD .null := by
  unfold merge Row.value
  rw [Dict.get?_insertMany _ change.ascending]
  rfl

/-- A merge leaves the key of a row as it is, up to structural equality. -/
theorem sameKey_merge {r row : Row} (hf : t.FullKey row) (hs : t.SameKey r row) :
    t.SameKey (merge r row) r := by
  intro c hc
  have hn := hf c hc
  have hsame := hs c hc
  rw [value_merge]
  unfold Row.value at hn hsame ⊢
  cases hg : row.get? c with
  | none => simp [hg, Json.isNull] at hn
  | some v =>
    rw [hg, Option.getD_some] at hsame
    rw [Json.same_comm]
    exact hsame

theorem fillColumn_value {now : Nat} {row r : Row} {col : Column}
    (h : t.fillColumn now row col = .ok r) {c : String} (hc : (row.value c).isNull = false) :
    r.value c = row.value c := by
  unfold fillColumn at h
  by_cases hn : (row.value col.name).isNull = true
  · rw [if_pos hn] at h
    have hne : col.name ≠ c := by
      rintro rfl
      simp [hn] at hc
    cases hd : col.default with
    | some d =>
      rw [hd] at h
      obtain rfl := Except.ok.inj h
      rw [value_insert, if_neg hne]
    | none =>
      rw [hd] at h
      by_cases ho : col.optional = true
      · simp only [ho, ↓reduceIte, Except.ok.injEq] at h
        rw [h]
      · simp [ho] at h
  · rw [if_neg hn] at h
    rw [Except.ok.inj h]

theorem fillColumns_value {now : Nat} {columns : List Column} {row r : Row}
    (h : columns.foldlM (t.fillColumn now) row = .ok r) {c : String}
    (hc : (row.value c).isNull = false) : r.value c = row.value c := by
  induction columns generalizing row with
  | nil => rw [Except.ok.inj h]
  | cons col columns ih =>
    rw [List.foldlM_cons] at h
    cases hf : t.fillColumn now row col with
    | error e => simp [hf, bind, Except.bind] at h
    | ok row' =>
      have hv := fillColumn_value hf hc
      rw [hf] at h
      exact (ih h (by rw [hv]; exact hc)).trans hv

/-- Defaults fill only what has no value. -/
theorem withDefaults_value {now : Nat} {row r : Row} (h : t.withDefaults now row = .ok r) {c : String}
    (hc : (row.value c).isNull = false) : r.value c = row.value c :=
  fillColumns_value h hc

end Table
end RowGuard
