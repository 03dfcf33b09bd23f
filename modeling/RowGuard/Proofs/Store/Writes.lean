import RowGuard.Proofs.Store.Keys

/-! # What a write does

`Table.Written` lists what a successful write can make of the rows of its table.  Each case keeps
the table keyed, and so every reachable store is.
-/
namespace RowGuard

theorem modifyFirst_eq {α : Type} {test : α → Bool} {f : α → α} {xs : List α}
    (h : xs.any test = true) : ∃ pre x post, xs = pre ++ x :: post ∧ test x = true ∧
      modifyFirst test f xs = pre ++ f x :: post := by
  induction xs with
  | nil => simp at h
  | cons y ys ih =>
    by_cases hy : test y = true
    · exact ⟨[], y, ys, rfl, hy, by simp [modifyFirst, hy]⟩
    · obtain ⟨pre, x, post, rfl, hx, he⟩ := ih (by simpa [hy] using h)
      exact ⟨y :: pre, x, post, rfl, hx, by simp [modifyFirst, hy, he]⟩

namespace Table
variable {t : Table}

/-- What a successful write of `row` can make of the rows of a table. -/
inductive Written (t : Table) (rows : List Row) (row : Row) : Action → List Row → Prop where
  | added {a : Action} {r : Row} (ha : a = .insert ∨ a = .upsert)
      (hn : ∀ x ∈ rows, ¬ t.SameKey x row) (hr : t.SameKey r row) : Written t rows row a (rows ++ [r])
  | merged {a : Action} {pre post : List Row} {r : Row} (ha : a = .update ∨ a = .upsert)
      (hp : rows = pre ++ r :: post) (hr : t.SameKey r row) :
      Written t rows row a (pre ++ merge r row :: post)
  | removed {pre post : List Row} {r : Row} (hp : rows = pre ++ r :: post) (hr : t.SameKey r row) :
      Written t rows row .delete (pre ++ post)
  | kept {a : Action} (ha : a = .update ∨ a = .delete) (hn : ∀ x ∈ rows, ¬ t.SameKey x row) :
      Written t rows row a rows

theorem any_hasKey {row : Row} (hf : t.FullKey row) {rows : List Row} :
    rows.any (t.hasKey (t.primaryKey.map row.value)) = true ↔ ∃ x ∈ rows, t.SameKey x row := by
  simp only [List.any_eq_true, hasKey_iff hf]

theorem append_written {now : Nat} {rows rows' : List Row} {row : Row} {a : Action}
    (hf : t.FullKey row) (ha : a = .insert ∨ a = .upsert) (hn : ∀ x ∈ rows, ¬ t.SameKey x row)
    (h : t.append now rows row = .ok rows') : t.Written rows row a rows' := by
  unfold append at h
  cases hd : t.withDefaults now row with
  | error e => simp [hd, Except.map] at h
  | ok r =>
    rw [hd] at h
    obtain rfl : rows ++ [r] = rows' := Except.ok.inj h
    refine .added ha hn fun c hc => ?_
    rw [withDefaults_value hd (hf c hc)]
    exact Json.same_refl _

theorem modifyFirst_written {rows : List Row} {row : Row} {a : Action} (hf : t.FullKey row)
    (ha : a = .update ∨ a = .upsert)
    (hx : rows.any (t.hasKey (t.primaryKey.map row.value)) = true) :
    t.Written rows row a
      (modifyFirst (t.hasKey (t.primaryKey.map row.value)) (merge · row) rows) := by
  obtain ⟨pre, r, post, hp, hr, he⟩ := modifyFirst_eq (f := (merge · row)) hx
  rw [he]
  exact .merged ha hp ((hasKey_iff hf r).1 hr)

theorem eraseP_written {rows : List Row} {row : Row} (hf : t.FullKey row)
    (hx : rows.any (t.hasKey (t.primaryKey.map row.value)) = true) :
    t.Written rows row .delete (rows.eraseP (t.hasKey (t.primaryKey.map row.value))) := by
  obtain ⟨x, hxm, hxk⟩ := List.any_eq_true.1 hx
  obtain ⟨r, pre, post, -, hr, hp, he⟩ := List.exists_of_eraseP hxm hxk
  rw [he]
  exact .removed hp ((hasKey_iff hf r).1 hr)

theorem applyAt_written {now : Nat} {name : String} {rows rows' : List Row} {a : Action} {row : Row}
    (hf : t.FullKey row)
    (h : t.applyAt now name rows a row (t.primaryKey.map row.value) = .ok rows') :
    t.Written rows row a rows' := by
  unfold applyAt at h
  cases hx : rows.any (t.hasKey (t.primaryKey.map row.value)) with
  | false =>
    have hn : ∀ x ∈ rows, ¬ t.SameKey x row := fun x hxm hs => by
      simpa [hx] using (any_hasKey hf).2 ⟨x, hxm, hs⟩
    rw [hx] at h
    cases a with
    | insert => exact append_written hf (.inl rfl) hn h
    | upsert => exact append_written hf (.inr rfl) hn h
    | update => exact Except.ok.inj h ▸ .kept (.inl rfl) hn
    | delete => exact Except.ok.inj h ▸ .kept (.inr rfl) hn
  | true =>
    rw [hx] at h
    cases a with
    | insert => cases h
    | upsert => exact Except.ok.inj h ▸ modifyFirst_written hf (.inr rfl) hx
    | update => exact Except.ok.inj h ▸ modifyFirst_written hf (.inl rfl) hx
    | delete => exact Except.ok.inj h ▸ eraseP_written hf hx

theorem applyTo_written {now : Nat} {name : String} {rows rows' : List Row} {a : Action} {row : Row}
    (h : t.applyTo now name rows a row = .ok rows') :
    t.checkColumns row = .ok () ∧ t.FullKey row ∧ t.Written rows row a rows' := by
  unfold applyTo at h
  cases hc : t.checkColumns row with
  | error e => simp [hc, bind, Except.bind] at h
  | ok u =>
    cases hk : t.keyOf row with
    | error e => simp [hc, hk, bind, Except.bind] at h
    | ok key =>
      obtain ⟨hf, rfl⟩ := keyOf_eq_ok_iff.1 hk
      rw [hc, hk] at h
      exact ⟨rfl, hf, applyAt_written hf h⟩

/-- A write of declared columns with a full key comes to the choice between its cases. -/
theorem applyTo_eq (now : Nat) (name : String) (rows : List Row) (a : Action) {row : Row}
    (hc : t.checkColumns row = .ok ()) (hf : t.FullKey row) :
    t.applyTo now name rows a row =
      t.applyAt now name rows a row (t.primaryKey.map row.value) := by
  have hk : t.keyOf row = .ok (t.primaryKey.map row.value) := keyOf_eq_ok_iff.2 ⟨hf, rfl⟩
  simp [applyTo, hc, hk, bind, Except.bind]

/-- An update, an upsert or a delete of a row that is there succeeds. -/
theorem applyTo_of_found (now : Nat) (name : String) {rows : List Row} {a : Action} {row : Row}
    (ha : a ≠ .insert) (hc : t.checkColumns row = .ok ()) (hf : t.FullKey row)
    (hx : ∃ x ∈ rows, t.SameKey x row) : ∃ rows', t.applyTo now name rows a row = .ok rows' := by
  have hx := (any_hasKey hf).2 hx
  rw [applyTo_eq now name rows a hc hf]
  cases a with
  | insert => exact absurd rfl ha
  | _ => exact ⟨_, by simp [applyAt, hx]; rfl⟩

/-- A row that a write takes away has the key that the write names. -/
theorem Written.sameKey_of_gone {rows rows' : List Row} {row r : Row} {a : Action}
    (hw : t.Written rows row a rows') (hr : r ∈ rows) (hg : r ∉ rows') : t.SameKey r row := by
  cases hw with
  | added ha hn hs => exact absurd (List.mem_append_left _ hr) hg
  | @merged _ pre post x ha hp hs =>
    subst hp
    obtain rfl : r = x := by simp_all
    exact hs
  | @removed pre post x hp hs =>
    subst hp
    obtain rfl : r = x := by simp_all
    exact hs
  | kept => exact absurd hr hg

section Keyed
variable {rows rows' pre post : List Row} {r r' row : Row}

theorem Keyed.not_mem (hk : t.Keyed (pre ++ r :: post)) : r ∉ pre ++ post := by
  have hd := List.pairwise_append.1 hk.distinct
  intro hm
  rcases List.mem_append.1 hm with hm | hm
  · exact hd.2.2 r hm r List.mem_cons_self (.refl t r)
  · exact (List.pairwise_cons.1 hd.2.1).1 r hm (.refl t r)

theorem Keyed.append (hk : t.Keyed rows) (hf : t.FullKey row) (hr : t.SameKey r row)
    (hn : ∀ x ∈ rows, ¬ t.SameKey x row) : t.Keyed (rows ++ [r]) := by
  constructor
  · intro x hx
    rcases List.mem_append.1 hx with hx | hx
    · exact hk.full x hx
    · obtain rfl := List.mem_singleton.1 hx
      exact hf.of_sameKey hr
  · refine List.pairwise_append.2 ⟨hk.distinct, List.pairwise_singleton .., fun x hx y hy hs => ?_⟩
    obtain rfl := List.mem_singleton.1 hy
    exact hn x hx (hs.trans hr)

theorem Keyed.replace (hk : t.Keyed (pre ++ r :: post)) (hs : t.SameKey r' r) :
    t.Keyed (pre ++ r' :: post) := by
  have hd := List.pairwise_append.1 hk.distinct
  have hp := List.pairwise_cons.1 hd.2.1
  constructor
  · intro x hx
    rcases List.mem_append.1 hx with hx | hx
    · exact hk.full x (by simp [hx])
    · rcases List.mem_cons.1 hx with rfl | hx
      · exact (hk.full r (by simp)).of_sameKey hs
      · exact hk.full x (by simp [hx])
  · refine List.pairwise_append.2 ⟨hd.1, List.pairwise_cons.2 ⟨fun x hx h => ?_, hp.2⟩, ?_⟩
    · exact hp.1 x hx (hs.symm.trans h)
    · intro x hx y hy h
      rcases List.mem_cons.1 hy with rfl | hy
      · exact hd.2.2 x hx r List.mem_cons_self (h.trans hs)
      · exact hd.2.2 x hx y (List.mem_cons_of_mem _ hy) h

theorem Keyed.remove (hk : t.Keyed (pre ++ r :: post)) : t.Keyed (pre ++ post) := by
  have hsub : (pre ++ post).Sublist (pre ++ r :: post) :=
    (List.Sublist.refl pre).append (List.sublist_cons_self r post)
  exact ⟨fun x hx => hk.full x (hsub.subset hx), hk.distinct.sublist hsub⟩

theorem Written.keyed {a : Action} (hw : t.Written rows row a rows') (hk : t.Keyed rows)
    (hf : t.FullKey row) : t.Keyed rows' := by
  cases hw with
  | added ha hn hr => exact hk.append hf hr hn
  | merged ha hp hr =>
    subst hp
    exact hk.replace (sameKey_merge hf hr)
  | removed hp hr =>
    subst hp
    exact hk.remove
  | kept => exact hk

end Keyed
end Table

namespace Schema
variable {s : Schema}

theorem write_written {now : Nat} {ts ts' : Tables} {table : String} {a : Action} {row : Row}
    (h : s.write now ts table a row = .ok ts') : ∃ t rows', s.table? table = some t ∧
      t.checkColumns row = .ok () ∧ t.FullKey row ∧ t.Written (ts.rows table) row a rows' ∧
      ts' = ts.setRows table rows' := by
  unfold write at h
  cases ht : s.require table with
  | error e => simp [ht, bind, Except.bind] at h
  | ok t =>
    cases ha : t.applyTo now table (ts.rows table) a row with
    | error e => simp [ht, ha, bind, Except.bind] at h
    | ok rows' =>
      obtain ⟨hc, hf, hw⟩ := Table.applyTo_written ha
      rw [ht] at h
      simp only [bind, Except.bind, ha] at h
      exact ⟨t, rows', require_eq_ok_iff.1 ht, hc, hf, hw, (Except.ok.inj h).symm⟩

/-- Every table is keyed. -/
def Keyed (s : Schema) (ts : Tables) : Prop :=
  ∀ name t, s.table? name = some t → t.Keyed (ts.rows name)

theorem keyed_empty (s : Schema) : s.Keyed .empty := fun _ t _ => t.keyed_nil

theorem Keyed.write {now : Nat} {ts ts' : Tables} {table : String} {a : Action} {row : Row}
    (hk : s.Keyed ts) (h : s.write now ts table a row = .ok ts') : s.Keyed ts' := by
  obtain ⟨t, rows', ht, -, hf, hw, rfl⟩ := write_written h
  intro name u hu
  rw [Tables.rows_setRows]
  by_cases hn : table = name
  · subst hn
    obtain rfl : t = u := Option.some.inj (ht.symm.trans hu)
    simpa using hw.keyed (hk _ _ ht) hf
  · simpa [hn] using hk name u hu

/-- What every insert keeps, a seed keeps, whether it comes to its end or not. -/
theorem seed_induction {P : Tables → Prop} {now : Nat} {table : String}
    (hw : ∀ ts ts' row, s.write now ts table .insert row = .ok ts' → P ts → P ts') {ts : Tables}
    (rows : List Row) (hp : P ts) : P (s.seed now table ts rows).1 := by
  induction rows generalizing ts with
  | nil => exact hp
  | cons r rows ih =>
    unfold Schema.seed
    cases h : s.write now ts table .insert r with
    | ok ts' => exact ih (hw ts ts' r h hp)
    | error e => exact hp

end Schema

namespace Store

/-- All tables of a store, committed or in an open transaction, have a property. -/
structure All (P : Tables → Prop) (s : Store) : Prop where
  committed : P s.committed
  working : ∀ e ∈ s.working, P e.2

section All
variable {P : Tables → Prop} {s : Store} {h : Nat} {W : Tables}

theorem mem_working_of_tables? (hw : s.tables? h = some W) : (h, W) ∈ s.working := by
  obtain ⟨l₁, l₂, hl, -⟩ := List.lookup_eq_some_iff.1 hw
  simp [hl]

theorem All.tables? (hs : s.All P) (hw : s.tables? h = some W) : P W :=
  hs.working _ (mem_working_of_tables? hw)

theorem All.begin? (hs : s.All P) {s' : Store} (hb : s.begin? = some (h, s')) : s'.All P := by
  unfold Store.begin? at hb
  by_cases hl : s.locked = true
  · simp [hl] at hb
  · simp only [hl, Bool.false_eq_true, ↓reduceIte, Option.some.injEq, Prod.mk.injEq] at hb
    obtain ⟨-, rfl⟩ := hb
    refine ⟨hs.committed, fun e he => ?_⟩
    rcases List.mem_cons.1 he with rfl | he
    · exact hs.committed
    · exact hs.working e he

theorem All.setTables (hs : s.All P) (h : Nat) (hw : P W) : (s.setTables h W).All P := by
  refine ⟨hs.committed, fun e he => ?_⟩
  obtain ⟨x, hx, rfl⟩ := List.mem_map.1 he
  by_cases hxh : x.1 = h
  · simpa [hxh] using hw
  · simpa [hxh] using hs.working x hx

theorem All.release (hs : s.All P) (h : Nat) : (s.release h).All P :=
  ⟨hs.committed, fun e he => hs.working e (List.mem_filter.1 he).1⟩

theorem All.commit (hs : s.All P) (h : Nat) : (s.commit h).2.All P := by
  unfold Store.commit
  cases ht : s.tables? h with
  | none => exact hs
  | some W => exact ⟨hs.tables? ht, (hs.release h).working⟩

theorem All.rollback (hs : s.All P) (h : Nat) : (s.rollback h).2.All P := by
  unfold Store.rollback
  cases ht : s.tables? h with
  | none => exact hs
  | some W => exact hs.release h

/-- A call keeps of all tables what its own writes keep. -/
theorem All.perform (hs : s.All P) (op : Op)
    (hseed : ∀ now table ts ts' row, s.schema.write now ts table .insert row = .ok ts' →
      P ts → P ts')
    (hwrite : ∀ h w W W', op = .mutate h w → s.tables? h = some W →
      s.schema.write w.now W w.table w.action w.row = .ok W' → P W → P W') :
    (s.perform op).2.All P := by
  cases op with
  | seed now table rows =>
    exact ⟨Schema.seed_induction (hseed now table) rows hs.committed, hs.working⟩
  | begin =>
    cases hb : s.begin? with
    | none => simpa [Store.perform, hb] using hs
    | some r => simpa [Store.perform, hb] using hs.begin? hb
  | mutate h w =>
    have hm : (s.mutate w.now h w.table w.action w.row).2.All P := by
      unfold Store.mutate
      cases ht : s.tables? h with
      | none => exact hs
      | some W =>
        cases hw : s.schema.write w.now W w.table w.action w.row with
        | error e => simpa [hw] using hs
        | ok W' => simpa [hw] using hs.setTables h (hwrite h w W W' rfl ht hw (hs.tables? ht))
    simp only [Store.perform]
    split <;> simpa [*] using hm
  | commit h =>
    have hm := hs.commit h
    simp only [Store.perform]
    split <;> simpa [*] using hm
  | rollback h =>
    have hm := hs.rollback h
    simp only [Store.perform]
    split <;> simpa [*] using hm
  | drop h => exact hs.release h
  | run | execute | rows => exact hs

end All

/-- What every write keeps holds of all tables of a store after any calls, if it did before. -/
theorem All.after {P : Tables → Prop} {s : Store} (hs : s.All P)
    (hw : ∀ now table ts ts' a row, s.schema.write now ts table a row = .ok ts' → P ts → P ts')
    (ops : List Op) : (s.after ops).All P := by
  induction ops generalizing s with
  | nil => exact hs
  | cons op ops ih =>
    refine ih (hs.perform op (fun now table ts ts' => hw now table ts ts' .insert)
      fun h w W W' _ _ => hw w.now w.table W W' w.action w.row) ?_
    rw [perform_schema]
    exact hw

/-- The states of a store of a schema, from the empty one by any calls. -/
def Reachable (schema : Schema) (s : Store) : Prop := ∃ ops, s = (new schema).after ops

theorem Reachable.schema_eq {schema : Schema} {s : Store} (hs : s.Reachable schema) :
    s.schema = schema := by
  obtain ⟨ops, rfl⟩ := hs
  exact after_schema _ ops

/-- What holds of empty tables and is kept by every write holds of all tables of a store. -/
theorem Reachable.all {schema : Schema} {s : Store} (hs : s.Reachable schema) {P : Tables → Prop}
    (h0 : P .empty)
    (hw : ∀ now table ts ts' a row, schema.write now ts table a row = .ok ts' → P ts → P ts') :
    s.All P := by
  obtain ⟨ops, rfl⟩ := hs
  exact All.after ⟨h0, by simp [new]⟩ hw ops

/-- All tables of the store are keyed, committed or not. -/
structure Sound (s : Store) : Prop where
  committed : s.schema.Keyed s.committed
  working : ∀ e ∈ s.working, s.schema.Keyed e.2

theorem Sound.tables? {s : Store} (hs : s.Sound) {h : Nat} {W : Tables} (hw : s.tables? h = some W) :
    s.schema.Keyed W := All.tables? ⟨hs.committed, hs.working⟩ hw

theorem Reachable.sound {schema : Schema} {s : Store} (hs : s.Reachable schema) : s.Sound := by
  have hall := hs.all schema.keyed_empty fun _ _ _ _ _ _ h hk => hk.write h
  rw [← hs.schema_eq] at hall
  exact ⟨hall.committed, hall.working⟩

/-- Seeding, too, leaves a store steady, even while a transaction is open. -/
theorem Steady.perform {s : Store} (hs : s.Steady) (op : Op) : (s.perform op).2.Steady := by
  cases op with
  | seed now table rows =>
    rcases hs with hq | ⟨h, W, hh⟩
    · exact .inl (hq.seed now table rows)
    · exact .inr ⟨h, W, hh.working, hh.writer, hh.issued⟩
  | _ => exact (perform_change hs (by simp [Op.seeds])).steady hs

theorem Steady.issued_le {s : Store} (hs : s.Steady) (op : Op) :
    s.issued ≤ (s.perform op).2.issued := by
  cases op with
  | seed => exact Nat.le_refl _
  | _ => exact (perform_change hs (by simp [Op.seeds])).issued_le

/-- Whatever is called, a steady store stays so, and handles are given out in ascending order. -/
theorem Steady.after {s : Store} (hs : s.Steady) (ops : List Op) :
    (s.after ops).Steady ∧ s.issued ≤ (s.after ops).issued := by
  induction ops generalizing s with
  | nil => exact ⟨hs, Nat.le_refl _⟩
  | cons op ops ih =>
    obtain ⟨hs', hle⟩ := ih (hs.perform op)
    exact ⟨hs', Nat.le_trans (hs.issued_le op) hle⟩

theorem Reachable.steady {schema : Schema} {s : Store} (hs : s.Reachable schema) : s.Steady := by
  obtain ⟨ops, rfl⟩ := hs
  exact (Steady.after (.inl (quiet_new schema)) ops).1

end Store
end RowGuard
