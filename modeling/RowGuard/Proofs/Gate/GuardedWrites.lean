import RowGuard.Proofs.Gate.KeyAgreement

/-! # Guarded writes change permitted rows

A guarded write with its default body, in a transaction of its own, changes at most one row, and only
as its predicate permits: a row that is updated or deleted is permitted as it stood, and a row that is
added is permitted as it is stored.  This takes that no stored row is confused with the key of the
arguments.
-/
namespace RowGuard

/-- A write changes at most one row of a table: `P` holds for a row that is updated or deleted, as it
stood, and for a row that is added. -/
inductive RowChange (P : Row → Prop) (rows : List Row) : Action → List Row → Prop where
  | none (a : Action) : RowChange P rows a rows
  | updated {a : Action} {pre post : List Row} {r : Row} (ha : a = .update ∨ a = .upsert)
      (hrows : rows = pre ++ r :: post) (hr : P r) (r' : Row) :
      RowChange P rows a (pre ++ r' :: post)
  | deleted {pre post : List Row} {r : Row} (hrows : rows = pre ++ r :: post) (hr : P r) :
      RowChange P rows .delete (pre ++ post)
  | added {a : Action} {r : Row} (ha : a = .insert ∨ a = .upsert) (hr : P r) :
      RowChange P rows a (rows ++ [r])

namespace Table.Written
variable {t : Table} {rows rows' : List Row} {row : Row} {a : Action} {p : Option Permit}

/-- A write after the check changes what the check was about. -/
theorem rowChange (hw : t.Written rows row a rows') (ha : a ≠ .insert) (hk : t.Keyed rows)
    (hf : t.FullKey row) (hn : ∀ r ∈ rows, ¬ t.Confuses (t.primaryKey.map row.value) r)
    (had : ∃ r ∈ rows, Permit.Admits (t.primaryKey.map fun c => (c, row.value c)) r p) :
    RowChange (fun r => Permit.Allows r p) rows a rows' := by
  obtain ⟨r, hr, had⟩ := had
  -- A row with the key of the arguments is permitted, and it is there unless all rows are permitted.
  have hallow : ∀ x ∈ rows, t.SameKey x row → Permit.Allows x p := by
    intro x hx hsx
    obtain hall | ⟨hallow, hsr⟩ := had.sameKey hf (hn r hr)
    · exact hall x
    · obtain ⟨pre, post, hp⟩ := List.append_of_mem hr
      obtain rfl : x = r := hk.unique hp hx (hsx.trans hsr.symm)
      exact hallow
  cases hw with
  | @added _ x hadd hnone hx =>
    obtain hall | ⟨-, hsr⟩ := had.sameKey hf (hn r hr)
    · exact .added hadd (hall x)
    · exact absurd hsr (hnone r hr)
  | @merged _ pre post x hmerge hp hx =>
    exact .updated hmerge hp (hallow x (by simp [hp]) hx) _
  | @removed pre post x hp hx => exact .deleted hp (hallow x (by simp [hp]) hx)
  | kept => exact .none a

/-- A check after an insert is about the row that was added. -/
theorem rowChange_insert (hw : t.Written rows row .insert rows') (hf : t.FullKey row)
    (hn : ∀ r ∈ rows, ¬ t.Confuses (t.primaryKey.map row.value) r)
    (had : ∃ r ∈ rows', Permit.Admits (t.primaryKey.map fun c => (c, row.value c)) r p) :
    RowChange (fun r => Permit.Allows r p) rows .insert rows' := by
  cases hw with
  | @added _ x hadd hnone hx =>
    obtain ⟨r, hr, had⟩ := had
    have hxn : ¬ t.Confuses (t.primaryKey.map row.value) x := fun hc => by
      have hkey := (hasKey_iff hf x).2 hx
      simp [hc.not_hasKey hf.key] at hkey
    rcases List.mem_append.1 hr with hr | hr
    · obtain hall | ⟨-, hsr⟩ := had.sameKey hf (hn r hr)
      · exact .added hadd (hall x)
      · exact absurd hsr (hnone r hr)
    · obtain rfl := List.mem_singleton.1 hr
      exact .added hadd had.allows.1
  | merged hm => simp at hm
  | kept hm => simp at hm

end Table.Written

/-- A program that acts through the transaction of an invocation can end successfully only with
working tables for which `Q` holds, from the checks passed so far and the given working tables. -/
inductive Program.Ensures (schema : Schema) (i : Invocation) (Q : Tables → Prop) :
    Checked → Tables → Program (Outcome Unit) → Prop where
  | ok {c : Checked} {W : Tables} (hq : Q W) : Ensures schema i Q c W (.done (.ok ()))
  | fail (c : Checked) (W : Tables) (e : Failure) : Ensures schema i Q c W (.done (.error e))
  | mutate {c : Checked} {W : Tables} {table : String} {a : Action} {row : Row}
      {next : Outcome Unit → Program (Outcome Unit)}
      (hok : ∀ now W', schema.write now W table a row = .ok W' →
        Ensures schema i Q c W' (next (.ok ())))
      (herror : ∀ e, Ensures schema i Q c W (next (.error e))) :
      Ensures schema i Q c W (.ask (.mutate i.tx table a row) next)
  | checked {c : Checked} {W : Tables} {next : Checked → Program (Outcome Unit)}
      (h : Ensures schema i Q c W (next c)) : Ensures schema i Q c W (.ask .checked next)
  | can {c : Checked} {W : Tables} {g : Gate} {w : Where} {x : Subject}
      {next : Outcome Unit → Program (Outcome Unit)}
      (hok : ∀ c' k, (g.can i.actor i.actor (schema.execute W) w x).result = .ok k →
        Ensures schema i Q c' W (next (.ok ())))
      (herror : ∀ c' e, Ensures schema i Q c' W (next (.error e))) :
      Ensures schema i Q c W (.ask (.can g w x) next)

section Ensures
variable {schema : Schema} {i : Invocation} {Q : Tables → Prop} {W : Tables}

/-- The automatic check of a mutation that has not passed any check asks the gate. -/
theorem automaticCheck_ensures {table : String} {w : Where} {x : Subject}
    {f : Outcome Unit → Program (Outcome Unit)} (hs : i.environment = .server)
    (hok : ∀ c k, (i.gate.can i.actor i.actor (schema.execute W) w x).result = .ok k →
      Program.Ensures schema i Q c W (f (.ok ())))
    (herror : ∀ c e, Program.Ensures schema i Q c W (f (.error e))) :
    Program.Ensures schema i Q [] W ((automaticCheck table w x i).bind f) := by
  simp only [automaticCheck, hs, Program.bind, Program.request]
  apply Program.Ensures.checked
  simp only [Checked.covers_nil, Bool.false_eq_true, ↓reduceIte, Program.bind]
  exact .can hok herror

theorem writeRow_ensures {table : String} {a : Action} {args : Json} {c : Checked}
    {f : Outcome Unit → Program (Outcome Unit)}
    (hok : ∀ row now W', args.toRow? = some row → schema.write now W table a row = .ok W' →
      Program.Ensures schema i Q c W' (f (.ok ())))
    (herror : ∀ e, Program.Ensures schema i Q c W (f (.error e))) :
    Program.Ensures schema i Q c W ((writeRow table a i args).bind f) := by
  unfold writeRow
  cases hrow : args.toRow? with
  | none => exact herror _
  | some row => exact .mutate (fun now W' hw => hok row now W' hrow hw) herror

/-- A guarded write with its default body on the server: the gate has opened, before the write or
after it, and the write has succeeded. -/
theorem guardedWrite_ensures {table : String} {w : Where} {a : Action} {args : Json}
    (hs : i.environment = .server)
    (hQ : ∀ row now W' k, args.toRow? = some row → schema.write now W table a row = .ok W' →
      (i.gate.can i.actor i.actor (schema.execute (if a = .insert then W' else W)) w
        (.row row)).result = .ok k → Q W') :
    Program.Ensures schema i Q [] W (guardedWrite table w a none i args) := by
  by_cases ha : a = .insert
  · subst ha
    refine writeRow_ensures (fun row now W' hrow hw => ?_) fun e => .fail _ _ e
    have hchk : Program.Ensures schema i Q [] W'
        ((automaticCheck table w (.ofJson args) i).bind .done) :=
      automaticCheck_ensures hs (fun c k hk => ?_) fun c e => .fail c W' e
    · rwa [Program.bind_done] at hchk
    · rw [Subject.ofJson_of_toRow? hrow] at hk
      exact .ok (hQ row now W' k hrow hw (by simpa using hk))
  · rw [guardedWrite_of_ne_insert ha]
    refine automaticCheck_ensures hs (fun c k hk => ?_) fun c e => .fail c W e
    have hwr : Program.Ensures schema i Q c W ((writeRow table a i args).bind .done) :=
      writeRow_ensures (fun row now W' hrow hw => ?_) fun e => .fail c W e
    · rwa [Program.bind_done] at hwr
    · rw [Subject.ofJson_of_toRow? hrow] at hk
      exact .ok (hQ row now W' k hrow hw (by simpa [ha] using hk))

end Ensures

/-- Values by table, of which some are known to be primary key values there. -/
abbrev KeyValues := String → Json → Prop

namespace KeyValues
variable {K : KeyValues} {schema : Schema} {T T' : Tables} {table : String} {t : Table} {row : Row}

/-- No two values of a table are twins. -/
def Apart (K : KeyValues) : Prop := ∀ table v v', K table v → K table v' → ¬ v.NumericTwins v'

/-- The key columns of the rows hold known values, up to structural equality. -/
def Cover (K : KeyValues) (schema : Schema) (T : Tables) : Prop :=
  ∀ table t, schema.table? table = some t → ∀ r ∈ T.rows table, ∀ c ∈ t.primaryKey,
    ∃ v, K table v ∧ (r.value c).same v = true

/-- Keys that are apart are not confused. -/
theorem Cover.not_confuses (hk : K.Apart) (hT : K.Cover schema T) (ht : schema.table? table = some t)
    (hrow : ∀ c ∈ t.primaryKey, K table (row.value c)) {r : Row} (hr : r ∈ T.rows table) :
    ¬ t.Confuses (t.primaryKey.map row.value) r := by
  rintro ⟨-, e, he, htwins⟩
  rw [Table.zip_map_value] at he
  obtain ⟨c, hc, rfl⟩ := List.mem_map.1 he
  obtain ⟨v, hv, hs⟩ := hT table t ht r hr c hc
  exact hk table v _ hv (hrow c hc) (htwins.congr hs (Json.same_refl _))

theorem Cover.write {now : Nat} {a : Action} (hT : K.Cover schema T)
    (hrow : ∀ t, schema.table? table = some t → ∀ c ∈ t.primaryKey, K table (row.value c))
    (hw : schema.write now T table a row = .ok T') : K.Cover schema T' := by
  obtain ⟨t, rows', ht, -, hf, hwr, rfl⟩ := Schema.write_written hw
  intro other u hu r hr
  rw [Tables.rows_setRows] at hr
  by_cases hn : table = other
  · subst hn
    rw [if_pos rfl] at hr
    obtain rfl : t = u := Option.some.inj (ht.symm.trans hu)
    have hold : ∀ x ∈ T.rows table, ∀ c ∈ t.primaryKey, ∃ v, K table v ∧ (x.value c).same v = true :=
      hT table t ht
    have hnew : ∀ x, t.SameKey x row → ∀ c ∈ t.primaryKey,
        ∃ v, K table v ∧ (x.value c).same v = true :=
      fun x hx c hc => ⟨_, hrow t ht c hc, hx c hc⟩
    cases hwr with
    | @added _ x ha hnone hx =>
      rcases List.mem_append.1 hr with hr | hr
      · exact hold r hr
      · obtain rfl := List.mem_singleton.1 hr
        exact hnew r hx
    | @merged _ pre post x ha hp hx =>
      rcases List.mem_append.1 hr with hr | hr
      · exact hold r (by simp [hp, hr])
      · rcases List.mem_cons.1 hr with rfl | hr
        · exact hnew _ ((Table.sameKey_merge hf hx).trans hx)
        · exact hold r (by simp [hp, hr])
    | @removed pre post x hp hx =>
      apply hold r
      rw [hp]
      rcases List.mem_append.1 hr with hr | hr <;> simp [hr]
    | kept ha hnone => exact hold r hr
  · rw [if_neg hn] at hr
    exact hT other u hu r hr

end KeyValues

/-- A guarded write that has succeeded has changed at most one row, as its predicate permits. -/
theorem rowChange_of_write {schema : Schema} {i : Invocation} {T T' : Tables} {table : String}
    {w : Where} {a : Action} {row : Row} {now : Nat} {K : KeyValues} {k : Option String}
    (hs : i.environment = .server) (hb : Gate.bypasses i.identity = false)
    (hg : i.gate.schema = schema) (hkeyed : schema.Keyed T) (hK : K.Apart) (hT : K.Cover schema T)
    (hrow : ∀ t, schema.table? table = some t → ∀ c ∈ t.primaryKey, K table (row.value c))
    (hw : schema.write now T table a row = .ok T')
    (hcan : (i.gate.can i.actor i.actor (schema.execute (if a = .insert then T' else T))
      (w.withTable table) (.row row)).result = .ok k) :
    (∀ other, other ≠ table → T'.rows other = T.rows other) ∧
      RowChange (fun r => Permit.Allows r (w.decide i.actor table i.identity)) (T.rows table) a
        (T'.rows table) := by
  obtain ⟨t, rows', ht, -, hf, hwr, rfl⟩ := Schema.write_written hw
  have hn : ∀ r ∈ T.rows table, ¬ t.Confuses (t.primaryKey.map row.value) r :=
    fun r hr => hT.not_confuses hK ht (hrow t ht) hr
  rw [← hg] at hcan ht
  obtain ⟨kv, hkv, had⟩ := (Gate.can_eq_ok_iff hs hb rfl ht).1 ⟨k, hcan⟩
  obtain rfl : kv = _ := Except.ok.inj (hkv.symm.trans (Subject.keyValues_row hf))
  refine ⟨fun other ho => by rw [Tables.rows_setRows, if_neg (Ne.symm ho)], ?_⟩
  rw [Tables.rows_setRows, if_pos rfl]
  by_cases ha : a = .insert
  · subst ha
    rw [if_pos rfl, Tables.rows_setRows, if_pos rfl] at had
    exact hwr.rowChange_insert hf hn had
  · rw [if_neg ha] at had
    exact hwr.rowChange ha (hkeyed table t (hg ▸ ht)) hf hn had

end RowGuard
