import RowGuard.Proofs.Wire.Objects
import RowGuard.Wire.Query
import RowGuard.Wire.Schema
import RowGuard.Wire.Push

/-! # Round trips on the wire

What is encoded is read back: conditions of any depth, plans, schemas, failures, and pushes with
their answers.  So a value that decodes may have left out parts, or may have parts that are not
known; encoded once more it decodes to the same.
-/
namespace RowGuard
open Wire

/-- What is encoded is read back, and what a value decodes to is read back after it was encoded. -/
structure Wire.RoundTrips {α : Type} (encode : α → Json) (decode : Decoder α) : Prop where
  decode_encode : ∀ x, decode (encode x) = .ok x
  decode_again : ∀ v x, decode v = .ok x → decode (encode x) = .ok x

theorem Wire.ReadsBack.roundTrips {α : Type} {encode : α → Json} {decode : Decoder α}
    (h : ReadsBack encode decode) : RoundTrips encode decode := ⟨h, fun _ x _ => h x⟩

theorem Operator.readsBack (buffered : Bool) : ReadsBack encode (decode buffered) := by
  intro op
  cases op <;> rfl

theorem Operand.readsBack (buffered : Bool) : ReadsBack encode (decode buffered) := by
  intro o
  cases o with
  | column name =>
    rw [encode, decode, tagged_object (s := "column") (by simp) rfl]
    simp [variant_object, Parts.required]
  | literal v =>
    rw [encode, decode, tagged_object (s := "literal") (by simp) rfl]
    simp [variant_object, Parts.required]

namespace Condition

theorem decodeField_eq (fields : List (String × Json)) :
    decodeField fields = (findEntry "conditions" fields).map decodeList := by
  induction fields with
  | nil => rfl
  | cons e fields ih =>
    rw [decodeField, findEntry, ih]
    by_cases hk : e.1 = "conditions" <;> simp [hk]

theorem decode_object {fields : List (String × Json)} {s : String} {tag : Tag} (buffered : Bool)
    (ht : (Dict.ofList fields).get? "type" = some (.str s)) (ha : tags.lookup s = some tag) :
    decode buffered (.object fields) = ofParts (.inl (Dict.ofList fields).entries)
      (((Dict.ofList fields).get? "conditions").map decodeList) tag := by
  have htagged : Wire.tagged "Condition" "type" tags buffered (.object fields) = _ :=
    tagged_object ht ha
  rw [Json.object] at htagged ⊢
  rw [decode, htagged, decodeField_eq]
  rfl

-- The decoder follows the structure of a condition, a list of conditions at a time.
mutual
theorem decode_encode (buffered : Bool) : (c : Condition) → decode buffered c.encode = .ok c
  | .simple op l r => by
    have hop := Operator.readsBack true op
    have hl := Operand.readsBack true l
    have hr := Operand.readsBack true r
    rw [encode, decode_object buffered (s := "simple") (by simp) rfl]
    simp [ofParts, variant_object, Parts.required, hop, hl, hr]
  | .and cs => by
    have hcs := decodeAll_encodeAll cs
    rw [encode, decode_object buffered (s := "and") (by simp) rfl]
    simp [ofParts, variant_object, decodeList, hcs]
  | .or cs => by
    have hcs := decodeAll_encodeAll cs
    rw [encode, decode_object buffered (s := "or") (by simp) rfl]
    simp [ofParts, variant_object, decodeList, hcs]

theorem decodeAll_encodeAll : (cs : List Condition) → decodeAll (encodeAll cs) = .ok cs
  | [] => rfl
  | c :: cs => by
    rw [encodeAll, decodeAll, decode_encode true c, decodeAll_encodeAll cs]
    rfl
end

theorem encode_ne_null (c : Condition) : c.encode ≠ .null := by
  cases c <;> simp [encode, Json.object]

end Condition

theorem Direction.readsBack : ReadsBack encode decode := by
  intro d
  cases d <;> rfl

theorem Cursor.readsBack : ReadsBack encode decode := by
  intro c
  rw [decode, encode, record_object]
  simp [Parts.required]

namespace Plan

theorem order_readsBack : ReadsBack encodeOrder decodeOrder := by
  intro o
  have hd := Direction.readsBack o.2
  simp [encodeOrder, decodeOrder, hd]

theorem readsBack : ReadsBack encode decode := by
  intro p
  rw [decode, encode, record_object]
  generalize hfields : ([("table", Json.str p.table)] ++ _ ++ _ ++ _ ++ _) = fields
  generalize hparts : Parts.ofObject fields _ 5 = parts
  have htable : parts.required 0 "table" string = .ok p.table := by
    simp [Parts.required, ← hparts, ← hfields]
  have hwhere : parts.optional 1 "where" (Condition.decode false) = .ok p.filter := by
    rw [← hparts]
    exact Parts.optional_ofObject p.filter (Condition.decode_encode false)
      Condition.encode_ne_null (.inl (by simp [← hfields]))
  have hlimit : parts.optional 2 "limit" (natural "usize") = .ok p.limit := by
    rw [← hparts]
    exact Parts.optional_ofObject p.limit (natural_ofNat "usize") (fun _ => nofun)
      (.inl (by simp [← hfields]))
  have horder : parts.defaulted 3 "orderBy" [] (list decodeOrder) = .ok p.order := by
    have hlist := list_arr order_readsBack p.order
    by_cases ho : p.order = []
    · simp [Parts.defaulted, ← hparts, ← hfields, ho]
    · simp [Parts.defaulted, ← hparts, ← hfields, ho, hlist]
  have hstart : parts.optional 4 "start" Cursor.decode = .ok p.start := by
    rw [← hparts]
    exact Parts.optional_ofObject p.start Cursor.readsBack (fun _ => nofun)
      (.inl (by simp [← hfields]))
  rw [htable, hwhere, hlimit, horder, hstart]
  rfl

end Plan

theorem ColumnType.readsBack : ReadsBack encode decode := by
  intro t
  cases t <;> rfl

theorem ColumnDefault.readsBack : ReadsBack encode decode := by
  intro d
  cases d with
  | value v =>
    simp [encode, decode, Json.object, Dict.findEntry_entries, choice, nameOf, kinds, ofKind]
  | nowMillis => rfl

theorem Column.readsBack : ReadsBack encode decode := by
  intro c
  have htype := ColumnType.readsBack c.type
  rw [decode, encode, record_object, Parts.optional_ofObject c.default ColumnDefault.readsBack
    (fun d => by cases d <;> simp [ColumnDefault.encode, Json.object]) (.inr (by simp))]
  simp [Parts.required, Parts.defaulted, htype]

theorem Table.readsBack : ReadsBack encode decode := by
  intro t
  have hcolumns := list_arr Column.readsBack t.columns
  have hkey := list_arr (α := String) string_str t.primaryKey
  rw [decode, encode, record_object]
  simp [Parts.required, hcolumns, hkey]

theorem Schema.readsBack : ReadsBack encode decode := by
  intro s
  have htables := dict_obj Table.readsBack s.tables
  rw [decode, encode, record_object]
  simp [Parts.required, htables]

namespace Failure

theorem readsBack (buffered : Bool) : ReadsBack encode (decode buffered) := by
  intro e
  have ht : (Dict.ofList (("type", Json.str e.tag) :: e.parts)).get? "type" = some (.str e.tag) := by
    cases e <;> simp [parts]
  cases e with
  | configuration m | invalid m | mutation m =>
    rw [encode, decode, tagged_object ht rfl]
    simp [ofMessage, variant_object, Parts.required, parts]
  | denied s q =>
    rw [encode, decode, tagged_object ht rfl]
    simp only [ok_bind, variant_object]
    rw [Parts.screen_ofObject (by simp [parts, decodes, Except.map, List.lookup_cons])]
    simp [Parts.required, Parts.nullable, parts]
  | checkFailed a b | store a b =>
    rw [encode, decode, tagged_object ht rfl]
    simp only [ofStrings, ok_bind, variant_object]
    rw [Parts.screen_ofObject (by simp [parts, decodes, Except.map, List.lookup_cons])]
    simp [Parts.required, parts]
  | timeout n t =>
    rw [encode, decode, tagged_object ht rfl]
    simp only [ok_bind, variant_object]
    rw [Parts.screen_ofObject (by simp [parts, decodes, Except.map, List.lookup_cons])]
    simp [Parts.required, parts]
  | notInMutator | notLoggedIn =>
    rw [encode, decode, tagged_object ht rfl]
    rfl

end Failure

theorem PushMutation.readsBack : ReadsBack encode decode := by
  intro m
  rw [decode, encode, record_object]
  simp [Parts.required, Parts.defaulted]

theorem PushRequest.readsBack : ReadsBack encode decode := by
  intro r
  have hmutations := list_arr PushMutation.readsBack r.mutations
  rw [decode, encode, record_object]
  simp [Parts.required, hmutations]

theorem MutationOutcome.readsBack : ReadsBack encode decode := by
  intro o
  cases o with
  | ok =>
    rw [encode, decode, tagged_object (s := "ok") (by simp) rfl]
    rfl
  | error e =>
    have he := Failure.readsBack true e
    rw [encode, decode, tagged_object (s := "error") (by simp) rfl]
    simp [variant_object, Parts.required, he]

theorem MutationResult.readsBack : ReadsBack encode decode := by
  intro r
  have hresult := MutationOutcome.readsBack r.outcome
  rw [decode, encode, record_object]
  simp [Parts.required, hresult]

theorem PushResponse.readsBack : ReadsBack encode decode := by
  intro r
  have hresults := list_arr MutationResult.readsBack r.results
  rw [decode, encode, record_object]
  simp [Parts.required, hresults]

theorem wire_round_trips :
    RoundTrips Condition.encode (Condition.decode false) ∧
    RoundTrips Plan.encode Plan.decode ∧
    RoundTrips Schema.encode Schema.decode ∧
    RoundTrips Failure.encode (Failure.decode false) ∧
    RoundTrips PushRequest.encode PushRequest.decode ∧
    RoundTrips PushResponse.encode PushResponse.decode :=
  ⟨ReadsBack.roundTrips (Condition.decode_encode false), Plan.readsBack.roundTrips,
    Schema.readsBack.roundTrips, (Failure.readsBack false).roundTrips,
    PushRequest.readsBack.roundTrips, PushResponse.readsBack.roundTrips⟩

/-- A plan with an empty order, with null for its limit and with a part that is not known. -/
def wordyPlan : Json := .obj [("limit", .null), ("orderBy", .arr []), ("since", .ofNat 7),
  ("table", .str "note")]

theorem wire_round_trips_of_wordy_plan : ∃ p, Plan.decode wordyPlan = .ok p ∧
    p.encode = .obj [("table", .str "note")] ∧ Plan.decode p.encode = .ok p :=
  ⟨⟨"note", none, none, [], none⟩, rfl, rfl, wire_round_trips.2.1.decode_again wordyPlan _ rfl⟩

end RowGuard
