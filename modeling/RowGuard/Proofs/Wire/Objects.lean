import RowGuard.Wire.Decode
import RowGuard.Proofs.Store.Keys

/-! # Reading back an object

An object is built from a list of fields, and a decoder finds each part under its name again.  Lists,
maps and parts that may be absent are read back if what they hold is.
-/
namespace RowGuard

namespace Dict
variable {α β : Type}

theorem get?_insertMany_or (d : Dict α) (entries : List (String × α)) (name : String) :
    (d.insertMany entries).get? name = ((ofList entries).get? name).or (d.get? name) := by
  induction entries generalizing d with
  | nil => rfl
  | cons e rest ih =>
    have hd := ih (d.insert e.1 e.2)
    have hempty := ih (empty.insert e.1 e.2)
    rw [get?_insert] at hd hempty
    rw [ofList, insertMany, insertMany, List.foldl_cons, List.foldl_cons, ← insertMany, ← insertMany,
      hd, hempty]
    by_cases hn : e.1 = name
    · simp [hn]
    · simp [hn]

@[simp] theorem get?_ofList_nil (name : String) : (ofList ([] : List (String × α))).get? name = none :=
  rfl

@[simp] theorem get?_ofList_cons (name key : String) (value : α) (rest : List (String × α)) :
    (ofList ((key, value) :: rest)).get? name =
      ((ofList rest).get? name).or (if key = name then some value else none) := by
  have h := get?_insertMany_or (empty.insert key value) rest name
  rw [get?_insert] at h
  exact h

@[simp] theorem get?_ofList_append (name : String) (l l' : List (String × α)) :
    (ofList (l ++ l')).get? name = ((ofList l').get? name).or ((ofList l).get? name) := by
  have h : ofList (l ++ l') = (ofList l).insertMany l' := List.foldl_append
  rw [h, get?_insertMany_or]

/-- A field that is there only if it has a value. -/
@[simp] theorem get?_ofList_toList (o : Option β) (key name : String) (f : β → α) :
    (ofList (o.map fun x => (key, f x)).toList).get? name = if key = name then o.map f else none := by
  cases o <;> simp

@[simp] theorem get?_ofList_ite (p : Prop) [Decidable p] (name : String) (l : List (String × α)) :
    (ofList (if p then [] else l)).get? name = if p then none else (ofList l).get? name := by
  split <;> rfl

theorem findEntry_entries (d : Dict α) (name : String) : findEntry name d.entries = d.get? name :=
  rfl

end Dict

namespace Wire
variable {α β : Type} {encode : α → Json} {decode : Decoder α}

/-- What a decoder makes of encoded values is what was encoded. -/
def ReadsBack (encode : α → Json) (decode : Decoder α) : Prop := ∀ x, decode (encode x) = .ok x

@[simp] theorem ok_bind {ε : Type} (x : α) (f : α → Except ε β) : (Except.ok x >>= f) = f x := rfl

@[simp] theorem pure_eq_ok {ε : Type} (x : α) : (pure x : Except ε α) = .ok x := rfl

@[simp] theorem string_str (s : String) : string (.str s) = .ok s := rfl

@[simp] theorem bool_bool (b : Bool) : bool (.bool b) = .ok b := rfl

@[simp] theorem natural_ofNat (what : String) (n : Nat) : natural what (.ofNat n) = .ok n := rfl

@[simp] theorem value_eq (v : Json) : value v = .ok v := rfl

theorem mapM_map_ok {ε : Type} {f : β → Except ε α} {g : α → β} (h : ∀ x, f (g x) = .ok x)
    (xs : List α) : (xs.map g).mapM f = .ok xs := by
  induction xs with
  | nil => rfl
  | cons x xs ih =>
    rw [List.map_cons, List.mapM_cons, h x, ih]
    rfl

theorem list_arr (h : ReadsBack encode decode) (xs : List α) :
    list decode (.arr (xs.map encode)) = .ok xs := mapM_map_ok h xs

theorem dict_obj (h : ReadsBack encode decode) (d : Dict α) :
    dict decode (.obj (d.mapValues encode).entries) = .ok d := by
  simp only [dict, Dict.mapValues]
  rw [mapM_map_ok fun e => by simp [h e.2]]
  simp [Dict.ofList_entries]

@[simp] theorem row_ofRow (r : Row) : row (.ofRow r) = .ok r := by
  have hmap : r.mapValues id = r := Dict.ext_get? fun name => by simp [Dict.get?, Dict.mapValues]
  have h : dict value (.obj (r.mapValues id).entries) = .ok r := dict_obj (fun _ => rfl) r
  rwa [hmap] at h

@[simp] theorem option_ofString? (s : Option String) : option string (.ofString? s) = .ok s := by
  cases s <;> rfl

namespace Parts

/-- The parts of an object that is built from fields. -/
def ofObject (fields : List (String × Json)) (name : String) (count : Nat) : Parts :=
  ⟨.inl (Dict.ofList fields).entries, name, count⟩

variable {fields : List (String × Json)} {name part : String} {count i : Nat}

@[simp] theorem get?_ofObject :
    (ofObject fields name count).get? i part = (Dict.ofList fields).get? part := rfl

/-- A part of an object that may be missing or null is read as none in both cases. -/
theorem optional_ofObject (o : Option α) (h : ReadsBack encode decode)
    (hn : ∀ x, encode x ≠ .null) (hf : (Dict.ofList fields).get? part = o.map encode ∨
      (Dict.ofList fields).get? part = some ((o.map encode).getD .null)) :
    (ofObject fields name count).optional i part decode = .ok o := by
  have hoption : ∀ x, option decode (encode x) = .ok (some x) := by
    intro x
    have hx := hn x
    rw [option, h x]
    · rfl
    · exact hx
  unfold optional defaulted
  rw [get?_ofObject]
  cases o with
  | none => rcases hf with hf | hf <;> simp [hf, option]
  | some x => rcases hf with hf | hf <;> simp [hf, hoption]

theorem forM_ok {f : β → Except String Unit} {xs : List β} (h : ∀ x ∈ xs, f x = .ok ()) :
    xs.forM f = .ok () := by
  induction xs with
  | nil => rfl
  | cons x xs ih =>
    have hrest := ih fun y hy => h y (List.mem_cons_of_mem x hy)
    show (f x).bind (fun _ => xs.forM f) = .ok ()
    rw [h x List.mem_cons_self]
    exact hrest

/-- A screen lets an object through whose fields pass their own checks. -/
theorem screen_ofObject {checks : List (String × (Json → Except String Unit))}
    (h : ∀ e ∈ fields, (checks.lookup e.1).elim (.ok ()) (· e.2) = .ok ()) :
    (ofObject fields name count).screen checks = .ok () := by
  apply forM_ok
  rintro ⟨k, v⟩ he
  have hcheck := h (k, v) (Dict.mem_of_mem_ofList he)
  dsimp only
  cases hc : checks.lookup k with
  | none => rfl
  | some check => simpa [hc] using hcheck

end Parts

theorem record_object {fields : List (String × Json)} {name : String} {count : Nat}
    {build : Parts → Except String α} :
    record name count build (.object fields) = build (.ofObject fields ("struct " ++ name) count) := by
  show (build (.ofObject fields ("struct " ++ name) count)).bind _ = _
  cases build (.ofObject fields ("struct " ++ name) count) <;> rfl

theorem variant_object {fields : List (String × Json)} {name : String} {count : Nat}
    {build : Parts → Except String α} :
    variant name count (.inl (Dict.ofList fields).entries) build =
      build (.ofObject fields ("struct variant " ++ name) count) := by
  show (build (.ofObject fields ("struct variant " ++ name) count)).bind _ = _
  cases build (.ofObject fields ("struct variant " ++ name) count) <;> rfl

/-- The tag of an object tells the choice, and all fields stay beside it. -/
theorem tagged_object {fields : List (String × Json)} {name tag : String}
    {choices : List (String × α)} {buffered : Bool} {s : String} {a : α}
    (ht : (Dict.ofList fields).get? tag = some (.str s)) (ha : choices.lookup s = some a) :
    tagged name tag choices buffered (.object fields) =
      .ok (a, .inl (Dict.ofList fields).entries) := by
  have ht : findEntry tag (Dict.ofList fields).entries = some (.str s) := ht
  simp [tagged, Json.object, ht, tagName, nameOf, ha, Except.map]

end Wire
end RowGuard
