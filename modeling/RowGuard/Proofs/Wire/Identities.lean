import RowGuard.Proofs.Wire.Objects
import RowGuard.Wire.Identity

/-! # Reading back identities

The claims of an identity are written beside its id, role and email.  An identity is read back as it
was exactly if no claim has the name of one of these.  A claim that has takes the place of the field:
it is no claim any more on the other side, and if it is called `role`, it decides there who is an
admin.
-/
namespace RowGuard
open Wire

/-- The entries whose names pass a test. -/
theorem Dict.get?_ofList_filter {α : Type} (d : Dict α) (p : String → Bool) (name : String) :
    (ofList (d.entries.filter fun e => p e.1)).get? name =
      if p name = true then d.get? name else none := by
  have hkept : ofList (d.entries.filter fun e => p e.1) = ⟨_, d.ascending.filter _⟩ :=
    ofList_entries ⟨_, d.ascending.filter _⟩
  refine Option.ext fun v => ?_
  rw [hkept, get?_eq_some_iff, List.mem_filter, ← get?_eq_some_iff]
  by_cases hp : p name = true <;> simp [hp]

namespace Identity
variable {a b : Identity} {name : String}

/-- What an identity of an id is given. -/
inductive Trait where
  | role (role : String)
  | email (email : String)
  | claim (name : String) (v : Json)

/-- The identity with a trait. -/
def withTrait (a : Identity) : Trait → Identity
  | .role r => a.withRole r
  | .email e => a.withEmail e
  | .claim name v => a.withClaim name v

/-- The identity of an id with traits, given one after another. -/
def ofTraits (id : String) (traits : List Trait) : Identity := traits.foldl withTrait (ofId id)

/-- A value makes an admin if it is the text of the role, in any case of its letters. -/
def grantsAdmin : Json → Bool
  | .str r => sameAscii r adminRole
  | _ => false

/-- The claims that do not have the name of a field. -/
def unreserved (a : Identity) : Dict Json :=
  .ofList (a.claims.entries.filter fun f => !ownNames.contains f.1)

/-! ### Claims -/

theorem claim?_foldl_eq_none_iff (traits : List Trait) :
    (traits.foldl withTrait a).claim? name = none ↔
      a.claim? name = none ∧ ∀ v, .claim name v ∉ traits := by
  induction traits generalizing a with
  | nil => simp
  | cons t traits ih =>
    rw [List.foldl_cons, ih]
    cases t with
    | role r => simp [withTrait, withRole, claim?]
    | email e => simp [withTrait, withEmail, claim?]
    | claim n v =>
      simp only [withTrait, withClaim, claim?, Dict.get?_insert, List.mem_cons, Trait.claim.injEq]
      by_cases hn : n = name
      · exact iff_of_false (by simp [hn]) fun h => h.2 v (.inl ⟨hn.symm, rfl⟩)
      · simp [hn, Ne.symm hn]

theorem claim?_ofTraits_eq_none_iff {id : String} {traits : List Trait} :
    (ofTraits id traits).claim? name = none ↔ ∀ v, .claim name v ∉ traits := by
  rw [ofTraits, claim?_foldl_eq_none_iff]
  exact and_iff_right rfl

theorem get?_unreserved (a : Identity) (name : String) :
    a.unreserved.get? name = if name ∈ ownNames then none else a.claim? name := by
  have h := Dict.get?_ofList_filter a.claims (fun n => !ownNames.contains n) name
  rw [unreserved, h]
  by_cases hn : name ∈ ownNames <;> simp [hn, claim?]

theorem unreserved_eq_iff : a.unreserved = a.claims ↔ ∀ name ∈ ownNames, a.claim? name = none := by
  constructor
  · intro h name hn
    rw [claim?, ← h, get?_unreserved, if_pos hn]
  · intro h
    refine Dict.ext_get? fun name => ?_
    rw [get?_unreserved]
    split
    · exact (h name ‹_›).symm
    · rfl

/-! ### Reading back -/

/-- The fields of an identity, claims last. -/
def fields (a : Identity) : List (String × Json) :=
  [("id", .str a.id)] ++ (a.role.map fun r => ("role", Json.str r)).toList
    ++ (a.email.map fun e => ("email", Json.str e)).toList ++ a.claims.entries

theorem get?_fields_id (a : Identity) :
    (Dict.ofList a.fields).get? "id" = some ((a.claim? "id").getD (.str a.id)) := by
  simp [fields, Dict.ofList_entries, claim?]

theorem get?_fields_role (a : Identity) :
    (Dict.ofList a.fields).get? "role" = (a.claim? "role").or (a.role.map .str) := by
  simp [fields, Dict.ofList_entries, claim?]

theorem get?_fields_email (a : Identity) :
    (Dict.ofList a.fields).get? "email" = (a.claim? "email").or (a.email.map .str) := by
  simp [fields, Dict.ofList_entries, claim?]

theorem get?_fields_of_ne (a : Identity) (hn : name ∉ ownNames) :
    (Dict.ofList a.fields).get? name = a.claim? name := by
  simp only [ownNames, List.mem_cons, List.not_mem_nil, or_false, not_or] at hn
  simp [fields, Dict.ofList_entries, claim?, Ne.symm hn.1, Ne.symm hn.2.1, Ne.symm hn.2.2]

/-- A part that may be missing, in whose place a claim may stand. -/
theorem optional_claim {fields : List (String × Json)} {structName : String} {count i : Nat}
    (claim : Option Json) (own : Option String)
    (hf : (Dict.ofList fields).get? name = claim.or (own.map .str)) :
    (Parts.ofObject fields structName count).optional i name string =
      option string (claim.getD (.ofString? own)) := by
  simp only [Parts.optional, Parts.defaulted, Parts.get?_ofObject, hf]
  cases claim with
  | some v => rfl
  | none => cases own <;> rfl

theorem string_eq_ok_iff {v : Json} {s : String} : string v = .ok s ↔ v = .str s := by
  cases v <;> simp [string]

theorem option_string_eq_ok_iff {v : Json} {o : Option String} :
    option string v = .ok o ↔ v = .ofString? o := by
  cases v <;> cases o <;> simp [option, string, Json.ofString?, Except.map]

theorem ofString?_injective {o o' : Option String} (h : Json.ofString? o = Json.ofString? o') :
    o = o' := by
  cases o <;> cases o' <;> simp_all [Json.ofString?]

/-- What an identity is read as: a claim with the name of a field is taken for the field. -/
theorem decode_encode_eq_ok_iff : decode a.encode = .ok b ↔
    (a.claim? "id").getD (.str a.id) = .str b.id ∧
    (a.claim? "role").getD (.ofString? a.role) = .ofString? b.role ∧
    (a.claim? "email").getD (.ofString? a.email) = .ofString? b.email ∧
    a.unreserved = b.claims := by
  have hclaims : Dict.ofList ((Dict.ofList a.fields).entries.filter fun f =>
      !ownNames.contains f.1) = a.unreserved := by
    refine Dict.ext_get? fun name => ?_
    have h := Dict.get?_ofList_filter (Dict.ofList a.fields) (fun n => !ownNames.contains n) name
    rw [h, get?_unreserved]
    by_cases hn : name ∈ ownNames
    · simp [hn]
    · simp [hn, get?_fields_of_ne a hn]
  have hid : (Parts.ofObject a.fields "struct Identity" 3).required 0 "id" string =
      string ((a.claim? "id").getD (.str a.id)) := by
    simp only [Parts.required, Parts.get?_ofObject, get?_fields_id]
  have hdecode : decode a.encode = (do
      return ⟨← string ((a.claim? "id").getD (.str a.id)),
        ← option string ((a.claim? "role").getD (.ofString? a.role)),
        ← option string ((a.claim? "email").getD (.ofString? a.email)), a.unreserved⟩) := by
    rw [← hclaims, ← optional_claim _ _ a.get?_fields_role, ← optional_claim _ _ a.get?_fields_email,
      ← hid]
    rfl
  rw [hdecode, ← string_eq_ok_iff, ← option_string_eq_ok_iff, ← option_string_eq_ok_iff]
  cases string ((a.claim? "id").getD (.str a.id)) with
  | error => exact iff_of_false nofun fun h => nomatch h.1
  | ok id =>
    cases option string ((a.claim? "role").getD (.ofString? a.role)) with
    | error => exact iff_of_false nofun fun h => nomatch h.2.1
    | ok role =>
      cases option string ((a.claim? "email").getD (.ofString? a.email)) with
      | error => exact iff_of_false nofun fun h => nomatch h.2.2.1
      | ok email =>
        obtain ⟨_, _, _, _⟩ := b
        simp

/-- An identity is read back as it was exactly if no claim has the name of a field. -/
theorem decode_encode_eq_self_iff :
    decode a.encode = .ok a ↔ ∀ name ∈ ownNames, a.claim? name = none := by
  rw [decode_encode_eq_ok_iff, ← unreserved_eq_iff]
  constructor
  · exact fun h => h.2.2.2
  · intro h
    have hnone := unreserved_eq_iff.1 h
    have hid := hnone "id" (by simp [ownNames])
    have hrole := hnone "role" (by simp [ownNames])
    have hemail := hnone "email" (by simp [ownNames])
    simp [hid, hrole, hemail, h]

/-- On the other side the role that was written last decides who is an admin. -/
theorem isAdmin_of_decode (h : decode a.encode = .ok b) :
    b.isAdmin = ((a.claim? "role").map grantsAdmin).getD a.isAdmin := by
  have hrole := (decode_encode_eq_ok_iff.1 h).2.1
  cases hc : a.claim? "role" with
  | none =>
    rw [hc] at hrole
    have hsame : a.role = b.role := ofString?_injective hrole
    simp [isAdmin, hsame]
  | some v =>
    rw [hc] at hrole
    obtain rfl : v = .ofString? b.role := hrole
    cases hb : b.role <;> simp [isAdmin, hb, Json.ofString?, grantsAdmin]

theorem claim?_of_decode (h : decode a.encode = .ok b) (name : String) :
    b.claim? name = if name ∈ ownNames then none else a.claim? name := by
  rw [claim?, ← (decode_encode_eq_ok_iff.1 h).2.2.2, get?_unreserved]

/-- A claim that can stand in the place of the field of its name. -/
def Fits (name : String) (v : Json) : Prop := (∃ s, v = .str s) ∨ (v = .null ∧ name ≠ "id")

theorem exists_ofString?_iff {claim : Option Json} {own : Option String} (hn : name ≠ "id") :
    (∃ o, claim.getD (.ofString? own) = .ofString? o) ↔ ∀ v, claim = some v → Fits name v := by
  cases claim with
  | none => exact iff_of_true ⟨own, rfl⟩ nofun
  | some v =>
    simp only [Option.getD_some, Option.some.injEq, forall_eq', Fits]
    constructor
    · rintro ⟨o, rfl⟩
      cases o with
      | none => exact .inr ⟨rfl, hn⟩
      | some s => exact .inl ⟨s, rfl⟩
    · rintro (⟨s, rfl⟩ | ⟨rfl, -⟩)
      · exact ⟨some s, rfl⟩
      · exact ⟨none, rfl⟩

/-- An identity can be read if every claim in the place of a field fits there. -/
theorem exists_decode_iff : (∃ b, decode a.encode = .ok b) ↔
    ∀ name ∈ ownNames, ∀ v, a.claim? name = some v → Fits name v := by
  have hid : (∃ id, (a.claim? "id").getD (.str a.id) = .str id) ↔
      ∀ v, a.claim? "id" = some v → Fits "id" v := by
    cases a.claim? "id" <;> simp [Fits]
  have hrole := @exists_ofString?_iff "role" (a.claim? "role") a.role (by decide)
  have hemail := @exists_ofString?_iff "email" (a.claim? "email") a.email (by decide)
  simp only [ownNames, List.forall_mem_cons, ← hid, ← hrole, ← hemail, decode_encode_eq_ok_iff]
  constructor
  · rintro ⟨b, h₁, h₂, h₃, -⟩
    exact ⟨⟨b.id, h₁⟩, ⟨b.role, h₂⟩, ⟨b.email, h₃⟩, List.forall_mem_nil _⟩
  · rintro ⟨⟨id, h₁⟩, ⟨role, h₂⟩, ⟨email, h₃⟩, -⟩
    exact ⟨⟨id, role, email, a.unreserved⟩, h₁, h₂, h₃, rfl⟩

/-- An identity, however it was put together, is read back as it was exactly if none of its claims was
given the name of a field.  Whatever it is read as has the other claims, and no claim with the name
of a field; it is an admin if the identity was, but a claim called `role` decides instead.  And it
can be read exactly if every claim that has the name of a field fits there. -/
theorem read_back_iff (id : String) (traits : List Trait) :
    (decode (ofTraits id traits).encode = .ok (ofTraits id traits) ↔
      ∀ name v, .claim name v ∈ traits → name ∉ ownNames) ∧
    (∀ b, decode (ofTraits id traits).encode = .ok b →
      (∀ name, b.claim? name =
        if name ∈ ownNames then none else (ofTraits id traits).claim? name) ∧
      b.isAdmin = (((ofTraits id traits).claim? "role").map grantsAdmin).getD
        (ofTraits id traits).isAdmin) ∧
    ((∃ b, decode (ofTraits id traits).encode = .ok b) ↔
      ∀ name ∈ ownNames, ∀ v, (ofTraits id traits).claim? name = some v → Fits name v) := by
  refine ⟨?_, fun b hb => ⟨claim?_of_decode hb, isAdmin_of_decode hb⟩, exists_decode_iff⟩
  rw [decode_encode_eq_self_iff]
  simp only [claim?_ofTraits_eq_none_iff]
  exact ⟨fun h name v hm hn => h name hn v hm, fun h name hn v hm => h name v hm hn⟩

/-! A member of a team, with a claim that is called almost like a field, and one whose claim is called
like it. -/
namespace Members

def plain : List Trait := [.claim "team" (.str "t9"), .role "member", .claim "Role" (.str "admin"),
  .claim "team" (.ofNat 9)]

def shadowed : List Trait := [.role "member", .claim "role" (.str "admin")]

end Members

open Members in
theorem read_back_of_plain_claims : (∀ name v, .claim name v ∈ plain → name ∉ ownNames) ∧
    decode (ofTraits "u1" plain).encode = .ok (ofTraits "u1" plain) ∧
    (ofTraits "u1" plain).claim? "team" = some (.ofNat 9) := by
  have hnames : ∀ name v, .claim name v ∈ plain → name ∉ ownNames := by
    intro name v hm
    simp [plain] at hm
    rcases hm with ⟨rfl, -⟩ | ⟨rfl, -⟩ | ⟨rfl, -⟩ <;> decide
  exact ⟨hnames, (read_back_iff "u1" plain).1.2 hnames, rfl⟩

open Members in
/-- A claim makes an admin of the member, and is no claim any more. -/
theorem admin_by_claim : (ofTraits "u1" shadowed).isAdmin = false ∧
    (ofTraits "u1" shadowed).claim? "role" = some (.str "admin") ∧
    ∃ b, decode (ofTraits "u1" shadowed).encode = .ok b ∧ b.isAdmin = true ∧
      b.claim? "role" = none :=
  ⟨by decide, rfl, ⟨"u1", some "admin", none, .empty⟩, rfl, by decide, rfl⟩

end Identity
end RowGuard
