/-! # Finite maps from names to values

A `Dict` keeps its entries in strictly ascending order of name, so that two maps with the same
entries are equal and every listing comes out in the order of names.  Names are ordered by code
point.  The main statements say what `insert` and `erase` do to `get?`, and that a map is determined
by `get?`.
-/
namespace RowGuard

/-- Ascending order of the names of an entry list, without repetition. -/
def Ascending {α : Type} (entries : List (String × α)) : Prop :=
  entries.Pairwise (fun a b => a.1 < b.1)

def findEntry {α : Type} (name : String) : List (String × α) → Option α
  | [] => none
  | e :: rest => if e.1 = name then some e.2 else findEntry name rest

/-- Put a value under a name, at the place where the order of names wants it. -/
def insertEntry {α : Type} (name : String) (value : α) : List (String × α) → List (String × α)
  | [] => [(name, value)]
  | e :: rest =>
    if name < e.1 then (name, value) :: e :: rest
    else if name = e.1 then (name, value) :: rest
    else e :: insertEntry name value rest

section Entries
variable {α : Type}

@[simp] theorem findEntry_nil (name : String) :
    findEntry name ([] : List (String × α)) = none := rfl

theorem mem_insertEntry {name : String} {value : α} {l : List (String × α)} {e : String × α}
    (h : e ∈ insertEntry name value l) : e = (name, value) ∨ e ∈ l := by
  induction l with
  | nil => simpa [insertEntry] using h
  | cons hd tl ih => grind [insertEntry]

theorem Ascending.insertEntry {name : String} {value : α} {l : List (String × α)}
    (h : Ascending l) : Ascending (insertEntry name value l) := by
  induction l with
  | nil => simp [RowGuard.insertEntry, Ascending]
  | cons hd tl ih =>
    rw [RowGuard.insertEntry]
    rw [Ascending, List.pairwise_cons] at h
    split
    · rename_i hlt
      refine List.pairwise_cons.2 ⟨fun e he => ?_, List.pairwise_cons.2 h⟩
      rcases List.mem_cons.1 he with rfl | he
      · exact hlt
      · exact String.lt_trans hlt (h.1 e he)
    · split
      · rename_i heq
        exact List.pairwise_cons.2 ⟨fun e he => heq ▸ h.1 e he, h.2⟩
      · rename_i hge hne
        refine List.pairwise_cons.2 ⟨fun e he => ?_, ih h.2⟩
        rcases mem_insertEntry he with rfl | he
        · exact Std.lt_of_le_of_ne (String.not_lt.1 hge) (Ne.symm hne)
        · exact h.1 e he

theorem findEntry_insertEntry (name other : String) (value : α) (l : List (String × α)) :
    findEntry other (insertEntry name value l) =
      if name = other then some value else findEntry other l := by
  induction l with
  | nil => simp [insertEntry, findEntry]
  | cons hd tl ih => grind [insertEntry, findEntry]

theorem findEntry_eq_none {name : String} {l : List (String × α)} (h : ∀ e ∈ l, e.1 ≠ name) :
    findEntry name l = none := by
  induction l with
  | nil => rfl
  | cons hd tl ih => grind [findEntry]

theorem findEntry_eq_some_iff {l : List (String × α)} (h : Ascending l) {name : String}
    {value : α} :
    findEntry name l = some value ↔ (name, value) ∈ l := by
  induction l with
  | nil => simp
  | cons hd tl ih =>
    rw [Ascending, List.pairwise_cons] at h
    have ih := ih h.2
    rw [findEntry]
    split
    · rename_i heq
      constructor
      · rintro ⟨⟩
        exact List.mem_cons.2 (.inl (by rw [← heq]))
      · intro hm
        rcases List.mem_cons.1 hm with rfl | hm
        · rfl
        · exact absurd (heq ▸ h.1 _ hm) (String.lt_irrefl _)
    · rename_i hne
      rw [ih]
      constructor
      · exact fun hm => List.mem_cons.2 (.inr hm)
      · intro hm
        rcases List.mem_cons.1 hm with rfl | hm
        · exact absurd rfl hne
        · exact hm

theorem Ascending.ext {l l' : List (String × α)} (h : Ascending l) (h' : Ascending l')
    (he : ∀ name, findEntry name l = findEntry name l') : l = l' := by
  induction l generalizing l' with
  | nil =>
    cases l' with
    | nil => rfl
    | cons hd tl => simpa [findEntry] using he hd.1
  | cons hd tl ih =>
    cases l' with
    | nil => simpa [findEntry] using he hd.1
    | cons hd' tl' =>
      have hmem : ∀ e : String × α, e ∈ hd :: tl ↔ e ∈ hd' :: tl' := fun ⟨name, value⟩ => by
        rw [← findEntry_eq_some_iff h, ← findEntry_eq_some_iff h', he]
      have hh := h
      have hh' := h'
      rw [Ascending, List.pairwise_cons] at hh hh'
      have heq : hd = hd' := by
        rcases List.mem_cons.1 ((hmem hd).1 (List.mem_cons_self ..)) with e | e
        · exact e
        · rcases List.mem_cons.1 ((hmem hd').2 (List.mem_cons_self ..)) with e' | e'
          · exact e'.symm
          · exact absurd (hh.1 _ e') (String.lt_asymm (hh'.1 _ e))
      subst heq
      refine congrArg _ (ih hh.2 hh'.2 fun name => ?_)
      by_cases hn : hd.1 = name
      · have hl : ∀ e ∈ tl, e.1 ≠ name := fun e he' => by
          rw [← hn]; exact fun c => String.lt_irrefl _ (c ▸ hh.1 e he')
        have hr : ∀ e ∈ tl', e.1 ≠ name := fun e he' => by
          rw [← hn]; exact fun c => String.lt_irrefl _ (c ▸ hh'.1 e he')
        rw [findEntry_eq_none hl, findEntry_eq_none hr]
      · simpa [findEntry, hn] using he name

end Entries

/-- A finite map from names to values, in ascending order of name. -/
structure Dict (α : Type) where
  entries : List (String × α)
  ascending : Ascending entries

namespace Dict
variable {α β : Type}

def empty : Dict α := ⟨[], .nil⟩

instance : EmptyCollection (Dict α) := ⟨empty⟩
instance : Inhabited (Dict α) := ⟨empty⟩

def get? (d : Dict α) (name : String) : Option α := findEntry name d.entries

def contains (d : Dict α) (name : String) : Bool := (d.get? name).isSome

def insert (d : Dict α) (name : String) (value : α) : Dict α :=
  ⟨insertEntry name value d.entries, d.ascending.insertEntry⟩

def erase (d : Dict α) (name : String) : Dict α :=
  ⟨d.entries.filter (fun e => e.1 ≠ name), d.ascending.filter _⟩

/-- Put entries into a map one after another; of two with one name the later stays. -/
def insertMany (d : Dict α) (entries : List (String × α)) : Dict α :=
  entries.foldl (fun acc e => acc.insert e.1 e.2) d

/-- The map of a list of entries; of two with one name the later stays. -/
def ofList (entries : List (String × α)) : Dict α := insertMany empty entries

/-- The names, in ascending order. -/
def keys (d : Dict α) : List String := d.entries.map Prod.fst

/-- The values, in the order of their names. -/
def values (d : Dict α) : List α := d.entries.map Prod.snd

def size (d : Dict α) : Nat := d.entries.length

def isEmpty (d : Dict α) : Bool := d.entries.isEmpty

def mapValues (f : α → β) (d : Dict α) : Dict β :=
  ⟨d.entries.map (fun e => (e.1, f e.2)), by
    have h := d.ascending
    rw [Ascending] at h ⊢
    exact List.Pairwise.map _ (fun _ _ hab => hab) h⟩

theorem ext_get? {d d' : Dict α} (h : ∀ name, d.get? name = d'.get? name) : d = d' := by
  cases d with
  | mk l hl =>
    cases d' with
    | mk l' hl' =>
      have : l = l' := hl.ext hl' h
      subst this
      rfl

@[simp] theorem get?_empty (name : String) : (empty : Dict α).get? name = none := rfl

theorem get?_insert (d : Dict α) (name other : String) (value : α) :
    (d.insert name value).get? other = if name = other then some value else d.get? other :=
  findEntry_insertEntry name other value d.entries

@[simp] theorem get?_insert_self (d : Dict α) (name : String) (value : α) :
    (d.insert name value).get? name = some value := by
  simp [get?_insert]

theorem get?_insert_of_ne (d : Dict α) {name other : String} (value : α) (h : name ≠ other) :
    (d.insert name value).get? other = d.get? other := by
  simp [get?_insert, h]

theorem get?_eq_some_iff {d : Dict α} {name : String} {value : α} :
    d.get? name = some value ↔ (name, value) ∈ d.entries :=
  findEntry_eq_some_iff d.ascending

theorem mem_keys_iff {d : Dict α} {name : String} : name ∈ d.keys ↔ (d.get? name).isSome := by
  rw [Option.isSome_iff_exists]
  simp only [get?_eq_some_iff, keys, List.mem_map, Prod.exists]
  constructor
  · rintro ⟨n, v, hm, rfl⟩
    exact ⟨v, hm⟩
  · rintro ⟨v, hm⟩
    exact ⟨name, v, hm, rfl⟩

theorem mem_of_get?_insertMany {d : Dict α} {entries : List (String × α)} {name : String} {a : α}
    (h : (d.insertMany entries).get? name = some a) :
    (name, a) ∈ entries ∨ d.get? name = some a := by
  induction entries generalizing d with
  | nil => exact .inr h
  | cons e rest ih =>
    rw [insertMany, List.foldl_cons, ← insertMany] at h
    rcases ih h with hm | hm
    · exact .inl (List.mem_cons_of_mem _ hm)
    · rw [get?_insert] at hm
      by_cases hn : e.1 = name
      · rw [if_pos hn] at hm
        obtain ⟨n, b⟩ := e
        obtain rfl : n = name := hn
        obtain rfl := Option.some.inj hm
        exact .inl List.mem_cons_self
      · rw [if_neg hn] at hm
        exact .inr hm

theorem mem_of_mem_ofList {entries : List (String × α)} {e : String × α}
    (h : e ∈ (ofList entries).entries) : e ∈ entries :=
  (mem_of_get?_insertMany (get?_eq_some_iff.2 h)).resolve_right (by simp)

end Dict
end RowGuard
