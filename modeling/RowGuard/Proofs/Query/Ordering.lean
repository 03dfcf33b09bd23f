import RowGuard.Proofs.Json.Equality
import RowGuard.Query.Execution

/-! # The order of rows

Values are ordered by kind and, within one kind, by number or text.  That order is total.  The order
used for sorting agrees with it but for arrays and objects that are equal and are still written
differently: the two zeros are equal, and each is written with its sign.  So rows are compared
consistently unless they hold such values in an ordering column.
-/
namespace RowGuard

namespace Json

/-- The number that tells values of one kind apart. -/
def magnitude : Json → Int
  | .num n => n.units
  | .bool b => if b then 1 else 0
  | _ => 0

/-- The text that tells values of one kind apart. -/
def wording : Json → String
  | .str s => s
  | .arr xs => (Json.arr xs).compact
  | .obj fs => (Json.obj fs).compact
  | _ => ""

/-- The order by kind, then by number, then by text. -/
def kindOrder (a b : Json) : Ordering :=
  (compare a.rank b.rank).then
    ((compare a.magnitude b.magnitude).then (compare a.wording b.wording))

instance : Std.TransCmp kindOrder :=
  inferInstanceAs (Std.TransCmp
    (compareLex (compareOn rank) (compareLex (compareOn magnitude) (compareOn wording))))

/-- Whether a value is made of other values; the others are scalars. -/
def isComposite : Json → Bool
  | .arr _ | .obj _ => true
  | _ => false

/-- Two arrays or objects that are equal and are written differently. -/
def Discordant (a b : Json) : Prop :=
  a.isComposite = true ∧ a.same b = true ∧ a.compact ≠ b.compact

theorem isComposite_eq_of_same {a b : Json} (h : a.same b = true) :
    a.isComposite = b.isComposite := by
  cases a <;> cases b <;> simp_all [same, isComposite]

theorem rank_eq_of_same {a b : Json} (h : a.same b = true) : a.rank = b.rank := by
  cases a <;> cases b <;> simp_all [same, rank]

/-- A scalar is compared consistently with every value. -/
theorem not_discordant_of_scalar {a b : Json} (h : a.isComposite = false ∨ b.isComposite = false) :
    ¬ a.Discordant b := by
  rintro ⟨ha, hs, -⟩
  have hb := isComposite_eq_of_same hs
  simp_all

/-- Values of different kinds are in the order of their kinds. -/
theorem sortOrder_of_rank_ne {a b : Json} (h : a.rank ≠ b.rank) :
    sortOrder a b = compare a.rank b.rank := by
  have hnone : compareValues a b = none := by
    cases a <;> cases b <;> first | rfl | exact absurd rfl h
  have hne : compare a.rank b.rank ≠ .eq := fun he => h (Std.LawfulEqCmp.eq_of_compare he)
  simp only [sortOrder, hnone]
  cases hc : compare a.rank b.rank with
  | eq => exact absurd hc hne
  | lt | gt => rfl

theorem kindOrder_of_rank_ne {a b : Json} (h : a.rank ≠ b.rank) :
    kindOrder a b = compare a.rank b.rank := by
  have hne : compare a.rank b.rank ≠ .eq := fun he => h (Std.LawfulEqCmp.eq_of_compare he)
  cases hc : compare a.rank b.rank with
  | eq => exact absurd hc hne
  | lt | gt => simp [kindOrder, hc]

/-- The two orders agree on values that are not discordant. -/
theorem sortOrder_eq_kindOrder {a b : Json} (h : ¬ a.Discordant b) :
    sortOrder a b = kindOrder a b := by
  -- Of composites of one kind, the order for sorting asks first whether they are equal.
  have hcomposite : a.isComposite = true → a.rank = b.rank →
      compareValues a b = (if a.same b then some .eq else none) →
      kindOrder a b = compare a.compact b.compact → sortOrder a b = kindOrder a b := by
    intro ha hr hv hk
    rw [hk, sortOrder, hv]
    by_cases hs : a.same b = true
    · have htext : a.compact = b.compact := Decidable.not_not.1 fun hne => h ⟨ha, hs, hne⟩
      simp [hs, htext]
    · simp [hs, hr]
  by_cases hr : a.rank = b.rank
  · match a, b with
    | .null, .null => rfl
    | .bool x, .bool y => cases x <;> cases y <;> decide
    | .num m, .num n =>
      simp [sortOrder, compareValues, kindOrder, rank, magnitude, wording, Number.order]
    | .str s, .str t => simp [sortOrder, compareValues, kindOrder, rank, magnitude, wording]
    | .arr xs, .arr ys => exact hcomposite rfl rfl rfl (by simp [kindOrder, rank, magnitude, wording])
    | .obj fs, .obj gs => exact hcomposite rfl rfl rfl (by simp [kindOrder, rank, magnitude, wording])
  · rw [sortOrder_of_rank_ne hr, kindOrder_of_rank_ne hr]

end Json

namespace Row

/-- A row holds scalars in the ordering columns. -/
def ScalarIn (order : List (String × Direction)) (r : Row) : Prop :=
  ∀ e ∈ order, (r.value e.1).isComposite = false

instance (order : List (String × Direction)) (r : Row) : Decidable (ScalarIn order r) :=
  inferInstanceAs (Decidable (∀ e ∈ order, _))

/-- No values of two rows in one ordering column are discordant. -/
def Concordant (order : List (String × Direction)) (a b : Row) : Prop :=
  ∀ e ∈ order, ¬ (a.value e.1).Discordant (b.value e.1)

theorem ScalarIn.concordant {order : List (String × Direction)} {a b : Row}
    (h : ScalarIn order a ∨ ScalarIn order b) : Concordant order a b := fun e he =>
  Json.not_discordant_of_scalar (h.imp (fun ha => ha e he) fun hb => hb e he)

/-- Compare two rows by ordering columns, and their values by kind. -/
def kindOrder : List (String × Direction) → Row → Row → Ordering
  | [], _, _ => .eq
  | (c, d) :: rest, a, b =>
    (d.apply (Json.kindOrder (a.value c) (b.value c))).then (kindOrder rest a b)

theorem compareRows_eq_kindOrder {order : List (String × Direction)} {a b : Row}
    (h : Concordant order a b) : compareRows order a b = kindOrder order a b := by
  induction order with
  | nil => rfl
  | cons e rest ih =>
    obtain ⟨hhead, hrest⟩ := List.forall_mem_cons.1 h
    rw [compareRows, kindOrder, Json.sortOrder_eq_kindOrder hhead, ih hrest]

/-- An order by one column, in either direction. -/
theorem transCmp_column (c : String) (d : Direction) :
    Std.TransCmp fun a b : Row => d.apply (Json.kindOrder (a.value c) (b.value c)) := by
  have hasc : Std.TransCmp fun a b : Row => Json.kindOrder (a.value c) (b.value c) := {
    eq_swap := Std.OrientedCmp.eq_swap
    isLE_trans := Std.TransCmp.isLE_trans }
  cases d with
  | asc => exact hasc
  | desc =>
    have hswap : (fun a b : Row => (Json.kindOrder (a.value c) (b.value c)).swap) =
        fun a b => Json.kindOrder (b.value c) (a.value c) :=
      funext fun a => funext fun b => Std.OrientedCmp.eq_swap.symm
    simp only [Direction.apply]
    rw [hswap]
    exact @Std.TransCmp.opposite _ _ hasc

instance transCmp_kindOrder : (order : List (String × Direction)) → Std.TransCmp (kindOrder order)
  | [] => { eq_swap := rfl, isLE_trans := fun _ _ => rfl }
  | (c, d) :: rest =>
    have := transCmp_column c d
    have := transCmp_kindOrder rest
    inferInstanceAs (Std.TransCmp
      (compareLex (fun a b : Row => d.apply (Json.kindOrder (a.value c) (b.value c)))
        (kindOrder rest)))

end Row
end RowGuard
