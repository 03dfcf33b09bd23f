import RowGuard.Proofs.Gate.Decision
import RowGuard.Proofs.Query.Ordering
import RowGuard.Proofs.Query.Sorting

/-! # What a query selects

A query is built by calls that add a filter or an ordering column, or set a limit or a cursor.  What
it selects can be said without the way it is executed: the rows that satisfy every filter and come
behind the cursor, in the completed ordering, and of these the ones with fewer than the limit before
them.  Neither the order in which the rows are stored nor that of the filters matters.
-/
namespace RowGuard

/-- Behind an exclusive cursor are the rows that are greater. -/
theorem Cursor.admits_exclusive (c : Row) (order : List (String × Direction)) (r : Row) :
    (⟨c, true⟩ : Cursor).admits order r = (compareRows order r c == .gt) := by
  rw [admits]
  cases compareRows order r c <;> rfl

/-- Whether a row passes is all that a selection asks of a filter. -/
theorem Plan.select_congr {p p' : Plan} (ho : p'.order = p.order) (hp : p'.passes = p.passes)
    (hl : p'.limit = p.limit) (hs : p'.start = p.start) (rows : List Row) :
    p'.select rows = p.select rows := by
  have hreaches : p'.reaches = p.reaches := funext fun r => by rw [reaches, reaches, ho, hs]
  rw [select, select, ho, hp, hreaches, cut, cut, hl]

namespace Query

/-! ### Execution -/

section Select
variable {q : Query} {rows rows' : List Row} {r : Row}

/-- A row satisfies the filter of a query and comes behind its cursor. -/
def meets (q : Query) (r : Row) : Bool := q.completed.passes r && q.completed.reaches r

/-- The rows that satisfy the filter of a query, in its completed ordering. -/
def listed (q : Query) (rows : List Row) : List Row :=
  sortBy (compareRows q.fullOrder) (rows.filter q.completed.passes)

/-- The rows of a table are compared consistently in the completed ordering of a query. -/
def Orders (q : Query) (rows : List Row) : Prop :=
  ∀ a ∈ rows, ∀ b ∈ rows, a.Concordant q.fullOrder b

/-- No two rows of a table tie in the completed ordering of a query. -/
def Separates (q : Query) (rows : List Row) : Prop :=
  rows.Pairwise fun a b => compareRows q.fullOrder a b ≠ .eq

theorem orders_of_scalars (h : ∀ r ∈ rows, r.ScalarIn q.fullOrder) : q.Orders rows :=
  fun a ha _ _ => Row.ScalarIn.concordant (.inl (h a ha))

theorem Orders.compareRows_eq (h : q.Orders rows) {a b : Row} (ha : a ∈ rows) (hb : b ∈ rows) :
    compareRows q.fullOrder a b = Row.kindOrder q.fullOrder a b :=
  Row.compareRows_eq_kindOrder (h a ha b hb)

theorem mem_listed : r ∈ q.listed rows ↔ r ∈ rows ∧ q.completed.passes r = true := by
  rw [listed, (sortBy_perm _ _).mem_iff, List.mem_filter]

theorem Orders.listed_eq (h : q.Orders rows) :
    q.listed rows = sortBy (Row.kindOrder q.fullOrder) (rows.filter q.completed.passes) :=
  sortBy_congr fun _ ha _ hb => h.compareRows_eq (List.mem_filter.1 ha).1 (List.mem_filter.1 hb).1

theorem Orders.listed_pairwise (h : q.Orders rows) :
    (q.listed rows).Pairwise fun a b => (Row.kindOrder q.fullOrder a b).isLE = true := by
  rw [h.listed_eq]
  exact sortBy_pairwise _

theorem Orders.sorted_listed (h : q.Orders rows) (ht : q.Separates rows) :
    Sorted (Row.kindOrder q.fullOrder) (q.listed rows) := by
  rw [h.listed_eq]
  refine sorted_sortBy ((List.Pairwise.filter _ ht).imp_of_mem fun ha hb hne => ?_)
  rwa [← h.compareRows_eq (List.mem_filter.1 ha).1 (List.mem_filter.1 hb).1]

theorem Orders.of_perm (h : q.Orders rows) (hp : rows'.Perm rows) : q.Orders rows' :=
  fun a ha b hb => h a (hp.mem_iff.1 ha) b (hp.mem_iff.1 hb)

theorem Orders.separates_of_perm (h : q.Orders rows) (ht : q.Separates rows)
    (hp : rows'.Perm rows) : q.Separates rows' := by
  have hkind : rows.Pairwise fun a b => Row.kindOrder q.fullOrder a b ≠ .eq :=
    List.Pairwise.imp_of_mem (fun ha hb hne => by rwa [← h.compareRows_eq ha hb]) ht
  refine List.Pairwise.imp_of_mem (fun ha hb hne => ?_)
    ((hp.pairwise_iff fun hab hba => hab (Std.OrientedCmp.eq_symm hba)).2 hkind)
  rwa [(h.of_perm hp).compareRows_eq ha hb]

/-- Rows that do not tie are listed in the same way wherever they are stored. -/
theorem Orders.listed_of_perm (h : q.Orders rows) (ht : q.Separates rows) (hp : rows'.Perm rows) :
    q.listed rows' = q.listed rows := by
  refine ((h.of_perm hp).sorted_listed (h.separates_of_perm ht hp)).eq_of_perm
    (h.sorted_listed ht) ?_
  exact (sortBy_perm _ _).trans ((hp.filter _).trans (sortBy_perm _ _).symm)

theorem select_eq (q : Query) (rows : List Row) :
    q.completed.select rows = q.completed.cut ((q.listed rows).filter q.completed.reaches) := rfl

/-- Of rows that do not tie, a query selects in strictly ascending order the ones that satisfy it and
have fewer such rows before them than its limit. -/
theorem Orders.select (h : q.Orders rows) (ht : q.Separates rows) :
    Sorted (compareRows q.fullOrder) (q.completed.select rows) ∧
      ∀ r, r ∈ q.completed.select rows ↔ r ∈ rows ∧ q.meets r = true ∧
        ∀ n, q.plan.limit = some n →
          rows.countP (fun x => q.meets x && compareRows q.fullOrder x r == .lt) < n := by
  have hsorted : Sorted (Row.kindOrder q.fullOrder)
      ((q.listed rows).filter q.completed.reaches) := (h.sorted_listed ht).filter _
  have hmem : ∀ r, r ∈ (q.listed rows).filter q.completed.reaches ↔
      r ∈ rows ∧ q.meets r = true := by
    intro r
    rw [List.mem_filter, mem_listed, meets, Bool.and_eq_true, and_assoc]
  have hcount : ∀ r ∈ rows, ((q.listed rows).filter q.completed.reaches).countP
      (fun x => Row.kindOrder q.fullOrder x r == .lt) =
        rows.countP fun x => q.meets x && compareRows q.fullOrder x r == .lt := by
    intro r hr
    rw [List.countP_filter, listed, (sortBy_perm _ _).countP_eq, List.countP_filter]
    refine List.countP_congr fun x hx => ?_
    rw [h.compareRows_eq hx hr, meets]
    simp only [Bool.and_eq_true]
    exact ⟨fun h => ⟨⟨h.2, h.1.2⟩, h.1.1⟩, fun h => ⟨⟨h.2, h.1.2⟩, h.1.1⟩⟩
  have hcut : (q.completed.select rows).Sublist ((q.listed rows).filter q.completed.reaches) := by
    rw [select_eq, Plan.cut]
    split
    · exact List.take_sublist ..
    · exact .refl _
  have hstored : ∀ a ∈ q.completed.select rows, a ∈ rows := fun a ha => ((hmem a).1 (hcut.subset ha)).1
  refine ⟨(hsorted.sublist hcut).imp_of_mem fun ha hb hlt => ?_, fun r => ?_⟩
  · rwa [h.compareRows_eq (hstored _ ha) (hstored _ hb)]
  · have hlimit : q.completed.limit = q.plan.limit := rfl
    rw [select_eq, Plan.cut, hlimit]
    cases q.plan.limit with
    | none => simp [hmem r]
    | some n =>
      simp only [Option.some.injEq, forall_eq']
      rw [hsorted.mem_take_iff, hmem, and_assoc]
      exact and_congr_right fun hr => and_congr_right fun _ => by rw [hcount r hr]

end Select

/-! ### Calls that build a query -/

/-- A call that builds a query. -/
inductive Clause where
  | restrict (c : Condition)
  | orderBy (column : String) (d : Direction)
  | limit (n : Nat)
  | one
  | start (row : Row)

namespace Clause

def apply (q : Query) : Clause → Query
  | restrict c => q.restrict c
  | orderBy column d => q.orderBy column d
  | limit n => q.limit n
  | one => q.one
  | start row => q.start row

def isRestrict : Clause → Bool
  | restrict _ => true
  | _ => false

def condition? : Clause → Option Condition
  | restrict c => some c
  | _ => none

def column? : Clause → Option (String × Direction)
  | orderBy column d => some (column, d)
  | _ => none

def bound? : Clause → Option Nat
  | limit n => some n
  | one => some 1
  | _ => none

def cursor? : Clause → Option Row
  | start row => some row
  | _ => none

/-- The filters that calls add. -/
def conditions (cs : List Clause) : List Condition := cs.filterMap condition?

/-- The key columns that an ordering lacks, each once. -/
def missing (order : List (String × Direction)) (key : List String) : List String :=
  (key.filter fun k => k ∉ order.map Prod.fst).eraseDups

/-- The ordering that calls ask for, most significant column first, completed by the rest of the
key in ascending direction. -/
def ordering (cs : List Clause) (key : List String) : List (String × Direction) :=
  cs.filterMap column? ++ (missing (cs.filterMap column?) key).map fun k => (k, .asc)

/-- The limit that calls leave: the last one counts. -/
def bound (cs : List Clause) : Option Nat := cs.reverse.findSome? bound?

/-- The cursor that calls leave: the last one counts. -/
def cursor (cs : List Clause) : Option Row := cs.reverse.findSome? cursor?

/-- A row satisfies all filters and comes strictly after the cursor. -/
def admitted (cs : List Clause) (key : List String) (r : Row) : Bool :=
  (conditions cs).all (·.holds r) &&
    (cursor cs).all fun c => compareRows (ordering cs key) r c == .gt

end Clause

def build (q : Query) (cs : List Clause) : Query := cs.foldl Clause.apply q

section Build
variable (q : Query) (cs : List Clause)

theorem passes_restrict (c : Condition) (r : Row) :
    (q.restrict c).plan.passes r = (q.plan.passes r && c.holds r) := by
  simp only [restrict, Plan.passes]
  cases q.plan.filter with
  | none => rfl
  | some old => exact Condition.holds_both r old c

theorem build_fixed : (q.build cs).table = q.table ∧ (q.build cs).primaryKey = q.primaryKey := by
  induction cs generalizing q with
  | nil => exact ⟨rfl, rfl⟩
  | cons c cs ih =>
    rw [build, List.foldl_cons, ← build, (ih _).1, (ih _).2]
    cases c <;> exact ⟨rfl, rfl⟩

theorem build_order : (q.build cs).plan.order = q.plan.order ++ cs.filterMap Clause.column? := by
  induction cs generalizing q with
  | nil => exact (List.append_nil _).symm
  | cons c cs ih =>
    rw [build, List.foldl_cons, ← build, ih]
    cases c with
    | orderBy column d => exact List.append_assoc ..
    | _ => rfl

theorem build_limit : (q.build cs).plan.limit = (Clause.bound cs).or q.plan.limit := by
  induction cs generalizing q with
  | nil => rfl
  | cons c cs ih =>
    rw [build, List.foldl_cons, ← build, ih, Clause.bound, Clause.bound, List.reverse_cons,
      List.findSome?_append, Option.or_assoc]
    cases c <;> rfl

theorem build_start : (q.build cs).plan.start =
    ((Clause.cursor cs).map fun row => ⟨row, true⟩).or q.plan.start := by
  induction cs generalizing q with
  | nil => rfl
  | cons c cs ih =>
    rw [build, List.foldl_cons, ← build, ih, Clause.cursor, Clause.cursor, List.reverse_cons,
      List.findSome?_append, Option.map_or, Option.or_assoc]
    cases c <;> rfl

theorem build_passes (r : Row) :
    (q.build cs).plan.passes r = (q.plan.passes r && (Clause.conditions cs).all (·.holds r)) := by
  induction cs generalizing q with
  | nil => exact (Bool.and_true _).symm
  | cons c cs ih =>
    rw [build, List.foldl_cons, ← build, ih]
    cases c with
    | restrict c =>
      rw [Clause.apply, passes_restrict, Bool.and_assoc]
      rfl
    | _ => rfl

/-- The completed ordering lists the requested columns, then the missing key columns. -/
theorem completeOrder_eq (order : List (String × Direction)) (key : List String) :
    completeOrder order key = order ++ (Clause.missing order key).map fun k => (k, .asc) := by
  induction key generalizing order with
  | nil => simp [completeOrder, Clause.missing]
  | cons k key ih =>
    have hany : order.any (·.1 = k) = true ↔ k ∈ order.map Prod.fst := by
      simp only [List.any_eq_true, decide_eq_true_eq, List.mem_map]
    rw [completeOrder, ih]
    by_cases hk : k ∈ order.map Prod.fst
    · rw [if_pos (hany.2 hk), Clause.missing, Clause.missing, List.filter_cons_of_neg (by simpa using hk)]
    · have hrest : (key.filter fun l => l ∉ (order ++ [(k, Direction.asc)]).map Prod.fst) =
          (key.filter fun l => l ∉ order.map Prod.fst).filter fun l => !l == k := by
        rw [List.filter_filter]
        refine List.filter_congr fun l _ => ?_
        rw [Bool.eq_iff_iff]
        simp [and_comm]
      rw [if_neg (mt hany.1 hk), Clause.missing, Clause.missing, hrest,
        List.filter_cons_of_pos (by simpa using hk), List.eraseDups_cons, List.map_cons,
        List.append_assoc]
      rfl

end Build

namespace Clause
variable {cs cs' : List Clause}

/-- Two lists of calls that differ in the order of their filters only. -/
def Reordered (cs cs' : List Clause) : Prop :=
  cs'.filter (!·.isRestrict) = cs.filter (!·.isRestrict) ∧ (conditions cs').Perm (conditions cs)

theorem Reordered.filterMap_eq {β : Type} (h : Reordered cs cs') {f : Clause → Option β}
    (hf : ∀ c, f (restrict c) = none) : cs'.filterMap f = cs.filterMap f := by
  have hrest : ∀ l : List Clause, (l.filter (!·.isRestrict)).filterMap f = l.filterMap f := by
    intro l
    rw [List.filterMap_filter]
    congr 1
    funext c
    cases c with
    | restrict c => exact (hf c).symm
    | _ => rfl
  rw [← hrest cs', h.1, hrest]

theorem Reordered.findSome?_eq {β : Type} (h : Reordered cs cs') {f : Clause → Option β}
    (hf : ∀ c, f (restrict c) = none) : cs'.reverse.findSome? f = cs.reverse.findSome? f := by
  rw [← List.head?_filterMap, ← List.head?_filterMap, List.filterMap_reverse, List.filterMap_reverse,
    h.filterMap_eq hf]

end Clause

section Table
variable (table : String) (key : List String) (cs : List Clause)

theorem fullOrder_build : ((onTable table key).build cs).fullOrder = Clause.ordering cs key := by
  rw [fullOrder, build_order, (build_fixed _ cs).2, completeOrder_eq]
  rfl

theorem meets_build (r : Row) : ((onTable table key).build cs).meets r = Clause.admitted cs key r := by
  have hpasses : ((onTable table key).build cs).completed.passes r =
      (Clause.conditions cs).all (·.holds r) :=
    (build_passes _ cs r).trans (Bool.true_and _)
  have hstart : ((onTable table key).build cs).completed.start =
      (Clause.cursor cs).map fun row => ⟨row, true⟩ :=
    (build_start _ cs).trans (Option.or_none ..)
  have hreaches : ((onTable table key).build cs).completed.reaches r =
      (Clause.cursor cs).all fun c => compareRows (Clause.ordering cs key) r c == .gt := by
    rw [← fullOrder_build table key cs]
    simp only [Plan.reaches, hstart]
    cases Clause.cursor cs with
    | none => rfl
    | some c => exact Cursor.admits_exclusive c _ r
  rw [meets, hpasses, hreaches, Clause.admitted]

/-- Filters in another order select the same rows. -/
theorem select_build_of_reordered {cs' : List Clause} (h : Clause.Reordered cs cs')
    (rows : List Row) : ((onTable table key).build cs').completed.select rows =
      ((onTable table key).build cs).completed.select rows := by
  refine Plan.select_congr ?_ (funext fun r => ?_) ?_ ?_ rows
  · refine (fullOrder_build table key cs').trans (Eq.trans ?_ (fullOrder_build table key cs).symm)
    rw [Clause.ordering, Clause.ordering, h.filterMap_eq fun _ => rfl]
  · refine (build_passes _ cs' r).trans (Eq.trans ?_ (build_passes _ cs r).symm)
    rw [h.2.all_eq]
  · refine (build_limit _ cs').trans (Eq.trans ?_ (build_limit _ cs).symm)
    rw [Clause.bound, Clause.bound, h.findSome?_eq fun _ => rfl]
  · refine (build_start _ cs').trans (Eq.trans ?_ (build_start _ cs).symm)
    rw [Clause.cursor, Clause.cursor, h.findSome?_eq fun _ => rfl]

end Table

end Query

open Query in
/-- A query that is built on a declared table has an answer: in strictly ascending order the stored
rows that all filters and the cursor let pass and that have fewer such rows before them than the limit,
provided that no two stored rows tie.  The answer does not depend on the order in which rows are
stored or filters are added. -/
theorem Schema.execute_selects {s : Schema} {ts : Tables} {table : String} {t : Table}
    (hd : s.table? table = some t) {cs : List Clause}
    (hs : ∀ r ∈ ts.rows table, r.ScalarIn (Clause.ordering cs t.primaryKey))
    (ht : (ts.rows table).Pairwise fun a b =>
      compareRows (Clause.ordering cs t.primaryKey) a b ≠ .eq) :
    ∃ rows, (s.query table).bind (fun q => s.execute ts (q.build cs)) = .ok rows ∧
      Sorted (compareRows (Clause.ordering cs t.primaryKey)) rows ∧
      (∀ r, r ∈ rows ↔ r ∈ ts.rows table ∧ Clause.admitted cs t.primaryKey r = true ∧
        ∀ n, Clause.bound cs = some n → (ts.rows table).countP (fun x =>
          Clause.admitted cs t.primaryKey x &&
            compareRows (Clause.ordering cs t.primaryKey) x r == .lt) < n) ∧
      ∀ ts' cs', (ts'.rows table).Perm (ts.rows table) → Clause.Reordered cs cs' →
        (s.query table).bind (fun q => s.execute ts' (q.build cs')) = .ok rows := by
  have hrequire : s.require table = .ok t := Schema.require_eq_ok_iff.2 hd
  have hexecute : ∀ ts' cs', (s.query table).bind (fun q => s.execute ts' (q.build cs')) =
      .ok (((onTable table t.primaryKey).build cs').completed.select (ts'.rows table)) := by
    intro ts' cs'
    simp only [Schema.query, hrequire, Except.bind, Schema.execute]
    rw [(build_fixed _ cs').1]
    simp only [onTable, Query.table, hrequire]
  have hfull := fullOrder_build table t.primaryKey cs
  have horders : ((onTable table t.primaryKey).build cs).Orders (ts.rows table) :=
    orders_of_scalars (hfull ▸ hs)
  have hseparates : ((onTable table t.primaryKey).build cs).Separates (ts.rows table) := by
    rw [Separates, hfull]
    exact ht
  obtain ⟨hsorted, hmem⟩ := horders.select hseparates
  rw [hfull] at hsorted
  refine ⟨_, hexecute ts cs, hsorted, fun r => ?_, fun ts' cs' hp hr => ?_⟩
  · have hlimit : ((onTable table t.primaryKey).build cs).plan.limit = Clause.bound cs :=
      (build_limit _ cs).trans (Option.or_none ..)
    rw [hmem r, hlimit, hfull]
    simp only [meets_build]
  · rw [hexecute, select_build_of_reordered table t.primaryKey cs hr, select_eq, select_eq,
      horders.listed_of_perm hseparates hp]

/-! Notes that have ranks of several kinds, or none. -/
namespace RankedNotes
open Query

def table : Table :=
  ⟨"note", [⟨"id", .string, false, none⟩, ⟨"rank", .json, true, none⟩], ["id"]⟩

def schema : Schema := Schema.empty.addTable table

def note (id : String) (rank : List (String × Json)) : Row := .ofList (("id", .str id) :: rank)

def bare : Row := note "n1" []

def second : Row := note "n2" [("rank", .ofNat 2)]

def best : Row := note "n3" [("rank", .str "best")]

def seventh : Row := note "n4" [("rank", .ofNat 7)]

/-- The highest rank behind the best note. -/
def next : List Clause :=
  [.orderBy "rank" .desc, .restrict (.compareColumn "rank" .isNot .null), .limit 9, .start best,
    .restrict (.compareColumn "id" .ne (.str "n9")), .one]

/-- The same calls, with the filters exchanged. -/
def next' : List Clause :=
  [.restrict (.compareColumn "id" .ne (.str "n9")), .orderBy "rank" .desc, .limit 9, .start best,
    .restrict (.compareColumn "rank" .isNot .null), .one]

end RankedNotes

open Query RankedNotes in
/-- Of the notes behind the best one the seventh is selected and the second is not, in whatever order
the notes are stored and the filters are added. -/
theorem Schema.execute_selects_ranked_notes : ∃ rows,
    (schema.query "note").bind (fun q => schema.execute
      (Tables.setRows .empty "note" [bare, second, best, seventh]) (q.build next)) = .ok rows ∧
    (schema.query "note").bind (fun q => schema.execute
      (Tables.setRows .empty "note" [seventh, best, second, bare]) (q.build next')) = .ok rows ∧
    seventh ∈ rows ∧ second ∉ rows := by
  obtain ⟨rows, hrows, -, hmem, hsame⟩ := @Schema.execute_selects schema
    (Tables.setRows .empty "note" [bare, second, best, seventh]) "note" RankedNotes.table rfl next
    (by decide +kernel) (by decide +kernel)
  refine ⟨rows, hrows, hsame _ next' (List.reverse_perm [bare, second, best, seventh])
    ⟨rfl, .swap ..⟩, ?_, ?_⟩
  · exact (hmem seventh).2 ⟨by simp [Tables.rows_setRows], by decide +kernel, fun n hn => by
      obtain rfl := Option.some.inj hn
      decide +kernel⟩
  · exact fun h => absurd (((hmem second).1 h).2.2 1 rfl) (by decide +kernel)

end RowGuard
