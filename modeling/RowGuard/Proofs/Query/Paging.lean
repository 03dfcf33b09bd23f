import RowGuard.Batch
import RowGuard.Proofs.Query.Selection

/-! # Reading a query page by page

A page holds the first of the rows that are still to come: the ones behind the last row of the page
before it.  What is behind a row that has been handed over is behind the row where that page began,
so the pages ascend from one to the next, also when the table changes in between.  A row that is
there all the time is still to come until it is handed over.
-/
namespace RowGuard

namespace Query
variable {q : Query} {within : Row → Prop} {rows : List Row} {last : Option Row} {r l : Row} {n : Nat}

/-- Whether a row comes behind the last row of the page before, or on the first page behind the
cursor of the query itself. -/
def behind (q : Query) : Option Row → Row → Bool
  | some l, r => compareRows q.fullOrder r l == .gt
  | none, r => q.completed.reaches r

/-- The rows that are still to come, in order. -/
def remaining (q : Query) (rows : List Row) (last : Option Row) : List Row :=
  (q.listed rows).filter (q.behind last)

/-- The rows of a class are compared consistently with each other and with the cursor of a query. -/
def Coherent (q : Query) (within : Row → Prop) : Prop :=
  ∀ a, within a → ∀ b, (within b ∨ ∃ c, q.plan.start = some c ∧ c.row = b) →
    a.Concordant q.fullOrder b

instance (q : Query) (rows : List Row) : Decidable (q.Separates rows) :=
  inferInstanceAs (Decidable (rows.Pairwise _))

theorem coherent_scalars (q : Query) : q.Coherent (Row.ScalarIn q.fullOrder) :=
  fun _ ha _ _ => Row.ScalarIn.concordant (.inl ha)

theorem Coherent.orders (h : q.Coherent within) (hr : ∀ r ∈ rows, within r) : q.Orders rows :=
  fun a ha b hb => h a (hr a ha) b (.inl (hr b hb))

theorem Coherent.compareRows_eq (h : q.Coherent within) (hr : within r) (hl : within l) :
    compareRows q.fullOrder r l = Row.kindOrder q.fullOrder r l :=
  Row.compareRows_eq_kindOrder (h r hr l (.inl hl))

theorem mem_remaining : r ∈ q.remaining rows last ↔
    r ∈ rows ∧ q.completed.passes r = true ∧ q.behind last r = true := by
  rw [remaining, List.mem_filter, mem_listed, and_assoc]

theorem select_of_no_limit (h : q.plan.limit = none) (rows : List Row) :
    q.completed.select rows = q.remaining rows none := by
  have hlimit : q.completed.limit = none := h
  rw [select_eq, Plan.cut, hlimit]
  rfl

theorem select_of_limit (h : q.plan.limit = some n) (rows : List Row) :
    q.completed.select rows = (q.remaining rows none).take n := by
  have hlimit : q.completed.limit = some n := h
  rw [select_eq, Plan.cut, hlimit]
  rfl

/-- A row behind one that is still to come is still to come. -/
theorem Coherent.behind_trans (h : q.Coherent within) (hr : within r) (hl : within l)
    (hlast : ∀ x, last = some x → within x) (hbehind : q.behind last l = true)
    (hgt : compareRows q.fullOrder r l = .gt) : q.behind last r = true := by
  rw [h.compareRows_eq hr hl] at hgt
  cases last with
  | some x =>
    have hx := hlast x rfl
    rw [behind, beq_iff_eq, h.compareRows_eq hl hx] at hbehind
    rw [behind, beq_iff_eq, h.compareRows_eq hr hx]
    exact Std.TransCmp.gt_trans hgt hbehind
  | none =>
    simp only [behind, Plan.reaches, completed] at hbehind ⊢
    cases hs : q.plan.start with
    | none => rfl
    | some c =>
      simp only [hs, Cursor.admits] at hbehind ⊢
      rw [Row.compareRows_eq_kindOrder (h l hl _ (.inr ⟨c, hs, rfl⟩))] at hbehind
      rw [Row.compareRows_eq_kindOrder (h r hr _ (.inr ⟨c, hs, rfl⟩))]
      have hge : (Row.kindOrder q.fullOrder l c.row).isGE = true := by
        cases hc : Row.kindOrder q.fullOrder l c.row <;> simp_all
      rw [Std.TransCmp.gt_of_gt_of_isGE hgt hge]

theorem Coherent.remaining_pairwise (h : q.Coherent within) (hr : ∀ r ∈ rows, within r)
    (last : Option Row) :
    (q.remaining rows last).Pairwise fun a b => (Row.kindOrder q.fullOrder a b).isLE = true :=
  List.Pairwise.filter _ (h.orders hr).listed_pairwise

theorem Coherent.sorted_remaining (h : q.Coherent within) (hr : ∀ r ∈ rows, within r)
    (ht : q.Separates rows) (last : Option Row) :
    Sorted (Row.kindOrder q.fullOrder) (q.remaining rows last) :=
  List.Pairwise.filter _ ((h.orders hr).sorted_listed ht)

/-- Behind the last row of a page are the greater ones of the rows that were still to come. -/
theorem Coherent.remaining_some (h : q.Coherent within) (hr : ∀ r ∈ rows, within r)
    (hlast : ∀ x, last = some x → within x)
    (hl : ((q.remaining rows last).take n).getLast? = some l) :
    q.remaining rows (some l) =
      (q.remaining rows last).filter fun r => Row.kindOrder q.fullOrder r l == .gt := by
  obtain ⟨hstored, -, hbehind⟩ := mem_remaining.1 (List.mem_of_mem_take (List.mem_of_getLast? hl))
  rw [remaining, remaining, List.filter_filter]
  refine List.filter_congr fun r hmem => ?_
  have hwithin := hr r (mem_listed.1 hmem).1
  rw [behind, ← h.compareRows_eq hwithin (hr l hstored), Bool.eq_iff_iff, Bool.and_eq_true]
  refine ⟨fun hgt => ⟨hgt, ?_⟩, And.left⟩
  exact h.behind_trans hwithin (hr l hstored) hlast hbehind (beq_iff_eq.1 hgt)

theorem Coherent.remaining_sublist (h : q.Coherent within) (hr : ∀ r ∈ rows, within r)
    (hlast : ∀ x, last = some x → within x)
    (hl : ((q.remaining rows last).take n).getLast? = some l) :
    (q.remaining rows (some l)).Sublist ((q.remaining rows last).drop n) := by
  rw [h.remaining_some hr hlast hl, filter_gt_last (h.remaining_pairwise hr last) hl]
  exact List.filter_sublist

theorem Coherent.remaining_eq_drop (h : q.Coherent within) (hr : ∀ r ∈ rows, within r)
    (ht : q.Separates rows) (hlast : ∀ x, last = some x → within x)
    (hl : ((q.remaining rows last).take n).getLast? = some l) :
    q.remaining rows (some l) = (q.remaining rows last).drop n := by
  rw [h.remaining_some hr hlast hl, (h.sorted_remaining hr ht last).filter_gt_last hl]

end Query

namespace Batch
open Query

section Pages
variable {q : Query} {size : Nat} {last : Option Row} {seen pages : List (List Row)}
  {within : Row → Prop} {rows : List Row} {r : Row}

/-- The pages that are read from the rows seen one after another; all but the last page are full. -/
inductive Pages (q : Query) (size : Nat) :
    Option Row → List (List Row) → List (List Row) → Prop
  | done {last : Option Row} : Pages q size last [] []
  | page {last : Option Row} {rows : List Row} {seen pages : List (List Row)}
      (hfull : pages ≠ [] → size ≤ ((q.remaining rows last).take size).length)
      (rest : Pages q size ((q.remaining rows last).take size).getLast? seen pages) :
      Pages q size last (rows :: seen) ((q.remaining rows last).take size :: pages)

theorem mem_take_remaining (h : r ∈ (q.remaining rows last).take size) :
    r ∈ rows ∧ q.completed.passes r = true ∧ q.behind last r = true :=
  mem_remaining.1 (List.mem_of_mem_take h)

/-- A page that another one follows has a last row. -/
theorem exists_getLast (hsize : 0 < size) (hpages : pages ≠ [])
    (hfull : pages ≠ [] → size ≤ ((q.remaining rows last).take size).length) :
    ∃ l, ((q.remaining rows last).take size).getLast? = some l :=
  ⟨_, List.getLast?_eq_some_getLast (List.length_pos_iff.1 (Nat.lt_of_lt_of_le hsize (hfull hpages)))⟩

theorem within_getLast (hr : ∀ r ∈ rows, within r) :
    ∀ x, ((q.remaining rows last).take size).getLast? = some x → within x :=
  fun x hx => hr x (mem_take_remaining (List.mem_of_getLast? hx)).1

theorem Pages.length_le (h : Pages q size last seen pages) : ∀ p ∈ pages, p.length ≤ size := by
  induction h with
  | done => exact fun _ hp => nomatch hp
  | page _ _ ih => exact List.forall_mem_cons.2 ⟨List.length_take_le .., ih⟩

/-- A row on a page was seen and passes the filter. -/
theorem Pages.mem_seen (h : Pages q size last seen pages) :
    ∀ r ∈ pages.flatten, (∃ rows ∈ seen, r ∈ rows) ∧ q.completed.passes r = true := by
  induction h with
  | done => exact fun _ hr => nomatch hr
  | page _ _ ih =>
    intro r hr
    rcases List.mem_append.1 hr with hr | hr
    · obtain ⟨hstored, hpasses, -⟩ := mem_take_remaining hr
      exact ⟨⟨_, List.mem_cons_self, hstored⟩, hpasses⟩
    · obtain ⟨⟨rows, hrows, hr⟩, hpasses⟩ := ih r hr
      exact ⟨⟨rows, List.mem_cons_of_mem _ hrows, hr⟩, hpasses⟩

/-! ### A table that may change -/

section Changing
variable (hc : q.Coherent within) (hr : ∀ rows ∈ seen, ∀ r ∈ rows, within r)
  (ht : ∀ rows ∈ seen, q.Separates rows)
include hc hr ht

/-- The pages together are in strictly ascending order, and behind the row where they begin. -/
theorem Pages.ascending (h : Pages q size last seen pages) (hsize : 0 < size)
    (hlast : ∀ x, last = some x → within x) :
    Sorted (Row.kindOrder q.fullOrder) pages.flatten ∧
      ∀ r ∈ pages.flatten, within r ∧ q.behind last r = true := by
  induction h with
  | done => exact ⟨.nil, fun _ hr => nomatch hr⟩
  | @page last rows seen pages hfull _ ih =>
    obtain ⟨hrows, hseen⟩ := List.forall_mem_cons.1 hr
    obtain ⟨htie, hties⟩ := List.forall_mem_cons.1 ht
    obtain ⟨hsorted, hrest⟩ := ih hseen hties (within_getLast hrows)
    have hpage : Sorted (Row.kindOrder q.fullOrder) ((q.remaining rows last).take size) :=
      (hc.sorted_remaining hrows htie last).sublist (List.take_sublist ..)
    have hlater : ∀ b ∈ pages.flatten, ∃ l, ((q.remaining rows last).take size).getLast? = some l ∧
        Row.kindOrder q.fullOrder b l = .gt := by
      intro b hb
      have hpages : pages ≠ [] := fun hnil => by simp [hnil] at hb
      obtain ⟨l, hl⟩ := exists_getLast hsize hpages hfull
      obtain ⟨hbw, hbl⟩ := hrest b hb
      rw [hl, behind, beq_iff_eq, hc.compareRows_eq hbw (within_getLast hrows l hl)] at hbl
      exact ⟨l, hl, hbl⟩
    rw [List.flatten_cons]
    refine ⟨List.pairwise_append.2 ⟨hpage, hsorted, fun a ha b hb => ?_⟩, fun b hb => ?_⟩
    · obtain ⟨l, hl, hgt⟩ := hlater b hb
      obtain ⟨first, hfirst⟩ := List.getLast?_eq_some_iff.1 hl
      have hle : (Row.kindOrder q.fullOrder a l).isLE = true := by
        rw [hfirst] at ha hpage
        rcases List.mem_append.1 ha with ha | ha
        · rw [(List.pairwise_append.1 hpage).2.2 a ha l List.mem_cons_self]
          rfl
        · rw [List.mem_singleton.1 ha]
          exact Std.ReflCmp.isLE_rfl
      exact Std.TransCmp.lt_of_isLE_of_lt hle (Std.OrientedCmp.gt_iff_lt.1 hgt)
    · rcases List.mem_append.1 hb with hb | hb
      · obtain ⟨hstored, -, hbehind⟩ := mem_take_remaining hb
        exact ⟨hrows b hstored, hbehind⟩
      · obtain ⟨l, hl, hgt⟩ := hlater b hb
        obtain ⟨hstored, -, hbehind⟩ := mem_take_remaining (List.mem_of_getLast? hl)
        have hbw := (hrest b hb).1
        rw [← hc.compareRows_eq hbw (hrows l hstored)] at hgt
        exact ⟨hbw, hc.behind_trans hbw (hrows l hstored) hlast hbehind hgt⟩

/-- A row that is still to come and is there all the time is on some page, if one is not full. -/
theorem Pages.complete (h : Pages q size last seen pages)
    (hpasses : q.completed.passes r = true) (hthere : ∀ rows ∈ seen, r ∈ rows)
    (hbehind : q.behind last r = true) (hshort : ∃ p ∈ pages, p.length < size) :
    r ∈ pages.flatten := by
  induction h with
  | done => obtain ⟨p, hp, -⟩ := hshort; nomatch hp
  | @page last rows seen pages hfull _ ih =>
    obtain ⟨hrows, hseen⟩ := List.forall_mem_cons.1 hr
    obtain ⟨htie, hties⟩ := List.forall_mem_cons.1 ht
    obtain ⟨hstored, hlater⟩ := List.forall_mem_cons.1 hthere
    rw [List.flatten_cons, List.mem_append]
    refine Classical.or_iff_not_imp_left.2 fun hnot => ?_
    have hrem : r ∈ q.remaining rows last := mem_remaining.2 ⟨hstored, hpasses, hbehind⟩
    -- The page lacks a row that was still to come, so it is full and another one is short.
    have hlong : size < (q.remaining rows last).length := Nat.lt_of_not_le fun hle =>
      hnot (by rwa [List.take_of_length_le hle])
    have hshort' : ∃ p ∈ pages, p.length < size := by
      obtain ⟨p, hp, hlt⟩ := hshort
      rcases List.mem_cons.1 hp with rfl | hp
      · rw [List.length_take] at hlt
        omega
      · exact ⟨p, hp, hlt⟩
    obtain ⟨p, hp, hlt⟩ := hshort'
    obtain ⟨l, hl⟩ := exists_getLast (Nat.zero_lt_of_lt hlt) (List.ne_nil_of_mem hp) hfull
    have hdrop : r ∈ (q.remaining rows last).drop size := by
      rw [← List.take_append_drop size (q.remaining rows last), List.mem_append] at hrem
      exact hrem.resolve_left hnot
    rw [← (hc.sorted_remaining hrows htie last).filter_gt_last hl, List.mem_filter,
      beq_iff_eq, ← hc.compareRows_eq (hrows r hstored) (within_getLast hrows l hl)] at hdrop
    refine ih hseen hties hlater ?_ ⟨p, hp, hlt⟩
    rw [hl, behind, hdrop.2]
    rfl

/-- A row that satisfies a query and is there all the time is on the pages once, if one page is not
full. -/
theorem Pages.once (h : Pages q size none seen pages) (hmeets : q.meets r = true)
    (hthere : ∀ rows ∈ seen, r ∈ rows) (hshort : ∃ p ∈ pages, p.length < size) :
    ∃ before after, pages.flatten = before ++ r :: after ∧ r ∉ before ∧ r ∉ after := by
  obtain ⟨hpasses, hreaches⟩ := Bool.and_eq_true_iff.1 hmeets
  obtain ⟨p, hp, hlt⟩ := hshort
  obtain ⟨hsorted, -⟩ := h.ascending hc hr ht (Nat.zero_lt_of_lt hlt) (by simp)
  obtain ⟨before, after, hsplit, hbefore, hafter⟩ :=
    hsorted.split_of_mem (h.complete hc hr ht hpasses hthere hreaches ⟨p, hp, hlt⟩)
  have hself : Row.kindOrder q.fullOrder r r ≠ .lt := by simp [Std.ReflCmp.compare_self]
  exact ⟨before, after, hsplit, fun h => hself (hbefore r h), fun h => hself (hafter r h)⟩

theorem Pages.sound (h : Pages q size none seen pages) (hsize : 0 < size) :
    ∀ r ∈ pages.flatten, q.meets r = true ∧ ∃ rows ∈ seen, r ∈ rows := by
  intro r hmem
  obtain ⟨hseen, hpasses⟩ := h.mem_seen r hmem
  obtain ⟨-, hwithin⟩ := h.ascending hc hr ht hsize (by simp)
  exact ⟨Bool.and_eq_true_iff.2 ⟨hpasses, (hwithin r hmem).2⟩, hseen⟩

/-- Every row of a page comes before the rows of the pages behind it. -/
theorem Pages.pairwise (h : Pages q size none seen pages) (hsize : 0 < size) :
    pages.Pairwise fun earlier later => ∀ a ∈ earlier, ∀ b ∈ later,
      compareRows q.fullOrder a b = .lt := by
  obtain ⟨hsorted, hwithin⟩ := h.ascending hc hr ht hsize (by simp)
  refine (List.pairwise_flatten.1 (hsorted.imp_of_mem fun ha hb hlt => ?_)).2
  rwa [hc.compareRows_eq (hwithin _ ha).1 (hwithin _ hb).1]

end Changing

/-! ### A table that stays as it is -/

section Unchanged
variable (hsize : 0 < size) (hc : q.Coherent within) (hr : ∀ r ∈ rows, within r)
  (ht : q.Separates rows) (hsame : ∀ x ∈ seen, x = rows) (hlast : ∀ x, last = some x → within x)
include hsize hc hr hsame hlast

/-- Of a table that stays as it is, the pages hold rows that were still to come, in that order. -/
theorem Pages.sublist (h : Pages q size last seen pages) :
    pages.flatten.Sublist (q.remaining rows last) := by
  induction h with
  | done => exact List.nil_sublist _
  | @page last x seen pages hfull _ ih =>
    obtain ⟨rfl, hseen⟩ := List.forall_mem_cons.1 hsame
    have hrest := ih hseen (within_getLast hr)
    have hdrop : pages.flatten.Sublist ((q.remaining x last).drop size) := by
      by_cases hpages : pages = []
      · rw [hpages]
        exact List.nil_sublist _
      · obtain ⟨l, hl⟩ := exists_getLast hsize hpages hfull
        rw [hl] at hrest
        exact hrest.trans (hc.remaining_sublist hr hlast hl)
    rw [List.flatten_cons]
    have hall := (List.Sublist.refl ((q.remaining x last).take size)).append hdrop
    rwa [List.take_append_drop] at hall

include ht

/-- Of a table that stays as it is and has no ties, the pages are the first rows still to come. -/
theorem Pages.flatten_eq (h : Pages q size last seen pages) :
    pages.flatten = (q.remaining rows last).take (size * pages.length) := by
  induction h with
  | done => rfl
  | @page last x seen pages hfull _ ih =>
    obtain ⟨rfl, hseen⟩ := List.forall_mem_cons.1 hsame
    have hrest := ih hseen (within_getLast hr)
    have hdrop : pages.flatten = ((q.remaining x last).drop size).take (size * pages.length) := by
      by_cases hpages : pages = []
      · simp [hpages]
      · obtain ⟨l, hl⟩ := exists_getLast hsize hpages hfull
        rw [hrest, hl, hc.remaining_eq_drop hr ht hlast hl]
    rw [List.flatten_cons, hdrop, List.length_cons, Nat.mul_succ, Nat.add_comm, List.take_add]

/-- The number of pages of a table that stays as it is and has no ties: if one is not full, one more
than the rows fill, and else at most as many as the rows fill. -/
theorem Pages.length_div (h : Pages q size last seen pages) :
    ((∃ p ∈ pages, p.length < size) → pages.length = (q.remaining rows last).length / size + 1) ∧
      ((∀ p ∈ pages, size ≤ p.length) → pages.length ≤ (q.remaining rows last).length / size) := by
  induction h with
  | done => exact ⟨fun ⟨_, hp, _⟩ => (nomatch hp), fun _ => Nat.zero_le _⟩
  | @page last x seen pages hfull _ ih =>
    obtain ⟨rfl, hseen⟩ := List.forall_mem_cons.1 hsame
    have hlength : ((q.remaining x last).take size).length =
        min size (q.remaining x last).length := List.length_take
    by_cases hpages : pages = []
    · subst hpages
      simp only [List.mem_singleton, exists_eq_left, forall_eq, List.length_singleton, hlength]
      refine ⟨fun hlt => ?_, fun hle => ?_⟩
      · rw [Nat.div_eq_of_lt (by omega)]
      · exact (Nat.one_le_div_iff hsize).2 (by omega)
    · obtain ⟨l, hl⟩ := exists_getLast hsize hpages hfull
      obtain ⟨hshort, hlong⟩ := ih hseen (within_getLast hr)
      have hle : size ≤ (q.remaining x last).length := by
        have := hfull hpages
        omega
      rw [hl, hc.remaining_eq_drop hr ht hlast hl, List.length_drop] at hshort hlong
      rw [Nat.div_eq_sub_div hsize hle, List.length_cons]
      refine ⟨fun ⟨p, hp, hlt⟩ => ?_, fun hall => ?_⟩
      · rcases List.mem_cons.1 hp with rfl | hp
        · omega
        · rw [hshort ⟨p, hp, hlt⟩]
      · exact Nat.succ_le_succ (hlong fun p hp => hall p (List.mem_cons_of_mem _ hp))

/-- A reading that ends with a page that is not full, or else with page `m`. -/
theorem Pages.length_eq_min {m : Nat} (h : Pages q size last seen pages)
    (hle : pages.length ≤ m) (hend : (∃ p ∈ pages, p.length < size) ∨ pages.length = m) :
    pages.length = min ((q.remaining rows last).length / size + 1) m := by
  obtain ⟨hshort, hlong⟩ := h.length_div hsize hc hr ht hsame hlast
  by_cases hex : ∃ p ∈ pages, p.length < size
  · rw [← hshort hex, Nat.min_eq_left hle]
  · have hpages := hlong fun p hp => Nat.le_of_not_lt fun hlt => hex ⟨p, hp, hlt⟩
    rw [← hend.resolve_left hex, Nat.min_eq_right (by omega)]

end Unchanged
end Pages

/-! ### The loop -/

section Loop
variable {s : Schema} {contents : Nat → Tables} {mapper : Nat → List Row → Outcome Unit}
  {t : Table} {q : Query} {o : Options} {fuel n : Nat} {last : Option Row}

/-- Each page is read from the tables of its moment. -/
def Source.over (s : Schema) (contents : Nat → Tables) (mapper : Nat → List Row → Outcome Unit) :
    Source := ⟨fun n q => s.execute (contents n) q, mapper⟩

/-- The rows of the table of a query that are seen by the pages `n`, `n + 1`, … -/
def seen (contents : Nat → Tables) (q : Query) (n count : Nat) : List (List Row) :=
  (List.range' n count).map fun i => (contents i).rows q.table

theorem mem_seen_iff {count : Nat} {rows : List Row} :
    rows ∈ seen contents q 0 count ↔ ∃ i < count, (contents i).rows q.table = rows := by
  simp [seen, List.mem_range']

theorem execute_of_declared (hd : s.require q.table = .ok t) (ts : Tables) :
    s.execute ts q = .ok (q.completed.select (ts.rows q.table)) := by
  rw [Schema.execute, hd]

theorem execute_of_undeclared {e : Failure} (hd : s.require q.table = .error e) (ts : Tables) :
    s.execute ts q = .error e := by
  rw [Schema.execute, hd]

theorem select_page (q : Query) (size : Nat) (last : Option Row) (rows : List Row) :
    (page q size last).completed.select rows = (q.remaining rows last).take size := by
  cases last with
  | none => rfl
  | some l =>
    have hreaches : (page q size (some l)).completed.reaches = q.behind (some l) :=
      funext fun r => Cursor.admits_exclusive l q.fullOrder r
    rw [select_eq, hreaches]
    rfl

theorem table_page (q : Query) (size : Nat) (last : Option Row) :
    (page q size last).table = q.table := by cases last <;> rfl

/-- A page of a declared table holds the first rows that are still to come. -/
theorem read_page (hd : s.require q.table = .ok t) (size : Nat) :
    (Source.over s contents mapper).read n (page q size last) =
      .ok ((q.remaining ((contents n).rows q.table) last).take size) := by
  have hpage : s.require (page q size last).table = .ok t := by rwa [table_page]
  refine (execute_of_declared hpage _).trans ?_
  rw [table_page, select_page]

/-- Nothing is handed over of a table that is not declared. -/
theorem run_undeclared {e : Failure} (hd : s.require q.table = .error e) :
    run (.over s contents mapper) q o = ⟨[], 0, .error e⟩ := by
  have hread : (Source.over s contents mapper).read 0 (page q o.pageSize none) = .error e :=
    execute_of_undeclared (by rwa [table_page]) _
  obtain ⟨fuel, hfuel⟩ : ∃ fuel, max o.stopAfter 1 = fuel + 1 :=
    ⟨max o.stopAfter 1 - 1, by omega⟩
  rw [run, hfuel, loop, hread]

/-- A reading hands over the pages of the rows that it sees.  If it succeeds it returns their number,
and it ends with a page that is not full or with the last page that it may read. -/
theorem loop_pages (hd : s.require q.table = .ok t) (hfuel : 0 < fuel)
    (hn : n + fuel = max o.stopAfter 1) :
    let c := loop (.over s contents mapper) q o fuel n last
    Pages q o.pageSize last (seen contents q n c.pages.length) c.pages ∧
      ∀ k, c.result = .ok k → k = n + c.pages.length ∧ k ≤ max o.stopAfter 1 ∧
        ((∃ p ∈ c.pages, p.length < o.pageSize) ∨ k = max o.stopAfter 1) := by
  induction fuel generalizing n last with
  | zero => omega
  | succ fuel ih =>
    have hone : Pages q o.pageSize last [(contents n).rows q.table]
        [(q.remaining ((contents n).rows q.table) last).take o.pageSize] :=
      .page (fun h => absurd rfl h) .done
    simp only [loop, read_page hd]
    cases (Source.over s contents mapper).mapper n _ with
    | error e => exact ⟨hone, fun k hk => nomatch hk⟩
    | ok u =>
      simp only
      split
      · rename_i hend
        refine ⟨hone, fun k hk => ?_⟩
        obtain rfl := Except.ok.inj hk
        refine ⟨rfl, by omega, ?_⟩
        rcases hend with hshort | hstop
        · exact .inl ⟨_, List.mem_singleton.2 rfl, hshort⟩
        · exact .inr (by omega)
      · rename_i hend
        have hfull := Nat.le_of_not_lt fun hlt => hend (.inl hlt)
        obtain ⟨hpages, hresult⟩ := @ih (n + 1)
          ((q.remaining ((contents n).rows q.table) last).take o.pageSize).getLast?
          (by omega) (by omega)
        refine ⟨.page (fun _ => hfull) hpages, fun k hk => ?_⟩
        obtain ⟨hcount, hle, hexit⟩ := hresult k hk
        refine ⟨?_, hle, hexit.imp_left fun ⟨p, hp, hlt⟩ => ⟨p, List.mem_cons_of_mem _ hp, hlt⟩⟩
        rw [hcount, Course.after, List.length_cons]
        omega

variable (contents mapper o) in
theorem run_pages (hd : s.require q.table = .ok t) :
    let c := run (.over s contents mapper) q o
    Pages q o.pageSize none (seen contents q 0 c.pages.length) c.pages ∧
      ∀ k, c.result = .ok k → k = c.pages.length ∧ k ≤ max o.stopAfter 1 ∧
        ((∃ p ∈ c.pages, p.length < o.pageSize) ∨ k = max o.stopAfter 1) := by
  have h := @loop_pages s contents mapper t q o (max o.stopAfter 1) 0 none hd (by omega) (by omega)
  simp only [Nat.zero_add] at h
  exact h

end Loop
end Batch

open Batch Query in
/-- A reading without limit that succeeds hands over rows that satisfy the query, in ascending order
from page to page.  Unless it is ended by the number of its pages, it hands over every row once that
satisfies the query and is there all the time.  If the table does not change it hands over the first
rows of the answer. -/
theorem Schema.paging_delivers {s : Schema} {contents : Nat → Tables}
    {mapper : Nat → List Row → Outcome Unit} {q : Query} {o : Options} {k : Nat}
    (hlimit : q.plan.limit = none)
    (hs : ∀ i < k, ∀ r ∈ (contents i).rows q.table, r.ScalarIn q.fullOrder)
    (ht : ∀ i < k, q.Separates ((contents i).rows q.table))
    (hok : (run (.over s contents mapper) q o).result = .ok k) :
    let pages := (run (.over s contents mapper) q o).pages
    pages.length = k ∧ (∀ p ∈ pages, p.length ≤ max o.chunk 1) ∧
      (∀ r ∈ pages.flatten, q.meets r = true ∧ ∃ i < k, r ∈ (contents i).rows q.table) ∧
      pages.Pairwise (fun earlier later => ∀ a ∈ earlier, ∀ b ∈ later,
        compareRows q.fullOrder a b = .lt) ∧
      ((k < o.stopAfter ∨ ∃ p ∈ pages, p.length < max o.chunk 1) →
        ∀ r, q.meets r = true → (∀ i < k, r ∈ (contents i).rows q.table) →
          ∃ before after, pages.flatten = before ++ r :: after ∧ r ∉ before ∧ r ∉ after) ∧
      ((∀ i < k, (contents i).rows q.table = (contents 0).rows q.table) →
        ∃ rows, s.execute (contents 0) q = .ok rows ∧
          pages.flatten = rows.take (min rows.length (max o.chunk 1 * k)) ∧
          k = min (rows.length / max o.chunk 1 + 1) (max o.stopAfter 1)) := by
  cases hd : s.require q.table with
  | error e =>
    rw [run_undeclared hd] at hok
    nomatch hok
  | ok t =>
    obtain ⟨hpages, hresult⟩ := run_pages contents mapper o hd
    obtain ⟨hk, hle, hexit⟩ := hresult k hok
    have hsize : 0 < o.pageSize := by rw [Options.pageSize]; omega
    rw [← hk] at hpages
    have hseen : ∀ rows ∈ seen contents q 0 k,
        (∀ r ∈ rows, r.ScalarIn q.fullOrder) ∧ q.Separates rows := by
      intro rows hrows
      obtain ⟨i, hi, rfl⟩ := mem_seen_iff.1 hrows
      exact ⟨hs i hi, ht i hi⟩
    have hscalar := fun rows hrows => (hseen rows hrows).1
    have hties := fun rows hrows => (hseen rows hrows).2
    have hc := coherent_scalars q
    refine ⟨hk.symm, hpages.length_le, fun r hr => ?_, hpages.pairwise hc hscalar hties hsize,
      fun hend r hr hthere => ?_, fun hsame => ?_⟩
    · obtain ⟨hmeets, rows, hrows, hr'⟩ := hpages.sound hc hscalar hties hsize r hr
      obtain ⟨i, hi, rfl⟩ := mem_seen_iff.1 hrows
      exact ⟨hmeets, i, hi, hr'⟩
    · refine hpages.once hc hscalar hties hr (fun rows hrows => ?_) ?_
      · obtain ⟨i, hi, rfl⟩ := mem_seen_iff.1 hrows
        exact hthere i hi
      · rcases hend with hlt | hshort
        · exact hexit.resolve_right (Nat.ne_of_lt (Nat.lt_of_lt_of_le hlt (Nat.le_max_left ..)))
        · exact hshort
    · have hpos : 0 < k := by
        rcases hexit with ⟨p, hp, -⟩ | hstop
        · exact hk ▸ List.length_pos_of_mem hp
        · omega
      have hsame' : ∀ x ∈ seen contents q 0 k, x = (contents 0).rows q.table := by
        intro x hx
        obtain ⟨i, hi, rfl⟩ := mem_seen_iff.1 hx
        exact hsame i hi
      refine ⟨_, by rw [execute_of_declared hd, select_of_no_limit hlimit], ?_, ?_⟩
      · rw [hpages.flatten_eq hsize hc (hs 0 hpos) (ht 0 hpos) hsame' (by simp), ← hk,
          List.take_eq_take_min, Nat.min_comm]
        rfl
      · rw [hk] at hle hexit ⊢
        exact hpages.length_eq_min hsize hc (hs 0 hpos) (ht 0 hpos) hsame' (by simp) hle hexit

/-! Notes that come and go while they are read two at a time. -/
namespace MovingNotes
open RankedNotes

def allNotes : Query := .onTable "note" ["id"]

def third : Row := note "n3" []

/-- The first note is deleted behind the first page, and another one is added before the last. -/
def contents : Nat → Tables
  | 0 => Tables.setRows .empty "note" [seventh, second, bare]
  | 1 => Tables.setRows .empty "note" [seventh, third, second]
  | _ => Tables.setRows .empty "note" [second, seventh]

def source : Batch.Source := .over schema contents fun _ _ => .ok ()

end MovingNotes

open RankedNotes MovingNotes in
/-- A note that stays is handed over once, though the notes before it change. -/
theorem Schema.paging_delivers_moving_notes :
    (Batch.run source allNotes ⟨2, none, 100⟩).result = .ok 3 ∧
      ∃ before after, (Batch.run source allNotes ⟨2, none, 100⟩).pages.flatten =
        before ++ seventh :: after ∧ seventh ∉ before ∧ seventh ∉ after := by
  have hok : (Batch.run source allNotes ⟨2, none, 100⟩).result = .ok 3 := by rfl
  obtain ⟨-, -, -, -, honce, -⟩ := Schema.paging_delivers rfl (by decide +kernel)
    (by decide +kernel) hok
  refine ⟨hok, honce (.inl (by decide)) seventh rfl fun i _ => ?_⟩
  match i with
  | 0 | 1 | _ + 2 => simp [contents, allNotes, Query.table, Query.onTable, Tables.rows_setRows]

end RowGuard
