import RowGuard.Proofs.Query.Paging

/-! # Reading no further than the query

A query that is read page by page should hand over no other rows than its answer holds, and no more
of them.  It does so unless it has a limit of its own, which each page overwrites with the size of
the page, or an ordering column holds arrays or objects that are equal and are written differently.
-/
namespace RowGuard

namespace Batch

/-- The rows handed over are rows of an answer, and no more of them; of an answer that is refused
there are no pages. -/
def Within (answer : Outcome (List Row)) (pages : List (List Row)) : Prop :=
  match answer with
  | .ok rows => (∀ r ∈ pages.flatten, r ∈ rows) ∧ pages.flatten.length ≤ rows.length
  | .error _ => pages = []

theorem within_of_sublist {rows : List Row} {pages : List (List Row)}
    (h : pages.flatten.Sublist rows) : Within (.ok rows) pages :=
  ⟨fun _ hr => h.subset hr, h.length_le⟩

section Limit
variable (src : Source) (q : Query) (o : Options) (m : Nat)

theorem page_limit (size : Nat) (last : Option Row) : page (q.limit m) size last = page q size last := by
  cases last <;> rfl

theorem loop_limit (fuel n : Nat) (last : Option Row) :
    loop src (q.limit m) o fuel n last = loop src q o fuel n last := by
  induction fuel generalizing n last with
  | zero => rfl
  | succ fuel ih => simp only [loop, page_limit, ih]

/-- The limit of a query has no effect on how it is read. -/
theorem run_limit : run src (q.limit m) o = run src q o := loop_limit ..

end Limit
end Batch

open Batch Query in
/-- If the rows of a table that stays as it is are compared consistently, what is handed over of a
query without limit lies in its answer.  If moreover no two rows tie, this holds of a query with a
limit exactly if no more rows are handed over than the limit allows. -/
theorem Schema.pages_within_iff {s : Schema} {ts : Tables} {q : Query}
    (mapper : Nat → List Row → Outcome Unit) (o : Options)
    (hc : q.Coherent (· ∈ ts.rows q.table)) :
    let pages := (run (.over s (fun _ => ts) mapper) q o).pages
    (q.plan.limit = none → Within (s.execute ts q) pages) ∧
      (q.Separates (ts.rows q.table) → (Within (s.execute ts q) pages ↔
        ∀ n, q.plan.limit = some n → pages.flatten.length ≤ n)) := by
  cases hd : s.require q.table with
  | error e =>
    rw [run_undeclared hd, execute_of_undeclared hd]
    exact ⟨fun _ => rfl, fun _ => iff_of_true rfl fun _ _ => Nat.zero_le _⟩
  | ok t =>
    obtain ⟨hpages, -⟩ := run_pages (fun _ => ts) mapper o hd
    have hsize : 0 < o.pageSize := by rw [Options.pageSize]; omega
    have hsame : ∀ x ∈ seen (fun _ => ts) q 0 (run (.over s (fun _ => ts) mapper) q o).pages.length,
        x = ts.rows q.table := by
      intro x hx
      obtain ⟨-, -, rfl⟩ := mem_seen_iff.1 hx
      rfl
    have hunlimited : q.plan.limit = none →
        Within (s.execute ts q) (run (.over s (fun _ => ts) mapper) q o).pages := by
      intro hlimit
      rw [execute_of_declared hd, select_of_no_limit hlimit]
      exact within_of_sublist
        (hpages.sublist hsize hc (fun _ h => h) hsame (by simp))
    refine ⟨hunlimited, fun ht => ?_⟩
    cases hlimit : q.plan.limit with
    | none => exact iff_of_true (hunlimited hlimit) (by simp)
    | some n =>
      have hflat := hpages.flatten_eq hsize hc (fun _ h => h) ht hsame (by simp)
      rw [execute_of_declared hd, select_of_limit hlimit]
      simp only [Option.some.injEq, forall_eq']
      refine ⟨fun hwithin => Nat.le_trans hwithin.2 (List.length_take_le ..), fun hle => ?_⟩
      have hprefix := List.prefix_take_iff.2 ⟨hflat ▸ List.take_prefix .., hle⟩
      exact within_of_sublist hprefix.sublist

/-! Three notes with ranks that follow each other in a circle: a list with the number minus zero, one
with a negative number, and one with the number zero.  The texts of the first two are in this order,
those of the last two as well, and the first equals the last. -/
namespace CircledNotes
open RankedNotes

def ranked (id : String) (n : Number) : Row := note id [("rank", .arr [.num n])]

def minusZero : Row := ranked "n3" .minusZero

def minusOne : Row := ranked "n2" (.negative 0)

def zero : Row := ranked "n1" (.double 0)

def byRank : Query := (Query.onTable "note" ["id"]).orderBy "rank" .asc

def stored : Tables := Tables.setRows .empty "note" [minusZero, minusOne, zero]

/-- Rows that are in a circle are handed over again and again. -/
example : (Batch.run (.over schema (fun _ => stored) fun _ _ => .ok ()) byRank ⟨1, none, 5⟩).pages =
    [[minusZero], [minusOne], [zero], [minusZero], [minusOne]] := by rfl

end CircledNotes

/-! Notes of which a query asks for some. -/
namespace LimitedNotes
open RankedNotes MovingNotes

def stored : Tables := Tables.setRows .empty "note" [second, bare]

def reader : Batch.Source := .over schema (fun _ => stored) fun _ _ => .ok ()

theorem scalarIn_stored : ∀ r ∈ stored.rows "note", r.ScalarIn allNotes.fullOrder := by decide +kernel

end LimitedNotes

open RankedNotes MovingNotes LimitedNotes Batch in
/-- Two of two notes are handed over to a reader who asked for at most nine. -/
theorem Schema.pages_within_of_two_notes :
    Within (schema.execute stored (allNotes.limit 9)) (run reader (allNotes.limit 9) .default).pages :=
  ((Schema.pages_within_iff (q := allNotes.limit 9) (fun _ _ => .ok ()) .default fun a ha _ _ =>
    Row.ScalarIn.concordant (.inl (scalarIn_stored a ha))).2 (by decide +kernel)).2 fun n hn => by
      obtain rfl := Option.some.inj hn
      decide +kernel

open RankedNotes MovingNotes LimitedNotes Batch in
/-- A query for a single note has one row in its answer, and a reading hands over two. -/
theorem Schema.pages_exceed_single_note :
    schema.execute stored allNotes.one = .ok [bare] ∧
      (run reader allNotes.one .default).pages = [[bare, second]] ∧
      ¬ Within (schema.execute stored allNotes.one) (run reader allNotes.one .default).pages := by
  have hanswer : schema.execute stored allNotes.one = .ok [bare] := by rfl
  have hpages : (run reader allNotes.one .default).pages = [[bare, second]] := by rfl
  refine ⟨hanswer, hpages, fun h => ?_⟩
  rw [hanswer, hpages] at h
  exact absurd h.2 (by decide)

end RowGuard
