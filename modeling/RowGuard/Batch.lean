import RowGuard.Query.Result
import RowGuard.Failure

/-! # Reading a query in chunks

The rows of a query are handed to a mapper one chunk at a time.  Each page after the first starts
behind the last row of the page before it.  The loop ends with the first page that is not full, or
after a given number of pages.
-/
namespace RowGuard.Batch

/-- How a query is read in chunks. -/
structure Options where
  chunk : Nat
  /-- The pause between pages in milliseconds, if there is one. -/
  pause : Option Nat
  stopAfter : Nat

def Options.default : Options := ⟨20, none, 100000⟩

/-- The rows on a full page; there is at least one. -/
def Options.pageSize (o : Options) : Nat := max o.chunk 1

/-- The longest pause: thirty years of 365 days, in milliseconds. -/
def longestPause : Nat := 946080000000

def Options.pauseLength (o : Options) : Nat := min (o.pause.getD 0) longestPause

/-- The query for the page behind a row, or for the first page. -/
def page (q : Query) (size : Nat) (last : Option Row) : Query :=
  match last with
  | some r => (q.limit size).start r
  | none => q.limit size

/-- What a reader of pages depends on: how the n-th page query is answered, and what the mapper says
to the n-th page. -/
structure Source where
  read : Nat → Query → Outcome (List Row)
  mapper : Nat → List Row → Outcome Unit

/-- The course of a reading: the pages handed to the mapper, the pauses taken, and the number of
pages or the failure that ended it. -/
structure Course where
  pages : List (List Row)
  pauses : Nat
  result : Outcome Nat

def Course.paused (c : Course) (o : Options) : Nat := c.pauses * o.pauseLength

/-- A page before the rest of a course. -/
def Course.after (rows : List Row) (paused : Nat) (c : Course) : Course :=
  ⟨rows :: c.pages, paused + c.pauses, c.result⟩

/-- Read pages, at most `fuel` more, after `n` that are done. -/
def loop (src : Source) (q : Query) (o : Options) : Nat → Nat → Option Row → Course
  | 0, n, _ => ⟨[], 0, .ok n⟩
  | fuel + 1, n, last =>
    match src.read n (page q o.pageSize last) with
    | .error e => ⟨[], 0, .error e⟩
    | .ok rows =>
      match src.mapper n rows with
      | .error e => ⟨[rows], 0, .error e⟩
      | .ok () =>
        if rows.length < o.pageSize ∨ o.stopAfter ≤ n + 1 then ⟨[rows], 0, .ok (n + 1)⟩
        else (loop src q o fuel (n + 1) rows.getLast?).after rows (if o.pause.isSome then 1 else 0)

/-- Read a query in chunks. -/
def run (src : Source) (q : Query) (o : Options) : Course := loop src q o (max o.stopAfter 1) 0 none

end RowGuard.Batch
