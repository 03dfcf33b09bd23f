import RowGuard.Query.Basic

/-! # Results of queries -/
namespace RowGuard

/-- Whether a result is the last word. -/
inductive ResultStatus where
  /-- Local data only; the server may still change the answer. -/
  | unknown
  | complete
deriving DecidableEq, Repr

def ResultStatus.name : ResultStatus → String
  | unknown => "unknown"
  | complete => "complete"

/-- The rows that a query found, and whether they are the last word. -/
structure QueryResult where
  rows : List Row
  status : ResultStatus

def QueryResult.first? (r : QueryResult) : Option Row := r.rows.head?

end RowGuard
