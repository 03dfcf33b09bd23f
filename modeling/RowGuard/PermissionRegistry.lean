import RowGuard.Predicate

/-! # Registered predicates

For each table the predicate that its mutations were declared with; the last declaration stays.
-/
namespace RowGuard

/-- Predicates by table. -/
abbrev PermissionRegistry := Dict Where

end RowGuard
