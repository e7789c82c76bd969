import Mathlib.Data.List.Sort

/-!
# Queries with an order

An order by a key leaves the order of the rows with equal keys open.  It is that
in which the query meets the rows, and nothing is known of it but that it meets
each of them once.
-/

namespace NostrQ.Foundation

/-- The order in which a query meets its rows. -/
structure Scan (α : Type) where
  visit : List α → List α
  perm : ∀ rows, (visit rows).Perm rows

namespace Scan

variable {α κ : Type}

def stored : Scan α where
  visit := id
  perm := .refl

section OrderBy

variable [LinearOrder κ] (scan : Scan α) (key : α → κ) (rows : List α)

def orderBy : List α :=
  (scan.visit rows).insertionSort fun first second => key first ≤ key second

theorem orderBy_perm : (scan.orderBy key rows).Perm rows :=
  (List.perm_insertionSort _ _).trans (scan.perm rows)

@[simp] theorem mem_orderBy {row : α} :
    row ∈ scan.orderBy key rows ↔ row ∈ rows :=
  (scan.orderBy_perm key rows).mem_iff

@[simp] theorem length_orderBy : (scan.orderBy key rows).length = rows.length :=
  (scan.orderBy_perm key rows).length_eq

theorem orderBy_ordered :
    (scan.orderBy key rows).Pairwise fun first second =>
      key first ≤ key second := by
  have : Std.Total fun first second : α => key first ≤ key second :=
    ⟨fun first second => le_total (key first) (key second)⟩
  have : IsTrans α fun first second => key first ≤ key second :=
    ⟨fun _ _ _ => le_trans⟩
  exact List.pairwise_insertionSort _ _

end OrderBy

end Scan

end NostrQ.Foundation
