import LiveEdit.Order.Sorting
import LiveEdit.Session.Event

/-! Counters, and the lines that show them. A counter shows once it has counted something. -/

namespace LiveEdit

abbrev Counters := List (Counter × Nat)

namespace Counters

def increment (c : Counter) : Counters → Counters
  | [] => [(c, 1)]
  | (d, n) :: rest => if d = c then (d, n + 1) :: rest else (d, n) :: increment c rest

/-- One line for each counter, in the order of the lines. -/
def lines (cs : Counters) : List String :=
  inOrder (fun a b => decide (a ≤ b)) (cs.map fun (c, n) => c.series ++ " " ++ toString n)

end Counters

end LiveEdit
