/-!
# Bisection

The border of a partitioned array: where a test that holds of a first part and of nothing
after it stops holding. The search halves an interval, so it looks at few entries.
-/
namespace Assembly8085.Bisection

variable {α : Type}

/-- Halves the interval from `low` to `high` as long as it is not empty. Each round leaves less
than half of it, so `rounds` above its binary logarithm are enough. -/
def search (entries : Array α) (test : α → Bool) : (rounds low high : Nat) → Nat
  | 0, low, _ => low
  | rounds + 1, low, high =>
    if low < high then
      let middle := low + (high - low) / 2
      match entries[middle]? with
      | some entry =>
        if test entry then search entries test rounds (middle + 1) high
        else search entries test rounds low middle
      | none => low
    else low

/-- The number of entries in front of the first one that fails the test. -/
def border (entries : Array α) (test : α → Bool) : Nat :=
  search entries test (entries.size.log2 + 1) 0 entries.size

example : border #[0, 4, 8] (· ≤ 3) = 1 := by decide
example : border #[0, 4, 8] (· ≤ 4) = 2 := by decide
example : border #[0, 4, 8] (· ≤ 9) = 3 := by decide
example : border #[1] (· ≤ 0) = 0 := by decide
example : border (#[] : Array Nat) (· ≤ 0) = 0 := by decide

end Assembly8085.Bisection
