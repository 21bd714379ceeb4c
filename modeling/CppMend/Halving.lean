/-!
# Searching by halves

Where a test holds at some places in a row and at none after them, the place where it ceases to hold is
found by asking in the middle of what is left, again and again.

* `Halving.point`      the place that the search comes to;
* `Halving.point_eq`   it is the one where the test ceases to hold.
-/

namespace CppMend

namespace Halving

/-- the place where a test ceases to hold, among `size` places from `low` on -/
def point (test : Nat → Bool) (low size : Nat) : Nat :=
  if size = 0 then low
  else if test (low + size / 2) then point test (low + size / 2 + 1) (size - size / 2 - 1)
  else point test low (size / 2)
termination_by size

theorem point_eq {test : Nat → Bool} {low size k : Nat} (hlow : low ≤ k) (hsize : k ≤ low + size)
    (hyes : ∀ i, low ≤ i → i < k → test i = true)
    (hno : ∀ i, k ≤ i → i < low + size → test i = false) : point test low size = k := by
  induction hn : size using Nat.strongRecOn generalizing low size with
  | ind n ih =>
    subst hn
    rw [point]
    split
    · omega
    · next hpos =>
      split
      · next hmid =>
        -- the place is behind the middle
        have hk : low + size / 2 < k := by
          refine Nat.lt_of_not_le fun hle => ?_
          rw [hno _ hle (by omega)] at hmid
          cases hmid
        exact ih _ (by omega) hk (by omega) (fun i hi => hyes i (by omega))
          (fun i hi hlt => hno i hi (by omega)) rfl
      · next hmid =>
        have hk : k ≤ low + size / 2 := by
          refine Nat.le_of_not_lt fun hlt => hmid ?_
          exact hyes _ (Nat.le_add_right _ _) hlt
        exact ih _ (by omega) hlow hk hyes (fun i hi hlt => hno i hi (by omega)) rfl

end Halving

end CppMend
