/-!
# Numbers of 32 bits

Offsets, lines and columns are handed out as numbers of 32 bits. Of a number that is larger, either the
lower bits are kept or the largest number of 32 bits stands for it.

* `Word.wrapped`   the lower 32 bits of a number;
* `Word.clamped`   a number, or the largest one of 32 bits.
-/

namespace CppMend

namespace Word

/-- how many numbers of 32 bits there are -/
def count : Nat := 1 <<< 32

def wrapped (n : Nat) : Nat := n % count

def clamped (n : Nat) : Nat := min n (count - 1)

theorem wrapped_eq {n : Nat} (h : n < count) : wrapped n = n := Nat.mod_eq_of_lt h

theorem clamped_eq {n : Nat} (h : n < count) : clamped n = n := Nat.min_eq_left (Nat.le_sub_one_of_lt h)

/-- The number before, where the largest one comes before zero. -/
def before (n : Nat) : Nat := wrapped (n + (count - 1))

theorem before_succ {n : Nat} (h : n < count) : before (n + 1) = n := by
  have hsum : n + 1 + (count - 1) = n + count := by
    have : 0 < count := by decide
    omega
  rw [before, hsum, wrapped, Nat.add_mod_right, Nat.mod_eq_of_lt h]

end Word

end CppMend
