import StatelessGuest.Ssz.Bytes

/-!
# Overwriting a part of a byte string

## Main definitions

* `overwrite` — a byte string with other bytes at an offset.

## Main results

* `window_overwrite` — what has been written is found there.
* `window_overwrite_apart` — **every other part is as before.**
-/

namespace Format

open Ssz

/-- `b` with the bytes `new` from offset `off` on. -/
def overwrite (b : Bytes) (off : ℕ) (new : Bytes) : Bytes :=
  b.take off ++ new ++ b.drop (off + new.length)

variable {b new : Bytes} {off : ℕ}

theorem length_overwrite (h : off + new.length ≤ b.length) :
    (overwrite b off new).length = b.length := by
  rw [overwrite, List.length_append, List.length_append, List.length_take, List.length_drop]
  omega

/-- What has been written. -/
theorem window_overwrite (h : off + new.length ≤ b.length) :
    window (overwrite b off new) off new.length = new := by
  have hlen : (b.take off).length = off := by
    rw [List.length_take]
    omega
  rw [overwrite, List.append_assoc, window_append_of_ge hlen.le, hlen, Nat.sub_self,
    window_append_self rfl]

/-- **What lies apart from it.** -/
theorem window_overwrite_apart (h : off + new.length ≤ b.length) {k n : ℕ}
    (hapart : k + n ≤ off ∨ off + new.length ≤ k) :
    window (overwrite b off new) k n = window b k n := by
  have hlen : (b.take off).length = off := by
    rw [List.length_take]
    omega
  unfold overwrite
  rcases hapart with hbelow | habove
  · rw [List.append_assoc, window_append_of_le (by omega), window_take hbelow]
  · have hhead : (b.take off ++ new).length = off + new.length := by
      rw [List.length_append, hlen]
    rw [window_append_of_ge (by omega), hhead, window_drop]
    congr 1
    omega

end Format
