import Mathlib.Data.Nat.ModEq
import Mathlib.Data.Vector.Basic
import Mathlib.Tactic.Ring

/-!
# Ring buffers and byte order

Sequences stored in a vector of `N` cells, with wrap-around after the last cell,
and the big-endian bytes of a number.

* `store` stores a list from an index on, `fetch` fetches cells from an index on;
  both step with `next`.
* `Holds buf i xs` says that the cells from `i` on are the list `xs`.
* `Holds.store_append` and `Holds.fetch_eq` are the rules of the two operations.
* `beNumber_beBytes` is the round trip of the number format.
-/

namespace WrpcSw
namespace RingBuffer

variable {α : Type*} {N : Nat}

/-- The index after `i`. -/
def next (N i : Nat) : Nat := if i + 1 = N then 0 else i + 1

/-- The index `n` cells after `i`. -/
def advance (N i n : Nat) : Nat := (i + n) % N

/-- Store the list `xs` from the index `i` on. -/
def store (buf : Vector α N) (i : Nat) : List α → Vector α N
  | [] => buf
  | x :: xs => store (buf.setIfInBounds i x) (next N i) xs

/-- Fetch the `n` cells from the index `i` on. -/
def fetch [Inhabited α] (buf : Vector α N) (i : Nat) : Nat → List α
  | 0 => []
  | n + 1 => buf[i]?.getD default :: fetch buf (next N i) n

/-- The cells from the index `i` on are the list `xs`. -/
def Holds (buf : Vector α N) (i : Nat) (xs : List α) : Prop :=
  ∀ k, k < xs.length → buf[advance N i k]? = xs[k]?

theorem next_eq {i : Nat} (hi : i < N) : next N i = advance N i 1 := by
  unfold next advance
  split_ifs with hlast
  · rw [hlast, Nat.mod_self]
  · exact (Nat.mod_eq_of_lt (by omega)).symm

theorem advance_lt (hN : 0 < N) (i n : Nat) : advance N i n < N := Nat.mod_lt _ hN

theorem advance_zero {i : Nat} (hi : i < N) : advance N i 0 = i := Nat.mod_eq_of_lt hi

theorem advance_advance (i m n : Nat) : advance N (advance N i m) n = advance N i (m + n) := by
  simp only [advance, Nat.mod_add_mod, Nat.add_assoc]

/-- Fewer than `N` steps apart, two cells differ. -/
theorem advance_inj {i k l : Nat} (hk : k < N) (hl : l < N)
    (h : advance N i k = advance N i l) : k = l := by
  have hmod : k ≡ l [MOD N] := Nat.ModEq.add_left_cancel' i h
  rwa [Nat.ModEq, Nat.mod_eq_of_lt hk, Nat.mod_eq_of_lt hl] at hmod

/-! ## The rules of the operations -/

theorem Holds.nil (buf : Vector α N) (i : Nat) : Holds buf i [] :=
  fun _ hk => absurd hk (Nat.not_lt_zero _)

theorem Holds.append {buf : Vector α N} {i : Nat} {xs ys : List α}
    (h : Holds buf i (xs ++ ys)) : Holds buf i xs ∧ Holds buf (advance N i xs.length) ys := by
  constructor
  · intro k hk
    rw [h k (by rw [List.length_append]; omega), List.getElem?_append_left hk]
  · intro k hk
    rw [advance_advance, h _ (by rw [List.length_append]; omega),
      List.getElem?_append_right (by omega), Nat.add_sub_cancel_left]

/-- Writing the cell after a stored list appends to the list. -/
theorem Holds.set_append {buf : Vector α N} {i : Nat} {xs : List α} (h : Holds buf i xs)
    (hroom : xs.length < N) (x : α) :
    Holds (buf.setIfInBounds (advance N i xs.length) x) i (xs ++ [x]) := by
  intro k hk
  rw [List.length_append, List.length_singleton] at hk
  rw [Vector.getElem?_setIfInBounds]
  by_cases hlast : k = xs.length
  · subst hlast
    rw [if_pos rfl, if_pos (advance_lt (by omega) _ _), List.getElem?_concat_length]
  · have hother : advance N i xs.length ≠ advance N i k := fun heq =>
      hlast (advance_inj hroom (by omega) heq).symm
    rw [if_neg hother, List.getElem?_append_left (by omega), h k (by omega)]

/-- Writing a list after a stored one appends it. -/
theorem Holds.store_append {buf : Vector α N} {i : Nat} {xs ys : List α} (h : Holds buf i xs)
    (hroom : xs.length + ys.length ≤ N) :
    Holds (store buf (advance N i xs.length) ys) i (xs ++ ys) := by
  induction ys generalizing buf xs with
  | nil => rwa [List.append_nil]
  | cons y ys ih =>
      rw [List.length_cons] at hroom
      have hlength : (xs ++ [y]).length = xs.length + 1 := List.length_append
      have hnext := ih (h.set_append (by omega) y) (by omega)
      rw [List.append_assoc, List.singleton_append, hlength] at hnext
      rwa [store, next_eq (advance_lt (by omega) _ _), advance_advance]

/-- Reading from the start of a stored list fetches its elements. -/
theorem Holds.fetch_eq [Inhabited α] {buf : Vector α N} {i n : Nat} {xs : List α}
    (h : Holds buf i xs) (hi : i < N) (hn : n ≤ xs.length) : fetch buf i n = xs.take n := by
  induction n generalizing i xs with
  | zero => rfl
  | succ n ih =>
      cases xs with
      | nil => exact absurd hn (by simp)
      | cons x xs =>
          have happend : Holds buf i ([x] ++ xs) := h
          have htail : Holds buf (advance N i 1) xs := happend.append.2
          have hhead : buf[i]? = some x := by
            simpa [advance_zero hi] using h 0 (Nat.succ_pos _)
          rw [fetch, hhead, next_eq hi, List.take_succ_cons, Option.getD_some,
            ih htail (advance_lt (by omega) _ _) (Nat.le_of_succ_le_succ hn)]

/-! ## Big-endian numbers -/

/-- The `k` low bytes of `v`, the most significant one first. -/
def beBytes : Nat → Nat → List UInt8
  | 0, _ => []
  | k + 1, v => beBytes k (v / 256) ++ [UInt8.ofNat v]

/-- The number whose bytes are `bs`. -/
def beNumber (bs : List UInt8) : Nat := bs.foldl (fun v b => 256 * v + b.toNat) 0

@[simp] theorem length_beBytes (k v : Nat) : (beBytes k v).length = k := by
  induction k generalizing v with
  | zero => rfl
  | succ k ih => simp [beBytes, ih]

@[simp] theorem drop_beBytes {k n : Nat} (h : k ≤ n) (v : Nat) : (beBytes k v).drop n = [] :=
  List.drop_eq_nil_of_le (by rwa [length_beBytes])

@[simp] theorem beNumber_beBytes (k v : Nat) : beNumber (beBytes k v) = v % 256 ^ k := by
  induction k generalizing v with
  | zero => simp [beBytes, beNumber, Nat.mod_one]
  | succ k ih =>
      have hlow : (UInt8.ofNat v).toNat = v % 256 := rfl
      have hprefix : beNumber (beBytes k (v / 256)) = v / 256 % 256 ^ k := ih _
      rw [beNumber] at hprefix
      rw [beBytes, beNumber, List.foldl_append, hprefix, List.foldl_cons, List.foldl_nil, hlow,
        Nat.pow_succ', Nat.mod_mul, Nat.add_comm]

end RingBuffer
end WrpcSw
