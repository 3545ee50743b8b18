import Mathlib.Data.List.Nodup
import Mathlib.Logic.Function.Basic
import Mathlib.Tactic

/-!
# Singly linked lists

The nodes of a list are found through the pointers that are stored in a head cell and in
the nodes.  A list of nodes describes what a walk over the pointers meets.

* `Linked next head l` — the walk from `head` meets the nodes `l` and ends.
* `Linked.nodup`, `Linked.unique` — the nodes are distinct and there is one such list.
* `search_eq` — the walk that looks for a node finds the first of `l`.
* `Linked.push`, `Linked.unlink` — inserting at the head and taking a node out.
-/

namespace WrpcSw
namespace LinkedList

variable {ι : Type*} {next next' : ι → Option ι} {head : Option ι} {l m : List ι} {i : ι}

/-- The walk from `head` meets the nodes of the list and ends. -/
def Linked (next : ι → Option ι) : Option ι → List ι → Prop
  | head, [] => head = none
  | head, i :: l => head = some i ∧ Linked next (next i) l

@[simp] theorem linked_nil : Linked next head [] ↔ head = none := Iff.rfl

@[simp] theorem linked_cons : Linked next head (i :: l) ↔ head = some i ∧ Linked next (next i) l :=
  Iff.rfl

/-- A walk meets one list of nodes. -/
theorem Linked.unique (hl : Linked next head l) (hm : Linked next head m) : l = m := by
  induction l generalizing head m with
  | nil =>
      cases m with
      | nil => rfl
      | cons j m => exact absurd (hl.symm.trans hm.1) (by simp)
  | cons i l ih =>
      cases m with
      | nil => exact absurd (hm.symm.trans hl.1) (by simp)
      | cons j m =>
          obtain rfl : i = j := Option.some.inj (hl.1.symm.trans hm.1)
          rw [ih hl.2 hm.2]

/-- From a node on, the walk meets the rest of the list. -/
theorem Linked.suffix (h : Linked next head (l ++ i :: m)) : Linked next (next i) m := by
  induction l generalizing head with
  | nil => exact h.2
  | cons j l ih => exact ih h.2

/-- A walk that ends meets no node twice. -/
theorem Linked.nodup (h : Linked next head l) : l.Nodup := by
  induction l generalizing head with
  | nil => exact List.nodup_nil
  | cons i l ih =>
      refine List.nodup_cons.mpr ⟨?_, ih h.2⟩
      -- after a second visit the walk would be as long as after the first one
      intro hi
      obtain ⟨a, b, rfl⟩ := List.append_of_mem hi
      have hlen := congrArg List.length (h.2.unique h.2.suffix)
      simp only [List.length_append, List.length_cons] at hlen
      omega

/-- A walk does not depend on the nodes that it does not meet. -/
theorem Linked.congr (h : Linked next head l) (hnext : ∀ j ∈ l, next' j = next j) :
    Linked next' head l := by
  induction l generalizing head with
  | nil => exact h
  | cons i l ih =>
      refine ⟨h.1, ?_⟩
      rw [hnext i (List.mem_cons_self ..)]
      exact ih h.2 (fun j hj => hnext j (List.mem_cons_of_mem _ hj))

/-- The last pointer of a list may be read and changed: the walk goes on with the other
list. -/
theorem Linked.append (h : Linked next head (l ++ i :: m)) (hl : ∀ j ∈ l, next' j = next j)
    {m' : List ι} (hm : Linked next' (next' i) m') : Linked next' head (l ++ i :: m') := by
  induction l generalizing head with
  | nil => exact ⟨h.1, hm⟩
  | cons j l ih =>
      refine ⟨h.1, ?_⟩
      rw [hl j (List.mem_cons_self ..)]
      exact ih h.2 (fun k hk => hl k (List.mem_cons_of_mem _ hk))

/-! ## Looking for a node -/

/-- The loop that looks for a node with the property `p`, for at most `n` nodes; it fails if
that is not enough. -/
def search (next : ι → Option ι) (p : ι → Bool) : Nat → Option ι → Option (Option ι)
  | _, none => some none
  | 0, some _ => none
  | n + 1, some i => if p i then some (some i) else search next p n (next i)

/-- On a list that ends the loop does, with the first node that has the property. -/
theorem search_eq (h : Linked next head l) (p : ι → Bool) {n : Nat} (hn : l.length ≤ n) :
    search next p n head = some (l.find? p) := by
  induction l generalizing head n with
  | nil =>
      obtain rfl : head = none := h
      cases n <;> rfl
  | cons i l ih =>
      obtain ⟨rfl, hrest⟩ := h
      rw [List.length_cons] at hn
      obtain ⟨k, rfl⟩ : ∃ k, n = k + 1 := ⟨n - 1, by omega⟩
      rw [search, List.find?_cons]
      cases hp : p i with
      | true => rfl
      | false => exact ih hrest (by omega)

/-! ## Insertion and removal -/

section Update

variable [DecidableEq ι]

/-- A node that is not in the list is inserted before it. -/
theorem Linked.push (h : Linked next head l) (hi : i ∉ l) :
    Linked (Function.update next i head) (some i) (i :: l) := by
  refine ⟨rfl, ?_⟩
  rw [Function.update_self]
  apply h.congr
  intro j hj
  rw [Function.update_of_ne]
  rintro rfl
  exact hi hj

/-- A place where a pointer is stored. -/
inductive Cell (ι : Type*)
  | head
  | next (i : ι)
deriving DecidableEq, Repr

/-- The pointer that is stored in a cell. -/
def Cell.read (head : Option ι) (next : ι → Option ι) : Cell ι → Option ι
  | .head => head
  | .next i => next i

/-- The loop over the cells that looks for the one that points to `i` or to nothing, for at
most `n` nodes. -/
def searchCell (head : Option ι) (next : ι → Option ι) (i : ι) : Nat → Cell ι → Option (Cell ι)
  | n, c =>
      match c.read head next with
      | none => some c
      | some j =>
          if j = i then some c
          else
            match n with
            | 0 => none
            | n + 1 => searchCell head next i n (.next j)

/-- The cell that points to the node after the nodes `l`, when one starts from `c`. -/
def lastCell (c : Cell ι) (l : List ι) : Cell ι := (l.map Cell.next).getLastD c

omit [DecidableEq ι] in
theorem lastCell_cons (c : Cell ι) (j : ι) (l : List ι) :
    lastCell c (j :: l) = lastCell (.next j) l := by
  unfold lastCell
  rw [List.map_cons, List.getLastD_cons]

omit [DecidableEq ι] in
theorem lastCell_append (c : Cell ι) (j : ι) (l : List ι) :
    lastCell c (l ++ [j]) = .next j := by
  simp [lastCell]

/-- A round of the loop at a cell that points to another node. -/
theorem searchCell_next {c : Cell ι} {j : ι} (hj : c.read head next = some j) (hne : j ≠ i)
    (n : Nat) : searchCell head next i (n + 1) c = searchCell head next i n (.next j) := by
  rw [searchCell]
  simp only [hj, if_neg hne]

/-- The loop stops at the end of the list if the node is not in it. -/
theorem searchCell_of_notMem {c : Cell ι} (h : Linked next (c.read head next) l) (hi : i ∉ l)
    {n : Nat} (hn : l.length ≤ n) :
    searchCell head next i n c = some (lastCell c l) ∧
      (lastCell c l).read head next = none := by
  induction l generalizing c n with
  | nil =>
      have hnone : c.read head next = none := h
      unfold searchCell
      simp only [hnone]
      exact ⟨rfl, hnone⟩
  | cons j l ih =>
      rw [List.length_cons] at hn
      obtain ⟨k, rfl⟩ : ∃ k, n = k + 1 := ⟨n - 1, by omega⟩
      obtain ⟨hj, hrest⟩ := h
      have hne : j ≠ i := fun hji => hi (hji ▸ List.mem_cons_self ..)
      rw [searchCell_next hj hne, lastCell_cons]
      exact @ih (.next j) hrest (fun hmem => hi (List.mem_cons_of_mem _ hmem)) k (by omega)

/-- The loop stops at the cell that points to the node. -/
theorem searchCell_of_mem {c : Cell ι} (h : Linked next (c.read head next) (l ++ i :: m))
    (hi : i ∉ l) {n : Nat} (hn : l.length ≤ n) :
    searchCell head next i n c = some (lastCell c l) ∧
      (lastCell c l).read head next = some i := by
  induction l generalizing c n with
  | nil =>
      have hsome : c.read head next = some i := h.1
      unfold searchCell
      simp only [hsome, if_true]
      exact ⟨rfl, hsome⟩
  | cons j l ih =>
      rw [List.length_cons] at hn
      obtain ⟨k, rfl⟩ : ∃ k, n = k + 1 := ⟨n - 1, by omega⟩
      obtain ⟨hj, hrest⟩ := h
      have hne : j ≠ i := fun hji => hi (hji ▸ List.mem_cons_self ..)
      rw [searchCell_next hj hne, lastCell_cons]
      exact @ih (.next j) hrest (fun hmem => hi (List.mem_cons_of_mem _ hmem)) k (by omega)

/-- Store the pointer `p` in a cell. -/
def Cell.write (head : Option ι) (next : ι → Option ι) (p : Option ι) :
    Cell ι → Option ι × (ι → Option ι)
  | .head => (p, next)
  | .next i => (head, Function.update next i p)

/-- A node is taken out by storing its pointer in the cell that pointed to it. -/
theorem Linked.unlink (h : Linked next head (l ++ i :: m)) :
    let written := (lastCell .head l).write head next (next i)
    Linked written.2 written.1 (l ++ m) := by
  cases l using List.reverseRec with
  | nil => exact h.suffix
  | append_singleton l k =>
      rw [List.append_assoc, List.singleton_append] at h ⊢
      rw [lastCell_append]
      -- the node before is met once, so that nothing else of the walk changes
      obtain ⟨-, hnodup, hdisjoint⟩ := List.nodup_append.mp h.nodup
      have hk : k ∉ i :: m := (List.nodup_cons.mp hnodup).1
      apply h.append
      · intro j hj
        exact Function.update_of_ne (hdisjoint j hj k (List.mem_cons_self ..)) _ _
      · show Linked (Function.update next k (next i)) (Function.update next k (next i) k) m
        rw [Function.update_self]
        apply h.suffix.2.congr
        intro j hj
        rw [Function.update_of_ne]
        rintro rfl
        exact hk (List.mem_cons_of_mem _ hj)

end Update

end LinkedList
end WrpcSw
