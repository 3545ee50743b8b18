import Mathlib.Data.List.Basic
import Mathlib.Logic.Function.Basic

/-!
# Runs of a deterministic machine

A machine is a total step function `step : σ → ε → σ`.  This module has its
runs over finite event lists, the two ways of speaking about a run (a property
of every step, a property of every state), and the induction rules that turn a
step lemma into a run lemma.

* `run` is the state after a list of events.
* `Along P s es` says that `P` holds at every step of the run, read at the
  state before the step and the event.
* `along_of_invariant` and `along_iff_of_invariant` are the invariant rules;
  the second one compares two step properties when the invariant itself is
  only kept by steps that satisfy one of them.
* `run_watched` relates the run of a machine to the run that it watches.
* `trace_eq_of_related` is the rule for two runs over the same events.
* `run_blocks` is the rule for long regular runs: one block lemma, by
  induction, gives the state after any number of blocks.
* `loop_induction` is the invariant rule of a counted loop inside a step, and
  `processed` the array such a loop leaves when it visits each entry once.
-/

namespace WrpcSw
namespace Run

variable {σ ε : Type*} (step : σ → ε → σ)

/-- The state after the events of `es`, in order. -/
def run (s : σ) (es : List ε) : σ := es.foldl step s

@[simp] theorem run_nil (s : σ) : run step s [] = s := rfl

@[simp] theorem run_cons (s : σ) (e : ε) (es : List ε) :
    run step s (e :: es) = run step (step s e) es := rfl

theorem run_append (s : σ) (es fs : List ε) :
    run step s (es ++ fs) = run step (run step s es) fs :=
  List.foldl_append

/-- `P` holds at every step of the run from `s`. -/
def Along (P : σ → ε → Prop) : σ → List ε → Prop
  | _, [] => True
  | s, e :: es => P s e ∧ Along P (step s e) es

variable {step}

theorem along_append {P : σ → ε → Prop} {s : σ} {es fs : List ε} :
    Along step P s (es ++ fs) ↔
      Along step P s es ∧ Along step P (run step s es) fs := by
  induction es generalizing s with
  | nil => simp [Along]
  | cons e es ih => simp [Along, ih, and_assoc]

theorem along_mono {P Q : σ → ε → Prop} (h : ∀ s e, P s e → Q s e) {s : σ} {es : List ε}
    (hP : Along step P s es) : Along step Q s es := by
  induction es generalizing s with
  | nil => trivial
  | cons e es ih => exact ⟨h s e hP.1, ih hP.2⟩

/-- Two step properties that are the same are the same along every run. -/
theorem along_congr {P Q : σ → ε → Prop} (h : ∀ s e, P s e ↔ Q s e) (s : σ) (es : List ε) :
    Along step P s es ↔ Along step Q s es :=
  ⟨along_mono fun s e => (h s e).mp, along_mono fun s e => (h s e).mpr⟩

/-- Two step properties along a run. -/
theorem along_and {P Q : σ → ε → Prop} {s : σ} {es : List ε} (hP : Along step P s es)
    (hQ : Along step Q s es) : Along step (fun s e => P s e ∧ Q s e) s es := by
  induction es generalizing s with
  | nil => trivial
  | cons e es ih => exact ⟨⟨hP.1, hQ.1⟩, ih hP.2 hQ.2⟩

/-- A machine that only watches another one: what it watches runs as the other does. -/
theorem run_watched {τ : Type*} {watch : τ → ε → τ} (f : τ → σ)
    (hstep : ∀ t e, f (watch t e) = step (f t) e) (t : τ) (es : List ε) :
    f (run watch t es) = run step (f t) es := by
  induction es generalizing t with
  | nil => rfl
  | cons e es ih => rw [run_cons, run_cons, ih, hstep]

/-- The property of the last step of a run. -/
theorem along_last {P : σ → ε → Prop} {s : σ} {es : List ε} {e : ε}
    (h : Along step P s (es ++ [e])) : P (run step s es) e :=
  (along_append.mp h).2.1

/-- A step property that follows from an invariant of all steps holds along
every run. -/
theorem along_of_invariant (I : σ → Prop) {P : σ → ε → Prop}
    (hstep : ∀ s e, I s → I (step s e)) (hP : ∀ s e, I s → P s e)
    {s : σ} (hs : I s) (es : List ε) : Along step P s es := by
  induction es generalizing s with
  | nil => trivial
  | cons e es ih => exact ⟨hP s e hs, ih (hstep s e hs)⟩

/-- The rule above for runs over events of one kind. -/
theorem along_of_invariant_on (I : σ → Prop) (E : ε → Prop) {P : σ → ε → Prop}
    (hstep : ∀ s e, I s → E e → I (step s e)) (hP : ∀ s e, I s → E e → P s e)
    {s : σ} (hs : I s) (es : List ε) (hes : ∀ e ∈ es, E e) : Along step P s es := by
  induction es generalizing s with
  | nil => trivial
  | cons e es ih =>
      have he := hes e (List.mem_cons_self ..)
      exact ⟨hP s e hs he, ih (hstep s e hs he) (fun f hf => hes f (List.mem_cons_of_mem _ hf))⟩

/-- An invariant of all steps holds after every run. -/
theorem run_invariant (I : σ → Prop) (hstep : ∀ s e, I s → I (step s e))
    {s : σ} (hs : I s) (es : List ε) : I (run step s es) := by
  induction es generalizing s with
  | nil => exact hs
  | cons e es ih => exact ih (hstep s e hs)

/-- The rule above for runs over events of one kind. -/
theorem run_invariant_on (I : σ → Prop) (E : ε → Prop)
    (hstep : ∀ s e, I s → E e → I (step s e))
    {s : σ} (hs : I s) (es : List ε) (hes : ∀ e ∈ es, E e) : I (run step s es) := by
  induction es generalizing s with
  | nil => exact hs
  | cons e es ih =>
      have he := hes e (List.mem_cons_self ..)
      exact ih (hstep s e hs he) (fun f hf => hes f (List.mem_cons_of_mem _ hf))

/-- An invariant that survives the steps with the property `P` holds after every run
whose steps all have it. -/
theorem run_invariant_of_along (I : σ → Prop) {P : σ → ε → Prop}
    (hstep : ∀ s e, I s → P s e → I (step s e))
    {s : σ} (hs : I s) {es : List ε} (h : Along step P s es) : I (run step s es) := by
  induction es generalizing s with
  | nil => exact hs
  | cons e es ih => exact ih (hstep s e hs h.1) h.2

/-- A step property that follows from another one wherever an invariant holds, when the
invariant survives the steps with the latter. -/
theorem along_of_along (I : σ → Prop) {P Q : σ → ε → Prop}
    (hstep : ∀ s e, I s → Q s e → I (step s e)) (hPQ : ∀ s e, I s → Q s e → P s e)
    {s : σ} (hs : I s) {es : List ε} (h : Along step Q s es) : Along step P s es := by
  induction es generalizing s with
  | nil => trivial
  | cons e es ih => exact ⟨hPQ s e hs h.1, ih (hstep s e hs h.1) h.2⟩

/-- The rule below for runs over events of one kind. -/
theorem along_iff_of_invariant_on (I : σ → Prop) (E : ε → Prop) {P Q : σ → ε → Prop}
    (hstep : ∀ s e, I s → E e → Q s e → I (step s e))
    (hPQ : ∀ s e, I s → E e → (P s e ↔ Q s e))
    {s : σ} (hs : I s) (es : List ε) (hes : ∀ e ∈ es, E e) :
    Along step P s es ↔ Along step Q s es := by
  induction es generalizing s with
  | nil => exact Iff.rfl
  | cons e es ih =>
      have he := hes e (List.mem_cons_self ..)
      have hrest : I (step s e) → (Along step P (step s e) es ↔ Along step Q (step s e) es) :=
        fun hnext => ih hnext (fun f hf => hes f (List.mem_cons_of_mem _ hf))
      simp only [Along, hPQ s e hs he]
      constructor
      · rintro ⟨hq, h⟩
        exact ⟨hq, (hrest (hstep s e hs he hq)).mp h⟩
      · rintro ⟨hq, h⟩
        exact ⟨hq, (hrest (hstep s e hs he hq)).mpr h⟩

/-- Two step properties that agree wherever the invariant holds agree along
every run, provided the invariant survives the steps that satisfy the second
one. -/
theorem along_iff_of_invariant (I : σ → Prop) {P Q : σ → ε → Prop}
    (hstep : ∀ s e, I s → Q s e → I (step s e))
    (hPQ : ∀ s e, I s → (P s e ↔ Q s e))
    {s : σ} (hs : I s) (es : List ε) :
    Along step P s es ↔ Along step Q s es :=
  along_iff_of_invariant_on I (fun _ => True) (fun s e hI _ hQ => hstep s e hI hQ)
    (fun s e hI _ => hPQ s e hI) hs es (fun _ _ => trivial)

variable (step) in
/-- The state after `n` blocks of events, when block `k` takes every state of
stage `k` to a state of stage `k + 1`. -/
theorem run_blocks (Stage : Nat → σ → Prop) (block : Nat → List ε) (n : Nat)
    (hblock : ∀ k, k < n → ∀ s, Stage k s → Stage (k + 1) (run step s (block k)))
    {s : σ} (hs : Stage 0 s) :
    Stage n (run step s ((List.range n).flatMap block)) := by
  induction n with
  | zero => exact hs
  | succ n ih =>
      have hprefix := ih (fun k hk => hblock k (by omega))
      rw [List.range_succ, List.flatMap_append, run_append, List.flatMap_singleton]
      exact hblock n (by omega) _ hprefix

/-! ## Two runs -/

section Trace

variable {β : Type*} (out : σ → β)

variable (step) in
/-- What an observer sees of a run: `out` of the state after each step. -/
def trace : σ → List ε → List β
  | _, [] => []
  | s, e :: es => out (step s e) :: trace (step s e) es

/-- Two runs over the same events look the same, when a relation between their states
survives each step and each step shows the same in both. -/
theorem trace_eq_of_related (R : σ → σ → Prop) (E : ε → Prop)
    (hstep : ∀ s t e, R s t → E e → R (step s e) (step t e) ∧ out (step s e) = out (step t e))
    {s t : σ} (hst : R s t) (es : List ε) (hes : ∀ e ∈ es, E e) :
    trace step out s es = trace step out t es := by
  induction es generalizing s t with
  | nil => rfl
  | cons e es ih =>
      obtain ⟨hnext, hout⟩ := hstep s t e hst (hes e (List.mem_cons_self ..))
      show out (step s e) :: _ = out (step t e) :: _
      rw [hout, ih hnext (fun f hf => hes f (List.mem_cons_of_mem _ hf))]

end Trace

/-! ## Counted loops over arrays -/

/-- The invariant rule of `for (i = 0; i < n; i++)`. -/
theorem loop_induction (Inv : Nat → σ → Prop) (body : σ → Nat → σ) (n : Nat)
    (hbody : ∀ k, k < n → ∀ s, Inv k s → Inv (k + 1) (body s k))
    {s : σ} (hs : Inv 0 s) : Inv n ((List.range n).foldl body s) := by
  induction n with
  | zero => exact hs
  | succ n ih =>
      rw [List.range_succ, List.foldl_append]
      exact hbody n (by omega) _ (ih (fun k hk => hbody k (by omega)))

/-- A fold over the blocks of a counted loop, when one block alone matters to it. -/
theorem foldl_flatMap_single {α β : Type*} (f : α → β → α) (block : Nat → List β) (i n : Nat)
    (hother : ∀ j, j ≠ i → ∀ b ∈ block j, ∀ a, f a b = a) (a : α) :
    ((List.range n).flatMap block).foldl f a = if i < n then (block i).foldl f a else a := by
  have hskip : ∀ l : List β, (∀ b ∈ l, ∀ a, f a b = a) → ∀ a, l.foldl f a = a := by
    intro l hl
    induction l with
    | nil => exact fun a => rfl
    | cons b l ih =>
        intro a
        rw [List.foldl_cons, hl b (List.mem_cons_self ..),
          ih (fun c hc => hl c (List.mem_cons_of_mem _ hc))]
  induction n with
  | zero => rfl
  | succ n ih =>
      rw [List.range_succ, List.flatMap_append, List.foldl_append, ih, List.flatMap_singleton]
      rcases Nat.lt_trichotomy i n with h | rfl | h
      · rw [if_pos h, if_pos (by omega), hskip _ (hother n (by omega))]
      · rw [if_neg (by omega), if_pos (by omega)]
      · rw [if_neg (by omega), if_neg (by omega), hskip _ (hother n (by omega))]

/-- The array `a` with its first `k` entries processed. -/
def processed {α : Type*} (f : Nat → α → α) (a : Nat → α) (k : Nat) : Nat → α :=
  fun i => if i < k then f i (a i) else a i

section Processed

variable {α : Type*} (f : Nat → α → α) (a : Nat → α)

@[simp] theorem processed_zero : processed f a 0 = a := by
  funext i
  simp [processed]

theorem processed_lt {k i : Nat} (h : i < k) : processed f a k i = f i (a i) := by
  simp [processed, h]

theorem processed_ge {k i : Nat} (h : k ≤ i) : processed f a k i = a i := by
  simp [processed, Nat.not_lt.mpr h]

/-- Processing one more entry is one array assignment. -/
theorem update_processed (k : Nat) :
    Function.update (processed f a k) k (f k (a k)) = processed f a (k + 1) := by
  funext i
  rcases Nat.lt_trichotomy i k with h | rfl | h
  · rw [Function.update_of_ne (by omega), processed_lt f a h, processed_lt f a (by omega)]
  · rw [Function.update_self, processed_lt f a (by omega)]
  · rw [Function.update_of_ne (by omega), processed_ge f a (by omega),
      processed_ge f a (by omega)]

end Processed

end Run
end WrpcSw
