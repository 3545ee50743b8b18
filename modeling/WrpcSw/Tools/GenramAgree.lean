import WrpcSw.Tools.VhdPackage

/-!
# The three generators

The outputs of `genramvhd`, `genrammif` and `genraminit` for one image and one memory are compared.

* `printed_iff` — the words that `genraminit` and `genrammif` print are the memory of the image
  exactly if there is room behind the image and its last word is zero.
* `init_iff`, `mif_iff` — what the two programs describe.
* `genram_agree_iff` — the three programs together.
-/

namespace WrpcSw
namespace Tools

open PpPrintf (ascii)

/-! ## The last word -/

theorem wordOf_eq_zero_iff {w : List UInt8} (hw : w.length = 4) :
    wordOf w = 0 ↔ ∀ byte ∈ w, byte = 0 := by
  obtain ⟨a, b, c, d, rfl⟩ := exists_four hw
  have hvalue : wordOf [a, b, c, d] =
      256 * (256 * (256 * (256 * 0 + a.toNat) + b.toNat) + c.toNat) + d.toNat := rfl
  have hbyte : ∀ byte : UInt8, byte = 0 ↔ byte.toNat = 0 := fun byte => UInt8.toNat_inj.symm
  simp only [hvalue, List.forall_mem_cons, hbyte, List.not_mem_nil, false_implies, implies_true,
    and_true]
  omega

/-- The last word of the image is zero. -/
def EndsWithZero (image : List UInt8) : Prop := ∀ byte ∈ image.drop (image.length - 4), byte = 0

instance (image : List UInt8) : Decidable (EndsWithZero image) :=
  decidable_of_iff ((image.drop (image.length - 4)).all (· = 0)) (by simp [EndsWithZero])

section Condition

variable {ws : List (List UInt8)} (hne : ws ≠ []) (hws : ∀ w ∈ ws, w.length = 4)

include hne hws

theorem endsWithZero_iff : EndsWithZero ws.flatten ↔ wordOf (ws.getLastD zeroWord) = 0 := by
  rw [wordOf_eq_zero_iff (length_getLastD hne hws zeroWord)]
  rcases List.eq_nil_or_concat' ws with rfl | ⟨us, w, rfl⟩
  · exact absurd rfl hne
  · have hw : w.length = 4 := hws w (List.mem_append_right us List.mem_cons_self)
    have hlast : (us ++ [w]).getLastD zeroWord = w := List.getLastD_concat ..
    have hflatten : (us ++ [w]).flatten = us.flatten ++ w := by
      rw [List.flatten_append, List.flatten_singleton]
    have hdrop : (us.flatten ++ w).length - 4 = us.flatten.length := by
      rw [List.length_append]
      omega
    rw [EndsWithZero, hflatten, hdrop, List.drop_left, hlast]

/-- The printed words are the memory exactly if the additional one is a zero behind the image. -/
theorem printed_iff {n : Nat} (hn : ws.length ≤ n) :
    Memory.mk 32 ((printed ws n).map wordOf) = memoryOf ws.flatten n ↔
      ws.length < n ∧ EndsWithZero ws.flatten := by
  rw [memoryOf_flatten hws hn, endsWithZero_iff hne hws, Memory.mk.injEq, printed, List.append_assoc,
    List.map_append, List.append_cancel_left_eq]
  obtain ⟨m, rfl⟩ := Nat.exists_eq_add_of_le hn
  cases m with
  | zero =>
      constructor
      · rintro ⟨-, hwords⟩
        rw [Nat.add_zero, Nat.sub_self] at hwords
        exact absurd hwords (List.cons_ne_nil _ _)
      · rintro ⟨hroom, -⟩
        omega
  | succ m =>
      have hpad : ws.length + (m + 1) - (ws.length + 1) = m := by omega
      rw [hpad, Nat.add_sub_cancel_left, List.map_append, List.map_replicate, List.replicate_succ]
      constructor
      · rintro ⟨-, hwords⟩
        exact ⟨by omega, (List.cons.inj hwords).1⟩
      · rintro ⟨-, hzero⟩
        exact ⟨rfl, congrArg (· :: List.replicate m 0) hzero⟩

end Condition

/-! ## The programs -/

/-- What a build hands to the three programs.  The buffers are what the stack of each holds. -/
structure Build where
  host : Host
  program : List UInt8
  file : List UInt8
  package : Option (List UInt8)
  initBuffer : Vector UInt8 4
  mifBuffer : Vector UInt8 4
  vhdBuffer : Vector UInt8 16

/-- The three outputs for a memory of `n` words describe the memory of the image. -/
structure Agree (b : Build) (image : List UInt8) (n : Nat) : Prop where
  vhd : ((genramvhd b.host b.vhdBuffer (vhdCommand b.program b.file b.package n)).bind
    fun o => readVhd o.stdout) = some (memoryOf image n)
  mif : readMif (genrammif b.host b.mifBuffer (mifArgs b.program b.file n)).stdout =
    some (memoryOf image n)
  init : readInit (genraminit b.host b.initBuffer (initArgs b.program b.file n)).stdout =
    some (memoryOf image n)

section Programs

variable {b : Build} {ws : List (List UInt8)} {n : Nat}
  (hfile : b.host.fopen b.file = some ws.flatten) (hne : ws ≠ [])
  (hws : ∀ w ∈ ws, w.length = 4) (hn : ws.length ≤ n)

include hfile hne hws hn

theorem init_iff (hroom : ws.length + 1 < 2 ^ 31) (hint : n < 2 ^ 31) :
    readInit (genraminit b.host b.initBuffer (initArgs b.program b.file n)).stdout =
        some (memoryOf ws.flatten n) ↔ ws.length < n ∧ EndsWithZero ws.flatten := by
  rw [readInit_genraminit hfile hne hws hroom b.initBuffer hint, Option.some.injEq]
  exact printed_iff hne hws hn

theorem mif_iff :
    readMif (genrammif b.host b.mifBuffer (mifArgs b.program b.file n)).stdout =
        some (memoryOf ws.flatten n) ↔
      (ws.length < n ∧ EndsWithZero ws.flatten) ∧ 4 * n < 2 ^ 31 := by
  have hprinted : ∀ w ∈ printed ws n, w.length = 4 :=
    fun w hw => length_of_mem_printed hne hws hw
  have hlength := length_printed ws n
  constructor
  · intro hread
    have hdepth := depth_genrammif hfile b.mifBuffer hread
    have hwords : (memoryOf ws.flatten n).words.length = n := by
      rw [memoryOf, List.length_map, List.length_range]
    rw [hwords] at hdepth
    have hint : 4 * n < 2 ^ 31 := by
      have hlt := atoi_lt (decimal (4 * n))
      by_cases hnonneg : 0 ≤ atoi (decimal (4 * n))
      · rw [Int.tdiv_eq_ediv_of_nonneg hnonneg] at hdepth
        omega
      · have hquotient : 0 ≤ (-atoi (decimal (4 * n))).tdiv 4 :=
          Int.tdiv_nonneg (by omega) (by decide)
        rw [Int.neg_tdiv] at hquotient
        omega
    rw [readMif_genrammif hfile b.mifBuffer hne hws (by omega) hint] at hread
    have hcount := tabulate_length hread
    rw [length_numbered] at hcount
    have htable := tabulate_numbered hprinted
    rw [hcount, hread] at htable
    exact ⟨(printed_iff hne hws hn).mp (Option.some.inj htable).symm, hint⟩
  · rintro ⟨hcondition, hint⟩
    have htable := tabulate_numbered hprinted
    have hcount : (printed ws n).length = n := by omega
    rw [hcount] at htable
    rw [readMif_genrammif hfile b.mifBuffer hne hws (by omega) hint, htable,
      (printed_iff hne hws hn).mpr hcondition]

end Programs

/-- The three programs describe the memory of the image exactly if there is room behind the image,
its last word is zero, and the size of the memory in bytes is an `int`. -/
theorem genram_agree_iff {b : Build} {image name : List UInt8} {k n : Nat}
    (hfile : b.host.fopen b.file = some image)
    (hname : packageName b.program b.file b.package = .ok name) (hlen : image.length = 4 * k)
    (hk : 1 ≤ k) (hn : k ≤ n) :
    Agree b image n ↔ (k < n ∧ EndsWithZero image) ∧ 4 * n < 2 ^ 31 := by
  obtain ⟨ws, rfl, rfl, hws⟩ := exists_words hlen
  have hne : ws ≠ [] := List.length_pos_iff.mp hk
  have hmif := mif_iff hfile hne hws hn
  constructor
  · intro hagree
    exact hmif.mp hagree.mif
  · rintro ⟨hcondition, hint⟩
    exact
      { vhd := readVhd_genramvhd hws hfile hname b.vhdBuffer hne hn (by omega)
        mif := hmif.mpr ⟨hcondition, hint⟩
        init := (init_iff hfile hne hws hn (by omega) (by omega)).mpr hcondition }

/-- A build of a given image in `wrc.bin`. -/
def buildOf (image : List UInt8) : Build :=
  { host := { fopen := fun _ => some image, strerror := [] }
    program := ascii "genram"
    file := ascii "wrc.bin"
    package := none
    initBuffer := Vector.replicate 4 0
    mifBuffer := Vector.replicate 4 0
    vhdBuffer := Vector.replicate 16 0 }

/-- Two words, the second of which is zero, in a memory of three. -/
theorem genram_agree_padded : Agree (buildOf [1, 2, 3, 4, 0, 0, 0, 0]) [1, 2, 3, 4, 0, 0, 0, 0] 3 :=
  (genram_agree_iff rfl (show packageName _ _ _ = .ok (ascii "wrc_bin") from rfl)
    (show [1, 2, 3, 4, 0, 0, 0, 0].length = 4 * 2 from rfl) (by decide) (by decide)).mpr
    ⟨⟨by decide, by decide⟩, by decide⟩

/-- One word in a memory of two. -/
theorem genram_word_repeated : ¬ Agree (buildOf [1, 2, 3, 4]) [1, 2, 3, 4] 2 := by
  intro hagree
  have hws : ∀ w ∈ [([1, 2, 3, 4] : List UInt8)], w.length = 4 := by
    intro w hw
    rw [List.mem_singleton.mp hw]
    rfl
  have hfile : (buildOf [1, 2, 3, 4]).host.fopen (buildOf [1, 2, 3, 4]).file =
      some [[1, 2, 3, 4]].flatten := rfl
  have hcondition := (init_iff hfile (List.cons_ne_nil _ _) hws (by decide) (by decide)
    (by decide)).mp hagree.init
  exact absurd hcondition.2 (by decide)

end Tools
end WrpcSw
