import WrpcSw.Lib.AddressSpace
import WrpcSw.Lib.CInt
import WrpcSw.Lib.Run
import WrpcSw.Storage.Sdbfs

/-!
# Mapped filesystems (`sdb-lib/access.c`, `sdb-lib/libsdbfs.h`)

A filesystem has its image in memory (`fs->data`), or reaches it through the methods of a driver.
`sdbfs_fread` and `sdbfs_fwrite` have a path for each.

The two paths differ in what they return for a call that is cut at the end of the file, and the
mapped path of `sdbfs_fwrite` copies from the image to the buffer of its caller.

* `safe_same`, `safe_of_result` — a single call.
* `agree_iff` — a sequence of calls, in which the return values move the position.
* `results_behind` — the path through the methods is the one of `Sdbfs`.
-/

namespace WrpcSw
namespace Storage
namespace BackEnd

open AddressSpace CInt Run

/-- Where the image of a filesystem is. -/
inductive Backend
  | mapped
  | methods
deriving DecidableEq

/-- `struct sdbfs` with the image that is behind it.  The methods transfer what they are asked
for. -/
structure FileSystem where
  backend : Backend
  image : UInt32 → UInt8
  currentp : Bool
  fOffset : UInt32
  fLen : UInt32
  readOffset : UInt32

def ENOENT : Int32 := 2

namespace FileSystem

/-- `offset` after the test for a negative one. -/
def place (fs : FileSystem) (offset : Int32) : Int32 :=
  if offset < 0 then fs.readOffset.toInt32 else offset

/-- `count` after the test for the end of the file, which compares unsigned numbers. -/
def clip (fs : FileSystem) (offset count : Int32) : Int32 :=
  if (offset + count).toUInt32 > fs.fLen then (fs.fLen - offset.toUInt32).toInt32 else count

/-- The address of an offset in the image. -/
def addr (fs : FileSystem) (offset : Int32) : UInt32 := fs.fOffset + offset.toUInt32

/-- A call that returned `ret` moves the position. -/
def moved (fs : FileSystem) (offset ret : Int32) : FileSystem :=
  if ret > 0 then { fs with readOffset := (offset + ret).toUInt32 } else fs

end FileSystem

/-- The number of bytes that `memcpy` is asked for. -/
def bytes (count : Int32) : Nat := count.toUInt32.toNat

/-- `sdbfs_fread`: the return value, and the buffer afterwards. -/
def sdbfsFread (fs : FileSystem) (offset : Int32) (buf : List UInt8) (count : Int32) :
    FileSystem × Int32 × List UInt8 :=
  if ¬ fs.currentp then (fs, -ENOENT, buf)
  else
    let offset := fs.place offset
    let clipped := fs.clip offset count
    let copied := loadAt fs.image (fs.addr offset) (bytes clipped) ++ buf.drop (bytes clipped)
    match fs.backend with
    | .mapped => (fs.moved offset count, count, copied)
    | .methods => (fs.moved offset clipped, clipped, copied)

/-- `sdbfs_fwrite`: the return value, and the buffer afterwards. -/
def sdbfsFwrite (fs : FileSystem) (offset : Int32) (buf : List UInt8) (count : Int32) :
    FileSystem × Int32 × List UInt8 :=
  if ¬ fs.currentp then (fs, -ENOENT, buf)
  else
    let offset := fs.place offset
    let clipped := fs.clip offset count
    match fs.backend with
    | .mapped =>
        (fs.moved offset count, count,
          loadAt fs.image (fs.addr offset) (bytes clipped) ++ buf.drop (bytes clipped))
    | .methods =>
        let written :=
          { fs with image := storeAt fs.image (fs.addr offset) (buf.take (bytes clipped)) }
        (written.moved offset clipped, clipped, buf)

/-! ## Sequences of calls -/

inductive Call
  | fread (offset : Int32) (buf : List UInt8) (count : Int32)
  | fwrite (offset : Int32) (buf : List UInt8) (count : Int32)

/-- What the caller sees of a call, and the position behind it. -/
structure Result where
  ret : Int32
  buf : List UInt8
  readOffset : UInt32
deriving DecidableEq

def perform (fs : FileSystem) : Call → FileSystem × Int32 × List UInt8
  | .fread offset buf count => sdbfsFread fs offset buf count
  | .fwrite offset buf count => sdbfsFwrite fs offset buf count

def step (fs : FileSystem) (c : Call) : FileSystem := (perform fs c).1

def result (fs : FileSystem) (c : Call) : Result :=
  ⟨(perform fs c).2.1, (perform fs c).2.2, (perform fs c).1.readOffset⟩

def results (fs : FileSystem) : List Call → List Result
  | [] => []
  | c :: cs => result fs c :: results (step fs c) cs

/-- A buffer that is written to a file stays as it is. -/
def Kept : Call → Result → Prop
  | .fread _ _ _, _ => True
  | .fwrite _ buf _, r => r.buf = buf

/-- An open file. -/
structure OpenFile where
  fOffset : UInt32
  fLen : UInt32
  readOffset : UInt32 := 0

/-- The filesystem with its file open. -/
def OpenFile.on (f : OpenFile) (image : UInt32 → UInt8) (backend : Backend) : FileSystem :=
  ⟨backend, image, true, f.fOffset, f.fLen, f.readOffset⟩

/-- The two back ends show the same, leave the buffers alone that are written, and end with the
same image. -/
structure Agree (image : UInt32 → UInt8) (f : OpenFile) (calls : List Call) : Prop where
  results : results (f.on image .mapped) calls = results (f.on image .methods) calls
  kept : ∀ backend, List.Forall₂ Kept calls (BackEnd.results (f.on image backend) calls)
  image : (run step (f.on image .mapped) calls).image =
    (run step (f.on image .methods) calls).image

/-- A transfer does not go beyond the end of the file. -/
def Inside (fs : FileSystem) (offset count : Int32) : Prop :=
  (fs.place offset + count).toUInt32 ≤ fs.fLen

/-- The transfer is inside the file, and what is written is what the file already has. -/
def Safe (fs : FileSystem) : Call → Prop
  | .fread offset _ count => Inside fs offset count
  | .fwrite offset buf count =>
      Inside fs offset count ∧
        loadAt fs.image (fs.addr (fs.place offset)) (bytes count) = buf.take (bytes count)

instance (fs : FileSystem) (offset count : Int32) : Decidable (Inside fs offset count) :=
  inferInstanceAs (Decidable (_ ≤ _))

instance (fs : FileSystem) (c : Call) : Decidable (Safe fs c) :=
  match c with
  | .fread offset _ count => inferInstanceAs (Decidable (Inside fs offset count))
  | .fwrite _ _ _ => inferInstanceAs (Decidable (_ ∧ _))

/-! ## One call -/

/-- The filesystem with the same image behind methods. -/
def FileSystem.onMethods (fs : FileSystem) : FileSystem := { fs with backend := .methods }

/-- A file is open on a mapped image. -/
structure Mapped (fs : FileSystem) : Prop where
  backend : fs.backend = .mapped
  currentp : fs.currentp = true

section Call

variable {fs : FileSystem}

/-- A count that was cut is not the one that was asked for. -/
theorem clip_eq_iff (offset count : Int32) :
    fs.clip (fs.place offset) count = count ↔ Inside fs offset count := by
  unfold FileSystem.clip Inside
  constructor
  · intro hclip
    by_contra hout
    have hover := UInt32.not_le.mp hout
    rw [if_pos hover] at hclip
    have hlen : fs.fLen = (fs.place offset + count).toUInt32 := by
      rw [← hclip, Int32.toUInt32_add, UInt32.toUInt32_toInt32, UInt32.add_comm,
        UInt32.sub_add_cancel]
    exact absurd (hlen ▸ hover) (UInt32.lt_irrefl _)
  · intro hin
    exact if_neg (UInt32.not_lt.mpr hin)

theorem moved_onMethods (offset ret : Int32) :
    fs.onMethods.moved offset ret = (fs.moved offset ret).onMethods := by
  unfold FileSystem.moved
  split_ifs
  · rfl
  · rfl

theorem Mapped.moved (h : Mapped fs) (offset ret : Int32) : Mapped (fs.moved offset ret) := by
  unfold FileSystem.moved
  split_ifs
  · exact ⟨h.backend, h.currentp⟩
  · exact h

theorem append_drop_eq_iff (l buf : List UInt8) :
    l ++ buf.drop l.length = buf ↔ l = buf.take l.length := by
  constructor
  · intro happend
    calc l = (l ++ buf.drop l.length).take l.length := List.take_left.symm
      _ = buf.take l.length := by rw [happend]
  · intro htake
    conv_lhs => lhs; rw [htake]
    exact List.take_append_drop _ _

/-- The buffer after a copy of `n` bytes from the image. -/
def copied (fs : FileSystem) (offset : Int32) (buf : List UInt8) (n : Int32) : List UInt8 :=
  loadAt fs.image (fs.addr (fs.place offset)) (bytes n) ++ buf.drop (bytes n)

/-- The filesystem after a write of the buffer into the image. -/
def written (fs : FileSystem) (offset : Int32) (buf : List UInt8) (n : Int32) : FileSystem :=
  { fs with image := storeAt fs.image (fs.addr (fs.place offset)) (buf.take (bytes n)) }

section Paths

variable (h : Mapped fs) (offset : Int32) (buf : List UInt8) (count : Int32)

include h

theorem fread_mapped :
    sdbfsFread fs offset buf count =
      (fs.moved (fs.place offset) count, count,
        copied fs offset buf (fs.clip (fs.place offset) count)) := by
  rw [sdbfsFread, if_neg (not_not_intro h.currentp), h.backend]
  rfl

theorem fread_methods :
    sdbfsFread fs.onMethods offset buf count =
      (fs.onMethods.moved (fs.place offset) (fs.clip (fs.place offset) count),
        fs.clip (fs.place offset) count,
        copied fs offset buf (fs.clip (fs.place offset) count)) :=
  if_neg (not_not_intro h.currentp)

theorem fwrite_mapped :
    sdbfsFwrite fs offset buf count =
      (fs.moved (fs.place offset) count, count,
        copied fs offset buf (fs.clip (fs.place offset) count)) := by
  rw [sdbfsFwrite, if_neg (not_not_intro h.currentp), h.backend]
  rfl

theorem fwrite_methods :
    sdbfsFwrite fs.onMethods offset buf count =
      ((written fs offset buf (fs.clip (fs.place offset) count)).onMethods.moved
          (fs.place offset) (fs.clip (fs.place offset) count),
        fs.clip (fs.place offset) count, buf) :=
  if_neg (not_not_intro h.currentp)

end Paths

/-- A copy leaves the buffer alone if it holds what is copied. -/
theorem copied_eq_iff (offset : Int32) (buf : List UInt8) (n : Int32) :
    copied fs offset buf n = buf ↔
      loadAt fs.image (fs.addr (fs.place offset)) (bytes n) = buf.take (bytes n) := by
  have hsplit := append_drop_eq_iff (loadAt fs.image (fs.addr (fs.place offset)) (bytes n)) buf
  rw [length_loadAt] at hsplit
  exact hsplit

/-- Writing what the image has does not change it. -/
theorem written_eq {offset : Int32} {buf : List UInt8} {n : Int32}
    (hsame : loadAt fs.image (fs.addr (fs.place offset)) (bytes n) = buf.take (bytes n)) :
    written fs offset buf n = fs := by
  rw [written, ← hsame, storeAt_loadAt]

/-- What a safe call does, on both back ends. -/
structure Same (fs : FileSystem) (c : Call) : Prop where
  mapped : Mapped (step fs c)
  state : step fs.onMethods c = (step fs c).onMethods
  result : result fs.onMethods c = result fs c
  kept : Kept c (BackEnd.result fs c)
  image : (step fs c).image = fs.image

theorem moved_image (offset ret : Int32) : (fs.moved offset ret).image = fs.image := by
  unfold FileSystem.moved
  split_ifs
  · rfl
  · rfl

theorem safe_same (h : Mapped fs) {c : Call} (hsafe : Safe fs c) : Same fs c := by
  cases c with
  | fread offset buf count =>
      have hclip := (clip_eq_iff offset count).mpr hsafe
      have hmapped : perform fs (.fread offset buf count) =
          (fs.moved (fs.place offset) count, count, copied fs offset buf count) := by
        rw [perform, fread_mapped h, hclip]
      have hmethods : perform fs.onMethods (.fread offset buf count) =
          ((fs.moved (fs.place offset) count).onMethods, count, copied fs offset buf count) := by
        rw [perform, fread_methods h, hclip, moved_onMethods]
      refine ⟨?_, ?_, ?_, trivial, ?_⟩
      · rw [step, hmapped]
        exact h.moved _ _
      · rw [step, step, hmapped, hmethods]
      · rw [result, result, hmapped, hmethods]
        rfl
      · rw [step, hmapped]
        exact moved_image _ _
  | fwrite offset buf count =>
      obtain ⟨hinside, hsame⟩ := hsafe
      have hclip := (clip_eq_iff offset count).mpr hinside
      have hmapped : perform fs (.fwrite offset buf count) =
          (fs.moved (fs.place offset) count, count, buf) := by
        rw [perform, fwrite_mapped h, hclip, (copied_eq_iff offset buf count).mpr hsame]
      have hmethods : perform fs.onMethods (.fwrite offset buf count) =
          ((fs.moved (fs.place offset) count).onMethods, count, buf) := by
        rw [perform, fwrite_methods h, hclip, written_eq hsame, moved_onMethods]
      refine ⟨?_, ?_, ?_, ?_, ?_⟩
      · rw [step, hmapped]
        exact h.moved _ _
      · rw [step, step, hmapped, hmethods]
      · rw [result, result, hmapped, hmethods]
        rfl
      · rw [result, hmapped]
        rfl
      · rw [step, hmapped]
        exact moved_image _ _

/-- The results of a call are the same, and the buffer is kept, only if the call is safe. -/
theorem safe_of_result (h : Mapped fs) {c : Call} (hresult : result fs c = result fs.onMethods c)
    (hkept : Kept c (result fs c)) : Safe fs c := by
  have hret := congrArg Result.ret hresult
  cases c with
  | fread offset buf count =>
      rw [result, result, perform, perform, fread_mapped h, fread_methods h] at hret
      exact (clip_eq_iff offset count).mp hret.symm
  | fwrite offset buf count =>
      rw [result, result, perform, perform, fwrite_mapped h, fwrite_methods h] at hret
      have hclip : fs.clip (fs.place offset) count = count := hret.symm
      rw [result, perform, fwrite_mapped h, hclip] at hkept
      exact ⟨(clip_eq_iff offset count).mp hclip, (copied_eq_iff offset buf count).mp hkept⟩

end Call

/-! ## Sequences -/

section Runs

variable {fs : FileSystem}

/-- A run of safe calls is the same on both back ends, and does not change the image. -/
theorem safe_run (h : Mapped fs) {calls : List Call} (hsafe : Along step Safe fs calls) :
    results fs.onMethods calls = results fs calls ∧ List.Forall₂ Kept calls (results fs calls) ∧
      (run step fs calls).image = fs.image ∧ (run step fs.onMethods calls).image = fs.image := by
  induction calls generalizing fs with
  | nil => exact ⟨rfl, .nil, rfl, rfl⟩
  | cons c cs ih =>
      have hsame := safe_same h hsafe.1
      obtain ⟨hresults, hkept, himage, hmethods⟩ := ih hsame.mapped hsafe.2
      rw [results, results, run_cons, run_cons, hsame.state, hsame.result, hresults, himage,
        hmethods, hsame.image]
      exact ⟨rfl, .cons hsame.kept hkept, rfl, rfl⟩

/-- A run with the same results that keeps the buffers is safe at every call. -/
theorem safe_of_results (h : Mapped fs) {calls : List Call}
    (hresults : results fs calls = results fs.onMethods calls)
    (hkept : List.Forall₂ Kept calls (results fs calls)) : Along step Safe fs calls := by
  induction calls generalizing fs with
  | nil => trivial
  | cons c cs ih =>
      rw [results, results] at hresults
      obtain ⟨hfirst, hrest⟩ := List.cons.inj hresults
      obtain ⟨hkeptFirst, hkeptRest⟩ := List.forall₂_cons.mp hkept
      have hsafe := safe_of_result h hfirst hkeptFirst
      have hsame := safe_same h hsafe
      rw [hsame.state] at hrest
      exact ⟨hsafe, ih hsame.mapped hrest hkeptRest⟩

/-- The two back ends agree on a sequence of calls exactly if every call stays inside the file and
every write has what the file already holds there. -/
theorem agree_iff (image : UInt32 → UInt8) (f : OpenFile) (calls : List Call) :
    Agree image f calls ↔ Along step Safe (f.on image .mapped) calls := by
  have hmapped : Mapped (f.on image .mapped) := ⟨rfl, rfl⟩
  have hmethods : (f.on image .mapped).onMethods = f.on image .methods := rfl
  constructor
  · intro hagree
    have hresults := hagree.results
    rw [← hmethods] at hresults
    exact safe_of_results hmapped hresults (hagree.kept .mapped)
  · intro hsafe
    obtain ⟨hresults, hkept, himage, himageMethods⟩ := safe_run hmapped hsafe
    rw [hmethods] at hresults himageMethods
    refine ⟨hresults.symm, fun backend => ?_, himage.trans himageMethods.symm⟩
    cases backend with
    | mapped => exact hkept
    | methods => exact hresults ▸ hkept

end Runs

/-- A file of four bytes in an image of zeros. -/
def zeroFile : OpenFile := { fOffset := 0, fLen := 4 }

/-- A write of one byte. -/
theorem fwrite_disagrees :
    ¬ Agree (fun _ => 0) zeroFile [.fwrite 0 [1] 1] := by
  intro hagree
  have hsafe := ((agree_iff (fun _ => 0) zeroFile [.fwrite 0 [1] 1]).mp hagree).1
  exact absurd hsafe (by decide)

/-! ## The storage of a volume -/

/-- A volume is what the filesystem has behind its methods.  The file ends before the addresses
do, and the position is inside of it. -/
structure Behind (fs : FileSystem) (v : Volume) : Prop where
  backend : fs.backend = .methods
  currentp : v.fs.currentp = fs.currentp
  fOffset : v.fs.fOffset = fs.fOffset.toNat
  fLen : v.fs.fLen = fs.fLen.toNat
  readOffset : v.fs.readOffset = fs.readOffset.toNat
  mem : Numbered fs.image v.dev.mem
  outcomes : v.dev.outcomes = []
  fits : fs.fOffset.toNat + fs.fLen.toNat < 2 ^ 31
  position : fs.readOffset.toNat ≤ fs.fLen.toNat

/-- A transfer that starts inside the file. -/
structure Regular (fs : FileSystem) (offset count : Int32) : Prop where
  counts : 0 ≤ count.toInt
  starts : (fs.place offset).toInt ≤ fs.fLen.toNat
  ends : (fs.place offset).toInt + count.toInt < 2 ^ 31

section Behind

variable {fs : FileSystem} {v : Volume}

theorem Behind.place (h : Behind fs v) (offset : Int32) :
    v.fs.place offset.toInt = (fs.place offset).toInt ∧ 0 ≤ (fs.place offset).toInt := by
  have hfits := h.fits
  have hposition := h.position
  unfold Sdbfs.place FileSystem.place
  by_cases hneg : offset < 0
  · have hread : fs.readOffset.toInt32.toInt = fs.readOffset.toNat :=
      toInt_toInt32_of_lt (by omega)
    have hnegInt : offset.toInt < 0 := Int32.lt_iff_toInt_lt.mp hneg
    rw [if_pos hneg, if_pos hnegInt, h.readOffset, hread]
    exact ⟨rfl, Int.natCast_nonneg _⟩
  · have hnonneg : ¬ offset.toInt < 0 := fun hlt => hneg (Int32.lt_iff_toInt_lt.mpr hlt)
    rw [if_neg hneg, if_neg hnonneg]
    exact ⟨rfl, Int.not_lt.mp hnonneg⟩

/-- What is left of a regular transfer ends inside the file. -/
theorem Behind.clip (h : Behind fs v) {place count : Int32} {p c : Nat} (hplace : place.toInt = p)
    (hcount : count.toInt = c) (hstarts : p ≤ fs.fLen.toNat) (hends : p + c < 2 ^ 31) :
    ∃ n : Nat, (fs.clip place count).toInt = n ∧ v.fs.clip p c = n ∧ p + n ≤ fs.fLen.toNat := by
  have hfits := h.fits
  have hplaceNat := toNat_toUInt32_of_toInt hplace
  have hcountNat := toNat_toUInt32_of_toInt hcount
  have hsum : (place + count).toUInt32.toNat = p + c := by
    rw [Int32.toUInt32_add, UInt32.toNat_add, hplaceNat, hcountNat]
    omega
  unfold FileSystem.clip Sdbfs.clip
  rw [h.fLen]
  by_cases hover : fs.fLen.toNat < p + c
  · have hleft : (fs.fLen - place.toUInt32).toNat = fs.fLen.toNat - p := by
      rw [UInt32.toNat_sub_of_le _ _ (UInt32.le_iff_toNat_le.mpr (by omega)), hplaceNat]
    refine ⟨fs.fLen.toNat - p, ?_, ?_, by omega⟩
    · rw [if_pos (UInt32.lt_iff_toNat_lt.mpr (by omega)), toInt_toInt32_of_lt (by omega), hleft]
    · rw [if_pos (by omega)]
      omega
  · refine ⟨c, ?_, ?_, by omega⟩
    · rw [if_neg (fun hlt => hover (by rw [← hsum]; exact UInt32.lt_iff_toNat_lt.mp hlt)), hcount]
    · rw [if_neg (by omega)]

/-- The position behind a transfer. -/
theorem Behind.moved (h : Behind fs v) {place clipped : Int32} {p n : Nat}
    (hplace : place.toInt = p) (hclipped : clipped.toInt = n) (hends : p + n ≤ fs.fLen.toNat) :
    Behind (fs.moved place clipped) { v with fs := v.fs.moved p n } := by
  have hfits := h.fits
  have hsum : (place + clipped).toUInt32.toNat = p + n := by
    rw [Int32.toUInt32_add, UInt32.toNat_add, toNat_toUInt32_of_toInt hplace,
      toNat_toUInt32_of_toInt hclipped]
    omega
  unfold FileSystem.moved Sdbfs.moved
  by_cases hpos : (n : Int) > 0
  · have hpos32 : clipped > 0 := Int32.lt_iff_toInt_lt.mpr (hclipped ▸ hpos)
    rw [if_pos hpos, if_pos hpos32]
    exact { h with readOffset := by rw [hsum]; rfl, position := hsum ▸ hends }
  · have hpos32 : ¬ clipped > 0 := fun hlt => hpos (hclipped ▸ Int32.lt_iff_toInt_lt.mp hlt)
    rw [if_neg hpos, if_neg hpos32]
    exact h

/-- The place of a regular transfer and what is left of it, on both levels. -/
theorem Behind.transfer (h : Behind fs v) {offset count : Int32} (hregular : Regular fs offset count) :
    ∃ p n : Nat, (fs.place offset).toInt = p ∧ v.fs.place offset.toInt = p ∧
      (fs.clip (fs.place offset) count).toInt = n ∧ v.fs.clip p count.toInt = n ∧
      p + n ≤ fs.fLen.toNat := by
  obtain ⟨hplace, hnonneg⟩ := h.place offset
  obtain ⟨p, hp⟩ := Int.eq_ofNat_of_zero_le hnonneg
  obtain ⟨c, hc⟩ := Int.eq_ofNat_of_zero_le hregular.counts
  have hstarts := hregular.starts
  have hends := hregular.ends
  obtain ⟨n, hclip, hclipStorage, hinside⟩ := h.clip hp hc (by omega) (by omega)
  exact ⟨p, n, hp, hplace.trans hp, hclip, hc ▸ hclipStorage, hinside⟩

/-- The address of a transfer inside the file. -/
theorem Behind.toNat_addr (h : Behind fs v) {place : Int32} {p : Nat} (hplace : place.toInt = p)
    (hinside : p ≤ fs.fLen.toNat) :
    (fs.addr place).toNat = fs.fOffset.toNat + p ∧
      ((v.fs.fOffset : Int) + (p : Int)).toNat = (fs.addr place).toNat := by
  have hfits := h.fits
  have haddr : (fs.addr place).toNat = fs.fOffset.toNat + p := by
    rw [FileSystem.addr, UInt32.toNat_add, toNat_toUInt32_of_toInt hplace]
    omega
  refine ⟨haddr, ?_⟩
  rw [haddr, h.fOffset]
  omega

/-- `sdbfs_fread` on the volume is the path through the methods. -/
theorem fread_behind (h : Behind fs v) {offset count : Int32} (hregular : Regular fs offset count)
    (buf : List UInt8) :
    ∃ w ret read, Storage.sdbfsFread v offset.toInt count.toInt = (w, ret, read) ∧
      Behind (sdbfsFread fs offset buf count).1 w ∧
      (sdbfsFread fs offset buf count).2.1.toInt = ret ∧
      (sdbfsFread fs offset buf count).2.2 = read ++ buf.drop read.length := by
  unfold Storage.sdbfsFread sdbfsFread
  by_cases hopen : fs.currentp = true
  · obtain ⟨p, n, hplace, hplaceStorage, hclip, hclipStorage, hinside⟩ := h.transfer hregular
    obtain ⟨haddr, haddrStorage⟩ := h.toNat_addr hplace (by omega)
    have hlen : bytes (fs.clip (fs.place offset) count) = n := toNat_toUInt32_of_toInt hclip
    have hfits := h.fits
    rw [if_pos (h.currentp.trans hopen), if_neg (not_not_intro hopen), h.backend, hplaceStorage]
    dsimp only [SdbfsMethods.read]
    rw [hclipStorage, hlen, Device.read_ok h.outcomes, haddrStorage, Int.toNat_natCast,
      h.mem.readAt_eq (by omega)]
    refine ⟨_, _, _, rfl, h.moved hplace hclip hinside, hclip, ?_⟩
    rw [length_loadAt]
  · rw [if_neg (fun hstorage => hopen (h.currentp.symm.trans hstorage)), if_pos hopen]
    exact ⟨_, _, _, rfl, h, rfl, rfl⟩

/-- `sdbfs_fwrite` on the volume is the path through the methods. -/
theorem fwrite_behind (h : Behind fs v) {offset count : Int32} (hregular : Regular fs offset count)
    (buf : List UInt8) :
    ∃ w ret, Storage.sdbfsFwrite v offset.toInt buf count.toInt = (w, ret) ∧
      Behind (sdbfsFwrite fs offset buf count).1 w ∧
      (sdbfsFwrite fs offset buf count).2.1.toInt = ret ∧
      (sdbfsFwrite fs offset buf count).2.2 = buf := by
  unfold Storage.sdbfsFwrite sdbfsFwrite
  by_cases hopen : fs.currentp = true
  · obtain ⟨p, n, hplace, hplaceStorage, hclip, hclipStorage, hinside⟩ := h.transfer hregular
    obtain ⟨haddr, haddrStorage⟩ := h.toNat_addr hplace (by omega)
    have hlen : bytes (fs.clip (fs.place offset) count) = n := toNat_toUInt32_of_toInt hclip
    have hfits := h.fits
    have htake := List.length_take_le n buf
    have hmem : Numbered (storeAt fs.image (fs.addr (fs.place offset)) (buf.take n))
        (Memory.writeAt v.dev.mem (fs.addr (fs.place offset)).toNat (buf.take n)) :=
      h.mem.writeAt (by omega)
    rw [if_pos (h.currentp.trans hopen), if_neg (not_not_intro hopen), h.backend, hplaceStorage]
    dsimp only [SdbfsMethods.write]
    rw [hclipStorage, hlen, Device.write_ok h.outcomes, haddrStorage, Int.toNat_natCast]
    have hwritten : Behind
        { fs with image := storeAt fs.image (fs.addr (fs.place offset)) (buf.take n) }
        { v with
          dev := { v.dev with
            mem := Memory.writeAt v.dev.mem (fs.addr (fs.place offset)).toNat (buf.take n) } } :=
      { h with mem := hmem }
    rw [h.backend] at hwritten
    exact ⟨_, _, rfl, hwritten.moved hplace hclip hinside, hclip, rfl⟩
  · rw [if_neg (fun hstorage => hopen (h.currentp.symm.trans hstorage)), if_pos hopen]
    exact ⟨_, _, rfl, h, rfl, rfl⟩

/-- A call on the volume. -/
def performOn (v : Volume) : Call → Volume × Int × List UInt8
  | .fread offset buf count =>
      let r := Storage.sdbfsFread v offset.toInt count.toInt
      (r.1, r.2.1, r.2.2 ++ buf.drop r.2.2.length)
  | .fwrite offset buf count =>
      let r := Storage.sdbfsFwrite v offset.toInt buf count.toInt
      (r.1, r.2, buf)

def resultsOn (v : Volume) : List Call → List (Int × List UInt8)
  | [] => []
  | c :: cs => (performOn v c).2 :: resultsOn (performOn v c).1 cs

def RegularCall (fs : FileSystem) : Call → Prop
  | .fread offset _ count => Regular fs offset count
  | .fwrite offset _ count => Regular fs offset count

theorem perform_behind (h : Behind fs v) {c : Call} (hregular : RegularCall fs c) :
    Behind (step fs c) (performOn v c).1 ∧
      (performOn v c).2 = ((result fs c).ret.toInt, (result fs c).buf) := by
  cases c with
  | fread offset buf count =>
      obtain ⟨w, ret, read, hstorage, hbehind, hret, hbuf⟩ := fread_behind h hregular buf
      rw [performOn, hstorage]
      exact ⟨hbehind, Prod.ext hret.symm hbuf.symm⟩
  | fwrite offset buf count =>
      obtain ⟨w, ret, hstorage, hbehind, hret, hbuf⟩ := fwrite_behind h hregular buf
      rw [performOn, hstorage]
      exact ⟨hbehind, Prod.ext hret.symm hbuf.symm⟩

/-- A run on the volume shows what the path through the methods shows. -/
theorem results_behind (h : Behind fs v) {calls : List Call}
    (hregular : Along step RegularCall fs calls) :
    resultsOn v calls = (results fs calls).map fun r => (r.ret.toInt, r.buf) := by
  induction calls generalizing fs v with
  | nil => rfl
  | cons c cs ih =>
      obtain ⟨hnext, hresult⟩ := perform_behind h hregular.1
      rw [resultsOn, results, List.map_cons, hresult, ih hnext hregular.2]

end Behind

end BackEnd
end Storage
end WrpcSw
