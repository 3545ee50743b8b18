import WrpcSw.Lib.Memory
import WrpcSw.Storage.SfpInfo

/-!
# The init script (`shell/shell.c`)

A driver appends lines to the init script and reads them back one by one.  The boot
loop asks for the first line and then for the next one, until there is none.

The guard of the readers compares the position in the whole script with the size of
the buffer for one line, so they stop in the middle of a script that is longer than
that.  What both drivers do is stated here once:

* `ScriptLaws` — what adding and reading a line do to the script, for a storage that
  `Holds` it and a reader that is `At` a position.
* `LineLaws` — one round of the loop that reads a line, and from it the whole loop.
* `roundTrip_iff` — with these laws, the lines come back exactly when the whole script
  passes the guard.
-/

namespace WrpcSw
namespace Storage

open Memory

/-- `SH_MAX_LINE_LEN`, the size of the buffer that the boot loop passes. -/
def shMaxLineLen : Nat := 80

/-- The line that the arguments of a command make. -/
def scriptLine (args : List (List UInt8)) : List UInt8 :=
  List.intercalate [space] args ++ [newline]

/-- The functions of a driver, without the return values that the boot loop does not
look at. -/
structure ScriptDriver (σ : Type*) where
  erase : σ → σ
  add : σ → List (List UInt8) → σ
  readcmd : σ → Nat → Bool → σ × Int × List UInt8

section Boot

variable {σ : Type*}

/-- The calls of `shell_boot_script`, at most `fuel` of them: the return value and the
characters of each. -/
def bootScript (readcmd : σ → Nat → Bool → σ × Int × List UInt8) :
    Nat → Bool → σ → List (Int × List UInt8)
  | 0, _, _ => []
  | fuel + 1, next, s =>
      let r := readcmd s shMaxLineLen next
      if r.2.1 ≤ 0 then [r.2] else r.2 :: bootScript readcmd fuel true r.1

/-- The commands of a script: each has an argument, as the shell demands, and none has
a newline, which ends a line of the shell. -/
structure ScriptOk (script : List (List (List UInt8))) : Prop where
  args : ∀ args ∈ script, args ≠ []
  newline_free : ∀ args ∈ script, ∀ arg ∈ args, newline ∉ arg
  short : ∀ args ∈ script, (scriptLine args).length ≤ 79
  fits : (script.flatMap scriptLine).length ≤ 254

/-- What the boot loop is to see of a line. -/
def lineRead (args : List (List UInt8)) : Int × List UInt8 :=
  ((scriptLine args).length, scriptLine args)

/-- The lines that were added after an erase come back, in order, and then nothing. -/
def RoundTrip (d : ScriptDriver σ) (s : σ) (script : List (List (List UInt8))) : Prop :=
  ∀ fuel, script.length < fuel →
    bootScript d.readcmd fuel false (script.foldl d.add (d.erase s)) =
      script.map lineRead ++ [(0, [])]

/-- The laws of a driver: `Holds s bytes` says that the script of the storage is `bytes`,
and `At next s bytes pos` that a call with `next` continues at `pos`. -/
structure ScriptLaws (d : ScriptDriver σ) (Holds : σ → List UInt8 → Prop)
    (At : Bool → σ → List UInt8 → Nat → Prop) : Prop where
  add : ∀ {s bytes args}, Holds s bytes → args ≠ [] →
    (bytes ++ scriptLine args).length ≤ 254 → Holds (d.add s args) (bytes ++ scriptLine args)
  start : ∀ {s bytes}, Holds s bytes → At false s bytes 0
  finish : ∀ {next s bytes}, At next s bytes bytes.length →
    (d.readcmd s shMaxLineLen next).2 = (0, [])
  read : ∀ {next s before text later},
    At next s (before ++ (text ++ [newline]) ++ later) before.length →
    newline ∉ text → text.length < 79 → before.length + text.length ≤ shMaxLineLen →
    (d.readcmd s shMaxLineLen next).2 = (((text.length + 1 : Nat) : Int), text ++ [newline]) ∧
      At true (d.readcmd s shMaxLineLen next).1 (before ++ (text ++ [newline]) ++ later)
        (before ++ (text ++ [newline])).length
  cut : ∀ {next s before text later},
    At next s (before ++ (text ++ [newline]) ++ later) before.length →
    newline ∉ text → shMaxLineLen < before.length + text.length →
    (d.readcmd s shMaxLineLen next).2.1 < 0

/-! ## Lines -/

/-- Each argument with a separator behind it is the text of the line, and one
separator. -/
theorem flatMap_space_eq {args : List (List UInt8)} (h : args ≠ []) :
    args.flatMap (· ++ [space]) = List.intercalate [space] args ++ [space] := by
  induction args with
  | nil => exact absurd rfl h
  | cons arg args ih =>
      cases args with
      | nil => simp
      | cons arg' args =>
          rw [List.flatMap_cons, ih (List.cons_ne_nil _ _), List.intercalate_cons_cons]
          simp only [List.append_assoc]

theorem newline_not_mem_intercalate {args : List (List UInt8)}
    (h : ∀ arg ∈ args, newline ∉ arg) : newline ∉ List.intercalate [space] args := by
  cases args with
  | nil => simp
  | cons arg args =>
      intro hmem
      have hspaced : newline ∈ (arg :: args).flatMap (· ++ [space]) := by
        rw [flatMap_space_eq (List.cons_ne_nil _ _)]
        exact List.mem_append_left _ hmem
      obtain ⟨a, ha, hin⟩ := List.mem_flatMap.mp hspaced
      rcases List.mem_append.mp hin with hin | hin
      · exact h a ha hin
      · exact absurd (List.mem_singleton.mp hin) (by decide)

/-- A line is a text without newlines, and a newline. -/
def IsLine (l : List UInt8) : Prop :=
  ∃ text, l = text ++ [newline] ∧ newline ∉ text ∧ text.length < 79

theorem ScriptOk.isLine {script : List (List (List UInt8))} (h : ScriptOk script)
    {args : List (List UInt8)} (hargs : args ∈ script) : IsLine (scriptLine args) := by
  refine ⟨List.intercalate [space] args, rfl,
    newline_not_mem_intercalate (h.newline_free args hargs), ?_⟩
  have hshort := h.short args hargs
  rw [scriptLine, List.length_append, List.length_singleton] at hshort
  omega

/-! ## The loop that reads a line -/

/-- The laws of that loop, in a driver whose script is in `m` from `base` on: `At s pos`
says that the next character is the one at `pos`, and `count` is the return value of the
loop for a number of characters. -/
structure LineLaws (readLine : σ → List UInt8 → Nat → σ × Int × List UInt8) (count : Nat → Int)
    (refused : Int) (m : Nat → UInt8) (base limit : Nat) (At : σ → Nat → Prop) : Prop where
  stop : ∀ s buf, (readLine s buf 0).2.1 = refused
  step : ∀ {s pos}, At s pos → pos < limit → ∀ buf room, ∃ s', At s' (pos + 1) ∧
    readLine s buf (room + 1) =
      if m (base + pos) = newline then (s', count (buf.length + 1), buf ++ [newline])
      else readLine s' (buf ++ [m (base + pos)]) room

namespace LineLaws

variable {readLine : σ → List UInt8 → Nat → σ × Int × List UInt8} {count : Nat → Int}
  {refused : Int} {m : Nat → UInt8} {base limit : Nat} {At : σ → Nat → Prop}
  (laws : LineLaws readLine count refused m base limit At)

include laws in
/-- The loop goes on behind a character of the text. -/
theorem next {c : UInt8} {text : List UInt8} {s : σ} {pos : Nat} (hat : At s pos)
    (hholds : HoldsAt m (base + pos) (c :: text)) (hc : newline ≠ c) (hin : pos < limit)
    (buf : List UInt8) (room : Nat) :
    ∃ s', At s' (pos + 1) ∧ HoldsAt m (base + (pos + 1)) text ∧
      readLine s buf (room + 1) = readLine s' (buf ++ [c]) room := by
  obtain ⟨s', hat', hstep⟩ := laws.step hat hin buf room
  obtain ⟨hchar, hrest⟩ := hholds.cons
  rw [hchar, if_neg hc.symm] at hstep
  rw [Nat.add_assoc] at hrest
  exact ⟨s', hat', hrest, hstep⟩

include laws in
/-- A line that the guard lets pass is read to its end. -/
theorem reads {text : List UInt8} {s : σ} {pos : Nat} (hat : At s pos)
    (hholds : HoldsAt m (base + pos) (text ++ [newline])) (hnewline : newline ∉ text)
    (hin : pos + text.length < limit) {room : Nat} (hroom : text.length < room)
    (buf : List UInt8) :
    ∃ s', At s' (pos + text.length + 1) ∧
      readLine s buf room =
        (s', count (buf.length + text.length + 1), buf ++ (text ++ [newline])) := by
  induction text generalizing s pos buf room with
  | nil =>
      obtain ⟨room, rfl⟩ := Nat.exists_eq_succ_of_ne_zero (Nat.ne_zero_of_lt hroom)
      obtain ⟨s', hat', hstep⟩ := laws.step hat hin buf room
      rw [if_pos hholds.cons.1] at hstep
      exact ⟨s', hat', hstep⟩
  | cons c text ih =>
      obtain ⟨room, rfl⟩ := Nat.exists_eq_succ_of_ne_zero (Nat.ne_zero_of_lt hroom)
      rw [List.length_cons] at hin hroom
      obtain ⟨hc, htext⟩ := not_or.mp (mt List.mem_cons.mpr hnewline)
      obtain ⟨s', hat', hrest, hnext⟩ := laws.next hat hholds hc (by omega) buf room
      obtain ⟨s'', hat'', hline⟩ := ih hat' hrest htext (by omega)
        (Nat.lt_of_succ_lt_succ hroom) (buf ++ [c])
      have hpos : pos + 1 + text.length + 1 = pos + (c :: text).length + 1 := by
        rw [List.length_cons]
        omega
      have hcount : (buf ++ [c]).length + text.length + 1 =
          buf.length + (c :: text).length + 1 := by
        simp only [List.length_append, List.length_cons, List.length_nil]
        omega
      refine ⟨s'', hpos ▸ hat'', ?_⟩
      rw [hnext, hline, hcount, List.append_assoc]
      rfl

include laws in
/-- A line that reaches past the guard is refused. -/
theorem refuses {text : List UInt8} {s : σ} {pos : Nat} (hat : At s pos)
    (hholds : HoldsAt m (base + pos) text) (hnewline : newline ∉ text)
    (hin : pos + text.length ≤ limit) {room : Nat} (hroom : room ≤ text.length)
    (buf : List UInt8) : (readLine s buf room).2.1 = refused := by
  induction room generalizing s pos buf text with
  | zero => exact laws.stop s buf
  | succ room ih =>
      cases text with
      | nil => exact absurd hroom (Nat.not_succ_le_zero _)
      | cons c text =>
          rw [List.length_cons] at hin hroom
          obtain ⟨hc, htext⟩ := not_or.mp (mt List.mem_cons.mpr hnewline)
          obtain ⟨s', hat', hrest, hnext⟩ := laws.next hat hholds hc (by omega) buf room
          rw [hnext]
          exact ih hat' hrest htext (by omega) (Nat.le_of_succ_le_succ hroom) _

end LineLaws

/-! ## The boot loop -/

section Laws

variable {d : ScriptDriver σ} {Holds : σ → List UInt8 → Prop}
  {At : Bool → σ → List UInt8 → Nat → Prop} (laws : ScriptLaws d Holds At)

include laws in
/-- Adding the lines one after the other leaves all of them in the script. -/
theorem holds_foldl_add {script : List (List (List UInt8))} {s : σ} {bytes : List UInt8}
    (h : Holds s bytes) (hargs : ∀ args ∈ script, args ≠ [])
    (hfits : (bytes ++ script.flatMap scriptLine).length ≤ 254) :
    Holds (script.foldl d.add s) (bytes ++ script.flatMap scriptLine) := by
  induction script generalizing s bytes with
  | nil => simpa using h
  | cons args script ih =>
      rw [List.flatMap_cons, ← List.append_assoc] at hfits ⊢
      have hline : (bytes ++ scriptLine args).length ≤ 254 := by
        rw [List.length_append] at hfits
        omega
      have hadd := laws.add h (hargs args (List.mem_cons_self ..)) hline
      exact ih hadd (fun a ha => hargs a (List.mem_cons_of_mem _ ha)) hfits

include laws in
/-- A script that passes the guard is read to its end. -/
theorem bootScript_reads {lines : List (List UInt8)} (hlines : ∀ l ∈ lines, IsLine l)
    {next : Bool} {s : σ} {before : List UInt8}
    (h : At next s (before ++ lines.flatten) before.length)
    (hlen : (before ++ lines.flatten).length ≤ shMaxLineLen + 1) {fuel : Nat}
    (hfuel : lines.length < fuel) :
    bootScript d.readcmd fuel next s =
      lines.map (fun l => ((l.length : Int), l)) ++ [(0, [])] := by
  induction lines generalizing next s before fuel with
  | nil =>
      obtain ⟨fuel, rfl⟩ := Nat.exists_eq_succ_of_ne_zero (Nat.ne_zero_of_lt hfuel)
      rw [List.flatten_nil, List.append_nil] at h
      have hfinish := laws.finish h
      rw [bootScript]
      simp [hfinish]
  | cons l lines ih =>
      obtain ⟨fuel, rfl⟩ := Nat.exists_eq_succ_of_ne_zero (Nat.ne_zero_of_lt hfuel)
      obtain ⟨text, rfl, hnewline, hshort⟩ := hlines l (List.mem_cons_self ..)
      rw [List.flatten_cons, ← List.append_assoc] at h hlen
      have hroom : before.length + text.length ≤ shMaxLineLen := by
        simp only [List.length_append, List.length_singleton] at hlen
        omega
      obtain ⟨hret, hnext⟩ := laws.read h hnewline hshort hroom
      have hrest := ih (fun l hl => hlines l (List.mem_cons_of_mem _ hl)) hnext hlen
        (Nat.lt_of_succ_lt_succ hfuel)
      have hpos : ¬ ((text.length + 1 : Nat) : Int) ≤ 0 := by omega
      rw [bootScript]
      simp only [hret, if_neg hpos, hrest, List.map_cons, List.length_append,
        List.length_singleton, List.cons_append]

include laws in
/-- In a longer script the reader meets a line that it refuses. -/
theorem bootScript_refuses {lines : List (List UInt8)} (hlines : ∀ l ∈ lines, IsLine l)
    (hne : lines ≠ []) {next : Bool} {s : σ} {before : List UInt8}
    (h : At next s (before ++ lines.flatten) before.length)
    (hlen : shMaxLineLen + 1 < (before ++ lines.flatten).length) {fuel : Nat}
    (hfuel : lines.length < fuel) :
    bootScript d.readcmd fuel next s ≠
      lines.map (fun l => ((l.length : Int), l)) ++ [(0, [])] := by
  induction lines generalizing next s before fuel with
  | nil => exact absurd rfl hne
  | cons l lines ih =>
      obtain ⟨fuel, rfl⟩ := Nat.exists_eq_succ_of_ne_zero (Nat.ne_zero_of_lt hfuel)
      obtain ⟨text, rfl, hnewline, hshort⟩ := hlines l (List.mem_cons_self ..)
      rw [List.flatten_cons, ← List.append_assoc] at h hlen
      rw [bootScript]
      by_cases hroom : before.length + text.length ≤ shMaxLineLen
      · obtain ⟨hret, hnext⟩ := laws.read h hnewline hshort hroom
        have hlines' : lines ≠ [] := by
          rintro rfl
          simp only [List.flatten_nil, List.append_nil, List.length_append,
            List.length_singleton] at hlen
          omega
        have hrest := ih (fun l hl => hlines l (List.mem_cons_of_mem _ hl)) hlines' hnext hlen
          (Nat.lt_of_succ_lt_succ hfuel)
        have hpos : ¬ ((text.length + 1 : Nat) : Int) ≤ 0 := by omega
        simp only [hret, if_neg hpos]
        exact fun heq => hrest (List.cons.inj heq).2
      · have hneg := laws.cut h hnewline (Nat.lt_of_not_le hroom)
        rw [if_pos hneg.le]
        intro heq
        rw [List.map_cons, List.cons_append] at heq
        have hhead := congrArg Prod.fst (List.cons.inj heq).1
        simp only at hhead
        omega

include laws in
/-- The lines of a script come back exactly when the whole script passes the guard. -/
theorem roundTrip_iff {s : σ} {script : List (List (List UInt8))}
    (herase : Holds (d.erase s) []) (h : ScriptOk script) :
    RoundTrip d s script ↔ (script.flatMap scriptLine).length ≤ shMaxLineLen + 1 := by
  have hholds := holds_foldl_add laws herase h.args (by simpa using h.fits)
  have hlines : ∀ l ∈ script.map scriptLine, IsLine l := by
    intro l hl
    obtain ⟨args, hargs, rfl⟩ := List.mem_map.mp hl
    exact h.isLine hargs
  have hstart : At false (script.foldl d.add (d.erase s))
      ([] ++ (script.map scriptLine).flatten) ([] : List UInt8).length := by
    rw [← List.flatMap_def]
    exact laws.start hholds
  have hread : script.map lineRead =
      (script.map scriptLine).map (fun l => ((l.length : Int), l)) := by
    rw [List.map_map]
    rfl
  rw [RoundTrip, hread, List.flatMap_def, ← List.nil_append (List.flatten _)]
  have hcount : (script.map scriptLine).length = script.length := List.length_map _
  constructor
  · intro hall
    by_contra hlong
    have hne : script.map scriptLine ≠ [] := by
      intro hnil
      rw [hnil] at hlong
      exact hlong (Nat.zero_le _)
    exact bootScript_refuses laws hlines hne hstart (Nat.lt_of_not_le hlong)
      (Nat.lt_succ_self _) (hcount ▸ hall _ (Nat.lt_succ_self _))
  · intro hlen fuel hfuel
    exact bootScript_reads laws hlines hstart hlen (hcount ▸ hfuel)

end Laws

end Boot

end Storage
end WrpcSw
