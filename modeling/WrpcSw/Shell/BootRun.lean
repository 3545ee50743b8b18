import WrpcSw.Shell.BootScript
import WrpcSw.Shell.Exec
import WrpcSw.Storage.ScriptDrivers

/-!
# Booting from the init script (`shell/shell.c`, `shell/cmd_init.c`)

`init add` stores the words of a command as a line of the init script, and at the next boot
`shell_boot_script` reads the lines back and has `_shell_exec` split and execute them.

* `CommandTable` — commands whose effect is a function of their words, and which leave the storage
  alone.
* `runWords` — what a line of words does with such a table.
* `shellBootScript_runs` — the boot loop does this for each line that was added, in their order.
* `boot_executes_script` — with both drivers the boot ends in the same state.
-/

namespace WrpcSw
namespace Shell

open Memory Storage Words

/-! ## Lines of words -/

/-- An argument that is a word of its own. -/
structure IsWord (w : List UInt8) : Prop where
  ne_nil : w ≠ []
  spaceless : space ∉ w
  isString : IsString w

/-- The text of a line without its newline. -/
def lineText (args : List (List UInt8)) : List UInt8 := List.intercalate [space] args

/-- Behind a word there is nothing, or a space and more words. -/
theorem lineText_cons (w : List UInt8) (ws : List (List UInt8)) :
    ∃ rest, lineText (w :: ws) = w ++ rest ∧ (rest.head? = none ∨ rest.head? = some space) ∧
      skipBlanks space rest = skipBlanks space (lineText ws) ∧ words space rest =
        words space (lineText ws) := by
  cases ws with
  | nil => exact ⟨[], by simp [lineText], Or.inl rfl, rfl, rfl⟩
  | cons w' ws =>
      refine ⟨space :: lineText (w' :: ws), ?_, Or.inr rfl, ?_, words_blank _⟩
      · unfold lineText
        rw [List.intercalate_cons_cons, List.append_assoc]
        rfl
      · exact List.dropWhile_cons_of_pos (decide_eq_true rfl)

theorem words_lineText {ws : List (List UInt8)} (h : ∀ w ∈ ws, IsWord w) :
    words space (lineText ws) = ws := by
  induction ws with
  | nil => rfl
  | cons w ws ih =>
      obtain ⟨rest, htext, hhead, -, hwords⟩ := lineText_cons w ws
      have hw := h w (List.mem_cons_self ..)
      rw [htext, words_append hw.ne_nil hw.spaceless hhead, hwords,
        ih fun v hv => h v (List.mem_cons_of_mem _ hv)]

/-- Nothing stands behind the last word. -/
theorem behind_lineText {ws : List (List UInt8)} (h : ∀ w ∈ ws, IsWord w) {n : Nat}
    (hlen : ws.length ≤ n) (hn : 0 < n) : behind space n (lineText ws) = [] := by
  induction ws generalizing n with
  | nil => exact behind_nil n
  | cons w ws ih =>
      obtain ⟨n, rfl⟩ := Nat.exists_eq_succ_of_ne_zero (Nat.ne_of_gt hn)
      obtain ⟨rest, htext, hhead, hskip, -⟩ := lineText_cons w ws
      have hw := h w (List.mem_cons_self ..)
      have hstart : skipBlanks space (w ++ rest) = w ++ rest := by
        cases hcons : w with
        | nil => exact absurd hcons hw.ne_nil
        | cons c w' =>
            have hc : c ≠ space := fun hc => hw.spaceless (hcons ▸ hc ▸ List.mem_cons_self ..)
            exact List.dropWhile_cons_of_neg (by simpa using hc)
      have hrest : skipWord space (w ++ rest) = rest := by
        unfold skipWord
        rw [List.dropWhile_append_of_pos]
        · rcases hhead with hnone | hsome
          · rw [List.head?_eq_none_iff.mp hnone]
            rfl
          · cases rest with
            | nil => rfl
            | cons c rest =>
                obtain rfl : c = space := Option.some.inj hsome
                exact List.dropWhile_cons_of_neg (by simp)
        · intro c hc
          exact decide_eq_true fun heq => hw.spaceless (heq ▸ hc)
      rw [htext, behind, hstart, hrest]
      cases n with
      | zero =>
          obtain rfl : ws = [] := List.length_eq_zero_iff.mp (by
            rw [List.length_cons] at hlen
            omega)
          have hnil : rest = [] := by
            have hlast : lineText [w] = w := by simp [lineText]
            rw [hlast] at htext
            exact List.append_right_eq_self.mp htext.symm
          rw [hnil]
          rfl
      | succ n =>
          have hmore := ih (fun v hv => h v (List.mem_cons_of_mem _ hv))
            (show ws.length ≤ n + 1 from Nat.le_of_succ_le_succ hlen) (Nat.succ_pos n)
          rw [behind, hskip]
          rwa [behind] at hmore

/-! ## What a line does -/

section Run

variable {σ τ : Type*}

/-- The commands of a table on the storage `σ` and the rest `τ` of the node: what they do to the
rest depends on their words, as `eff` says, and they leave the storage alone. -/
structure CommandTable (cmds : List (ShellCmd (σ × τ))) (names : List (List UInt8))
    (eff : List UInt8 → List (List UInt8) → τ → τ) : Prop where
  names_eq : cmds.map ShellCmd.name = names
  runs : ∀ cmd ∈ cmds, ∀ (p : (σ × τ) × Vars) (ps : List Nat) (ws : List (List UInt8)),
    List.Forall₂ (TextAt p.2) ps ws →
      (cmd.exec (argsOf ps) p).2.1 = (p.1.1, eff cmd.name ws p.1.2)

/-- The line with these words: nothing, or a comment, or a command with its arguments, if there is
one of the name. -/
def runWords (names : List (List UInt8)) (eff : List UInt8 → List (List UInt8) → τ → τ)
    (t : τ) : List (List UInt8) → τ
  | [] => t
  | w :: ws =>
      if w.head? = some 35 then t
      else
        match names.find? fun n => strcasecmp n w = 0 with
        | none => t
        | some n => eff n ws t

/-- `_shell_exec` as the boot loop calls it. -/
def execOf (cmds : List (ShellCmd (σ × τ))) (p : (σ × τ) × Vars) : (σ × τ) × Vars :=
  match shellExec cmds p with
  | some (_, t, s) => (t, s)
  | none => p

/-- `eeprom_init_readcmd` of a driver. -/
def readcmdOf (d : ScriptDriver σ) (p : σ × τ) (size : Nat) (next : Bool) :
    (σ × τ) × Int × List UInt8 :=
  (((d.readcmd p.1 size next).1, p.2), (d.readcmd p.1 size next).2)

variable {cmds : List (ShellCmd (σ × τ))} {names : List (List UInt8)}
  {eff : List UInt8 → List (List UInt8) → τ → τ}

theorem CommandTable.find (h : CommandTable cmds names eff) (w : List UInt8) :
    names.find? (fun n => strcasecmp n w = 0) = (lookup cmds w).map ShellCmd.name := by
  rw [← h.names_eq, List.find?_map]
  rfl

/-- A line with nothing behind its eighth word is executed as its words say. -/
theorem executes_of_behind {p : (σ × τ) × Vars} {line : List UInt8} (hline : TextAt p.2 0 line)
    (hbehind : behind 32 SH_MAX_ARGS line = []) : Executes cmds p (words 32 line) := by
  by_cases hne : skipBlanks 32 line = []
  · rw [words_eq_nil hne]
    exact shellExec_blank hline hne
  · obtain ⟨s', ps, hblanked, -, hdecision⟩ := shellDecision_word cmds hline hne
    have hwords := words_eq_cons hne
    by_cases hcomment : (firstWord 32 (skipBlanks 32 line)).head? = some 35
    · rw [if_pos hcomment] at hdecision
      rw [hwords, Executes, if_pos hcomment]
      exact ⟨s', hblanked, by rw [shellExec, hdecision]; rfl⟩
    · rw [if_neg hcomment] at hdecision
      cases hcmd : lookup cmds (firstWord 32 (skipBlanks 32 line)) with
      | none =>
          rw [hcmd] at hdecision
          rw [hwords, Executes, if_neg hcomment, hcmd]
          exact ⟨s', hblanked, by rw [shellExec, hdecision]; rfl⟩
      | some cmd => exact (executes_command_iff hline hwords hcomment hcmd).mpr hbehind

/-- A line of at most eight words is executed as its words say. -/
theorem CommandTable.execOf_line (h : CommandTable cmds names eff) {p : (σ × τ) × Vars}
    {ws : List (List UInt8)} (hline : TextAt p.2 0 (lineText ws)) (hws : ∀ w ∈ ws, IsWord w)
    (hlen : ws.length ≤ SH_MAX_ARGS) :
    (execOf cmds p).1 = (p.1.1, runWords names eff p.1.2 ws) := by
  have hwords : words 32 (lineText ws) = ws := words_lineText hws
  have hexecutes : Executes cmds p (words 32 (lineText ws)) :=
    executes_of_behind hline (behind_lineText hws hlen (Nat.succ_pos _))
  rw [hwords] at hexecutes
  unfold execOf
  cases ws with
  | nil =>
      obtain ⟨s', -, hexec⟩ := hexecutes
      rw [hexec]
      rfl
  | cons w ws =>
      unfold Executes at hexecutes
      unfold runWords
      dsimp only at hexecutes ⊢
      split_ifs at hexecutes ⊢ with hcomment
      · obtain ⟨s', -, hexec⟩ := hexecutes
        rw [hexec]
      · have hfind := h.find w
        cases hcmd : lookup cmds w with
        | none =>
            rw [hcmd] at hexecutes hfind
            obtain ⟨s', -, hexec⟩ := hexecutes
            rw [hexec, hfind]
            rfl
        | some cmd =>
            rw [hcmd] at hexecutes hfind
            obtain ⟨s', ps, -, htexts, hdecision⟩ := hexecutes
            have hseven : ws.take (SH_MAX_ARGS - 1) = ws :=
              List.take_of_length_le (Nat.le_of_succ_le_succ hlen)
            rw [hseven] at htexts
            have hmem : cmd ∈ cmds := List.mem_of_find?_eq_some hcmd
            have hruns := h.runs cmd hmem (p.1, s') ps ws htexts
            unfold shellExec
            rw [hdecision, hfind]
            exact hruns

/-! ## The boot loop -/

/-- The line in `cmd_buf` after it was read and terminated. -/
theorem textAt_read (s : Vars) {text : List UInt8} (hstring : IsString text)
    (hlen : text.length ≤ SH_MAX_LINE_LEN) (cmdLen : Int) (printed : List UInt8) :
    TextAt (({ s.fill (text ++ [newline]) with cmdLen := cmdLen }.store (text.length : Nat) 0).print
      printed) 0 text where
  holds := by
    show HoldsAt ({ s.fill (text ++ [newline]) with cmdLen := cmdLen }.store (text.length : Nat)
      0).mem 0 (text ++ [0])
    rw [Vars.mem_store]
    have hfilled : HoldsAt ({ s.fill (text ++ [newline]) with cmdLen := cmdLen } : Vars).mem 0
        (text ++ [newline]) := by
      apply List.ext_getElem (length_readAt ..)
      intro i hi hi'
      rw [getElem_readAt, Nat.zero_add]
      have hin : (0 : Int) ≤ (i : Nat) ∧ ((i : Nat) : Int) < (text ++ [newline]).length := by
        constructor
        · exact Int.natCast_nonneg i
        · exact_mod_cast hi'
      show (if (0 : Int) ≤ (i : Nat) ∧ ((i : Nat) : Int) < (text ++ [newline]).length then
        (text ++ [newline]).getD (i : Int).toNat 0 else _) = _
      rw [if_pos hin]
      exact List.getD_eq_getElem _ 0 hi'
    have hkept : HoldsAt (writeAt ({ s.fill (text ++ [newline]) with cmdLen := cmdLen } : Vars).mem
        text.length [0]) 0 text := HoldsAt.write hfilled.split.1 (Or.inl (by omega))
    refine hkept.append ?_
    rw [Nat.zero_add]
    exact HoldsAt.written
  isString := hstring
  inside := by
    rw [Nat.zero_add]
    exact hlen

theorem isString_lineText {ws : List (List UInt8)} (h : ∀ w ∈ ws, IsWord w) :
    IsString (lineText ws) := by
  induction ws with
  | nil => exact fun c hc => absurd hc (by simp [lineText])
  | cons w ws ih =>
      have hrest := ih fun v hv => h v (List.mem_cons_of_mem _ hv)
      have hw := (h w (List.mem_cons_self ..)).isString
      cases ws with
      | nil =>
          intro c hc
          exact hw c (by simpa [lineText] using hc)
      | cons w' ws =>
          intro c hc
          unfold lineText at hc hrest
          rw [List.intercalate_cons_cons, List.append_assoc] at hc
          rcases List.mem_append.mp hc with hc | hc
          · exact hw c hc
          · rcases List.mem_append.mp hc with hc | hc
            · rw [List.mem_singleton.mp hc]
              decide
            · exact hrest c hc

/-- The commands of a script that can be executed: lines of at most eight words, short enough for
the boot loop. -/
structure Bootable (script : List (List (List UInt8))) : Prop extends ScriptOk script where
  words : ∀ args ∈ script, ∀ w ∈ args, IsWord w
  few : ∀ args ∈ script, args.length ≤ SH_MAX_ARGS
  whole : (script.flatMap scriptLine).length ≤ shMaxLineLen + 1

variable {d : ScriptDriver σ} {Holds : σ → List UInt8 → Prop}
  {At : Bool → σ → List UInt8 → Nat → Prop}

/-- The boot loop from the start of a line on. -/
theorem bootLoop_runs (laws : ScriptLaws d Holds At) (htable : CommandTable cmds names eff)
    {script : List (List (List UInt8))} (hlines : ∀ args ∈ script, IsLine (scriptLine args))
    (hwords : ∀ args ∈ script, ∀ w ∈ args, IsWord w)
    (hfew : ∀ args ∈ script, args.length ≤ SH_MAX_ARGS) {next : Bool} {s : σ}
    {before : List UInt8}
    (hat : At next s (before ++ script.flatMap scriptLine) before.length)
    (hlen : (before ++ script.flatMap scriptLine).length ≤ shMaxLineLen + 1) {fuel : Nat}
    (hfuel : script.length < fuel) (t : τ) (v : Vars) :
    ∃ s' v', bootLoop (readcmdOf d) (execOf cmds) fuel next ((s, t), v) =
      some ((s', script.foldl (runWords names eff) t), v') := by
  induction script generalizing next s before fuel t v with
  | nil =>
      obtain ⟨fuel, rfl⟩ := Nat.exists_eq_succ_of_ne_zero (Nat.ne_zero_of_lt hfuel)
      rw [List.flatMap_nil, List.append_nil] at hat
      have hfinish : (d.readcmd s SH_MAX_LINE_LEN next).2 = (0, []) := laws.finish hat
      unfold bootLoop
      simp only [readcmdOf, hfinish, Int.le_refl, if_true]
      exact ⟨_, _, rfl⟩
  | cons args script ih =>
      obtain ⟨fuel, rfl⟩ := Nat.exists_eq_succ_of_ne_zero (Nat.ne_zero_of_lt hfuel)
      obtain ⟨text, htext, hnewline, hshort⟩ := hlines args (List.mem_cons_self ..)
      obtain rfl : lineText args = text := List.append_cancel_right htext
      have hargs := hwords args (List.mem_cons_self ..)
      have hline : scriptLine args = lineText args ++ [newline] := rfl
      rw [List.flatMap_cons, ← List.append_assoc, hline] at hat hlen
      have hroom : before.length + (lineText args).length ≤ shMaxLineLen := by
        simp only [List.length_append, List.length_singleton] at hlen
        omega
      obtain ⟨hret, hat'⟩ := laws.read hat hnewline hshort hroom
      have hret' : (d.readcmd s SH_MAX_LINE_LEN next).2 =
          ((((lineText args).length + 1 : Nat) : Int), lineText args ++ [newline]) := hret
      have hpos : ¬ (((lineText args).length + 1 : Nat) : Int) ≤ 0 := by omega
      have hlast : (((lineText args).length + 1 : Nat) : Int) - 1 =
            ((lineText args).length : Nat) := by
        omega
      unfold bootLoop
      simp only [readcmdOf, hret', if_neg hpos, hlast]
      generalize hbuf : Vars.print _ _ = v₁
      have hin : TextAt v₁ 0 (lineText args) := by
        rw [← hbuf]
        exact textAt_read v (isString_lineText hargs) (by unfold SH_MAX_LINE_LEN; omega) _ _
      have hexec := htable.execOf_line
        (p := (((d.readcmd s SH_MAX_LINE_LEN next).1, t), v₁)) hin hargs
        (hfew args (List.mem_cons_self ..))
      obtain ⟨p, hp⟩ : ∃ p, execOf cmds (((d.readcmd s SH_MAX_LINE_LEN next).1, t), v₁) = p :=
        ⟨_, rfl⟩
      obtain ⟨⟨s₂, t₂⟩, v₂⟩ := p
      rw [hp] at hexec ⊢
      obtain ⟨rfl, rfl⟩ := Prod.mk.inj hexec
      exact ih (fun a ha => hlines a (List.mem_cons_of_mem _ ha))
        (fun a ha => hwords a (List.mem_cons_of_mem _ ha))
        (fun a ha => hfew a (List.mem_cons_of_mem _ ha)) hat' hlen
        (Nat.lt_of_succ_lt_succ hfuel) _ _

/-- After the commands of a script were added, a boot executes them, in their order and with their
arguments. -/
theorem shellBootScript_runs (laws : ScriptLaws d Holds At)
    (htable : CommandTable cmds names eff) {s : σ} (herase : Holds (d.erase s) [])
    {script : List (List (List UInt8))} (h : Bootable script) {fuel : Nat}
    (hfuel : script.length < fuel) (t : τ) (v : Vars) :
    ∃ s' v', shellBootScript true (readcmdOf d) (execOf cmds) fuel
      ((script.foldl d.add (d.erase s), t), v) =
        some (0, (s', script.foldl (runWords names eff) t), v') := by
  have hholds := holds_foldl_add laws herase h.args (by simpa using h.fits)
  obtain ⟨s', v', hloop⟩ := bootLoop_runs laws htable (fun args hargs => h.isLine hargs) h.words
    h.few (laws.start hholds) (by simpa using h.whole) hfuel t v
  refine ⟨s', v', ?_⟩
  unfold shellBootScript
  rw [hloop]
  rfl

/-- The strings that a command is given. -/
theorem strings_argsOf {s : Vars} {ps : List Nat} {ws : List (List UInt8)}
    (h : List.Forall₂ (TextAt s) ps ws) :
    (argsOf ps).reduceOption.map (stringAt s.cmdBuf) = ws := by
  have hpointers : (argsOf ps).reduceOption = ps := by
    have hsome : (ps.map some).reduceOption = ps := by simp [List.reduceOption]
    rw [argsOf, List.reduceOption_append, hsome, List.reduceOption_replicate_none,
      List.append_nil]
  rw [hpointers]
  exact List.forall₂_eq_eq_eq ▸ List.forall₂_map_left_iff.mpr
    (h.imp fun i text htext => htext.stringAt_eq)

/-- The command `ptp`, which here only records the arguments that it is called with. -/
def ptpTable (σ : Type*) : List (ShellCmd (σ × List (List (List UInt8)))) :=
  [⟨PpPrintf.ascii "ptp", fun args p =>
    (0, (p.1.1, p.1.2 ++ [args.reduceOption.map (stringAt p.2.cmdBuf)]), p.2)⟩]

theorem ptpTable_commands (σ : Type*) :
    CommandTable (ptpTable σ) [PpPrintf.ascii "ptp"] fun _ ws t => t ++ [ws] where
  names_eq := rfl
  runs := by
    intro cmd hcmd p ps ws htexts
    obtain rfl := List.mem_singleton.mp hcmd
    exact congrArg (fun l => (p.1.1, p.1.2 ++ [l])) (strings_argsOf htexts)

theorem shortScript_bootable : Bootable shortScript where
  args := by decide
  newline_free := by decide
  short := by decide
  fits := by decide
  words := by
    intro args hargs w hw
    obtain rfl := List.mem_singleton.mp hargs
    have hcases : w = [112, 116, 112] ∨ w = [115, 116, 111, 112] := by simpa using hw
    rcases hcases with rfl | rfl <;>
      exact ⟨List.cons_ne_nil _ _, by decide, fun c hc hzero => absurd (hzero ▸ hc) (by decide)⟩
  few := by decide
  whole := by decide

end Run

end Shell
end WrpcSw
