import Mathlib.Data.List.ReduceOption
import WrpcSw.Lib.Memory
import WrpcSw.Lib.Words
import WrpcSw.PpPrintf.VsprintfXint
import WrpcSw.Shell.BootScript

/-!
# The execution of a line (`shell/shell.c`)

`_shell_exec` cuts the line in `cmd_buf` into words, by overwriting the spaces between them, looks
the first word up and hands pointers to the other words to the command.

The zero behind a word is written when the next word is looked for.  After the eighth word no
other word is looked for, and the eighth pointer is then to all the rest of the line.

* `shellDecision` — the tokenizer and the lookup; `shellExec` also calls the command.
* `tokenLoop_spec` — what the pointers point to.
* `shellDecision_iff` — when a command is given the words of the line.
-/

namespace WrpcSw
namespace Shell

open Memory Words PpPrintf

variable {σ : Type*}

def SH_MAX_ARGS : Nat := 8

def EINVAL : Int := 22

/-! ## The code -/

/-- `while (cmd_buf[i] == ' ' && cmd_buf[i]) cmd_buf[i++] = 0;` for at most `fuel` tests. -/
def skipSpaces : Nat → Vars → Nat → Option (Vars × Nat)
  | 0, _, _ => none
  | fuel + 1, s, i =>
      if s.cmdBuf i = 32 ∧ s.cmdBuf i ≠ 0 then skipSpaces fuel (s.store i 0) (i + 1)
      else some (s, i)

/-- `while (cmd_buf[i] != ' ' && cmd_buf[i]) i++;` for at most `fuel` tests. -/
def skipToken : Nat → Vars → Nat → Option Nat
  | 0, _, _ => none
  | fuel + 1, s, i =>
      if s.cmdBuf i ≠ 32 ∧ s.cmdBuf i ≠ 0 then skipToken fuel s (i + 1) else some i

/-- The loop that fills `tokptr`, here the list of the indices that were stored.  The inner loops
read no more than the elements of `cmd_buf`. -/
def tokenLoop : Nat → Vars → Nat → List Nat → Option (Vars × List Nat)
  | 0, _, _, _ => none
  | fuel + 1, s, i, tokptr =>
      if tokptr.length ≥ SH_MAX_ARGS then some (s, tokptr)
      else
        match skipSpaces (SH_MAX_LINE_LEN + 1) s i with
        | none => none
        | some (s, i) =>
            if s.cmdBuf i = 0 then some (s, tokptr)
            else
              let tokptr := tokptr ++ [i]
              match skipToken (SH_MAX_LINE_LEN + 1) s i with
              | none => none
              | some i =>
                  if s.cmdBuf i = 0 then some (s, tokptr) else tokenLoop fuel s i tokptr

def tolower (c : UInt8) : UInt8 := if 65 ≤ c ∧ c ≤ 90 then c + 32 else c

def strcasecmp : List UInt8 → List UInt8 → Int
  | [], [] => 0
  | [], b :: _ => -((tolower b).toNat : Int)
  | a :: _, [] => (tolower a).toNat
  | a :: as, b :: bs =>
      if tolower a = tolower b then strcasecmp as bs
      else ((tolower a).toNat : Int) - (tolower b).toNat

/-- `struct wrc_shell_cmd`.  A command gets the elements of `tokptr` behind the first one: indices
of `cmd_buf`, or `NULL`. -/
structure ShellCmd (σ : Type*) where
  name : List UInt8
  exec : List (Option Nat) → σ × Vars → Int × σ × Vars

/-- What `_shell_exec` does with a line: return, or call a command. -/
inductive Decision (σ : Type*)
  | done (rv : Int)
  | call (cmd : ShellCmd σ) (args : List (Option Nat))

/-- The string that starts at an index of `cmd_buf`. -/
def stringAt (buf : Int → UInt8) (i : Nat) : List UInt8 :=
  ((List.range (SH_MAX_LINE_LEN + 1 - i)).map fun k : Nat => buf (i + k : Nat)).takeWhile (· ≠ 0)

def unrecognized (name : List UInt8) : List UInt8 :=
  Xint.vsprintf (ascii "Unrecognized command \"%s\".\n") [.str name]

def errorOf (name : List UInt8) (rv : Int) : List UInt8 :=
  Xint.vsprintf (ascii "Command \"%s\": error %d\n") [.str name, .int (UInt32.ofInt rv)]

/-- `_shell_exec` up to the call of a command. -/
def shellDecision (cmds : List (ShellCmd σ)) (s : Vars) : Option (Vars × Decision σ) :=
  match tokenLoop (SH_MAX_ARGS + 1) s 0 [] with
  | none => none
  | some (s, []) => some (s, .done 0)
  | some (s, i :: tokptr) =>
      if s.cmdBuf i = 35 then some (s, .done 0)
      else
        match cmds.find? fun p => strcasecmp p.name (stringAt s.cmdBuf i) = 0 with
        | some p =>
            some (s, .call p (tokptr.map some ++ List.replicate (SH_MAX_ARGS - tokptr.length) none))
        | none => some (s.print (unrecognized (stringAt s.cmdBuf i)), .done (-EINVAL))

/-- `_shell_exec`: what it returns, and the state after it. -/
def shellExec (cmds : List (ShellCmd σ)) (p : σ × Vars) : Option (Int × σ × Vars) :=
  (shellDecision cmds p.2).map fun (s, d) =>
    match d with
    | .done rv => (rv, p.1, s)
    | .call cmd args =>
        let (rv, t, s) := cmd.exec args (p.1, s)
        (rv, t, if rv < 0 then s.print (errorOf cmd.name rv) else s)

/-! ## The buffer -/

/-- The elements of `cmd_buf`. -/
def Vars.mem (s : Vars) : Nat → UInt8 := fun i => s.cmdBuf i

theorem Vars.mem_store (s : Vars) (i : Nat) (c : UInt8) :
    (s.store i c).mem = writeAt s.mem i [c] := by
  funext k
  have hstore : (s.store i c).mem k = if k = i then c else s.mem k := by
    simp only [Vars.mem, Vars.store, Function.update_apply, Nat.cast_inj]
  rw [hstore]
  split_ifs with hk
  · rw [hk, writeAt_singleton]
  · rw [writeAt_outside]
    rw [List.length_singleton]
    omega

/-- A zero-terminated text in `cmd_buf`. -/
structure TextAt (s : Vars) (i : Nat) (text : List UInt8) : Prop where
  holds : HoldsAt s.mem i (text ++ [0])
  isString : IsString text
  inside : i + text.length ≤ SH_MAX_LINE_LEN

section TextAt

variable {s : Vars} {i : Nat} {text : List UInt8}

theorem TextAt.end_eq (h : TextAt s i text) : s.mem (i + text.length) = 0 := (h.holds.split.2).cons.1

/-- The end of a text is a text. -/
theorem TextAt.suffix {pre : List UInt8} (h : TextAt s i (pre ++ text)) :
    TextAt s (i + pre.length) text where
  holds := by
    have hholds := h.holds
    rw [List.append_assoc] at hholds
    exact hholds.split.2
  isString := fun c hc => h.isString c (List.mem_append_right pre hc)
  inside := by
    have hinside := h.inside
    rw [List.length_append] at hinside
    omega

/-- A text that was cut off. -/
theorem TextAt.cut_off {rest : List UInt8} (h : TextAt s i (text ++ rest)) {s' : Vars}
    (hsame : ∀ k, k < i + text.length → s'.mem k = s.mem k) (hend : s'.mem (i + text.length) = 0) :
    TextAt s' i text where
  holds := by
    have hholds := h.holds
    rw [List.append_assoc] at hholds
    refine HoldsAt.append ?_ (congrArg (· :: []) hend)
    exact (readAt_congr fun k _ hk => hsame k hk).trans hholds.split.1
  isString := fun c hc => h.isString c (List.mem_append_left rest hc)
  inside := by
    have hinside := h.inside
    rw [List.length_append] at hinside
    omega

theorem TextAt.congr (h : TextAt s i text) {s' : Vars} (hsame : ∀ k, i ≤ k → s'.mem k = s.mem k) :
    TextAt s' i text where
  holds := (readAt_congr fun k hk _ => hsame k hk).trans h.holds
  isString := h.isString
  inside := h.inside

/-- The first element of a text, or the zero behind an empty one. -/
theorem TextAt.head (h : TextAt s i text) : s.mem i = text.head?.getD 0 := by
  cases text with
  | nil => exact h.end_eq
  | cons c text => exact h.holds.cons.1

theorem TextAt.head_eq_zero (h : TextAt s i text) : s.mem i = 0 ↔ text = [] := by
  rw [h.head]
  cases text with
  | nil => exact iff_of_true rfl rfl
  | cons c text => exact iff_of_false (h.isString c List.mem_cons_self) (List.cons_ne_nil c text)

theorem TextAt.stringAt_eq (h : TextAt s i text) : stringAt s.cmdBuf i = text := by
  have hinside := h.inside
  obtain ⟨n, hn⟩ : ∃ n, SH_MAX_LINE_LEN + 1 - i = (text ++ [0]).length + n := by
    refine ⟨SH_MAX_LINE_LEN - i - text.length, ?_⟩
    rw [List.length_append, List.length_singleton]
    omega
  have hread : (List.range (SH_MAX_LINE_LEN + 1 - i)).map (fun k : Nat => s.cmdBuf (i + k : Nat))
      = text ++ [0] ++ readAt s.mem (i + (text ++ [0]).length) n := by
    rw [hn]
    exact (readAt_add s.mem i _ n).trans (congrArg (· ++ _) h.holds)
  unfold stringAt
  rw [hread, List.append_assoc, List.takeWhile_append_of_pos]
  · exact List.append_nil text
  · intro c hc
    exact decide_eq_true (h.isString c hc)

end TextAt

/-- Some of the spaces were overwritten, and nothing else changed. -/
structure Blanked (s s' : Vars) : Prop where
  rest : s' = { s with cmdBuf := s'.cmdBuf, stores := s'.stores }
  bytes : ∀ i, s'.cmdBuf i = s.cmdBuf i ∨ (s.cmdBuf i = 32 ∧ s'.cmdBuf i = 0)

theorem Blanked.refl (s : Vars) : Blanked s s := ⟨rfl, fun _ => Or.inl rfl⟩

theorem Blanked.trans {s s' s'' : Vars} (h : Blanked s s') (h' : Blanked s' s'') :
    Blanked s s'' where
  rest := by rw [h'.rest, h.rest]
  bytes := by
    intro i
    rcases h'.bytes i with hsame | ⟨hspace, hzero⟩
    · rw [hsame]
      exact h.bytes i
    · rcases h.bytes i with hsame | ⟨-, hzero'⟩
      · exact Or.inr ⟨hsame ▸ hspace, hzero⟩
      · exact absurd (hspace.symm.trans hzero') (by decide)

theorem Blanked.store {s : Vars} {i : Nat} (h : s.cmdBuf i = 32) : Blanked s (s.store i 0) where
  rest := rfl
  bytes := by
    intro k
    by_cases hk : k = i
    · exact Or.inr ⟨hk ▸ h, hk ▸ Function.update_self _ _ _⟩
    · exact Or.inl (Function.update_of_ne hk _ _)

/-! ## The tokenizer -/

theorem skipSpaces_spec {g : List UInt8} (hg : ∀ c ∈ g, c = 32) {c : UInt8} (hc : c ≠ 32)
    {fuel : Nat} {s : Vars} {i : Nat} (hs : HoldsAt s.mem i (g ++ [c])) (hfuel : g.length < fuel) :
    ∃ s', skipSpaces fuel s i = some (s', i + g.length) ∧ Blanked s s' ∧
      s'.mem = writeAt s.mem i (List.replicate g.length 0) := by
  induction g generalizing fuel s i with
  | nil =>
      obtain ⟨fuel, rfl⟩ := Nat.exists_eq_succ_of_ne_zero (Nat.ne_of_gt hfuel)
      have hhead : s.cmdBuf i = c := hs.cons.1
      have hstop : ¬ (s.cmdBuf i = 32 ∧ s.cmdBuf i ≠ 0) := fun h => hc (hhead ▸ h.1)
      exact ⟨s, if_neg hstop, .refl s, (writeAt_nil s.mem i).symm⟩
  | cons d g ih =>
      obtain ⟨fuel, rfl⟩ := Nat.exists_eq_succ_of_ne_zero (Nat.ne_of_gt (Nat.zero_lt_of_lt hfuel))
      obtain rfl : d = 32 := hg d List.mem_cons_self
      obtain ⟨hhead, htail⟩ := hs.cons
      have hspace : s.cmdBuf i = 32 := hhead
      have hgo : s.cmdBuf i = 32 ∧ s.cmdBuf i ≠ 0 := by
        rw [hspace]
        exact ⟨rfl, by decide⟩
      have htail' : HoldsAt (s.store i 0).mem (i + 1) (g ++ [c]) := by
        rw [Vars.mem_store]
        exact htail.write (Or.inr (Nat.le_refl _))
      obtain ⟨s', hrun, hblanked, hmem⟩ := ih (fun e he => hg e (List.mem_cons_of_mem _ he)) htail'
        (Nat.lt_of_succ_lt_succ hfuel)
      refine ⟨s', ?_, (Blanked.store hspace).trans hblanked, ?_⟩
      · rw [skipSpaces, if_pos hgo, hrun, List.length_cons, Nat.add_right_comm, Nat.add_assoc]
      · rw [hmem, Vars.mem_store]
        exact writeAt_append s.mem i [0] (List.replicate g.length 0)

theorem skipToken_spec {w : List UInt8} (hw : ∀ c ∈ w, c ≠ 32 ∧ c ≠ 0) {s : Vars} {fuel i : Nat}
    (hs : HoldsAt s.mem i w) (hend : s.mem (i + w.length) = 32 ∨ s.mem (i + w.length) = 0)
    (hfuel : w.length < fuel) : skipToken fuel s i = some (i + w.length) := by
  induction w generalizing fuel i with
  | nil =>
      obtain ⟨fuel, rfl⟩ := Nat.exists_eq_succ_of_ne_zero (Nat.ne_of_gt hfuel)
      refine if_neg ?_
      rintro ⟨hspace, hzero⟩
      exact hend.elim hspace hzero
  | cons c w ih =>
      obtain ⟨fuel, rfl⟩ := Nat.exists_eq_succ_of_ne_zero (Nat.ne_of_gt (Nat.zero_lt_of_lt hfuel))
      obtain ⟨hhead, htail⟩ := hs.cons
      have hhead' : s.cmdBuf i = c := hhead
      have hgo : s.cmdBuf i ≠ 32 ∧ s.cmdBuf i ≠ 0 := by
        rw [hhead']
        exact hw c List.mem_cons_self
      have hadd : i + (c :: w).length = i + 1 + w.length := by
        rw [List.length_cons]
        omega
      rw [hadd] at hend ⊢
      rw [skipToken, if_pos hgo]
      exact ih (fun e he => hw e (List.mem_cons_of_mem _ he)) htail hend
        (Nat.lt_of_succ_lt_succ hfuel)

/-- The blanks of a text are skipped, and overwritten. -/
theorem skipSpaces_text {s : Vars} {i : Nat} {line : List UInt8} (hs : TextAt s i line) :
    ∃ s', skipSpaces (SH_MAX_LINE_LEN + 1) s i = some (s', i + (blanks 32 line).length) ∧
      Blanked s s' ∧ (∀ k, k < i → s'.mem k = s.mem k) ∧
      (line.head? = some 32 → s'.mem i = 0) ∧
      TextAt s' (i + (blanks 32 line).length) (skipBlanks 32 line) := by
  have hline : TextAt s i (blanks 32 line ++ skipBlanks 32 line) := by
    rwa [blanks_append_skipBlanks]
  have hrest := hline.suffix
  have hhead : (skipBlanks 32 line).head?.getD 0 ≠ 32 := by
    have hnot := head_skipBlanks 32 line
    cases hc : (skipBlanks 32 line).head? with
    | none => exact (by decide : (0 : UInt8) ≠ 32)
    | some c => exact fun h => hnot (hc.trans (congrArg some h))
  have hholds : HoldsAt s.mem i (blanks 32 line ++ [(skipBlanks 32 line).head?.getD 0]) := by
    have hsplit := hline.holds
    rw [List.append_assoc] at hsplit
    exact hsplit.split.1.append (congrArg (· :: []) hrest.head)
  have hinside := hline.inside
  rw [List.length_append] at hinside
  obtain ⟨s', hspaces, hblanked, hmem⟩ := skipSpaces_spec (fun c => eq_blank_of_mem_blanks) hhead
    hholds (show (blanks 32 line).length < SH_MAX_LINE_LEN + 1 by omega)
  refine ⟨s', hspaces, hblanked, ?_, ?_, ?_⟩
  · intro k hk
    rw [hmem, writeAt_outside _ _ _ (Or.inl hk)]
  · intro hspace
    cases line with
    | nil => exact absurd hspace nofun
    | cons c line =>
        obtain rfl : c = 32 := Option.some.inj hspace
        have hg : blanks 32 ((32 : UInt8) :: line) = 32 :: blanks 32 line :=
          List.takeWhile_cons_of_pos (decide_eq_true rfl)
        rw [hmem, hg]
        exact writeAt_inside s.mem i (List.replicate (_ + 1) 0) (i := 0) (by simp)
  · refine hrest.congr fun k hk => ?_
    rw [hmem, writeAt_outside]
    rw [List.length_replicate]
    exact Or.inr hk

/-- The first word of a text is skipped. -/
theorem skipToken_text {s : Vars} {i : Nat} {line : List UInt8} (hs : TextAt s i line) :
    skipToken (SH_MAX_LINE_LEN + 1) s i = some (i + (firstWord 32 line).length) ∧
      TextAt s (i + (firstWord 32 line).length) (skipWord 32 line) := by
  have hline : TextAt s i (firstWord 32 line ++ skipWord 32 line) := by
    rwa [firstWord_append_skipWord]
  have hrest := hline.suffix
  have htoken : ∀ c ∈ firstWord 32 line, c ≠ 32 ∧ c ≠ 0 := by
    intro c hc
    exact ⟨fun h => notMem_firstWord 32 line (h ▸ hc),
      hline.isString c (List.mem_append_left _ hc)⟩
  have hbehind : s.mem (i + (firstWord 32 line).length) = 32 ∨
      s.mem (i + (firstWord 32 line).length) = 0 := by
    rw [hrest.head]
    rcases head_skipWord 32 line with hnone | hsome
    · exact Or.inr (by rw [hnone]; rfl)
    · exact Or.inl (by rw [hsome]; rfl)
  have hheld : HoldsAt s.mem i (firstWord 32 line) := by
    have hall := hline.holds
    rw [List.append_assoc] at hall
    exact hall.split.1
  have hlen := hline.inside
  rw [List.length_append] at hlen
  exact ⟨skipToken_spec htoken hheld hbehind
    (show (firstWord 32 line).length < SH_MAX_LINE_LEN + 1 by omega), hrest⟩

/-- One round of the loop, on the text that starts at `i`. -/
theorem tokenLoop_round {s : Vars} {i : Nat} {line : List UInt8} (hs : TextAt s i line)
    {tokptr : List Nat} (hroom : tokptr.length < SH_MAX_ARGS) (fuel : Nat) :
    ∃ s', Blanked s s' ∧ (∀ k, k < i → s'.mem k = s.mem k) ∧
      (line.head? = some 32 → s'.mem i = 0) ∧
      TextAt s' (i + (blanks 32 line).length) (skipBlanks 32 line) ∧
      tokenLoop (fuel + 1) s i tokptr =
        if skipBlanks 32 line = [] then some (s', tokptr)
        else if skipWord 32 (skipBlanks 32 line) = [] then
          some (s', tokptr ++ [i + (blanks 32 line).length])
        else tokenLoop fuel s' (i + (blanks 32 line).length +
          (firstWord 32 (skipBlanks 32 line)).length) (tokptr ++ [i + (blanks 32 line).length]) := by
  obtain ⟨s', hspaces, hblanked, hbelow, hzero, htext⟩ := skipSpaces_text hs
  obtain ⟨hskip, hrest⟩ := skipToken_text htext
  refine ⟨s', hblanked, hbelow, hzero, htext, ?_⟩
  have hfull : ¬ tokptr.length ≥ SH_MAX_ARGS := Nat.not_le_of_lt hroom
  rw [tokenLoop, if_neg hfull, hspaces]
  by_cases hne : skipBlanks 32 line = []
  · exact (if_pos (htext.head_eq_zero.mpr hne)).trans (if_pos hne).symm
  · refine (if_neg (mt htext.head_eq_zero.mp hne)).trans ?_
    rw [hskip, if_neg hne]
    exact if_congr hrest.head_eq_zero rfl rfl

theorem tokenLoop_full {tokptr : List Nat} (h : tokptr.length = SH_MAX_ARGS) (fuel : Nat)
    (s : Vars) (i : Nat) : tokenLoop (fuel + 1) s i tokptr = some (s, tokptr) :=
  if_pos (Nat.le_of_eq h.symm)

/-- The loop with room for `n` pointers: the texts that they point to are the parts of the line,
and a space at the start is overwritten. -/
theorem tokenLoop_spec {n : Nat} {s : Vars} {i : Nat} {line : List UInt8} (hs : TextAt s i line)
    {tokptr : List Nat} (hroom : tokptr.length + n = SH_MAX_ARGS) :
    ∃ s' ps, tokenLoop (n + 1) s i tokptr = some (s', tokptr ++ ps) ∧ Blanked s s' ∧
      List.Forall₂ (TextAt s') ps (cut 32 n line) ∧ (∀ k, k < i → s'.mem k = s.mem k) ∧
      (n ≠ 0 → line.head? = some 32 → s'.mem i = 0) := by
  induction n generalizing s i line tokptr with
  | zero =>
      refine ⟨s, [], ?_, .refl s, .nil, fun _ _ => rfl, fun h => absurd rfl h⟩
      rw [List.append_nil]
      exact tokenLoop_full hroom 0 s i
  | succ n ih =>
      obtain ⟨s₁, hblanked, hbelow, hzero, htext, hround⟩ :=
        tokenLoop_round hs (show tokptr.length < SH_MAX_ARGS by omega) (n + 1)
      rw [hround]
      by_cases hne : skipBlanks 32 line = []
      · refine ⟨s₁, [], ?_, hblanked, ?_, hbelow, fun _ => hzero⟩
        · rw [if_pos hne, List.append_nil]
        · rw [cut, if_pos hne]
          exact .nil
      · have hword := firstWord_append_skipWord 32 (skipBlanks 32 line)
        rw [if_neg hne, cut, if_neg hne]
        by_cases hlast : n = 0 ∨ skipWord 32 (skipBlanks 32 line) = []
        · -- the last pointer: its text is all the rest
          have hcut : (if n = 0 then [skipBlanks 32 line] else firstWord 32 (skipBlanks 32 line) ::
              cut 32 n (skipWord 32 (skipBlanks 32 line))) = [skipBlanks 32 line] := by
            split_ifs with hn
            · rfl
            · have hend := hlast.resolve_left hn
              rw [hend, List.append_nil] at hword
              rw [hend, hword, cut_nil]
          refine ⟨s₁, [i + (blanks 32 line).length], ?_, hblanked, ?_, hbelow, fun _ => hzero⟩
          · split_ifs with hend
            · rfl
            · obtain rfl := hlast.resolve_right hend
              exact tokenLoop_full (by rw [List.length_append]; exact hroom) 0 _ _
          · rw [hcut]
            exact .cons htext .nil
        · obtain ⟨hn, hend⟩ := not_or.mp hlast
          have htext' : TextAt s₁ (i + (blanks 32 line).length)
              (firstWord 32 (skipBlanks 32 line) ++ skipWord 32 (skipBlanks 32 line)) := by
            rwa [hword]
          have hroom' : (tokptr ++ [i + (blanks 32 line).length]).length + n = SH_MAX_ARGS := by
            rw [List.length_append, List.length_singleton]
            omega
          obtain ⟨s₂, ps, hrun, hblanked', hparts, hbelow', hzero'⟩ := ih htext'.suffix hroom'
          have hspace : (skipWord 32 (skipBlanks 32 line)).head? = some 32 :=
            (head_skipWord 32 _).resolve_left (mt List.head?_eq_none_iff.mp hend)
          refine ⟨s₂, (i + (blanks 32 line).length) :: ps, ?_, hblanked.trans hblanked', ?_, ?_, ?_⟩
          · rw [if_neg hend, hrun, List.append_assoc]
            rfl
          · rw [if_neg hn]
            exact .cons (htext'.cut_off hbelow' (hzero' hn hspace)) hparts
          · intro k hk
            rw [hbelow' k (by omega), hbelow k hk]
          · intro _ hhead
            have hi : i < i + (blanks 32 line).length +
                (firstWord 32 (skipBlanks 32 line)).length := by
              have hpos := List.length_pos_iff.mpr (firstWord_ne_nil hne (head_skipBlanks 32 line))
              omega
            rw [hbelow' i hi, hzero hhead]

/-! ## The words of a line -/

/-- The pointers behind the first one, and `NULL` up to the end of the array. -/
def argsOf (ps : List Nat) : List (Option Nat) :=
  ps.map some ++ List.replicate (SH_MAX_ARGS - ps.length) none

theorem argsOf_injective : Function.Injective argsOf := by
  intro ps ps' h
  have hreduce : ∀ qs, (argsOf qs).reduceOption = qs := by
    intro qs
    have hsome : (qs.map some).reduceOption = qs := by simp [List.reduceOption]
    rw [argsOf, List.reduceOption_append, hsome, List.reduceOption_replicate_none,
      List.append_nil]
  rw [← hreduce ps, ← hreduce ps', h]

def lookup (cmds : List (ShellCmd σ)) (name : List UInt8) : Option (ShellCmd σ) :=
  cmds.find? fun p => strcasecmp p.name name = 0

/-- What the execution of a line with the words `ws` is meant to do: nothing, for a line without
words or a comment; otherwise the first word is looked up, and the command is given the words
behind it, up to the eighth one. -/
def Executes (cmds : List (ShellCmd σ)) (p : σ × Vars) : List (List UInt8) → Prop
  | [] => ∃ s', Blanked p.2 s' ∧ shellExec cmds p = some (0, p.1, s')
  | w :: ws =>
      if w.head? = some 35 then ∃ s', Blanked p.2 s' ∧ shellExec cmds p = some (0, p.1, s')
      else
        match lookup cmds w with
        | none => ∃ s', Blanked p.2 s' ∧
            shellExec cmds p = some (-EINVAL, p.1, s'.print (unrecognized w))
        | some cmd => ∃ s' ps, Blanked p.2 s' ∧
            List.Forall₂ (TextAt s') ps (ws.take (SH_MAX_ARGS - 1)) ∧
            shellDecision cmds p.2 = some (s', .call cmd (argsOf ps))

section Decision

variable {cmds : List (ShellCmd σ)} {p : σ × Vars} {line : List UInt8}

theorem shellExec_blank (hline : TextAt p.2 0 line) (h : skipBlanks 32 line = []) :
    ∃ s', Blanked p.2 s' ∧ shellExec cmds p = some (0, p.1, s') := by
  have hroom : ([] : List Nat).length + 8 = SH_MAX_ARGS := rfl
  obtain ⟨s', ps, hrun, hblanked, hparts, -, -⟩ := tokenLoop_spec hline hroom
  rw [cut, if_pos h] at hparts
  obtain rfl := List.forall₂_nil_right_iff.mp hparts
  have hdecision : shellDecision cmds p.2 = some (s', .done 0) := by
    unfold shellDecision
    rw [show tokenLoop (SH_MAX_ARGS + 1) p.2 0 [] = some (s', []) from hrun]
  refine ⟨s', hblanked, ?_⟩
  rw [shellExec, hdecision]
  rfl

variable (cmds) in
/-- The decision for a line with words: the lookup of the first one, with the pointers to the
other parts of the line. -/
theorem shellDecision_word (hline : TextAt p.2 0 line) (h : skipBlanks 32 line ≠ []) :
    ∃ s' ps, Blanked p.2 s' ∧
      List.Forall₂ (TextAt s') ps (cut 32 7 (skipWord 32 (skipBlanks 32 line))) ∧
      shellDecision cmds p.2 =
        if (firstWord 32 (skipBlanks 32 line)).head? = some 35 then some (s', .done 0)
        else
          match lookup cmds (firstWord 32 (skipBlanks 32 line)) with
          | some cmd => some (s', .call cmd (argsOf ps))
          | none => some (s'.print (unrecognized (firstWord 32 (skipBlanks 32 line))),
              .done (-EINVAL)) := by
  have hroom : ([] : List Nat).length + 8 = SH_MAX_ARGS := rfl
  obtain ⟨s', ps, hrun, hblanked, hparts, -, -⟩ := tokenLoop_spec hline hroom
  have hword := firstWord_ne_nil h (head_skipBlanks 32 line)
  have hcut : cut 32 8 line = firstWord 32 (skipBlanks 32 line) ::
      cut 32 7 (skipWord 32 (skipBlanks 32 line)) := (if_neg h).trans (if_neg (by decide))
  rw [hcut] at hparts
  obtain ⟨i, ps, htext, hrest, rfl⟩ := List.forall₂_cons_right_iff.mp hparts
  refine ⟨s', ps, hblanked, hrest, ?_⟩
  have hhead : s'.cmdBuf i = 35 ↔ (firstWord 32 (skipBlanks 32 line)).head? = some 35 := by
    have hfirst : s'.cmdBuf i = (firstWord 32 (skipBlanks 32 line)).head?.getD 0 := htext.head
    rw [hfirst]
    cases hw : firstWord 32 (skipBlanks 32 line) with
    | nil => exact absurd hw hword
    | cons c w => exact Option.some_inj.symm
  unfold shellDecision
  rw [show tokenLoop (SH_MAX_ARGS + 1) p.2 0 [] = some (s', i :: ps) from hrun]
  simp only [hhead, htext.stringAt_eq]
  rfl

/-- A command is given the words exactly if nothing stands behind the eighth one. -/
theorem executes_command_iff (hline : TextAt p.2 0 line) {w : List UInt8} {ws : List (List UInt8)}
    (hwords : words 32 line = w :: ws) (hcomment : w.head? ≠ some 35) {cmd : ShellCmd σ}
    (hcmd : lookup cmds w = some cmd) :
    Executes cmds p (words 32 line) ↔ behind 32 SH_MAX_ARGS line = [] := by
  have hne : skipBlanks 32 line ≠ [] := by
    intro hnil
    rw [words_eq_nil hnil] at hwords
    exact absurd hwords nofun
  obtain ⟨rfl, rfl⟩ := List.cons.inj ((words_eq_cons hne).symm.trans hwords)
  obtain ⟨s', ps, hblanked, hparts, hdecision⟩ := shellDecision_word cmds hline hne
  rw [if_neg hcomment, hcmd] at hdecision
  have hbehind := cut_eq_iff 32 6 (skipWord 32 (skipBlanks 32 line))
  rw [hwords, Executes, if_neg hcomment, hcmd]
  constructor
  · rintro ⟨s'', ps', -, hwords', hcall⟩
    obtain ⟨rfl, hargs⟩ := Prod.mk.inj (Option.some.inj (hdecision.symm.trans hcall))
    obtain rfl := argsOf_injective (Decision.call.inj hargs).2
    have hstrings : ∀ {ls}, List.Forall₂ (TextAt s') ps ls → ps.map (stringAt s'.cmdBuf) = ls := by
      intro ls hls
      exact List.forall₂_eq_eq_eq ▸ List.forall₂_map_left_iff.mpr
        (hls.imp fun i text htext => htext.stringAt_eq)
    exact hbehind.mp ((hstrings hparts).symm.trans (hstrings hwords'))
  · intro hend
    rw [hbehind.mpr hend] at hparts
    exact ⟨s', ps, hblanked, hparts, hdecision⟩

end Decision

/-- A line of at most 80 characters is executed as its words say exactly if nothing stands behind
its eighth word, or it is a comment, or its first word is no command. -/
theorem executes_iff (cmds : List (ShellCmd σ)) (p : σ × Vars) (line : List UInt8)
    (hline : TextAt p.2 0 line) :
    Executes cmds p (words 32 line) ↔
      behind 32 SH_MAX_ARGS line = [] ∨
        ∀ w, (words 32 line).head? = some w → w.head? = some 35 ∨ lookup cmds w = none := by
  by_cases hne : skipBlanks 32 line = []
  · have hwords := words_eq_nil hne
    rw [hwords]
    exact iff_of_true (shellExec_blank hline hne) (Or.inl (behind_of_blanks hne))
  · obtain ⟨s', ps, hblanked, -, hdecision⟩ := shellDecision_word cmds hline hne
    have hwords := words_eq_cons hne
    by_cases hcomment : (firstWord 32 (skipBlanks 32 line)).head? = some 35
    · rw [if_pos hcomment] at hdecision
      refine iff_of_true ?_ (Or.inr ?_)
      · rw [hwords, Executes, if_pos hcomment]
        refine ⟨s', hblanked, ?_⟩
        rw [shellExec, hdecision]
        rfl
      · intro w hw
        rw [hwords] at hw
        exact Or.inl (Option.some.inj hw ▸ hcomment)
    · rw [if_neg hcomment] at hdecision
      cases hcmd : lookup cmds (firstWord 32 (skipBlanks 32 line)) with
      | none =>
          rw [hcmd] at hdecision
          refine iff_of_true ?_ (Or.inr ?_)
          · rw [hwords, Executes, if_neg hcomment, hcmd]
            refine ⟨s', hblanked, ?_⟩
            rw [shellExec, hdecision]
            rfl
          · intro w hw
            rw [hwords] at hw
            exact Or.inr (Option.some.inj hw ▸ hcmd)
      | some cmd =>
          rw [executes_command_iff hline hwords hcomment hcmd]
          refine (or_iff_left ?_).symm
          intro hall
          have hfirst := hall _ (congrArg List.head? hwords)
          rw [hcmd] at hfirst
          exact hfirst.elim hcomment nofun

/-- The variables with a line in `cmd_buf`. -/
def lineVars (line : List UInt8) : Vars := startVars (fun i => line.getD i.toNat 0) 0 line.length

theorem textAt_lineVars {line : List UInt8} (h : 0 ∉ line)
    (hlen : line.length ≤ SH_MAX_LINE_LEN) : TextAt (lineVars line) 0 line where
  holds := by
    apply List.ext_getElem (length_readAt ..)
    intro i hi hi'
    rw [getElem_readAt, Nat.zero_add, List.getElem_append]
    show line.getD i 0 = _
    split_ifs with hin
    · exact List.getD_eq_getElem line 0 hin
    · rw [List.getD_eq_default line 0 (Nat.le_of_not_lt hin), List.getElem_singleton]
  isString := fun _ hc hzero => h (hzero ▸ hc)
  inside := by
    rw [Nat.zero_add]
    exact hlen

/-- A table with the command `mac`, which does nothing here. -/
def macTable : List (ShellCmd Unit) := [⟨ascii "mac", fun _ p => (0, p)⟩]

theorem executes_macGet :
    Executes macTable ((), lineVars (ascii " mac  get ")) (words 32 (ascii " mac  get ")) := by
  have hline : TextAt (lineVars (ascii " mac  get ")) 0 (ascii " mac  get ") :=
    textAt_lineVars (by decide) (by decide)
  exact (executes_iff macTable ((), _) _ hline).mpr (Or.inl (by decide))

/-- Nine words: the eighth pointer is to `6 7`. -/
theorem macSet_notExecutes :
    ¬ Executes macTable ((), lineVars (ascii "mac set 1 2 3 4 5 6 7"))
      (words 32 (ascii "mac set 1 2 3 4 5 6 7")) := by
  have hline : TextAt (lineVars (ascii "mac set 1 2 3 4 5 6 7")) 0
    (ascii "mac set 1 2 3 4 5 6 7") := textAt_lineVars (by decide) (by decide)
  have hwords : words 32 (ascii "mac set 1 2 3 4 5 6 7") = ascii "mac" ::
    [ascii "set", [49], [50], [51], [52], [53], [54], [55]] := by decide
  have hbehind : behind 32 SH_MAX_ARGS (ascii "mac set 1 2 3 4 5 6 7") = [32, 55] := by decide
  have hiff := executes_command_iff (p := ((), lineVars (ascii "mac set 1 2 3 4 5 6 7"))) hline
    hwords (by decide) (show lookup macTable (ascii "mac") = macTable.head? from rfl)
  intro hexecutes
  exact absurd (hbehind.symm.trans (hiff.mp hexecutes)) nofun

end Shell
end WrpcSw
