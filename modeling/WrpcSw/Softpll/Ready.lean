import WrpcSw.Softpll.Locking

/-!
# When the sequencer reports READY

Two properties of the flag that `spll_check_lock(0)` returns, over all runs
from power-up.

* `announces_locked_iff` — the sequencer enters `ready` with every loop of its
  mode locked, in exactly the runs that never enter it over one of the two
  missing checks: the main PLL is awaited without looking at the helper, and
  the helper is awaited without looking at the external PLL.
* `reports_live_iff` — the flag is only ever reported by a running PLL, in
  exactly the runs that never stop the PLL while the sequencer is in `ready`.
-/

namespace WrpcSw
namespace Softpll

open Run

/-! ## Entering READY -/

/-- Every loop that the mode depends on is locked. -/
def SoftpllState.LoopsLocked (s : SoftpllState) : Prop :=
  s.helper.ld.locked = true ∧ (s.mode = .slave → s.mpll.ld.locked = true) ∧
    (s.mode = .grandMaster → externalLocked s.ext = true)

/-- The sequencer moves into `ready`, and the flag turns true, only on a tag at
which every loop is locked. -/
def AnnouncesLocked (board : Board) (s : SoftpllState) (e : Event) : Prop :=
  (∀ tag hw, e = .tag tag hw → s.takesTags = true → s.seqState ≠ .ready →
      (sequencingFsm board hw { s with log := [] }).seqState = .ready →
      (sequencingFsm board hw { s with log := [] }).LoopsLocked) ∧
    (spllCheckLock s 0 = false → spllCheckLock (step board s e) 0 = true →
      ∃ tag hw, e = .tag tag hw ∧
        (sequencingFsm board hw { s with log := [] }).LoopsLocked)

/-- The locks that the sequencer does not test on its way into `ready` are there
when it gets there: the helper in `waitMain`, the external PLL in `waitHelper`. -/
def UntestedLocks (s : SoftpllState) (e : Event) : Prop :=
  (∃ tag hw, e = .tag tag hw) → s.takesTags = true →
    (s.seqState = .waitMain → s.mpll.ld.locked = true → s.helper.ld.locked = true) ∧
    (s.seqState = .waitHelper → s.mode = .grandMaster → s.helper.ld.locked = true →
      s.helper.ld.lockChanged = true → externalLocked s.ext = true)

/-- While tags are taken, the main PLL is only started in slave mode. -/
def MainOnlyInSlave (s : SoftpllState) : Prop :=
  s.irqEnabled = true → s.seqState = .startMain ∨ s.seqState = .waitMain → s.mode = .slave

theorem mainOnlyInSlave_powerUp : MainOnlyInSlave powerUp := by
  rintro h
  simp [powerUp] at h

/-- `startMain` is entered in slave mode only, `waitMain` from `startMain` only. -/
theorem sequencingFsm_main (board : Board) (hw : HwStatus) (s : SoftpllState)
    (hinv : s.seqState = .startMain ∨ s.seqState = .waitMain → s.mode = .slave)
    (h : (sequencingFsm board hw s).seqState = .startMain ∨
      (sequencingFsm board hw s).seqState = .waitMain) : s.mode = .slave := by
  cases hstate : s.seqState with
  | none | disabled | clearDacs | startExt | startHelper =>
      simp [sequencingFsm, hstate, startExternal, startHelper] at h
  | waitClearDacs | waitExt =>
      simp only [sequencingFsm, hstate] at h
      split_ifs at h <;> simp [hstate] at h
  | startMain => exact hinv (Or.inl hstate)
  | waitMain => exact hinv (Or.inr hstate)
  | waitHelper =>
      rw [sequencingFsm_waitHelper board hw s hstate] at h
      split_ifs at h with hlock hmode
      · exact hmode
      · simp at h
      · simp [hstate] at h
  | ready =>
      rw [sequencingFsm_ready board hw s hstate] at h
      split_ifs at h <;> simp [hstate] at h

theorem mainOnlyInSlave_step (board : Board) (s : SoftpllState) (e : Event)
    (h : MainOnlyInSlave s) : MainOnlyInSlave (step board s e) := by
  intro henabled hmain
  have hframe := step_channelCall board s e
  cases e with
  | init mode slaveRef alignPps hw =>
      cases hrefused : initRefused hw mode with
      | true =>
          rw [step, spllInit_refused board _ slaveRef alignPps hrefused] at henabled
          simp [spllInitRegs] at henabled
      | false =>
          rw [step, spllInit_accepted board _ slaveRef alignPps hrefused] at hmain
          simp only [spllInitLoops] at hmain
          split_ifs at hmain <;> simp at hmain
  | shutdown => simp [step, spllShutdown] at henabled
  | tag tag hw =>
      simp only [step] at henabled hmain ⊢
      split_ifs at henabled hmain ⊢ with htakes
      · rw [tagStep_seqState] at hmain
        have hsession := tagStep_session board hw { s with log := [] } tag
        rw [hsession.irqEnabled] at henabled
        rw [hsession.mode]
        exact sequencingFsm_main board hw { s with log := [] } (h henabled) hmain
      · exact h henabled hmain
  | startChannel | stopChannel | setPhaseShift | enablePtracker | updateAuxClocks =>
      rw [(hframe rfl).irqEnabled] at henabled
      rw [(hframe rfl).seqState] at hmain
      rw [(hframe rfl).mode]
      exact h henabled hmain

/-- What the sequencer tests on its way into `ready`, together with what it does
not test, are the locks of the mode. -/
theorem loopsLocked_iff (s : SoftpllState) (henters : s.EntersReady)
    (hmain : s.seqState = .waitMain → s.mode = .slave) :
    s.LoopsLocked ↔
      (s.seqState = .waitMain → s.mpll.ld.locked = true → s.helper.ld.locked = true) ∧
      (s.seqState = .waitHelper → s.mode = .grandMaster → s.helper.ld.locked = true →
        s.helper.ld.lockChanged = true → externalLocked s.ext = true) := by
  rcases henters with ⟨hstate, hmode, hlock, hchanged⟩ | ⟨hstate, hlock⟩
  · simp [SoftpllState.LoopsLocked, hstate, hmode, hlock, hchanged]
  · simp [SoftpllState.LoopsLocked, hstate, hlock, hmain hstate]

/-- The sequencer leaves the loops alone when it enters `ready`. -/
theorem sequencingFsm_loopsLocked (board : Board) (hw : HwStatus) (s : SoftpllState)
    (henters : s.EntersReady) :
    (sequencingFsm board hw s).LoopsLocked ↔ s.LoopsLocked := by
  obtain ⟨trackers, regs, heq, -⟩ := sequencingFsm_entersReady board hw s henters
  rw [heq]
  exact Iff.rfl

/-- Only a tag moves the sequencer into `ready`. -/
theorem step_to_ready (board : Board) (s : SoftpllState) (e : Event)
    (hne : s.seqState ≠ .ready) (h : (step board s e).seqState = .ready) :
    s.EntersReady ∧ s.takesTags = true ∧ ∃ tag hw, e = .tag tag hw := by
  have hframe := step_channelCall board s e
  cases e with
  | init mode slaveRef alignPps hw =>
      cases hrefused : initRefused hw mode with
      | true =>
          rw [step, spllInit_refused board _ slaveRef alignPps hrefused] at h
          exact absurd h hne
      | false =>
          rw [step, spllInit_accepted board _ slaveRef alignPps hrefused] at h
          simp only [spllInitLoops] at h
          split_ifs at h
  | shutdown => exact absurd h hne
  | tag tag hw =>
      simp only [step] at h
      split_ifs at h with htakes
      · rw [tagStep_seqState] at h
        exact ⟨(sequencingFsm_to_ready board hw { s with log := [] } hne).mp h, htakes, _, _,
          rfl⟩
      · exact absurd h hne
  | startChannel | stopChannel | setPhaseShift | enablePtracker | updateAuxClocks =>
      exact absurd ((hframe rfl).seqState ▸ h) hne

/-- At one step, the claim about `ready` and the two untested locks agree. -/
theorem announcesLocked_iff_untestedLocks (board : Board) (s : SoftpllState) (e : Event)
    (hinv : MainOnlyInSlave s) : AnnouncesLocked board s e ↔ UntestedLocks s e := by
  have hslave : s.takesTags = true → s.seqState = .waitMain → s.mode = .slave := by
    intro htakes hstate
    refine hinv ?_ (Or.inr hstate)
    simp only [SoftpllState.takesTags, Bool.and_eq_true] at htakes
    exact htakes.1
  constructor
  · rintro ⟨hannounce, -⟩ ⟨tag, hw, rfl⟩ htakes
    have hlocked : s.EntersReady → s.seqState ≠ .ready → s.LoopsLocked := by
      intro henters hne
      exact (sequencingFsm_loopsLocked board hw { s with log := [] } henters).mp
        (hannounce tag hw rfl htakes hne
          ((sequencingFsm_to_ready board hw { s with log := [] } hne).mpr henters))
    -- the two untested locks: of the helper in `waitMain`, of the external PLL in `waitHelper`
    refine ⟨?_, ?_⟩
    · intro hstate hlock
      exact (hlocked (Or.inr ⟨hstate, hlock⟩) (by simp [hstate])).1
    · intro hstate hmode hlock hchanged
      exact (hlocked (Or.inl ⟨hstate, by simp [hmode], hlock, hchanged⟩)
        (by simp [hstate])).2.2 hmode
  · intro huntested
    have hlocked : ∀ hw, (∃ tag hw, e = .tag tag hw) → s.takesTags = true → s.EntersReady →
        (sequencingFsm board hw { s with log := [] }).LoopsLocked := by
      intro hw htag htakes henters
      rw [sequencingFsm_loopsLocked board hw { s with log := [] } henters]
      exact (loopsLocked_iff s henters (hslave htakes)).mpr (huntested htag htakes)
    refine ⟨?_, ?_⟩
    · rintro tag hw rfl htakes hne hready
      exact hlocked hw ⟨tag, hw, rfl⟩ htakes
        ((sequencingFsm_to_ready board hw { s with log := [] } hne).mp hready)
    · intro hbefore hafter
      simp only [spllCheckLock, if_true, decide_eq_false_iff_not, decide_eq_true_eq] at *
      obtain ⟨henters, htakes, tag, hw, rfl⟩ := step_to_ready board s e hbefore hafter
      exact ⟨tag, hw, rfl, hlocked hw ⟨tag, hw, rfl⟩ htakes henters⟩

/-- Over every run from power-up, `ready` is announced only with all loops locked
if and only if the two locks that the sequencer does not test are there whenever
it enters `ready`. -/
theorem announces_locked_iff (board : Board) (es : List Event) :
    Along (step board) (AnnouncesLocked board) powerUp es ↔
      Along (step board) UntestedLocks powerUp es :=
  along_iff_of_invariant MainOnlyInSlave
    (fun s e h _ => mainOnlyInSlave_step board s e h)
    (announcesLocked_iff_untestedLocks board) mainOnlyInSlave_powerUp es

/-- A slave whose helper loses its lock while the main PLL is awaited. -/
def helperLost : List Event :=
  slaveToMain ++ tagRun steadyTags 0 10001 9900 ++ pairRun 0 1 0 1000

theorem helperLost_view : ∃ h m,
    (run (step Board.wrc) powerUp helperLost).view =
      { startView .slave with seqState := .waitMain, helper := h, mpll := m } ∧
    HelperLost 0 h (0 : Nat) ∧ m.ld.locked = true := by
  obtain ⟨h, m, hview, hfollows, hcounts⟩ := slaveToMain_view
  obtain ⟨-, htakes, -⟩ := startView_helper .slave (Or.inl rfl)
  rw [helperLost, run_append, run_append]
  generalize run (step Board.wrc) powerUp slaveToMain = s at hview ⊢
  obtain ⟨h₁, m₁, hview₁, hloses, hcounts₁⟩ :=
    helper_loses steadyTags_sequence (fun n hn => steadyTags_outside hn) Board.wrc
      hview (by decide) (by decide) htakes rfl (helperLoses_start hfollows) hcounts
  have hlost : HelperLost 2000 h₁ (0 : Nat) := by
    have hcount := hloses.count
    rw [if_pos rfl] at hcount
    refine ⟨hloses.configured, hloses.locked.trans (decide_eq_false (by simp)), ?_, ?_⟩ <;> omega
  obtain ⟨h₂, m₂, hview₂, hlost₂, hcounts₂⟩ :=
    main_locks (helperLost_survives (0 : Nat)) Board.wrc (k := 0) hview₁
      (by decide) (by decide) (by decide) htakes rfl hlost hcounts₁
  exact ⟨h₂, m₂, hview₂, hlost₂, hcounts₂.locked⟩

/-- The sequencer enters `ready` over an unlocked helper. -/
theorem not_announcesLocked {board : Board} {s : SoftpllState} {tag : Tag} {hw : HwStatus}
    (htakes : s.view.takesTags = true) (hstate : s.view.seqState = .waitMain)
    (hmain : s.view.mpll.ld.locked = true) (hhelper : s.view.helper.ld.locked = false) :
    ¬ AnnouncesLocked board s (.tag tag hw) := by
  rintro ⟨hannounces, -⟩
  have hstate' : s.seqState = .waitMain := hstate
  have henters : s.EntersReady := Or.inr ⟨hstate, hmain⟩
  have hlocked := hannounces tag hw rfl htakes (by simp [hstate'])
    ((sequencingFsm_to_ready board hw { s with log := [] } (by simp [hstate'])).mpr henters)
  have hfalse := ((sequencingFsm_loopsLocked board hw { s with log := [] } henters).mp hlocked).1
  exact Bool.false_ne_true (hhelper.symm.trans hfalse)

/-- A slave announces `ready` with its helper unlocked. -/
theorem announces_unlocked :
    ¬ Along (step Board.wrc) (AnnouncesLocked Board.wrc) powerUp
      (helperLost ++ [tagOn 127 0]) := by
  intro halong
  obtain ⟨h, m, hview, hlost, hmain⟩ := helperLost_view
  obtain ⟨-, htakes, -⟩ := startView_helper .slave (Or.inl rfl)
  refine not_announcesLocked ?_ ?_ ?_ ?_ (along_last halong)
  · rw [hview]
    exact htakes
  · rw [hview]
  · rw [hview]
    exact hmain
  · rw [hview]
    exact hlost.locked

/-! ## Reporting READY -/

/-- The SoftPLL together with a flag that remembers whether the sequencer has
entered `ready` since the last `spll_init`. -/
structure Session where
  pll : SoftpllState
  readyReached : Bool

/-- The session at power-up. -/
def Session.powerUp : Session := ⟨Softpll.powerUp, false⟩

/-- One event.  Every `spll_init`, also a refused one, starts a new session. -/
def Session.step (board : Board) (x : Session) (e : Event) : Session where
  pll := Softpll.step board x.pll e
  readyReached :=
    match e with
    | .init _ _ _ _ => false
    | _ => x.readyReached ||
        decide (x.pll.seqState ≠ .ready ∧ (Softpll.step board x.pll e).seqState = .ready)

/-- A reported lock is that of a running PLL: tags are processed, and the
sequencer has entered `ready` in this session. -/
def Session.Live (x : Session) : Prop :=
  spllCheckLock x.pll 0 = true → x.pll.irqEnabled = true ∧ x.readyReached = true

/-- The event stops the PLL: a shutdown, or an initialisation that is refused. -/
def Event.Stops (e : Event) : Prop :=
  e = .shutdown ∨
    ∃ mode slaveRef alignPps hw, e = .init mode slaveRef alignPps hw ∧
      initRefused hw mode = true

/-- After the event, the lock report is that of a running PLL, and it is off
after an event that stops the PLL. -/
def ReportsLive (board : Board) (x : Session) (e : Event) : Prop :=
  (x.step board e).Live ∧ (e.Stops → spllCheckLock (x.step board e).pll 0 = false)

/-- The PLL is never stopped in `ready`. -/
def StopsOutsideReady (x : Session) (e : Event) : Prop :=
  e.Stops → x.pll.seqState ≠ .ready

@[simp] theorem spllCheckLock_zero (s : SoftpllState) :
    spllCheckLock s 0 = true ↔ s.seqState = .ready := by
  simp [spllCheckLock]

/-- A stop disables the interrupt and leaves the sequencer where it is. -/
theorem step_stops (board : Board) (s : SoftpllState) (e : Event) (h : e.Stops) :
    (step board s e).seqState = s.seqState ∧ (step board s e).irqEnabled = false := by
  rcases h with rfl | ⟨mode, slaveRef, alignPps, hw, rfl, hrefused⟩
  · exact ⟨rfl, rfl⟩
  · rw [step, spllInit_refused board _ slaveRef alignPps hrefused]
    exact ⟨rfl, rfl⟩

/-- Every other event keeps a live session live. -/
theorem live_step (board : Board) (x : Session) (e : Event) (h : x.Live) (hstops : ¬ e.Stops) :
    (x.step board e).Live := by
  intro hready
  rw [spllCheckLock_zero] at hready
  have hbefore : x.pll.seqState = .ready → x.pll.irqEnabled = true ∧ x.readyReached = true :=
    fun hbefore => h ((spllCheckLock_zero _).mpr hbefore)
  have hframe := step_channelCall board x.pll e
  cases e with
  | init mode slaveRef alignPps hw =>
      have haccepted : initRefused hw mode = false := by
        rw [← Bool.not_eq_true]
        exact fun hrefused => hstops (Or.inr ⟨_, _, _, _, rfl, hrefused⟩)
      rw [Session.step, step, spllInit_accepted board _ slaveRef alignPps haccepted] at hready
      simp only [spllInitLoops] at hready
      split_ifs at hready
  | shutdown => exact absurd (Or.inl rfl) hstops
  | tag tag hw =>
      by_cases hwas : x.pll.seqState = .ready
      · obtain ⟨henabled, hreached⟩ := hbefore hwas
        refine ⟨(step_tag_session board x.pll tag hw).irqEnabled.trans henabled, ?_⟩
        show (x.readyReached || _) = true
        rw [hreached, Bool.true_or]
      · obtain ⟨-, htakes, -⟩ := step_to_ready board x.pll _ hwas hready
        simp only [SoftpllState.takesTags, Bool.and_eq_true] at htakes
        refine ⟨(step_tag_session board x.pll tag hw).irqEnabled.trans htakes.1, ?_⟩
        simp only [Session.step, Bool.or_eq_true, decide_eq_true_eq]
        exact Or.inr ⟨hwas, hready⟩
  | startChannel | stopChannel | setPhaseShift | enablePtracker | updateAuxClocks =>
      obtain ⟨henabled, hreached⟩ := hbefore ((hframe rfl).seqState ▸ hready)
      refine ⟨(hframe rfl).irqEnabled.trans henabled, ?_⟩
      show (x.readyReached || _) = true
      rw [hreached, Bool.true_or]

/-- At one step, a live report and a stop outside `ready` agree. -/
theorem reportsLive_iff_stopsOutsideReady (board : Board) (x : Session) (e : Event)
    (h : x.Live) : ReportsLive board x e ↔ StopsOutsideReady x e := by
  constructor
  · rintro ⟨-, hoff⟩ hstops hready
    have hreport : spllCheckLock (x.step board e).pll 0 = true := by
      rw [spllCheckLock_zero]
      exact (step_stops board x.pll e hstops).1.trans hready
    rw [hoff hstops] at hreport
    exact Bool.false_ne_true hreport
  · intro houtside
    by_cases hstops : e.Stops
    · have hoff : spllCheckLock (x.step board e).pll 0 = false := by
        rw [← Bool.not_eq_true, spllCheckLock_zero]
        exact fun hready =>
          houtside hstops ((step_stops board x.pll e hstops).1.symm.trans hready)
      refine ⟨?_, fun _ => hoff⟩
      intro hready
      rw [hoff] at hready
      exact absurd hready Bool.false_ne_true
    · exact ⟨live_step board x e h hstops, fun hs => absurd hs hstops⟩

/-- Over every run from power-up, the lock report is that of a running PLL if and
only if the PLL is never stopped in `ready`. -/
theorem reports_live_iff (board : Board) (es : List Event) :
    Along (Session.step board) (ReportsLive board) Session.powerUp es ↔
      Along (Session.step board) StopsOutsideReady Session.powerUp es :=
  along_iff_of_invariant Session.Live
    (fun x e h hcond => ((reportsLive_iff_stopsOutsideReady board x e h).mpr hcond).1)
    (reportsLive_iff_stopsOutsideReady board)
    (by simp [Session.Live, Session.powerUp, Softpll.powerUp, spllCheckLock]) es

theorem session_run_pll (board : Board) (x : Session) (es : List Event) :
    (run (Session.step board) x es).pll = run (step board) x.pll es :=
  run_watched Session.pll (fun _ _ => rfl) x es

/-- A free-running master up to `ready`. -/
def masterToReady : List Event :=
  startup .freeRunningMaster ++ tagRun steadyTags 1 0 10001 ++ [tagOn 127 0]

/-- In `ready` its helper is locked. -/
theorem masterToReady_locked : ∃ h,
    (run (step Board.wrc) powerUp masterToReady).view =
      { startView .freeRunningMaster with seqState := .ready, helper := h } ∧
    h.ld.locked = true := by
  obtain ⟨h, hview, hfollows⟩ := startup_helper_locks .freeRunningMaster (Or.inr rfl) 1 rfl
  obtain ⟨hmode, htakes, hstate, -⟩ := startView_helper .freeRunningMaster (Or.inr rfl)
  have hlocked := hfollows.isLocked
  have hidle : (helperUpdate h 0 127).1 = h := hfollows.configured.idle (by decide) 0
  refine ⟨h, ?_, hlocked⟩
  rw [masterToReady, run_append, run_cons, run_nil]
  generalize run (step Board.wrc) powerUp
    (startup .freeRunningMaster ++ tagRun steadyTags 1 0 10001) = s at hview ⊢
  rw [tagOn, view_tag _ _ _ _ (by rw [hview]; exact htakes),
    view_helperLocked_master _ s _ (by rw [hview]; exact hstate)
      (by rw [hview]; simp [hmode]) (by rw [hview]; exact hlocked)
      (by rw [hview]; exact hfollows.changed rfl)]
  rw [hview]
  simp [LoopView.afterLoops, SeqState.runsHelper, hmode, hidle]

theorem masterToReady_view :
    (run (step Board.wrc) powerUp masterToReady).view.seqState = .ready := by
  obtain ⟨h, hview, -⟩ := masterToReady_locked
  rw [hview]

/-- A stop in `ready` leaves the lock report on. -/
theorem not_reportsLive {board : Board} {x : Session} {e : Event} (hstops : e.Stops)
    (hready : x.pll.view.seqState = .ready) : ¬ ReportsLive board x e := by
  rintro ⟨-, hoff⟩
  have hon : spllCheckLock (x.step board e).pll 0 = true := by
    rw [spllCheckLock_zero]
    exact (step_stops board x.pll e hstops).1.trans hready
  exact Bool.false_ne_true ((hoff hstops).symm.trans hon)

/-- A free-running master that is shut down in `ready` still reports its lock. -/
theorem shutdown_reports_lock :
    ¬ Along (Session.step Board.wrc) (ReportsLive Board.wrc) Session.powerUp
      (masterToReady ++ [.shutdown]) := by
  intro halong
  refine not_reportsLive (Or.inl rfl) ?_ (along_last halong)
  rw [session_run_pll]
  exact masterToReady_view

end Softpll
end WrpcSw
