import AmiKaya.CpuTime
import AmiKaya.NestedTraps
import AmiKaya.Traps

/-! The processor time over runs in which accesses of the kernel trap. The handler of the nested
trap charges the interval again that the handler before it has charged. -/
namespace AmiKaya
open Lts Intervals

/-- The clock has been read, and nobody but `p` may have been charged. -/
structure Times.Later (p : Ptr) (t t' : Times) : Prop where
  tod : ∃ d, ∀ n, t'.tod n = t.tod (n + d)
  currentThreadTod : t'.currentThreadTod = t.currentThreadTod
  other : ∀ q ≠ p, t'.cpuTime q = t.cpuTime q ∧ t'.cpuSlice q = t.cpuSlice q

namespace Times.Later

variable {t t' t'' : Times} {p : Ptr}

theorem refl (t : Times) : t.Later p t := ⟨⟨0, fun _ => rfl⟩, rfl, fun _ _ => ⟨rfl, rfl⟩⟩

theorem trans (h : t.Later p t') (h' : t'.Later p t'') : t.Later p t'' := by
  obtain ⟨d, hd⟩ := h.tod
  obtain ⟨d', hd'⟩ := h'.tod
  refine ⟨⟨d' + d, fun n => ?_⟩, h'.currentThreadTod.trans h.currentThreadTod, fun q hq => ?_⟩
  · rw [hd', hd, Nat.add_assoc]
  · exact ⟨(h'.other q hq).1.trans (h.other q hq).1, (h'.other q hq).2.trans (h.other q hq).2⟩

theorem charge (t : Times) : t.Later p (t.charge p) := by
  refine ⟨⟨2, fun _ => rfl⟩, rfl, fun q hq => ?_⟩
  simp [Times.charge, chargeTime, chargeSlice, readTodlow, hq]

theorem update (t : Times) : t.Later p t.update :=
  ⟨⟨2, fun _ => rfl⟩, rfl, fun _ _ => ⟨rfl, rfl⟩⟩

end Times.Later

namespace Kernel

variable {k k' : Kernel} {old : State}

theorem times_takeMessage (w : Ptr) : (k.takeMessage w).times = k.times := by
  unfold takeMessage
  split
  · rfl
  · exact times_setTcb fun _ => ⟨rfl, rfl⟩

theorem times_sysbpTrap (old : State) :
    (k.sysbpTrap old).times = k.times.charge k.currentThread := by
  rw [← times_sysbpEnter old]
  unfold sysbpTrap
  split
  · unfold sendEnter
    split <;> rfl
  · split
    · exact times_takeMessage _
    · rfl

/-- Only the timer interrupt reads the clock. -/
theorem lineTrap_later (p : Ptr) (cause : U32) : k.times.Later p (k.lineTrap cause).times := by
  unfold lineTrap dtpTrap terminalTrap
  dsimp only
  split
  · exact .update _
  · repeat' split
    all_goals exact .refl _

end Kernel

namespace Accounts

variable {b e e' : Nat} {t t' : Times} {A A' : Ptr → Prop} {births : Ptr → Nat}
  {is : List (Stretch (Ptr × Nat))} {p : Ptr}

/-- The last interval of a thread, whatever it is charged for it. -/
theorem final (h : Accounts b e t A births is) (hp : ¬ A' p) (hA : ∀ q, A' q → A q)
    (ht : ∀ q ≠ p, t'.cpuTime q = t.cpuTime q ∧ t'.cpuSlice q = t.cpuSlice q) (he : e ≤ e') :
    Accounts b e' t' A' births (⟨(p, births p), e, e'⟩ :: is) := by
  have hother : ∀ q, A' q → q ≠ p := fun q hq hqp => hp (hqp ▸ hq)
  refine ⟨.cons h.packed he le_rfl, ?_, fun q hq => ?_, fun q hq => ?_⟩
  · intro i hi
    rcases List.mem_cons.mp hi with rfl | hi
    · exact le_rfl
    · exact h.known i hi
  · have hne : (p, births p) ≠ (q, births q) := fun he => hother q hq (congrArg Prod.fst he).symm
    rw [(ht q (hother q hq)).1, h.time q (hA q hq), spent_cons, if_neg hne, Nat.zero_add]
  · rw [(ht q (hother q hq)).1, (ht q (hother q hq)).2]
    exact h.slice q (hA q hq)

end Accounts

namespace Machine

variable {m m' : Machine} {e : Event} {o : Happening} {old : State}

/-- The kernel has been entered in the event when an access in it traps. -/
def entered (m : Machine) : Event → Bool
  | .ssi old => !m.ssi.misreads m.k && m.schedules (.ssi old)
  | e => m.schedules e

/-- The thread on the processor is charged twice for one interval, and has a manager to live on. -/
def chargesTwice (m : Machine) : Happening → Bool
  | .event _ => false
  | .trap e _ => m.entered e && (m.k.tcb m.k.currentThread).manager .pgmtrap ≠ null

theorem trapped_of_not_entered (h : m.entered e = false) : m.trapped e = m := by
  cases e with
  | ssi old =>
    simp only [entered, schedules] at h
    simp only [trapped]
    split
    · rfl
    · cases hcall : m.ssi.call m.k <;> simp_all
  | devices | store | edit => rfl
  | sysbp | pgmtrap | tlb | interrupt => cases h

theorem trapped_times (m : Machine) (e : Event) :
    m.k.times.Later m.k.currentThread (m.trapped e).k.times := by
  have hcharge := Times.Later.charge (p := m.k.currentThread) m.k.times
  cases e with
  | sysbp old => exact Kernel.times_sysbpTrap (k := m.k) old ▸ hcharge
  | pgmtrap old | tlb old => exact Kernel.times_enter (k := m.k) old ▸ hcharge
  | interrupt old =>
    have henter : m.k.times.Later m.k.currentThread
        (if m.k.currentThread ≠ null then m.k.enter old else m.k).times := by
      split
      · exact Kernel.times_enter (k := m.k) old ▸ hcharge
      · exact .refl _
    exact henter.trans (Kernel.lineTrap_later _ old.cause)
  | ssi old =>
    simp only [trapped]
    repeat' split
    · exact .refl _
    · exact Kernel.times_sysbpTrap (k := m.k) _ ▸ hcharge
    · exact Kernel.times_sysbpTrap (k := m.k) _ ▸ hcharge
    · exact .refl _
  | devices | store | edit => exact .refl _

end Machine

namespace CpuLog

open Machine

variable {b : Nat} {m m' : Machine} {e : Event} {o : Happening} {old : State} {log : CpuLog}

/-- After a trap the interval ends with the second reading of `pgmtrap_handler`. -/
def noteAll (m : Machine) (o : Happening) (m' : Machine) (log : CpuLog) : CpuLog :=
  match o with
  | .event e => note m e m' log
  | .trap e old => note (m.trapped e) (.pgmtrap old) m' log

/-- The thread that is charged twice is gone afterwards. -/
theorem Sound.trap (hs : log.Sound b m) (hw : m.Wf)
    (hm : (m.k.tcb m.k.currentThread).manager .pgmtrap = null)
    (h : (m.trapped e).Step (.pgmtrap old) m') :
    (note (m.trapped e) (.pgmtrap old) m' log).Sound b m' := by
  have hu := trapped_unmoved (m := m) e
  have hw' := hw.trapped e
  have hn : m.k.currentThread ≠ null := hu.currentThread ▸ h.1
  obtain ⟨hl, hle⟩ := hs.loaded hn
  have hlater := trapped_times m e
  obtain ⟨d, hd⟩ := hlater.tod
  obtain ⟨hmono, hzero⟩ := Times.shift_mono hs.clock hd
  obtain ⟨k, hb, hk⟩ := step_body h
  -- the thread is freed by the handler, and stays so in the scheduler
  have hfree : m'.k.tcbFree = k.tcbFree := by
    rcases hk with ⟨-, hk⟩ | ⟨-, rfl⟩
    · exact (Kernel.scheduler_scheduled (hw'.placed.ops (body_ops hw' h.1 hb)) hk).tcbFree
    · rfl
  have hgone : ¬ m'.k.Allocated m.k.currentThread := by
    have hf := Kernel.freed_of_pgmtrap hw'.placed h.1 (by rw [hu.currentThread, hu.manager, hm]) hb
    rw [hu.currentThread, ← hfree] at hf
    exact fun ha => ha.2 hf
  have hA : ∀ p, m'.k.Allocated p → m.k.Allocated p := by
    intro p hp
    rcases allocated_born hw' h hp with ha | hborn
    · exact ⟨ha.1, (trapped_still (m := m) e).tcbFree ▸ ha.2⟩
    · cases hborn
  have haccounts := hs.accounts
  rw [horizon, if_neg hn] at haccounts
  have hstart : log.loaded ≤ (m.trapped e).k.times.tod 1 :=
    (hle.trans hzero).trans (hmono (Nat.zero_le 1))
  have hother := (hlater.trans (.charge _)).other
  have hfinal := haccounts.final hgone hA hother hstart
  have hbody : (m.trapped e).bodyTimes (.pgmtrap old) =
      (m.trapped e).k.times.charge m.k.currentThread := by
    rw [← hu.currentThread]
    rfl
  have hcharge : log.charge (m.trapped e) (.pgmtrap old) =
      ⟨(m.k.currentThread, log.births m.k.currentThread), log.loaded,
        (m.trapped e).k.times.tod 1⟩ :: log.intervals := by
    rw [← hu.currentThread]
    rfl
  have hacc : Accounts b ((m.trapped e).k.times.tod 1) ((m.trapped e).bodyTimes (.pgmtrap old))
      m'.k.Allocated log.births (log.charge (m.trapped e) (.pgmtrap old)) := by
    rw [hbody, hcharge]
    exact hfinal
  have hclock : Monotone ((m.trapped e).bodyTimes (.pgmtrap old)).tod := by
    rw [hbody]
    exact (Times.shift_mono hmono fun n => Times.charge_tod n).1
  have hlast : (m.trapped e).k.times.tod 1 ≤ ((m.trapped e).bodyTimes (.pgmtrap old)).tod 0 := by
    rw [hbody]
    exact hmono (by omega)
  exact sound_of_body hw' h hacc hlast hclock fun hf => by cases hf

/-- Nobody is charged twice and lives on. -/
def ChargingStep (m : Machine) (o : Happening) (m' : Machine) : Prop :=
  m.Happens o m' ∧ m.chargesTwice o = false

theorem Sound.happens (hs : log.Sound b m) (hw : m.Wf) (h : ChargingStep m o m') :
    (noteAll m o m' log).Sound b m' := by
  obtain ⟨h, ht⟩ := h
  cases o with
  | event e => exact hs.step hw (happens_event h)
  | trap e old =>
    obtain ⟨-, -, hstep⟩ := happens_trap h
    by_cases hen : m.entered e
    · refine hs.trap hw ?_ hstep
      simpa [chargesTwice, hen] using ht
    · have hsame := trapped_of_not_entered (Bool.eq_false_iff.mpr hen)
      simp only [noteAll]
      rw [hsame] at hstep ⊢
      exact hs.step hw hstep

/-- A run keeps the log sound, and only adds intervals. -/
theorem Sound.run {os : List Happening} {log' : CpuLog} (hs : log.Sound b m) (hw : m.Wf)
    (hr : Run (withHistory ChargingStep noteAll) (m, log) os (m', log')) :
    m'.Wf ∧ log'.Sound b m' ∧ log.intervals <:+ log'.intervals := by
  refine hr.inv_history (I := fun m l => m.Wf ∧ l.Sound b m ∧ log.intervals <:+ l.intervals) ?_
    ⟨hw, hs, List.suffix_rfl⟩
  rintro m o m' l h ⟨hw, hs, hsuffix⟩
  refine ⟨hw.happens h.1, hs.happens hw h, hsuffix.trans ?_⟩
  cases o with
  | event e => exact charge_suffix l m e
  | trap e old => exact charge_suffix l (m.trapped e) (.pgmtrap old)

end CpuLog

namespace Machine

variable {m : Machine} {log : CpuLog}

/-- Under a clock that does not go back, as long as nobody is charged twice and lives on, the
processor time of a thread is what its intervals on the processor add up to, and never decreases
while the thread lives. -/
theorem cpu_time_charged {k : Kernel} {m₀ : Machine} {os : List Happening} (hb : m₀.BootsFrom k)
    (hclock : Monotone k.times.tod)
    (hr : Run (withHistory CpuLog.ChargingStep CpuLog.noteAll) (m₀, .boot k) os (m, log)) :
    CpuSound (k.times.tod 0) m log ∧
    ∀ os' m' log', Run (withHistory CpuLog.ChargingStep CpuLog.noteAll) (m, log) os' (m', log') →
      ∀ p, m.k.Live p → m'.k.Live p → log'.births p = log.births p →
        (m.k.tcb p).cpuTime ≤ (m'.k.tcb p).cpuTime := by
  obtain ⟨hw, hs, -⟩ := (CpuLog.sound_boot hb hclock).run (initial_wf hb.initial) hr
  have hsound := cpuSound_of_sound hs hw
  refine ⟨hsound, ?_⟩
  intro os' m' log' hr' p hp hp' hbirths
  obtain ⟨hw', hs', hsuffix⟩ := hs.run hw hr'
  have hsound' := cpuSound_of_sound hs' hw'
  rw [BitVec.le_def, hsound.charged p hp, hsound'.charged p hp', hbirths]
  exact spent_suffix hsuffix

/-- The test thread has no manager. -/
theorem cpu_time_charged_unmanaged : ∃ m₀ m log,
    Run (withHistory CpuLog.ChargingStep CpuLog.noteAll) (m₀, .boot steadyClock) oddRecvTrace
      (m, log) ∧
    log.intervals.length = 4 ∧ (m.k.tcb threadArrayAddr).cpuTime = 6000 ∧
    CpuSound (steadyClock.times.tod 0) m log := by
  have hrun : passes (fun m => passes (fun s => s.2.intervals.length = 4 ∧
      (s.1.k.tcb threadArrayAddr).cpuTime = 6000)
      (exec (execWith (guarded (fun m o _ => m.chargesTwice o = false) .fault happen) CpuLog.noteAll)
        (m, .boot steadyClock) oddRecvTrace)) (start steadyClock) = true := by
    decide +kernel
  obtain ⟨m₀, hm, hrun⟩ := exists_of_passes hrun
  obtain ⟨⟨m, log⟩, hs, hlog⟩ := exists_of_passes hrun
  obtain ⟨hlength, htime⟩ := of_decide_eq_true hlog
  have hr : Run (withHistory CpuLog.ChargingStep CpuLog.noteAll) (m₀, .boot steadyClock)
      oddRecvTrace (m, log) :=
    run_of_execWith (fun _ _ _ h => ⟨(of_guarded h).1, (of_guarded h).2⟩) hs
  have hboots := bootsFrom_of_start steadyClock_powerOn hm
  exact ⟨m₀, m, log, hr, hlength, htime, (cpu_time_charged hboots steadyClock_mono hr).1⟩

/-- The test thread has a son for its manager, and receives a message at an odd address. -/
def managedTrace : List Happening :=
  (Event.ssiCalls 2 ++ Event.ssiRequest createSon 0x20031000 ++ Event.ssiCalls 12 ++
    [Event.call sysRecv anyMessage 0x20030200] ++ Event.ssiRequest specPrgMgr managerAddr ++
    Event.ssiCalls 10 ++ [Event.call sysSend testThreadAddr 0]).map .event ++
    [.trap (Event.call sysRecv anyMessage 1) initTState]

/-- It waits for the manager, charged twice for its last interval. -/
theorem cpu_time_overcharged :
    ¬ ∀ (k : Kernel) (m₀ m : Machine) (os : List Happening) (log : CpuLog),
    m₀.BootsFrom k → Monotone k.times.tod →
    Run (withHistory Happens CpuLog.noteAll) (m₀, .boot k) os (m, log) →
    ∀ p, m.k.Live p → (m.k.tcb p).cpuTime.toNat ≤ spent (p, log.births p) log.intervals := by
  intro hall
  have hrun : passes (fun m => passes (fun s => testThreadAddr ∈ s.1.k.waitQueue ∧
      spent (testThreadAddr, s.2.births testThreadAddr) s.2.intervals = 42000 ∧
      (s.1.k.tcb testThreadAddr).cpuTime = 48000)
      (exec (execWith happen CpuLog.noteAll) (m, .boot steadyClock) managedTrace))
      (start steadyClock) = true := by
    decide +kernel
  obtain ⟨m₀, hm, hrun⟩ := exists_of_passes hrun
  obtain ⟨⟨m, log⟩, hs, hlog⟩ := exists_of_passes hrun
  obtain ⟨hwait, hspent, htime⟩ := of_decide_eq_true hlog
  have hle := hall steadyClock m₀ m managedTrace log (bootsFrom_of_start steadyClock_powerOn hm)
    steadyClock_mono (run_of_execWith (fun _ _ _ h => h) hs) testThreadAddr (.inr (.inl hwait))
  rw [hspent, htime] at hle
  exact absurd hle (by decide)

end Machine

end AmiKaya
