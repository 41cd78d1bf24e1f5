import AmiKaya.MessageSlots

/-! Which status the SSI is told: the one the device had, or the one the acknowledge leaves. -/
namespace AmiKaya
open Lts

/-- `DEV_S_READY`, the status common to all devices. -/
def devSReady : U32 := 1

/-- The rule of the devices, from what they show now: the ACK command makes a part ready. -/
def Kernel.AcksReady (k : Kernel) : Prop :=
  ∀ s ∈ deviceParts, k.device k.bus (s + 4) devCAck s = devSReady

instance (k : Kernel) : Decidable k.AcksReady := List.decidableBAll _ _

/-- The part is the transmitter or the receiver of a terminal. -/
def TerminalHalf (s : Ptr) : Prop := ∃ dev < 8, s ∈ subDevices intTerminal dev

theorem mem_deviceParts {line dev : Nat} {s : Ptr} (hl : line ∈ deviceLines) (hd : dev < 8)
    (hs : s ∈ subDevices line dev) : s ∈ deviceParts :=
  List.mem_flatMap.mpr ⟨line, hl, List.mem_flatMap.mpr ⟨dev, List.mem_range.mpr hd, hs⟩⟩

namespace Kernel

variable {k k' : Kernel} {old : State} {r : Report}

/-- The status a report of a completion carries is the one the device showed when it interrupted. -/
def Truthful (bus : Ptr → U32) (r : Report) : Prop :=
  r.sender ∈ deviceParts ∧ (r.arg = bus r.sender ↔ TerminalHalf r.sender ∨ bus r.sender = devSReady)

/-- Lines 3 to 6: the status is read from an acknowledged device. -/
theorem dtpReport_truthful {line : Nat} (hd : k.AcksReady) (hl : line ∈ deviceLines)
    (hne : line ≠ intTerminal) (hr : k.dtpReport line = some r) :
    r.service = interruptMsg ∧ Truthful k.bus r := by
  have hlt := whichDevice_lt (k.bus (intBitmap line))
  obtain rfl := Option.some.inj hr
  have hmem : deviceBaseAddr line (whichDevice (k.bus (intBitmap line))) ∈ deviceParts := by
    apply mem_deviceParts hl hlt
    simp [subDevices, hne]
  refine ⟨rfl, hmem, ?_⟩
  have hready := hd _ hmem
  have hnot : ¬ TerminalHalf (deviceBaseAddr line (whichDevice (k.bus (intBitmap line)))) := by
    rintro ⟨dev, hdev, hs⟩
    exact notMem_terminal hl hne hlt dev hdev hs
  dsimp only
  rw [hready]
  constructor
  · intro h
    exact .inr h.symm
  · rintro (h | h)
    · exact absurd h hnot
    · exact h.symm

/-- Line 7: the status is read, and sent, before the acknowledge. -/
theorem terminalReport_truthful (hr : k.terminalReport = some r) :
    r.service = interruptMsg ∧ Truthful k.bus r := by
  have hlt := whichDevice_lt (k.bus (intBitmap intTerminal))
  have hl : intTerminal ∈ deviceLines := by decide
  have hhalf : ∀ s ∈ subDevices intTerminal (whichDevice (k.bus (intBitmap intTerminal))),
      Truthful k.bus ⟨s, interruptMsg, k.bus s⟩ := by
    intro s hs
    refine ⟨mem_deviceParts hl hlt hs, ?_⟩
    simp only [true_iff]
    exact .inl ⟨_, hlt, hs⟩
  unfold terminalReport at hr
  dsimp only at hr
  split at hr
  · obtain rfl := Option.some.inj hr
    exact ⟨rfl, hhalf _ (by simp [subDevices])⟩
  · split at hr
    · obtain rfl := Option.some.inj hr
      exact ⟨rfl, hhalf _ (by simp [subDevices])⟩
    · cases hr

theorem report_truthful {cause : U32} (hd : k.AcksReady) (hr : k.report cause = some r)
    (hs : r.service = interruptMsg) : Truthful k.bus r := by
  unfold report at hr
  split at hr
  · unfold timerReport at hr
    split at hr
    · obtain rfl := Option.some.inj hr
      exact absurd hs (by decide)
    · cases hr
  split at hr
  · exact (dtpReport_truthful hd (by decide) (by decide) hr).2
  split at hr
  · exact (dtpReport_truthful hd (by decide) (by decide) hr).2
  split at hr
  · exact (dtpReport_truthful hd (by decide) (by decide) hr).2
  split at hr
  · exact (dtpReport_truthful hd (by decide) (by decide) hr).2
  split at hr
  · exact (terminalReport_truthful hr).2
  · cases hr

end Kernel

namespace Machine

variable {m m' : Machine} {es : List Event} {old : State} {k' : Kernel}

/-- The handler sends its report, and the status in it is the one the device showed if and only if
the device is half of a terminal or showed that it was ready. -/
theorem status_reported_iff (h : m.Initial) (hr : Run Step m es m') (hd : m'.k.AcksReady)
    (hb : m'.k.intBody old = .ok k') :
    (∃ k₁, m'.k.Outcome k₁ ((m'.k.intEnter old).report old.cause) ∧
      k' = { k₁ with intIndex := (m'.k.intIndex + 1) % 48 }) ∧
    ∀ r ∈ (m'.k.intEnter old).report old.cause, r.service = interruptMsg →
      r.sender ∈ deviceParts ∧
        (r.arg = m'.k.bus r.sender ↔ TerminalHalf r.sender ∨ m'.k.bus r.sender = devSReady) := by
  have hw := wf_of_run h hr
  obtain ⟨-, hbus, hdev, -⟩ := Kernel.intEnter_quiet m'.k old
  refine ⟨Kernel.intBody_outcome hw.placed hw.ssi hb, fun r hrep hs => ?_⟩
  have hd' : (m'.k.intEnter old).AcksReady := by
    intro s hs
    rw [hdev, hbus]
    exact hd s hs
  have ht := Kernel.report_truthful hd' hrep hs
  rw [hbus] at ht
  exact ht

/-- Devices that obey the rule, and do nothing else. -/
def readyDevice (bus : Ptr → U32) (a : Ptr) (v : U32) : Ptr → U32 :=
  if v = devCAck then put bus (a - 4) devSReady else bus

def readyMachine : Kernel := { Kernel.zeroed with device := readyDevice }

theorem readyMachine_powerOn : readyMachine.PowerOn :=
  ⟨Kernel.zeroed_powerOn.trapManagers, rfl, fun _ _ => rfl, fun _ _ => rfl, fun _ _ => rfl,
    fun _ _ _ _ => ⟨rfl, rfl⟩⟩

/-- The SSI waits for a message when the first printer shows this status. -/
def printerTrace (status : U32) : List Event :=
  Event.ssiCalls 2 ++
    [.devices (put (put (fun _ => 0) (intBitmap intPrinter) 1) (deviceBaseAddr intPrinter 0) status)]

def printerOld : State := { initTState with cause := 1 <<< (intPrinter + 8) }

/-- The printer shows `status`, and the handler reports `arg`. -/
def printerReports (m : Machine) (status arg : U32) : Bool :=
  decide m.k.AcksReady && passes (fun _ => true) (m.k.intBody printerOld) &&
    (m.k.intEnter printerOld).report printerOld.cause =
      some ⟨deviceBaseAddr intPrinter 0, interruptMsg, arg⟩ &&
    m.k.bus (deviceBaseAddr intPrinter 0) = status

/-- A printer that has nothing but its readiness to tell. -/
theorem status_reported_ready : ∃ m m' : Machine, ∃ k', Run Step m (printerTrace devSReady) m' ∧
    m'.k.intBody printerOld = .ok k' ∧
    ∃ r ∈ (m'.k.intEnter printerOld).report printerOld.cause, r.arg = m'.k.bus r.sender := by
  have hrun : passes (fun m => passes (fun s => s.printerReports devSReady devSReady)
      (exec fire m (printerTrace devSReady))) (start readyMachine) = true := by
    decide +kernel
  obtain ⟨m, hm, hrun⟩ := exists_of_passes hrun
  obtain ⟨m', hs, hend⟩ := exists_of_passes hrun
  simp only [printerReports, Bool.and_eq_true, decide_eq_true_eq] at hend
  obtain ⟨⟨⟨hd, hbody⟩, hrep⟩, hbus⟩ := hend
  obtain ⟨k', hb, -⟩ := exists_of_passes hbody
  have hr : Run Step m (printerTrace devSReady) m' :=
    (run_of_exec hs).mono fun _ _ _ => step_of_fire
  have hiff :=
    (status_reported_iff (initial_of_start readyMachine_powerOn hm) hr hd hb).2 _ hrep rfl
  exact ⟨m, m', k', hr, hb, _, hrep, hiff.2.mpr (.inr hbus)⟩

/-- A printer shows an error, and the SSI is told that it is ready. -/
theorem status_lost :
    ¬ ∀ (m m' : Machine) (es : List Event) (old : State) (k' : Kernel), m.Initial →
    Run Step m es m' → m'.k.AcksReady → m'.k.intBody old = .ok k' →
    ∀ r ∈ (m'.k.intEnter old).report old.cause, r.service = interruptMsg →
      r.arg = m'.k.bus r.sender := by
  intro hall
  have hrun : passes (fun m => passes (fun s => s.printerReports 4 devSReady)
      (exec fire m (printerTrace 4))) (start readyMachine) = true := by
    decide +kernel
  obtain ⟨m, hm, hrun⟩ := exists_of_passes hrun
  obtain ⟨m', hs, hend⟩ := exists_of_passes hrun
  simp only [printerReports, Bool.and_eq_true, decide_eq_true_eq] at hend
  obtain ⟨⟨⟨hd, hbody⟩, hrep⟩, hbus⟩ := hend
  obtain ⟨k', hb, -⟩ := exists_of_passes hbody
  have hr : Run Step m (printerTrace 4) m' := (run_of_exec hs).mono fun _ _ _ => step_of_fire
  have harg := hall m m' _ _ k' (initial_of_start readyMachine_powerOn hm) hr hd hb _ hrep rfl
  rw [hbus] at harg
  revert harg
  decide

end Machine

end AmiKaya
