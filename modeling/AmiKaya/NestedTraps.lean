import AmiKaya.Orderly

/-! Accesses of the kernel that trap. The processor enters `pgmtrap_handler` again, from inside the
kernel: it goes on from what the first handler has done, and the first handler never comes back. -/
namespace AmiKaya
open Lts

namespace Kernel

variable {k k' : Kernel} {old : State} {s t m : Ptr} {v : U32}

/-- `recv` takes a message it finds out of the inbox before it stores the payload. -/
def takeMessage (k : Kernel) (sender : Ptr) : Kernel :=
  match popMessage (k.tcb k.currentThread).tInbox sender with
  | none => k
  | some (_, rest) => k.setTcb k.currentThread fun t => { t with tInbox := rest }

/-- What `sysbp_handler` has done when an access of it traps. In `send` nothing comes before the
store of the payload. -/
def sysbpTrap (k : Kernel) (old : State) : Kernel :=
  if old.isSend then k.sendEnter old
  else if old.isRecv then (k.sysbpEnter old).takeMessage old.regA1
  else k.sysbpEnter old

/-! What `int_handler` has done when its message to the SSI traps. -/

def dtpTrap (k : Kernel) (line : Nat) : Kernel :=
  let base := deviceBaseAddr line (whichDevice (k.bus (intBitmap line)))
  let k := k.ioStore (base + 4) devCAck
  k.fillSlot interruptMsg (k.bus base)

def terminalTrap (k : Kernel) : Kernel :=
  let base := deviceBaseAddr intTerminal (whichDevice (k.bus (intBitmap intTerminal)))
  if k.bus (base + 8) &&& statusMask = devTtrsSCharTrsm
  then k.fillSlot interruptMsg (k.bus (base + 8))
  else k.fillSlot interruptMsg (k.bus base)

def lineTrap (k : Kernel) (cause : U32) : Kernel :=
  if causeIpGet cause intTimer then k.updatePseudoTick.fillSlot pseudoClockMsg 0
  else if causeIpGet cause intDisk then k.dtpTrap intDisk
  else if causeIpGet cause intTape then k.dtpTrap intTape
  else if causeIpGet cause intUnused then k.dtpTrap intUnused
  else if causeIpGet cause intPrinter then k.dtpTrap intPrinter
  else k.terminalTrap

def intTrap (k : Kernel) (old : State) : Kernel :=
  (if k.currentThread ≠ null then k.enter old else k).lineTrap old.cause

theorem takeMessage_still (w : Ptr) : Still k (k.takeMessage w) := by
  unfold takeMessage
  split
  · exact .refl k
  · exact .of_put rfl rfl (List.Perm.refl _) rfl rfl rfl

theorem sysbpTrap_still (old : State) : Still k (k.sysbpTrap old) := by
  have hq := Still.quiet (sysbpEnter_quiet (k := k) old)
  unfold sysbpTrap
  split
  · exact sendEnter_still old
  · split
    · exact hq.trans (takeMessage_still _)
    · exact hq

theorem dtpTrap_quiet (line : Nat) : Quiet k (k.dtpTrap line) :=
  (Quiet.ioStore _ _).trans (.fillSlot _ _)

theorem lineTrap_quiet (cause : U32) : Quiet k (k.lineTrap cause) := by
  unfold lineTrap
  split
  · exact Quiet.updatePseudoTick.trans (.fillSlot _ _)
  · repeat' split
    any_goals exact dtpTrap_quiet _
    unfold terminalTrap
    dsimp only
    split <;> exact .fillSlot _ _

theorem intTrap_quiet (old : State) : Quiet k (k.intTrap old) := by
  unfold intTrap
  split
  · exact (Quiet.enter old).trans (lineTrap_quiet _)
  · exact lineTrap_quiet _

/-- Nobody has moved, waits for anything else, or has another manager. -/
structure Unmoved (k k' : Kernel) : Prop where
  currentThread : k'.currentThread = k.currentThread
  waitQueue : k'.waitQueue = k.waitQueue
  ssiTcb : k'.ssiTcb = k.ssiTcb
  waitingFor : ∀ p, (k'.tcb p).waitingFor = (k.tcb p).waitingFor
  reply : ∀ p, (k'.tcb p).reply = (k.tcb p).reply
  manager : ∀ p e, (k'.tcb p).manager e = (k.tcb p).manager e

theorem Unmoved.of_quiet (hq : Quiet k k')
    (hm : ∀ p e, (k'.tcb p).manager e = (k.tcb p).manager e) :
    k.Unmoved k' :=
  ⟨hq.currentThread, hq.waitQueue, hq.ssiTcb, hq.waitingFor, hq.reply, hm⟩

theorem Unmoved.trans {k'' : Kernel} (h : k.Unmoved k') (h' : k'.Unmoved k'') : k.Unmoved k'' where
  currentThread := h'.currentThread.trans h.currentThread
  waitQueue := h'.waitQueue.trans h.waitQueue
  ssiTcb := h'.ssiTcb.trans h.ssiTcb
  waitingFor p := (h'.waitingFor p).trans (h.waitingFor p)
  reply p := (h'.reply p).trans (h.reply p)
  manager p e := (h'.manager p e).trans (h.manager p e)

theorem Unmoved.addressed (h : k.Unmoved k') : k'.Addressed s t ↔ k.Addressed s t :=
  ⟨fun ha => ha.congr h.waitQueue.symm h.ssiTcb.symm (h.waitingFor t).symm (h.reply t).symm,
    fun ha => ha.congr h.waitQueue h.ssiTcb (h.waitingFor t) (h.reply t)⟩

theorem enter_unmoved (old : State) : k.Unmoved (k.enter old) :=
  .of_quiet (.enter old) (enter_manager old)

theorem sysbpEnter_unmoved (old : State) : k.Unmoved (k.sysbpEnter old) :=
  .of_quiet (sysbpEnter_quiet old) (sysbpEnter_manager old)

theorem takeMessage_unmoved (w : Ptr) : k.Unmoved (k.takeMessage w) := by
  unfold takeMessage
  split
  · constructor <;> intros <;> rfl
  · refine ⟨rfl, rfl, rfl, ?_, ?_, ?_⟩
    all_goals
      intro p
      by_cases hp : p = k.currentThread
      · subst hp
        simp [setTcb, Tcb.manager]
      · simp [setTcb, hp]

theorem sysbpTrap_unmoved (old : State) : k.Unmoved (k.sysbpTrap old) := by
  have hin := sysbpEnter_unmoved (k := k) old
  unfold sysbpTrap
  split
  · unfold sendEnter
    split
    · exact ⟨hin.currentThread, hin.waitQueue, hin.ssiTcb, hin.waitingFor, hin.reply, hin.manager⟩
    · exact hin
  · split
    · exact hin.trans (takeMessage_unmoved _)
    · exact hin

theorem lineTrap_tcb (cause : U32) : (k.lineTrap cause).tcb = k.tcb := by
  unfold lineTrap terminalTrap dtpTrap
  dsimp only
  repeat' split
  all_goals rfl

theorem intTrap_unmoved (old : State) : k.Unmoved (k.intTrap old) := by
  refine .of_quiet (intTrap_quiet old) fun p e => ?_
  unfold intTrap
  rw [lineTrap_tcb]
  split
  · exact enter_manager old p e
  · rfl

/-! A program trap that cannot be passed up: its handler traps at the same store. -/

/-- The thread `t` waits for a message of `s`, or for any, at an address that is not aligned. -/
def Repels (k : Kernel) (s t : Ptr) : Prop :=
  t ∈ k.waitQueue ∧ k.awaits t (k.senderId s) = true ∧ (k.tcb t).reply.toNat % 4 ≠ 0

theorem not_addressed_iff : ¬ k.Addressed s t ↔ k.Repels s t := by
  simp only [Addressed, Repels]
  tauto

theorem send_repelled (hk : Placed k) (h : k.Repels s t) : k.send s t v = .error .trap := by
  obtain ⟨ht, ha, hr⟩ := h
  rw [send_waiting hk ht, if_pos ha]
  simp [deliver, storeWord, hr, bind, Except.bind]

theorem passUp_traps_iff (hk : Placed k) :
    k.passUp m v = .error .trap ↔ m ≠ null ∧ k.Repels k.currentThread m := by
  unfold passUp
  constructor
  · intro h
    split at h
    · rcases bind_eq_error.mp h with hterm | ⟨_, -, hterm⟩
      · rcases terminate_error hterm with he | he <;> cases he
      · cases hterm
    · next hm =>
      rcases bind_eq_error.mp h with hs | ⟨_, -, hs⟩
      · rcases send_error hs with he | ⟨-, hrep⟩
        · cases he
        · exact ⟨hm, hrep⟩
      · cases hs
  · rintro ⟨hm, hrep⟩
    rw [if_neg hm, send_repelled hk hrep]
    rfl

theorem pgmtrapBody_eq (k : Kernel) (old : State) : k.pgmtrapBody old =
    (k.enter old).passUp ((k.tcb k.currentThread).manager .pgmtrap) old.cause := by
  have hin := enter_unmoved (k := k) old
  rw [← hin.manager, ← hin.currentThread]
  rfl

theorem pgmtrapBody_traps_iff (hk : Placed k) : k.pgmtrapBody old = .error .trap ↔
    (k.tcb k.currentThread).manager .pgmtrap ≠ null ∧
      ¬ k.Addressed k.currentThread ((k.tcb k.currentThread).manager .pgmtrap) := by
  have hin := enter_unmoved (k := k) old
  rw [pgmtrapBody_eq, passUp_traps_iff (hk.of_perm (SamePlaces.quiet (.enter old))),
    ← not_addressed_iff, hin.addressed, hin.currentThread]

/-- However often the processor enters `pgmtrap_handler` there, it traps. -/
theorem pgmtrapBody_again (hk : Placed k) (h : k.pgmtrapBody old = .error .trap) (old' : State) :
    (k.enter old).pgmtrapBody old' = .error .trap := by
  have hin := enter_unmoved (k := k) old
  rw [pgmtrapBody_traps_iff hk] at h
  rw [pgmtrapBody_traps_iff (hk.of_perm (SamePlaces.quiet (.enter old))), hin.addressed, hin.manager,
    hin.currentThread]
  exact h

/-! The thread that traps is gone afterwards, or waits for its manager. -/

/-- Without a manager it does not survive. -/
theorem freed_of_pgmtrap (hk : Placed k) (hc : k.currentThread ≠ null)
    (hm : (k.tcb k.currentThread).manager .pgmtrap = null) (h : k.pgmtrapBody old = .ok k') :
    k.currentThread ∈ k'.tcbFree := by
  have hin := enter_unmoved (k := k) old
  rw [pgmtrapBody_eq, hm] at h
  unfold passUp at h
  rw [if_pos rfl, hin.currentThread] at h
  obtain ⟨k₁, ht, hk'⟩ := bind_eq_ok.mp h
  cases hk'
  obtain ⟨ds, hd, hr⟩ := Reaped.terminate (hk.of_perm (SamePlaces.quiet (.enter old))) hc ht
  have hfree : k₁.tcbFree = _ := hr.tcbFree
  simp [hfree, hd]

theorem waits_of_pgmtrap (hm : (k.tcb k.currentThread).manager .pgmtrap ≠ null)
    (h : k.pgmtrapBody old = .ok k') : k.currentThread ∈ k'.waitQueue := by
  have hin := enter_unmoved (k := k) old
  rw [pgmtrapBody_eq] at h
  unfold passUp at h
  rw [if_neg hm] at h
  obtain ⟨⟨r, k₁⟩, hs, hk'⟩ := bind_eq_ok.mp h
  cases hk'
  have hcur : k₁.currentThread = k.currentThread :=
    (send_frame hs).currentThread.trans hin.currentThread
  simp [setTcb, insertThread, hcur]

theorem pgmtrapBody_leaves (hk : Placed k) (hc : k.currentThread ≠ null)
    (h : k.pgmtrapBody old = .ok k') :
    k.currentThread ∉ k'.readyQueue ∧ k'.currentThread ≠ k.currentThread := by
  have hplaced : Placed k' := hk.ops (enter_passUp_ops .pgmtrap hk hc h)
  have hout : k.currentThread ∈ k'.waitQueue ∨ k.currentThread ∈ k'.tcbFree := by
    by_cases hm : (k.tcb k.currentThread).manager .pgmtrap = null
    · exact .inr (freed_of_pgmtrap hk hc hm h)
    · exact .inl (waits_of_pgmtrap hm h)
  have hcount := hplaced.count_le k.currentThread
  have hone : 1 ≤ k'.waitQueue.count k.currentThread + k'.tcbFree.count k.currentThread := by
    rcases hout with hm | hm
    · have := List.count_pos_iff.mpr hm
      omega
    · have := List.count_pos_iff.mpr hm
      omega
  constructor
  · intro hr
    have := List.count_pos_iff.mpr hr
    omega
  · intro hcur
    have hrun : k.currentThread ∈ k'.running := mem_running.mpr ⟨hcur.symm, hcur ▸ hc⟩
    have := List.count_pos_iff.mpr hrun
    omega

end Kernel

/-- An event, or one in which an access of the kernel traps; `old` is then what the processor leaves
in the old area of program traps. -/
inductive Happening
  | event (e : Event)
  | trap (e : Event) (old : State)

/-- The event in which it happens. -/
def Happening.during : Happening → Event
  | .event e | .trap e _ => e

namespace Machine

variable {m m' : Machine} {e : Event} {o : Happening} {os : List Happening}

/-- The machine when an access in this event traps. A thread, and the SSI that reads its request,
trap before the kernel is entered. -/
def trapped (m : Machine) : Event → Machine
  | .sysbp old => { m with k := m.k.sysbpTrap old }
  | .pgmtrap old | .tlb old => { m with k := m.k.enter old }
  | .interrupt old => { m with k := m.k.intTrap old }
  | .ssi old =>
    if m.ssi.misreads m.k then m
    else match m.ssi.call m.k with
      | .msgRecv a => { m with k := m.k.sysbpTrap (old.syscall sysRecv anyMessage a) }
      | .msgSend d v => { m with k := m.k.sysbpTrap (old.syscall sysSend d v) }
      | _ => m
  | .devices _ | .store _ _ | .edit _ _ => m

/-- The machine goes on after a trap: `pgmtrap_handler` runs for the current thread. -/
def happen (m : Machine) : Happening → Except Stop Machine
  | .event e => m.fire e
  | .trap e old =>
    match m.fire e with
    | .error .trap => (m.trapped e).fire (.pgmtrap old)
    | _ => .error .fault

def Happens (m : Machine) (o : Happening) (m' : Machine) : Prop := m.happen o = .ok m'

theorem fire_of_step (h : m.Step e m') : m.fire e = .ok m' := by
  rw [fire, if_pos h.1]
  exact h.2

theorem Happens.event (h : m.Step e m') : m.Happens (.event e) m' := fire_of_step h

theorem happens_event (h : m.Happens (.event e) m') : m.Step e m' := step_of_fire h

/-- The runs in which no access of the kernel traps are the runs of the machine without traps. -/
theorem run_happens_iff {es : List Event} :
    Run Happens m (es.map .event) m' ↔ Run Step m es m' := by
  constructor
  · intro h
    induction es generalizing m with
    | nil =>
      cases h
      exact .refl
    | cons e es ih =>
      cases h with
      | stepL hs hr => exact .stepL (happens_event hs) (ih hr)
  · intro h
    induction h with
    | refl => exact .refl
    | stepL hs _ ih => exact .stepL (.event hs) ih

theorem happens_trap {old : State} (h : m.Happens (.trap e old) m') :
    m.Enabled e ∧ m.step e = .error .trap ∧ (m.trapped e).Step (.pgmtrap old) m' := by
  have hf : m.fire e = .error .trap := by
    by_contra hne
    simp only [Happens, happen] at h
    cases h
  have hen : m.Enabled e := by
    by_contra hne
    rw [fire, if_neg hne] at hf
    cases hf
  simp only [Happens, happen, hf] at h
  rw [fire, if_pos hen] at hf
  exact ⟨hen, hf, step_of_fire h⟩

theorem trapped_ssi (e : Event) : (m.trapped e).ssi = m.ssi := by
  cases e with
  | ssi old =>
    simp only [trapped]
    repeat' split
    all_goals rfl
  | sysbp | pgmtrap | tlb | interrupt | devices | store | edit => rfl

/-- The accesses that trap leave every thread in its place. -/
theorem trapped_still (e : Event) : Still m.k (m.trapped e).k := by
  cases e with
  | sysbp old => exact Kernel.sysbpTrap_still old
  | pgmtrap old | tlb old => exact .quiet (.enter old)
  | interrupt old => exact .quiet (Kernel.intTrap_quiet old)
  | ssi old =>
    simp only [trapped]
    repeat' split
    · exact .refl _
    · exact Kernel.sysbpTrap_still _
    · exact Kernel.sysbpTrap_still _
    · exact .refl _
  | devices | store | edit => exact .refl _

theorem trapped_unmoved (e : Event) : m.k.Unmoved (m.trapped e).k := by
  have hrefl : m.k.Unmoved m.k := by constructor <;> intros <;> rfl
  cases e with
  | sysbp old => exact Kernel.sysbpTrap_unmoved old
  | pgmtrap old | tlb old => exact Kernel.enter_unmoved old
  | interrupt old => exact Kernel.intTrap_unmoved old
  | ssi old =>
    simp only [trapped]
    repeat' split
    · exact hrefl
    · exact Kernel.sysbpTrap_unmoved _
    · exact Kernel.sysbpTrap_unmoved _
    · exact hrefl
  | devices | store | edit => exact hrefl

theorem Wf.trapped (hw : m.Wf) (e : Event) : (m.trapped e).Wf := by
  have hplaces := (trapped_still (m := m) e).places
  have hssi := trapped_ssi (m := m) e
  have htcb := (trapped_unmoved (m := m) e).ssiTcb
  constructor
  case placed => exact hw.placed.of_perm hplaces
  case ssi => exact htcb ▸ hw.ssi
  case requester => exact hssi ▸ hw.requester
  case creating =>
    rw [hssi]
    intro hc hn
    obtain ⟨hm, hp⟩ := hw.creating hc hn
    exact ⟨hm, fun hp' => hp (hplaces.mem_iff.mp hp')⟩
  case linked => exact hssi ▸ hw.linked

theorem Wf.happens (hw : m.Wf) (h : m.Happens o m') : m'.Wf := by
  cases o with
  | event e => exact hw.step (happens_event h)
  | trap e old => exact (hw.trapped e).step (happens_trap h).2.2

/-- The test thread sends to itself and receives its message at an odd address. Its message to the
SSI leaves somebody to run after it. -/
def oddRecvTrace : List Happening :=
  (Event.ssiCalls 2 ++ [Event.call sysSend testThreadAddr 0,
    Event.call sysSend magicSsi 0x20030000]).map .event ++
    [.trap (Event.call sysRecv anyMessage 1) initTState]

end Machine

end AmiKaya
