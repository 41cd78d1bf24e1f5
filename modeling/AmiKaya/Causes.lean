import AmiKaya.Acknowledge
import AmiKaya.Pool
import AmiKaya.Targets

/-! Why the kernel does not come back from an event: every PANIC, every trap and every fault has one
of the causes that are named here, all of them on the state in which the event happens. -/
namespace AmiKaya
open Lts

theorem Settled.mono {P Q : Stop → Prop} {α : Type} {x : Except Stop α} (h : Settled P x)
    (hpq : ∀ e, P e → Q e) : Settled Q x :=
  fun e he => hpq e (h e he)

/-- The entries in which a message is sent. -/
def Entry.sends : Entry → Bool
  | .send | .trap _ | .interrupt => true
  | .recv _ | .alloc | .publish _ | .program => false

namespace Kernel

variable {k k' : Kernel} {s t m : Ptr} {v : U32} {old : State} {x : Stop}

/-- Some thread in the wait queue gave an address that is not aligned. -/
def BadReply (k : Kernel) : Prop := ∃ t ∈ k.waitQueue, (k.tcb t).reply.toNat % 4 ≠ 0

/-- A SEND needs a free buffer, or an address to store the message at. -/
def SendStops (k : Kernel) : Stop → Prop
  | .panic .send => k.msgFree = []
  | .trap => k.BadReply
  | _ => False

theorem SendStops.congr (hm : k'.msgFree = k.msgFree) (hw : k'.waitQueue = k.waitQueue)
    (hr : ∀ t, (k'.tcb t).reply = (k.tcb t).reply) (h : k'.SendStops x) : k.SendStops x := by
  simpa only [SendStops, BadReply, hm, hw, hr] using h

theorem SendStops.quiet (hq : Quiet k k') (h : k'.SendStops x) : k.SendStops x :=
  h.congr hq.msgFree hq.waitQueue hq.reply

theorem enqueue_stops : Settled k.SendStops (k.enqueue s t v) := by
  intro x h
  unfold enqueue allocMsg at h
  cases hf : k.msgFree with
  | nil =>
    simp only [hf] at h
    cases h
    exact hf
  | cons a free => simp [hf] at h

theorem send_stops : Settled k.SendStops (k.send s t v) := by
  intro x h
  rcases send_error h with rfl | ⟨rfl, hw, -, hr⟩
  · simp only [send] at h
    split at h
    · rcases bind_eq_error.mp h with h | ⟨k₁, -, h⟩
      · exact enqueue_stops _ h
      · cases h
    · split at h
      · split at h
        · rcases bind_eq_error.mp h with h | ⟨k₁, -, h⟩
          · obtain h | ⟨k₂, -, h⟩ := bind_eq_error.mp h
            · unfold storeWord at h
              split at h <;> cases h
            · cases h
          · cases h
        · rcases bind_eq_error.mp h with h | ⟨k₁, -, h⟩
          · exact enqueue_stops _ h
          · cases h
      · cases h
  · exact ⟨t, hw, hr⟩

theorem sendOrdinary_stops : Settled k.SendStops (k.sendOrdinary s t v) :=
  send_stops.bind fun _ _ => .ok _

theorem passUp_stops (hm : m ≠ null) : Settled k.SendStops (k.passUp m v) := by
  unfold passUp
  rw [if_neg hm]
  exact send_stops.bind fun _ _ => .ok _

/-- A RECV that finds a message needs an aligned address for it. -/
theorem recv_stops {w a : Ptr} :
    Settled (fun x => x = .trap ∧ a.toNat % 4 ≠ 0) (k.recv k.currentThread w a) := by
  intro x h
  by_cases ha : a.toNat % 4 = 0
  · exact (recv_settled (P := fun _ => False) (fun _ _ => ha) x h).elim
  · refine ⟨?_, ha⟩
    exact recv_settled (P := fun x => x = .trap) (fun hn => absurd rfl hn) x h

/-- The address for the message of a RECV, and the receiver a manager names in a SEND, have to be
aligned. -/
def BadPointer (k : Kernel) (old : State) : Prop :=
  old.isRecv = true ∧ old.regA2.toNat % 4 ≠ 0 ∨
    old.isSend = true ∧ k.thereIsManager k.currentThread ≠ null ∧ (k.receiver old).toNat % 4 ≠ 0

/-- The decision of a manager on a thread that does not wait. -/
def BadDecision (k : Kernel) (old : State) : Prop :=
  old.isSend = true ∧ k.receiver old ∉ k.waitQueue ∧
    k.intercepts k.currentThread (k.receiver old) = true

def CallStops (k : Kernel) (old : State) (x : Stop) : Prop :=
  (k.sysbpEntry old).sends = true ∧ k.SendStops x ∨ x = .trap ∧ k.BadPointer old ∨
    x = .fault ∧ k.BadDecision old

theorem continueTrapped_stops (ht : t ≠ null) :
    Settled (fun x => x = .fault ∧ t ∉ k.waitQueue) (k.continueTrapped t) := by
  unfold continueTrapped
  dsimp only
  split
  · next hout =>
    rintro x hx
    cases hx
    exact ⟨rfl, fun hw => outThread_fst_ne_null.mpr ⟨hw, ht⟩ hout⟩
  · exact .ok _

/-- The thread has a manager, as nobody is terminated. -/
theorem manager_of_target {e : Trap} (ht : k.trapTarget e = none) :
    (k.tcb k.currentThread).manager e ≠ null := by
  intro hm
  rw [trapTarget, if_pos hm] at ht
  cases ht

theorem trap_stops {e : Trap} (ht : k.trapTarget e = none) :
    Settled k.SendStops ((k.enter old).passUp
      (((k.enter old).tcb (k.enter old).currentThread).manager e) old.cause) := by
  have hq := Quiet.enter (k := k) old
  rw [hq.currentThread, enter_manager]
  exact (passUp_stops (manager_of_target ht)).mono fun _ h => h.quiet hq

theorem sendEnter_intercepts (p q : Ptr) :
    (k.sendEnter old).intercepts p q = k.intercepts p q := by
  obtain ⟨-, -, -, -, -, hman, -, -, htcb⟩ := k.sendEnter_eq old
  simp [intercepts, thereIsManager, hman, (htcb q).1]

theorem sendEnter_stops (h : (k.sendEnter old).SendStops x) : k.SendStops x := by
  have hq := sysbpEnter_quiet (k := k) old
  have hwait := (k.sendEnter_eq old).2.1
  have hsame : (k.sendEnter old).msgFree = k.msgFree ∧
      ∀ t, ((k.sendEnter old).tcb t).reply = (k.tcb t).reply := by
    unfold sendEnter
    split <;> exact ⟨hq.msgFree, hq.reply⟩
  exact h.congr hsame.1 hwait hsame.2

/-- A SEND, unless it is the decision of a manager that ends a thread. -/
theorem sysSendCase_stops (hs : old.isSend = true) (ht : k.sysbpTarget old = none) :
    Settled (k.CallStops old) (k.sysbpBody old) := by
  have hwait := (k.sendEnter_eq old).2.1
  have hman : (k.sendEnter old).thereIsManager k.currentThread = k.thereIsManager k.currentThread := by
    obtain ⟨-, -, -, -, -, hman, -⟩ := k.sendEnter_eq old
    simp [thereIsManager, hman]
  rw [sysbpTarget, if_pos hs] at ht
  rw [sysbpBody_sendEnter hs, sendEnter_intercepts, hman]
  split
  · next hn =>
    rintro e he
    cases he
    exact .inr (.inl ⟨rfl, .inr ⟨hs, hn⟩⟩)
  · next hn =>
    have hreads : k.intercepts k.currentThread (k.receiver old) = true →
        k.thereIsManager k.currentThread ≠ null ∧ k.receiver old ≠ null := by
      intro hi
      simp only [intercepts, Bool.and_eq_true, decide_eq_true_eq] at hi
      exact hi.1
    split
    · next hd =>
      -- the manager ends a thread
      simp only [Bool.and_eq_true, decide_eq_true_eq] at hd
      have ha : (k.receiver old).toNat % 4 = 0 := by
        by_contra ha
        exact hn ⟨(hreads hd.1).1, ha⟩
      rw [if_pos ⟨ha, hd.1, hd.2⟩] at ht
      cases ht
    · split
      · next hd =>
        simp only [Bool.and_eq_true, decide_eq_true_eq] at hd
        refine (continueTrapped_stops (hreads hd.1).2).mono fun x h => ?_
        exact .inr (.inr ⟨h.1, hs, hwait ▸ h.2, hd.1⟩)
      · have hentry : (k.sysbpEntry old).sends = true := by
          rw [sysbpEntry, if_pos hs]
          rfl
        exact sendOrdinary_stops.mono fun _ h => .inl ⟨hentry, sendEnter_stops h⟩

theorem sysbpBody_stops (ht : k.sysbpTarget old = none) :
    Settled (k.CallStops old) (k.sysbpBody old) := by
  have hq := sysbpEnter_quiet (k := k) old
  by_cases hs : old.isSend
  · exact sysSendCase_stops hs ht
  rw [sysbpTarget, if_neg hs] at ht
  rw [sysbpBody_eq, if_neg hs]
  by_cases hr : old.isRecv
  · rw [if_pos hr]
    refine (recv_stops.bind fun _ _ => .ok _).mono fun x h => ?_
    exact .inr (.inl ⟨h.1, .inl ⟨hr, h.2⟩⟩)
  · rw [if_neg hr] at ht ⊢
    rw [hq.currentThread, sysbpEnter_manager]
    have hentry : (k.sysbpEntry old).sends = true := by
      rw [sysbpEntry, if_neg hs, if_neg hr]
      rfl
    have hstop := passUp_stops (k := k.sysbpEnter old) (v := old.cause) (manager_of_target ht)
    exact hstop.mono fun _ h => .inl ⟨hentry, h.quiet hq⟩

/-- The interrupt handler also needs an SSI to send to. -/
def IntStops (k : Kernel) (x : Stop) : Prop :=
  k.SendStops x ∨ x = .panic .intHandler ∧ ¬ k.Live k.ssiTcb

theorem IntStops.quiet (hq : Quiet k k') (h : k'.IntStops x) : k.IntStops x := by
  refine h.imp (SendStops.quiet hq) (And.imp_right fun hn hl => hn ?_)
  simpa only [Live, hq.readyQueue, hq.waitQueue, running_eq hq.currentThread, hq.ssiTcb] using hl

theorem notifySsi_stops (hssi : k.ssiTcb ≠ null) : Settled k.IntStops (k.notifySsi s) := by
  refine (send_stops.mono fun _ => .inl).bind fun ⟨r, k'⟩ hr => ?_
  dsimp only
  split
  · next hbad =>
    rintro e he
    cases he
    refine .inr ⟨rfl, ?_⟩
    rcases send_cases hr with ⟨-, hgood, -⟩ | ⟨-, -, -, -, hgood, -⟩ | ⟨-, -, -, -, hgood, -⟩ |
      ⟨hc, hno, -, -⟩
    · rw [hgood] at hbad
      exact absurd hbad (by decide)
    · rw [hgood] at hbad
      exact absurd hbad (by decide)
    · rw [hgood] at hbad
      exact absurd hbad (by decide)
    · rintro (hl | hl | hl)
      · exact (hno hssi).1 hl
      · exact (hno hssi).2 hl
      · exact hc (mem_running.mp hl).1.symm
  · exact .ok _

theorem timerInterrupt_stops (hssi : k.ssiTcb ≠ null) : Settled k.IntStops k.timerInterrupt := by
  have htick : Settled k.IntStops k.updatePseudoTick.pseudoClockTick := by
    unfold pseudoClockTick
    split
    · have hq := Quiet.fillSlot (k := k.updatePseudoTick) pseudoClockMsg 0
      have hne : (k.updatePseudoTick.fillSlot pseudoClockMsg 0).ssiTcb ≠ null := hssi
      have hstop := notifySsi_stops (s := busIntervalTimer) hne
      exact (hstop.mono fun _ h => (h.quiet hq).quiet .updatePseudoTick).bind fun _ _ => .ok _
    · exact .ok _
  exact htick.bind fun _ _ => .ok _

theorem dtpInterrupt_stops (hssi : k.ssiTcb ≠ null) (line : Nat) :
    Settled k.IntStops (k.dtpInterrupt line) :=
  (notifySsi_stops (by exact hssi)).mono fun _ h => (h.quiet (.fillSlot _ _)).quiet (.ioStore _ _)

theorem terminalHalf_stops {status command : Ptr} (hssi : k.ssiTcb ≠ null) :
    Settled k.IntStops (k.terminalHalf status command) :=
  ((notifySsi_stops (by exact hssi)).mono fun _ h => h.quiet (.fillSlot _ _)).bind fun _ _ => .ok _

theorem lineInterrupt_stops (hssi : k.ssiTcb ≠ null) (cause : U32) :
    Settled k.IntStops (k.lineInterrupt cause) :=
  lineInterrupt_inv (timerInterrupt_stops hssi) (fun line _ => dtpInterrupt_stops hssi line)
    (fun _ _ _ => terminalHalf_stops hssi) (.ok k) cause

theorem intBody_stops (hssi : k.ssiTcb ≠ null) (old : State) :
    Settled k.IntStops (k.intBody old) := by
  obtain ⟨hq, -⟩ := intEnter_quiet k old
  rw [intBody_eq]
  have hstop := lineInterrupt_stops (hq.ssiTcb ▸ hssi) old.cause
  exact (hstop.mono fun _ h => h.quiet hq).bind fun _ _ => .ok _

end Kernel

/-- The services that the SSI serves. -/
def services : List U32 := [waitForClock, createBrother, createSon, terminateService, specPrgMgr,
  specTlbMgr, specSysMgr, getCpuTime, waitForIo]

theorem Ssi.call_stops (s : Ssi) (k : Kernel) :
    (s.call k = .panic → s.pc = .serve ∧ s.service k ∉ services) ∧
      (s.call k = .fault → s.pc = .interrupt ∧ s.deviceNum = none) := by
  cases hpc : s.pc <;> simp only [call, hpc]
  case serve =>
    split
    · simp
    · next hs => exact ⟨fun _ => ⟨trivial, hs⟩, by simp⟩
  all_goals
    repeat' split
    all_goals simp_all

namespace Machine

variable {m m' : Machine} {e : Event} {es : List Event} {k : Kernel} {x : Stop}

/-- The system call that an event makes. The SSI makes its own through the library. -/
def syscall (m : Machine) : Event → Option State
  | .sysbp old => some old
  | .ssi old => match m.ssi.call m.k with
    | .msgRecv a => some (old.syscall sysRecv anyMessage a)
    | .msgSend d v => some (old.syscall sysSend d v)
    | _ => none
  | .pgmtrap _ | .tlb _ | .interrupt _ | .devices _ | .store _ _ | .edit _ _ => none

/-- The accesses at an address that is not aligned: of a thread; of the handlers, for a thread that
gave the address; of the SSI, which reads its request and the state it prepares for a new thread. -/
inductive Traps (m : Machine) : Event → Prop
  | store (a v : U32) : a.toNat % 4 ≠ 0 → Traps m (.store a v)
  | call (f : Event) (old : State) : m.syscall f = some old → m.k.BadPointer old → Traps m f
  | reply (f : Event) : (m.entry f).sends = true → m.k.BadReply → Traps m f
  | request (old : State) : m.ssi.misreads m.k = true → Traps m (.ssi old)
  | template (old : State) (c : Create) : m.ssi.pc = .copyState c → (m.ssi.arg m.k).toNat % 4 ≠ 0 →
      Traps m (.ssi old)

/-- The stores through NULL, and the index out of an array. -/
inductive Faults (m : Machine) : Event → Prop
  | decision (f : Event) (old : State) : m.syscall f = some old → m.k.BadDecision old → Faults m f
  | device (old : State) : m.ssi.pc = .interrupt → m.ssi.deviceNum = none → Faults m (.ssi old)
  | child (old : State) (c : Create) : m.ssi.pc = .link c → m.ssi.newThread = null →
      Faults m (.ssi old)

/-- At the end of the event nobody can run. -/
def EndsIdle (m : Machine) (e : Event) (k : Kernel) : Prop :=
  m.body e = .ok k ∧ k.currentThread = null ∧ k.readyQueue = []

/-- Why an event comes to this end. -/
def Cause (m : Machine) (e : Event) : Stop → Prop
  | .halt => ∃ k, m.EndsIdle e k ∧ k.threadCount = 1
  | .panic .scheduler => ∃ k, m.EndsIdle e k ∧ k.threadCount ≠ 1 ∧
      (k.threadCount = 0 ∨ k.softBlockCount = 0)
  | .panic .send => (m.entry e).sends = true ∧ m.k.msgFree = []
  | .panic .intHandler => (∃ old, e = .interrupt old) ∧ ¬ m.k.Live m.k.ssiTcb
  | .panic .ssi => (∃ old, e = .ssi old) ∧ m.ssi.pc = .serve ∧ m.ssi.service m.k ∉ services
  | .panic .terminate | .overflow => m.target e ≠ none
  | .panic .main => False
  | .trap => m.Traps e
  | .fault => m.Faults e

theorem scheduler_cause (hb : m.body e = .ok k) (h : k.scheduler = .error x) : m.Cause e x := by
  unfold Kernel.scheduler at h
  split at h
  · next hc =>
    split at h
    · next hr =>
      split at h
      · next h1 =>
        cases h
        exact ⟨k, ⟨hb, hc, hr⟩, h1⟩
      · next h1 =>
        have hzero : ¬ 0 < k.threadCount → k.threadCount = 0 := fun h0 =>
          BitVec.eq_of_toNat_eq (by simpa [BitVec.lt_def] using h0)
        have hsoft : ¬ 0 < k.softBlockCount → k.softBlockCount = 0 := fun h0 =>
          BitVec.eq_of_toNat_eq (by simpa [BitVec.lt_def] using h0)
        split at h
        · next h2 =>
          cases h
          exact ⟨k, ⟨hb, hc, hr⟩, h1, .inr h2.2⟩
        · split at h
          · cases h
          · next h3 =>
            cases h
            refine ⟨k, ⟨hb, hc, hr⟩, h1, ?_⟩
            by_cases h0 : 0 < k.threadCount
            · exact .inr (hsoft fun hs => h3 ⟨h0, hs⟩)
            · exact .inl (hzero h0)
    · cases h
  · cases h

theorem cause_of_send (hs : (m.entry e).sends = true) (h : m.k.SendStops x) : m.Cause e x := by
  match x, h with
  | .panic .send, h => exact ⟨hs, h⟩
  | .trap, h => exact Traps.reply _ hs h

theorem cause_of_call {old : State} (hs : m.syscall e = some old)
    (he : (m.k.sysbpEntry old).sends = true → (m.entry e).sends = true) (h : m.k.CallStops old x) :
    m.Cause e x := by
  rcases h with ⟨hsend, h⟩ | ⟨rfl, h⟩ | ⟨rfl, h⟩
  · exact cause_of_send (he hsend) h
  · exact Traps.call _ _ hs h
  · exact Faults.decision _ _ hs h

/-- In each event that terminates nobody. -/
theorem body_cause (hw : m.Wf) (ht : m.target e = none) : Settled (m.Cause e) (m.body e) := by
  cases e with
  | sysbp old => exact (Kernel.sysbpBody_stops ht).mono fun _ h => cause_of_call rfl id h
  | pgmtrap old =>
    exact (Kernel.trap_stops (e := .pgmtrap) ht).mono fun _ h => cause_of_send rfl h
  | tlb old =>
    exact (Kernel.trap_stops (e := .tlbtrap) ht).mono fun _ h => cause_of_send rfl h
  | interrupt old =>
    refine (Kernel.intBody_stops hw.ssi_ne_null old).mono fun x h => ?_
    rcases h with h | ⟨rfl, hl⟩
    · exact cause_of_send rfl h
    · exact ⟨⟨old, rfl⟩, hl⟩
  | devices | edit => exact .ok _
  | store a v =>
    intro x h
    simp only [body, Kernel.storeWord] at h
    split at h
    · cases h
    · next ha =>
      cases h
      exact Traps.store _ _ ha
  | ssi old =>
    have hat := m.ssi.call_at m.k
    simp only [target] at ht
    simp only [body]
    cases hcall : m.ssi.call m.k <;> rw [hcall] at hat <;> simp only [hcall] at ht
    case msgRecv a =>
      have hsys : m.syscall (.ssi old) = some (old.syscall sysRecv anyMessage a) := by
        simp [syscall, hcall]
      refine (Kernel.sysbpBody_stops ht).mono fun _ h => cause_of_call hsys ?_ h
      obtain ⟨hsend, hrecv⟩ := old.syscall_isRecv anyMessage a
      simp [Kernel.sysbpEntry, hsend, hrecv, Entry.sends]
    case msgSend d v =>
      have hsys : m.syscall (.ssi old) = some (old.syscall sysSend d v) := by
        simp [syscall, hcall]
      refine (Kernel.sysbpBody_stops ht).mono fun _ h => cause_of_call hsys ?_ h
      simp [entry, hcall, Entry.sends]
    case terminate => cases ht
    case panic =>
      rintro x hx
      cases hx
      exact ⟨⟨old, rfl⟩, (Ssi.call_stops m.ssi m.k).1 hcall⟩
    case fault =>
      rintro x hx
      cases hx
      obtain ⟨hpc, hdev⟩ := (Ssi.call_stops m.ssi m.k).2 hcall
      exact Faults.device _ hpc hdev
    case insertChild p c =>
      intro x hx
      simp only [Kernel.performBody, Kernel.perform] at hx
      split at hx
      · next hnull =>
        cases hx
        rcases hat with ⟨hpc, -, -, rfl⟩ | ⟨hpc, -, rfl⟩
        · exact Faults.child _ _ hpc hnull
        · exact Faults.child _ _ hpc hnull
      · cases hx
    case insertSibling p c =>
      intro x hx
      simp only [Kernel.performBody, Kernel.perform] at hx
      split at hx
      · next hnull =>
        cases hx
        obtain ⟨hpc, -, -, rfl⟩ := hat
        exact Faults.child _ _ hpc hnull
      · cases hx
    case copyState a p =>
      intro x hx
      simp only [Kernel.performBody, Kernel.perform] at hx
      split at hx
      · cases hx
      · next hmis =>
        cases hx
        obtain ⟨⟨c, hpc⟩, -⟩ := hat
        have harg : a = m.ssi.arg m.k := by
          simp only [Ssi.call, hpc, Call.copyState.injEq] at hcall
          exact hcall.1.symm
        exact Traps.template _ c hpc (harg ▸ hmis)
    all_goals exact .ok _

theorem target_cause (ht : m.target e ≠ none) (h : m.body e = .error x) : m.Cause e x := by
  obtain ⟨t, htarget⟩ := Option.ne_none_iff_exists'.mp ht
  obtain ⟨k, -, hb⟩ := body_terminates htarget
  have hterm : k.terminate t = .error x := by
    rcases hb with hb | hb
    · exact hb.symm.trans h
    · rcases bind_eq_error.mp (hb.symm.trans h) with hx | ⟨k₁, -, hx⟩
      · exact hx
      · cases hx
  rcases Kernel.terminate_error hterm with rfl | rfl
  · exact ht
  · exact ht

end Machine

end AmiKaya
