import AmiKaya.Clock
import AmiKaya.CpuTime
import AmiKaya.Creation
import AmiKaya.Rendezvous
import AmiKaya.SsiThread

/-! Whom the name of a thread stands for, in a message, in the request the SSI is at and in the
arrays of waiting threads, when TCBs are used again. -/
namespace AmiKaya
open Lts
open CpuLog (birth)

/-- The slot of `devTcb_array` in which WAITFORIO records the requester. -/
def Ssi.devSlot (s : Ssi) : Option Nat :=
  match s.pc with
  | .waitIo => s.deviceNum.filter fun d => s.devStatus d = devEmpty
  | _ => none

/-- The slot of `clockTcb_array` in which WAITFORCLOCK records the requester. -/
def Ssi.clockSlot (s : Ssi) (k : Kernel) : Option Nat :=
  if s.pc = .serve ∧ s.service k = waitForClock then
    (List.range (maxThreads - 1)).find? fun i => s.clockTcb i = null
  else none

/-- History: how often each TCB has been allocated and, as such numbers, who sent the message in
each buffer, the request the SSI is at, and the requests in the slots of its two arrays. -/
structure Origins where
  births : Ptr → Nat
  sent : Ptr → Nat
  request : Nat
  dev : Nat → Nat
  clock : Nat → Nat

namespace Origins

def start : Origins := ⟨fun _ => 0, fun _ => 0, 0, fun _ => 0, fun _ => 0⟩

/-- A message in this buffer has just been put in an inbox. -/
def Posted (m m' : Machine) (b : Ptr) : Prop :=
  ∃ p ∈ threadArray, ∃ x ∈ (m'.k.tcb p).tInbox, x ∉ (m.k.tcb p).tInbox ∧ x.addr = b

-- a search for the instances would go through all the words
instance (m m' : Machine) (b : Ptr) : Decidable (Posted m m' b) :=
  have (p : Ptr) : Decidable (∃ x ∈ (m'.k.tcb p).tInbox, x ∉ (m.k.tcb p).tInbox ∧ x.addr = b) :=
    List.decidableBEx _ _
  List.decidableBEx _ threadArray

/-- The SSI takes a request out of its inbox, or is handed one by the current thread. -/
def noteRequest (m : Machine) (e : Event) (m' : Machine) (h : Origins) : Nat :=
  match e with
  | .ssi _ =>
    if m.ssi.pc = .recv then
      match popMessage (m.k.tcb m.k.ssiTcb).tInbox anyMessage with
      | some (x, _) => h.sent x.addr
      | none => h.request
    else h.request
  | _ => if m.k.ssiTcb ∈ m.k.waitQueue ∧ m.k.ssiTcb ∉ m'.k.waitQueue
    then h.births m.k.currentThread else h.request

def fill (f : Nat → Nat) (slot : Option Nat) (v : Nat) : Nat → Nat :=
  match slot with
  | some i => put f i v
  | none => f

theorem fill_same {f : Nat → Nat} {i v : Nat} {slot : Option Nat} (h : slot = some i) :
    fill f slot v i = v := by
  rw [h]
  exact Links.put_same

theorem fill_ne {f : Nat → Nat} {i v : Nat} {slot : Option Nat} (h : slot ≠ some i) :
    fill f slot v i = f i := by
  cases slot with
  | none => rfl
  | some j => exact Links.put_ne fun he => h (he ▸ rfl)

def noteSlots (m : Machine) (e : Event) (h : Origins) : Origins :=
  match e with
  | .ssi _ =>
    { h with
      dev := fill h.dev m.ssi.devSlot h.request
      clock := fill h.clock (m.ssi.clockSlot m.k) h.request }
  | _ => h

def note (m : Machine) (e : Event) (m' : Machine) (h : Origins) : Origins :=
  { h.noteSlots m e with
    births := birth h.births (m.born e)
    sent := fun b => if Posted m m' b then h.births m.k.currentThread else h.sent b
    request := h.noteRequest m e m' }

end Origins

namespace Ssi

variable {s : Ssi} {k : Kernel} {r : U32}

theorem dispatch_pc (s : Ssi) (k : Kernel) :
    (s.dispatch k).pc ≠ .got ∧ (s.dispatch k).pc ≠ .init := by
  unfold dispatch recordClock
  dsimp only
  repeat' split
  all_goals simp

/-- Only MsgRecv leads to the point where its result is read. -/
theorem next_pc (hpc : s.pc ≠ .recv) : (s.next k r).pc ≠ .got ∨ s.pc = .got := by
  cases hs : s.pc <;> simp only [next, hs]
  case recv => exact absurd hs hpc
  case got => exact .inr trivial
  case serve => exact .inl (dispatch_pc s k).1
  case alloc c | noGood c => cases c <;> (repeat' split) <;> simp [Create.linkPc]
  case copyState c => cases c <;> exact .inl (by simp)
  all_goals
    left
    repeat' split
    all_goals simp_all

theorem next_reqThread (hpc : s.pc ≠ .got) : (s.next k r).reqThread = s.reqThread := by
  cases hs : s.pc <;> simp only [next, hs]
  case got => exact absurd hs hpc
  case serve => exact dispatch_reqThread s k
  case copyState c => cases c <;> rfl
  all_goals
    repeat' split
    all_goals rfl

theorem next_of_got (hpc : s.pc = .got) :
    (s.next k r).reqThread = (k.tcb k.ssiTcb).tState.regV0 := by
  simp only [next, hpc]
  repeat' split
  all_goals rfl

theorem devSlot_pc {i : Nat} (h : s.devSlot = some i) : s.pc = .waitIo := by
  unfold devSlot at h
  split at h
  · assumption
  · cases h

theorem clockSlot_pc {i : Nat} (h : s.clockSlot k = some i) : s.pc = .serve := by
  unfold clockSlot at h
  split at h
  · next hc => exact hc.1
  · cases h

/-- An entry is cleared, or stays, or is the requester that has just been recorded there. -/
theorem next_devTcb_slot (hpc : s.pc ≠ .init) (i : Nat) : (s.next k r).devTcb i = null ∨
    (s.next k r).devTcb i = if s.devSlot = some i then s.reqThread else s.devTcb i := by
  cases hs : s.pc <;> simp only [devSlot, hs]
  case init => exact absurd hs hpc
  case waitIo =>
    right
    simp only [next, hs]
    cases hn : s.deviceNum with
    | none => simp
    | some d =>
      by_cases he : s.devStatus d = devEmpty
      · have hf : (some d).filter (fun d => s.devStatus d = devEmpty) = some d := by simp [he]
        rw [hf]
        by_cases hd : i = d
        · simp [he, hd]
        · have hd' : d ≠ i := fun h => hd h.symm
          simp [he, hd, hd']
      · have hf : (some d).filter (fun d => s.devStatus d = devEmpty) = none := by simp [he]
        simp [hf, he]
  case interruptClear =>
    cases hn : s.deviceNum with
    | none => exact .inr (by simp [next, hs, hn])
    | some d =>
      by_cases hd : i = d
      · exact .inl (by simp [next, hs, hn, hd])
      · exact .inr (by simp [next, hs, hn, hd])
  case interrupt | waitIoClear =>
    right
    cases hn : s.deviceNum with
    | none => simp [next, hs, hn]
    | some d =>
      simp only [next, hs, hn, reduceCtorEq, if_false]
      repeat' split
      all_goals rfl
  all_goals
    right
    rw [(next_devices (s := s) (k := k) (r := r) (by rw [hs]; rfl)).2.1]
    simp

theorem next_clockTcb_slot (hpc : s.pc ≠ .init) (i : Nat) : (s.next k r).clockTcb i = null ∨
    (s.next k r).clockTcb i = if s.clockSlot k = some i then s.reqThread else s.clockTcb i := by
  by_cases hserve : s.pc = .serve
  · right
    simp only [next, hserve, (ClockLog.dispatch_rest s k).2.2, clockSlot, true_and]
    by_cases hw : s.service k = waitForClock
    · rw [if_pos hw, if_pos hw]
      unfold recordClock
      split
      · next hf => simp [hf]
      · next j hf =>
        rw [hf]
        by_cases hj : i = j
        · simp [hj]
        · have hj' : j ≠ i := fun h => hj h.symm
          simp [hj, hj']
    · simp [hw]
  · have hslot : s.clockSlot k = none := if_neg fun h => hserve h.1
    rw [hslot]
    cases hs : s.pc
    case init => exact absurd hs hpc
    case serve => exact absurd hs hserve
    case got =>
      right
      simp only [ClockLog.next_got hs, reduceCtorEq, if_false]
      repeat' split
      all_goals rfl
    case clock j =>
      right
      simp only [next, hs]
      split <;> simp
    case clockClear j =>
      by_cases hj : i = j
      · exact .inl (by simp [next, hs, hj])
      · exact .inr (by simp [next, hs, hj])
    all_goals
      right
      rw [(ClockLog.next_rest (s := s) (k := k) (r := r) (by rw [hs]; rfl) hpc (by simp [hs])
        hserve).2.2]
      simp

end Ssi

/-- A MsgRecv for any message waits, or returns the sender of the message it takes. -/
theorem Kernel.sysbpBody_received {k k' : Kernel} {old : State} (hs : old.isSend = false)
    (hr : old.isRecv = true) (ha : old.regA1 = anyMessage) (h : k.sysbpBody old = .ok k') :
    k.currentThread ∈ k'.waitQueue ∨
      ∃ x rest, popMessage (k.tcb k.currentThread).tInbox anyMessage = some (x, rest) ∧
        (k'.tcb k.currentThread).tState.regV0 = x.mSender := by
  have hq := sysbpEnter_quiet (k := k) old
  rw [sysbpBody_eq, hs, hr] at h
  simp only [Bool.false_eq_true, if_false, if_true] at h
  obtain ⟨⟨r, k₁⟩, h₁, h₂⟩ := bind_eq_ok.mp h
  cases h₂
  rw [hq.currentThread, ha] at h₁
  rcases recv_cases h₁ with ⟨-, -, rfl⟩ | ⟨x, rest, hpop, -, hx, rfl⟩
  · left
    simp [block, insertThread, setTcb]
  · rw [hq.tInbox] at hpop
    refine .inr ⟨x, rest, hpop, ?_⟩
    rw [if_pos rfl] at hx
    simp [hq.currentThread, setTcb, State.setV0, State.setReg, State.regV0, hx]

namespace Machine

/-- The thread the SSI takes for the sender of the request it is at. -/
def requester (m : Machine) : Option Ptr :=
  if m.k.ssiTcb ∈ m.k.readyQueue ∨ m.k.currentThread = m.k.ssiTcb then
    match m.ssi.pc with
    | .init | .recv => none
    | .got => some (m.k.tcb m.k.ssiTcb).tState.regV0
    | _ => some m.ssi.reqThread
  else none

/-- Where a thread is named, it is the one that has the TCB now, or had it last. -/
structure Identified (m : Machine) (h : Origins) : Prop where
  inbox : ∀ p ∈ threadArray, ∀ x ∈ (m.k.tcb p).tInbox, x.mSender ∈ threadArray →
    h.sent x.addr = h.births x.mSender
  request : ∀ p ∈ m.requester, p ∈ threadArray → h.request = h.births p
  dev : m.ssi.pc ≠ .init → ∀ i < 48, m.ssi.devTcb i ∈ threadArray →
    h.dev i = h.births (m.ssi.devTcb i)
  clock : m.ssi.pc ≠ .init → ∀ i < maxThreads - 1, m.ssi.clockTcb i ∈ threadArray →
    h.clock i = h.births (m.ssi.clockTcb i)

/-- Nothing is left of the thread that had the TCB which is allocated. -/
def Unclaimed (m : Machine) (e : Event) : Prop :=
  ∀ p ∈ m.born e, (∀ q ∈ threadArray, ∀ x ∈ (m.k.tcb q).tInbox, x.mSender ≠ p) ∧
    m.ssi.reqThread ≠ p ∧ (∀ i < 48, m.ssi.devTcb i ≠ p) ∧
    ∀ i < maxThreads - 1, m.ssi.clockTcb i ≠ p

instance (m : Machine) (e : Event) : Decidable (m.Unclaimed e) :=
  have (p : Ptr) : Decidable (∀ q ∈ threadArray, ∀ x ∈ (m.k.tcb q).tInbox, x.mSender ≠ p) :=
    List.decidableBAll _ threadArray
  Option.decidableForallMem _

variable {m m' : Machine} {e : Event} {p q : Ptr} {hist : Origins}

/-- A message that was not in the inbox before has been sent by the current thread, or its sender is
no TCB. -/
theorem inbox_sender (hw : m.Wf) (h : m.Step e m') (p : Ptr) : ∀ x ∈ (m'.k.tcb p).tInbox,
    x ∈ (m.k.tcb p).tInbox ∨ (x.mSender ∈ threadArray → x.mSender = m.k.currentThread) := by
  have hinv := (ops_of_step hw h).inv (I := fun k => k.ssiTcb = m.k.ssiTcb ∧
    ∀ x ∈ (k.tcb p).tInbox, x ∈ (m.k.tcb p).tInbox ∨
      (x.mSender ∈ threadArray → x.mSender = m.k.currentThread)) ?_ ⟨rfl, fun _ hx => .inl hx⟩
  · exact hinv.2
  · rintro k o k' hs ho ⟨hssi, hi⟩
    refine ⟨(Kernel.ssiTcb_step hs).trans hssi, fun x hx => ?_⟩
    rcases inbox_step hs p x hx with hx | ⟨s, v, r, rfl, hid⟩
    · exact hi x hx
    · right
      intro hm
      rw [hid] at hm ⊢
      unfold Kernel.senderId at hm ⊢
      split at hm
      · exact absurd hm magicSsi_notMem_threadArray
      · rw [if_neg ‹_›]
        rcases ho with ⟨rfl, -⟩ | ⟨hd, -⟩
        · rfl
        · exact absurd hm (deviceIds_notMem hd).1

/-- What stays in an inbox has not just been put there. -/
theorem not_posted {x : Msg} (hpool : m'.k.Pooled) (hp : p ∈ threadArray)
    (hx : x ∈ (m.k.tcb p).tInbox) (hx' : x ∈ (m'.k.tcb p).tInbox) :
    ¬ Origins.Posted m m' x.addr := by
  rintro ⟨q, hq, y, hy', hy, haddr⟩
  have hmem : x.addr ∈ m'.k.inboxBuffers p := List.mem_map_of_mem hx'
  have hqp : q = p := hpool.unique hp hq hmem (haddr ▸ List.mem_map_of_mem hy')
  subst hqp
  have hxy : y = x := List.inj_on_of_nodup_map (hpool.inbox_nodup hq) hy' hx' haddr
  exact hy (hxy ▸ hx)

/-- The SSI allocates a TCB. -/
theorem born_step (h : m.Step e m') (hp : m.born e = some p) : (∃ old, e = .ssi old) ∧
    ∃ c free, m.ssi.pc = .alloc c ∧ m.k.tcbFree = p :: free ∧ m.k.allocTcb = (p, m'.k) ∧
      m'.ssi = m.ssi.next m.k p := by
  cases e with
  | ssi old =>
    refine ⟨⟨old, rfl⟩, ?_⟩
    have hat := m.ssi.call_at m.k
    simp only [born] at hp
    obtain ⟨r, hperf, hssi⟩ := ssi_step h
    cases hcall : m.ssi.call m.k <;> rw [hcall] at hp hat hperf
    case allocTcb =>
      obtain ⟨c, hc⟩ := hat
      obtain ⟨free, hf⟩ := List.head?_eq_some_iff.mp hp
      have hal : m.k.allocTcb = (r, m'.k) := Except.ok.inj hperf
      have hr : r = p := by
        have hfst : m.k.allocTcb.1 = p := by simp [Kernel.allocTcb, hf]
        rw [← hfst, hal]
      exact ⟨c, free, hc, hf, hr ▸ hal, hr ▸ hssi⟩
    all_goals cases hp
  | sysbp | pgmtrap | tlb | interrupt | devices | store | edit => cases hp

theorem birth_of_ne {births : Ptr → Nat} {o : Option Ptr} (h : o ≠ some q) :
    birth births o q = births q := by
  cases o with
  | none => rfl
  | some p =>
    have hne : q ≠ p := fun he => h (he ▸ rfl)
    simp [birth, hne]

/-- What MsgRecv returns to the SSI, unless it has to wait. -/
theorem recv_sender {old : State} (hw : m.Wf) (h : m.Step (.ssi old) m') (hpc : m.ssi.pc = .recv)
    (hout : m'.k.ssiTcb ∉ m'.k.waitQueue) :
    ∃ x rest, popMessage (m.k.tcb m.k.ssiTcb).tInbox anyMessage = some (x, rest) ∧
      (m'.k.tcb m'.k.ssiTcb).tState.regV0 = x.mSender := by
  have hcur : m.k.currentThread = m.k.ssiTcb := h.1
  rw [(ops_of_step hw h).ssiTcb, ← hcur] at hout ⊢
  have hcall : m.ssi.call m.k = .msgRecv m.ssi.reqStruct := by simp [Ssi.call, hpc]
  obtain ⟨k, hb, ⟨-, hk⟩ | ⟨hs, -⟩⟩ := step_body h
  · have hplaced := hw.placed.ops (body_ops hw h.1 hb)
    rw [(Kernel.scheduler_scheduled hplaced hk).waitQueue] at hout
    simp only [body, hcall, Kernel.performBody] at hb
    rcases Kernel.sysbpBody_received (old.syscall_isRecv _ _).1 (old.syscall_isRecv _ _).2
      (old.syscall_regs _ _ _).2.1 hb with hwait | ⟨x, rest, hpop, hv⟩
    · exact absurd hwait hout
    · refine ⟨x, rest, hpop, ?_⟩
      have hn : m.k.currentThread ≠ magicSsi := current_ne_notWaiting hw
      rw [(Spares.scheduler (c := magicSsi) hk).1.tState _ hn hout, hv]
  · simp [schedules, hcall] at hs

/-- The result of MsgRecv waits in the saved state of the SSI until the SSI reads it. -/
theorem got_kept (hw : m.Wf) (hi : m.Apart) (h : m.Step e m') (he : ∀ old, e ≠ .ssi old)
    (hpc : m.ssi.pc = .got)
    (hin : m.k.ssiTcb ∈ m.k.readyQueue ∨ m.k.currentThread = m.k.ssiTcb)
    (hf : m.k.ssiTcb ∉ m'.k.tcbFree) :
    (m'.k.tcb m.k.ssiTcb).tState.regV0 = (m.k.tcb m.k.ssiTcb).tState.regV0 := by
  rcases hin with hr | hcur
  · have hedit : edits m.k.ssiTcb e = false := by
      cases e with
      | edit p s => exact decide_eq_false h.1.2.2
      | sysbp | pgmtrap | tlb | interrupt | ssi | devices | store => rfl
    have hnw := (hw.placed.ready_notMem hr).1
    rw [(step_spares h).tState _ (ready_ne_writes hw hr hedit) hnw]
  · cases e with
    | ssi old => exact absurd rfl (he old)
    | sysbp | store => exact absurd hcur h.1.2
    | edit => exact absurd hcur h.1.2.1
    | pgmtrap | tlb => exact absurd (hi.trap_frees hw h rfl hcur) hf
    | interrupt old =>
      have hstate := (interrupt_state hw h (hcur ▸ hw.ssi_ne_null)).2
      rw [hcur] at hstate
      rw [hstate, h.1 hcur hpc]
    | devices bus =>
      cases h.2
      rfl

theorem mem_requester : q ∈ m.requester ↔
    (m.k.ssiTcb ∈ m.k.readyQueue ∨ m.k.currentThread = m.k.ssiTcb) ∧
    (m.ssi.pc = .got ∧ q = (m.k.tcb m.k.ssiTcb).tState.regV0 ∨
      m.ssi.pc ≠ .got ∧ m.ssi.pc ≠ .init ∧ m.ssi.pc ≠ .recv ∧ q = m.ssi.reqThread) := by
  unfold requester
  by_cases hin : m.k.ssiTcb ∈ m.k.readyQueue ∨ m.k.currentThread = m.k.ssiTcb
  · rw [if_pos hin]
    cases hpc : m.ssi.pc <;> simp [hin, eq_comm]
  · rw [if_neg hin]
    simp [hin]

theorem noteRequest_of_not_ssi (he : ∀ old, e ≠ .ssi old) : hist.noteRequest m e m' =
    if m.k.ssiTcb ∈ m.k.waitQueue ∧ m.k.ssiTcb ∉ m'.k.waitQueue
      then hist.births m.k.currentThread else hist.request := by
  cases e with
  | ssi old => exact absurd rfl (he old)
  | sysbp | pgmtrap | tlb | interrupt | devices | store | edit => rfl

/-- The SSI is woken by a message of the current thread, or of a device. -/
theorem woken_sender (hw : m.Wf) (hi : m.Apart) (h : m.Step e m') (he : ∀ old, e ≠ .ssi old)
    (hwait : m.k.ssiTcb ∈ m.k.waitQueue) (hout : m.k.ssiTcb ∉ m'.k.waitQueue)
    (hf : m.k.ssiTcb ∉ m'.k.tcbFree)
    (hv : (m'.k.tcb m.k.ssiTcb).tState.regV0 ∈ threadArray) :
    (m'.k.tcb m.k.ssiTcb).tState.regV0 = m.k.currentThread := by
  have hany := (hi.waits hwait).2
  have hne : m.k.ssiTcb ≠ m.k.currentThread := fun hc => (hw.placed.wait_notMem hwait).2.2 hc.symm
  by_cases hidle : m.k.currentThread = null
  · have hr := idle_roused (c := busIntervalTimer) hw h hidle (by decide)
    have hssi : m.k.ssiTcb ≠ busIntervalTimer := fun hc =>
      (deviceIds_notMem List.mem_cons_self).1 (hc ▸ hw.ssi)
    have hname : (m.k.tcb m.k.ssiTcb).waitingFor ≠ busIntervalTimer := by
      rw [hany]
      decide
    have hv' := hr.sender _ hwait hssi hout hf hname hv
    rw [hv'] at hv
    exact absurd hv (deviceIds_notMem List.mem_cons_self).1
  · have hr := step_roused hw h he
    cases e with
    | ssi old => exact absurd rfl (he old)
    | edit p s =>
      cases h.2
      exact absurd hwait hout
    | sysbp | pgmtrap | tlb | interrupt | devices | store =>
      exact hr.sender _ hwait hne hout hf (by rw [hany]; exact Ne.symm hidle) hv

/-- A step that is none of the SSI leaves it with its request, or wakes it for one of the current
thread. -/
theorem requester_other (hw : m.Wf) (hi : m.Apart) (h : m.Step e m') (he : ∀ old, e ≠ .ssi old)
    (hq : q ∈ m'.requester) (hmem : q ∈ threadArray) :
    (¬ (m.k.ssiTcb ∈ m.k.waitQueue ∧ m.k.ssiTcb ∉ m'.k.waitQueue) ∧ q ∈ m.requester) ∨
      (m.k.ssiTcb ∈ m.k.waitQueue ∧ m.k.ssiTcb ∉ m'.k.waitQueue) ∧ m.k.ssiTcb ∉ m'.k.tcbFree ∧
        q = (m'.k.tcb m.k.ssiTcb).tState.regV0 ∧ q = m.k.currentThread := by
  have hw' := hw.step h
  have hssi := ssi_other h he
  have htcb : m'.k.ssiTcb = m.k.ssiTcb := (ops_of_step hw h).ssiTcb
  obtain ⟨hin', hq⟩ := mem_requester.mp hq
  rw [htcb, hssi] at hq
  rw [htcb] at hin'
  have hout : m.k.ssiTcb ∉ m'.k.waitQueue ∧ m.k.ssiTcb ∉ m'.k.tcbFree := by
    rcases hin' with hr | hc
    · have hn := hw'.placed.ready_notMem hr
      exact ⟨hn.1, hn.2.1⟩
    · have hn := hw'.placed.current_notMem (hc ▸ hw.ssi_ne_null)
      rw [hc] at hn
      exact ⟨hn.2.1, hn.2.2⟩
  by_cases hwait : m.k.ssiTcb ∈ m.k.waitQueue
  · rcases hq with ⟨-, rfl⟩ | ⟨hpc, -⟩
    · exact .inr ⟨⟨hwait, hout.1⟩, hout.2, rfl, woken_sender hw hi h he hwait hout.1 hout.2 hmem⟩
    · exact absurd (hi.waits hwait).1 hpc
  · refine .inl ⟨fun hc => hwait hc.1, ?_⟩
    have hin : m.k.ssiTcb ∈ m.k.readyQueue ∨ m.k.currentThread = m.k.ssiTcb := by
      have hsame := samePlaces_of_step hw h (entry_of_not_ssi he).1 (entry_of_not_ssi he).2
      have hplace : m.k.ssiTcb ∈ m'.k.places := by
        rcases hin' with hr | hc
        · exact Kernel.mem_places.mpr (.inl hr)
        · exact Kernel.mem_places.mpr (.inr (.inr (.inr ⟨hc.symm, hc ▸ hw.ssi_ne_null⟩)))
      rcases Kernel.mem_places.mp (hsame.mem_iff.mp hplace) with hr | hm | hfree | ⟨hc, -⟩
      · exact .inl hr
      · exact absurd hm hwait
      · exact absurd ((step_roused hw h he).tcbFree hfree) hout.2
      · exact .inr hc.symm
    refine mem_requester.mpr ⟨hin, ?_⟩
    rcases hq with ⟨hpc, rfl⟩ | hq
    · exact .inl ⟨hpc, got_kept hw hi h he hpc hin hout.2⟩
    · exact .inr hq

/-- A call of the SSI takes up the next message, or leaves it with its request. -/
theorem requester_ssi {old : State} (hw : m.Wf) (h : m.Step (.ssi old) m') (hq : q ∈ m'.requester) :
    (m.ssi.pc = .recv ∧ ∃ x rest, popMessage (m.k.tcb m.k.ssiTcb).tInbox anyMessage = some (x, rest) ∧
      q = x.mSender) ∨ m.ssi.pc ≠ .recv ∧ q ∈ m.requester := by
  have hcur : m.k.currentThread = m.k.ssiTcb := h.1
  have hw' := hw.step h
  obtain ⟨hin', hq⟩ := mem_requester.mp hq
  obtain ⟨r, -, hssi⟩ := ssi_step h
  by_cases hrecv : m.ssi.pc = .recv
  · have hpc : m'.ssi.pc = .got := by simp [hssi, Ssi.next, hrecv]
    rcases hq with ⟨-, rfl⟩ | ⟨hne, -⟩
    · have hout : m'.k.ssiTcb ∉ m'.k.waitQueue := by
        rcases hin' with hr | hc
        · exact (hw'.placed.ready_notMem hr).1
        · exact hc ▸ (hw'.placed.current_notMem (hc ▸ hw'.ssi_ne_null)).2.1
      exact .inl ⟨hrecv, recv_sender hw h hrecv hout⟩
    · exact absurd hpc hne
  · refine .inr ⟨hrecv, mem_requester.mpr ⟨.inr hcur, ?_⟩⟩
    by_cases hgot : m.ssi.pc = .got
    · have hpc : m'.ssi.pc ≠ .got := by
        rw [hssi, ClockLog.next_got hgot]
        dsimp only
        repeat' split
        all_goals simp
      rcases hq with ⟨hpc', -⟩ | ⟨-, -, -, rfl⟩
      · exact absurd hpc' hpc
      · exact .inl ⟨hgot, by rw [hssi, Ssi.next_of_got hgot]⟩
    · rcases hq with ⟨hpc, -⟩ | ⟨-, -, hr, rfl⟩
      · rw [hssi] at hpc
        exact absurd hpc ((Ssi.next_pc hrecv).resolve_right hgot)
      · refine .inr ⟨hgot, ?_, hrecv, by rw [hssi, Ssi.next_reqThread hgot]⟩
        intro hinit
        exact hr (by simp [hssi, Ssi.next, hinit])

/-- The stamp of the request goes with it. -/
theorem request_kept (hw : m.Wf) (hi : m.Apart) (hid : m.Identified hist) (h : m.Step e m')
    (hq : q ∈ m'.requester) (hmem : q ∈ threadArray) :
    hist.noteRequest m e m' = hist.births q := by
  by_cases he : ∀ old, e ≠ .ssi old
  · rw [noteRequest_of_not_ssi he]
    rcases requester_other hw hi h he hq hmem with ⟨hnot, hq⟩ | ⟨hwoken, -, -, rfl⟩
    · rw [if_neg hnot]
      exact hid.request q hq hmem
    · rw [if_pos hwoken]
  · obtain ⟨old, rfl⟩ : ∃ old, e = .ssi old := by simpa using he
    simp only [Origins.noteRequest]
    rcases requester_ssi hw h hq with ⟨hrecv, x, rest, hpop, rfl⟩ | ⟨hrecv, hq⟩
    · simp only [hrecv, if_true, hpop]
      obtain ⟨pre, post, hq, -⟩ := popMessage_some hpop
      exact hid.inbox _ hw.ssi x (by simp [hq]) hmem
    · rw [if_neg hrecv]
      exact hid.request q hq hmem

/-! A TCB is allocated. -/

theorem born_mem (hw : m.Wf) (h : m.Step e m') (hp : m.born e = some p) : p ∈ threadArray := by
  obtain ⟨-, -, free, -, hfree, -⟩ := born_step h hp
  exact hw.placed.sub _ (Kernel.mem_places.mpr (.inr (.inr (.inl (hfree ▸ List.mem_cons_self)))))

/-- The inboxes stay, and the SSI goes on with the request it is at. -/
theorem born_frame (hw : m.Wf) (hpool : m.k.Pooled) (h : m.Step e m') (hp : m.born e = some p) :
    (∀ q, (m'.k.tcb q).tInbox = (m.k.tcb q).tInbox) ∧ m'.ssi.devTcb = m.ssi.devTcb ∧
      m'.ssi.clockTcb = m.ssi.clockTcb ∧ ∀ q, q ∈ m'.requester ↔ q = m.ssi.reqThread := by
  have hmem := born_mem hw h hp
  obtain ⟨⟨old, rfl⟩, c, free, hpc, hfree, hal, hssi⟩ := born_step h hp
  have hk : m'.k = m.k.allocTcb.2 := by rw [hal]
  simp only [Kernel.allocTcb, hfree] at hk
  have hempty : (m.k.tcb p).tInbox = [] := by
    refine hpool.idle p hmem fun hl => ?_
    exact hl.notMem_free hw.placed (hfree ▸ List.mem_cons_self)
  have hn : p ≠ null := fun he => null_notMem_threadArray (he ▸ hmem)
  have hnext : m'.ssi = { m.ssi with newThread := p, pc := Create.linkPc c } := by
    simp [hssi, Ssi.next, hpc, hn]
  refine ⟨fun q => ?_, by rw [hnext], by rw [hnext], fun q => ?_⟩
  · rw [hk]
    by_cases hq : q = p
    · subst hq
      simp [Kernel.setTcb, Kernel.freshTcb, hempty]
    · simp [Kernel.setTcb, hq]
  · have hcur : m'.k.currentThread = m'.k.ssiTcb := by
      rw [hk]
      exact h.1
    rw [mem_requester, hnext]
    cases c <;> simp [Create.linkPc, hcur]

theorem birth_self {births : Ptr → Nat} : birth births (some p) p = births p + 1 := by
  simp [birth]

/-- What still names the old thread keeps the stamp of it. -/
theorem Identified.unclaimed (hw : m.Wf) (hpool : m.k.Pooled) (hi : m.Apart)
    (hid : m.Identified hist) (h : m.Step e m') (hid' : m'.Identified (hist.note m e m')) :
    m.Unclaimed e := by
  intro p hp
  have hmem := born_mem hw h hp
  obtain ⟨hinbox, hdev, hclock, hreq⟩ := born_frame hw hpool h hp
  have hbirth : (hist.note m e m').births p = hist.births p + 1 := by
    simp only [Origins.note]
    rw [hp, birth_self]
  have hold : ∀ {n}, n = hist.births p → n ≠ (hist.note m e m').births p := by
    intro n hn
    rw [hbirth, hn]
    exact (Nat.lt_succ_self _).ne
  obtain ⟨⟨old, rfl⟩, c, -, hpc, -⟩ := born_step h hp
  have hinit : m.ssi.pc ≠ .init ∧ m'.ssi.pc ≠ .init := by
    refine ⟨by simp [hpc], ?_⟩
    have hq := (mem_requester.mp ((hreq m.ssi.reqThread).mpr rfl)).2
    intro hi'
    simp [hi'] at hq
  have hslots : m.ssi.devSlot = none ∧ m.ssi.clockSlot m.k = none := by
    simp [Ssi.devSlot, Ssi.clockSlot, hpc]
  refine ⟨?_, ?_, ?_, ?_⟩
  · rintro q hq x hx rfl
    have hx' : x ∈ (m'.k.tcb q).tInbox := by rwa [hinbox]
    have hnot : ¬ Origins.Posted m m' x.addr := by
      rintro ⟨r, -, y, hy', hy, -⟩
      exact hy (hinbox r ▸ hy')
    have hsent : (hist.note m (.ssi old) m').sent x.addr = hist.sent x.addr := by
      simp only [Origins.note, if_neg hnot]
    exact hold (hid.inbox q hq x hx hmem) (hsent.symm.trans (hid'.inbox q hq x hx' hmem))
  · rintro rfl
    have hq := (hreq _).mpr rfl
    exact hold (request_kept hw hi hid h hq hmem) (hid'.request _ hq hmem)
  · rintro i hlt rfl
    have hd := hid'.dev hinit.2 i hlt (by rwa [hdev])
    rw [hdev] at hd
    simp only [Origins.note, Origins.noteSlots, hslots.1, Origins.fill] at hd
    exact hold (hid.dev hinit.1 i hlt hmem) hd
  · rintro i hlt rfl
    have hd := hid'.clock hinit.2 i hlt (by rwa [hclock])
    rw [hclock] at hd
    simp only [Origins.note, Origins.noteSlots, hslots.2, Origins.fill] at hd
    exact hold (hid.clock hinit.1 i hlt hmem) hd

theorem born_of_not_ssi (he : ∀ old, e ≠ .ssi old) : m.born e = none := by
  cases e with
  | ssi old => exact absurd rfl (he old)
  | sysbp | pgmtrap | tlb | interrupt | devices | store | edit => rfl

theorem born_none (h : m.Step e m') (hpc : ∀ c, m.ssi.pc ≠ .alloc c) : m.born e = none := by
  rw [Option.eq_none_iff_forall_ne_some]
  intro p hp
  obtain ⟨-, c, -, hc, -⟩ := born_step h hp
  exact hpc c hc

theorem noteSlots_of_not_ssi (he : ∀ old, e ≠ .ssi old) : hist.noteSlots m e = hist := by
  cases e with
  | ssi old => exact absurd rfl (he old)
  | sysbp | pgmtrap | tlb | interrupt | devices | store | edit => rfl

/-- A slot of either array holds a stamp of the thread it names. -/
theorem slot_step {old : State} {slot : Option Nat} {f : Nat → Nat} {a a' : Nat → Ptr} {i : Nat}
    (hid : m.Identified hist) (hcur : m.k.currentThread = m.k.ssiTcb)
    (hserving : slot = some i → m.ssi.pc ≠ .got ∧ m.ssi.pc ≠ .init ∧ m.ssi.pc ≠ .recv)
    (hborn : slot = some i → m.born (.ssi old) = none)
    (hnot : m.born (.ssi old) ≠ some (a i))
    (hf : a i ∈ threadArray → f i = hist.births (a i))
    (ha : a' i = null ∨ a' i = if slot = some i then m.ssi.reqThread else a i)
    (hmem : a' i ∈ threadArray) :
    Origins.fill f slot hist.request i = birth hist.births (m.born (.ssi old)) (a' i) := by
  rcases ha with ha | ha
  · rw [ha] at hmem
    exact absurd hmem null_notMem_threadArray
  · by_cases hs : slot = some i
    · rw [if_pos hs] at ha
      rw [ha] at hmem ⊢
      obtain ⟨hgot, hinit, hrecv⟩ := hserving hs
      have hq := mem_requester.mpr ⟨.inr hcur, .inr ⟨hgot, hinit, hrecv, rfl⟩⟩
      rw [hborn hs, Origins.fill_same hs]
      exact hid.request _ hq hmem
    · rw [if_neg hs] at ha
      rw [ha] at hmem ⊢
      rw [birth_of_ne hnot, ← hf hmem]
      exact Origins.fill_ne hs

/-- A name stays with the thread it was written for, if nothing names the TCB that is allocated. -/
theorem Identified.step (hw : m.Wf) (hpool : m.k.Pooled) (hpool' : m'.k.Pooled) (hi : m.Apart)
    (hid : m.Identified hist) (h : m.Step e m') (hun : m.Unclaimed e) :
    m'.Identified (hist.note m e m') := by
  have hcurrent : m.born e ≠ some m.k.currentThread := by
    intro hp
    obtain ⟨⟨old, rfl⟩, -, free, -, hfree, -⟩ := born_step h hp
    have hcur : m.k.currentThread = m.k.ssiTcb := h.1
    rw [hcur] at hfree
    exact (ssi_notMem hw h.1).2.2 (hfree ▸ List.mem_cons_self)
  refine ⟨?_, ?_, ?_, ?_⟩
  · intro p hp x hx hmem
    simp only [Origins.note]
    by_cases hposted : Origins.Posted m m' x.addr
    · rw [if_pos hposted]
      have hnew : x ∉ (m.k.tcb p).tInbox := fun hold => not_posted hpool' hp hold hx hposted
      have hsender := ((inbox_sender hw h p x hx).resolve_left hnew) hmem
      rw [hsender, birth_of_ne hcurrent]
    · rw [if_neg hposted]
      have hold : x ∈ (m.k.tcb p).tInbox := by
        by_contra hnew
        exact hposted ⟨p, hp, x, hx, hnew, rfl⟩
      have hnot : m.born e ≠ some x.mSender := fun he => (hun _ he).1 p hp x hold rfl
      rw [birth_of_ne hnot]
      exact hid.inbox p hp x hold hmem
  · intro q hq hmem
    have hnot : m.born e ≠ some q := by
      intro hp
      exact (hun q hp).2.1 (((born_frame hw hpool h hp).2.2.2 q).mp hq).symm
    simp only [Origins.note]
    rw [birth_of_ne hnot]
    exact request_kept hw hi hid h hq hmem
  · intro hpc i hlt hmem
    rcases step_cases h with ⟨hssi, he⟩ | ⟨old, r, rfl, hcur, -, hssi⟩
    · rw [hssi] at hpc hmem ⊢
      simp only [Origins.note]
      rw [noteSlots_of_not_ssi he, born_of_not_ssi he]
      exact hid.dev hpc i hlt hmem
    · by_cases hinit : m.ssi.pc = .init
      · exact absurd (by simpa [hssi, Ssi.next, hinit, Ssi.initArrays] using hmem)
          null_notMem_threadArray
      · exact slot_step hid hcur (fun hs => by simp [Ssi.devSlot_pc hs])
          (fun hs => born_none h fun c => by simp [Ssi.devSlot_pc hs])
          (fun hp => (hun _ hp).2.2.1 i hlt rfl) (hid.dev hinit i hlt)
          (hssi ▸ Ssi.next_devTcb_slot hinit i) hmem
  · intro hpc i hlt hmem
    rcases step_cases h with ⟨hssi, he⟩ | ⟨old, r, rfl, hcur, -, hssi⟩
    · rw [hssi] at hpc hmem ⊢
      simp only [Origins.note]
      rw [noteSlots_of_not_ssi he, born_of_not_ssi he]
      exact hid.clock hpc i hlt hmem
    · by_cases hinit : m.ssi.pc = .init
      · exact absurd (by simpa [hssi, Ssi.next, hinit, Ssi.initArrays] using hmem)
          null_notMem_threadArray
      · exact slot_step hid hcur (fun hs => by simp [Ssi.clockSlot_pc hs])
          (fun hs => born_none h fun c => by simp [Ssi.clockSlot_pc hs])
          (fun hp => (hun _ hp).2.2.2 i hlt rfl) (hid.clock hinit i hlt)
          (hssi ▸ Ssi.next_clockTcb_slot hinit i) hmem

theorem unclaimed_of_pc (h : m.Step e m') (hpc : ∀ c, m.ssi.pc ≠ .alloc c) : m.Unclaimed e := by
  intro p hp
  rw [born_none h hpc] at hp
  cases hp

/-- While all buffers are free, no message names anybody. -/
theorem inbox_nil (hpool : m.k.Pooled) (hfree : m.k.msgFree.length = msgArray.length)
    (hp : p ∈ threadArray) : (m.k.tcb p).tInbox = [] := by
  have hlen := hpool.perm.length_eq
  rw [Kernel.buffers, List.length_append, hfree] at hlen
  have hnil : threadArray.flatMap m.k.inboxBuffers = [] := by
    rw [← List.length_eq_zero_iff]
    omega
  exact List.map_eq_nil_iff.mp (List.flatMap_eq_nil_iff.mp hnil p hp)

def allocates (m : Machine) : Bool :=
  match m.ssi.pc with
  | .alloc _ => true
  | _ => false

theorem unclaimed_of_run {es : List Event} {s : Machine}
    (h : exec (guarded (fun m _ _ => m.allocates = false) Stop.fault fire) m es = .ok s) :
    Run (fun m e m' => m.Step e m' ∧ m.Unclaimed e) m es s := by
  refine (run_of_exec h).mono ?_
  intro m e m' hs
  obtain ⟨hf, ha⟩ := of_guarded hs
  refine ⟨step_of_fire hf, unclaimed_of_pc (step_of_fire hf) ?_⟩
  intro c hc
  simp [allocates, hc] at ha

/-- The test thread asks for a son, and the SSI is about to allocate the TCB. -/
def askedSon : List Event := Event.ssiCalls 2 ++ Event.ssiRequest createSon 0 ++ Event.ssiCalls 4

/-- In a run names are never passed on to a later thread, exactly when nothing is left of the thread
that had a TCB before, whenever the SSI allocates one. -/
theorem identified_iff {es : List Event} {s : Machine × Origins} (h : m.Initial) :
    Run (fun s e t => withHistory Step Origins.note s e t ∧ t.1.Identified t.2)
      (m, Origins.start) es s ↔
    Run (fun s e t => withHistory Step Origins.note s e t ∧ s.1.Unclaimed e)
      (m, Origins.start) es s := by
  obtain ⟨k, hp, hm⟩ := h.boot
  refine Run.keeps_iff (I := fun s : Machine × Origins => s.1.Identified s.2)
    (J := fun s => s.1.Wf ∧ s.1.k.Pooled ∧ s.1.Apart) (P := fun s e _ => s.1.Unclaimed e) ?_ ?_
    ⟨initial_wf h, (Kernel.main_booted hp hm).pooled, initial_apart h⟩
    ⟨fun _ _ _ _ _ => rfl, fun _ _ _ => rfl, fun _ _ _ _ => rfl, fun _ _ _ _ => rfl⟩
  · rintro ⟨m, hist⟩ e ⟨m', hist'⟩ ⟨hs, -⟩ ⟨hw, hpool, hi⟩
    exact ⟨hw.step hs, Kernel.keeps_pooled.step hw hs hpool, hi.step hw hs⟩
  · rintro ⟨m, hist⟩ e ⟨m', hist'⟩ ⟨hs, he⟩ ⟨hw, hpool, hi⟩ hid
    dsimp only at hs he hw hpool hi hid ⊢
    subst he
    exact ⟨hid.unclaimed hw hpool hi hs,
      hid.step hw hpool (Kernel.keeps_pooled.step hw hs hpool) hi hs⟩

theorem identified_iff_son : ∃ m m' : Machine, ∃ hist,
    Run (fun s e t => withHistory Step Origins.note s e t ∧ t.1.Identified t.2) (m, Origins.start)
      (askedSon ++ ([.ssi initTState] ++ Event.ssiCalls 7)) (m', hist) ∧
      m'.k.Live thirdThreadAddr := by
  have hrun : passes (fun m => passes (fun (m₁ : Machine) =>
      decide (m₁.born (.ssi initTState) = some thirdThreadAddr) &&
      decide (m₁.k.msgFree.length = msgArray.length) &&
      decide (m₁.ssi.reqThread ≠ thirdThreadAddr) &&
      decide (∀ i : Nat, i < 48 → m₁.ssi.devTcb i ≠ thirdThreadAddr) &&
      decide (∀ i < maxThreads - 1, m₁.ssi.clockTcb i ≠ thirdThreadAddr) &&
      passes (fun m₂ => passes (fun m' => m'.k.Live thirdThreadAddr)
        (exec (guarded (fun m _ _ => m.allocates = false) Stop.fault fire) m₂ (Event.ssiCalls 7)))
        (fire m₁ (.ssi initTState)))
      (exec (guarded (fun m _ _ => m.allocates = false) Stop.fault fire) m askedSon))
      (start .zeroed) = true := by
    decide +kernel
  obtain ⟨m, hm, hrun⟩ := exists_of_passes hrun
  obtain ⟨m₁, hs₁, hrun⟩ := exists_of_passes hrun
  simp only [Bool.and_eq_true, decide_eq_true_eq] at hrun
  obtain ⟨⟨⟨⟨⟨hborn, hfree⟩, hreq⟩, hdev⟩, hclock⟩, hrun⟩ := hrun
  obtain ⟨m₂, hf, hrun⟩ := exists_of_passes hrun
  obtain ⟨m', hs₂, hlive⟩ := exists_of_passes hrun
  have hinit := initial_of_start Kernel.zeroed_powerOn hm
  have hr₁ := unclaimed_of_run hs₁
  have hpool := pooled_of_run hinit (hr₁.mono fun _ _ _ h => h.1)
  have hun : m₁.Unclaimed (.ssi initTState) := by
    intro p hp
    rw [hborn] at hp
    cases hp
    refine ⟨?_, hreq, hdev, hclock⟩
    intro q hq x hx
    rw [inbox_nil hpool hfree hq] at hx
    cases hx
  have hr := hr₁.append ((Run.single ⟨step_of_fire hf, hun⟩).append (unclaimed_of_run hs₂))
  obtain ⟨hist, hr⟩ := hr.exists_history Origins.note Origins.start
  refine ⟨m, m', hist, (identified_iff hinit).mpr ?_, of_decide_eq_true hlive⟩
  exact hr.mono fun _ _ _ h => ⟨⟨h.1.1, h.2⟩, h.1.2⟩

/-- All TCBs are in use. The test thread asks for one more son; before the SSI gets to run, the
first son queues TERMINATE behind that request and traps. Its TCB is the free one that goes to the
new son. -/
def leftoverTrace : List Event :=
  Event.ssiCalls 2 ++ (List.replicate 18 oneSon).flatten ++
    [.call sysSend thirdThreadAddr 0, .store 0x20030000 createSon,
      .call sysSend magicSsi 0x20030000, .call sysRecv magicSsi 0x20030100,
      .store 0x20030010 terminateService, .call sysSend magicSsi 0x20030010,
      .pgmtrap initTState] ++ Event.ssiCalls 4

theorem identified_fails : ¬ ∀ (m m' : Machine) (es : List Event) hist, m.Initial →
    Run (withHistory Step Origins.note) (m, Origins.start) es (m', hist) → m'.Identified hist := by
  intro hall
  have hrun : passes (fun m => passes (fun (m₁ : Machine) =>
      decide (m₁.born (.ssi initTState) = some thirdThreadAddr) &&
      ((m₁.k.tcb m₁.k.ssiTcb).tInbox.any fun x => x.mSender = thirdThreadAddr) &&
      passes (fun _ => true) (fire m₁ (.ssi initTState)))
      (exec fire m leftoverTrace)) (start .zeroed) = true := by
    decide +kernel
  obtain ⟨m, hm, hrun⟩ := exists_of_passes hrun
  obtain ⟨m₁, hs, hrun⟩ := exists_of_passes hrun
  rw [Bool.and_eq_true_iff, Bool.and_eq_true_iff] at hrun
  obtain ⟨⟨hborn, hany⟩, hrun⟩ := hrun
  obtain ⟨x, hx, hsender⟩ := List.any_eq_true.mp hany
  obtain ⟨m₂, hf, -⟩ := exists_of_passes hrun
  have hinit := initial_of_start Kernel.zeroed_powerOn hm
  have hr : Run Step m leftoverTrace m₁ := (run_of_exec hs).mono fun _ _ _ => step_of_fire
  have hstep := step_of_fire hf
  have hpool := pooled_of_run hinit hr
  have hi : m₁.Wf ∧ m₁.Apart := hr.inv (I := fun m => m.Wf ∧ m.Apart)
    (fun _ _ _ hs hi => ⟨hi.1.step hs, hi.2.step hi.1 hs⟩) ⟨initial_wf hinit, initial_apart hinit⟩
  obtain ⟨hist, hr⟩ := hr.exists_history Origins.note Origins.start
  have hid := hall m m₁ _ hist hinit hr
  have hid' := hall m m₂ _ _ hinit
    (hr.append (.single (e := .ssi initTState) (t := (m₂, hist.note m₁ _ m₂)) ⟨hstep, rfl⟩))
  have hun := hid.unclaimed hi.1 hpool hi.2 hstep hid'
  exact (hun thirdThreadAddr (of_decide_eq_true hborn)).1 _ hi.1.ssi x hx (of_decide_eq_true hsender)

end Machine

end AmiKaya
