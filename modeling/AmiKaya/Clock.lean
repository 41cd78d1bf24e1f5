import AmiKaya.SoftBlock
import AmiKaya.Invariants
import AmiKaya.Slots

/-! The threads that wait for the pseudo clock. The array of the SSI is a queue that every tick
empties. -/
namespace AmiKaya
open Lts Slots

/-- In the loop that wakes the clock waiters. -/
def SsiPc.ticking : SsiPc → Bool
  | .clock _ | .clockClear _ => true
  | _ => false

/-- History: the requests accepted, the wake-ups sent, and how many requests had been accepted at
the last tick. -/
structure ClockLog where
  accepted : List Ptr
  answered : List Ptr
  due : Nat

namespace ClockLog

def empty : ClockLog := ⟨[], [], 0⟩

def note (m : Machine) (e : Event) (_ : Machine) (log : ClockLog) : ClockLog :=
  match e with
  | .ssi _ => match m.ssi.pc with
    | .got =>
      if m.ssi.service m.k = pseudoClockMsg then { log with due := log.accepted.length } else log
    | .clock _ => match m.ssi.call m.k with
      | .msgSend dest _ => { log with answered := log.answered ++ [dest] }
      | _ => log
    | .serve =>
      if m.ssi.service m.k = waitForClock
      then { log with accepted := log.accepted ++ [m.ssi.reqThread] } else log
    | _ => log
  | _ => log

end ClockLog

/-- The waiters recorded from slot `i` on. -/
abbrev Ssi.Waiters (s : Ssi) (i : Nat) (w : List Ptr) : Prop :=
  Queue (maxThreads - 1) null s.clockTcb i w

/-- The array against the history. In the loop one more waiter has been answered than slots have
been cleared while a slot is about to be cleared. -/
def ClockLog.Sound (s : Ssi) (log : ClockLog) : Prop :=
  match s.pc with
  | .init => log = .empty
  | .clock i => ∃ w, s.Waiters i w ∧ log.accepted = log.answered ++ w ∧
      log.due = log.accepted.length
  | .clockClear i => ∃ t w, s.Waiters i (t :: w) ∧ log.accepted = log.answered ++ w ∧
      log.due = log.accepted.length
  | _ => ∃ w, s.Waiters 0 w ∧ log.accepted = log.answered ++ w ∧ log.due = log.answered.length

namespace ClockLog

variable {s : Ssi} {k : Kernel} {r : U32} {log : ClockLog} {m m' : Machine} {e : Event}

theorem sound_rest (ht : s.pc.ticking = false) (hi : s.pc ≠ .init) : log.Sound s ↔
    ∃ w, s.Waiters 0 w ∧ log.accepted = log.answered ++ w ∧ log.due = log.answered.length := by
  unfold Sound
  cases hpc : s.pc <;> simp_all [SsiPc.ticking]

/-- Outside the loop only WAITFORCLOCK changes the array, and only a clock message enters it. -/
theorem next_rest (ht : s.pc.ticking = false) (hi : s.pc ≠ .init) (hg : s.pc ≠ .got)
    (hs : s.pc ≠ .serve) : (s.next k r).pc.ticking = false ∧ (s.next k r).pc ≠ .init ∧
      (s.next k r).clockTcb = s.clockTcb := by
  unfold Ssi.next
  cases hpc : s.pc
  case init => exact absurd hpc hi
  case got => exact absurd hpc hg
  case serve => exact absurd hpc hs
  case clock | clockClear => simp [hpc, SsiPc.ticking] at ht
  case copyState c => cases c <;> simp [SsiPc.ticking]
  case interruptClear | waitIoClear =>
    cases s.deviceNum <;> simp_all [SsiPc.ticking]
  case alloc c | noGood c =>
    cases c <;> dsimp only [Create.linkPc] <;> repeat' split
    all_goals simp [SsiPc.ticking]
  all_goals
    dsimp only
    repeat' split
    all_goals simp_all [SsiPc.ticking]

/-- The first dispatch, by the service word alone. -/
theorem next_got (hpc : s.pc = .got) : s.next k r =
    let s := { s with reqThread := (k.tcb k.ssiTcb).tState.regV0 }
    if s.service k = pseudoClockMsg then { s with pc := .clock 0 }
    else if s.service k = interruptMsg then
      { s with pc := .interrupt, deviceNum := restIndex s.reqThread }
    else { s with pc := .checkReady } := by
  unfold Ssi.next
  rw [hpc]

theorem dispatch_rest (s : Ssi) (k : Kernel) : (s.dispatch k).pc.ticking = false ∧
    (s.dispatch k).pc ≠ .init ∧ (s.dispatch k).clockTcb =
      if s.service k = waitForClock then s.recordClock.clockTcb else s.clockTcb := by
  unfold Ssi.dispatch
  dsimp only
  split
  · simp_all [SsiPc.ticking]
  · repeat' split
    all_goals simp_all [SsiPc.ticking]

/-- A request finds its place at the end of the queue. -/
theorem recordClock_waiters {w : List Ptr} (hq : s.Waiters 0 w) (hr : s.reqThread ≠ null)
    (hroom : ∃ j < maxThreads - 1, s.clockTcb j = null) :
    Queue (maxThreads - 1) null s.recordClock.clockTcb 0 (w ++ [s.reqThread]) := by
  obtain ⟨hfind, hpush⟩ := hq.push hr (hq.length_lt hroom)
  unfold Ssi.recordClock
  rw [hfind]
  exact hpush

end ClockLog

namespace Machine

variable {m m' : Machine} {e : Event} {log : ClockLog}

/-- A WAITFORCLOCK request finds one of the scanned slots free. -/
def HasRoom (m : Machine) : Event → Prop
  | .ssi _ => m.ssi.pc = .serve → m.ssi.service m.k = waitForClock →
      ∃ j < maxThreads - 1, m.ssi.clockTcb j = null
  | _ => True

instance (m : Machine) : (e : Event) → Decidable (m.HasRoom e)
  | .ssi _ => inferInstanceAs (Decidable (_ → _ → _))
  | .sysbp _ | .pgmtrap _ | .tlb _ | .interrupt _ | .devices _ | .store _ _ | .edit _ _ =>
    inferInstanceAs (Decidable True)

theorem sound_next {r : U32} {old : State} (hw : m.Wf) (hroom : m.HasRoom (.ssi old))
    (h : log.Sound m.ssi) : (log.note m (.ssi old) m').Sound (m.ssi.next m.k r) := by
  simp only [ClockLog.note]
  by_cases hrest : m.ssi.pc.ticking = false ∧ m.ssi.pc ≠ .init ∧ m.ssi.pc ≠ .got ∧ m.ssi.pc ≠ .serve
  · obtain ⟨ht, hi, hg, hs⟩ := hrest
    obtain ⟨ht', hi', hc'⟩ := ClockLog.next_rest (k := m.k) (r := r) ht hi hg hs
    have hlog : log.Sound (m.ssi.next m.k r) := by
      rw [ClockLog.sound_rest ht hi] at h
      rw [ClockLog.sound_rest ht' hi']
      simp only [Ssi.Waiters, hc']
      exact h
    revert ht hi hg hs
    cases m.ssi.pc <;> simp_all [SsiPc.ticking]
  cases hpc : m.ssi.pc
  case init =>
    simp only [ClockLog.Sound, hpc] at h
    subst h
    simp only [Ssi.next, hpc]
    exact ⟨[], .empty fun _ => rfl, rfl, rfl⟩
  case got =>
    obtain ⟨w, hq, hacc, hdue⟩ :=
      (ClockLog.sound_rest (by simp [hpc, SsiPc.ticking]) (by simp [hpc])).mp h
    rw [ClockLog.next_got hpc]
    change (if m.ssi.service m.k = pseudoClockMsg then { log with due := log.accepted.length }
      else log).Sound (if m.ssi.service m.k = pseudoClockMsg then _ else
        if m.ssi.service m.k = interruptMsg then _ else _)
    split
    · exact ⟨w, hq, hacc, rfl⟩
    · split <;> exact ⟨w, hq, hacc, hdue⟩
  case serve =>
    obtain ⟨w, hq, hacc, hdue⟩ :=
      (ClockLog.sound_rest (by simp [hpc, SsiPc.ticking]) (by simp [hpc])).mp h
    obtain ⟨ht, hi, hc⟩ := ClockLog.dispatch_rest m.ssi m.k
    simp only [Ssi.next, hpc]
    rw [ClockLog.sound_rest ht hi]
    simp only [Ssi.Waiters, hc]
    split
    · next hs =>
      have hr : m.ssi.reqThread ≠ null := fun he =>
        null_notMem_threadArray (he ▸ hw.requester (by rw [hpc]; rfl))
      refine ⟨_, ClockLog.recordClock_waiters hq hr (hroom hpc hs), ?_, hdue⟩
      rw [hacc, List.append_assoc]
    · exact ⟨w, hq, hacc, hdue⟩
  case clock i =>
    simp only [ClockLog.Sound, hpc] at h
    obtain ⟨w, hq, hacc, hdue⟩ := h
    simp only [Ssi.next, hpc, Ssi.call]
    by_cases hs : i < maxThreads - 1 ∧ m.ssi.clockTcb i ≠ null
    · simp only [hs, ne_eq, not_false_eq_true, and_self, if_true]
      cases w with
      | nil =>
        have ha := hq.after 0
        exact absurd (by simpa using ha) hs.2
      | cons t w =>
        rw [hq.head.1]
        exact ⟨t, w, hq, by simp [hacc], hdue⟩
    · simp only [hs, if_false]
      have hnil := hq.eq_nil hs
      subst hnil
      refine ⟨[], .empty hq.reset, hacc, ?_⟩
      simp [hdue, hacc]
  case clockClear i =>
    simp only [ClockLog.Sound, hpc] at h
    obtain ⟨t, w, hq, hacc, hdue⟩ := h
    simp only [Ssi.next, hpc]
    exact ⟨w, hq.pop, hacc, hdue⟩
  all_goals simp [hpc, SsiPc.ticking] at hrest

theorem sound_step (hw : m.Wf) (h : m.Step e m') (hroom : m.HasRoom e) (hlog : log.Sound m.ssi) :
    (log.note m e m').Sound m'.ssi := by
  rcases step_cases h with ⟨hs, hne⟩ | ⟨old, r, rfl, -, -, hs⟩
  · have hnote : log.note m e m' = log := by
      cases e with
      | ssi old => exact absurd rfl (hne old)
      | sysbp | pgmtrap | tlb | interrupt | devices | store | edit => rfl
    rw [hs, hnote]
    exact hlog
  · rw [hs]
    exact sound_next hw hroom hlog

end Machine

namespace Kernel

variable {k k' : Kernel} {s t : Ptr} {v r : U32}

/-- A message of `s` reaches `t`: it is stored where `t` waits for it, or queued in its inbox. -/
def Gets (k : Kernel) (s t : Ptr) (v : U32) (k' : Kernel) : Prop :=
  (t ∈ k.waitQueue ∧ t ∉ k'.waitQueue ∧ k'.mem (k.tcb t).reply = v) ∨
    ∃ a, (k'.tcb t).tInbox = (k.tcb t).tInbox ++ [⟨a, s, v⟩]

/-- A message for a live thread is not lost. -/
theorem send_gets (hk : Placed k) (ht : k.Live t) (hs : k.senderId s ≠ busIntervalTimer)
    (h : k.send s t v = .ok (r, k')) : k.Gets (k.senderId s) t v k' := by
  have henq : k.enqueue (k.senderId s) t v = .ok k' → k.Gets (k.senderId s) t v k' := by
    intro he
    obtain ⟨a, free, -, rfl⟩ := enqueue_cases he
    exact .inr ⟨a, by simp [queued, hs]⟩
  rcases send_cases h with ⟨-, -, he⟩ | ⟨-, -, -, hw, -, -, -, rfl⟩ | ⟨-, -, -, -, -, -, he⟩ |
    ⟨hc, hq, -, -⟩
  · exact henq he
  · exact .inl ⟨hw, hk.wait_erase, by simp [delivered]⟩
  · exact henq he
  · have hn := hk.ne_null ht.mem_places
    rcases ht with hr | hw | hrun
    · exact absurd hr (hq hn).1
    · exact absurd hw (hq hn).2
    · exact absurd (mem_running.mp hrun).1.symm hc

theorem Gets.quiet_left {k₁ : Kernel} (hq : Quiet k k₁) (h : k₁.Gets s t v k') :
    k.Gets s t v k' := by
  rcases h with ⟨hw, hn, hm⟩ | ⟨a, ha⟩
  · exact .inl ⟨hq.waitQueue ▸ hw, hn, hq.reply t ▸ hm⟩
  · exact .inr ⟨a, hq.tInbox t ▸ ha⟩

end Kernel

namespace Machine

variable {m m' : Machine} {log : ClockLog}

/-- The wake-up of a live thread reaches it. -/
theorem wakeUp_gets {old : State} {k : Kernel} {d : Ptr} (hw : m.Wf)
    (hcur : m.k.currentThread = m.k.ssiTcb) (hcall : m.ssi.call m.k = .msgSend d 42)
    (hd : m.k.Live d) (h : m.body (.ssi old) = .ok k) : m.k.Gets magicSsi d 42 k := by
  have hm := hw.placed.sub d hd.mem_places
  have hne : d ≠ magicSsi := fun he => magicSsi_notMem_threadArray (he ▸ hm)
  have hregs := old.syscall_regs sysSend d 42
  have hrec : m.k.receiver (old.syscall sysSend d 42) = d := by
    rw [Kernel.receiver, hregs.2.1, if_neg hne]
  simp only [body, hcall, Kernel.performBody] at h
  have haligned := threadArray_aligned (hw.placed.sub d hd.mem_places)
  rw [Kernel.sysbpBody_send (old.syscall_isSend _ _) hrec haligned, hregs.2.2, if_neg (by simp [trapTerminate, trapContinue])] at h
  have hq : Quiet m.k (m.k.sendEnter (old.syscall sysSend d 42)) := by
    rw [Kernel.sendEnter, hregs.2.1, if_neg hne]
    exact Kernel.sysbpEnter_quiet _
  obtain ⟨r, k₁, hs, rfl⟩ := Kernel.sendOrdinary_cases h
  have hid : (m.k.sendEnter (old.syscall sysSend d 42)).senderId m.k.currentThread = magicSsi := by
    rw [Kernel.senderId, hq.ssiTcb, if_pos hcur]
  have hlive := Kernel.Live.of_same hw.placed (.quiet hq) hq.tcbFree hd
  have hgets := Kernel.send_gets (hw.placed.of_perm (SamePlaces.quiet hq)) hlive
    (by rw [hid]; decide) hs
  rw [hid] at hgets
  rcases hgets.quiet_left hq with ⟨hwq, hn, hm⟩ | ⟨a, ha⟩
  · exact .inl ⟨hwq, hn, hm⟩
  · refine .inr ⟨a, ?_⟩
    by_cases hdc : d = m.k.currentThread
    · subst hdc
      simpa [Kernel.setTcb] using ha
    · simpa [Kernel.setTcb, hdc] using ha

/-- What the clock waiters get: in the order of the requests, one wake-up each, all those due at a
tick before the SSI goes on, and nobody is left in the array. -/
structure ClockServed (m : Machine) (log : ClockLog) : Prop where
  order : log.answered <+: log.accepted
  due : m.ssi.pc.ticking = false → log.answered.length = log.due
  tick : m.ssi.pc.ticking = true → log.due = log.accepted.length
  recorded : m.ssi.pc.ticking = false → m.ssi.pc ≠ .init →
    m.ssi.Waiters 0 (log.accepted.drop log.due)
  emptied : m.ssi.pc.ticking = true → ∀ r, (m.ssi.next m.k r).pc.ticking = false →
    ∀ j, (m.ssi.next m.k r).clockTcb j = null
  arrives : ∀ i d old k, m.k.currentThread = m.k.ssiTcb → m.ssi.pc = .clock i →
    m.ssi.call m.k = .msgSend d 42 → m.k.Live d → m.body (.ssi old) = .ok k →
    m.k.Gets magicSsi d 42 k

theorem served_of_sound (hw : m.Wf) (h : log.Sound m.ssi) : m.ClockServed log := by
  have hrest : m.ssi.pc.ticking = false → m.ssi.pc ≠ .init → ∃ w, m.ssi.Waiters 0 w ∧
      log.accepted = log.answered ++ w ∧ log.due = log.answered.length :=
    fun ht hi => (ClockLog.sound_rest ht hi).mp h
  have hinit : m.ssi.pc = .init → log = .empty := by
    intro hi
    simpa [ClockLog.Sound, hi] using h
  constructor
  case order =>
    by_cases hi : m.ssi.pc = .init
    · rw [hinit hi]
      exact List.prefix_refl _
    by_cases ht : m.ssi.pc.ticking = false
    · obtain ⟨w, -, hacc, -⟩ := hrest ht hi
      exact ⟨w, hacc.symm⟩
    · cases hpc : m.ssi.pc <;> simp only [hpc, SsiPc.ticking, not_true_eq_false] at ht
      all_goals simp only [ClockLog.Sound, hpc] at h
      case clock =>
        obtain ⟨w, -, hacc, -⟩ := h
        exact ⟨w, hacc.symm⟩
      case clockClear =>
        obtain ⟨t, w, -, hacc, -⟩ := h
        exact ⟨w, hacc.symm⟩
  case due =>
    intro ht
    by_cases hi : m.ssi.pc = .init
    · rw [hinit hi]
      rfl
    · obtain ⟨w, -, -, hdue⟩ := hrest ht hi
      exact hdue.symm
  case tick =>
    intro ht
    cases hpc : m.ssi.pc <;> simp only [hpc, SsiPc.ticking, Bool.false_eq_true] at ht
    all_goals simp only [ClockLog.Sound, hpc] at h
    case clock =>
      obtain ⟨w, -, -, hdue⟩ := h
      exact hdue
    case clockClear =>
      obtain ⟨t, w, -, -, hdue⟩ := h
      exact hdue
  case recorded =>
    intro ht hi
    obtain ⟨w, hq, hacc, hdue⟩ := hrest ht hi
    rwa [hdue, hacc, List.drop_left]
  case emptied =>
    intro ht r hn
    cases hpc : m.ssi.pc <;> simp only [hpc, SsiPc.ticking, Bool.false_eq_true] at ht
    all_goals simp only [ClockLog.Sound, hpc] at h
    case clock i =>
      obtain ⟨w, hq, -, -⟩ := h
      simp only [Ssi.next, hpc] at hn ⊢
      by_cases hs : i < maxThreads - 1 ∧ m.ssi.clockTcb i ≠ null
      · simp [hs, SsiPc.ticking] at hn
      · rw [if_neg hs]
        have hnil := hq.eq_nil hs
        subst hnil
        exact hq.reset
    case clockClear => simp [Ssi.next, hpc, SsiPc.ticking] at hn
  case arrives =>
    intro i d old k hcur _ hcall hd hb
    exact wakeUp_gets hw hcur hcall hd hb

/-- A step in which no accepted request is dropped for want of a slot. -/
def ClockStep (m : Machine) (e : Event) (m' : Machine) : Prop := m.Step e m' ∧ m.HasRoom e

/-- The clock interrupt, once the tick is due. -/
def timerInterrupt : Event := .interrupt { initTState with cause := 1 <<< (intTimer + 8) }

/-- The test thread asks for the next tick `n` times before it waits for an answer, and the SSI
takes all the requests. -/
def clockRequests (n : Nat) : List Event :=
  Event.ssiCalls 2 ++ [.store 0x20030000 waitForClock] ++
    List.replicate n (Event.call sysSend magicSsi 0x20030000) ++
    [Event.call sysRecv magicSsi 0x20030100] ++ Event.ssiCalls (5 * n)

/-- Two requests, then the tick. -/
def tickTrace : List Event :=
  clockRequests 2 ++ List.replicate 10 timerInterrupt ++ Event.ssiCalls 6

/-- Twenty requests for the same tick: the last one finds the scanned slots full. -/
def fullTrace : List Event := clockRequests 20 ++ [timerInterrupt] ++ Event.ssiCalls 40

end Machine

end AmiKaya
