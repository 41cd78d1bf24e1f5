import AmiKaya.Fifo

/-! Threads frozen by a trap: which messages decide about them, and which only wait for them. -/
namespace AmiKaya
open Lts

namespace Kernel

variable {k k' : Kernel} {t : Ptr}

/-- The kernel when a SEND has been recognised, with the count of requests updated. -/
def sendEnter (k : Kernel) (old : State) : Kernel :=
  if old.regA1 = magicSsi
  then { k.sysbpEnter old with softBlockCount := (k.sysbpEnter old).softBlockCount + 1 }
  else k.sysbpEnter old

/-- The decision of a trap manager about a thread. -/
def decision (k : Kernel) (t : Ptr) (payload : U32) : Except Stop Kernel :=
  if payload = trapTerminate then k.terminate t else k.continueTrapped t

theorem sendEnter_eq (k : Kernel) (old : State) :
    (k.sendEnter old).readyQueue = k.readyQueue ∧ (k.sendEnter old).waitQueue = k.waitQueue ∧
      (k.sendEnter old).tcbFree = k.tcbFree ∧ (k.sendEnter old).currentThread = k.currentThread ∧
      (k.sendEnter old).ssiTcb = k.ssiTcb ∧ (k.sendEnter old).trapManagers = k.trapManagers ∧
      (k.sendEnter old).mem = k.mem ∧ (k.sendEnter old).msgFree = k.msgFree ∧
      ∀ p, ((k.sendEnter old).tcb p).waitingFor = (k.tcb p).waitingFor ∧
        ((k.sendEnter old).tcb p).tInbox = (k.tcb p).tInbox := by
  have hq := sysbpEnter_quiet (k := k) old
  unfold sendEnter
  split
  all_goals exact ⟨hq.readyQueue, hq.waitQueue, hq.tcbFree, hq.currentThread, hq.ssiTcb, rfl, rfl,
    hq.msgFree, fun p => ⟨hq.waitingFor p, hq.tInbox p⟩⟩

/-- The cases of a SEND, all read after the count of requests has been updated. -/
theorem sysbpBody_sendEnter {old : State} (hs : old.isSend = true) : k.sysbpBody old =
    if (k.sendEnter old).thereIsManager k.currentThread ≠ null ∧
        (k.receiver old).toNat % 4 ≠ 0 then
      .error .trap
    else if (k.sendEnter old).intercepts k.currentThread (k.receiver old) &&
        old.regA2 = trapTerminate then
      (k.sendEnter old).terminate (k.receiver old)
    else if (k.sendEnter old).intercepts k.currentThread (k.receiver old) &&
        old.regA2 = trapContinue then
      (k.sendEnter old).continueTrapped (k.receiver old)
    else (k.sendEnter old).sendOrdinary k.currentThread (k.receiver old) old.regA2 := by
  have hq := sysbpEnter_quiet (k := k) old
  have hbody : k.sysbpBody old = (k.sysbpEnter old).sysSendCase old := by
    change (if old.isSend then (k.sysbpEnter old).sysSendCase old else _) = _
    simp [hs]
  have hrec : k.receiver old = (k.sysbpEnter old).receiver old := by
    unfold receiver
    rw [hq.ssiTcb]
  rw [hbody, hrec, ← hq.currentThread]
  rfl

/-- A SEND to a thread is a decision exactly when the sender is registered and the `waiting_for`
of the recipient names it. -/
theorem sysbpBody_send {old : State} (hs : old.isSend = true) (hr : k.receiver old = t)
    (ht : t ≠ null ∧ t.toNat % 4 = 0) : k.sysbpBody old =
      if (k.thereIsManager k.currentThread ≠ null ∧ (k.tcb t).waitingFor = k.currentThread) ∧
        (old.regA2 = trapTerminate ∨ old.regA2 = trapContinue)
      then (k.sendEnter old).decision t old.regA2
      else (k.sendEnter old).sendOrdinary k.currentThread t old.regA2 := by
  obtain ⟨-, -, -, -, -, hman, -, -, htcb⟩ := k.sendEnter_eq old
  have hman' : (k.sendEnter old).thereIsManager k.currentThread = k.thereIsManager k.currentThread := by
    simp [thereIsManager, hman]
  rw [sysbpBody_sendEnter hs, hr]
  simp only [intercepts, hman', (htcb t).1, ht.1, ht.2, ne_eq, not_true_eq_false, and_false, if_false,
    not_false_eq_true, decide_true, Bool.and_true, decision]
  by_cases hi : k.thereIsManager k.currentThread ≠ null ∧ (k.tcb t).waitingFor = k.currentThread
  · by_cases hp : old.regA2 = trapTerminate
    · simp [hi, hp]
    · by_cases hc : old.regA2 = trapContinue <;> simp [hi, hp, hc]
  · by_cases hm : k.thereIsManager k.currentThread = null
    · simp [hm]
    · have hw : (k.tcb t).waitingFor ≠ k.currentThread := fun h => hi ⟨hm, h⟩
      simp [hw]

/-- A decision moves the thread out of the wait queue: to the free list or to the ready queue. -/
theorem decision_cases {v : U32} (h : k.decision t v = .ok k') :
    v = trapTerminate ∧ t ∈ k'.tcbFree ∨
      v ≠ trapTerminate ∧ t ∈ k.waitQueue ∧
        k' = { k with waitQueue := k.waitQueue.erase t, readyQueue := k.readyQueue ++ [t] } := by
  unfold decision at h
  split at h
  · next hv =>
    obtain ⟨k₁, -, h₂⟩ := terminate_cases (R := fun _ _ => True) (fun _ => trivial)
      (fun _ _ _ _ _ => trivial) (fun _ _ => trivial) (fun _ _ _ _ _ => trivial) h
    refine .inl ⟨hv, ?_⟩
    rcases reap_cases h₂ with ⟨-, rfl⟩ | ⟨-, -, -, -, rfl⟩ <;> simp [freed]
  · next hv =>
    obtain ⟨hw, -, rfl⟩ := continueTrapped_cases h
    exact .inr ⟨hv, hw, rfl⟩

theorem sendOrdinary_cases {s : Ptr} {v : U32} (h : k.sendOrdinary s t v = .ok k') :
    ∃ r k₁, k.send s t v = .ok (r, k₁) ∧
      k' = k₁.setTcb s fun x => { x with tState := x.tState.setV0 r } := by
  obtain ⟨⟨r, k₁⟩, h₁, h₂⟩ := bind_eq_ok.mp h
  cases h₂
  exact ⟨r, k₁, h₁, rfl⟩

/-- No decision about a live thread looks like the ordinary delivery of the same message. -/
theorem decision_ne_sendOrdinary {v : U32} (hk : Placed k) (hc : k.currentThread ≠ null)
    (ht : k.Live t) (hw : (k.tcb t).waitingFor = k.currentThread) :
    k.decision t v ≠ k.sendOrdinary k.currentThread t v := by
  intro he
  have hn : t ≠ null := hk.ne_null ht.mem_places
  have hcw : k.currentThread ∉ k.waitQueue := (hk.current_notMem hc).2.1
  cases hd : k.decision t v with
  | error e =>
    rw [hd] at he
    have hse : e = .panic .send ∨ e = .trap := by
      rcases bind_eq_error.mp he.symm with hs | ⟨_, -, hs⟩
      · exact (send_error hs).imp_right And.left
      · cases hs
    unfold decision at hd
    split at hd
    · rcases terminate_error hd with rfl | rfl <;> simp at hse
    · unfold continueTrapped at hd
      dsimp only at hd
      split at hd
      · cases hd
        simp at hse
      · cases hd
  | ok k' =>
    rw [hd] at he
    obtain ⟨r, k₁, hs, hk'⟩ := sendOrdinary_cases he.symm
    rcases decision_cases hd with ⟨-, hfree⟩ | ⟨-, hwt, rfl⟩
    · apply ht.notMem_free hk
      rw [hk'] at hfree
      rwa [← (send_frame hs).tcbFree]
    · have hne : t ≠ k.currentThread := fun h => hcw (h ▸ hwt)
      have hwq := congrArg Kernel.waitQueue hk'
      have hwf := congrArg (fun k => (k.tcb t).waitingFor) hk'
      simp only [setTcb, Links.put_ne hne] at hwq hwf
      rcases send_cases hs with ⟨hr, -⟩ | ⟨-, -, -, -, -, -, -, rfl⟩ |
        ⟨-, -, -, -, -, -, hq⟩ | ⟨-, hno, -⟩
      · rcases hr with ⟨hr, -⟩ | hr
        · exact (hk.wait_notMem hwt).1 hr
        · exact hne hr.symm
      · simp only [delivered, Links.put_same] at hwf
        have hm := hk.sub _ (mem_places.mpr (.inr (.inr (.inr ⟨rfl, hc⟩))))
        rw [← hw, hwf] at hm
        exact magicSsi_notMem_threadArray hm
      · obtain ⟨a, free, -, rfl⟩ := enqueue_cases hq
        apply hk.wait_erase (p := t)
        rw [hwq]
        exact hwt
      · exact (hno hn).2 hwt

theorem sendEnter_tcb (k : Kernel) (old : State) {p : Ptr} (hp : p ≠ k.currentThread) :
    (k.sendEnter old).tcb p = k.tcb p := by
  unfold sendEnter
  split <;> simp [sysbpEnter, enter, chargeCpu, chargeSlice, chargeTime, setState, setTcb,
    readTodlow, hp]

theorem send_waiting {s : Ptr} {v : U32} (hk : Placed k) (ht : t ∈ k.waitQueue) :
    k.send s t v = if k.awaits t (k.senderId s)
      then k.deliver (k.senderId s) t v >>= fun k => .ok (msgGood, k)
      else k.enqueue (k.senderId s) t v >>= fun k => .ok (msgGood, k) := by
  have hn := hk.wait_notMem ht
  have hnull : t ≠ null := hk.ne_null (mem_places.mpr (.inr (.inl ht)))
  have hready : ¬ (thereIsThread k.readyQueue t ≠ null ∨ k.currentThread = t) := by
    rw [thereIsThread_ne_null]
    rintro (h | h)
    · exact hn.1 h.1
    · exact hn.2.2 h
  simp only [send, if_neg hready, if_pos (thereIsThread_ne_null.mpr ⟨ht, hnull⟩)]

/-- The message is in the inbox of `t`, and that is all that has happened to `t`. -/
structure OnlyQueued (k k' : Kernel) (t id : Ptr) (v : U32) : Prop where
  waiting : t ∈ k'.waitQueue
  mem : k'.mem = k.mem
  tState : (k'.tcb t).tState = (k.tcb t).tState
  tInbox : ∃ a, (k'.tcb t).tInbox = (k.tcb t).tInbox ++ [⟨a, id, v⟩]

/-- A message a waiting thread does not wait for stays in its inbox. -/
theorem sendOrdinary_onlyQueued {s : Ptr} {v : U32} (hk : Placed k) (ht : t ∈ k.waitQueue)
    (hst : t ≠ s) (hid : k.senderId s ≠ busIntervalTimer)
    (ha : k.awaits t (k.senderId s) = false) :
    (∃ k', k.sendOrdinary s t v = .ok k' ∧ k.OnlyQueued k' t (k.senderId s) v) ∨
      k.sendOrdinary s t v = .error (.panic .send) ∧ k.msgFree = [] := by
  have hs := send_waiting (s := s) (v := v) hk ht
  simp only [ha, Bool.false_eq_true, if_false] at hs
  unfold sendOrdinary
  rw [hs]
  cases he : k.enqueue (k.senderId s) t v with
  | ok k₁ =>
    obtain ⟨a, free, -, rfl⟩ := enqueue_cases he
    refine .inl ⟨_, rfl, ht, rfl, ?_, a, ?_⟩
    · simp [setTcb, hst]
    · simp [setTcb, hst, queued, hid]
  | error e =>
    unfold enqueue allocMsg at he
    cases hf : k.msgFree with
    | nil =>
      simp only [hf] at he
      cases he
      exact .inr ⟨rfl, rfl⟩
    | cons a free => simp [hf] at he

/-- A message a waiting thread waits for takes it out of the wait queue, or cannot be stored. -/
theorem sendOrdinary_awaited {s : Ptr} {v : U32} (hk : Placed k) (ht : t ∈ k.waitQueue)
    (ha : k.awaits t (k.senderId s) = true) :
    (∃ k', k.sendOrdinary s t v = .ok k' ∧ t ∉ k'.waitQueue) ∨
      k.sendOrdinary s t v = .error .trap := by
  have hs := send_waiting (s := s) (v := v) hk ht
  simp only [ha, if_true] at hs
  unfold sendOrdinary
  rw [hs]
  cases hd : k.deliver (k.senderId s) t v with
  | ok k₁ =>
    obtain ⟨-, rfl⟩ := deliver_cases ht hd
    exact .inl ⟨_, rfl, hk.wait_erase⟩
  | error e =>
    rcases bind_eq_error.mp hd with hw | ⟨_, -, hw⟩
    · unfold storeWord at hw
      split at hw <;> cases hw
      exact .inr rfl
    · cases hw

end Kernel

namespace Machine

variable {m m' : Machine} {last : Ptr → Entry} {old : State} {t : Ptr}

/-- The thread is in the wait queue because an exception of its own was passed up to `s`. -/
def TrapBlocked (m : Machine) (last : Ptr → Entry) (t s : Ptr) : Prop :=
  t ∈ m.k.waitQueue ∧ last t = .trap s

instance (m : Machine) (last : Ptr → Entry) (t s : Ptr) : Decidable (m.TrapBlocked last t s) :=
  inferInstanceAs (Decidable (_ ∧ _))

/-- The SEND of a decision value by the current thread decides about `t`, once, if `t` is blocked
by a trap passed up to the sender, and is an ordinary message otherwise. -/
structure DecisionRight (m : Machine) (last : Ptr → Entry) (old : State) (t : Ptr) : Prop where
  decided : m.TrapBlocked last t m.k.currentThread →
    m.k.sysbpBody old = (m.k.sendEnter old).decision t old.regA2
  answered : m.TrapBlocked last t m.k.currentThread →
    ∀ k', m.k.sysbpBody old = .ok k' → t ∉ k'.waitQueue
  ordinary : ¬ m.TrapBlocked last t m.k.currentThread →
    m.k.sysbpBody old = (m.k.sendEnter old).sendOrdinary m.k.currentThread t old.regA2

theorem trapBlocked_waitingFor (hw : m.k.Waiting last) {s : Ptr} (h : m.TrapBlocked last t s) :
    (m.k.tcb t).waitingFor = s := by
  have ha := hw.awaited t h.1
  rw [h.2] at ha
  exact (Option.some.inj ha).symm

theorem decisionRight_iff (hw : m.Wf) (hwait : m.k.Waiting last) (hc : m.k.currentThread ≠ null)
    (hs : old.isSend = true) (hr : m.k.receiver old = t) (hl : m.k.Live t)
    (hman : m.k.thereIsManager m.k.currentThread ≠ null)
    (hv : old.regA2 = trapTerminate ∨ old.regA2 = trapContinue) :
    m.DecisionRight last old t ↔
      ((m.k.tcb t).waitingFor = m.k.currentThread → m.TrapBlocked last t m.k.currentThread) := by
  have hbody := Kernel.sysbpBody_send hs hr (threadArray_aligned (hw.placed.sub _ hl.mem_places))
  obtain ⟨hready, hwaitq, hfree, hcur, hssi, -, -, -, htcb⟩ := m.k.sendEnter_eq old
  have hplaced : Placed (m.k.sendEnter old) :=
    hw.placed.of_perm (SamePlaces.of_eq hready hwaitq hfree hcur)
  constructor
  · intro h hwt
    by_contra hb
    have he := h.ordinary hb
    rw [hbody, if_pos ⟨⟨hman, hwt⟩, hv⟩] at he
    refine Kernel.decision_ne_sendOrdinary hplaced (hcur ▸ hc) ?_ ?_ (hcur ▸ he)
    · unfold Kernel.Live at *
      rwa [hready, hwaitq, Kernel.running_eq hcur]
    · rw [(htcb t).1, hcur]
      exact hwt
  · intro h
    by_cases hb : m.TrapBlocked last t m.k.currentThread
    · have hwt := trapBlocked_waitingFor hwait hb
      rw [if_pos ⟨⟨hman, hwt⟩, hv⟩] at hbody
      refine ⟨fun _ => hbody, fun _ k' hk => ?_, fun hn => absurd hb hn⟩
      rw [hbody] at hk
      rcases Kernel.decision_cases hk with ⟨hv', hf⟩ | ⟨-, -, rfl⟩
      · have hk' : (m.k.sendEnter old).terminate t = .ok k' := by
          rwa [Kernel.decision, if_pos hv'] at hk
        have hn : t ≠ null := hw.placed.ne_null hl.mem_places
        have hp := hplaced.step (.terminate hn hk')
        exact fun hm => (hp.wait_notMem hm).2.1 hf
      · exact hplaced.wait_erase
    · rw [if_neg fun hi => hb (h hi.1.2)] at hbody
      exact ⟨fun hb' => absurd hb' hb, fun hb' => absurd hb' hb, fun _ => hbody⟩

/-- In every reachable state, a registered manager's SEND of a decision value to a live thread is
handled as it should exactly when `waiting_for` of that thread does not name the manager by
accident: a RECV from it, or a trap that has been answered. -/
theorem decision_right_iff {es : List Event} (h : m.Initial)
    (hrun : Run (withHistory Step note) (m, fun _ => .program) es (m', last))
    (hc : m'.k.currentThread ≠ null) (hs : old.isSend = true) (hr : m'.k.receiver old = t)
    (hl : m'.k.Live t) (hman : m'.k.thereIsManager m'.k.currentThread ≠ null)
    (hv : old.regA2 = trapTerminate ∨ old.regA2 = trapContinue) :
    m'.DecisionRight last old t ↔
      ((m'.k.tcb t).waitingFor = m'.k.currentThread →
        m'.TrapBlocked last t m'.k.currentThread) :=
  decisionRight_iff (waiting_of_run h hrun).1 (waiting_of_run h hrun).2 hc hs hr hl hman hv

/-- The third TCB of the array, for the first thread the test thread creates. -/
def managerAddr : Ptr := threadArrayAddr + BitVec.ofNat 32 (2 * sizeofTcb)

/-- The test thread creates a thread, which waits for any message, and makes it its manager for
SYS/BP exceptions. -/
def managerTrace : List Event :=
  Event.ssiCalls 2 ++ Event.ssiRequest createSon 0x20031000 ++ Event.ssiCalls 12 ++
    [.call sysRecv anyMessage 0x20030200] ++ Event.ssiRequest specSysMgr managerAddr ++
    Event.ssiCalls 10

/-- The test thread then asks its manager for a message. -/
def askManagerTrace : List Event :=
  managerTrace ++ [.call sysSend managerAddr 5, .call sysRecv managerAddr 0x20030100]

/-- The test thread then raises a SYS/BP exception. -/
def trapTrace : List Event := managerTrace ++ [.call 9 0 0]

/-- An answer of the manager. -/
def answer (payload : U32) : State := initTState.syscall sysSend testThreadAddr payload

theorem receiver_answer (k : Kernel) (v : U32) : k.receiver (answer v) = testThreadAddr := by
  have hne : testThreadAddr ≠ magicSsi := by decide
  simp [Kernel.receiver, answer, State.syscall_regs, hne]

theorem decision_right_trap : ∃ m m' : Machine, ∃ last,
    Run (withHistory Step note) (m, fun _ => .program) trapTrace (m', last) ∧
    (m'.DecisionRight last (answer trapContinue) testThreadAddr ↔
      ((m'.k.tcb testThreadAddr).waitingFor = m'.k.currentThread →
        m'.TrapBlocked last testThreadAddr m'.k.currentThread)) ∧
    m'.TrapBlocked last testThreadAddr m'.k.currentThread := by
  have hrun : passes (fun m => passes (fun s => s.1.k.currentThread = managerAddr &&
      s.1.TrapBlocked s.2 testThreadAddr managerAddr &&
      s.1.k.thereIsManager managerAddr = managerAddr)
      (exec (execWith fire note) (m, fun _ => .program) trapTrace)) (start .zeroed) = true := by
    decide +kernel
  obtain ⟨m, hm, hrun⟩ := exists_of_passes hrun
  obtain ⟨⟨m', last⟩, hs, hb⟩ := exists_of_passes hrun
  simp only [Bool.and_eq_true, decide_eq_true_eq] at hb
  obtain ⟨⟨hc, hb⟩, hman⟩ := hb
  have hr := run_of_execWith (fun _ _ _ => step_of_fire) hs
  have hne : managerAddr ≠ null := by decide
  refine ⟨m, m', last, hr, ?_, hc ▸ hb⟩
  refine decision_right_iff (initial_of_start Kernel.zeroed_powerOn hm) hr (hc ▸ hne)
    (State.syscall_isSend _ _ _) ?_ (.inr (.inl hb.1)) ?_ (.inr ?_)
  · exact receiver_answer m'.k trapContinue
  · rw [hc, hman]
    exact hne
  · exact (State.syscall_regs _ _ _ _).2.2

/-- The manager answers a thread that has not trapped, and only waits for a message: the thread is
terminated. -/
theorem decision_right_fails : ¬ ∀ (m m' : Machine) (es : List Event) last old t, m.Initial →
    Run (withHistory Step note) (m, fun _ => .program) es (m', last) → m'.k.currentThread ≠ null →
    old.isSend = true → m'.k.receiver old = t → m'.k.Live t →
    m'.k.thereIsManager m'.k.currentThread ≠ null →
    (old.regA2 = trapTerminate ∨ old.regA2 = trapContinue) → m'.DecisionRight last old t := by
  intro hall
  have hrun : passes (fun m => passes (fun s => s.1.k.currentThread = managerAddr &&
      s.1.k.thereIsManager managerAddr = managerAddr && s.1.k.Live testThreadAddr &&
      !s.1.TrapBlocked s.2 testThreadAddr managerAddr &&
      passes (fun k => testThreadAddr ∈ k.tcbFree) (s.1.k.sysbpBody (answer trapTerminate)) &&
      passes (fun k => testThreadAddr ∉ k.tcbFree)
        ((s.1.k.sendEnter (answer trapTerminate)).sendOrdinary managerAddr testThreadAddr
          trapTerminate))
      (exec (execWith fire note) (m, fun _ => .program) askManagerTrace)) (start .zeroed) = true := by
    decide +kernel
  obtain ⟨m, hm, hrun⟩ := exists_of_passes hrun
  obtain ⟨⟨m', last⟩, hs, hb⟩ := exists_of_passes hrun
  simp only [Bool.and_eq_true, Bool.not_eq_true', decide_eq_true_eq, decide_eq_false_iff_not] at hb
  obtain ⟨⟨⟨⟨⟨hc, hman⟩, hl⟩, hb⟩, hbody⟩, hord⟩ := hb
  obtain ⟨k₁, hk₁, hf₁⟩ := exists_of_passes hbody
  obtain ⟨k₂, hk₂, hf₂⟩ := exists_of_passes hord
  have hne : managerAddr ≠ null := by decide
  have hreg := State.syscall_regs initTState sysSend testThreadAddr trapTerminate
  have hright := hall m m' _ last (answer trapTerminate) testThreadAddr
    (initial_of_start Kernel.zeroed_powerOn hm) (run_of_execWith (fun _ _ _ => step_of_fire) hs)
    (hc ▸ hne) (State.syscall_isSend _ _ _) (receiver_answer m'.k _) hl
    (by rw [hc, hman]; exact hne) (.inl hreg.2.2)
  have he := hright.ordinary (hc ▸ hb)
  rw [hk₁, hc, answer, hreg.2.2] at he
  rw [answer] at hk₂
  rw [hk₂] at he
  cases he
  simp_all

/-- A SEND leaves a thread blocked by a trap alone, except for its inbox. -/
def Undisturbed (m : Machine) (old : State) (t : Ptr) : Prop :=
  match m.k.sysbpBody old with
  | .ok k' => m.k.OnlyQueued k' t (m.k.senderId m.k.currentThread) old.regA2
  | .error e => e = .panic .send ∧ m.k.msgFree = []

/-- The SEND is a decision of the manager `s`. -/
def Decides (m : Machine) (old : State) (s : Ptr) : Prop :=
  m.k.thereIsManager m.k.currentThread ≠ null ∧ m.k.currentThread = s ∧
    (old.regA2 = trapTerminate ∨ old.regA2 = trapContinue)

theorem undisturbed_iff {s : Ptr} (hw : m.Wf) (hwait : m.k.Waiting last)
    (hb : m.TrapBlocked last t s) (hc : m.k.currentThread ≠ null) (hs : old.isSend = true)
    (hr : m.k.receiver old = t) (hd : ¬ m.Decides old s) :
    m.Undisturbed old t ↔ m.k.senderId m.k.currentThread ≠ s := by
  have hwt := trapBlocked_waitingFor hwait hb
  have hmem := hw.placed.sub t (Kernel.mem_places.mpr (.inr (.inl hb.1)))
  have hbody := Kernel.sysbpBody_send hs hr (threadArray_aligned hmem)
  rw [if_neg fun hi => hd ⟨hi.1.1, hi.1.2.symm.trans hwt, hi.2⟩] at hbody
  obtain ⟨hready, hwaitq, hfree, hcur, hssi, -, hmem, hmsg, htcb⟩ := m.k.sendEnter_eq old
  have hplaced : Placed (m.k.sendEnter old) :=
    hw.placed.of_perm (SamePlaces.of_eq hready hwaitq hfree hcur)
  have ht : t ∈ (m.k.sendEnter old).waitQueue := hwaitq ▸ hb.1
  have hcm := hw.placed.sub _ (Kernel.mem_places.mpr (.inr (.inr (.inr ⟨rfl, hc⟩))))
  have hne : t ≠ m.k.currentThread := fun h => (hw.placed.wait_notMem hb.1).2.2 h.symm
  have hid : (m.k.sendEnter old).senderId m.k.currentThread = m.k.senderId m.k.currentThread := by
    simp [Kernel.senderId, hssi]
  have haw : (m.k.sendEnter old).awaits t (m.k.senderId m.k.currentThread) =
      decide (m.k.senderId m.k.currentThread = s) := by
    have hany : s ≠ anyMessage := hwait.trap t hb.1 s hb.2
    simp [Kernel.awaits, (htcb t).1, hwt, hany, eq_comm]
  unfold Undisturbed
  rw [hbody]
  constructor
  · intro h he
    rw [he, decide_eq_true rfl] at haw
    rcases Kernel.sendOrdinary_awaited (v := old.regA2) hplaced ht (by rw [hid, he]; exact haw) with
      ⟨k', hk', hm⟩ | hk'
    · rw [hk'] at h
      exact hm h.waiting
    · rw [hk'] at h
      cases h.1
  · intro hne'
    rw [decide_eq_false hne'] at haw
    have hbus : m.k.senderId m.k.currentThread ≠ busIntervalTimer := by
      unfold Kernel.senderId
      split
      · decide
      · intro he
        exact absurd (he ▸ hcm) (by decide)
    rcases Kernel.sendOrdinary_onlyQueued (v := old.regA2) hplaced ht hne (hid ▸ hbus)
      (by rw [hid]; exact haw) with ⟨k', hk', hq⟩ | ⟨hk', hf⟩
    · rw [hk']
      obtain ⟨a, ha⟩ := hq.tInbox
      refine ⟨hq.waiting, hq.mem.trans hmem, ?_, a, ?_⟩
      · rw [hq.tState, m.k.sendEnter_tcb old hne]
      · rw [ha, hid, (htcb t).2]
    · rw [hk']
      exact ⟨rfl, hmsg ▸ hf⟩

/-- In every reachable state, a SEND that is no decision leaves a thread blocked by a trap alone
exactly when it is not the manager itself that sends it. -/
theorem undisturbed_iff_of_run {es : List Event} {s : Ptr} (h : m.Initial)
    (hrun : Run (withHistory Step note) (m, fun _ => .program) es (m', last))
    (hb : m'.TrapBlocked last t s) (hc : m'.k.currentThread ≠ null) (hs : old.isSend = true)
    (hr : m'.k.receiver old = t) (hd : ¬ m'.Decides old s) :
    m'.Undisturbed old t ↔ m'.k.senderId m'.k.currentThread ≠ s :=
  undisturbed_iff (waiting_of_run h hrun).1 (waiting_of_run h hrun).2 hb hc hs hr hd

/-- The test thread asks for its CPU time and traps before it waits for the answer. -/
def lateAnswerTrace : List Event :=
  managerTrace ++ [.store 0x20030000 getCpuTime, .call sysSend magicSsi 0x20030000, .call 9 0 0] ++
    Event.ssiCalls 4

theorem undisturbed_late_answer : ∃ m m' : Machine, ∃ last,
    Run (withHistory Step note) (m, fun _ => .program) lateAnswerTrace (m', last) ∧
    m'.TrapBlocked last testThreadAddr managerAddr ∧ m'.k.currentThread = m'.k.ssiTcb ∧
    (m'.Undisturbed (answer 0) testThreadAddr ↔
      m'.k.senderId m'.k.currentThread ≠ managerAddr) := by
  have hrun : passes (fun m => passes (fun s => s.1.k.currentThread = threadArrayAddr &&
      s.1.k.ssiTcb = threadArrayAddr && s.1.TrapBlocked s.2 testThreadAddr managerAddr)
      (exec (execWith fire note) (m, fun _ => .program) lateAnswerTrace)) (start .zeroed) = true := by
    decide +kernel
  obtain ⟨m, hm, hrun⟩ := exists_of_passes hrun
  obtain ⟨⟨m', last⟩, hs, hb⟩ := exists_of_passes hrun
  simp only [Bool.and_eq_true, decide_eq_true_eq] at hb
  obtain ⟨⟨hc, hssi⟩, hb⟩ := hb
  have hr := run_of_execWith (fun _ _ _ => step_of_fire) hs
  have hne : threadArrayAddr ≠ null ∧ threadArrayAddr ≠ managerAddr := by decide
  refine ⟨m, m', last, hr, hb, hc.trans hssi.symm, ?_⟩
  exact undisturbed_iff_of_run (initial_of_start Kernel.zeroed_powerOn hm) hr hb (hc ▸ hne.1)
    (State.syscall_isSend _ _ _) (receiver_answer m'.k 0) fun hd => hne.2 (hc.symm.trans hd.2.1)

/-- The manager sends something else than a decision: the kernel stores it through the reply
pointer of the trapped thread. -/
theorem undisturbed_fails : ¬ ∀ (m m' : Machine) (es : List Event) last old t s, m.Initial →
    Run (withHistory Step note) (m, fun _ => .program) es (m', last) → m'.TrapBlocked last t s →
    m'.k.currentThread ≠ null → old.isSend = true → m'.k.receiver old = t →
    ¬ m'.Decides old s → m'.Undisturbed old t := by
  intro hall
  have hrun : passes (fun m => passes (fun s => s.1.k.currentThread = managerAddr &&
      s.1.TrapBlocked s.2 testThreadAddr managerAddr &&
      match s.1.k.sysbpBody (answer 7) with
      | .error .trap => true
      | _ => false)
      (exec (execWith fire note) (m, fun _ => .program) trapTrace)) (start .zeroed) = true := by
    decide +kernel
  obtain ⟨m, hm, hrun⟩ := exists_of_passes hrun
  obtain ⟨⟨m', last⟩, hs, hb⟩ := exists_of_passes hrun
  simp only [Bool.and_eq_true, decide_eq_true_eq] at hb
  obtain ⟨⟨hc, hb⟩, hbody⟩ := hb
  have hne : managerAddr ≠ null := by decide
  have hreg := State.syscall_regs initTState sysSend testThreadAddr 7
  have hq := hall m m' _ last (answer 7) testThreadAddr managerAddr
    (initial_of_start Kernel.zeroed_powerOn hm) (run_of_execWith (fun _ _ _ => step_of_fire) hs)
    hb (hc ▸ hne) (State.syscall_isSend _ _ _) (receiver_answer m'.k _) (by
      rintro ⟨-, -, hv⟩
      rw [answer, hreg.2.2] at hv
      exact absurd hv (by decide))
  unfold Undisturbed at hq
  split at hbody
  · next he =>
    rw [he] at hq
    cases hq.1
  · cases hbody

end Machine

end AmiKaya
