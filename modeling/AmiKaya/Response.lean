import AmiKaya.Answers
import AmiKaya.PseudoClock

/-! The SSI gets to every message: it receives again after a bounded number of its calls, and only
the messages of the pseudo clock go ahead of those that are there already. -/
namespace AmiKaya
open Lts

/-- The calls that the SSI makes at most before it receives again. -/
def SsiPc.left : SsiPc → Nat
  | .recv => 0
  | .init | .answerThread | .terminate | .answerZero | .cpuTime | .waitIoClear => 1
  | .publish | .setManager _ | .waitIo => 2
  | .inherit | .addManager _ => 3
  | .copyState _ | .specWait _ => 4
  | .count _ | .spec _ => 5
  | .link _ => 6
  | .readParent => 7
  | .noGood _ => 8
  | .alloc _ => 9
  | .serve => 10
  | .checkWait => 11
  | .checkReady => 12
  | .interruptClear => 13
  | .interrupt => 14
  | .clock i => 13 + 2 * (maxThreads - 1 - i)
  | .clockClear i => 14 + 2 * (maxThreads - 2 - i)
  | .got => 14 + 2 * (maxThreads - 1)

/-- A receive and the longest way back to it. -/
def roundCalls : Nat := 15 + 2 * (maxThreads - 1)

theorem SsiPc.left_lt (p : SsiPc) : p.left < roundCalls := by
  cases p <;> simp only [left, roundCalls] <;> omega

namespace Ssi

variable {s : Ssi} {k : Kernel} {r : U32}

/-- Where a slot is emptied, the SSI knows which. -/
def Sited (s : Ssi) : Prop := s.pc = .interruptClear ∨ s.pc = .waitIoClear → s.deviceNum ≠ none

theorem dispatch_left (s : Ssi) (k : Kernel) : (s.dispatch k).pc.left < 10 := by
  unfold dispatch
  dsimp only
  repeat' split
  all_goals simp [SsiPc.left]

theorem next_sited (hs : s.Sited) : (s.next k r).Sited := by
  unfold Sited at hs ⊢
  cases hpc : s.pc <;> simp only [next, hpc]
  case serve =>
    unfold dispatch
    dsimp only
    repeat' split
    all_goals simp
  case alloc c | noGood c | copyState c =>
    cases c <;> dsimp only [Create.linkPc] <;> repeat' split
    all_goals simp
  case interruptClear | waitIoClear =>
    split
    · exact fun _ => hs (by simp [hpc])
    · simp
  all_goals
    repeat' split
    all_goals simp_all

/-- A call of the SSI other than a receive brings it nearer to the next receive. -/
theorem next_left (hs : s.Sited) (hpc : s.pc ≠ .recv) (hc : s.call k ≠ .fault) :
    (s.next k r).pc.left < s.pc.left := by
  cases hp : s.pc <;> simp only [next, hp]
  case recv => exact absurd hp hpc
  case serve => exact dispatch_left s k
  case interrupt =>
    split
    · next hd => simp [call, hp, hd] at hc
    · split <;> simp [SsiPc.left]
  case interruptClear | waitIoClear =>
    split
    · next hd => exact absurd hd (hs (by simp [hp]))
    · simp [SsiPc.left]
  case clock i =>
    split
    · simp only [SsiPc.left]
      omega
    · simp only [SsiPc.left]
      omega
  case alloc c | noGood c | copyState c =>
    cases c <;> dsimp only [Create.linkPc] <;> repeat' split
    all_goals simp [SsiPc.left]
  all_goals
    repeat' split
    all_goals simp [SsiPc.left, maxThreads]

end Ssi

namespace Kernel

variable {k k' : Kernel} {o : Op} {p : Ptr}

/-- Messages that are not the timer's go behind those that are there, as long as the thread lives
and makes no RECV. -/
theorem inbox_appended (h : OpStep k o k') (hf : p ∉ k'.tcbFree)
    (hrecv : ∀ w a r, o ≠ .recv p w a r) (halloc : ∀ q, o ≠ .alloc q)
    (hsend : ∀ s t v r, o = .send s t v r → k.senderId s ≠ busIntervalTimer) :
    p ∉ k.tcbFree ∧ ∃ l, (k'.tcb p).tInbox = (k.tcb p).tInbox ++ l := by
  have hsame : ∀ {q : Ptr} {t : Tcb}, t.tInbox = (k.tcb q).tInbox →
      ∃ l, (put k.tcb q t p).tInbox = (k.tcb p).tInbox ++ l := by
    intro q t ht
    by_cases hp : p = q
    · subst hp
      exact ⟨[], by simp [ht]⟩
    · exact ⟨[], by simp [Links.put_ne hp]⟩
  cases h with
  | quiet hq => exact ⟨hq.tcbFree ▸ hf, [], by simp [hq.tInbox]⟩
  | @send _ s t v r hs =>
    have henq : k.enqueue (k.senderId s) t v = .ok k' → p ∉ k.tcbFree ∧
        ∃ l, (k'.tcb p).tInbox = (k.tcb p).tInbox ++ l := by
      intro he
      obtain ⟨a, free, -, rfl⟩ := enqueue_cases he
      refine ⟨hf, ?_⟩
      by_cases hp : p = t
      · subst hp
        exact ⟨[⟨a, k.senderId s, v⟩], by simp [queued, hsend s p v r rfl]⟩
      · exact ⟨[], by simp [Links.put_ne hp]⟩
    rcases send_cases hs with ⟨-, -, he⟩ | ⟨-, -, -, -, -, -, -, rfl⟩ | ⟨-, -, -, -, -, -, he⟩ |
      ⟨-, -, -, rfl⟩
    · exact henq he
    · exact ⟨hf, hsame rfl⟩
    · exact henq he
    · exact ⟨hf, [], by simp⟩
  | recv hc hr =>
    rcases recv_cases hr with ⟨-, -, rfl⟩ | ⟨m, rest, -, -, -, rfl⟩
    · exact ⟨hf, hsame rfl⟩
    · have hne : p ≠ k.currentThread := by
        rintro rfl
        exact hrecv _ _ _ rfl
      exact ⟨hf, [], by simp [received, Links.put_ne hne]⟩
  | freeze hc hm => exact ⟨hf, hsame rfl⟩
  | terminate ht hr =>
    obtain ⟨hfree, hbox⟩ := terminate_inbox hr hf
    exact ⟨hfree, [], by simp [hbox]⟩
  | resume hr =>
    obtain ⟨-, -, rfl⟩ := continueTrapped_cases hr
    exact ⟨hf, [], by simp⟩
  | alloc ha hn => exact absurd rfl (halloc _)
  | insertChild hc => exact ⟨hf, hsame rfl⟩
  | request | dispatch | preempt | insertSibling | countThread | publish =>
    exact ⟨hf, [], (List.append_nil _).symm⟩

/-- A RECV that finds a message does not wait. -/
theorem sysbpHandler_taken {old : State} {x : Msg} {rest : List Msg} (hs : old.isSend = false)
    (hr : old.isRecv = true) (h : k.sysbpHandler old = .ok k')
    (hpop : popMessage (k.tcb k.currentThread).tInbox old.regA1 = some (x, rest)) :
    k'.waitQueue = k.waitQueue := by
  obtain ⟨k₁, h₁, hsch⟩ := bind_eq_ok.mp h
  have hq := sysbpEnter_quiet (k := k) old
  rw [(scheduler_silent hsch).waitQueue]
  rw [sysbpBody_eq, hs, hr] at h₁
  simp only [Bool.false_eq_true, if_false, if_true] at h₁
  obtain ⟨⟨r, k₂⟩, h₂, h₃⟩ := bind_eq_ok.mp h₁
  cases h₃
  rw [hq.currentThread] at h₂
  rcases recv_cases h₂ with ⟨hnone, -⟩ | ⟨y, rest', -, -, -, rfl⟩
  · rw [hq.tInbox, hpop] at hnone
    cases hnone
  · exact hq.waitQueue

theorem call_of_perform {old : State} {c : Call} {x : U32 × Kernel}
    (h : k.perform old c = .ok x) : c ≠ .panic ∧ c ≠ .fault := by
  constructor
  · rintro rfl
    cases h
  · rintro rfl
    cases h

/-- Only the timer sends in its own name. -/
theorem report_tick {cause : U32} {r : Report} (h : k.report cause = some r)
    (hr : r.sender = busIntervalTimer) : r.service = pseudoClockMsg := by
  have hdev : ∀ line ∈ [3, 4, 5, 6, 7], ∀ dev ∈ List.range 8,
      deviceBaseAddr line dev ≠ busIntervalTimer ∧
      deviceBaseAddr line dev + 8 ≠ busIntervalTimer := by decide
  have hbase := fun line hl bitmap =>
    hdev line hl (whichDevice bitmap) (List.mem_range.mpr (whichDevice_lt bitmap))
  have hdtp : ∀ line ∈ [3, 4, 5, 6, 7], k.dtpReport line = some r → False := by
    intro line hl h
    cases h
    exact (hbase line hl _).1 hr
  unfold report at h
  split at h
  · unfold timerReport at h
    split at h
    · cases h
      rfl
    · cases h
  exfalso
  split at h
  · exact hdtp intDisk (by decide) h
  split at h
  · exact hdtp intTape (by decide) h
  split at h
  · exact hdtp intUnused (by decide) h
  split at h
  · exact hdtp intPrinter (by decide) h
  split at h
  · unfold terminalReport at h
    dsimp only at h
    split at h
    · cases h
      exact (hbase intTerminal (by decide) _).2 hr
    · split at h
      · cases h
        exact (hbase intTerminal (by decide) _).1 hr
      · cases h
  · cases h

end Kernel

/-- A call of the SSI. -/
def Event.isSsi : Event → Bool
  | .ssi _ => true
  | _ => false

theorem Event.isSsi_eq_false {e : Event} (he : ∀ old, e ≠ .ssi old) : e.isSsi = false := by
  cases e with
  | ssi old => exact absurd rfl (he old)
  | sysbp | pgmtrap | tlb | interrupt | devices | store | edit => rfl

namespace Machine

variable {m m' m₀ : Machine} {e : Event} {es es₀ : List Event} {x : Msg} {pre post : List Msg}

/-- The inbox of the SSI. -/
def inbox (m : Machine) : List Msg := (m.k.tcb m.k.ssiTcb).tInbox

/-- One message more goes ahead, if the timer sends it. -/
theorem inbox_interrupt {old : State} (hw : m.Wf) (h : m.Step (.interrupt old) m')
    (hx : m.inbox = pre ++ x :: post) : ∃ pre' post', m'.inbox = pre' ++ x :: post' ∧
      pre'.length ≤ pre.length + if m.sendsTick (.interrupt old) then 1 else 0 := by
  obtain ⟨k, hb, ⟨-, hk⟩ | ⟨hsch, -⟩⟩ := step_body h
  swap
  · cases hsch
  obtain ⟨k₁, hout, rfl⟩ := Kernel.intBody_outcome hw.placed hw.ssi hb
  have hend := Kernel.scheduler_silent hk
  have hinbox : m'.inbox = (k₁.tcb k₁.ssiTcb).tInbox := by
    rw [inbox, hend.ssiTcb]
    exact hend.tInbox _
  rw [hinbox]
  rw [inbox] at hx
  cases hrep : (m.k.intEnter old).report old.cause with
  | none =>
    rw [hrep] at hout
    rw [hout.ssiTcb, hout.tInbox, hx]
    exact ⟨pre, post, rfl, Nat.le_add_right _ _⟩
  | some r =>
    rw [hrep] at hout
    obtain ⟨⟨-, hssi, hcase⟩, -⟩ := hout
    rw [hssi]
    rcases hcase with ⟨-, -, -, hbox⟩ | ⟨-, -, b, free, -, hbox⟩
    · rw [hbox, hx]
      exact ⟨pre, post, rfl, Nat.le_add_right _ _⟩
    · rw [hbox, hx]
      unfold Kernel.queued
      by_cases ht : r.sender = busIntervalTimer
      · have htick : m.sendsTick (.interrupt old) = true := by
          simp only [sendsTick, hrep, decide_eq_true_eq]
          exact Kernel.report_tick hrep ht
        rw [if_pos ht, if_pos htick]
        exact ⟨_ :: pre, post, rfl, le_rfl⟩
      · rw [if_neg ht, List.append_assoc, List.cons_append]
        exact ⟨pre, post ++ [_], rfl, Nat.le_add_right _ _⟩

theorem entry_of_not_interrupt (he : ∀ old, e ≠ .interrupt old) : m.entry e ≠ .interrupt := by
  cases e with
  | interrupt old => exact absurd rfl (he old)
  | ssi old =>
    simp only [entry]
    split <;> simp
  | sysbp old =>
    simp only [entry, Kernel.sysbpEntry]
    repeat' split
    all_goals simp
  | pgmtrap | tlb | devices | store | edit => simp [entry]

/-- Outside the interrupt handler nobody sends in the name of the timer. -/
theorem sender_ne_timer {k : Kernel} {s t : Ptr} {v r : U32} (hw : m.Wf)
    (hint : ∀ old, e ≠ .interrupt old)
    (ho : (m.entry e).Allows m.k.currentThread (.send s t v r)) :
    k.senderId s ≠ busIntervalTimer := by
  rcases ho with ⟨rfl, -⟩ | ⟨-, hi⟩
  · unfold Kernel.senderId
    split
    · decide
    · intro hc
      have hn : m.k.currentThread ≠ null := by
        rw [hc]
        decide
      have hm := hw.placed.sub _ (Kernel.mem_places.mpr (.inr (.inr (.inr ⟨rfl, hn⟩))))
      exact (deviceIds_notMem List.mem_cons_self).1 (hc ▸ hm)
  · exact absurd hi (entry_of_not_interrupt hint)

/-- The TCB that is allocated is not that of the SSI. -/
theorem inbox_alloc (hw : m.Wf) (h : m.Step e m') (hal : m.entry e = .alloc) :
    (m'.k.tcb m.k.ssiTcb).tInbox = m.inbox := by
  have hssi : ∃ old, e = .ssi old := by
    by_contra hno
    exact (entry_of_not_ssi fun old he => hno ⟨old, he⟩).1 hal
  obtain ⟨old, rfl⟩ := hssi
  obtain ⟨c, hpc⟩ := entry_alloc hal
  obtain ⟨r, hperf, -⟩ := ssi_step h
  rw [show m.ssi.call m.k = .allocTcb by simp [Ssi.call, hpc]] at hperf
  have hne := (ssi_notMem hw h.1).2.2
  have hk : m'.k = m.k.allocTcb.2 := congrArg Prod.snd (Except.ok.inj hperf).symm
  rw [hk, inbox, Kernel.allocTcb]
  split
  · rfl
  · next p free hfree =>
    rw [hfree] at hne
    exact congrArg Tcb.tInbox (Links.put_ne (List.ne_of_not_mem_cons hne))

/-- Only in its own RECV the SSI is the receiver. -/
theorem recv_ssi {w a r : U32} (h : m.Step e m')
    (ho : (m.entry e).Allows m.k.currentThread (.recv m.k.ssiTcb w a r)) :
    (∃ old, e = .ssi old) ∧ m.ssi.pc = .recv := by
  obtain ⟨hcur, hentry⟩ := ho
  cases e with
  | ssi old =>
    have hat := m.ssi.call_at m.k
    simp only [entry] at hentry
    cases hcall : m.ssi.call m.k <;> rw [hcall] at hat hentry
    case msgRecv => exact ⟨⟨old, rfl⟩, hat.1⟩
    all_goals cases hentry
  | sysbp old => exact absurd hcur.symm h.1.2
  | pgmtrap | tlb | interrupt | devices | store | edit => cases hentry

/-- Other steps put nothing ahead, as long as the SSI does not receive. -/
theorem inbox_other (hw : m.Wf) (h : m.Step e m') (hint : ∀ old, e ≠ .interrupt old)
    (hrecv : ∀ old, e = .ssi old → m.ssi.pc ≠ .recv) (hf : m.k.ssiTcb ∉ m'.k.tcbFree) :
    ∃ l, m'.inbox = m.inbox ++ l := by
  have hops := ops_of_step hw h
  rw [inbox, hops.ssiTcb]
  by_cases hal : m.entry e = .alloc
  · exact ⟨[], by rw [inbox_alloc hw h hal, List.append_nil]⟩
  · have hinv := hops.inv (I := fun k => m.k.ssiTcb ∉ k.tcbFree →
      ∃ l, (k.tcb m.k.ssiTcb).tInbox = m.inbox ++ l) ?_ fun _ => ⟨[], by simp [inbox]⟩
    · exact hinv hf
    · intro k o k' hs ho hi hf
      have hother : ∀ w a r, o ≠ .recv m.k.ssiTcb w a r := by
        rintro w a r rfl
        obtain ⟨⟨old, he⟩, hpc⟩ := recv_ssi h ho
        exact hrecv old he hpc
      have hkeeps : ∀ q, o ≠ .alloc q := by
        rintro q rfl
        exact hal ho
      have hsender : ∀ s t v r, o = .send s t v r → k.senderId s ≠ busIntervalTimer := by
        rintro s t v r rfl
        exact sender_ne_timer hw hint ho
      obtain ⟨hfree, l, hl⟩ := Kernel.inbox_appended hs hf hother hkeeps hsender
      obtain ⟨l₀, hl₀⟩ := hi hfree
      exact ⟨l₀ ++ l, by rw [hl, hl₀, List.append_assoc]⟩

/-- The SSI receives the message. -/
def Takes (m : Machine) (e : Event) (m' : Machine) (x : Msg) : Prop :=
  (∃ old, e = .ssi old) ∧ m.ssi.pc = .recv ∧ m'.ssi.pc = .got ∧ m.inbox = x :: m'.inbox ∧
    (m'.k.tcb m.k.ssiTcb).tState.regV0 = x.mSender ∧ m'.k.mem m.ssi.reqStruct = x.mMessage

/-- A receive takes the first message. -/
theorem inbox_recv {old : State} {y : Msg} {rest : List Msg} (hw : m.Wf) (h : m.Step (.ssi old) m')
    (hpc : m.ssi.pc = .recv) (hx : m.inbox = y :: rest) : m.Takes (.ssi old) m' y := by
  have hcur : m.k.currentThread = m.k.ssiTcb := h.1
  have hssi := (ops_of_step hw h).ssiTcb
  have hpop : popMessage (m.k.tcb m.k.ssiTcb).tInbox anyMessage = some (y, rest) := by
    rw [← inbox, hx]
    rfl
  have hrest : m'.inbox = rest := by
    rw [inbox, hssi]
    exact recv_rest h hpc hpop
  obtain ⟨r, hperf, hnext⟩ := ssi_step h
  rw [show m.ssi.call m.k = .msgRecv m.ssi.reqStruct by simp [Ssi.call, hpc]] at hperf
  obtain ⟨k, hk, hr⟩ := bind_eq_ok.mp hperf
  cases hr
  have hregs := old.syscall_regs sysRecv anyMessage m.ssi.reqStruct
  have hcall := old.syscall_isRecv anyMessage m.ssi.reqStruct
  have hpop' := hpop
  rw [← hcur, ← hregs.2.1] at hpop'
  have hwait := Kernel.sysbpHandler_taken hcall.1 hcall.2 hk hpop'
  have hout : m'.k.ssiTcb ∉ m'.k.waitQueue := by
    rw [hwait, hssi]
    exact (ssi_notMem hw h.1).2.1
  refine ⟨⟨old, rfl⟩, hpc, by simp [hnext, Ssi.next, hpc], by rw [hx, hrest], ?_, ?_⟩
  · obtain ⟨y', rest', hy, hv⟩ := recv_sender hw h hpc hout
    rw [hpop] at hy
    cases hy
    rwa [hssi] at hv
  · rcases Kernel.sysbpHandler_popped hcall.1 hcall.2 hk with ⟨hnone, -⟩ | ⟨y', rest', hy, -, hmem⟩
    · rw [hpop'] at hnone
      cases hnone
    · rw [hpop'] at hy
      cases hy
      rw [hregs.2.2] at hmem
      exact hmem

/-- The calls of the SSI and the ticks of a run. -/
structure Work where
  calls : Nat
  ticks : Nat

def Work.note (m : Machine) (e : Event) (_ : Machine) (n : Work) : Work :=
  ⟨n.calls + if e.isSsi then 1 else 0, n.ticks + if m.sendsTick e then 1 else 0⟩

/-- How far the SSI is from a message with these before it. -/
def ahead (m : Machine) (pre : List Msg) : Nat := m.ssi.pc.left + roundCalls * pre.length

/-- In a step the SSI takes the message, or dies, or gets nearer to it with each call; only the
timer sets it back. -/
theorem ahead_step (hw : m.Wf) (hs : m.ssi.Sited) (h : m.Step e m')
    (hx : m.inbox = pre ++ x :: post) :
    m.Takes e m' x ∨ m.k.ssiTcb ∈ m'.k.tcbFree ∨ ∃ pre' post', m'.inbox = pre' ++ x :: post' ∧
      m'.ahead pre' + (if e.isSsi then 1 else 0) ≤
        m.ahead pre + roundCalls * (if m.sendsTick e then 1 else 0) := by
  by_cases hf : m.k.ssiTcb ∈ m'.k.tcbFree
  · exact .inr (.inl hf)
  rcases step_cases h with ⟨hssi, hne⟩ | ⟨old, r, rfl, -, hperf, hssi⟩
  · have hcalls := Event.isSsi_eq_false hne
    have hback : ∃ pre' post', m'.inbox = pre' ++ x :: post' ∧
        pre'.length ≤ pre.length + if m.sendsTick e then 1 else 0 := by
      by_cases hint : ∃ old, e = .interrupt old
      · obtain ⟨old, rfl⟩ := hint
        exact inbox_interrupt hw h hx
      · obtain ⟨l, hl⟩ := inbox_other hw h (fun old he => hint ⟨old, he⟩)
          (fun old he => absurd he (hne old)) hf
        rw [hx, List.append_assoc] at hl
        exact ⟨pre, post ++ l, hl, Nat.le_add_right _ _⟩
    obtain ⟨pre', post', hbox, hlen⟩ := hback
    have hmul := Nat.mul_le_mul_left roundCalls hlen
    rw [Nat.mul_add] at hmul
    refine .inr (.inr ⟨pre', post', hbox, ?_⟩)
    simp only [ahead, hssi, hcalls, Bool.false_eq_true, if_false]
    omega
  · by_cases hpc : m.ssi.pc = .recv
    · cases pre with
      | nil => exact .inl (inbox_recv hw h hpc hx)
      | cons y pre =>
        -- a message before it
        obtain ⟨-, -, hgot, hbox, -⟩ := inbox_recv hw h hpc hx
        rw [hx] at hbox
        refine .inr (.inr ⟨pre, post, (List.cons.inj hbox).2.symm, ?_⟩)
        simp only [ahead, hgot, hpc, SsiPc.left, List.length_cons, Nat.mul_succ, Event.isSsi,
          if_true]
        unfold roundCalls
        omega
    · obtain ⟨l, hl⟩ := inbox_other hw h (by simp) (fun _ _ => hpc) hf
      have hcall := (Kernel.call_of_perform hperf).2
      have hleft := Ssi.next_left (r := r) hs hpc hcall
      rw [hx, List.append_assoc] at hl
      refine .inr (.inr ⟨pre, post ++ l, hl, ?_⟩)
      simp only [ahead, hssi, Event.isSsi, if_true]
      omega

theorem sited_step (hs : m.ssi.Sited) (h : m.Step e m') : m'.ssi.Sited := by
  rcases step_cases h with ⟨hssi, -⟩ | ⟨old, r, -, -, -, hssi⟩
  · rw [hssi]
    exact hs
  · rw [hssi]
    exact Ssi.next_sited hs

/-- A message that the run neither takes nor loses with the SSI bounds the calls: by induction on
the run. -/
theorem ahead_run {s t : Machine × Work} (hr : Run (withHistory Step Work.note) s es t)
    (hw : s.1.Wf) (hs : s.1.ssi.Sited) (hx : s.1.inbox = pre ++ x :: post) :
    (∃ es₁ m₁ e m₂ es₂, es = es₁ ++ e :: es₂ ∧ Run Step s.1 es₁ m₁ ∧ m₁.Step e m₂ ∧
      Run Step m₂ es₂ t.1 ∧ (m₁.Takes e m₂ x ∨ s.1.k.ssiTcb ∈ m₂.k.tcbFree)) ∨
    ∃ pre' post', t.1.inbox = pre' ++ x :: post' ∧
      t.1.ahead pre' + t.2.calls + roundCalls * s.2.ticks ≤
        s.1.ahead pre + s.2.calls + roundCalls * t.2.ticks := by
  induction hr generalizing pre post with
  | refl => exact .inr ⟨pre, post, hx, le_rfl⟩
  | @stepL s e u es t hst hrest ih =>
    obtain ⟨hst, hnote⟩ := hst
    rcases ahead_step hw hs hst hx with htake | hdead | ⟨pre', post', hx', hle⟩
    · exact .inl ⟨[], s.1, e, u.1, es, rfl, .refl, hst, hrest.erase, .inl htake⟩
    · exact .inl ⟨[], s.1, e, u.1, es, rfl, .refl, hst, hrest.erase, .inr hdead⟩
    · rcases ih (hw.step hst) (sited_step hs hst) hx' with
        ⟨es₁, m₁, e', m₂, es₂, rfl, hr₁, hst₂, hr₂, hend⟩ | ⟨pre'', post'', hx'', hle'⟩
      · rw [(ops_of_step hw hst).ssiTcb] at hend
        exact .inl ⟨e :: es₁, m₁, e', m₂, es₂, rfl, .stepL hst hr₁, hst₂, hr₂, hend⟩
      · refine .inr ⟨pre'', post'', hx'', ?_⟩
        rw [hnote] at hle'
        simp only [Work.note, Nat.mul_add] at hle'
        omega

/-- In every run, the SSI receives a message of its inbox before it has made a round of calls for
it, for each message before it and for each tick meanwhile, unless it dies. -/
theorem ssi_responds {n : Work} (hm : m₀.Initial) (hr₀ : Run Step m₀ es₀ m)
    (hx : m.inbox = pre ++ x :: post)
    (hr : Run (withHistory Step Work.note) (m, ⟨0, 0⟩) es (m', n))
    (hn : roundCalls * (pre.length + 1 + n.ticks) ≤ n.calls) :
    ∃ es₁ m₁ e m₂ es₂, es = es₁ ++ e :: es₂ ∧ Run Step m es₁ m₁ ∧ m₁.Step e m₂ ∧
      Run Step m₂ es₂ m' ∧ (m₁.Takes e m₂ x ∨ m.k.ssiTcb ∈ m₂.k.tcbFree) := by
  have hsited : m₀.ssi.Sited := fun hpc => by simp [hm.pc] at hpc
  obtain ⟨hw, hs⟩ := hr₀.inv (I := fun m => m.Wf ∧ m.ssi.Sited)
    (fun _ _ _ h hi => ⟨hi.1.step h, sited_step hi.2 h⟩) ⟨initial_wf hm, hsited⟩
  rcases ahead_run hr hw hs hx with htaken | ⟨pre', post', -, hle⟩
  · exact htaken
  · exfalso
    have hleft := m.ssi.pc.left_lt
    simp only [ahead, Nat.mul_add] at hle hn
    omega

/-- The test thread sends requests for the next tick. The SSI is given the first one, and takes the
second one from its inbox while it works on them. -/
theorem ssi_responds_clock : ∃ m₀ m m' : Machine, ∃ n x post, m₀.Initial ∧
    Run Step m₀ ((clockRequests 11).take 14) m ∧ m.inbox = x :: post ∧
    Run (withHistory Step Work.note) (m, ⟨0, 0⟩) ((clockRequests 11).drop 14) (m', n) ∧
    ∃ es₁ m₁ e m₂ es₂, (clockRequests 11).drop 14 = es₁ ++ e :: es₂ ∧ Run Step m es₁ m₁ ∧
      m₁.Step e m₂ ∧ Run Step m₂ es₂ m' ∧ (m₁.Takes e m₂ x ∨ m.k.ssiTcb ∈ m₂.k.tcbFree) := by
  have hrun : passes (fun m₀ => passes (fun m => m.inbox ≠ [] && passes (fun s =>
        roundCalls * (1 + s.2.ticks) ≤ s.2.calls)
        (exec (execWith fire Work.note) (m, ⟨0, 0⟩) ((clockRequests 11).drop 14)))
      (exec fire m₀ ((clockRequests 11).take 14))) (start .zeroed) = true := by
    decide +kernel
  obtain ⟨m₀, hm, hrun⟩ := exists_of_passes hrun
  obtain ⟨m, hs, hrun⟩ := exists_of_passes hrun
  simp only [Bool.and_eq_true, decide_eq_true_eq] at hrun
  obtain ⟨hne, hrun⟩ := hrun
  obtain ⟨⟨m', n⟩, hs', hcalls⟩ := exists_of_passes hrun
  obtain ⟨x, post, hx⟩ := List.exists_cons_of_ne_nil hne
  have hi := initial_of_start Kernel.zeroed_powerOn hm
  have hr₀ : Run Step m₀ _ m := (run_of_exec hs).mono fun _ _ _ => step_of_fire
  have hr : Run (withHistory Step Work.note) (m, ⟨0, 0⟩) _ (m', n) :=
    run_of_execWith (fun _ _ _ => step_of_fire) hs'
  have hn : roundCalls * (([] : List Msg).length + 1 + n.ticks) ≤ n.calls := by
    simpa using of_decide_eq_true hcalls
  have hnil : m.inbox = [] ++ x :: post := hx
  exact ⟨m₀, m, m', n, x, post, hi, hr₀, hx, hr, ssi_responds hi hr₀ hnil hr hn⟩

end Machine

end AmiKaya
