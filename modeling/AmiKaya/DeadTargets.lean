import AmiKaya.Kinship

/-! A SEND to a thread that no longer exists. -/
namespace AmiKaya
open Lts

namespace Kernel

variable {k k' : Kernel} {s t : Ptr} {v : U32} {old : State}

@[simp] theorem setTimer_tcb (k : Kernel) (slice : U32) : (k.setTimer slice).tcb = k.tcb := by
  unfold setTimer
  split <;> rfl

/-- The current thread goes on in the state that was saved for it. -/
theorem resumeCurrent_cpu (k : Kernel) : k.resumeCurrent.tcb = k.tcb ∧
    k.resumeCurrent.cpu = (k.tcb k.currentThread).tState := by
  have hq := Quiet.resumeCurrent (k := k)
  have htcb : k.resumeCurrent.tcb = k.tcb := by
    simp only [resumeCurrent, ldst, setTimer_tcb]
    rfl
  refine ⟨htcb, ?_⟩
  have hcpu : k.resumeCurrent.cpu = (k.resumeCurrent.tcb k.resumeCurrent.currentThread).tState :=
    rfl
  rw [hcpu, htcb, hq.currentThread]

/-- The handler has refused to send: the sender goes on with MSGNOGOOD in `v0`, and no queue, inbox,
free list, link or counter has changed. -/
def Refused (k : Kernel) (r : Except Stop Kernel) : Prop :=
  ∃ k', r = .ok k' ∧ Quiet k k' ∧ k'.cpu = (k'.tcb k.currentThread).tState ∧
    k'.cpu.regV0 = msgNoGood

theorem send_dead (hk : Placed k) (ht : t ∈ k.tcbFree) : k.send s t v = .ok (msgNoGood, k) := by
  obtain ⟨hr, hw, hc⟩ := hk.free_notMem ht
  have hready : ¬ (thereIsThread k.readyQueue t ≠ null ∨ k.currentThread = t) := by
    rintro (h | h)
    · exact hr (thereIsThread_ne_null.mp h).1
    · exact hc h
  have hwait : ¬ thereIsThread k.waitQueue t ≠ null := fun h => hw (thereIsThread_ne_null.mp h).1
  simp only [send, if_neg hready, if_neg hwait]

/-- There is no decision to take about a dead thread: one call stops in `terminate`, the other one
inserts NULL in the ready queue. -/
theorem decision_dead (hk : Placed k) (ht : t ∈ k.tcbFree) : k.decision t v ≠ .ok k' := by
  intro h
  obtain ⟨-, hw, -⟩ := hk.free_notMem ht
  have hn := hk.ne_null (mem_places.mpr (.inr (.inr (.inl ht))))
  unfold decision at h
  split at h
  · obtain ⟨ds, hd, hreap⟩ := Reaped.terminate hk hn h
    exact ((hreap.live t hd).allocated hk).2 ht
  · exact hw (continueTrapped_cases h).1

/-- What is left of the SEND of a message nobody can get. -/
theorem sendOrdinary_dead (hk : Placed k) (ht : t ∈ k.tcbFree) : k.sendOrdinary s t v =
    .ok (k.setTcb s fun x => { x with tState := x.tState.setV0 msgNoGood }) := by
  simp only [sendOrdinary, send_dead hk ht, bind, Except.bind]

/-- The sender of a message to a dead thread is resumed. -/
theorem scheduler_refused (hc : k.currentThread ≠ null) : ∃ k',
    (k.setTcb k.currentThread fun x => { x with tState := x.tState.setV0 msgNoGood }).scheduler =
      .ok k' ∧ Quiet k k' ∧ k'.cpu = (k'.tcb k.currentThread).tState ∧ k'.cpu.regV0 = msgNoGood := by
  have hset : Quiet k (k.setTcb k.currentThread fun x =>
      { x with tState := x.tState.setV0 msgNoGood }) := Quiet.setTcb fun _ => ⟨rfl, rfl, rfl, rfl⟩
  have hcur := hset.currentThread
  obtain ⟨htcb, hcpu⟩ := resumeCurrent_cpu (k.setTcb k.currentThread fun x =>
    { x with tState := x.tState.setV0 msgNoGood })
  refine ⟨_, ?_, hset.trans .resumeCurrent, ?_, ?_⟩
  · rw [scheduler, if_neg (hcur ▸ hc)]
  · rw [hcpu, htcb, hcur]
  · rw [hcpu, hcur]
    simp [setTcb, State.setV0, State.setReg, State.regV0]

end Kernel

namespace Machine

variable {m m' : Machine} {es : List Event} {old : State}

/-- A SEND to a dead thread is refused if and only if it neither names MAGIC_SSI, which is counted
as a request, nor looks like the decision of a manager about that thread. -/
theorem send_dead_iff (h : m.Initial) (hr : Run Step m es m') (hc : m'.k.currentThread ≠ null)
    (hs : old.isSend = true) (hd : m'.k.receiver old ∈ m'.k.tcbFree) :
    m'.k.Refused (m'.k.sysbpHandler old) ↔ old.regA1 ≠ magicSsi ∧
      ¬ (m'.k.intercepts m'.k.currentThread (m'.k.receiver old) = true ∧
        (old.regA2 = trapTerminate ∨ old.regA2 = trapContinue)) := by
  have hk := (wf_of_run h hr).placed
  have hn := threadArray_aligned (hk.sub _ (Kernel.mem_places.mpr (.inr (.inr (.inl hd)))))
  obtain ⟨hready, hwait, hfree, hcur, -, -, -, -, -⟩ := m'.k.sendEnter_eq old
  have hplaces : (m'.k.sendEnter old).places = m'.k.places := by
    simp only [Kernel.places, hready, hwait, hfree, Kernel.running_eq hcur]
  have hk' : Placed (m'.k.sendEnter old) := hk.of_perm (hplaces ▸ List.Perm.refl _)
  have hd' : m'.k.receiver old ∈ (m'.k.sendEnter old).tcbFree := hfree ▸ hd
  have hbody := Kernel.sysbpBody_send hs rfl hn
  have hint : m'.k.intercepts m'.k.currentThread (m'.k.receiver old) = true ↔
      m'.k.thereIsManager m'.k.currentThread ≠ null ∧
        (m'.k.tcb (m'.k.receiver old)).waitingFor = m'.k.currentThread := by
    simp [Kernel.intercepts, hn.1]
  rw [hint]
  by_cases hdec : (m'.k.thereIsManager m'.k.currentThread ≠ null ∧
      (m'.k.tcb (m'.k.receiver old)).waitingFor = m'.k.currentThread) ∧
        (old.regA2 = trapTerminate ∨ old.regA2 = trapContinue)
  · -- the handler takes the message for a decision
    rw [if_pos hdec] at hbody
    constructor
    · rintro ⟨k', hok, -⟩
      obtain ⟨k₁, hb, -⟩ := bind_eq_ok.mp hok
      exact absurd (hbody.symm.trans hb) (Kernel.decision_dead hk' hd')
    · rintro ⟨-, hnot⟩
      exact absurd hdec hnot
  · rw [if_neg hdec, Kernel.sendOrdinary_dead hk' hd', ← hcur] at hbody
    obtain ⟨k', hsched, hq, hcpu, hv0⟩ := Kernel.scheduler_refused (hcur ▸ hc)
    have hhandler : m'.k.sysbpHandler old = .ok k' := by
      rw [Kernel.sysbpHandler, hbody]
      exact hsched
    have hcount : (m'.k.sendEnter old).softBlockCount = _ := Kernel.sendEnter_softBlockCount old
    constructor
    · rintro ⟨k'', hok, hq', -⟩
      obtain rfl := Except.ok.inj (hhandler.symm.trans hok)
      refine ⟨fun ha => ?_, hdec⟩
      rw [if_pos ha, ← hq.softBlockCount, hq'.softBlockCount] at hcount
      simp at hcount
    · rintro ⟨ha, -⟩
      have henter : m'.k.sendEnter old = m'.k.sysbpEnter old := by rw [Kernel.sendEnter, if_neg ha]
      refine ⟨k', hhandler, ?_, hcur ▸ hcpu, hv0⟩
      exact (Kernel.sysbpEnter_quiet old).trans (henter ▸ hq)

/-- The test thread becomes the manager of its child, which traps, and ends it. -/
def deadChildTrace : List Event :=
  Event.ssiCalls 2 ++ Event.ssiRequest createSon 0 ++ Event.ssiCalls 12 ++
    Event.ssiRequest specPrgMgr testThreadAddr ++ [Event.call sysRecv anyMessage 0x20030200] ++
    Event.ssiCalls 10 ++ [.pgmtrap initTState, Event.call sysSend thirdThreadAddr trapTerminate]

/-- The manager sends the dead child a message that is no decision. -/
theorem send_dead_iff_message : ∃ m m' : Machine, Run Step m deadChildTrace m' ∧
    m'.k.Refused (m'.k.sysbpHandler (initTState.syscall sysSend thirdThreadAddr 2)) := by
  have hrun : passes (fun m => passes (fun s => s.k.currentThread ≠ null &&
      thirdThreadAddr ∈ s.k.tcbFree) (exec fire m deadChildTrace)) (start .zeroed) = true := by
    decide +kernel
  obtain ⟨m, hm, hrun⟩ := exists_of_passes hrun
  obtain ⟨m', hs, hend⟩ := exists_of_passes hrun
  simp only [Bool.and_eq_true, decide_eq_true_eq] at hend
  have hr : Run Step m deadChildTrace m' := (run_of_exec hs).mono fun _ _ _ => step_of_fire
  have hsend : (initTState.syscall sysSend thirdThreadAddr 2).isSend = true := by decide
  have hiff := send_dead_iff (initial_of_start Kernel.zeroed_powerOn hm) hr hend.1 hsend hend.2
  exact ⟨m, m', hr, hiff.mpr ⟨by decide, fun hdec => absurd hdec.2 (by decide)⟩⟩

/-- The manager decides once more about the dead child: the kernel panics. -/
theorem send_dead_panics : ¬ ∀ (m m' : Machine) (es : List Event) (old : State), m.Initial →
    Run Step m es m' → m'.k.currentThread ≠ null → old.isSend = true →
    m'.k.receiver old ∈ m'.k.tcbFree → m'.k.Refused (m'.k.sysbpHandler old) := by
  intro hall
  have hrun : passes (fun m => passes (fun s => s.k.currentThread ≠ null &&
      thirdThreadAddr ∈ s.k.tcbFree &&
      ! passes (fun _ => true)
        (s.k.sysbpHandler (initTState.syscall sysSend thirdThreadAddr trapTerminate)))
      (exec fire m deadChildTrace)) (start .zeroed) = true := by
    decide +kernel
  obtain ⟨m, hm, hrun⟩ := exists_of_passes hrun
  obtain ⟨m', hs, hend⟩ := exists_of_passes hrun
  simp only [Bool.and_eq_true, decide_eq_true_eq] at hend
  obtain ⟨⟨hc, hd⟩, hbad⟩ := hend
  have hr : Run Step m deadChildTrace m' := (run_of_exec hs).mono fun _ _ _ => step_of_fire
  have hsend : (initTState.syscall sysSend thirdThreadAddr trapTerminate).isSend = true := by decide
  obtain ⟨k', hok, -⟩ := hall m m' _ _ (initial_of_start Kernel.zeroed_powerOn hm) hr hc hsend hd
  simp [hok, passes] at hbad

end Machine

end AmiKaya
