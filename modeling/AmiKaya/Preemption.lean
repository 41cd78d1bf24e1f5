import AmiKaya.DeadTargets
import AmiKaya.Frames
import AmiKaya.SoftBlock
import AmiKaya.Unqueued

/-! Interrupts are transparent: a thread goes on with the state it was interrupted in. -/
namespace AmiKaya
open Lts

/-- The saved states are left alone, except those of `c` and of the threads in the wait queue; and
nobody but `c` starts waiting. -/
structure Spares (c : Ptr) (k k' : Kernel) : Prop where
  wait : ∀ p ∈ k'.waitQueue, p ≠ c → p ∈ k.waitQueue
  tState : ∀ p, p ≠ c → p ∉ k.waitQueue → (k'.tcb p).tState = (k.tcb p).tState

namespace Spares

variable {k k' k'' : Kernel} {c s t : Ptr}

theorem refl (k : Kernel) : Spares c k k := ⟨fun _ hp _ => hp, fun _ _ _ => rfl⟩

theorem trans (h : Spares c k k') (h' : Spares c k' k'') : Spares c k k'' := by
  refine ⟨?_, ?_⟩
  · intro p hp hc
    exact h.wait p (h'.wait p hp hc) hc
  · intro p hc hp
    have hp' : p ∉ k'.waitQueue := fun hm => hp (h.wait p hm hc)
    exact (h'.tState p hc hp').trans (h.tState p hc hp)

/-- Most of the kernel does not look at the states at all. -/
theorem of_same (hw : k'.waitQueue = k.waitQueue) (ht : ∀ p, (k'.tcb p).tState = (k.tcb p).tState) :
    Spares c k k' :=
  ⟨fun _ hp _ => hw ▸ hp, fun p _ _ => ht p⟩

/-- A store in the TCB of `c`. -/
theorem setTcb (f : Tcb → Tcb) : Spares c k (k.setTcb c f) := by
  refine ⟨fun _ hp _ => hp, ?_⟩
  intro p hc _
  simp [Kernel.setTcb, hc]

/-- A store in another field of a TCB. -/
theorem setField {f : Tcb → Tcb} (hf : ∀ x : Tcb, (f x).tState = x.tState) :
    Spares c k (k.setTcb t f) := by
  refine of_same rfl ?_
  intro p
  by_cases hp : p = t
  · subst hp
    simp [Kernel.setTcb, hf]
  · simp [Kernel.setTcb, hp]

theorem enqueue {v : U32} (h : k.enqueue s t v = .ok k') : Spares c k k' := by
  obtain ⟨a, free, -, rfl⟩ := Kernel.enqueue_cases h
  refine of_same rfl ?_
  intro p
  by_cases hp : p = t
  · subst hp
    simp
  · simp [hp]

/-- A message that wakes its recipient changes the state of nobody else. -/
theorem send {v r : U32} (h : k.send s t v = .ok (r, k')) : Spares c k k' := by
  rcases Kernel.send_cases h with ⟨-, -, he⟩ | ⟨-, -, -, hw, -, -, -, rfl⟩ | ⟨-, -, -, -, -, -, he⟩ |
    ⟨-, -, -, rfl⟩
  · exact enqueue he
  · refine ⟨?_, ?_⟩
    · intro p hp _
      exact List.mem_of_mem_erase hp
    · intro p _ hp
      have hpt : p ≠ t := by
        rintro rfl
        exact hp hw
      simp [Kernel.delivered, hpt]
  · exact enqueue he
  · exact refl _

theorem reap (h : k.reap t = .ok k') : Spares c k k' := by
  have hstate : ∀ p, ((put k.tcb t { k.tcb t with tInbox := [] }) p).tState = (k.tcb p).tState := by
    intro p
    by_cases hp : p = t
    · subst hp
      simp
    · simp [hp]
  rcases Kernel.reap_cases h with ⟨-, rfl⟩ | ⟨-, -, -, -, rfl⟩
  · exact of_same rfl hstate
  · exact ⟨fun p hp _ => List.mem_of_mem_erase hp, fun p _ _ => hstate p⟩

theorem terminate (h : k.terminate t = .ok k') : Spares c k k' := by
  obtain ⟨k₁, h₁, h₂⟩ := Kernel.terminate_cases (R := Spares c) refl (fun _ _ _ => trans)
    (fun k p => (setField (f := fun x => { x with tParent := null }) fun _ => rfl).trans
      (of_same rfl fun _ => rfl)) (fun _ _ _ _ hr => reap hr) h
  exact h₁.trans (reap h₂)

theorem storeWord {a : Ptr} {v : U32} (h : k.storeWord a v = .ok k') : Spares c k k' := by
  obtain ⟨-, rfl⟩ := Kernel.storeWord_cases h
  exact of_same rfl fun _ => rfl

/-- The thread that enters the kernel has its own state saved. -/
theorem enter (old : State) : Spares k.currentThread k (k.enter old) := by
  refine ⟨fun _ hp _ => hp, ?_⟩
  intro p hc _
  simp [Kernel.enter, Kernel.setState, Kernel.chargeCpu, Kernel.chargeTime, Kernel.chargeSlice,
    Kernel.setTcb, Kernel.readTodlow, hc]

theorem passUp {m : Ptr} {cause : U32} (h : k.passUp m cause = .ok k') :
    Spares k.currentThread k k' := by
  unfold Kernel.passUp at h
  split at h
  · obtain ⟨k₁, h₁, h₂⟩ := bind_eq_ok.mp h
    cases h₂
    exact (terminate h₁).trans (of_same rfl fun _ => rfl)
  · obtain ⟨⟨r, k₁⟩, h₁, h₂⟩ := bind_eq_ok.mp h
    cases h₂
    have hcur : k₁.currentThread = k.currentThread := (Kernel.send_frame h₁).currentThread
    have hfreeze : Spares k.currentThread k₁ (k₁.freeze m) := by
      refine ⟨?_, ?_⟩
      · intro p hp hc
        rw [← hcur] at hc
        simpa [Kernel.freeze, insertThread, hc] using hp
      · intro p hc _
        rw [← hcur] at hc
        simp [Kernel.freeze, Kernel.setTcb, hc]
    exact (send h₁).trans hfreeze

theorem sysSendCase {old : State} (h : k.sysSendCase old = .ok k') :
    Spares k.currentThread k k' := by
  obtain ⟨k₁, hk₁, h⟩ := Kernel.sysSendCase_cases h
  have hin : Spares k.currentThread k k₁ := by
    rw [hk₁]
    split <;> exact of_same rfl fun _ => rfl
  refine hin.trans ?_
  rcases h with ⟨-, -, h | h⟩ | h
  · exact terminate h
  · obtain ⟨-, -, rfl⟩ := Kernel.continueTrapped_cases h
    exact ⟨fun p hp _ => List.mem_of_mem_erase hp, fun _ _ _ => rfl⟩
  · obtain ⟨⟨r, k₂⟩, h₁, h₂⟩ := bind_eq_ok.mp h
    cases h₂
    exact (send h₁).trans (setTcb _)

theorem sysRecvCase {old : State} (h : k.sysRecvCase old = .ok k') :
    Spares k.currentThread k k' := by
  obtain ⟨⟨r, k₁⟩, h₁, h₂⟩ := bind_eq_ok.mp h
  cases h₂
  refine Spares.trans ?_ (setTcb _)
  rcases Kernel.recv_cases h₁ with ⟨-, -, rfl⟩ | ⟨m, rest, -, -, -, rfl⟩
  · refine ⟨?_, ?_⟩
    · intro p hp hc
      simpa [Kernel.block, insertThread, hc] using hp
    · intro p hc _
      simp [Kernel.block, Kernel.setTcb, hc]
  · refine ⟨fun _ hp _ => hp, ?_⟩
    intro p hc _
    simp [Kernel.received, hc]

theorem sysbpBody {old : State} (h : k.sysbpBody old = .ok k') : Spares k.currentThread k k' := by
  unfold Kernel.sysbpBody at h
  dsimp only at h
  refine (enter old).trans (Spares.trans (setTcb fun t =>
    { t with tState := { t.tState with pcEpc := t.tState.pcEpc + wordSize } }) ?_)
  split at h
  · exact sysSendCase h
  · split at h
    · exact sysRecvCase h
    · exact passUp h

/-! Interrupts: the thread on the processor is spared too, once its state is saved. -/

theorem notifySsi (h : k.notifySsi s = .ok k') : Spares c k k' := by
  obtain ⟨⟨r, k₁⟩, h₁, h₂⟩ := bind_eq_ok.mp h
  split at h₂
  · cases h₂
  · cases h₂
    exact send h₁

theorem overLines : Kernel.OverLines (Spares c) where
  refl := refl
  trans _ _ _ := trans
  fillSlot _ _ _ := of_same rfl fun _ => rfl
  ioStore _ _ _ := of_same rfl fun _ => rfl
  notifySsi _ _ _ _ := notifySsi
  updatePseudoTick _ := of_same rfl fun _ => rfl
  restartTick _ := of_same rfl fun _ => rfl
  sliceEnd k := by
    unfold Kernel.sliceEnd
    split <;> exact of_same rfl fun _ => rfl

theorem intBody {old : State} (h : k.intBody old = .ok k') :
    Spares c (if k.currentThread ≠ null then k.enter old else k) k' := by
  obtain ⟨k₁, h₁, h₂⟩ := bind_eq_ok.mp h
  cases h₂
  exact (overLines.lineInterrupt h₁).trans (of_same rfl fun _ => rfl)

/-- The scheduler loads the state of the thread it leaves on the processor. -/
theorem scheduler (h : k.scheduler = .ok k') : Spares c k k' ∧
    (k'.currentThread ≠ null → k'.cpu = (k'.tcb k'.currentThread).tState) := by
  unfold Kernel.scheduler at h
  split at h
  · split at h
    · repeat' split at h
      all_goals cases h
      exact ⟨refl _, fun hn => absurd ‹_› hn⟩
    · next p rest _ =>
      cases h
      have htcb : (k.dispatch p rest).tcb = put k.tcb p { k.tcb p with cpuSlice := 0 } := by
        simp only [Kernel.dispatch, Kernel.ldst, Kernel.setTimer_tcb]
        rfl
      have hstate : ∀ q, ((k.dispatch p rest).tcb q).tState = (k.tcb q).tState := by
        intro q
        rw [htcb]
        by_cases hq : q = p
        · subst hq
          simp
        · simp [hq]
      have hcpu : (k.dispatch p rest).cpu =
          ((k.dispatch p rest).tcb (k.dispatch p rest).currentThread).tState := rfl
      exact ⟨of_same (Quiet.dispatch p rest).waitQueue hstate, fun _ => hcpu⟩
  · cases h
    obtain ⟨htcb, hcpu⟩ := Kernel.resumeCurrent_cpu k
    refine ⟨of_same Quiet.resumeCurrent.waitQueue fun p => by rw [htcb], fun _ => ?_⟩
    rw [htcb, Quiet.resumeCurrent.currentThread, hcpu]

end Spares

namespace Machine

variable {m m' : Machine} {e : Event} {k : Kernel} {p : Ptr} {s : State}

/-- The thread whose saved state an event writes, besides the one that the event wakes. -/
def writes (m : Machine) : Event → Ptr
  | .edit p _ => p
  | .ssi _ => match m.ssi.call m.k with
    | .allocTcb => m.k.allocTcb.1
    | .copyState _ p => p
    | _ => m.k.currentThread
  | _ => m.k.currentThread

theorem allocTcb_spares (k : Kernel) : Spares k.allocTcb.1 k k.allocTcb.2 := by
  unfold Kernel.allocTcb
  split
  · exact .refl k
  · refine ⟨fun _ hp _ => hp, ?_⟩
    intro p hc _
    simp [Kernel.setTcb, hc]

theorem perform_spares {old : State} {r : U32} (h : m.k.perform old (m.ssi.call m.k) = .ok (r, k))
    (hc : m.schedules (.ssi old) = false) : Spares (m.writes (.ssi old)) m.k k := by
  simp only [schedules, writes] at hc ⊢
  cases hcall : m.ssi.call m.k <;> rw [hcall] at h hc
  case msgRecv | msgSend => cases hc
  case allocTcb =>
    have hk := Except.ok.inj h
    have hspares := allocTcb_spares m.k
    rwa [hk] at hspares ⊢
  case insertChild q c =>
    simp only [Kernel.perform] at h
    split at h
    · cases h
    · cases h
      have hset : Spares m.k.currentThread m.k (m.k.setTcb c fun t => { t with tParent := q }) :=
        .setField fun _ => rfl
      exact ⟨hset.wait, hset.tState⟩
  case insertSibling =>
    simp only [Kernel.perform] at h
    split at h
    · cases h
    · cases h
      exact .of_same rfl fun _ => rfl
  case terminate =>
    obtain ⟨k₁, h₁, h₂⟩ := bind_eq_ok.mp h
    cases h₂
    exact .terminate h₁
  case copyState =>
    obtain ⟨-, rfl⟩ := Kernel.perform_copyState h
    exact .setTcb _
  case inherit =>
    cases h
    exact .setField fun _ => rfl
  case setManager x q n =>
    cases h
    exact .setField fun t => by cases x <;> rfl
  case panic | fault => cases h
  all_goals
    cases h
    exact .of_same rfl fun _ => rfl

/-- A call of the SSI that does not end in the scheduler. -/
theorem perform_of_body {old : State} (h : m.body (.ssi old) = .ok k)
    (hc : m.schedules (.ssi old) = false) : ∃ r, m.k.perform old (m.ssi.call m.k) = .ok (r, k) := by
  simp only [schedules, body] at hc h
  cases hcall : m.ssi.call m.k <;> rw [hcall] at hc h
  case msgRecv | msgSend => cases hc
  all_goals
    obtain ⟨⟨r, k'⟩, h₁, h₂⟩ := bind_eq_ok.mp h
    cases h₂
    exact ⟨r, h₁⟩

/-- What an event does to the saved states, the scheduler apart. -/
theorem body_spares (h : m.body e = .ok k) : Spares (m.writes e) m.k k := by
  cases e with
  | sysbp old => exact .sysbpBody h
  | pgmtrap old | tlb old => exact (Spares.enter old).trans (.passUp h)
  | interrupt old =>
    have henter : Spares m.k.currentThread m.k
        (if m.k.currentThread ≠ null then m.k.enter old else m.k) := by
      split
      · exact .enter old
      · exact .refl _
    exact henter.trans (.intBody h)
  | devices bus =>
    cases h
    exact .of_same rfl fun _ => rfl
  | store a v => exact .storeWord h
  | edit p s =>
    cases h
    exact .setTcb _
  | ssi old =>
    cases hc : m.schedules (.ssi old) with
    | false =>
      obtain ⟨r, hperf⟩ := perform_of_body h hc
      exact perform_spares hperf hc
    | true =>
      simp only [schedules, body, writes] at hc h ⊢
      cases hcall : m.ssi.call m.k <;> rw [hcall] at hc h
      case msgRecv | msgSend => exact .sysbpBody h
      all_goals cases hc

/-- The thread on the processor after a step has just been loaded, or it was there before. -/
theorem loaded_of_step (hw : m.Wf) (h : m.Step e m') (hc : m'.k.currentThread ≠ null) :
    m'.k.currentThread = m.k.currentThread ∧ m.schedules e = false ∨
      m.schedules e = true ∧ m'.k.cpu = (m'.k.tcb m'.k.currentThread).tState := by
  obtain ⟨k, hb, ⟨hs, hk⟩ | ⟨hs, hk⟩⟩ := step_body h
  · exact .inr ⟨hs, (Spares.scheduler (c := null) hk).2 hc⟩
  · refine .inl ⟨?_, hs⟩
    rw [hk] at hc ⊢
    cases e with
    | sysbp | pgmtrap | tlb | interrupt => cases hs
    | devices | edit =>
      cases hb
      rfl
    | store a v => exact (Quiet.storeWord hb).currentThread
    | ssi old =>
      obtain ⟨r, hperf⟩ := perform_of_body hb hs
      have hat := m.ssi.call_at m.k
      simp only [schedules] at hs
      cases hcall : m.ssi.call m.k <;> rw [hcall] at hperf hs hat
      case msgRecv | msgSend => cases hs
      case allocTcb =>
        have hal : k = m.k.allocTcb.2 := by rw [Except.ok.inj hperf]
        rw [hal, Kernel.allocTcb]
        split <;> rfl
      case insertChild | insertSibling =>
        simp only [Kernel.perform] at hperf
        split at hperf
        · cases hperf
        · cases hperf
          rfl
      case terminate q =>
        obtain ⟨k₁, h₁, h₂⟩ := bind_eq_ok.mp hperf
        cases h₂
        have hq : q ≠ null := by
          rw [hat.2]
          intro he
          exact null_notMem_threadArray (he ▸ hw.requester (by rw [hat.1]; rfl))
        obtain ⟨ds, -, hds⟩ := Reaped.terminate hw.placed hq h₁
        rw [hds.currentThread] at hc ⊢
        split at hc
        · exact absurd rfl hc
        · exact if_neg ‹_›
      case panic | fault => cases hperf
      case copyState =>
        obtain ⟨-, rfl⟩ := Kernel.perform_copyState hperf
        rfl
      all_goals
        cases hperf
        rfl

/-- What a step does to the saved states. -/
theorem step_spares (h : m.Step e m') : Spares (m.writes e) m.k m'.k := by
  obtain ⟨k, hb, ⟨-, hk⟩ | ⟨-, hk⟩⟩ := step_body h
  · exact (body_spares hb).trans (Spares.scheduler hk).1
  · exact hk ▸ body_spares hb

/-- A write to the saved state of `p` from outside the kernel. -/
def edits (p : Ptr) : Event → Bool
  | .edit q _ => q = p
  | _ => false

/-- A live thread that is not on the processor is not the one an event writes to, unless something
outside the kernel edits its state. -/
theorem placed_ne_writes (hw : m.Wf) (hplace : p ∈ m.k.places) (hf : p ∉ m.k.tcbFree)
    (hcur : p ≠ m.k.currentThread) (he : edits p e = false) : p ≠ m.writes e := by
  cases e with
  | edit q s =>
    rintro rfl
    simp [edits] at he
  | ssi old =>
    have hat := m.ssi.call_at m.k
    simp only [writes]
    cases hcall : m.ssi.call m.k <;> rw [hcall] at hat
    case allocTcb =>
      cases hfree : m.k.tcbFree with
      | nil =>
        have hnull : m.k.allocTcb.1 = null := by simp [Kernel.allocTcb, hfree]
        simp only [hnull]
        exact hw.placed.ne_null hplace
      | cons q free =>
        have hhead : m.k.allocTcb.1 = q := by simp [Kernel.allocTcb, hfree]
        simp only [hhead]
        rintro rfl
        exact hf (by simp [hfree])
    case copyState a q =>
      obtain ⟨⟨c, hpc⟩, rfl⟩ := hat
      by_cases hn : m.ssi.newThread = null
      · simp only [hn]
        exact hw.placed.ne_null hplace
      · rintro rfl
        exact (hw.creating (by rw [hpc]; rfl) hn).2 hplace
    all_goals exact hcur
  | sysbp | pgmtrap | tlb | interrupt | devices | store => exact hcur

theorem ready_ne_writes (hw : m.Wf) (hp : p ∈ m.k.readyQueue) (he : edits p e = false) :
    p ≠ m.writes e := by
  obtain ⟨-, hf, hc⟩ := hw.placed.ready_notMem hp
  exact placed_ne_writes hw (Kernel.mem_places.mpr (.inl hp)) hf (Ne.symm hc) he

/-- An interrupted thread waits in the ready queue, with the state it was interrupted in. -/
def Parked (m : Machine) (p : Ptr) (s : State) : Prop :=
  p ∈ m.k.readyQueue ∧ (m.k.tcb p).tState = s

/-- A live thread that does not wait is in the ready queue or on the processor. -/
theorem ready_or_current {k : Kernel} (hp : k.Live p) (hw : p ∉ k.waitQueue) :
    p ∈ k.readyQueue ∨ p = k.currentThread ∧ k.currentThread ≠ null := by
  rcases hp with hp | hp | hp
  · exact .inl hp
  · exact absurd hp hw
  · exact .inr (Kernel.mem_running.mp hp)

/-- The next time a parked thread is on the processor, its state has been loaded. -/
theorem Parked.step (hw : m.Wf) (h : m.Step e m') (hp : m.Parked p s) (he : edits p e = false)
    (hf : p ∉ m'.k.tcbFree) : m'.Parked p s ∨ p = m'.k.currentThread ∧ m'.k.cpu = s := by
  obtain ⟨hready, hstate⟩ := hp
  have hne := ready_ne_writes hw hready he
  have hspares := step_spares h
  obtain ⟨hnw, -, hnc⟩ := hw.placed.ready_notMem hready
  have hnw' : p ∉ m'.k.waitQueue := fun hm => hnw (hspares.wait p hm hne)
  have hstate' : (m'.k.tcb p).tState = s := (hspares.tState p hne hnw).trans hstate
  rcases ready_or_current (live_step hw h (.inl hready) hf) hnw' with hr | ⟨hc, hn⟩
  · exact .inl ⟨hr, hstate'⟩
  · right
    rcases loaded_of_step hw h hn with ⟨hcur, -⟩ | ⟨-, hcpu⟩
    · exact absurd (hcur.symm.trans hc.symm) hnc
    · exact ⟨hc, by rw [hcpu, ← hc, hstate']⟩

/-- The interrupted thread is in no waiting queue and has the state it was interrupted in. -/
theorem interrupt_state {old : State} (hw : m.Wf) (h : m.Step (.interrupt old) m')
    (hc : m.k.currentThread ≠ null) : m.k.currentThread ∉ m'.k.waitQueue ∧
      (m'.k.tcb m.k.currentThread).tState = old := by
  obtain ⟨k, hb, ⟨-, hk⟩ | ⟨hs, -⟩⟩ := step_body h
  · have henter : ((m.k.enter old).tcb m.k.currentThread).tState = old := by
      simp [Kernel.enter, Kernel.setState, Kernel.chargeCpu, Kernel.chargeTime,
        Kernel.chargeSlice, Kernel.setTcb, Kernel.readTodlow, saveState]
    have hint := Spares.intBody (c := null) hb
    rw [if_pos hc] at hint
    have hspares := hint.trans (Spares.scheduler hk).1
    have hnw := (hw.placed.current_notMem hc).2.1
    exact ⟨fun hm => hnw (hspares.wait _ hm hc), (hspares.tState _ hc hnw).trans henter⟩
  · cases hs

/-- After an interrupt the thread is loaded again at once, or parked. -/
theorem parked_of_interrupt {old : State} (hw : m.Wf) (h : m.Step (.interrupt old) m')
    (hc : m.k.currentThread ≠ null) : m'.Parked m.k.currentThread old ∨
      m.k.currentThread = m'.k.currentThread ∧ m'.k.cpu = old := by
  obtain ⟨hnw', hstate⟩ := interrupt_state hw h hc
  have hf : m.k.currentThread ∉ m'.k.tcbFree := by
    rw [(interrupt_managers h).2.2]
    exact (hw.placed.current_notMem hc).2.2
  rcases ready_or_current (live_step hw h (current_live hc) hf) hnw' with hr | ⟨he, hn⟩
  · exact .inl ⟨hr, hstate⟩
  · rcases loaded_of_step hw h hn with ⟨-, hs⟩ | ⟨-, hcpu⟩
    · cases hs
    · exact .inr ⟨he, by rw [hcpu, ← he, hstate]⟩

/-- A step that does not put `p` on the processor, does not free it, and is not a write to its state
from outside the kernel. -/
def Leaves (p : Ptr) (m : Machine) (e : Event) (m' : Machine) : Prop :=
  m.Step e m' ∧ p ≠ m'.k.currentThread ∧ p ∉ m'.k.tcbFree ∧ edits p e = false

theorem Parked.run (hw : m.Wf) (hp : m.Parked p s) {es : List Event} (hr : Run (Leaves p) m es m') :
    m'.Wf ∧ m'.Parked p s := by
  refine hr.inv (I := fun m => m.Wf ∧ m.Parked p s) ?_ ⟨hw, hp⟩
  intro m e m' hs hi
  obtain ⟨hstep, hc, hf, he⟩ := hs
  refine ⟨hi.1.step hstep, ?_⟩
  rcases hi.2.step hi.1 hstep he hf with hp | ⟨hcur, -⟩
  · exact hp
  · exact absurd hcur hc

/-- The state the scheduler next loads for an interrupted thread is the one in the old area at the
interrupt, whatever happens in between. -/
theorem interrupt_transparent {es es' : List Event} {m₁ m₂ m₃ m₄ : Machine} {old : State}
    (h : m.Initial) (hr : Run Step m es m₁) (hc : m₁.k.currentThread = p) (hp : p ≠ null)
    (hi : m₁.Step (.interrupt old) m₂) :
    (m₂.k.currentThread = p → m₂.k.cpu = old) ∧
      (m₂.k.currentThread ≠ p → Run (Leaves p) m₂ es' m₃ → m₃.Step e m₄ →
        m₄.k.currentThread = p → m₄.k.cpu = old) := by
  subst hc
  have hw := wf_of_run h hr
  have hpark := parked_of_interrupt hw hi hp
  refine ⟨?_, ?_⟩
  · intro hcur
    rcases hpark with ⟨hready, -⟩ | ⟨-, hcpu⟩
    · have hn := ((hw.step hi).placed.ready_notMem hready).2.2
      exact absurd hcur hn
    · exact hcpu
  · intro hcur hrun hs hback
    have hparked := hpark.resolve_right fun hx => hcur hx.1.symm
    obtain ⟨hw₃, hp₃⟩ := hparked.run (hw.step hi) hrun
    have hedit : edits m₁.k.currentThread e = false := by
      cases e with
      | edit q s =>
        obtain ⟨-, hs⟩ := hs
        cases hs
        exact absurd hback (hw₃.placed.ready_notMem hp₃.1).2.2
      | sysbp | pgmtrap | tlb | interrupt | ssi | devices | store => rfl
    have hfree : m₁.k.currentThread ∉ m₄.k.tcbFree := by
      rw [← hback] at hp ⊢
      exact ((hw₃.step hs).placed.current_notMem hp).2.2
    rcases hp₃.step hw₃ hs hedit hfree with ⟨hready, -⟩ | ⟨-, hcpu⟩
    · have hn := ((hw₃.step hs).placed.ready_notMem hready).2.2
      exact absurd hback hn
    · exact hcpu

/-- The state the test thread is interrupted in. -/
def interruptedState : State :=
  { initTState with cause := 1 <<< (intTimer + 8), pcEpc := 0x20007000, hi := 5 }

/-- The slice of the test thread ends before it waits for the answer of the SSI, which runs until it
waits itself. -/
theorem interrupt_transparent_preempted : ∃ m m₁ m₂ m₃ m₄ : Machine, m.Initial ∧
    Run Step m (queuedAnswerTrace.take 5) m₁ ∧ m₁.Step (.interrupt interruptedState) m₂ ∧
    Run (Leaves testThreadAddr) m₂ (Event.ssiCalls 4) m₃ ∧ m₃.Step (.ssi initTState) m₄ ∧
    m₄.k.cpu = interruptedState := by
  have hrun : passes (fun m => passes (fun m₁ => m₁.k.currentThread = testThreadAddr &&
      passes (fun m₂ => m₂.k.currentThread ≠ testThreadAddr &&
        passes (fun m₃ => passes (fun m₄ => m₄.k.currentThread = testThreadAddr)
          (m₃.fire (.ssi initTState)))
        (exec (guarded (fun _ e m => testThreadAddr ≠ m.k.currentThread ∧
          testThreadAddr ∉ m.k.tcbFree ∧ edits testThreadAddr e = false) Stop.fault fire) m₂
          (Event.ssiCalls 4)))
      (m₁.fire (.interrupt interruptedState)))
      (exec fire m (queuedAnswerTrace.take 5))) (start slowClock) = true := by
    decide +kernel
  obtain ⟨m, hm, hrun⟩ := exists_of_passes hrun
  obtain ⟨m₁, hs₁, hrun⟩ := exists_of_passes hrun
  rw [Bool.and_eq_true, decide_eq_true_eq] at hrun
  obtain ⟨m₂, hs₂, hrest⟩ := exists_of_passes hrun.2
  rw [Bool.and_eq_true, decide_eq_true_eq] at hrest
  obtain ⟨m₃, hs₃, hend⟩ := exists_of_passes hrest.2
  obtain ⟨m₄, hs₄, hcur⟩ := exists_of_passes hend
  have hi := initial_of_start slowClock_powerOn hm
  have hr : Run Step m (queuedAnswerTrace.take 5) m₁ :=
    (run_of_exec hs₁).mono fun _ _ _ => step_of_fire
  have hleaves : Run (Leaves testThreadAddr) m₂ (Event.ssiCalls 4) m₃ := by
    refine (run_of_exec hs₃).mono ?_
    intro m e m' hg
    obtain ⟨hf, hguard⟩ := of_guarded hg
    exact ⟨step_of_fire hf, hguard⟩
  have hback := (interrupt_transparent hi hr hrun.1 (by decide) (step_of_fire hs₂)).2 hrest.1 hleaves
    (step_of_fire hs₄) (by simpa using hcur)
  exact ⟨m, m₁, m₂, m₃, m₄, hi, hr, step_of_fire hs₂, hleaves, step_of_fire hs₄, hback⟩

end Machine

end AmiKaya
