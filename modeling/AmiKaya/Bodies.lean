import AmiKaya.Termination

/-! A step of the machine cut in two: the work of a handler, then its call of the scheduler. -/
namespace AmiKaya
open Lts

namespace Kernel

/-- A call of the SSI up to the scheduler, where there is one. -/
def performBody (k : Kernel) (old : State) : Call → Except Stop Kernel
  | .msgRecv reply => k.sysbpBody (old.syscall sysRecv anyMessage reply)
  | .msgSend dest payload => k.sysbpBody (old.syscall sysSend dest payload)
  | c => do
    let r ← k.perform old c
    .ok r.2

/-- The scheduler picks a thread, or leaves the processor to the current one or to nobody. -/
structure Scheduled (k k' : Kernel) : Prop where
  waitQueue : k'.waitQueue = k.waitQueue
  tcbFree : k'.tcbFree = k.tcbFree
  softBlockCount : k'.softBlockCount = k.softBlockCount
  threadCount : k'.threadCount = k.threadCount
  ssiTcb : k'.ssiTcb = k.ssiTcb
  links : k'.links = k.links
  tParent : ∀ p, (k'.tcb p).tParent = (k.tcb p).tParent
  waitingFor : ∀ p, (k'.tcb p).waitingFor = (k.tcb p).waitingFor
  live : ∀ p, k'.Live p ↔ k.Live p

theorem Scheduled.quiet {k k' : Kernel} (h : Quiet k k') : Scheduled k k' where
  waitQueue := h.waitQueue
  tcbFree := h.tcbFree
  softBlockCount := h.softBlockCount
  threadCount := h.threadCount
  ssiTcb := h.ssiTcb
  links := h.links
  tParent := h.tParent
  waitingFor := h.waitingFor
  live p := by simp only [Live, h.readyQueue, h.waitQueue, running_eq h.currentThread]

theorem scheduler_scheduled {k k' : Kernel} (hk : Placed k) (h : k.scheduler = .ok k') :
    Scheduled k k' := by
  unfold scheduler at h
  split at h
  · next hc =>
    split at h
    · repeat' split at h
      all_goals cases h
      exact .quiet (Quiet.refl k)
    · next p rest hr =>
      cases h
      have hq := Quiet.dispatch (k := k) p rest
      have hn : p ≠ null := hk.ne_null (mem_places.mpr (.inl (by simp [hr])))
      exact
        { waitQueue := hq.waitQueue, tcbFree := hq.tcbFree, softBlockCount := hq.softBlockCount
          threadCount := hq.threadCount, ssiTcb := hq.ssiTcb, links := hq.links
          tParent := hq.tParent, waitingFor := hq.waitingFor
          live := fun q => by
            simp only [Live, hq.readyQueue, hq.waitQueue, running_eq hq.currentThread, hr, mem_running, hc, hn,
              List.mem_cons, ne_eq, not_true_eq_false, not_false_eq_true, and_true, and_false,
              or_false]
            tauto }
  · cases h
    exact .quiet .resumeCurrent

end Kernel

namespace Machine

variable {m m' : Machine} {e : Event} {k : Kernel}

/-- The kernel when the handler of this event, or the call of the SSI, comes to its end. -/
def body (m : Machine) : Event → Except Stop Kernel
  | .sysbp old => m.k.sysbpBody old
  | .pgmtrap old => m.k.pgmtrapBody old
  | .tlb old => m.k.tlbBody old
  | .interrupt old => m.k.intBody old
  | .ssi old => m.k.performBody old (m.ssi.call m.k)
  | .devices bus => .ok { m.k with bus := bus }
  | .store a v => m.k.storeWord a v
  | .edit p s => .ok (m.k.setState p s)

/-- The handler calls the scheduler. -/
def schedules (m : Machine) : Event → Bool
  | .sysbp _ | .pgmtrap _ | .tlb _ | .interrupt _ => true
  | .ssi _ => match m.ssi.call m.k with
    | .msgRecv _ | .msgSend _ _ => true
    | _ => false
  | .devices _ | .store _ _ | .edit _ _ => false

theorem step_body (h : m.Step e m') : ∃ k, m.body e = .ok k ∧
    (m.schedules e = true ∧ k.scheduler = .ok m'.k ∨ m.schedules e = false ∧ m'.k = k) := by
  obtain ⟨-, hs⟩ := h
  cases e with
  | devices bus | edit p s =>
    cases hs
    exact ⟨_, rfl, .inr ⟨rfl, rfl⟩⟩
  | store a v =>
    obtain ⟨k, h₁, h₂⟩ := bind_eq_ok.mp hs
    cases h₂
    exact ⟨k, h₁, .inr ⟨rfl, rfl⟩⟩
  | sysbp old | pgmtrap old | tlb old | interrupt old =>
    obtain ⟨k', h₁, h₂⟩ := bind_eq_ok.mp hs
    cases h₂
    obtain ⟨k, hb, hk⟩ := bind_eq_ok.mp h₁
    exact ⟨k, hb, .inl ⟨rfl, hk⟩⟩
  | ssi old =>
    obtain ⟨⟨r, k'⟩, h₁, h₂⟩ := bind_eq_ok.mp hs
    cases h₂
    replace h₁ := (Ssi.perform_ok h₁).2
    simp only [body, schedules]
    cases hcall : m.ssi.call m.k <;> rw [hcall] at h₁
    case msgRecv | msgSend =>
      obtain ⟨k₁, hk₁, hr⟩ := bind_eq_ok.mp h₁
      cases hr
      obtain ⟨k, hb, hk⟩ := bind_eq_ok.mp hk₁
      exact ⟨k, hb, .inl ⟨rfl, hk⟩⟩
    all_goals exact ⟨k', bind_eq_ok.mpr ⟨_, h₁, rfl⟩, .inr ⟨rfl, rfl⟩⟩

/-- What a handler does is a sequence of the operations its entry allows. -/
theorem body_ops (hw : m.Wf) (hen : m.Enabled e) (h : m.body e = .ok k) :
    Ops ((m.entry e).Allows m.k.currentThread) m.k k := by
  cases e with
  | devices bus =>
    cases h
    exact .quiet (by constructor <;> intros <;> rfl) trivial
  | edit p s =>
    cases h
    exact .quiet (.setState p s) trivial
  | store a v => exact .quiet (.storeWord h) trivial
  | sysbp old => exact Kernel.sysbpBody_ops hw.placed hen.1 h
  | pgmtrap old => exact Kernel.enter_passUp_ops .pgmtrap hw.placed hen h
  | tlb old => exact Kernel.enter_passUp_ops .tlbtrap hw.placed hen h
  | interrupt old => exact Kernel.intBody_ops h
  | ssi old =>
    have hn : m.k.currentThread ≠ null := by
      rw [show m.k.currentThread = m.k.ssiTcb from hen]
      exact hw.ssi_ne_null
    have hperf : ∀ r, m.k.perform old (m.ssi.call m.k) = .ok (r, k) →
        Ops ((m.entry (.ssi old)).Allows m.k.currentThread) m.k k := fun r => perform_ops hw hen
    simp only [body] at h
    simp only [entry] at hperf ⊢
    cases hcall : m.ssi.call m.k <;> simp only [hcall] at h hperf ⊢
    case msgRecv a =>
      have hops := Kernel.sysbpBody_ops hw.placed hn h
      rwa [Kernel.sysbpEntry, (old.syscall_isRecv _ _).1, (old.syscall_isRecv _ _).2,
        (old.syscall_regs _ _ _).2.1] at hops
    case msgSend dest payload =>
      have hops := Kernel.sysbpBody_ops hw.placed hn h
      rwa [Kernel.sysbpEntry, old.syscall_isSend] at hops
    all_goals
      obtain ⟨⟨r, k'⟩, h₁, h₂⟩ := bind_eq_ok.mp h
      cases h₂
      exact hperf r h₁

end Machine

end AmiKaya
