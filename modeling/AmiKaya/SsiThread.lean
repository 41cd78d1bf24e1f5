import AmiKaya.NamedManagers
import AmiKaya.Roused

/-! The SSI as a thread: it has no manager, serves other threads only, and waits only for the next
message. -/
namespace AmiKaya
open Lts

namespace Machine

variable {m m' : Machine} {e : Event}

/-- The SSI does not mix with the threads it serves. -/
structure Apart (m : Machine) : Prop where
  unmanaged : ∀ x, (m.k.tcb m.k.ssiTcb).manager x = null
  other : m.ssi.pc.serves = true → m.ssi.reqThread ≠ m.k.ssiTcb
  waits : m.k.ssiTcb ∈ m.k.waitQueue →
    m.ssi.pc = .got ∧ (m.k.tcb m.k.ssiTcb).waitingFor = anyMessage

/-- The SSI is in no queue while it makes a call. -/
theorem ssi_notMem {old : State} (hw : m.Wf) (hen : m.Enabled (.ssi old)) :
    m.k.ssiTcb ∉ m.k.readyQueue ∧ m.k.ssiTcb ∉ m.k.waitQueue ∧ m.k.ssiTcb ∉ m.k.tcbFree := by
  have hcur : m.k.currentThread = m.k.ssiTcb := hen
  have hn := hw.ssi_ne_null
  rw [← hcur] at hn ⊢
  exact hw.placed.current_notMem hn

theorem Apart.unmanaged_step (hi : m.Apart) (hw : m.Wf) (h : m.Step e m') (x : Trap) :
    (m'.k.tcb m'.k.ssiTcb).manager x = null := by
  rw [(ops_of_step hw h).ssiTcb]
  rcases manager_cases h m.k.ssiTcb x with ⟨hsame, -⟩ | ⟨old, rfl, ⟨-, -, hnull⟩ | ⟨q, hcall, -⟩ |
    ⟨q, hcall, -⟩⟩
  · rw [hsame]
    exact hi.unmanaged x
  · exact hnull
  · have hat := m.ssi.call_at m.k
    rw [hcall] at hat
    obtain ⟨hpc, -, hnew⟩ := hat
    have hn : m.ssi.newThread ≠ null := hnew ▸ hw.ssi_ne_null
    have hout := (hw.creating (by rw [hpc]; rfl) hn).2
    rw [← hnew] at hout
    have hcur : m.k.currentThread = m.k.ssiTcb := h.1
    exact absurd (Kernel.mem_places.mpr (.inr (.inr (.inr ⟨hcur.symm, hcur ▸ hw.ssi_ne_null⟩)))) hout
  · have hat := m.ssi.call_at m.k
    rw [hcall] at hat
    exact absurd hat.2.symm (hi.other (by rw [hat.1]; rfl))

theorem Apart.other_step (hi : m.Apart) (hw : m.Wf) (h : m.Step e m')
    (hs : m'.ssi.pc.serves = true) : m'.ssi.reqThread ≠ m'.k.ssiTcb := by
  rw [(ops_of_step hw h).ssiTcb]
  rcases step_cases h with ⟨hssi, -⟩ | ⟨old, r, rfl, -, -, hssi⟩
  · rw [hssi] at hs ⊢
    exact hi.other hs
  · rw [hssi] at hs ⊢
    obtain ⟨hreq, hq⟩ := Ssi.next_serves hs
    obtain ⟨hnr, hnw, -⟩ := ssi_notMem hw h.1
    rw [hreq]
    rcases hq with hq | hq | hq
    · exact hi.other hq
    · rintro he
      exact hnr (he ▸ hq)
    · rintro he
      exact hnw (he ▸ hq)

/-- The SSI gets in the wait queue by its own MsgRecv only. -/
theorem Apart.waits_step (hi : m.Apart) (hw : m.Wf) (h : m.Step e m')
    (hm : m'.k.ssiTcb ∈ m'.k.waitQueue) :
    m'.ssi.pc = .got ∧ (m'.k.tcb m'.k.ssiTcb).waitingFor = anyMessage := by
  have hops := ops_of_step hw h
  rw [hops.ssiTcb] at hm ⊢
  have hinv := hops.inv (I := fun k => Placed k ∧ (m.k.ssiTcb ∈ k.waitQueue →
    ((k.tcb m.k.ssiTcb).waitingFor = anyMessage ∧ (m.k.ssiTcb ∈ m.k.waitQueue ∨
      m.ssi.pc = .recv ∧ ∃ old, e = .ssi old)))) ?_
    ⟨hw.placed, fun hq => ⟨(hi.waits hq).2, .inl hq⟩⟩
  · obtain ⟨hany, hq⟩ := hinv.2 hm
    refine ⟨?_, hany⟩
    rcases step_cases h with ⟨hssi, hne⟩ | ⟨old, r, rfl, -, -, hssi⟩
    · rw [hssi]
      rcases hq with hq | ⟨-, old, rfl⟩
      · exact (hi.waits hq).1
      · exact absurd rfl (hne old)
    · rcases hq with hq | ⟨hpc, -⟩
      · exact absurd hq (ssi_notMem hw h.1).2.1
      · simp [hssi, Ssi.next, hpc]
  · rintro k o k' hs ho ⟨hk, hq⟩
    refine ⟨hk.step hs, fun hm => ?_⟩
    rcases wait_cases hk hs hm with hstill | ⟨w, a, r, rfl, hfor, -⟩ | ⟨q, rfl, hne, -⟩
    · rw [hstill.waitingFor]
      exact hq hstill.mem
    · -- nobody else makes a RECV for the SSI
      obtain ⟨hcur, hentry⟩ := ho
      cases e with
      | ssi old =>
        have hat := m.ssi.call_at m.k
        simp only [entry] at hentry
        cases hcall : m.ssi.call m.k <;> rw [hcall] at hat hentry
        case msgRecv =>
          cases hentry
          exact ⟨hfor, .inr ⟨hat.1, old, rfl⟩⟩
        all_goals cases hentry
      | sysbp old => exact absurd hcur.symm h.1.2
      | pgmtrap | tlb | interrupt | devices | store | edit => cases hentry
    · -- a trap of the SSI is not passed up
      obtain ⟨hcur, hentry⟩ := ho
      obtain ⟨x, hx⟩ := manager_of_entry hentry
      rw [← hcur, hi.unmanaged x] at hx
      exact absurd hx.symm hne

theorem Apart.step (hi : m.Apart) (hw : m.Wf) (h : m.Step e m') : m'.Apart :=
  ⟨hi.unmanaged_step hw h, hi.other_step hw h, hi.waits_step hw h⟩

theorem initial_apart (h : m.Initial) : m.Apart := by
  obtain ⟨k, hp, hm⟩ := h.boot
  have hb := Kernel.main_booted hp hm
  refine ⟨fun x => ?_, by simp [h.pc, SsiPc.serves], by simp [hb.waitQueue]⟩
  rw [hb.ssiTcb]
  exact (Kernel.main_managers hm x).1

/-- A trap of the SSI is the end of it. -/
theorem Apart.trap_frees (hi : m.Apart) (hw : m.Wf) (h : m.Step e m') {q : Ptr}
    (he : m.entry e = .trap q) (hcur : m.k.currentThread = m.k.ssiTcb) :
    m.k.ssiTcb ∈ m'.k.tcbFree := by
  have htarget : m.target e = some m.k.ssiTcb := by
    cases e with
    | sysbp old => exact absurd hcur h.1.2
    | pgmtrap old | tlb old => simp [target, Kernel.trapTarget, hcur, hi.unmanaged]
    | ssi old =>
      simp only [entry] at he
      split at he <;> cases he
    | interrupt | devices | store | edit => cases he
  obtain ⟨k, hb, -⟩ := step_body h
  obtain ⟨k₁, k₂, hs₁, hterm, hs₂⟩ := body_terminated htarget hb
  obtain ⟨ds, hmem, hds⟩ := Reaped.terminate (hw.placed.of_perm hs₁.places) hw.ssi_ne_null hterm
  rw [(hs₂.trans (step_sameTree hw h hb)).tcbFree, hds.tcbFree]
  exact List.mem_append_right _ hmem

end Machine

end AmiKaya
