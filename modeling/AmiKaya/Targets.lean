import AmiKaya.Growth

/-! The thread an event terminates, read off the state before it. -/
namespace AmiKaya
open Lts

namespace Kernel

variable {k k' : Kernel} {old : State} {t : Ptr} {P : Stop → Prop}

/-- The current thread is terminated by an exception it has no manager for. -/
def trapTarget (k : Kernel) (e : Trap) : Option Ptr :=
  if (k.tcb k.currentThread).manager e = null then some k.currentThread else none

/-- A SYS/BP exception is also how a manager has a trapped thread terminated. -/
def sysbpTarget (k : Kernel) (old : State) : Option Ptr :=
  if old.isSend then
    if (k.receiver old).toNat % 4 = 0 ∧ k.intercepts k.currentThread (k.receiver old) = true ∧
        old.regA2 = trapTerminate then some (k.receiver old)
    else none
  else if old.isRecv then none
  else k.trapTarget .sysbp

/-- `body` runs `terminate` for `t` in a kernel with the same tree. -/
def Terminates (k : Kernel) (t : Ptr) (body : Except Stop Kernel) : Prop :=
  ∃ k₁, Still k k₁ ∧ (body = k₁.terminate t ∨
    body = do
      let k ← k₁.terminate t
      .ok { k with currentThread := null })

theorem passUp_terminates {k₁ : Kernel} {cause : U32} (h : Still k k₁) :
    Terminates k k₁.currentThread (k₁.passUp null cause) := by
  refine ⟨k₁, h, .inr ?_⟩
  unfold passUp
  rw [if_pos rfl]

theorem sysbpBody_terminates (ht : k.sysbpTarget old = some t) :
    Terminates k t (k.sysbpBody old) := by
  unfold sysbpTarget at ht
  by_cases hs : old.isSend
  · rw [if_pos hs] at ht
    split at ht
    · next hd =>
      obtain ⟨ha, hi, hp⟩ := hd
      cases ht
      simp only [intercepts, Bool.and_eq_true, decide_eq_true_eq] at hi
      refine ⟨k.sendEnter old, sendEnter_still old, .inl ?_⟩
      rw [sysbpBody_send hs rfl ⟨hi.1.2, ha⟩, if_pos ⟨⟨hi.1.1, hi.2⟩, .inl hp⟩, decision, if_pos hp]
    · cases ht
  · rw [if_neg hs] at ht
    by_cases hr : old.isRecv
    · rw [if_pos hr] at ht
      cases ht
    · rw [if_neg hr, trapTarget] at ht
      split at ht
      · next hm =>
        cases ht
        have hq := sysbpEnter_quiet (k := k) old
        rw [sysbpBody_eq, if_neg hs, if_neg hr, hq.currentThread, sysbpEnter_manager, hm,
          ← hq.currentThread]
        exact passUp_terminates (.quiet hq)
      · cases ht

theorem trap_terminates (e : Trap) (ht : k.trapTarget e = some t) :
    Terminates k t ((k.enter old).passUp (((k.enter old).tcb (k.enter old).currentThread).manager e)
      old.cause) := by
  unfold trapTarget at ht
  split at ht
  · next hm =>
    cases ht
    have hq := Quiet.enter (k := k) old
    rw [hq.currentThread, enter_manager, hm, ← hq.currentThread]
    exact passUp_terminates (.quiet hq)
  · cases ht

/-! Without a target nobody is terminated. -/

theorem trap_still {e : Trap} (hc : k.currentThread ≠ null) (ht : k.trapTarget e = none)
    (h : (k.enter old).passUp (((k.enter old).tcb (k.enter old).currentThread).manager e)
      old.cause = .ok k') : Still k k' := by
  have hq := Quiet.enter (k := k) old
  have hm : (k.tcb k.currentThread).manager e ≠ null := by
    intro hm
    rw [trapTarget, if_pos hm] at ht
    cases ht
  rw [hq.currentThread, enter_manager] at h
  exact (Still.quiet hq).trans (.passUp hm (hq.currentThread ▸ hc) h)

theorem trap_settled (hP : Stop.Tame P) (hf : P .trap) {e : Trap} (ht : k.trapTarget e = none) :
    Settled P ((k.enter old).passUp (((k.enter old).tcb (k.enter old).currentThread).manager e)
      old.cause) := by
  have hq := Quiet.enter (k := k) old
  have hm : (k.tcb k.currentThread).manager e ≠ null := by
    intro hm
    rw [trapTarget, if_pos hm] at ht
    cases ht
  rw [hq.currentThread, enter_manager]
  exact passUp_settled hP hm fun hn => absurd hf hn

/-- What is left of a SEND that has no target. -/
theorem sysbpBody_send_none (hs : old.isSend = true) (ht : k.sysbpTarget old = none) :
    k.sysbpBody old = .error .trap ∨
      k.sysbpBody old = (k.sendEnter old).continueTrapped (k.receiver old) ∨
      k.sysbpBody old = (k.sendEnter old).sendOrdinary k.currentThread (k.receiver old) old.regA2 := by
  rw [sysbpTarget, if_pos hs] at ht
  obtain ⟨-, -, -, -, -, hman, -, -, htcb⟩ := k.sendEnter_eq old
  have hint : (k.sendEnter old).intercepts k.currentThread (k.receiver old) =
      k.intercepts k.currentThread (k.receiver old) := by
    simp [intercepts, thereIsManager, hman, (htcb _).1]
  rw [sysbpBody_sendEnter hs, hint]
  split
  · exact .inl rfl
  · next hal =>
    split
    · next hd =>
      simp only [Bool.and_eq_true, decide_eq_true_eq] at hd
      have hmis : ¬ (k.receiver old).toNat % 4 = 0 := by
        intro h0
        rw [if_pos ⟨h0, hd⟩] at ht
        cases ht
      have hi := hint.trans hd.1
      simp only [intercepts, Bool.and_eq_true, decide_eq_true_eq] at hi
      exact absurd ⟨hi.1.1, hmis⟩ hal
    · split
      · exact .inr (.inl rfl)
      · exact .inr (.inr rfl)

theorem sysbpBody_still (hc : k.currentThread ≠ null) (ht : k.sysbpTarget old = none)
    (h : k.sysbpBody old = .ok k') : Still k k' := by
  by_cases hs : old.isSend
  · have hin := sendEnter_still (k := k) old
    rcases sysbpBody_send_none hs ht with he | he | he <;> rw [he] at h
    · cases h
    · exact hin.trans (.resume h)
    · exact hin.trans (.sendOrdinary h)
  · have hq := sysbpEnter_quiet (k := k) old
    rw [sysbpTarget, if_neg hs] at ht
    rw [sysbpBody_eq, if_neg hs] at h
    by_cases hr : old.isRecv
    · rw [if_pos hr] at h
      exact (Still.quiet hq).trans (.sysRecvCase (hq.currentThread ▸ hc) h)
    · rw [if_neg hr] at h ht
      have hm : (k.tcb k.currentThread).manager .sysbp ≠ null := by
        intro hm
        rw [trapTarget, if_pos hm] at ht
        cases ht
      rw [hq.currentThread, sysbpEnter_manager] at h
      exact (Still.quiet hq).trans (.passUp hm (hq.currentThread ▸ hc) h)

theorem continueTrapped_settled (hf : P .fault) : Settled P (k.continueTrapped t) := by
  unfold continueTrapped
  dsimp only
  split
  · exact .error hf
  · exact .ok _

theorem sysbpBody_settled (hP : Stop.Tame P) (hf : P .trap ∧ P .fault)
    (ht : k.sysbpTarget old = none) : Settled P (k.sysbpBody old) := by
  by_cases hs : old.isSend
  · rcases sysbpBody_send_none hs ht with he | he | he <;> rw [he]
    · exact .error hf.1
    · exact continueTrapped_settled hf.2
    · exact sendOrdinary_settled hP fun hn => absurd hf.1 hn
  · have hq := sysbpEnter_quiet (k := k) old
    rw [sysbpTarget, if_neg hs] at ht
    rw [sysbpBody_eq, if_neg hs]
    by_cases hr : old.isRecv
    · rw [if_pos hr]
      exact sysRecvCase_settled fun hn => absurd hf.1 hn
    · rw [if_neg hr] at ht ⊢
      have hm : (k.tcb k.currentThread).manager .sysbp ≠ null := by
        intro hm
        rw [trapTarget, if_pos hm] at ht
        cases ht
      rw [hq.currentThread, sysbpEnter_manager]
      exact passUp_settled hP hm fun hn => absurd hf.1 hn

end Kernel

/-- The calls of the SSI that put a TCB in the tree. -/
def Call.grows : Call → Bool
  | .allocTcb | .insertChild _ _ | .insertSibling _ _ => true
  | _ => false

namespace Machine

variable {m m' : Machine} {e : Event} {k : Kernel} {t : Ptr} {P : Stop → Prop}

/-- The thread that an event calls `terminate` for. The SSI sends as any other thread does. -/
def target (m : Machine) : Event → Option Ptr
  | .sysbp old => m.k.sysbpTarget old
  | .pgmtrap _ => m.k.trapTarget .pgmtrap
  | .tlb _ => m.k.trapTarget .tlbtrap
  | .ssi old => match m.ssi.call m.k with
    | .msgRecv a => m.k.sysbpTarget (old.syscall sysRecv anyMessage a)
    | .msgSend d v => m.k.sysbpTarget (old.syscall sysSend d v)
    | .terminate p => some p
    | _ => none
  | .interrupt _ | .devices _ | .store _ _ | .edit _ _ => none

def grows (m : Machine) : Event → Bool
  | .ssi _ => (m.ssi.call m.k).grows
  | _ => false

theorem body_terminates (ht : m.target e = some t) : Kernel.Terminates m.k t (m.body e) := by
  cases e with
  | sysbp old => exact Kernel.sysbpBody_terminates ht
  | pgmtrap old => exact Kernel.trap_terminates .pgmtrap ht
  | tlb old => exact Kernel.trap_terminates .tlbtrap ht
  | ssi old =>
    simp only [target] at ht
    simp only [body]
    cases hcall : m.ssi.call m.k <;> simp only [hcall] at ht ⊢
    case msgRecv | msgSend => exact Kernel.sysbpBody_terminates ht
    case terminate p =>
      cases ht
      refine ⟨m.k, .refl _, .inl ?_⟩
      simp only [Kernel.performBody, Kernel.perform]
      cases m.k.terminate t <;> rfl
    all_goals cases ht
  | interrupt | devices | store | edit => cases ht

/-- Without a target and a new TCB the tree stays as it is. -/
theorem body_sameTree (hw : m.Wf) (hen : m.Enabled e) (ht : m.target e = none)
    (hg : m.grows e = false) (h : m.body e = .ok k) : SameTree m.k k := by
  cases e with
  | sysbp old => exact (Kernel.sysbpBody_still hen.1 ht h).sameTree
  | pgmtrap old => exact (Kernel.trap_still (e := .pgmtrap) hen ht h).sameTree
  | tlb old => exact (Kernel.trap_still (e := .tlbtrap) hen ht h).sameTree
  | interrupt old => exact (Still.intBody hw.placed h).sameTree
  | devices bus =>
    cases h
    exact ⟨rfl, rfl, fun _ => rfl⟩
  | edit p s =>
    cases h
    exact (Still.quiet (.setState p s)).sameTree
  | store a v => exact (Still.quiet (.storeWord h)).sameTree
  | ssi old =>
    have hc : m.k.currentThread ≠ null := by
      rw [show m.k.currentThread = m.k.ssiTcb from hen]
      exact hw.ssi_ne_null
    simp only [target] at ht
    simp only [grows] at hg
    simp only [body] at h
    cases hcall : m.ssi.call m.k <;> simp only [hcall] at ht hg h
    case msgRecv | msgSend => exact (Kernel.sysbpBody_still hc ht h).sameTree
    case terminate => cases ht
    case allocTcb | insertChild | insertSibling => cases hg
    case panic | fault => cases h
    case copyState =>
      obtain ⟨⟨r, k'⟩, h₁, h₂⟩ := bind_eq_ok.mp h
      cases h₂
      obtain ⟨-, rfl⟩ := Kernel.perform_copyState h₁
      exact (Still.quiet (.setState _ _)).sameTree
    all_goals
      obtain ⟨⟨r, k'⟩, h₁, h₂⟩ := bind_eq_ok.mp h
      cases h₂
      cases h₁
    case setManager.refl.refl e p q => exact (Still.quiet (.setManager e p q)).sameTree
    case inherit.refl.refl =>
      refine Still.sameTree (.quiet ?_)
      dsimp only
      exact Quiet.setTcb fun _ => ⟨rfl, rfl, rfl, rfl⟩
    all_goals exact ⟨rfl, rfl, fun _ => rfl⟩

theorem body_settled (hP : Stop.Tame P) (hf : P .trap ∧ P .fault) (ht : m.target e = none) :
    Settled P (m.body e) := by
  cases e with
  | sysbp old => exact Kernel.sysbpBody_settled hP hf ht
  | pgmtrap old => exact Kernel.trap_settled hP hf.1 (e := .pgmtrap) ht
  | tlb old => exact Kernel.trap_settled hP hf.1 (e := .tlbtrap) ht
  | interrupt old => exact Kernel.intBody_settled hP (fun hn => absurd hf.1 hn) old
  | devices | edit => exact .ok _
  | store a v => exact Kernel.storeWord_settled fun hn => absurd hf.1 hn
  | ssi old =>
    simp only [target] at ht
    simp only [body]
    cases hcall : m.ssi.call m.k <;> simp only [hcall] at ht ⊢
    case msgRecv | msgSend => exact Kernel.sysbpBody_settled hP hf ht
    case terminate => cases ht
    case panic =>
      rintro e he
      cases he
      exact hP.panic _ (by simp)
    case fault => exact .error hf.2
    case insertChild p c =>
      simp only [Kernel.performBody, Kernel.perform]
      split
      · exact .error hf.2
      · exact .ok _
    case insertSibling p c =>
      simp only [Kernel.performBody, Kernel.perform]
      split
      · exact .error hf.2
      · exact .ok _
    case copyState =>
      simp only [Kernel.performBody, Kernel.perform]
      split
      · exact .ok _
      · exact .error hf.1
    all_goals exact .ok _

/-- The SSI cannot read its request. -/
def misreads (m : Machine) : Event → Bool
  | .ssi _ => m.ssi.misreads m.k
  | _ => false

/-- A step that fails does so in the handler, in the scheduler, or before a call of the SSI. -/
theorem step_error {x : Stop} (h : m.step e = .error x) :
    (m.body e = .error x ∨ ∃ k, m.body e = .ok k ∧ k.scheduler = .error x) ∨
      m.misreads e = true ∧ x = .trap := by
  have hsched : ∀ b : Except Stop Kernel, m.withKernel (b >>= Kernel.scheduler) = .error x →
      b = .error x ∨ ∃ k, b = .ok k ∧ k.scheduler = .error x := by
    intro b hb
    rcases bind_eq_error.mp hb with hb | ⟨k, -, hb⟩
    · exact bind_eq_error.mp hb
    · cases hb
  cases e with
  | sysbp | pgmtrap | tlb | interrupt => exact .inl (hsched _ h)
  | devices | edit => cases h
  | store a v =>
    rcases bind_eq_error.mp h with h | ⟨k, -, h⟩
    · exact .inl (.inl h)
    · cases h
  | ssi old =>
    rcases bind_eq_error.mp h with h | ⟨k, -, h⟩
    · unfold Ssi.perform at h
      split at h
      · cases h
        exact .inr ⟨‹_›, rfl⟩
      refine .inl ?_
      simp only [body]
      cases hcall : m.ssi.call m.k <;> rw [hcall] at h
      case msgRecv | msgSend =>
        rcases bind_eq_error.mp h with h | ⟨k, -, h⟩
        · exact bind_eq_error.mp h
        · cases h
      all_goals exact .inl (bind_eq_error.mpr (.inl h))
    · cases h

theorem step_settled (hP : Stop.Tame P) (hf : P .trap ∧ P .fault) (ht : m.target e = none) :
    Settled P (m.step e) := by
  intro x hx
  rcases step_error hx with (hx | ⟨k, -, hx⟩) | ⟨-, rfl⟩
  · exact body_settled hP hf ht x hx
  · exact Kernel.scheduler_settled hP x hx
  · exact hf.1

end Machine

end AmiKaya
