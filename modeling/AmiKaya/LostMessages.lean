import AmiKaya.Causes
import AmiKaya.Kinship
import AmiKaya.NestedTraps

/-! The message buffers, over runs in which accesses of the kernel trap. A RECV that traps has taken
its message out of the inbox and never frees the buffer. -/
namespace AmiKaya
open Lts

namespace Kernel

variable {k k' : Kernel} {old : State}

/-- The RECV finds a message, and the address for it is not aligned. -/
def loses (k : Kernel) (old : State) : Bool :=
  old.isRecv && (popMessage (k.tcb k.currentThread).tInbox old.regA1).isSome &&
    old.regA2.toNat % 4 ≠ 0

theorem stores_of_loses (hr : old.isRecv = true) (h : k.loses old = false) :
    k.Stores old.regA1 old.regA2 := by
  intro hpop
  by_contra ha
  have hsome := Option.isSome_iff_ne_none.mpr hpop
  simp [loses, hr, hsome, ha] at h

/-- A RECV traps for no other reason. -/
theorem loses_of_trap (hr : old.isRecv = true) (h : k.sysbpBody old = .error .trap) :
    k.loses old = true := by
  by_contra hl
  have hq := sysbpEnter_quiet (k := k) old
  have hst : (k.sysbpEnter old).Stores old.regA1 old.regA2 := by
    unfold Stores
    rw [hq.currentThread, hq.tInbox]
    exact stores_of_loses hr (Bool.eq_false_iff.mpr hl)
  rw [sysbpBody_eq, if_neg (by simp [State.isSend_of_isRecv hr]), if_pos hr] at h
  exact sysRecvCase_settled (P := fun x => x ≠ .trap) (fun _ => hst) _ h rfl

end Kernel

namespace Keeps

variable {I : Kernel → Prop} {k : Kernel} {m : Machine} {e : Event} {old : State}

theorem sysbpTrap (hI : Keeps I) (hr : old.isRecv = false) (hk : I k) : I (k.sysbpTrap old) := by
  unfold Kernel.sysbpTrap
  split
  · exact hI.sendEnter old hk
  · rw [hr]
    exact hI.quiet (Kernel.sysbpEnter_quiet old) hk

/-- What every operation keeps, the part of a handler before a trap keeps, unless it is a RECV. -/
theorem trapped (hI : Keeps I) (hr : ∀ old, m.syscall e = some old → old.isRecv = false)
    (hk : I m.k) : I (m.trapped e).k := by
  cases e with
  | sysbp old => exact hI.sysbpTrap (hr old rfl) hk
  | pgmtrap old | tlb old => exact hI.quiet (.enter old) hk
  | interrupt old => exact hI.quiet (Kernel.intTrap_quiet old) hk
  | ssi old =>
    simp only [Machine.syscall] at hr
    simp only [Machine.trapped]
    split
    · exact hk
    split
    · next hcall =>
      rw [hcall] at hr
      exact hI.sysbpTrap (hr _ rfl) hk
    · next hcall =>
      rw [hcall] at hr
      exact hI.sysbpTrap (hr _ rfl) hk
    · exact hk
  | devices | store | edit => exact hk

end Keeps

namespace Machine

variable {m m' : Machine} {e : Event} {o : Happening} {os : List Happening}

/-- The system call of the event is a RECV that loses its message. -/
def loses (m : Machine) (e : Event) : Bool :=
  match m.syscall e with
  | some old => m.k.loses old
  | none => false

/-- At the program point of its RECV the SSI has no request to read. -/
theorem isRecv_of_misreads {old old' : State} (hm : m.ssi.misreads m.k = true)
    (hs : m.syscall (.ssi old') = some old) : old.isRecv = false := by
  have hat := m.ssi.call_at m.k
  simp only [syscall] at hs
  cases hcall : m.ssi.call m.k <;> rw [hcall] at hs hat
  case msgRecv a =>
    have hpc : m.ssi.pc = .recv := hat.1
    simp [Ssi.misreads, Ssi.reads, hpc] at hm
  case msgSend d v =>
    have hsend := old'.syscall_isSend d v
    rw [Option.some.inj hs] at hsend
    refine Bool.eq_false_iff.mpr fun hr => ?_
    rw [State.isSend_of_isRecv hr] at hsend
    cases hsend
  all_goals cases hs

/-- A system call that traps is no RECV, unless this loses a message. -/
theorem isRecv_of_trap {old : State} (h : m.step e = .error .trap) (hl : m.loses e = false)
    (hs : m.syscall e = some old) : old.isRecv = false := by
  by_contra hr
  have hr : old.isRecv = true := by simpa using hr
  have hl : m.k.loses old = false := by
    simpa only [loses, hs] using hl
  have hbody : m.k.sysbpBody old ≠ .error .trap := by
    intro hb
    rw [Kernel.loses_of_trap hr hb] at hl
    cases hl
  rcases step_error h with (hb | ⟨k, -, hk⟩) | ⟨hm, -⟩
  · apply hbody
    cases e with
    | sysbp =>
      cases hs
      exact hb
    | ssi =>
      simp only [syscall] at hs
      simp only [body] at hb
      cases hcall : m.ssi.call m.k <;> rw [hcall] at hs hb
      case msgRecv | msgSend =>
        cases hs
        exact hb
      all_goals cases hs
    | pgmtrap | tlb | interrupt | devices | store | edit => cases hs
  · exact Kernel.scheduler_settled (P := fun x => x ≠ .trap) ⟨by simp, by simp⟩ _ hk rfl
  · cases e with
    | ssi => simp [isRecv_of_misreads hm hs] at hr
    | sysbp | pgmtrap | tlb | interrupt | devices | store | edit => cases hm

/-- One happening keeps the pool, unless a message is lost in it. -/
theorem pooled_happens (hw : m.Wf) (h : m.Happens o m') (hl : m.loses o.during = false)
    (hp : m.k.Pooled) : m'.k.Pooled := by
  cases o with
  | event e => exact Kernel.keeps_pooled.step hw (happens_event h) hp
  | trap e old =>
    obtain ⟨-, ht, hs⟩ := happens_trap h
    have hin := Kernel.keeps_pooled.trapped (fun _ => isRecv_of_trap ht hl) hp
    exact Kernel.keeps_pooled.step (hw.trapped e) hs hin

/-- No RECV finds a message and has a bad address for it. -/
def KeepingStep (m : Machine) (o : Happening) (m' : Machine) : Prop :=
  m.Happens o m' ∧ m.loses o.during = false

/-- The test thread creates a child, which waits for a message at an odd address, and sends it one.
The test thread is terminated for the trap, and the child with it. -/
def oddChildTrace : List Happening :=
  (Event.ssiCalls 2 ++ Event.ssiRequest createSon 0 ++ Event.ssiCalls 12 ++
    [Event.call sysRecv anyMessage 1, Event.call sysSend magicSsi 0x20030000]).map .event ++
    [.trap (Event.call sysSend thirdThreadAddr 0) initTState]

end Machine

end AmiKaya
