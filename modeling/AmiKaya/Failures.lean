import AmiKaya.Invariants

/-! How an entry of the kernel can fail to come back: the two ROM routines, and traps where a thread
gave a bad address. -/
namespace AmiKaya

/-- A computation that does not come back ends in a way that `P` allows. -/
def Settled {α : Type} (P : Stop → Prop) (x : Except Stop α) : Prop := ∀ e, x = .error e → P e

/-- The ways to end of everything but `terminate`, bad accesses apart. -/
structure Stop.Tame (P : Stop → Prop) : Prop where
  halt : P .halt
  panic : ∀ c, c ≠ .terminate → P (.panic c)

variable {P : Stop → Prop}

theorem Settled.ok {α : Type} (a : α) : Settled P (.ok a) := by
  intro e h
  cases h

theorem Settled.bind {α β : Type} {x : Except Stop α} {f : α → Except Stop β} (h : Settled P x)
    (hf : ∀ a, x = .ok a → Settled P (f a)) : Settled P (x >>= f) := by
  intro e he
  rcases bind_eq_error.mp he with he | ⟨a, ha, he⟩
  · exact h e he
  · exact hf a ha e he

theorem Settled.error {α : Type} {e : Stop} (h : P e) : Settled P (.error e : Except Stop α) := by
  rintro e he
  cases he
  exact h

namespace Kernel

variable {k k' : Kernel} {s t : Ptr} {v : U32}

/-- If a message of `s` is handed over to `t`, the address `t` gave for it is aligned. -/
def Addressed (k : Kernel) (s t : Ptr) : Prop :=
  t ∈ k.waitQueue → k.awaits t (k.senderId s) = true → (k.tcb t).reply.toNat % 4 = 0

theorem Addressed.congr (h : k.Addressed s t) (hw : k'.waitQueue = k.waitQueue)
    (hs : k'.ssiTcb = k.ssiTcb) (hwf : (k'.tcb t).waitingFor = (k.tcb t).waitingFor)
    (hr : (k'.tcb t).reply = (k.tcb t).reply) : k'.Addressed s t := by
  intro ht ha
  have he : k'.awaits t (k'.senderId s) = k.awaits t (k.senderId s) := by
    unfold awaits senderId
    rw [hs, hwf]
  rw [hr]
  exact h (hw ▸ ht) (he ▸ ha)

theorem Addressed.quiet (h : k.Addressed s t) (hq : Quiet k k') : k'.Addressed s t :=
  h.congr hq.waitQueue hq.ssiTcb (hq.waitingFor t) (hq.reply t)

/-! Each function ends well when the addresses it stores at are aligned, if traps matter at all. -/

theorem send_settled (hP : Stop.Tame P) (h : ¬ P .trap → k.Addressed s t) :
    Settled P (k.send s t v) := by
  intro e he
  rcases send_error he with rfl | ⟨rfl, hw, ha, hr⟩
  · exact hP.panic _ (by simp)
  · by_contra hf
    exact hr (h hf hw ha)

theorem sendOrdinary_settled (hP : Stop.Tame P) (h : ¬ P .trap → k.Addressed s t) :
    Settled P (k.sendOrdinary s t v) :=
  (send_settled hP h).bind fun _ _ => .ok _

theorem passUp_settled (hP : Stop.Tame P) {m : Ptr} (hm : m ≠ null)
    (h : ¬ P .trap → k.Addressed k.currentThread m) : Settled P (k.passUp m v) := by
  unfold passUp
  rw [if_neg hm]
  exact (send_settled hP h).bind fun _ _ => .ok _

/-- A message that is there for the receiver is stored at an aligned address. -/
def Stores (k : Kernel) (w a : Ptr) : Prop :=
  popMessage (k.tcb k.currentThread).tInbox w ≠ none → a.toNat % 4 = 0

theorem storeWord_settled {a : Ptr} (h : ¬ P .trap → a.toNat % 4 = 0) :
    Settled P (k.storeWord a v) := by
  unfold storeWord
  split
  · exact .ok _
  · next ha =>
    apply Settled.error
    by_contra hf
    exact ha (h hf)

theorem recv_settled {w a : Ptr} (h : ¬ P .trap → k.Stores w a) :
    Settled P (k.recv k.currentThread w a) := by
  unfold recv
  split
  · next hw =>
    subst hw
    split
    · exact .ok _
    · next hpop =>
      have ha : ¬ P .trap → a.toNat % 4 = 0 := by
        intro hf
        apply h hf
        intro hn
        change popMessage _ null = none at hn
        rw [hpop] at hn
        cases hn
      exact (storeWord_settled ha).bind fun _ _ => .ok _
  · split
    · exact .ok _
    · next hpop =>
      have ha : ¬ P .trap → a.toNat % 4 = 0 := fun hf => h hf (by simp [hpop])
      exact (storeWord_settled ha).bind fun _ _ => .ok _

theorem sysRecvCase_settled {old : State} (h : ¬ P .trap → k.Stores old.regA1 old.regA2) :
    Settled P (k.sysRecvCase old) :=
  (recv_settled h).bind fun _ _ => .ok _

theorem scheduler_settled (hP : Stop.Tame P) : Settled P k.scheduler := by
  intro e h
  unfold scheduler at h
  repeat' split at h
  all_goals cases h
  · exact hP.halt
  all_goals exact hP.panic _ (by simp)

/-! Interrupts: the one message of the handler goes to the SSI. -/

/-- Whatever a device sends, the SSI can take it. -/
def Listens (k : Kernel) : Prop := ∀ s ∈ deviceIds, k.Addressed s k.ssiTcb

theorem Listens.quiet (h : k.Listens) (hq : Quiet k k') : k'.Listens := by
  intro s hs
  rw [hq.ssiTcb]
  exact (h s hs).quiet hq

theorem notifySsi_settled (hP : Stop.Tame P) (h : ¬ P .trap → k.Listens) (hs : s ∈ deviceIds) :
    Settled P (k.notifySsi s) := by
  refine (send_settled hP fun hf => h hf s hs).bind fun r _ => ?_
  split
  · rintro e he
    cases he
    exact hP.panic _ (by simp)
  · exact .ok _

theorem timerInterrupt_settled (hP : Stop.Tame P) (h : ¬ P .trap → k.Listens) :
    Settled P k.timerInterrupt := by
  have htick : Settled P k.updatePseudoTick.pseudoClockTick := by
    unfold pseudoClockTick
    split
    · have hl : ¬ P .trap → Listens (k.updatePseudoTick.fillSlot pseudoClockMsg 0) := fun hf =>
        ((h hf).quiet .updatePseudoTick).quiet (.fillSlot _ _)
      exact (notifySsi_settled hP hl List.mem_cons_self).bind fun _ _ => .ok _
    · exact .ok _
  exact htick.bind fun _ _ => .ok _

theorem dtpInterrupt_settled (hP : Stop.Tame P) (h : ¬ P .trap → k.Listens) (line : Nat)
    (hl : 3 ≤ line ∧ line < 8) : Settled P (k.dtpInterrupt line) :=
  notifySsi_settled hP (fun hf => ((h hf).quiet (.ioStore _ _)).quiet (.fillSlot _ _))
    (deviceBaseAddr_mem line hl _).1

theorem terminalHalf_settled (hP : Stop.Tame P) (h : ¬ P .trap → k.Listens) {status command : Ptr}
    (hs : status ∈ deviceIds) : Settled P (k.terminalHalf status command) :=
  (notifySsi_settled hP (fun hf => (h hf).quiet (.fillSlot _ _)) hs).bind fun _ _ => .ok _

theorem lineInterrupt_settled (hP : Stop.Tame P) (h : ¬ P .trap → k.Listens) (cause : U32) :
    Settled P (k.lineInterrupt cause) :=
  lineInterrupt_inv (timerInterrupt_settled hP h) (dtpInterrupt_settled hP h)
    (fun _ hs _ => terminalHalf_settled hP h hs) (.ok k) cause

theorem intBody_settled (hP : Stop.Tame P) (h : ¬ P .trap → k.Listens) (old : State) :
    Settled P (k.intBody old) := by
  have hin : ¬ P .trap → Listens (if k.currentThread ≠ null then k.enter old else k) := by
    intro hf
    split
    · exact (h hf).quiet (.enter old)
    · exact h hf
  exact (lineInterrupt_settled hP hin _).bind fun _ _ => .ok _

end Kernel

end AmiKaya
