import AmiKaya.Identity
import AmiKaya.MessageSlots

/-! What a step of the machine changes in memory and in the saved states of the threads. -/
namespace AmiKaya
open Lts

/-- Memory and the reply pointers are left alone, and so are the threads except `c`: their saved
states, and the wait queue, which only those leave that are freed. -/
structure Inert (c : Ptr) (k k' : Kernel) : Prop where
  mem : k'.mem = k.mem
  reply : ∀ p, (k'.tcb p).reply = (k.tcb p).reply
  tState : ∀ p, p ≠ c → (k'.tcb p).tState = (k.tcb p).tState
  waitingFor : ∀ p, p ≠ c → (k'.tcb p).waitingFor = (k.tcb p).waitingFor
  stays : ∀ p ∈ k.waitQueue, p ∉ k'.tcbFree → p ∈ k'.waitQueue
  freed : ∀ p ∈ k.tcbFree, p ∈ k'.tcbFree

/-- The same but for one message, which `t` is handed: the payload where it asked for it, and the
name of the sender in its `v0`. -/
structure HandsOver (c t id : Ptr) (v : U32) (k k' : Kernel) : Prop where
  waiting : t ∈ k.waitQueue
  awaits : k.awaits t id = true
  aligned : (k.tcb t).reply.toNat % 4 = 0
  left : t ∉ k'.waitQueue
  mem : k'.mem = put k.mem (k.tcb t).reply v
  reply : ∀ p, (k'.tcb p).reply = if p = t then notWaiting else (k.tcb p).reply
  tState : ∀ p, p ≠ c →
    (k'.tcb p).tState = if p = t then (k.tcb t).tState.setV0 id else (k.tcb p).tState
  waitingFor : ∀ p, p ≠ c → p ≠ t → (k'.tcb p).waitingFor = (k.tcb p).waitingFor
  stays : ∀ p ∈ k.waitQueue, p ≠ t → p ∉ k'.tcbFree → p ∈ k'.waitQueue
  freed : ∀ p ∈ k.tcbFree, p ∈ k'.tcbFree

/-- The message is handed to `t`, if anything happens at all. -/
def Reaches (c t id : Ptr) (v : U32) (k k' : Kernel) : Prop :=
  Inert c k k' ∨ HandsOver c t id v k k'

namespace Inert

variable {k k' k'' : Kernel} {c s t : Ptr}

theorem refl (k : Kernel) : Inert c k k :=
  ⟨rfl, fun _ => rfl, fun _ _ => rfl, fun _ _ => rfl, fun _ hp _ => hp, fun _ hp => hp⟩

theorem trans (h : Inert c k k') (h' : Inert c k' k'') : Inert c k k'' where
  mem := h'.mem.trans h.mem
  reply p := (h'.reply p).trans (h.reply p)
  tState p hc := (h'.tState p hc).trans (h.tState p hc)
  waitingFor p hc := (h'.waitingFor p hc).trans (h.waitingFor p hc)
  stays p hp hf := h'.stays p (h.stays p hp fun hf' => hf (h'.freed p hf')) hf
  freed p hp := h'.freed p (h.freed p hp)

/-- Three fields of the TCBs count. -/
def SameTcb (x y : Tcb) : Prop :=
  x.reply = y.reply ∧ x.tState = y.tState ∧ x.waitingFor = y.waitingFor

theorem of_same (hm : k'.mem = k.mem) (hw : k'.waitQueue = k.waitQueue)
    (hf : k'.tcbFree = k.tcbFree)
    (ht : ∀ p, SameTcb (k'.tcb p) (k.tcb p)) : Inert c k k' :=
  ⟨hm, fun p => (ht p).1, fun p _ => (ht p).2.1, fun p _ => (ht p).2.2, fun _ hp _ => hw ▸ hp,
    fun _ hp => hf ▸ hp⟩

/-- What has nothing to do with any of this. -/
theorem of_eq (hm : k'.mem = k.mem) (hw : k'.waitQueue = k.waitQueue) (hf : k'.tcbFree = k.tcbFree)
    (ht : k'.tcb = k.tcb) : Inert c k k' :=
  of_same hm hw hf fun p => by rw [ht]; exact ⟨rfl, rfl, rfl⟩

/-- A store in the TCB of `c`, the reply pointer apart. -/
theorem setTcb {f : Tcb → Tcb} (hf : ∀ x : Tcb, (f x).reply = x.reply) :
    Inert c k (k.setTcb c f) := by
  refine ⟨rfl, fun p => ?_, fun p hc => ?_, fun p hc => ?_, fun _ hp _ => hp, fun _ hp => hp⟩
  · by_cases hp : p = c
    · subst hp
      simp [Kernel.setTcb, hf]
    · simp [Kernel.setTcb, hp]
  · simp [Kernel.setTcb, hc]
  · simp [Kernel.setTcb, hc]

/-- A store in another field of a TCB. -/
theorem setField {f : Tcb → Tcb} (hf : ∀ x : Tcb, SameTcb (f x) x) : Inert c k (k.setTcb t f) := by
  refine of_same rfl rfl rfl ?_
  intro p
  by_cases hp : p = t
  · subst hp
    simpa [Kernel.setTcb] using hf (k.tcb p)
  · simp [Kernel.setTcb, SameTcb, hp]

theorem enqueue {v : U32} (h : k.enqueue s t v = .ok k') : Inert c k k' := by
  obtain ⟨a, free, -, rfl⟩ := Kernel.enqueue_cases h
  refine of_same rfl rfl rfl ?_
  intro p
  by_cases hp : p = t
  · subst hp
    simp [SameTcb]
  · simp [SameTcb, hp]

theorem reap (h : k.reap t = .ok k') : Inert c k k' := by
  have hkeep : ∀ p, SameTcb ((put k.tcb t { k.tcb t with tInbox := [] }) p) (k.tcb p) := by
    intro p
    by_cases hp : p = t
    · subst hp
      simp [SameTcb]
    · simp [SameTcb, hp]
  have hfree : ∀ p ∈ k.tcbFree, p ∈ k.tcbFree ++ [t] := fun p hp => List.mem_append_left _ hp
  rcases Kernel.reap_cases h with ⟨-, rfl⟩ | ⟨-, -, -, -, rfl⟩
  · exact ⟨rfl, fun p => (hkeep p).1, fun p _ => (hkeep p).2.1, fun p _ => (hkeep p).2.2,
      fun _ hp _ => hp, hfree⟩
  · refine ⟨rfl, fun p => (hkeep p).1, fun p _ => (hkeep p).2.1, fun p _ => (hkeep p).2.2, ?_, hfree⟩
    intro p hp hf
    have hne : p ≠ t := by
      rintro rfl
      exact hf (List.mem_append_right _ (List.mem_singleton.mpr rfl))
    exact (List.mem_erase_of_ne hne).mpr hp

theorem terminate (h : k.terminate t = .ok k') : Inert c k k' := by
  obtain ⟨k₁, h₁, h₂⟩ := Kernel.terminate_cases (R := Inert c) refl (fun _ _ _ => trans)
    (fun k p => (setField (f := fun x => { x with tParent := null }) fun _ => ⟨rfl, rfl, rfl⟩).trans
      (of_eq rfl rfl rfl rfl)) (fun _ _ _ _ hr => reap hr) h
  exact h₁.trans (reap h₂)

theorem readTodlow : Inert c k k.readTodlow := of_eq rfl rfl rfl rfl

theorem enter (old : State) : Inert k.currentThread k (k.enter old) := by
  have hslice : Inert k.currentThread k k.chargeSlice := readTodlow.trans (setTcb fun _ => by rfl)
  have htime : Inert k.currentThread k.chargeSlice k.chargeSlice.chargeTime :=
    readTodlow.trans (setTcb fun _ => by rfl)
  exact (hslice.trans htime).trans (setTcb (f := fun t => { t with tState := saveState old }) fun _ => rfl)

theorem sysbpEnter (old : State) : Inert k.currentThread k (k.sysbpEnter old) :=
  (enter old).trans (setTcb fun _ => by rfl)

theorem sendEnter (old : State) : Inert k.currentThread k (k.sendEnter old) := by
  unfold Kernel.sendEnter
  split
  · exact (sysbpEnter old).trans (of_eq rfl rfl rfl rfl)
  · exact sysbpEnter old

theorem scheduler (h : k.scheduler = .ok k') : Inert c k k' := by
  unfold Kernel.scheduler at h
  split at h
  · split at h
    · repeat' split at h
      all_goals cases h
      exact refl _
    · next q rest _ =>
      cases h
      have hq := Quiet.dispatch (k := k) q rest
      have htcb : (k.dispatch q rest).tcb = put k.tcb q { k.tcb q with cpuSlice := 0 } := by
        simp only [Kernel.dispatch, Kernel.ldst, Kernel.setTimer_tcb]
        rfl
      refine of_same (Kernel.dispatch_mem q rest) hq.waitQueue hq.tcbFree fun p => ?_
      rw [htcb]
      by_cases hp : p = q
      · subst hp
        simp [SameTcb]
      · simp [SameTcb, hp]
  · cases h
    have hq := Quiet.resumeCurrent (k := k)
    exact of_eq (Kernel.resumeCurrent_mem k) hq.waitQueue hq.tcbFree (Kernel.resumeCurrent_cpu k).1

end Inert

/-- A blocked thread goes on without a message: its manager has decided so. -/
structure Resumes (c t : Ptr) (k k' : Kernel) : Prop where
  waiting : t ∈ k.waitQueue
  manager : (k.tcb t).waitingFor = c
  mem : k'.mem = k.mem
  reply : ∀ p, (k'.tcb p).reply = (k.tcb p).reply
  tState : ∀ p, p ≠ c → (k'.tcb p).tState = (k.tcb p).tState
  waitingFor : ∀ p, p ≠ c → (k'.tcb p).waitingFor = (k.tcb p).waitingFor
  stays : ∀ p ∈ k.waitQueue, p ≠ t → p ∉ k'.tcbFree → p ∈ k'.waitQueue

namespace Reaches

variable {k k' k'' : Kernel} {c s t id : Ptr} {v r : U32} {old : State}

theorem then_ (h : Reaches c t id v k k') (h' : Inert c k' k'')
    (hw : t ∈ k.waitQueue → t ∉ k'.waitQueue → t ∉ k''.waitQueue) : Reaches c t id v k k'' :=
  h.imp (fun h => h.trans h') fun h =>
    { waiting := h.waiting
      awaits := h.awaits
      aligned := h.aligned
      left := hw h.waiting h.left
      mem := h'.mem.trans h.mem
      reply := fun p => (h'.reply p).trans (h.reply p)
      tState := fun p hp => (h'.tState p hp).trans (h.tState p hp)
      waitingFor := fun p hp ht => (h'.waitingFor p hp).trans (h.waitingFor p hp ht)
      stays := fun p hp ht hf => h'.stays p (h.stays p hp ht fun hf' => hf (h'.freed p hf')) hf
      freed := fun p hp => h'.freed p (h.freed p hp) }

theorem after (h : Reaches c t id v k' k'') (h' : Inert c k k') (hc : c ∉ k.waitQueue)
    (hw : k'.waitQueue = k.waitQueue) : Reaches c t id v k k'' := by
  refine h.imp (fun h => h'.trans h) fun h => ?_
  have hwait : t ∈ k.waitQueue := hw ▸ h.waiting
  have htc : t ≠ c := by
    rintro rfl
    exact hc hwait
  have ha := h.awaits
  rw [Kernel.awaits, h'.waitingFor t htc] at ha
  exact
    { waiting := hwait
      awaits := ha
      aligned := h'.reply t ▸ h.aligned
      left := h.left
      mem := by rw [h.mem, h'.mem, h'.reply]
      reply := fun p => by rw [h.reply, h'.reply]
      tState := fun p hp => by rw [h.tState p hp, h'.tState t htc, h'.tState p hp]
      waitingFor := fun p hp ht => (h.waitingFor p hp ht).trans (h'.waitingFor p hp)
      stays := fun p hp => h.stays p (hw ▸ hp)
      freed := fun p hp => h.freed p (h'.freed p hp) }

theorem send (hk : Placed k) (h : k.send s t v = .ok (r, k')) :
    Reaches c t (k.senderId s) v k k' := by
  rcases Kernel.send_cases h with ⟨-, -, he⟩ | ⟨-, -, -, hw, -, ha, hal, rfl⟩ | ⟨-, -, -, -, -, -, he⟩ |
    ⟨-, -, -, rfl⟩
  · exact .inl (.enqueue he)
  · refine .inr ⟨hw, ha, hal, hk.wait_erase, rfl, fun p => ?_, fun p _ => ?_, fun p _ ht => ?_,
      fun p hp ht _ => (List.mem_erase_of_ne ht).mpr hp, fun _ hp => hp⟩
    · by_cases hp : p = t
      · subst hp
        simp [Kernel.delivered]
      · simp [Kernel.delivered, hp]
    · by_cases hp : p = t
      · subst hp
        simp [Kernel.delivered]
      · simp [Kernel.delivered, hp]
    · simp [Kernel.delivered, ht]
  · exact .inl (.enqueue he)
  · exact .inl (.refl k')

theorem passUp {m : Ptr} {cause : U32} (hk : Placed k) (hc : k.currentThread ≠ null)
    (h : k.passUp m cause = .ok k') :
    Reaches k.currentThread m (k.senderId k.currentThread) cause k k' := by
  unfold Kernel.passUp at h
  split at h
  · obtain ⟨k₁, h₁, h₂⟩ := bind_eq_ok.mp h
    cases h₂
    exact .inl ((Inert.terminate h₁).trans (.of_eq rfl rfl rfl rfl))
  · obtain ⟨⟨r, k₁⟩, h₁, h₂⟩ := bind_eq_ok.mp h
    cases h₂
    have hcur : k₁.currentThread = k.currentThread := (Kernel.send_frame h₁).currentThread
    have hset : Inert k₁.currentThread k₁ (k₁.setTcb k₁.currentThread fun t => { t with waitingFor := m }) :=
      .setTcb fun _ => rfl
    have hfreeze : Inert k₁.currentThread k₁ (k₁.freeze m) :=
      { hset with stays := fun p hp _ => List.mem_append_left _ hp }
    rw [hcur] at hfreeze
    refine (send hk h₁).then_ hfreeze fun hm hn hp => ?_
    have hp : m ∈ k₁.waitQueue ++ [k₁.currentThread] := hp
    rw [hcur] at hp
    rcases List.mem_append.mp hp with hp | hp
    · exact hn hp
    · exact (hk.current_notMem hc).2.1 (List.mem_singleton.mp hp ▸ hm)

theorem sendOrdinary (hk : Placed k) (h : k.sendOrdinary s t v = .ok k') :
    Reaches s t (k.senderId s) v k k' := by
  obtain ⟨r, k₁, h₁, rfl⟩ := Kernel.sendOrdinary_cases h
  exact (send hk h₁).then_ (.setTcb fun _ => by rfl) fun _ hn => hn

/-- A SEND reaches its recipient, or it is a decision and hands nothing over. -/
theorem sysbpBody_send (hk : Placed k) (hc : k.currentThread ≠ null) (hs : old.isSend = true)
    (h : k.sysbpBody old = .ok k') :
    Reaches k.currentThread (k.receiver old) (k.senderId k.currentThread) old.regA2 k k' ∨
      ∃ t, Resumes k.currentThread t k k' := by
  have hin := Inert.sendEnter (k := k) old
  obtain ⟨hready, hwait, hfree, hcur, hssi, -, -, -, htcb⟩ := k.sendEnter_eq old
  have hnot := (hk.current_notMem hc).2.1
  have hplaced : Placed (k.sendEnter old) := hk.of_perm (SamePlaces.of_eq hready hwait hfree hcur)
  rcases Kernel.sysbpBody_send_cases hs h with ⟨t, -, hman, hd⟩ | ho
  · unfold Kernel.decision at hd
    split at hd
    · exact .inl (.inl (hin.trans (.terminate hd)))
    · obtain ⟨ht, -, rfl⟩ := Kernel.continueTrapped_cases hd
      exact .inr ⟨t, hwait ▸ ht, hman, hin.mem, hin.reply, hin.tState, hin.waitingFor,
        fun p hp hne _ => (List.mem_erase_of_ne hne).mpr (hwait ▸ hp)⟩
  · left
    have hid : (k.sendEnter old).senderId k.currentThread = k.senderId k.currentThread := by
      simp only [Kernel.senderId, hssi]
    exact hid ▸ (sendOrdinary hplaced ho).after hin hnot hwait

end Reaches

/-- What the interrupt handler does: it fills a slot and the SSI is sent its address in the name of
a device, or neither. -/
def Notifies (c : Ptr) (k k' : Kernel) : Prop :=
  Inert c k k' ∨ ∃ id service arg, id ∈ deviceIds ∧
    Reaches c k.ssiTcb id (interruptMsgSlot k.intIndex) (k.fillSlot service arg) k'

namespace Notifies

variable {k k' k'' : Kernel} {c s : Ptr}

theorem then_ (h : Notifies c k k') (h' : Inert c k' k'') (hw : k''.waitQueue = k'.waitQueue) :
    Notifies c k k'' := by
  rcases h with h | ⟨id, service, arg, hid, h⟩
  · exact .inl (h.trans h')
  · exact .inr ⟨id, service, arg, hid, h.then_ h' fun _ hn => hw ▸ hn⟩

theorem after (h : Notifies c k' k'') (hi : Inert c k k') (hc : c ∉ k.waitQueue)
    (hw : k'.waitQueue = k.waitQueue) (hs : k'.ssiTcb = k.ssiTcb) (hx : k'.intIndex = k.intIndex) :
    Notifies c k k'' := by
  rcases h with h | ⟨id, service, arg, hid, h⟩
  · exact .inl (hi.trans h)
  · rw [hs, hx] at h
    have hfill : Inert c (k.fillSlot service arg) (k'.fillSlot service arg) := by
      refine ⟨?_, hi.reply, hi.tState, hi.waitingFor, hi.stays, hi.freed⟩
      simp only [Kernel.fillSlot, hi.mem, hx]
    exact .inr ⟨id, service, arg, hid, h.after hfill hc hw⟩

theorem notifySsi {service arg : U32} (hk : Placed k) (hssi : k.ssiTcb ∈ threadArray)
    (hs : s ∈ deviceIds)
    (h : (k.fillSlot service arg).notifySsi s = .ok k') : Notifies c k k' := by
  obtain ⟨⟨r, k₁⟩, h₁, h₂⟩ := bind_eq_ok.mp h
  split at h₂
  · cases h₂
  · cases h₂
    have hsend := Reaches.send (c := c) (hk.of_perm (SamePlaces.quiet (.fillSlot _ _))) h₁
    have hne : s ≠ k.ssiTcb := fun he => (deviceIds_notMem hs).1 (he ▸ hssi)
    have hid : (k.fillSlot service arg).senderId s = s := if_neg hne
    rw [hid] at hsend
    exact .inr ⟨s, service, arg, hs, hsend⟩

theorem timerInterrupt (hk : Placed k) (hssi : k.ssiTcb ∈ threadArray) (hc : c ∉ k.waitQueue)
    (h : k.timerInterrupt = .ok k') : Notifies c k k' := by
  obtain ⟨k₁, h₁, h₂⟩ := bind_eq_ok.mp h
  cases h₂
  have hq := Quiet.updatePseudoTick (k := k)
  have htick : Notifies c k k₁ := by
    unfold Kernel.pseudoClockTick at h₁
    split at h₁
    · obtain ⟨k₂, h₂, h₃⟩ := bind_eq_ok.mp h₁
      cases h₃
      have hn := notifySsi (c := c) (hk.of_perm (SamePlaces.quiet hq)) hssi List.mem_cons_self h₂
      have hn : Notifies c k k₂ := hn.after (.of_eq rfl rfl rfl rfl) hc rfl rfl rfl
      exact hn.then_ (.of_eq rfl rfl rfl rfl) rfl
    · cases h₁
      exact .inl (.of_eq rfl rfl rfl rfl)
  unfold Kernel.sliceEnd
  split <;> exact htick.then_ (.of_eq rfl rfl rfl rfl) rfl

theorem dtpInterrupt (line : Nat) (hl : 3 ≤ line ∧ line < 8) (hk : Placed k)
    (hssi : k.ssiTcb ∈ threadArray) (hc : c ∉ k.waitQueue) (h : k.dtpInterrupt line = .ok k') :
    Notifies c k k' := by
  have hid := (deviceBaseAddr_mem line hl (k.bus (intBitmap line))).1
  have hn := notifySsi (c := c) (hk.of_perm (SamePlaces.quiet (.ioStore _ _))) hssi hid h
  exact hn.after (.of_eq rfl rfl rfl rfl) hc rfl rfl rfl

theorem terminalHalf {status command : Ptr} (hk : Placed k) (hssi : k.ssiTcb ∈ threadArray)
    (hs : status ∈ deviceIds) (h : k.terminalHalf status command = .ok k') : Notifies c k k' := by
  obtain ⟨k₁, h₁, h₂⟩ := bind_eq_ok.mp h
  cases h₂
  exact (notifySsi hk hssi hs h₁).then_ (.of_eq rfl rfl rfl rfl) rfl

theorem lineInterrupt {cause : U32} (hk : Placed k) (hssi : k.ssiTcb ∈ threadArray)
    (hc : c ∉ k.waitQueue) (h : k.lineInterrupt cause = .ok k') : Notifies c k k' := by
  refine Kernel.lineInterrupt_inv (P := fun x => x = .ok k' → Notifies c k k')
    (timerInterrupt hk hssi hc) (fun line hl => dtpInterrupt line hl hk hssi hc)
    (fun _ hs _ => terminalHalf hk hssi hs) ?_ cause h
  intro he
  cases he
  exact .inl (.refl k)

theorem intBody {old : State} (hk : Placed k) (hssi : k.ssiTcb ∈ threadArray)
    (h : k.intBody old = .ok k') :
    Notifies k.currentThread k k' := by
  rw [Kernel.intBody_eq] at h
  obtain ⟨k₁, h₁, h₂⟩ := bind_eq_ok.mp h
  cases h₂
  obtain ⟨hq, -, -, hidx, -⟩ := k.intEnter_quiet old
  have hc : k.currentThread ∉ k.waitQueue := by
    intro hm
    have hn := hk.ne_null (Kernel.mem_places.mpr (.inr (.inl hm)))
    exact (hk.current_notMem hn).2.1 hm
  have henter : Inert k.currentThread k (k.intEnter old) := by
    unfold Kernel.intEnter
    split
    · exact .enter old
    · exact .refl k
  have hplaced := hk.of_perm (SamePlaces.quiet hq)
  have hline := lineInterrupt hplaced (hq.ssiTcb ▸ hssi) (hq.waitQueue ▸ hc) h₁
  have hbody : Notifies k.currentThread k k₁ := hline.after henter hc hq.waitQueue hq.ssiTcb hidx
  exact hbody.then_ (.of_eq rfl rfl rfl rfl) rfl

end Notifies

namespace Machine

variable {m m' : Machine} {e : Event} {k : Kernel}

/-- The message an event sends, if it sends one: to whom, in whose name, and the payload. -/
def Carries (m : Machine) (e : Event) (t id : Ptr) (v : U32) : Prop :=
  match e with
  | .sysbp old => id = m.k.senderId m.k.currentThread ∧
      if old.isSend then t = m.k.receiver old ∧ v = old.regA2
      else ¬ old.isRecv ∧ t = (m.k.tcb m.k.currentThread).manager .sysbp ∧ v = old.cause
  | .pgmtrap old => id = m.k.senderId m.k.currentThread ∧
      t = (m.k.tcb m.k.currentThread).manager .pgmtrap ∧ v = old.cause
  | .tlb old => id = m.k.senderId m.k.currentThread ∧
      t = (m.k.tcb m.k.currentThread).manager .tlbtrap ∧ v = old.cause
  | .interrupt _ => t = m.k.ssiTcb ∧ id ∈ deviceIds ∧ v = interruptMsgSlot m.k.intIndex
  | .ssi old => ∃ dest, m.ssi.call m.k = .msgSend dest v ∧ id = m.k.senderId m.k.currentThread ∧
      t = m.k.receiver (old.syscall sysSend dest v)
  | .devices _ | .store _ _ | .edit _ _ => False

/-- Where the current thread wants the payload, in a RECV. -/
def replyAddress (m : Machine) : Event → Option Ptr
  | .sysbp old => if old.isRecv then some old.regA2 else none
  | .ssi _ => match m.ssi.call m.k with
    | .msgRecv reply => some reply
    | _ => none
  | _ => none

/-- What an event changes in memory and in the saved states. -/
inductive Changes (m : Machine) (e : Event) (k : Kernel) : Prop
  | reached {t id v} (ht : m.Carries e t id v) (h : Reaches (m.writes e) t id v m.k k)
  | notified {old} (he : e = .interrupt old) (h : Notifies m.k.currentThread m.k k)
  | resumed {t} (he : m.entry e = .send) (hr : m.replyAddress e = none)
      (h : Resumes m.k.currentThread t m.k k)
  | inert (hr : m.replyAddress e = none) (hb : m.born e = none) (h : Inert (m.writes e) m.k k)
  | stored {a v} (he : e = .store a v) (hm : k.mem = put m.k.mem a v)
      (h : Inert null { m.k with mem := k.mem } k)
  | received {a v} (ha : m.replyAddress e = some a) (hal : a.toNat % 4 = 0)
      (hm : k.mem = put m.k.mem a v) (hw : m.k.currentThread ∉ k.waitQueue)
      (h : Inert m.k.currentThread { m.k with mem := k.mem } k)
  | blocked {a} (ha : m.replyAddress e = some a) (hw : m.k.currentThread ∈ k.waitQueue)
      (h : Inert m.k.currentThread (m.k.setTcb m.k.currentThread fun t => { t with reply := a }) k)
  | born {p} (hp : m.born e = some p) (hr : m.replyAddress e = none) (h : Inert null m.k.allocTcb.2 k)

/-- The RECV of the current thread. -/
theorem recv_changes {w a : Ptr} {r : U32} {k₀ k₁ : Kernel} (hi : Inert m.k.currentThread m.k k₀)
    (hw : m.k.currentThread ∉ k₀.waitQueue) (ha : m.replyAddress e = some a)
    (h : k₀.recv m.k.currentThread w a = .ok (r, k₁))
    (hk : k = k₁.setTcb m.k.currentThread fun t => { t with tState := t.tState.setV0 r }) :
    m.Changes e k := by
  have hset : Inert m.k.currentThread k₁ k := hk ▸ .setTcb fun _ => by rfl
  rcases Kernel.recv_cases h with ⟨-, -, rfl⟩ | ⟨x, rest, -, hal, -, rfl⟩
  · refine .blocked ha ?_ (Inert.trans ?_ hset)
    · rw [hk]
      exact List.mem_append_right _ (List.mem_singleton.mpr rfl)
    · refine ⟨hi.mem, fun p => ?_, fun p hp => ?_, fun p hp => ?_, fun p hp hf => ?_, hi.freed⟩
      · by_cases hp : p = m.k.currentThread
        · subst hp
          simp [Kernel.block, Kernel.setTcb]
        · simp [Kernel.block, Kernel.setTcb, hp, hi.reply]
      · simp [Kernel.block, Kernel.setTcb, hp, hi.tState]
      · simp [Kernel.block, Kernel.setTcb, hp, hi.waitingFor]
      · exact List.mem_append_left _ (hi.stays p hp hf)
  · have hmem : k.mem = put m.k.mem a x.mMessage := by
      rw [hset.mem, ← hi.mem]
      rfl
    refine .received ha hal hmem ?_ (Inert.trans ?_ hset)
    · rw [hk]
      exact hw
    · refine ⟨hset.mem.symm, fun p => ?_, fun p hp => ?_, fun p hp => ?_, hi.stays, hi.freed⟩
      · by_cases hp : p = m.k.currentThread
        · subst hp
          simp [Kernel.received, hi.reply]
        · simp [Kernel.received, hp, hi.reply]
      · simp [Kernel.received, hp, hi.tState]
      · simp [Kernel.received, hp, hi.waitingFor]

theorem sysbpBody_changes {old : State} (hp : Placed m.k) (hc : m.k.currentThread ≠ null)
    (hw : m.writes e = m.k.currentThread)
    (hsend : old.isSend = true → m.entry e = .send ∧ m.replyAddress e = none ∧
      m.Carries e (m.k.receiver old) (m.k.senderId m.k.currentThread) old.regA2)
    (hrecv : old.isSend = false → old.isRecv = true → m.replyAddress e = some old.regA2)
    (htrap : old.isSend = false → old.isRecv = false →
      m.Carries e ((m.k.tcb m.k.currentThread).manager .sysbp) (m.k.senderId m.k.currentThread) old.cause)
    (h : m.k.sysbpBody old = .ok k) : m.Changes e k := by
  have hq := Kernel.sysbpEnter_quiet (k := m.k) old
  have hin := Inert.sysbpEnter (k := m.k) old
  have hnot := (hp.current_notMem hc).2.1
  by_cases hs : old.isSend = true
  · obtain ⟨hentry, hreply, hcarries⟩ := hsend hs
    rcases Reaches.sysbpBody_send hp hc hs h with hr | ⟨t, ht⟩
    · exact .reached hcarries (hw ▸ hr)
    · exact .resumed hentry hreply ht
  · have hs' : old.isSend = false := by simpa using hs
    rw [Kernel.sysbpBody_eq, if_neg hs] at h
    by_cases hr : old.isRecv = true
    · rw [if_pos hr] at h
      obtain ⟨⟨r, k₁⟩, h₁, h₂⟩ := bind_eq_ok.mp h
      cases h₂
      rw [hq.currentThread] at h₁
      refine recv_changes hin (hq.waitQueue ▸ hnot) (hrecv hs' hr) h₁ ?_
      rw [hq.currentThread]
    · have hr' : old.isRecv = false := by simpa using hr
      rw [if_neg hr] at h
      have hc' : (m.k.sysbpEnter old).currentThread ≠ null := hq.currentThread ▸ hc
      have hpass := Reaches.passUp (hp.of_perm (SamePlaces.quiet hq)) hc' h
      have hid : (m.k.sysbpEnter old).senderId m.k.currentThread = m.k.senderId m.k.currentThread := by
        simp only [Kernel.senderId, hq.ssiTcb]
      rw [hq.currentThread, Kernel.sysbpEnter_manager, hid] at hpass
      exact .reached (htrap hs' hr') (hw ▸ hpass.after hin hnot hq.waitQueue)

theorem enter_passUp_changes {old : State} {x : Trap} (hp : Placed m.k)
    (hc : m.k.currentThread ≠ null)
    (hw : m.writes e = m.k.currentThread)
    (ha : m.Carries e ((m.k.tcb m.k.currentThread).manager x) (m.k.senderId m.k.currentThread) old.cause)
    (h : (m.k.enter old).passUp (((m.k.enter old).tcb m.k.currentThread).manager x) old.cause = .ok k) :
    m.Changes e k := by
  have hq := Quiet.enter (k := m.k) old
  have hc' : (m.k.enter old).currentThread ≠ null := hq.currentThread ▸ hc
  have hpass := Reaches.passUp (hp.of_perm (SamePlaces.quiet hq)) hc' h
  have hid : (m.k.enter old).senderId m.k.currentThread = m.k.senderId m.k.currentThread := by
    simp only [Kernel.senderId, hq.ssiTcb]
  rw [hq.currentThread, Kernel.enter_manager, hid] at hpass
  exact .reached ha (hw ▸ hpass.after (.enter old) (hp.current_notMem hc).2.1 hq.waitQueue)

/-- The calls of the SSI that are no system calls. -/
theorem perform_changes {old : State} {r : U32} (hs : m.schedules (.ssi old) = false)
    (h : m.k.perform old (m.ssi.call m.k) = .ok (r, k)) : m.Changes (.ssi old) k := by
  have hr : m.replyAddress (.ssi old) = none := by
    simp only [schedules, replyAddress] at hs ⊢
    cases hcall : m.ssi.call m.k <;> rw [hcall] at hs
    case msgRecv => cases hs
  simp only [schedules] at hs
  cases hcall : m.ssi.call m.k <;> rw [hcall] at h hs
  case msgRecv | msgSend => cases hs
  case allocTcb =>
    have hk : m.k.allocTcb.2 = k := by rw [Except.ok.inj h]
    cases hf : m.k.tcbFree with
    | nil =>
      refine .inert hr (by simp [born, hcall, hf]) ?_
      rw [← hk, Kernel.allocTcb, hf]
      exact .refl m.k
    | cons p free => exact .born (p := p) (by simp [born, hcall, hf]) hr (hk ▸ .refl _)
  case panic | fault => cases h
  all_goals
    refine .inert hr (by simp [born, hcall]) ?_
  case insertChild p c =>
    simp only [Kernel.perform] at h
    split at h
    · cases h
    · cases h
      have hset : Inert (m.writes (.ssi old)) m.k (m.k.setTcb c fun t => { t with tParent := p }) :=
        .setField fun _ => ⟨rfl, rfl, rfl⟩
      exact hset.trans (.of_eq rfl rfl rfl rfl)
  case insertSibling =>
    simp only [Kernel.perform] at h
    split at h
    · cases h
    · cases h
      exact .of_eq rfl rfl rfl rfl
  case copyState a p =>
    obtain ⟨-, rfl⟩ := Kernel.perform_copyState h
    simp only [writes, hcall]
    exact .setTcb fun _ => rfl
  case inherit s p =>
    cases h
    exact .setField fun _ => by exact ⟨rfl, rfl, rfl⟩
  case setManager x p q =>
    cases h
    exact .setField fun t => by cases x <;> exact ⟨rfl, rfl, rfl⟩
  case terminate =>
    obtain ⟨k₁, h₁, h₂⟩ := bind_eq_ok.mp h
    cases h₂
    exact .terminate h₁
  all_goals
    cases h
    exact .of_eq rfl rfl rfl rfl

/-- A SEND is no RECV. -/
theorem isRecv_of_isSend {old : State} (hs : old.isSend = true) : old.isRecv = false := by
  have hne : sysSend ≠ sysRecv := by decide
  simp only [State.isSend, Bool.and_eq_true, decide_eq_true_eq] at hs
  simp [State.isRecv, hs.2, hne]

theorem body_changes (hw : m.Wf) (hen : m.Enabled e) (h : m.body e = .ok k) : m.Changes e k := by
  cases e with
  | sysbp old =>
    refine sysbpBody_changes hw.placed hen.1 rfl (fun hs => ⟨?_, ?_, rfl, ?_⟩) (fun _ hr => ?_)
      (fun hs hr => ⟨rfl, ?_⟩) h
    · simp [entry, Kernel.sysbpEntry, hs]
    · simp [replyAddress, isRecv_of_isSend hs]
    · simp [hs]
    · simp [replyAddress, hr]
    · simp [hs, hr]
  | pgmtrap old => exact enter_passUp_changes (x := .pgmtrap) hw.placed hen rfl ⟨rfl, rfl, rfl⟩ h
  | tlb old => exact enter_passUp_changes (x := .tlbtrap) hw.placed hen rfl ⟨rfl, rfl, rfl⟩ h
  | interrupt old => exact .notified rfl (Notifies.intBody hw.placed hw.ssi h)
  | devices bus =>
    cases h
    exact .inert rfl rfl (.of_eq rfl rfl rfl rfl)
  | store a v =>
    obtain ⟨-, rfl⟩ := Kernel.storeWord_cases h
    exact .stored rfl rfl (.refl _)
  | edit p s =>
    cases h
    exact .inert rfl rfl (.setTcb fun _ => rfl)
  | ssi old =>
    have hc : m.k.currentThread ≠ null := by
      rw [show m.k.currentThread = m.k.ssiTcb from hen]
      exact hw.ssi_ne_null
    cases hs : m.schedules (.ssi old) with
    | false =>
      obtain ⟨r, hperf⟩ := perform_of_body h hs
      exact perform_changes hs hperf
    | true =>
      simp only [schedules, body] at hs h
      cases hcall : m.ssi.call m.k <;> rw [hcall] at hs h
      case msgRecv a =>
        obtain ⟨hsend, hrecv⟩ := old.syscall_isRecv anyMessage a
        refine sysbpBody_changes hw.placed hc (by simp [writes, hcall]) (fun hx => ?_) (fun _ _ => ?_)
          (fun _ hx => ?_) h
        · rw [hsend] at hx
          cases hx
        · simp [replyAddress, hcall, (old.syscall_regs _ _ _).2.2]
        · rw [hrecv] at hx
          cases hx
      case msgSend dest payload =>
        have hsend := old.syscall_isSend dest payload
        have hv := (old.syscall_regs sysSend dest payload).2.2
        refine sysbpBody_changes hw.placed hc (by simp [writes, hcall])
          (fun _ => ⟨?_, ?_, dest, ?_, rfl, ?_⟩) (fun hx _ => ?_) (fun hx _ => ?_) h
        · simp [entry, hcall]
        · simp [replyAddress, hcall]
        · rw [hcall, hv]
        · rw [hv]
        all_goals
          rw [hsend] at hx
          cases hx
      all_goals cases hs

/-- The scheduler changes nothing of this. -/
theorem Changes.scheduled {k' : Kernel} (h : m.Changes e k) (hs : k.scheduler = .ok k') :
    m.Changes e k' := by
  have hi : ∀ c, Inert c k k' := fun c => .scheduler hs
  have hq := (Kernel.scheduler_silent hs).waitQueue
  cases h with
  | reached ht h => exact .reached ht (h.then_ (hi _) fun _ hn => hq ▸ hn)
  | notified he h => exact .notified he (h.then_ (hi _) hq)
  | resumed he hr h =>
    have hi := hi m.k.currentThread
    exact .resumed he hr
      ⟨h.waiting, h.manager, hi.mem.trans h.mem, fun p => (hi.reply p).trans (h.reply p),
        fun p hp => (hi.tState p hp).trans (h.tState p hp),
        fun p hp => (hi.waitingFor p hp).trans (h.waitingFor p hp),
        fun p hp ht hf => hi.stays p (h.stays p hp ht fun hf' => hf (hi.freed p hf')) hf⟩
  | inert hr hb h => exact .inert hr hb (h.trans (hi _))
  | stored he hm h =>
    have hmem := (hi null).mem
    exact .stored he (hmem.trans hm) (hmem ▸ h.trans (hi _))
  | received ha hal hm hw h =>
    have hmem := (hi null).mem
    exact .received ha hal (hmem.trans hm) (hq ▸ hw) (hmem ▸ h.trans (hi _))
  | blocked ha hw h => exact .blocked ha (hq ▸ hw) (h.trans (hi _))
  | born hp hr h => exact .born hp hr (h.trans (hi _))

theorem step_changes (hw : m.Wf) (h : m.Step e m') : m.Changes e m'.k := by
  obtain ⟨k, hb, ⟨-, hk⟩ | ⟨-, hk⟩⟩ := step_body h
  · exact (body_changes hw h.1 hb).scheduled hk
  · exact hk ▸ body_changes hw h.1 hb

end Machine

end AmiKaya
