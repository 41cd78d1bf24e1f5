import AmiKaya.Acknowledge
import AmiKaya.Frames
import AmiKaya.Pool

/-! The array of messages of the interrupt handler: when a slot is used again, and what the SSI
still reads in it. -/
namespace AmiKaya
open Lts

/-! The words of the array. -/

/-- The service and the argument of the slots. -/
def slotWords : List Ptr :=
  (List.range 48).flatMap fun i => [interruptMsgSlot i, interruptMsgSlot i + 4]

theorem interruptMsgSlot_toNat {i : Nat} (hi : i < 48) :
    (interruptMsgSlot i).toNat = 0x2000C4F0 + 12 * i ∧
    (interruptMsgSlot i + 4).toNat = 0x2000C4F0 + 12 * i + 4 ∧
    (interruptMsgSlot i + 8).toNat = 0x2000C4F0 + 12 * i + 8 := by
  have hall : (List.range 48).all (fun i => (interruptMsgSlot i).toNat = 0x2000C4F0 + 12 * i &&
      (interruptMsgSlot i + 4).toNat = 0x2000C4F0 + 12 * i + 4 &&
      (interruptMsgSlot i + 8).toNat = 0x2000C4F0 + 12 * i + 8) = true := by
    decide +kernel
  have h := List.all_eq_true.mp hall i (List.mem_range.mpr hi)
  rw [Bool.and_eq_true, Bool.and_eq_true, decide_eq_true_eq, decide_eq_true_eq,
    decide_eq_true_eq] at h
  exact ⟨h.1.1, h.1.2, h.2⟩

theorem mem_slotWords {i : Nat} (hi : i < 48) :
    interruptMsgSlot i ∈ slotWords ∧ interruptMsgSlot i + 4 ∈ slotWords := by
  have hmem : i ∈ List.range 48 := List.mem_range.mpr hi
  constructor <;> exact List.mem_flatMap.mpr ⟨i, hmem, by simp⟩

/-- Filling a slot leaves the others alone. -/
theorem interruptMsgSlot_ne {i j : Nat} {a : Ptr} (hi : i < 48) (hj : j < 48) (hij : i ≠ j)
    (ha : a = interruptMsgSlot j ∨ a = interruptMsgSlot j + 4) :
    a ≠ interruptMsgSlot i ∧ a ≠ interruptMsgSlot i + 4 ∧ a ≠ interruptMsgSlot i + 8 := by
  obtain ⟨hi0, hi4, hi8⟩ := interruptMsgSlot_toNat hi
  obtain ⟨hj0, hj4, -⟩ := interruptMsgSlot_toNat hj
  have hv : a.toNat = 0x2000C4F0 + 12 * j ∨ a.toNat = 0x2000C4F0 + 12 * j + 4 := by
    rcases ha with rfl | rfl
    · exact .inl hj0
    · exact .inr hj4
  refine ⟨?_, ?_, ?_⟩ <;> rintro rfl <;> omega

/-- The service and the argument in a slot of memory. -/
def slotHolds (mem : Ptr → U32) (i : Nat) (service arg : U32) : Prop :=
  mem (interruptMsgSlot i) = service ∧ mem (interruptMsgSlot i + 4) = arg

theorem slotHolds.congr {mem mem' : Ptr → U32} {i : Nat} {service arg : U32} (hi : i < 48)
    (h : slotHolds mem i service arg) (hm : ∀ a ∈ slotWords, mem' a = mem a) :
    slotHolds mem' i service arg := by
  obtain ⟨h0, h4⟩ := mem_slotWords hi
  exact ⟨(hm _ h0).trans h.1, (hm _ h4).trans h.2⟩

/-- What the handler tells the SSI: in whose name, and the two words of the slot. -/
structure Report where
  sender : Ptr
  service : U32
  arg : U32
deriving DecidableEq

namespace Kernel

variable {k k' k'' k₁ : Kernel} {s t : Ptr} {service arg : U32}

theorem fillSlot_same (k : Kernel) (service arg : U32) (hi : k.intIndex < 48) :
    slotHolds (k.fillSlot service arg).mem k.intIndex service arg := by
  obtain ⟨h0, h4, h8⟩ := interruptMsgSlot_toNat hi
  have h04 : interruptMsgSlot k.intIndex ≠ interruptMsgSlot k.intIndex + 4 := by
    intro he
    rw [← he] at h4
    omega
  have h08 : interruptMsgSlot k.intIndex ≠ interruptMsgSlot k.intIndex + 8 := by
    intro he
    rw [← he] at h8
    omega
  have h48 : interruptMsgSlot k.intIndex + 4 ≠ interruptMsgSlot k.intIndex + 8 := by
    intro he
    rw [← he] at h8
    omega
  constructor
  · exact (Links.put_ne h08).trans ((Links.put_ne h04).trans Links.put_same)
  · exact (Links.put_ne h48).trans Links.put_same

theorem fillSlot_ne {i : Nat} {v w : U32} (hi : i < 48) (hk : k.intIndex < 48)
    (hne : k.intIndex ≠ i) (h : slotHolds k.mem i v w) :
    slotHolds (k.fillSlot service arg).mem i v w := by
  have hput : ∀ a, a = interruptMsgSlot i ∨ a = interruptMsgSlot i + 4 →
      (k.fillSlot service arg).mem a = k.mem a := by
    intro a ha
    obtain ⟨h0, h4, h8⟩ := interruptMsgSlot_ne hk hi hne ha
    exact (Links.put_ne h8).trans ((Links.put_ne h4).trans (Links.put_ne h0))
  exact ⟨(hput _ (.inl rfl)).trans h.1, (hput _ (.inr rfl)).trans h.2⟩

/-! The calls of the handler that send nothing, and those that send. -/

def timerReport (k : Kernel) : Option Report :=
  if schedPseudoClock ≤ k.updatePseudoTick.pseudoTick then
    some ⟨busIntervalTimer, pseudoClockMsg, 0⟩
  else none

/-- The status is read after the acknowledge. -/
def dtpReport (k : Kernel) (line : Nat) : Option Report :=
  let base := deviceBaseAddr line (whichDevice (k.bus (intBitmap line)))
  some ⟨base, interruptMsg, k.device k.bus (base + 4) devCAck base⟩

def terminalReport (k : Kernel) : Option Report :=
  let base := deviceBaseAddr intTerminal (whichDevice (k.bus (intBitmap intTerminal)))
  if k.bus (base + 8) &&& statusMask = devTtrsSCharTrsm then
    some ⟨base + 8, interruptMsg, k.bus (base + 8)⟩
  else if k.bus base &&& statusMask = devTrcvSCharRecv then some ⟨base, interruptMsg, k.bus base⟩
  else none

/-- What the handler tells the SSI when it is entered with this cause register, if anything. -/
def report (k : Kernel) (cause : U32) : Option Report :=
  if causeIpGet cause intTimer then k.timerReport
  else if causeIpGet cause intDisk then k.dtpReport intDisk
  else if causeIpGet cause intTape then k.dtpReport intTape
  else if causeIpGet cause intUnused then k.dtpReport intUnused
  else if causeIpGet cause intPrinter then k.dtpReport intPrinter
  else if causeIpGet cause intTerminal then k.terminalReport
  else none

/-- Nothing has changed that a message of the handler to the SSI depends on. -/
structure Silent (k k' : Kernel) : Prop where
  mem : k'.mem = k.mem
  intIndex : k'.intIndex = k.intIndex
  ssiTcb : k'.ssiTcb = k.ssiTcb
  waitQueue : k'.waitQueue = k.waitQueue
  msgFree : k'.msgFree = k.msgFree
  tInbox : ∀ p, (k'.tcb p).tInbox = (k.tcb p).tInbox
  reply : ∀ p, (k'.tcb p).reply = (k.tcb p).reply

theorem Silent.of_quiet (h : Quiet k k') (hm : k'.mem = k.mem) (hi : k'.intIndex = k.intIndex) :
    Silent k k' :=
  ⟨hm, hi, h.ssiTcb, h.waitQueue, h.msgFree, h.tInbox, h.reply⟩

theorem Silent.trans (h : Silent k k') (h' : Silent k' k'') : Silent k k'' where
  mem := h'.mem.trans h.mem
  intIndex := h'.intIndex.trans h.intIndex
  ssiTcb := h'.ssiTcb.trans h.ssiTcb
  waitQueue := h'.waitQueue.trans h.waitQueue
  msgFree := h'.msgFree.trans h.msgFree
  tInbox p := (h'.tInbox p).trans (h.tInbox p)
  reply p := (h'.reply p).trans (h.reply p)

/-- A slot has been filled and the SSI sent its address, at the place where it waits for a message
or in a buffer. -/
def Reported (k : Kernel) (r : Report) (k' : Kernel) : Prop :=
  k'.intIndex = k.intIndex ∧ k'.ssiTcb = k.ssiTcb ∧
    ((k.ssiTcb ∈ k.waitQueue ∧ k.ssiTcb ∉ k'.waitQueue ∧
        k'.mem = put (k.fillSlot r.service r.arg).mem (k.tcb k.ssiTcb).reply
          (interruptMsgSlot k.intIndex) ∧
        (k'.tcb k.ssiTcb).tInbox = (k.tcb k.ssiTcb).tInbox) ∨
      (k'.waitQueue = k.waitQueue ∧ k'.mem = (k.fillSlot r.service r.arg).mem ∧
        ∃ b free, k.msgFree = b :: free ∧ (k'.tcb k.ssiTcb).tInbox =
          queued r.sender (k.tcb k.ssiTcb).tInbox ⟨b, r.sender, interruptMsgSlot k.intIndex⟩))

theorem Reported.silent_left {r : Report} (h : Silent k k₁) (hr : Reported k₁ r k') :
    Reported k r k' := by
  simp only [Reported, fillSlot, h.mem, h.intIndex, h.ssiTcb, h.waitQueue, h.msgFree, h.tInbox,
    h.reply] at hr ⊢
  exact hr

theorem Reported.silent_right {r : Report} (hr : Reported k r k₁) (h : Silent k₁ k') :
    Reported k r k' := by
  simp only [Reported, h.mem, h.intIndex, h.ssiTcb, h.waitQueue, h.tInbox] at hr ⊢
  exact hr

theorem notifySsi_reported (hk : Placed k) (hs : s ∈ deviceIds) (hssi : k.ssiTcb ∈ threadArray)
    (h : (k.fillSlot service arg).notifySsi s = .ok k') : Reported k ⟨s, service, arg⟩ k' := by
  obtain ⟨⟨r, k₁⟩, h₁, h₂⟩ := bind_eq_ok.mp h
  have hq := Quiet.fillSlot (k := k) service arg
  have hne : s ≠ k.ssiTcb := fun he => (deviceIds_notMem hs).1 (he ▸ hssi)
  have hid : (k.fillSlot service arg).senderId s = s := by simp [senderId, hq.ssiTcb, hne]
  have henq : (k.fillSlot service arg).enqueue s k.ssiTcb (interruptMsgSlot k.intIndex) = .ok k₁ →
      Reported k ⟨s, service, arg⟩ k₁ := by
    intro he
    obtain ⟨b, free, hf, rfl⟩ := enqueue_cases he
    refine ⟨rfl, rfl, .inr ⟨rfl, rfl, b, free, hf, ?_⟩⟩
    simp [hq.tInbox]
  split at h₂
  · cases h₂
  · next hr =>
    cases h₂
    rcases send_cases h₁ with ⟨-, -, he⟩ | ⟨-, -, -, hw, -, -, -, rfl⟩ | ⟨-, -, -, -, -, -, he⟩ |
      ⟨-, -, hbad, -⟩
    · exact henq (hid ▸ he)
    · refine ⟨rfl, rfl, .inl ⟨hw, ?_, ?_, ?_⟩⟩
      · exact hk.wait_erase
      · simp only [delivered, hq.reply]
        rfl
      · simp [delivered, fillSlot]
    · exact henq (hid ▸ he)
    · exact absurd hbad hr

theorem setTimer_mem (k : Kernel) (slice : U32) : (k.setTimer slice).mem = k.mem := by
  unfold setTimer
  split <;> rfl

theorem dispatch_mem (p : Ptr) (rest : List Ptr) : (k.dispatch p rest).mem = k.mem := by
  simp only [dispatch, ldst, setTimer_mem, startTod, resetSlice, setTcb, updatePseudoTick, readTodlow]

theorem resumeCurrent_mem (k : Kernel) : k.resumeCurrent.mem = k.mem := by
  simp only [resumeCurrent, ldst, setTimer_mem, startTod, updatePseudoTick, readTodlow]

theorem scheduler_silent (h : k.scheduler = .ok k') : k.Silent k' := by
  have hidx : k'.intIndex = k.intIndex := (Steady.scheduler h).intIndex
  unfold scheduler at h
  split at h
  · split at h
    · repeat' split at h
      all_goals cases h
      exact .of_quiet (.refl k) rfl rfl
    · next p rest hr =>
      cases h
      have hq := Quiet.dispatch (k := k) p rest
      exact ⟨dispatch_mem p rest, hidx, hq.ssiTcb, hq.waitQueue, hq.msgFree, hq.tInbox,
        hq.reply⟩
  · cases h
    exact .of_quiet .resumeCurrent (resumeCurrent_mem k) hidx

/-- What a call of the handler does to the array and the inbox of the SSI. -/
def Outcome (k k' : Kernel) : Option Report → Prop
  | some r => k.Reported r k' ∧ r.sender ∈ deviceIds
  | none => k.Silent k'

theorem Outcome.silent_left {r : Option Report} (h : Silent k k₁) (hr : Outcome k₁ k' r) :
    Outcome k k' r := by
  cases r with
  | some r => exact ⟨hr.1.silent_left h, hr.2⟩
  | none => exact h.trans hr

theorem Outcome.silent_right {r : Option Report} (hr : Outcome k k₁ r) (h : Silent k₁ k') :
    Outcome k k' r := by
  cases r with
  | some r => exact ⟨hr.1.silent_right h, hr.2⟩
  | none => exact Silent.trans hr h

theorem sliceEnd_silent (k : Kernel) : k.Silent k.sliceEnd := by
  unfold sliceEnd
  split <;> constructor <;> intros <;> rfl

theorem timerInterrupt_outcome (hk : Placed k) (hssi : k.ssiTcb ∈ threadArray)
    (h : k.timerInterrupt = .ok k') : k.Outcome k' k.timerReport := by
  obtain ⟨k₁, h₁, h₂⟩ := bind_eq_ok.mp h
  cases h₂
  have hq := Quiet.updatePseudoTick (k := k)
  refine Outcome.silent_right ?_ (sliceEnd_silent k₁)
  refine Outcome.silent_left (.of_quiet hq rfl rfl) ?_
  unfold pseudoClockTick at h₁
  unfold timerReport
  split at h₁
  · next htick =>
    obtain ⟨k₂, h₂, h₃⟩ := bind_eq_ok.mp h₁
    cases h₃
    have hr := notifySsi_reported (hk.of_perm (SamePlaces.quiet hq)) List.mem_cons_self
      (hq.ssiTcb ▸ hssi) h₂
    rw [if_pos htick]
    exact ⟨hr.silent_right (by constructor <;> intros <;> rfl), List.mem_cons_self⟩
  · next htick =>
    cases h₁
    rw [if_neg htick]
    exact .of_quiet (.refl _) rfl rfl

theorem dtpInterrupt_outcome (hk : Placed k) (hssi : k.ssiTcb ∈ threadArray) (line : Nat)
    (hl : 3 ≤ line ∧ line < 8) (h : k.dtpInterrupt line = .ok k') :
    k.Outcome k' (k.dtpReport line) := by
  have hid := (deviceBaseAddr_mem line hl (k.bus (intBitmap line))).1
  have hr := notifySsi_reported (hk.of_perm (SamePlaces.quiet (.ioStore _ _))) hid hssi h
  exact ⟨hr.silent_left (.of_quiet (.ioStore _ _) rfl rfl), hid⟩

theorem terminalHalf_outcome {status command : Ptr} (hk : Placed k)
    (hssi : k.ssiTcb ∈ threadArray) (hs : status ∈ deviceIds)
    (h : k.terminalHalf status command = .ok k') :
    k.Outcome k' (some ⟨status, interruptMsg, k.bus status⟩) := by
  obtain ⟨k₁, h₁, h₂⟩ := bind_eq_ok.mp h
  cases h₂
  exact ⟨(notifySsi_reported hk hs hssi h₁).silent_right (.of_quiet (.ioStore _ _) rfl rfl), hs⟩

theorem terminalInterrupt_outcome (hk : Placed k) (hssi : k.ssiTcb ∈ threadArray)
    (h : k.terminalInterrupt = .ok k') : k.Outcome k' k.terminalReport := by
  obtain ⟨hrec, htrans⟩ :=
    deviceBaseAddr_mem intTerminal (by decide) (k.bus (intBitmap intTerminal))
  unfold terminalInterrupt at h
  unfold terminalReport
  dsimp only at h ⊢
  split at h
  · next ht =>
    rw [if_pos ht]
    exact terminalHalf_outcome hk hssi htrans h
  · next ht =>
    rw [if_neg ht]
    split at h
    · next hr =>
      rw [if_pos hr]
      exact terminalHalf_outcome hk hssi hrec h
    · next hr =>
      cases h
      rw [if_neg hr]
      exact .of_quiet (.refl k) rfl rfl

theorem lineInterrupt_outcome {cause : U32} (hk : Placed k) (hssi : k.ssiTcb ∈ threadArray)
    (h : k.lineInterrupt cause = .ok k') : k.Outcome k' (k.report cause) := by
  unfold lineInterrupt at h
  unfold report
  split at h
  · next h2 =>
    rw [if_pos h2]
    exact timerInterrupt_outcome hk hssi h
  next h2 =>
  rw [if_neg h2]
  split at h
  · next h3 =>
    rw [if_pos h3]
    exact dtpInterrupt_outcome hk hssi intDisk (by decide) h
  next h3 =>
  rw [if_neg h3]
  split at h
  · next h4 =>
    rw [if_pos h4]
    exact dtpInterrupt_outcome hk hssi intTape (by decide) h
  next h4 =>
  rw [if_neg h4]
  split at h
  · next h5 =>
    rw [if_pos h5]
    exact dtpInterrupt_outcome hk hssi intUnused (by decide) h
  next h5 =>
  rw [if_neg h5]
  split at h
  · next h6 =>
    rw [if_pos h6]
    exact dtpInterrupt_outcome hk hssi intPrinter (by decide) h
  next h6 =>
  rw [if_neg h6]
  split at h
  · next h7 =>
    rw [if_pos h7]
    exact terminalInterrupt_outcome hk hssi h
  · next h7 =>
    cases h
    rw [if_neg h7]
    exact .of_quiet (.refl k) rfl rfl

theorem intBody_outcome {old : State} (hk : Placed k) (hssi : k.ssiTcb ∈ threadArray)
    (h : k.intBody old = .ok k') : ∃ k₁, k.Outcome k₁ ((k.intEnter old).report old.cause) ∧
      k' = { k₁ with intIndex := (k.intIndex + 1) % 48 } := by
  rw [intBody_eq] at h
  obtain ⟨k₁, h₁, h₂⟩ := bind_eq_ok.mp h
  cases h₂
  obtain ⟨hq, -, -, hidx, hmem⟩ := intEnter_quiet k old
  have hout := Outcome.silent_left (.of_quiet hq hmem hidx)
    (lineInterrupt_outcome (hk.of_perm (SamePlaces.quiet hq)) (hq.ssiTcb ▸ hssi) h₁)
  have hindex : k₁.intIndex = k.intIndex := by
    cases hrep : (k.intEnter old).report old.cause with
    | some r =>
      rw [hrep] at hout
      exact hout.1.1
    | none =>
      rw [hrep] at hout
      exact hout.intIndex
  exact ⟨k₁, hout, by rw [hindex]⟩

end Kernel

/-! What is in the inbox of the SSI. -/

/-- A message in an inbox was there before, or it has just been sent there. -/
theorem inbox_step {k k' : Kernel} {o : Op} (h : OpStep k o k') (p : Ptr) :
    ∀ x ∈ (k'.tcb p).tInbox, x ∈ (k.tcb p).tInbox ∨
      ∃ s v r, o = .send s p v r ∧ x.mSender = k.senderId s := by
  have hput : ∀ {k : Kernel} {q : Ptr} {t : Tcb} {x : Msg}, x ∈ (put k.tcb q t p).tInbox →
      (∀ y ∈ t.tInbox, y ∈ (k.tcb q).tInbox) → x ∈ (k.tcb p).tInbox := by
    intro k q t x hx ht
    by_cases hp : p = q
    · subst hp
      rw [Links.put_same] at hx
      exact ht x hx
    · rwa [Links.put_ne hp] at hx
  intro x hx
  cases h with
  | quiet hq => exact .inl (hq.tInbox p ▸ hx)
  | @send k' s t v r hs =>
    have henq : k.enqueue (k.senderId s) t v = .ok k' → x ∈ (k.tcb p).tInbox ∨
        ∃ s' v' r', Op.send s t v r = .send s' p v' r' ∧ x.mSender = k.senderId s' := by
      intro he
      obtain ⟨a, free, -, rfl⟩ := Kernel.enqueue_cases he
      by_cases hp : p = t
      · subst hp
        simp only [Links.put_same] at hx
        rcases Kernel.mem_queued hx with rfl | hx
        · exact .inr ⟨s, v, r, rfl, rfl⟩
        · exact .inl hx
      · simp only [Links.put_ne hp] at hx
        exact .inl hx
    rcases Kernel.send_cases hs with ⟨-, -, he⟩ | ⟨-, -, -, -, -, -, -, rfl⟩ |
      ⟨-, -, -, -, -, -, he⟩ | ⟨-, -, -, rfl⟩
    · exact henq he
    · exact .inl (hput hx fun _ h => h)
    · exact henq he
    · exact .inl hx
  | recv hc hr =>
    rcases Kernel.recv_cases hr with ⟨-, -, rfl⟩ | ⟨m, rest, hpop, -, -, rfl⟩
    · exact .inl (hput hx fun _ h => h)
    · obtain ⟨pre, post, hq, rfl, -⟩ := popMessage_some hpop
      refine .inl (hput hx fun y hy => ?_)
      rw [hq]
      rcases List.mem_append.mp hy with hy | hy
      · exact List.mem_append_left _ hy
      · exact List.mem_append_right _ (List.mem_cons_of_mem _ hy)
  | freeze hc hm => exact .inl (hput hx fun _ h => h)
  | terminate ht hr =>
    refine .inl (Kernel.terminate_inv (I := fun k' => ∀ x ∈ (k'.tcb p).tInbox, x ∈ (k.tcb p).tInbox)
      (fun k₁ t h₁ y hy => ?_) (fun k₁ t k₂ _ h₂ h₁ y hy => ?_) ht hr (fun _ h => h) x hx)
    · exact h₁ y (hput hy fun _ h => h)
    · rcases Kernel.reap_cases h₂ with ⟨-, rfl⟩ | ⟨-, -, -, -, rfl⟩ <;>
        exact h₁ y (hput hy (by simp))
  | resume hr =>
    obtain ⟨-, -, rfl⟩ := Kernel.continueTrapped_cases hr
    exact .inl hx
  | alloc ha hn =>
    obtain ⟨free, -, rfl⟩ := Kernel.allocTcb_cases ha hn
    exact .inl (hput hx (by simp [Kernel.freshTcb]))
  | insertChild hc => exact .inl (hput hx fun _ h => h)
  | request | dispatch | preempt | insertSibling | countThread | publish => exact .inl hx

/-- Outside the interrupt handler nobody sends in the name of a device. -/
theorem Machine.inbox_of_not_interrupt {m m' : Machine} {e : Event} (hw : m.Wf) (h : m.Step e m')
    (he : m.entry e ≠ .interrupt) (p : Ptr) :
    ∀ x ∈ (m'.k.tcb p).tInbox, x.mSender ∈ deviceIds → x ∈ (m.k.tcb p).tInbox := by
  refine (ops_of_step hw h).inv (I := fun k => ∀ x ∈ (k.tcb p).tInbox,
    x.mSender ∈ deviceIds → x ∈ (m.k.tcb p).tInbox) (fun k o k' hs ho hi x hx hd => ?_)
    fun _ hx _ => hx
  rcases inbox_step hs p x hx with hx | ⟨s, v, r, rfl, hid⟩
  · exact hi x hx hd
  · -- the sender is the current thread, or the SSI under its public name
    exfalso
    rcases ho with ⟨rfl, -⟩ | ⟨-, hi⟩
    · rw [hid] at hd
      unfold Kernel.senderId at hd
      split at hd
      · exact (deviceIds_notMem hd).2 rfl
      · have hne : m.k.currentThread ≠ null := by
          intro hn
          rw [hn] at hd
          have hpos := (deviceIds_toNat hd).1
          simp [null] at hpos
        have hm := hw.placed.sub _ (Kernel.mem_places.mpr (.inr (.inr (.inr ⟨rfl, hne⟩))))
        exact (deviceIds_notMem hd).1 hm
    · exact he hi

/-! Which messages of the handler the SSI has still to finish with. -/

/-- A report, with the number of the call of the handler that made it. -/
structure Sent extends Report where
  turn : Nat

/-- History: the number of calls of the handler, the report in each message buffer, and the one
the SSI is handling. -/
structure SlotLog where
  turns : Nat
  queued : Ptr → Sent
  handled : Option Sent

namespace SlotLog

def empty : SlotLog := ⟨0, fun _ => ⟨⟨null, 0, 0⟩, 0⟩, none⟩

/-- The reports whose message is in the inbox of the SSI or being handled. -/
def outstanding (log : SlotLog) (m : Machine) : List Sent :=
  ((m.k.tcb m.k.ssiTcb).tInbox.filter fun x => x.mSender ∈ deviceIds).map
    (fun x => log.queued x.addr) ++ log.handled.toList

def note (m : Machine) (e : Event) (m' : Machine) (log : SlotLog) : SlotLog :=
  match e with
  | .interrupt old =>
    let log' := match (m.k.intEnter old).report old.cause with
      | none => log
      | some r =>
        if m.k.ssiTcb ∈ m.k.waitQueue ∧ m.k.ssiTcb ∉ m'.k.waitQueue
        then { log with handled := some ⟨r, log.turns⟩ }
        else { log with queued := put log.queued (m.k.msgFree.headD null) ⟨r, log.turns⟩ }
    { log' with turns := log.turns + 1 }
  | .ssi _ =>
    if m.ssi.pc = .recv then
      { log with handled := (m.k.tcb m.k.ssiTcb).tInbox.head?.bind fun x =>
          if x.mSender ∈ deviceIds then some (log.queued x.addr) else none }
    else if m'.ssi.pc = .recv then { log with handled := none }
    else log
  | _ => log

end SlotLog

/-- The slots still say what the SSI has to be told. -/
structure SlotsKept (m : Machine) (log : SlotLog) : Prop where
  names : ∀ x ∈ (m.k.tcb m.k.ssiTcb).tInbox, x.mSender ∈ deviceIds →
    x.mSender = (log.queued x.addr).sender ∧
      x.mMessage = interruptMsgSlot ((log.queued x.addr).turn % 48)
  holds : ∀ r ∈ log.outstanding m, slotHolds m.k.mem (r.turn % 48) r.service r.arg

/-- Only the interrupt handler writes in the array, and the SSI is not waiting for a message
there. -/
def ArrayPrivate (m : Machine) (e : Event) (m' : Machine) : Prop :=
  match e with
  | .interrupt _ => (m.k.tcb m.k.ssiTcb).reply ∉ slotWords
  | _ => ∀ a ∈ slotWords, m'.k.mem a = m.k.mem a

/-- A call of the handler that reports something does not come a multiple of 48 calls after one
whose message the SSI has not finished with. -/
def NotLapped (m : Machine) (e : Event) (log : SlotLog) : Prop :=
  match e with
  | .interrupt old => ((m.k.intEnter old).report old.cause).isSome →
      ∀ r ∈ log.outstanding m, ¬ 48 ∣ log.turns - r.turn
  | _ => True

/-- The history against the state. -/
structure SlotLog.Sound (m : Machine) (log : SlotLog) : Prop where
  index : m.k.intIndex = log.turns % 48
  past : ∀ r ∈ log.outstanding m, r.turn < log.turns
  kept : SlotsKept m log

namespace SlotLog

variable {m m' : Machine} {e : Event} {log : SlotLog} {r : Sent}

theorem mem_outstanding : r ∈ log.outstanding m ↔
    (∃ x ∈ (m.k.tcb m.k.ssiTcb).tInbox, x.mSender ∈ deviceIds ∧ log.queued x.addr = r) ∨
      log.handled = some r := by
  simp only [outstanding, List.mem_append, List.mem_map, List.mem_filter, decide_eq_true_eq,
    Option.mem_toList, and_assoc]

/-- Outside the handler nothing is sent, and the SSI takes what was in its inbox. -/
theorem note_rest (m' : Machine) (log : SlotLog) (he : ∀ old, e ≠ .interrupt old) :
    (log.note m e m').turns = log.turns ∧
    (log.note m e m').queued = log.queued ∧
    ∀ r, (log.note m e m').handled = some r → r ∈ log.outstanding m := by
  have hsame : ∀ r, log.handled = some r → r ∈ log.outstanding m := fun r hr =>
    mem_outstanding.mpr (.inr hr)
  cases e with
  | interrupt old => exact absurd rfl (he old)
  | ssi old =>
    simp only [note]
    split
    · refine ⟨rfl, rfl, fun r hr => ?_⟩
      obtain ⟨x, hx, hr⟩ := Option.bind_eq_some_iff.mp hr
      split at hr
      · cases hr
        exact mem_outstanding.mpr (.inl ⟨x, List.mem_of_mem_head? hx, ‹_›, rfl⟩)
      · cases hr
    · split
      · exact ⟨rfl, rfl, fun r hr => by cases hr⟩
      · exact ⟨rfl, rfl, hsame⟩
  | sysbp | pgmtrap | tlb | devices | store | edit => exact ⟨rfl, rfl, hsame⟩

theorem sound_rest (hw : m.Wf) (h : m.Step e m') (he : ∀ old, e ≠ .interrupt old)
    (hm : ∀ a ∈ slotWords, m'.k.mem a = m.k.mem a) (hs : log.Sound m) :
    (log.note m e m').Sound m' := by
  obtain ⟨hturns, hqueued, hhandled⟩ := note_rest (m := m) m' log he
  have hssi : m'.k.ssiTcb = m.k.ssiTcb := (Machine.ops_of_step hw h).ssiTcb
  have hentry : m.entry e ≠ .interrupt := by
    cases e with
    | interrupt old => exact absurd rfl (he old)
    | ssi old =>
      simp only [Machine.entry]
      split <;> simp
    | sysbp old =>
      simp only [Machine.entry, Kernel.sysbpEntry]
      repeat' split
      all_goals simp
    | pgmtrap | tlb | devices | store | edit => simp [Machine.entry]
  have hinbox : ∀ x ∈ (m'.k.tcb m'.k.ssiTcb).tInbox, x.mSender ∈ deviceIds →
      x ∈ (m.k.tcb m.k.ssiTcb).tInbox := hssi ▸ m.inbox_of_not_interrupt hw h hentry _
  have hout : ∀ r ∈ (log.note m e m').outstanding m', r ∈ log.outstanding m := by
    intro r hr
    rcases mem_outstanding.mp hr with ⟨x, hx, hd, rfl⟩ | hr
    · rw [hqueued]
      exact mem_outstanding.mpr (.inl ⟨x, hinbox x hx hd, hd, rfl⟩)
    · exact hhandled r hr
  constructor
  · rw [Machine.step_intIndex he h, hturns, hs.index]
  · intro r hr
    rw [hturns]
    exact hs.past r (hout r hr)
  · constructor
    · intro x hx hd
      rw [hqueued]
      exact hs.kept.names x (hinbox x hx hd) hd
    · intro r hr
      exact (hs.kept.holds r (hout r hr)).congr (Nat.mod_lt _ (by omega)) hm

/-- What was in the array stays there when another slot is filled. -/
theorem holds_fill {service arg : U32} (hs : log.Sound m)
    (hlap : ¬ 48 ∣ log.turns - r.turn) (hr : r ∈ log.outstanding m) :
    slotHolds (m.k.fillSlot service arg).mem (r.turn % 48) r.service r.arg := by
  have hpast := hs.past r hr
  refine Kernel.fillSlot_ne (Nat.mod_lt _ (by omega)) ?_ ?_ (hs.kept.holds r hr)
  · rw [hs.index]
    exact Nat.mod_lt _ (by omega)
  · rw [hs.index]
    omega

end SlotLog

/-- A buffer in the free list holds no message of an inbox. -/
theorem Kernel.Pooled.addr_ne {k : Kernel} {b p : Ptr} {free : List Ptr} {x : Msg} (h : k.Pooled)
    (hf : k.msgFree = b :: free) (hp : p ∈ threadArray) (hx : x ∈ (k.tcb p).tInbox) :
    x.addr ≠ b := by
  intro he
  have hnd := h.nodup
  rw [buffers, hf, List.cons_append] at hnd
  apply (List.nodup_cons.mp hnd).1
  refine List.mem_append_right _ (List.mem_flatMap.mpr ⟨p, hp, ?_⟩)
  rw [← he]
  exact List.mem_map_of_mem hx

namespace SlotLog

variable {m m' : Machine} {log : SlotLog} {old : State}

/-- A slot has been filled and one more report is outstanding. -/
theorem sound_of_fill {log' : SlotLog} (r : Report) (hs : log.Sound m)
    (hlap : ∀ s ∈ log.outstanding m, ¬ 48 ∣ log.turns - s.turn)
    (hindex : m'.k.intIndex = (log.turns + 1) % 48) (hturns : log'.turns = log.turns + 1)
    (hout : ∀ s ∈ log'.outstanding m', s = ⟨r, log.turns⟩ ∨ s ∈ log.outstanding m)
    (hnames : ∀ x ∈ (m'.k.tcb m'.k.ssiTcb).tInbox, x.mSender ∈ deviceIds →
      x.mSender = (log'.queued x.addr).sender ∧
        x.mMessage = interruptMsgSlot ((log'.queued x.addr).turn % 48))
    (hwords : ∀ a ∈ slotWords, m'.k.mem a = (m.k.fillSlot r.service r.arg).mem a) :
    log'.Sound m' := by
  have hmod : ∀ n, n % 48 < 48 := fun n => Nat.mod_lt n (by omega)
  have hlt : m.k.intIndex < 48 := by
    rw [hs.index]
    exact hmod _
  constructor
  case index => rw [hindex, hturns]
  case past =>
    intro s hm
    rw [hturns]
    rcases hout s hm with rfl | hm
    · exact Nat.lt_succ_self _
    · exact Nat.lt_succ_of_lt (hs.past s hm)
  case kept =>
    refine ⟨hnames, fun s hm => ?_⟩
    rcases hout s hm with rfl | hm
    · have hnew := Kernel.fillSlot_same m.k r.service r.arg hlt
      rw [hs.index] at hnew
      exact hnew.congr (hmod _) hwords
    · exact (holds_fill hs (hlap s hm) hm).congr (hmod _) hwords

theorem sound_silent {k₁ : Kernel} (hs : log.Sound m)
    (hindex : m'.k.intIndex = (log.turns + 1) % 48) (hout : m.k.Silent k₁)
    (hmem : m'.k.mem = k₁.mem)
    (hinbox : (m'.k.tcb m'.k.ssiTcb).tInbox = (k₁.tcb k₁.ssiTcb).tInbox)
    (hrep : (m.k.intEnter old).report old.cause = none) :
    (log.note m (.interrupt old) m').Sound m' := by
  have hnote : log.note m (.interrupt old) m' = { log with turns := log.turns + 1 } := by
    simp only [note, hrep]
  have hsame : (m'.k.tcb m'.k.ssiTcb).tInbox = (m.k.tcb m.k.ssiTcb).tInbox := by
    rw [hinbox, hout.ssiTcb]
    exact hout.tInbox _
  have hall : ∀ r, r ∈ (log.note m (.interrupt old) m').outstanding m' →
      r ∈ log.outstanding m := by
    intro r hr
    rw [mem_outstanding, hnote, hsame] at hr
    exact mem_outstanding.mpr hr
  constructor
  case index => rw [hindex, hnote]
  case past =>
    intro r hr
    have hlt := hs.past r (hall r hr)
    rw [hnote]
    exact Nat.lt_succ_of_lt hlt
  case kept =>
    constructor
    · rw [hsame, hnote]
      exact hs.kept.names
    · intro r hr
      rw [hmem, hout.mem]
      exact hs.kept.holds r (hall r hr)

theorem sound_interrupt (hw : m.Wf) (hpool : m.k.Pooled) (h : m.Step (.interrupt old) m')
    (hp : ArrayPrivate m (.interrupt old) m') (hlap : NotLapped m (.interrupt old) log)
    (hs : log.Sound m) : (log.note m (.interrupt old) m').Sound m' := by
  obtain ⟨k, hb, ⟨-, hk⟩ | ⟨hsch, -⟩⟩ := Machine.step_body h
  swap
  · cases hsch
  obtain ⟨k₁, hout, rfl⟩ := Kernel.intBody_outcome hw.placed hw.ssi hb
  have hend := Kernel.scheduler_silent hk
  have hindex : m'.k.intIndex = (log.turns + 1) % 48 := by
    rw [hend.intIndex, hs.index]
    simp only
    omega
  have hinbox : (m'.k.tcb m'.k.ssiTcb).tInbox = (k₁.tcb k₁.ssiTcb).tInbox := by
    rw [hend.ssiTcb]
    exact hend.tInbox _
  cases hrep : (m.k.intEnter old).report old.cause with
  | none =>
    rw [hrep] at hout
    exact sound_silent hs hindex hout hend.mem hinbox hrep
  | some r =>
    rw [hrep] at hout
    obtain ⟨⟨-, hssi, hcase⟩, hdev⟩ := hout
    rw [hssi] at hinbox
    have hlap' := hlap (by rw [hrep]; rfl)
    rcases hcase with ⟨hw, hn, hmem, hbox⟩ | ⟨hwait, hmem, b, free, hfree, hbox⟩
    · -- handed over: the SSI's variable is outside the array
      have hn' : m.k.ssiTcb ∉ m'.k.waitQueue := by
        rw [hend.waitQueue]
        exact hn
      have hnote : log.note m (.interrupt old) m' =
          { log with handled := some ⟨r, log.turns⟩, turns := log.turns + 1 } := by
        simp only [note, hrep, hw, hn', not_false_eq_true, and_self, if_true]
      rw [hnote]
      refine sound_of_fill r hs hlap' hindex rfl (fun s hm => ?_) ?_ fun a ha => ?_
      · rw [mem_outstanding, hinbox, hbox] at hm
        rcases hm with hm | hm
        · exact .inr (mem_outstanding.mpr (.inl hm))
        · cases hm
          exact .inl rfl
      · rw [hinbox, hbox]
        exact hs.kept.names
      · have hne : a ≠ (m.k.tcb m.k.ssiTcb).reply := fun he => hp (he ▸ ha)
        rw [hend.mem]
        exact (congrFun hmem a).trans (Links.put_ne hne)
    · have hnote : log.note m (.interrupt old) m' =
          { log with queued := put log.queued b ⟨r, log.turns⟩, turns := log.turns + 1 } := by
        have hwait' : m'.k.waitQueue = m.k.waitQueue := hend.waitQueue.trans hwait
        simp only [note, hrep, hwait', and_not_self, if_false, hfree, List.headD_cons]
      have hother : ∀ x ∈ (m.k.tcb m.k.ssiTcb).tInbox,
          put log.queued b ⟨r, log.turns⟩ x.addr = log.queued x.addr := fun x hx =>
        Links.put_ne (hpool.addr_ne hfree hpool.ssi hx)
      have hbox' : ∀ x ∈ (m'.k.tcb m'.k.ssiTcb).tInbox,
          x = ⟨b, r.sender, interruptMsgSlot m.k.intIndex⟩ ∨ x ∈ (m.k.tcb m.k.ssiTcb).tInbox := by
        intro x hx
        rw [hinbox, hbox] at hx
        exact Kernel.mem_queued hx
      rw [hnote]
      refine sound_of_fill r hs hlap' hindex rfl (fun s hm => ?_) (fun x hx hd => ?_) fun a _ => ?_
      · rcases mem_outstanding.mp hm with ⟨x, hx, hd, rfl⟩ | hm
        · rcases hbox' x hx with rfl | hx
          · exact .inl Links.put_same
          · refine .inr (mem_outstanding.mpr (.inl ⟨x, hx, hd, ?_⟩))
            exact (hother x hx).symm
        · exact .inr (mem_outstanding.mpr (.inr hm))
      · rcases hbox' x hx with rfl | hx
        · simp only [Links.put_same, hs.index, and_self]
        · simp only [hother x hx]
          exact hs.kept.names x hx hd
      · rw [hend.mem]
        exact congrFun hmem a

/-- One step keeps the history sound, when no slot is used again too early. -/
theorem sound_step {e : Event} (hw : m.Wf) (hpool : m.k.Pooled) (h : m.Step e m')
    (hp : ArrayPrivate m e m') (hlap : NotLapped m e log) (hs : log.Sound m) :
    (log.note m e m').Sound m' := by
  cases e with
  | interrupt old => exact sound_interrupt hw hpool h hp hlap hs
  | sysbp | pgmtrap | tlb | ssi | devices | store | edit =>
    exact sound_rest hw h (by simp) hp hs

theorem sound_initial (h : m.Initial) : empty.Sound m := by
  obtain ⟨k, hp, hm⟩ := h.boot
  have hb := Kernel.main_booted hp hm
  have hempty : (m.k.tcb m.k.ssiTcb).tInbox = [] := by
    rw [hb.ssiTcb]
    exact hb.tInbox _ (by decide)
  have hout : empty.outstanding m = [] := by
    simp [outstanding, hempty, empty]
  exact ⟨hb.intIndex, by simp [hout], by simp [hempty], by simp [hout]⟩

end SlotLog

instance (m m' : Machine) : (e : Event) → Decidable (ArrayPrivate m e m')
  | .interrupt _ => inferInstanceAs (Decidable (_ ∉ slotWords))
  | .sysbp _ | .pgmtrap _ | .tlb _ | .ssi _ | .devices _ | .store _ _ | .edit _ _ =>
    List.decidableBAll _ slotWords

instance (m : Machine) (log : SlotLog) : (e : Event) → Decidable (NotLapped m e log)
  | .interrupt _ =>
    have : Decidable (∀ r ∈ log.outstanding m, ¬ 48 ∣ log.turns - r.turn) :=
      List.decidableBAll _ _
    inferInstanceAs (Decidable (_ → ∀ r ∈ log.outstanding m, _))
  | .sysbp _ | .pgmtrap _ | .tlb _ | .ssi _ | .devices _ | .store _ _ | .edit _ _ =>
    inferInstanceAs (Decidable True)

instance (mem : Ptr → U32) (i : Nat) (service arg : U32) :
    Decidable (slotHolds mem i service arg) :=
  inferInstanceAs (Decidable (_ ∧ _))

namespace Machine

variable {m m' : Machine} {log : SlotLog}

/-- A step in which only the handler writes in its array. -/
def ArrayStep (s : Machine × SlotLog) (e : Event) (t : Machine × SlotLog) : Prop :=
  withHistory Step SlotLog.note s e t ∧ ArrayPrivate s.1 e t.1

/-- Such a step in which the SSI has finished with the slot the handler fills. -/
def SlotStep (s : Machine × SlotLog) (e : Event) (t : Machine × SlotLog) : Prop :=
  withHistory Step SlotLog.note s e t ∧ (ArrayPrivate s.1 e t.1 ∧ NotLapped s.1 e s.2)

/-- As long as the handler does not come round to a slot before the SSI has finished with it, every
message of the handler designates what the handler wrote when it sent the message. -/
theorem slots_kept {es : List Event} (h : m.Initial)
    (hr : Run SlotStep (m, SlotLog.empty) es (m', log)) : SlotsKept m' log := by
  have hinit := initial_wf h
  obtain ⟨k, hp, hm⟩ := h.boot
  have hpool := (Kernel.main_booted hp hm).pooled
  have hinv : m'.Wf ∧ m'.k.Pooled ∧ log.Sound m' := by
    refine hr.inv (I := fun s => s.1.Wf ∧ s.1.k.Pooled ∧ s.2.Sound s.1) ?_
      ⟨hinit, hpool, SlotLog.sound_initial h⟩
    rintro ⟨m, log⟩ e ⟨m', log'⟩ ⟨⟨hs, he⟩, hp, hlap⟩ ⟨hw, hpool, hi⟩
    dsimp only at hs he hp hlap hw hpool hi
    rw [he]
    exact ⟨hw.step hs, Kernel.keeps_pooled.step hw hs hpool,
      SlotLog.sound_step hw hpool hs hp hlap hi⟩
  exact hinv.2.2.kept

/-- The registers when disk 0 has completed with some status, and the transmitter of terminal 0 with
an error. -/
def diskBus (status : U32) : Ptr → U32 :=
  put (put (terminalBus 4 1) (intBitmap intDisk) 1) (deviceBaseAddr intDisk 0) status

def diskInterrupt : Event := .interrupt { initTState with cause := 1 <<< (intDisk + 8) }

/-- The SSI is woken by a completion and finds a second one in its inbox. -/
def twoDisksTrace : List Event :=
  Event.ssiCalls 2 ++ [.devices (diskBus 1), diskInterrupt, .devices (diskBus 2), diskInterrupt]

theorem slots_kept_disks : ∃ m m' : Machine, ∃ log,
    Run SlotStep (m, SlotLog.empty) twoDisksTrace (m', log) ∧
    (log.outstanding m').map (fun r => r.arg) = [2, 1] ∧ SlotsKept m' log := by
  have hrun : passes (fun m => passes (fun s => (s.2.outstanding s.1).map (fun r => r.arg) = [2, 1])
      (exec (guarded (fun s e t => ArrayPrivate s.1 e t.1 ∧ NotLapped s.1 e s.2) Stop.fault
        (execWith fire SlotLog.note)) (m, SlotLog.empty) twoDisksTrace)) (start .zeroed) = true := by
    decide +kernel
  obtain ⟨m, hm, hrun⟩ := exists_of_passes hrun
  obtain ⟨⟨m', log⟩, hs, hout⟩ := exists_of_passes hrun
  have hr : Run SlotStep (m, SlotLog.empty) twoDisksTrace (m', log) :=
    run_of_guarded (fun _ _ _ => step_of_fire) hs
  exact ⟨m, m', log, hr, of_decide_eq_true hout,
    slots_kept (initial_of_start Kernel.zeroed_powerOn hm) hr⟩

/-- The SSI has not run again when 48 calls later the handler fills the same slot: in between the
error of the terminal has kept interrupting. -/
def lapTrace : List Event :=
  Event.ssiCalls 2 ++ [.devices (diskBus 1), diskInterrupt] ++
    List.replicate 47 terminalInterrupt ++ [.devices (diskBus 2), diskInterrupt]

theorem slots_overwritten : ¬ ∀ (m m' : Machine) (es : List Event) log, m.Initial →
    Run ArrayStep (m, SlotLog.empty) es (m', log) → SlotsKept m' log := by
  intro hall
  have hrun : passes (fun m => passes (fun s =>
      (s.2.outstanding s.1).any fun r => ¬ slotHolds s.1.k.mem (r.turn % 48) r.service r.arg)
      (exec (guarded (fun s e t => ArrayPrivate s.1 e t.1) Stop.fault (execWith fire SlotLog.note))
        (m, SlotLog.empty) lapTrace)) (start .zeroed) = true := by
    decide +kernel
  obtain ⟨m, hm, hrun⟩ := exists_of_passes hrun
  obtain ⟨⟨m', log⟩, hs, hbad⟩ := exists_of_passes hrun
  have hr : Run ArrayStep (m, SlotLog.empty) lapTrace (m', log) :=
    run_of_guarded (fun _ _ _ => step_of_fire) hs
  have hkept := hall m m' _ log (initial_of_start Kernel.zeroed_powerOn hm) hr
  obtain ⟨r, hmem, hnot⟩ := List.any_eq_true.mp hbad
  exact of_decide_eq_true hnot (hkept.holds r hmem)

end Machine

end AmiKaya
