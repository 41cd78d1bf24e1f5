import AmiKaya.Bodies
import AmiKaya.Traps

/-! Requests to the SSI: who has one outstanding, and what each handler does to the threads that
have and to the count of them. -/
namespace AmiKaya
open Lts

namespace Kernel

/-- What a handler has done: it freed the threads `ds`, `asked` requests have been made and
`answered` replies taken from an inbox. -/
structure Effect (k : Kernel) (ds : List Ptr) (asked answered : Nat) (k' : Kernel) : Prop where
  nodup : ds.Nodup
  live : ∀ p ∈ ds, k.Live p
  mem_free : ∀ p ∈ ds, p ∈ k'.tcbFree
  freed : ∀ p ∈ k'.tcbFree, p ∈ k.tcbFree ∨ p ∈ ds
  keeps : ∀ p, k.Live p → p ∉ ds → k'.Live p
  softBlockCount : k'.softBlockCount + BitVec.ofNat 32 (ds.countP fun p =>
    p ∈ k.waitQueue ∧ (k.tcb p).waitingFor = k.ssiTcb) + BitVec.ofNat 32 answered =
      k.softBlockCount + BitVec.ofNat 32 asked
  waits : ∀ p ∈ k.waitQueue, (k.tcb p).waitingFor = magicSsi → p ∉ ds → p ∈ k'.waitQueue

namespace Effect

variable {k k₀ k' : Kernel} {ds : List Ptr} {asked answered : Nat} {t : Ptr}

/-- Nobody has been freed. -/
theorem of_same (hk : Placed k) (hp : SamePlaces k k') (hf : k'.tcbFree = k.tcbFree)
    (hs : k'.softBlockCount + BitVec.ofNat 32 answered = k.softBlockCount + BitVec.ofNat 32 asked)
    (hw : ∀ p ∈ k.waitQueue, (k.tcb p).waitingFor = magicSsi → p ∈ k'.waitQueue) :
    k.Effect [] asked answered k' where
  nodup := List.nodup_nil
  live := by simp
  mem_free := by simp
  freed p h := .inl (hf ▸ h)
  keeps p h _ := h.of_same hk hp hf
  softBlockCount := by simpa using hs
  waits p hm hp _ := hw p hm hp

/-- Nobody has been freed and nobody has been moved, but a thread may have become ready. -/
theorem of_grows (hr : k.readyQueue ⊆ k'.readyQueue) (hw : k'.waitQueue = k.waitQueue)
    (hf : k'.tcbFree ⊆ k.tcbFree) (hc : k'.currentThread = k.currentThread)
    (hs : k'.softBlockCount = k.softBlockCount) : k.Effect [] 0 0 k' where
  nodup := List.nodup_nil
  live := by simp
  mem_free := by simp
  freed p hp := .inl (hf hp)
  keeps p hp _ := by
    rcases hp with hp | hp | hp
    · exact .inl (hr hp)
    · exact .inr (.inl (hw ▸ hp))
    · exact .inr (.inr (running_eq hc ▸ hp))
  softBlockCount := by simp [hs]
  waits p hp _ _ := hw ▸ hp

theorem of_quiet (h : Quiet k k') : k.Effect [] 0 0 k' :=
  of_grows (by simp [h.readyQueue]) h.waitQueue (by simp [h.tcbFree]) h.currentThread
    h.softBlockCount

theorem of_reaped (hk : Placed k') (h : Reaped k ds k') : k.Effect ds 0 0 k' where
  nodup := h.nodup hk
  live := h.live
  mem_free p hp := by simp [h.tcbFree, hp]
  freed p hp := by simpa [h.tcbFree] using hp
  keeps p hp hd := by
    rcases hp with hp | hp | hp
    · exact .inl (by simp [h.readyQueue, hp, hd])
    · exact .inr (.inl (h.mem_wait.mpr ⟨hp, hd⟩))
    · obtain ⟨rfl, hc⟩ := mem_running.mp hp
      refine .inr (.inr (mem_running.mpr ?_))
      simp [h.currentThread, hd, hc]
  softBlockCount := by simpa using h.softBlockCount
  waits p hp _ hd := h.mem_wait.mpr ⟨hp, hd⟩

theorem terminate (hk : Placed k) (ht : t ≠ null) (h : k.terminate t = .ok k') :
    ∃ ds, k.Effect ds 0 0 k' := by
  obtain ⟨ds, -, hd⟩ := Reaped.terminate hk ht h
  exact ⟨ds, of_reaped (hk.of_perm (SamePlaces.terminate hk ht h)) hd⟩

/-- The handler started by counting what it was asked for. -/
theorem after (hr : k₀.readyQueue = k.readyQueue) (hw : k₀.waitQueue = k.waitQueue)
    (hf : k₀.tcbFree = k.tcbFree) (hc : k₀.currentThread = k.currentThread)
    (hssi : k₀.ssiTcb = k.ssiTcb) (hwf : ∀ p, (k₀.tcb p).waitingFor = (k.tcb p).waitingFor)
    (hs : k₀.softBlockCount = k.softBlockCount + BitVec.ofNat 32 asked)
    (h : k₀.Effect ds 0 answered k') : k.Effect ds asked answered k' := by
  have hlive : ∀ p, k₀.Live p ↔ k.Live p := by
    intro p
    simp only [Live, hr, hw, running_eq hc]
  constructor
  case nodup => exact h.nodup
  case live => exact fun p hp => (hlive p).mp (h.live p hp)
  case mem_free => exact h.mem_free
  case freed => exact hf ▸ h.freed
  case keeps => exact fun p hp => h.keeps p ((hlive p).mpr hp)
  case softBlockCount =>
    have hsoft := h.softBlockCount
    rw [hs] at hsoft
    simpa [hw, hwf, hssi] using hsoft
  case waits =>
    intro p hp hm
    exact h.waits p (hw ▸ hp) ((hwf p).trans hm)

theorem after_quiet (hq : Quiet k k₀) (h : k₀.Effect ds 0 answered k') :
    k.Effect ds 0 answered k' :=
  h.after hq.readyQueue hq.waitQueue hq.tcbFree hq.currentThread hq.ssiTcb hq.waitingFor
    (by simp [hq.softBlockCount])

end Effect

variable {k k' : Kernel} {s t : Ptr} {v r : U32}

/-- An answer of the SSI travels as MAGIC_SSI, so the comparison with its TCB never lowers the
count. -/
theorem send_softBlockCount (hssi : k.ssiTcb ≠ magicSsi) (h : k.send s t v = .ok (r, k')) :
    k'.softBlockCount = k.softBlockCount := by
  have hid : k.senderId s ≠ k.ssiTcb := by
    unfold senderId
    split
    · exact hssi.symm
    · exact ‹_›
  rcases send_cases h with ⟨-, -, he⟩ | ⟨-, -, -, -, -, -, -, rfl⟩ | ⟨-, -, -, -, -, -, he⟩ |
    ⟨-, -, -, rfl⟩
  · obtain ⟨a, free, -, rfl⟩ := enqueue_cases he
    rfl
  · simp [delivered, hid]
  · obtain ⟨a, free, -, rfl⟩ := enqueue_cases he
    rfl
  · rfl

/-- Only a message it waits for takes a thread out of the wait queue. -/
theorem send_waitQueue (h : k.send s t v = .ok (r, k')) :
    k'.waitQueue = k.waitQueue ∨
      k'.waitQueue = k.waitQueue.erase t ∧ t ∈ k.waitQueue ∧ k.awaits t (k.senderId s) = true := by
  rcases send_cases h with ⟨-, -, he⟩ | ⟨-, -, -, hw, -, ha, -, rfl⟩ | ⟨-, -, -, -, -, -, he⟩ |
    ⟨-, -, -, rfl⟩
  · obtain ⟨a, free, -, rfl⟩ := enqueue_cases he
    exact .inl rfl
  · exact .inr ⟨rfl, hw, ha⟩
  · obtain ⟨a, free, -, rfl⟩ := enqueue_cases he
    exact .inl rfl
  · exact .inl rfl

/-- A thread blocked for MAGIC_SSI stays there unless the SSI itself addresses it. -/
theorem send_waits (hs : s ≠ magicSsi) (hq : s = k.ssiTcb → t ∈ k.waitQueue →
    (k.tcb t).waitingFor ≠ magicSsi) (h : k.send s t v = .ok (r, k')) :
    ∀ p ∈ k.waitQueue, (k.tcb p).waitingFor = magicSsi → p ∈ k'.waitQueue := by
  intro p hp hm
  rcases send_waitQueue h with he | ⟨he, ht, ha⟩
  · exact he ▸ hp
  · have hne : p ≠ t := by
      rintro rfl
      have hany : magicSsi ≠ anyMessage := by decide
      simp only [awaits, hm, Bool.or_eq_true, decide_eq_true_eq, hany, or_false, senderId] at ha
      split at ha
      · exact hq ‹_› ht hm
      · exact hs ha.symm
    rw [he]
    exact (List.mem_erase_of_ne hne).mpr hp

/-- A handler that sends a message, and what is quiet after it. -/
theorem Effect.send (hk : Placed k) (hssi : k.ssiTcb ∈ threadArray) (hs : s ≠ magicSsi)
    (hq : s = k.ssiTcb → t ∈ k.waitQueue → (k.tcb t).waitingFor ≠ magicSsi)
    (h : k.send s t v = .ok (r, k')) : k.Effect [] 0 0 k' := by
  have hne : k.ssiTcb ≠ magicSsi := fun he => magicSsi_notMem_threadArray (he ▸ hssi)
  exact .of_same hk (SamePlaces.send h) (send_frame h).tcbFree (by rw [send_softBlockCount hne h])
    (send_waits hs hq h)

theorem sysbpBody_eq (old : State) : k.sysbpBody old =
    if old.isSend then (k.sysbpEnter old).sysSendCase old
    else if old.isRecv then (k.sysbpEnter old).sysRecvCase old
    else (k.sysbpEnter old).passUp (((k.sysbpEnter old).tcb
      (k.sysbpEnter old).currentThread).manager .sysbp) old.cause := rfl

theorem sendEnter_softBlockCount (old : State) : (k.sendEnter old).softBlockCount =
    k.softBlockCount + BitVec.ofNat 32 (if old.regA1 = magicSsi then 1 else 0) := by
  have hq := sysbpEnter_quiet (k := k) old
  unfold sendEnter
  split <;> simp [hq.softBlockCount]

/-- A SEND is the decision of a manager or an ordinary message. -/
theorem sysbpBody_send_cases {old : State} (hs : old.isSend = true) (h : k.sysbpBody old = .ok k') :
    (∃ t, t ≠ null ∧ (k.tcb t).waitingFor = k.currentThread ∧
      (k.sendEnter old).decision t old.regA2 = .ok k') ∨
    (k.sendEnter old).sendOrdinary k.currentThread (k.receiver old) old.regA2 = .ok k' := by
  obtain ⟨-, -, -, -, -, -, -, -, htcb⟩ := k.sendEnter_eq old
  rw [sysbpBody_sendEnter hs] at h
  split at h
  · cases h
  have hwait : (k.sendEnter old).intercepts k.currentThread (k.receiver old) = true →
      k.receiver old ≠ null ∧ (k.tcb (k.receiver old)).waitingFor = k.currentThread := by
    intro hi
    simp only [intercepts, (htcb _).1, Bool.and_eq_true, decide_eq_true_eq] at hi
    exact ⟨hi.1.2, hi.2⟩
  split at h
  · next hd =>
    simp only [Bool.and_eq_true, decide_eq_true_eq] at hd
    obtain ⟨hn, hwf⟩ := hwait hd.1
    exact .inl ⟨_, hn, hwf, by rwa [decision, if_pos hd.2]⟩
  · next hnot =>
    split at h
    · next hd =>
      simp only [Bool.and_eq_true, decide_eq_true_eq] at hd
      obtain ⟨hn, hwf⟩ := hwait hd.1
      have hv : old.regA2 ≠ trapTerminate := fun hv => hnot (by simp [hd.1, hv])
      exact .inl ⟨_, hn, hwf, by rwa [decision, if_neg hv]⟩
    · exact .inr h

/-- The handler of a SEND asks the SSI for something exactly when it names MAGIC_SSI. -/
theorem sysbpBody_send_effect {old : State} (hk : Placed k) (hc : k.currentThread ≠ null)
    (hssi : k.ssiTcb ∈ threadArray) (hs : old.isSend = true)
    (hq : k.currentThread = k.ssiTcb → k.receiver old ∈ k.waitQueue →
      (k.tcb (k.receiver old)).waitingFor ≠ magicSsi)
    (h : k.sysbpBody old = .ok k') :
    ∃ ds, k.Effect ds (if old.regA1 = magicSsi then 1 else 0) 0 k' := by
  obtain ⟨hr, hw, hf, hcur, hst, -, -, -, htcb⟩ := k.sendEnter_eq old
  have hsame : SamePlaces k (k.sendEnter old) := .of_eq hr hw hf hcur
  have hk₀ := hk.of_perm hsame
  have hmagic : k.currentThread ≠ magicSsi := by
    intro he
    have := hk.sub _ (mem_places.mpr (.inr (.inr (.inr ⟨rfl, hc⟩))))
    exact magicSsi_notMem_threadArray (he ▸ this)
  have hafter : ∀ ds, (k.sendEnter old).Effect ds 0 0 k' →
      k.Effect ds (if old.regA1 = magicSsi then 1 else 0) 0 k' := fun ds he =>
    he.after hr hw hf hcur hst (fun p => (htcb p).1) (sendEnter_softBlockCount old)
  rcases sysbpBody_send_cases hs h with ⟨t, ht, hwt, hd⟩ | ho
  · unfold decision at hd
    split at hd
    · obtain ⟨ds, he⟩ := Effect.terminate hk₀ ht hd
      exact ⟨ds, hafter ds he⟩
    · have hops := SamePlaces.step (.resume hd) hk₀ (by simp) (by simp)
      obtain ⟨hwait, -, rfl⟩ := continueTrapped_cases hd
      refine ⟨[], hafter [] (.of_same hk₀ hops rfl rfl fun p hp hm => ?_)⟩
      have hne : p ≠ t := by
        rintro rfl
        rw [(htcb p).1, hwt] at hm
        exact hmagic hm
      exact (List.mem_erase_of_ne hne).mpr hp
  · obtain ⟨r, k₁, hs₁, rfl⟩ := sendOrdinary_cases ho
    refine ⟨[], hafter [] ?_⟩
    have he : (k.sendEnter old).Effect [] 0 0 k₁ := by
      refine .send hk₀ (hst ▸ hssi) hmagic (fun hcs hm => ?_) hs₁
      rw [(htcb _).1]
      exact hq (hcs.trans hst) (hw ▸ hm)
    exact ⟨he.nodup, he.live, he.mem_free, he.freed, he.keeps, he.softBlockCount, he.waits⟩

/-- The handler of a RECV takes the answer of the SSI from the inbox exactly when it names
MAGIC_SSI and does not block. -/
theorem sysbpBody_recv_effect {old : State} (hk : Placed k) (hc : k.currentThread ≠ null)
    (hs : old.isSend = false) (hr : old.isRecv = true) (h : k.sysbpBody old = .ok k') :
    k.Effect [] 0 (if old.regA1 = magicSsi ∧ k.currentThread ∉ k'.waitQueue then 1 else 0) k' := by
  have hq := sysbpEnter_quiet (k := k) old
  have hk₀ := hk.of_perm (SamePlaces.quiet hq)
  rw [sysbpBody_eq, hs, hr] at h
  simp only [Bool.false_eq_true, if_false, if_true] at h
  obtain ⟨⟨r, k₁⟩, h₁, h₂⟩ := bind_eq_ok.mp h
  cases h₂
  have hsame := SamePlaces.recv (hq.currentThread ▸ hc) h₁
  refine Effect.after_quiet hq (.of_same hk₀ hsame ?_ ?_ ?_)
  all_goals
    rcases recv_cases h₁ with ⟨-, -, rfl⟩ | ⟨m, rest, -, -, -, rfl⟩
  · rfl
  · rfl
  · simp [block, insertThread, setTcb, hq.currentThread]
  · have hnw : k.currentThread ∉ (k.sysbpEnter old).waitQueue := by
      rw [hq.waitQueue]
      exact (hk.current_notMem hc).2.1
    by_cases hm : old.regA1 = magicSsi
    · simp only [received, setTcb, hm, true_and, hnw, not_false_eq_true, if_true]
      exact (BitVec.sub_add_cancel _ _).trans (BitVec.add_zero _).symm
    · simp [received, setTcb, hm]
  · intro p hp _
    simp [block, insertThread, setTcb, hp]
  · intro p hp _
    exact hp

/-- An exception that is not message passing frees the current thread and its subtree, or sends
its cause to the manager. -/
theorem passUp_effect {m : Ptr} {cause : U32} (hk : Placed k) (hc : k.currentThread ≠ null)
    (hssi : k.ssiTcb ∈ threadArray)
    (hq : k.currentThread = k.ssiTcb → m ∈ k.waitQueue → (k.tcb m).waitingFor ≠ magicSsi)
    (h : k.passUp m cause = .ok k') : ∃ ds, k.Effect ds 0 0 k' := by
  unfold passUp at h
  split at h
  · obtain ⟨k₁, h₁, h₂⟩ := bind_eq_ok.mp h
    cases h₂
    have hcur := terminate_current hk hc h₁
    have he : { k₁ with currentThread := null } = k₁ := by rw [← hcur]
    rw [he]
    exact Effect.terminate hk hc h₁
  · next hm =>
    have hpass : k.passUp m cause = .ok k' := by
      rw [passUp, if_neg hm]
      exact h
    have hops := passUp_ops hk hc hpass
    have hsame := hops.samePlaces hk (fun p hp => by simp [Entry.Allows] at hp)
      (fun p hp => by simp [Entry.Allows] at hp)
    obtain ⟨⟨r, k₁⟩, h₁, h₂⟩ := bind_eq_ok.mp h
    cases h₂
    have hmagic : k.currentThread ≠ magicSsi := by
      intro he
      have := hk.sub _ (mem_places.mpr (.inr (.inr (.inr ⟨rfl, hc⟩))))
      exact magicSsi_notMem_threadArray (he ▸ this)
    have hne : k.ssiTcb ≠ magicSsi := fun he => magicSsi_notMem_threadArray (he ▸ hssi)
    have hfree := (send_frame h₁).tcbFree
    have hsoft := send_softBlockCount hne h₁
    refine ⟨[], .of_same hk hsame hfree (by simpa [setTcb] using hsoft) fun p hp hw => ?_⟩
    have hwait := send_waits hmagic hq h₁ p hp hw
    simp [insertThread, setTcb, hwait]

/-- An interrupt only sends to the SSI, and not in its name. -/
theorem interrupt_effect {c : Ptr} (hk : Placed k) (hssi : k.ssiTcb ∈ threadArray)
    (h : Ops (Entry.interrupt.Allows c) k k') : k.Effect [] 0 0 k' := by
  have hinv := h.inv (I := fun k' => Placed k' ∧ k'.ssiTcb = k.ssiTcb ∧ k'.tcbFree = k.tcbFree ∧
    k'.softBlockCount = k.softBlockCount ∧ ∀ p ∈ k.waitQueue, (k.tcb p).waitingFor = magicSsi →
      p ∈ k'.waitQueue ∧ (k'.tcb p).waitingFor = magicSsi) ?_
    ⟨hk, rfl, rfl, rfl, fun p hp hw => ⟨hp, hw⟩⟩
  · obtain ⟨-, -, hf, hs, hw⟩ := hinv
    have hsame := h.samePlaces hk (fun p hp => by simp [Entry.Allows] at hp)
      (fun p hp => by simp [Entry.Allows] at hp)
    exact .of_same hk hsame hf (by rw [hs]) fun p hp hm => (hw p hp hm).1
  · rintro k₁ o k₂ hs ha ⟨hk₁, hst, hf, hsoft, hw⟩
    have hne : k₁.ssiTcb ≠ magicSsi := fun he => magicSsi_notMem_threadArray (he ▸ hst ▸ hssi)
    refine ⟨hk₁.step hs, (ssiTcb_step hs).trans hst, ?_⟩
    cases hs with
    | quiet hq =>
      refine ⟨hq.tcbFree.trans hf, hq.softBlockCount.trans hsoft, fun p hp hm => ?_⟩
      rw [hq.waitQueue, hq.waitingFor]
      exact hw p hp hm
    | send hs =>
      obtain ⟨hdev, -⟩ := ha.resolve_left (by simp)
      have hid := deviceIds_notMem hdev
      refine ⟨(send_frame hs).tcbFree.trans hf, (send_softBlockCount hne hs).trans hsoft, ?_⟩
      intro p hp hm
      have hp₁ := hw p hp hm
      have hp₂ := send_waits hid.2 (fun he => absurd (he ▸ hst ▸ hssi) hid.1) hs p hp₁.1 hp₁.2
      exact ⟨hp₂, (StillWaits.send hk₁ hs hp₂).waitingFor.trans hp₁.2⟩
    | dispatch | preempt => exact ⟨hf, hsoft, hw⟩
    | request | resume | recv | freeze | terminate | alloc | insertChild | insertSibling
      | countThread | publish => simp [Entry.Allows] at ha

end Kernel

namespace Ssi

/-- The waiters the SSI has recorded are TCBs. -/
def Named (s : Ssi) : Prop := s.pc ≠ .init → ∀ i,
  (s.devTcb i = null ∨ s.devTcb i ∈ threadArray) ∧
    (s.clockTcb i = null ∨ s.clockTcb i ∈ threadArray)

/-- A waiter is kept, woken or the requester being served. -/
theorem next_devTcb (s : Ssi) (k : Kernel) (r : U32) (i : Nat) :
    (s.next k r).devTcb i = s.devTcb i ∨ (s.next k r).devTcb i = null ∨
      (s.next k r).devTcb i = s.reqThread ∧ s.pc.serves = true := by
  have hput : ∀ d a, put s.devTcb d a i = s.devTcb i ∨ put s.devTcb d a i = a := by
    intro d a
    simp only [Links.put_apply]
    split <;> simp
  have hd : (s.dispatch k).devTcb = s.devTcb := by
    unfold dispatch recordClock
    dsimp only
    repeat' split
    all_goals rfl
  unfold next
  cases hpc : s.pc
  case init => exact .inr (.inl rfl)
  case serve => exact .inl (by rw [hd])
  case interruptClear =>
    cases s.deviceNum with
    | none => exact .inl rfl
    | some d => exact (hput d null).imp id .inl
  case waitIo =>
    cases s.deviceNum with
    | none => exact .inl rfl
    | some d =>
      dsimp only
      split
      · exact (hput d s.reqThread).imp id fun h => .inr ⟨h, rfl⟩
      · exact .inl rfl
  case copyState c => cases c <;> exact .inl rfl
  all_goals
    dsimp only
    repeat' split
    all_goals exact .inl rfl

theorem next_clockTcb (s : Ssi) (k : Kernel) (r : U32) (i : Nat) :
    (s.next k r).clockTcb i = s.clockTcb i ∨ (s.next k r).clockTcb i = null ∨
      (s.next k r).clockTcb i = s.reqThread ∧ s.pc.serves = true := by
  have hput : ∀ d a, put s.clockTcb d a i = s.clockTcb i ∨ put s.clockTcb d a i = a := by
    intro d a
    simp only [Links.put_apply]
    split <;> simp
  have hd : (s.dispatch k).clockTcb i = s.clockTcb i ∨ (s.dispatch k).clockTcb i = s.reqThread := by
    unfold dispatch recordClock
    dsimp only
    repeat' split
    all_goals first | exact .inl rfl | exact hput _ _
  unfold next
  cases hpc : s.pc
  case init => exact .inr (.inl rfl)
  case serve => exact hd.imp id fun h => .inr ⟨h, rfl⟩
  case clockClear n => exact (hput n null).imp id .inl
  case copyState c => cases c <;> exact .inl rfl
  all_goals
    dsimp only
    repeat' split
    all_goals exact .inl rfl

theorem Named.next {s : Ssi} {k : Kernel} {r : U32} (h : s.Named)
    (hr : s.pc.serves = true → s.reqThread ∈ threadArray) : (s.next k r).Named := by
  intro _ i
  by_cases hinit : s.pc = .init
  · simp [Ssi.next, hinit, initArrays]
  have hi := h hinit i
  constructor
  · rcases next_devTcb s k r i with he | he | ⟨he, hs⟩ <;> rw [he]
    · exact hi.1
    · exact .inl rfl
    · exact .inr (hr hs)
  · rcases next_clockTcb s k r i with he | he | ⟨he, hs⟩ <;> rw [he]
    · exact hi.2
    · exact .inl rfl
    · exact .inr (hr hs)

/-- The SSI answers threads only. -/
theorem msgSend_mem {s : Ssi} {k : Kernel} {d : Ptr} {v : U32} (h : s.Named)
    (hr : s.pc.serves = true → s.reqThread ∈ threadArray) (hc : s.call k = .msgSend d v) :
    d ∈ threadArray := by
  have hat := s.call_at k
  rw [hc] at hat
  rcases hat with ⟨hs, rfl⟩ | ⟨i, hpc, rfl, hn, -⟩ | ⟨i, hpc, -, rfl, hn⟩
  · exact hr hs
  · exact (h (by simp [hpc]) i).2.resolve_left hn
  · exact (h (by simp [hpc]) i).1.resolve_left hn

end Ssi

/-- `MsgSend(MAGIC_SSI, ..)`: the first half of `SSIRequest`. -/
def Event.requests : Event → Bool
  | .sysbp old => old.isSend && old.regA1 = magicSsi
  | _ => false

/-- `MsgRecv(MAGIC_SSI, ..)`: the second half of `SSIRequest`. -/
def Event.collects : Event → Bool
  | .sysbp old => old.isRecv && old.regA1 = magicSsi
  | _ => false

theorem State.isSend_of_isRecv {old : State} (h : old.isRecv = true) : old.isSend = false := by
  have hne : sysRecv ≠ sysSend := by decide
  simp only [State.isRecv, Bool.and_eq_true, decide_eq_true_eq] at h
  simp [State.isSend, h.2, hne]

namespace Machine

variable {m : Machine} {e : Event} {k : Kernel}

/-- The thread the SSI sends to when it is the current thread. -/
def recipient (m : Machine) : Event → Option Ptr
  | .ssi _ => match m.ssi.call m.k with
    | .msgSend dest _ => some dest
    | _ => none
  | .pgmtrap _ => some ((m.k.tcb m.k.currentThread).manager .pgmtrap)
  | .tlb _ => some ((m.k.tcb m.k.currentThread).manager .tlbtrap)
  | _ => none

/-- The SSI sends to nobody who is already blocked for its answer. -/
def AnswersQueued (m : Machine) (e : Event) : Prop :=
  m.k.currentThread = m.k.ssiTcb → ∀ t ∈ m.recipient e, t ∈ m.k.waitQueue →
    (m.k.tcb t).waitingFor ≠ magicSsi

theorem performBody_effect {old : State} (hw : m.Wf) (hn : m.ssi.Named)
    (hcur : m.k.currentThread = m.k.ssiTcb) (hq : m.AnswersQueued (.ssi old))
    (h : m.k.performBody old (m.ssi.call m.k) = .ok k) : ∃ ds, m.k.Effect ds 0 0 k := by
  have hat := m.ssi.call_at m.k
  have hc : m.k.currentThread ≠ null := by rw [hcur]; exact hw.ssi_ne_null
  cases hcall : m.ssi.call m.k <;> simp only [hcall] at h hat
  case msgRecv a =>
    have hany : anyMessage ≠ magicSsi := by decide
    have he := Kernel.sysbpBody_recv_effect hw.placed hc (old.syscall_isRecv _ _).1
      (old.syscall_isRecv _ _).2 h
    rw [(old.syscall_regs _ _ _).2.1, if_neg fun ha => hany ha.1] at he
    exact ⟨[], he⟩
  case msgSend dest payload =>
    have hmem := Ssi.msgSend_mem hn hw.requester hcall
    have hne : dest ≠ magicSsi := fun he => magicSsi_notMem_threadArray (he ▸ hmem)
    have hrec : m.k.receiver (old.syscall sysSend dest payload) = dest := by
      rw [Kernel.receiver, (old.syscall_regs _ _ _).2.1, if_neg hne]
    obtain ⟨ds, he⟩ := Kernel.sysbpBody_send_effect hw.placed hc hw.ssi (old.syscall_isSend _ _)
      (by rw [hrec]; exact fun hcs => hq hcs dest (by simp [recipient, hcall])) h
    rw [(old.syscall_regs _ _ _).2.1, if_neg hne] at he
    exact ⟨ds, he⟩
  all_goals
    obtain ⟨⟨r, k'⟩, h₁, h₂⟩ := bind_eq_ok.mp h
    cases h₂
  case «local» =>
    cases h₁
    exact ⟨[], .of_quiet (Quiet.refl _)⟩
  case allocTcb =>
    refine ⟨[], ?_⟩
    cases hf : m.k.tcbFree with
    | nil =>
      simp only [Kernel.perform, Kernel.allocTcb, hf, Except.ok.injEq, Prod.mk.injEq] at h₁
      exact h₁.2 ▸ .of_quiet (Quiet.refl _)
    | cons p free =>
      simp only [Kernel.perform, Kernel.allocTcb, hf, Except.ok.injEq, Prod.mk.injEq] at h₁
      rw [← h₁.2]
      exact .of_grows (fun _ hp => hp) rfl (by simp [hf]) rfl rfl
  case insertChild | insertSibling =>
    simp only [Kernel.perform] at h₁
    split at h₁
    · cases h₁
    · cases h₁
      exact ⟨[], .of_grows (fun _ hp => hp) rfl (fun _ hp => hp) rfl rfl⟩
  case countThread =>
    cases h₁
    exact ⟨[], .of_grows (fun _ hp => hp) rfl (fun _ hp => hp) rfl rfl⟩
  case insertReady =>
    cases h₁
    exact ⟨[], .of_grows (fun _ hp => List.mem_append_left _ hp) rfl (fun _ hp => hp) rfl rfl⟩
  case copyState =>
    obtain ⟨-, rfl⟩ := Kernel.perform_copyState h₁
    exact ⟨[], .of_quiet (.setState _ _)⟩
  case inherit =>
    cases h₁
    have hquiet := Quiet.setTcb (k := m.k) (p := m.ssi.newThread) (f := fun t =>
      { t with sysbpManagerThread := (m.k.tcb m.ssi.reqThread).sysbpManagerThread
               pgmtrapManagerThread := (m.k.tcb m.ssi.reqThread).pgmtrapManagerThread
               tlbtrapManagerThread := (m.k.tcb m.ssi.reqThread).tlbtrapManagerThread })
      fun _ => ⟨rfl, rfl, rfl, rfl⟩
    obtain ⟨-, rfl, rfl⟩ := hat
    exact ⟨[], .of_quiet hquiet⟩
  case terminate p =>
    obtain ⟨k₁, h₁, h₂⟩ := bind_eq_ok.mp h₁
    cases h₂
    obtain ⟨hterm, rfl⟩ := hat
    refine Kernel.Effect.terminate hw.placed (fun he => ?_) h₁
    exact null_notMem_threadArray (he ▸ hw.requester (by rw [hterm]; rfl))
  case addManager =>
    cases h₁
    exact ⟨[], .of_quiet (.addManager _)⟩
  case setManager =>
    cases h₁
    exact ⟨[], .of_quiet (.setManager _ _ _)⟩
  case panic => cases h₁
  case fault => cases h₁

/-- The effect of every handler, as long as the SSI sends to nobody blocked for its answer. -/
theorem body_effect (hw : m.Wf) (hn : m.ssi.Named) (hen : m.Enabled e) (hq : m.AnswersQueued e)
    (h : m.body e = .ok k) : ∃ ds, (e.collects = true → ds = []) ∧
      m.k.Effect ds (if e.requests then 1 else 0)
        (if e.collects ∧ m.k.currentThread ∉ k.waitQueue then 1 else 0) k := by
  have hpass : ∀ (old : State) (x : Trap), m.k.currentThread ≠ null →
      (m.k.currentThread = m.k.ssiTcb → (m.k.tcb m.k.currentThread).manager x ∈ m.k.waitQueue →
        (m.k.tcb ((m.k.tcb m.k.currentThread).manager x)).waitingFor ≠ magicSsi) →
      (m.k.enter old).passUp (((m.k.enter old).tcb (m.k.enter old).currentThread).manager x)
        old.cause = .ok k → ∃ ds, m.k.Effect ds 0 0 k := by
    intro old x hc hx h
    have hent := Quiet.enter (k := m.k) old
    rw [hent.currentThread, Kernel.enter_manager] at h
    obtain ⟨ds, he⟩ := Kernel.passUp_effect (hw.placed.of_perm (SamePlaces.quiet hent))
      (hent.currentThread ▸ hc) (hent.ssiTcb ▸ hw.ssi)
      (by rw [hent.currentThread, hent.ssiTcb, hent.waitQueue, hent.waitingFor]; exact hx) h
    exact ⟨ds, he.after_quiet hent⟩
  cases e with
  | devices bus =>
    cases h
    exact ⟨[], by simp, .of_quiet (by constructor <;> intros <;> rfl)⟩
  | edit p s =>
    cases h
    exact ⟨[], by simp, .of_quiet (.setState p s)⟩
  | store a v => exact ⟨[], by simp, .of_quiet (.storeWord h)⟩
  | interrupt old =>
    exact ⟨[], by simp, Kernel.interrupt_effect (c := null) hw.placed hw.ssi (Kernel.intBody_ops h)⟩
  | pgmtrap old =>
    obtain ⟨ds, he⟩ := hpass old .pgmtrap hen (fun hcs => hq hcs _ rfl) h
    exact ⟨ds, by simp [Event.collects], he⟩
  | tlb old =>
    obtain ⟨ds, he⟩ := hpass old .tlbtrap hen (fun hcs => hq hcs _ rfl) h
    exact ⟨ds, by simp [Event.collects], he⟩
  | ssi old =>
    obtain ⟨ds, he⟩ := performBody_effect hw hn hen hq h
    exact ⟨ds, by simp [Event.collects], he⟩
  | sysbp old =>
    by_cases hs : old.isSend
    · obtain ⟨ds, he⟩ := Kernel.sysbpBody_send_effect hw.placed hen.1 hw.ssi hs
        (fun hcs => absurd hcs hen.2) h
      have hr : old.isRecv = false := by
        by_contra hr
        rw [State.isSend_of_isRecv (by simpa using hr)] at hs
        cases hs
      refine ⟨ds, by simp [Event.collects, hr], ?_⟩
      simpa [Event.requests, Event.collects, hs, hr] using he
    · by_cases hr : old.isRecv
      · have he := Kernel.sysbpBody_recv_effect hw.placed hen.1 (by simpa using hs) hr h
        exact ⟨[], by simp, by simpa [Event.requests, Event.collects, hs, hr] using he⟩
      · have henter := Kernel.sysbpEnter_quiet (k := m.k) old
        simp only [body, Kernel.sysbpBody_eq, hs, hr, if_false, Bool.false_eq_true] at h
        rw [henter.currentThread] at h
        obtain ⟨ds, he⟩ := Kernel.passUp_effect (hw.placed.of_perm (SamePlaces.quiet henter))
          (henter.currentThread ▸ hen.1) (henter.ssiTcb ▸ hw.ssi)
          (fun hcs => absurd (by rw [← henter.currentThread, hcs, henter.ssiTcb]) hen.2) h
        refine ⟨ds, by simp [Event.collects, hr], ?_⟩
        simpa [Event.requests, Event.collects, hs, hr] using he.after_quiet henter

end Machine

end AmiKaya
