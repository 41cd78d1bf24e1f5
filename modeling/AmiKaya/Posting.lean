import AmiKaya.Identity

/-! What a SEND and a RECV do to the inboxes and to the wait queue. -/
namespace AmiKaya
open Lts

theorem popMessage_rest {q rest : List Msg} {w : Ptr} {x y : Msg} (hn : (q.map Msg.addr).Nodup)
    (h : popMessage q w = some (x, rest)) (hy : y ∈ rest) : y.addr ≠ x.addr := by
  obtain ⟨pre, post, hq, hrest, -⟩ := popMessage_some h
  dsimp only at hq hrest
  subst hq hrest
  have hmiddle : (pre ++ x :: post).Perm (x :: (pre ++ post)) := List.perm_middle
  have hperm := hmiddle.map Msg.addr
  have hnot := (List.nodup_cons.mp (hperm.nodup_iff.mp hn)).1
  intro he
  exact hnot (he ▸ List.mem_map_of_mem hy)

namespace Kernel

variable {k k' : Kernel} {p t : Ptr} {v : U32}

/-- A SEND of the current thread: the decision of a manager or nothing, a message in the inbox of
the recipient, or one that is handed to it. -/
inductive Mailed (k : Kernel) (t : Ptr) (v : U32) (k' : Kernel) : Prop
  | nothing (hin : ∀ p, ∀ x ∈ (k'.tcb p).tInbox, x ∈ (k.tcb p).tInbox)
      (hw : ∀ p ∈ k.waitQueue, (k.tcb p).waitingFor ≠ k.currentThread → p ∉ k'.tcbFree →
        p ∈ k'.waitQueue)
  | queued (a : Ptr)
      (hin : ∀ p, (k'.tcb p).tInbox = if p = t then
        Kernel.queued (k.senderId k.currentThread) (k.tcb t).tInbox
          ⟨a, k.senderId k.currentThread, v⟩ else (k.tcb p).tInbox)
      (hw : k'.waitQueue = k.waitQueue)
  | handed (ht : t ∈ k.waitQueue) (ha : k.awaits t (k.senderId k.currentThread) = true)
      (hin : ∀ p, (k'.tcb p).tInbox = (k.tcb p).tInbox) (hw : k'.waitQueue = k.waitQueue.erase t)
      (hm : k'.mem (k.tcb t).reply = v)

theorem Mailed.mem_inbox (h : k.Mailed t v k') (p : Ptr) :
    ∀ x ∈ (k'.tcb p).tInbox, x ∈ (k.tcb p).tInbox ∨
      p = t ∧ x.mSender = k.senderId k.currentThread ∧ x.mMessage = v := by
  intro x hx
  cases h with
  | nothing hin _ => exact .inl (hin p x hx)
  | handed _ _ hin _ _ => exact .inl (hin p ▸ hx)
  | queued a hin _ =>
    rw [hin p] at hx
    split at hx
    · next hp =>
      subst hp
      rcases mem_queued hx with rfl | hx
      · exact .inr ⟨rfl, rfl, rfl⟩
      · exact .inl hx
    · exact .inl hx

theorem Mailed.right {k₁ : Kernel} (h : k.Mailed t v k₁) (hs : Silent k₁ k')
    (hf : k'.tcbFree = k₁.tcbFree) : k.Mailed t v k' := by
  cases h with
  | nothing hin hw =>
    refine .nothing (fun p x hx => hin p x (hs.tInbox p ▸ hx)) fun p hp hne hout => ?_
    rw [hs.waitQueue]
    exact hw p hp hne (hf ▸ hout)
  | queued a hin hw =>
    exact .queued a (fun p => (hs.tInbox p).trans (hin p)) (hs.waitQueue.trans hw)
  | handed ht ha hin hw hm =>
    refine .handed ht ha (fun p => (hs.tInbox p).trans (hin p)) (hs.waitQueue.trans hw) ?_
    rw [hs.mem]
    exact hm

theorem send_mailed {r : U32} (h : k.send k.currentThread t v = .ok (r, k')) : k.Mailed t v k' := by
  have henq : k.enqueue (k.senderId k.currentThread) t v = .ok k' → k.Mailed t v k' := by
    intro he
    obtain ⟨a, free, -, rfl⟩ := enqueue_cases he
    refine .queued a (fun p => ?_) rfl
    by_cases hp : p = t
    · subst hp
      simp
    · simp [hp]
  rcases send_cases h with ⟨-, -, he⟩ | ⟨-, -, -, ht, -, ha, -, rfl⟩ | ⟨-, -, -, -, -, -, he⟩ |
    ⟨-, -, -, rfl⟩
  · exact henq he
  · refine .handed ht ha (fun p => ?_) rfl (by simp [delivered])
    by_cases hp : p = t
    · subst hp
      simp [delivered]
    · simp [delivered, hp]
  · exact henq he
  · exact .nothing (fun _ _ hx => hx) fun p hp _ _ => hp

theorem decision_mailed (hk : Placed k) {q : Ptr} (hq : q ≠ null)
    (hw : (k.tcb q).waitingFor = k.currentThread) (h : k.decision q v = .ok k') :
    k.Mailed t v k' := by
  rcases decision_cases h with ⟨hv, -⟩ | ⟨-, -, rfl⟩
  · have hterm : k.terminate q = .ok k' := by
      rwa [decision, if_pos hv] at h
    obtain ⟨ds, -, hd⟩ := Reaped.terminate hk hq hterm
    refine .nothing (fun p x hx => ?_) fun p hp _ hout => hd.mem_wait.mpr ⟨hp, fun hm => hout ?_⟩
    · rcases inbox_step (.terminate hq hterm) p x hx with hx | ⟨s, v, r, ho, -⟩
      · exact hx
      · cases ho
    · rw [hd.tcbFree]
      exact List.mem_append_right _ hm
  · refine .nothing (fun _ _ hx => hx) fun p hp hne _ => ?_
    have hpq : p ≠ q := by
      rintro rfl
      exact hne hw
    exact (List.mem_erase_of_ne hpq).mpr hp

theorem Mailed.left {k₀ : Kernel} (h : k₀.Mailed t v k') (hc : k₀.currentThread = k.currentThread)
    (hs : k₀.ssiTcb = k.ssiTcb) (hw : k₀.waitQueue = k.waitQueue)
    (ht : ∀ p, (k₀.tcb p).waitingFor = (k.tcb p).waitingFor ∧
      (k₀.tcb p).tInbox = (k.tcb p).tInbox ∧ (k₀.tcb p).reply = (k.tcb p).reply) :
    k.Mailed t v k' := by
  have hid : ∀ s, k₀.senderId s = k.senderId s := fun s => by rw [senderId, senderId, hs]
  cases h with
  | nothing hin hw' =>
    refine .nothing (fun p x hx => (ht p).2.1 ▸ hin p x hx) fun p hp hne => ?_
    exact hw' p (hw ▸ hp) (by rw [(ht p).1, hc]; exact hne)
  | queued a hin hw' =>
    refine .queued a (fun p => ?_) (hw'.trans hw)
    rw [hin p, hid, hc, (ht t).2.1, (ht p).2.1]
  | handed hm ha hin hw' hmem =>
    refine .handed (hw ▸ hm) ?_ (fun p => (hin p).trans (ht p).2.1) (by rw [hw', hw]) ?_
    · rwa [awaits, (ht t).1, hid, hc] at ha
    · rwa [(ht t).2.2] at hmem

theorem sysbpHandler_mailed {old : State} (hk : Placed k) (hs : old.isSend = true)
    (h : k.sysbpHandler old = .ok k') : k.Mailed (k.receiver old) old.regA2 k' := by
  obtain ⟨k₁, hb, hsch⟩ := bind_eq_ok.mp h
  obtain ⟨hr, hw, hf, hc, hssi, -, -, -, htcb⟩ := k.sendEnter_eq old
  have hk₀ : Placed (k.sendEnter old) := hk.of_perm (SamePlaces.of_eq hr hw hf hc)
  have hreply : ∀ p, ((k.sendEnter old).tcb p).reply = (k.tcb p).reply := by
    intro p
    rw [← (sysbpEnter_quiet (k := k) old).reply p, sendEnter]
    split <;> rfl
  have hin : (k.sendEnter old).Mailed (k.receiver old) old.regA2 k₁ := by
    rcases sysbpBody_send_cases hs hb with ⟨q, hq, hwait, hd⟩ | ho
    · exact decision_mailed hk₀ hq (by rw [(htcb q).1, hwait, hc]) hd
    · obtain ⟨r, k₂, hsend, rfl⟩ := sendOrdinary_cases ho
      have hm := send_mailed (k := k.sendEnter old) (hc ▸ hsend)
      exact hm.right (.of_quiet (Quiet.setTcb fun _ => ⟨rfl, rfl, rfl, rfl⟩) rfl rfl) rfl
  have hmailed : k.Mailed (k.receiver old) old.regA2 k₁ :=
    hin.left hc hssi hw fun p => ⟨(htcb p).1, (htcb p).2, hreply p⟩
  have hfree := (Steady.scheduler hsch).tcbFree
  rw [List.append_nil] at hfree
  exact hmailed.right (scheduler_silent hsch) hfree

/-- A RECV takes a message from the inbox, or waits. -/
theorem sysbpHandler_popped {old : State} (hs : old.isSend = false)
    (hr : old.isRecv = true) (h : k.sysbpHandler old = .ok k') :
    (popMessage (k.tcb k.currentThread).tInbox old.regA1 = none ∧
      k.currentThread ∈ k'.waitQueue) ∨
    ∃ x rest, popMessage (k.tcb k.currentThread).tInbox old.regA1 = some (x, rest) ∧
      (k'.tcb k.currentThread).tInbox = rest ∧ k'.mem old.regA2 = x.mMessage := by
  obtain ⟨k₁, h₁, hsch⟩ := bind_eq_ok.mp h
  have hsilent := scheduler_silent hsch
  rw [hsilent.waitQueue, hsilent.tInbox, hsilent.mem]
  have hq := sysbpEnter_quiet (k := k) old
  rw [sysbpBody_eq, hs, hr] at h₁
  simp only [Bool.false_eq_true, if_false, if_true] at h₁
  obtain ⟨⟨r, k₂⟩, h₂, h₃⟩ := bind_eq_ok.mp h₁
  cases h₃
  rw [hq.currentThread] at h₂ ⊢
  rcases recv_cases h₂ with ⟨hpop, -, rfl⟩ | ⟨x, rest, hpop, -, -, rfl⟩
  · rw [hq.tInbox] at hpop
    exact .inl ⟨hpop, by simp [block, insertThread, setTcb]⟩
  · rw [hq.tInbox] at hpop
    exact .inr ⟨x, rest, hpop, by simp [setTcb, received], Links.put_same⟩

end Kernel

end AmiKaya
