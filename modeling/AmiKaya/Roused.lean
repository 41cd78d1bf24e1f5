import AmiKaya.Preemption

/-! Whose message takes a thread out of the wait queue. -/
namespace AmiKaya
open Lts

/-- A thread that leaves the wait queue has been freed, or has been handed a message of `c` or of a
device, unless it waits for `c` by name. -/
structure Roused (c : Ptr) (k k' : Kernel) : Prop extends Spares c k k' where
  names : ∀ p, p ≠ c → (k'.tcb p).waitingFor = c → (k.tcb p).waitingFor = c
  tcbFree : k.tcbFree ⊆ k'.tcbFree
  sender : ∀ p ∈ k.waitQueue, p ≠ c → p ∉ k'.waitQueue → p ∉ k'.tcbFree →
    (k.tcb p).waitingFor ≠ c → (k'.tcb p).tState.regV0 ∈ threadArray →
      (k'.tcb p).tState.regV0 = c

namespace Roused

variable {k k' k'' : Kernel} {c s t : Ptr}

/-- Nobody leaves the wait queue. -/
theorem of_stays (h : Spares c k k') (hw : k.waitQueue ⊆ k'.waitQueue)
    (hf : k.tcbFree ⊆ k'.tcbFree)
    (hwf : ∀ p, p ≠ c → (k'.tcb p).waitingFor = (k.tcb p).waitingFor) : Roused c k k' where
  toSpares := h
  names p hc := hwf p hc ▸ id
  tcbFree := hf
  sender _ hp _ hn := absurd (hw hp) hn

theorem refl (k : Kernel) : Roused c k k :=
  of_stays (.refl k) (fun _ h => h) (fun _ h => h) fun _ _ => rfl

theorem trans (h : Roused c k k') (h' : Roused c k' k'') : Roused c k k'' where
  toSpares := h.toSpares.trans h'.toSpares
  names p hc hp := h.names p hc (h'.names p hc hp)
  tcbFree := fun _ hp => h'.tcbFree (h.tcbFree hp)
  sender := by
    intro p hp hc hw hf hne
    by_cases hm : p ∈ k'.waitQueue
    · exact h'.sender p hm hc hw hf fun he => hne (h.names p hc he)
    · rw [h'.tState p hc hm]
      exact h.sender p hp hc hm (fun hf' => hf (h'.tcbFree hf')) hne

/-- What leaves the queues and the free list alone, and of the TCBs all but the one of `c`. -/
theorem of_same (hw : k'.waitQueue = k.waitQueue) (hf : k'.tcbFree = k.tcbFree)
    (ht : ∀ p, p ≠ c → (k'.tcb p).tState = (k.tcb p).tState ∧
      (k'.tcb p).waitingFor = (k.tcb p).waitingFor) : Roused c k k' :=
  of_stays ⟨fun _ hp _ => hw ▸ hp, fun p hc _ => (ht p hc).1⟩ (fun _ hp => hw ▸ hp)
    (fun _ hp => hf ▸ hp) fun p hc => (ht p hc).2

theorem setTcb (f : Tcb → Tcb) : Roused c k (k.setTcb c f) :=
  of_same rfl rfl fun p hc => by simp [Kernel.setTcb, hc]

/-- A store in another field of a TCB. -/
theorem setField {f : Tcb → Tcb} {l : Links.Heap Ptr}
    (hf : ∀ x : Tcb, (f x).tState = x.tState ∧ (f x).waitingFor = x.waitingFor) :
    Roused c k { k.setTcb t f with links := l } := by
  refine of_same rfl rfl ?_
  intro p _
  by_cases hp : p = t
  · subst hp
    simp [Kernel.setTcb, hf]
  · simp [Kernel.setTcb, hp]

theorem enqueue {v : U32} (h : k.enqueue s t v = .ok k') : Roused c k k' := by
  obtain ⟨a, free, -, rfl⟩ := Kernel.enqueue_cases h
  refine of_same rfl rfl ?_
  intro p _
  by_cases hp : p = t
  · subst hp
    simp
  · simp [hp]

/-- The SSI sends under its public name, which is no TCB. -/
theorem send {v r : U32} (hn : c ≠ notWaiting) (hs : s = c ∨ s ∈ deviceIds)
    (h : k.send s t v = .ok (r, k')) : Roused c k k' := by
  have hspares := Spares.send (c := c) h
  rcases Kernel.send_cases h with ⟨-, -, he⟩ | ⟨-, -, -, hw, -, -, -, rfl⟩ | ⟨-, -, -, -, -, -, he⟩ |
    ⟨-, -, -, rfl⟩
  · exact enqueue he
  · refine ⟨hspares, ?_, fun _ h => h, ?_⟩
    · intro p _ hp
      by_cases hpt : p = t
      · subst hpt
        simp only [Kernel.delivered, Links.put_same] at hp
        exact absurd hp.symm hn
      · simpa [Kernel.delivered, hpt] using hp
    · intro p hp _ hout _ _ hv
      have hpt : p = t := by
        by_contra hne
        exact hout ((List.mem_erase_of_ne hne).mpr hp)
      subst hpt
      have hv0 : ((k.delivered (k.senderId s) p v).tcb p).tState.regV0 = k.senderId s := by
        simp [Kernel.delivered, State.setV0, State.setReg, State.regV0]
      rw [hv0] at hv ⊢
      unfold Kernel.senderId at hv ⊢
      split at hv
      · exact absurd hv magicSsi_notMem_threadArray
      · rw [if_neg ‹_›]
        exact hs.resolve_right fun hd => (deviceIds_notMem hd).1 hv
  · exact enqueue he
  · exact refl _

theorem reap (h : k.reap t = .ok k') : Roused c k k' := by
  have hsame : ∀ p, ((put k.tcb t { k.tcb t with tInbox := [] }) p).waitingFor =
      (k.tcb p).waitingFor := by
    intro p
    by_cases hp : p = t
    · subst hp
      simp
    · simp [hp]
  have hspares := Spares.reap (c := c) h
  rcases Kernel.reap_cases h with ⟨-, rfl⟩ | ⟨-, -, -, -, rfl⟩
  · exact of_stays hspares (fun _ hp => hp) (List.subset_append_left _ _) fun p _ => hsame p
  · refine ⟨hspares, fun p _ hp => (hsame p).symm.trans hp, List.subset_append_left _ _, ?_⟩
    intro p hp _ hout hf
    have hpt : p = t := by
      by_contra hne
      exact hout ((List.mem_erase_of_ne hne).mpr hp)
    subst hpt
    exact absurd (List.mem_append_right _ (List.mem_singleton_self p)) hf

theorem terminate (h : k.terminate t = .ok k') : Roused c k k' := by
  obtain ⟨k₁, h₁, h₂⟩ := Kernel.terminate_cases (R := Roused c) refl (fun _ _ _ => trans)
    (fun _ _ => setField fun _ => ⟨rfl, rfl⟩) (fun _ _ _ _ hr => reap hr) h
  exact h₁.trans (reap h₂)

theorem enter (old : State) : Roused k.currentThread k (k.enter old) := by
  refine of_same rfl rfl ?_
  intro p hc
  simp [Kernel.enter, Kernel.setState, Kernel.chargeCpu, Kernel.chargeTime, Kernel.chargeSlice,
    Kernel.setTcb, Kernel.readTodlow, hc]

theorem passUp {m : Ptr} {cause : U32} (hn : k.currentThread ≠ notWaiting)
    (h : k.passUp m cause = .ok k') : Roused k.currentThread k k' := by
  unfold Kernel.passUp at h
  split at h
  · obtain ⟨k₁, h₁, h₂⟩ := bind_eq_ok.mp h
    cases h₂
    exact (terminate h₁).trans (of_same rfl rfl fun _ _ => ⟨rfl, rfl⟩)
  · obtain ⟨⟨r, k₁⟩, h₁, h₂⟩ := bind_eq_ok.mp h
    cases h₂
    have hcur : k₁.currentThread = k.currentThread := (Kernel.send_frame h₁).currentThread
    have hfreeze : Roused k.currentThread k₁ (k₁.freeze m) := by
      rw [← hcur]
      refine of_stays ⟨?_, ?_⟩ (List.subset_append_left _ _) (fun _ hp => hp) ?_
      · intro p hp hc
        simpa [Kernel.freeze, insertThread, hc] using hp
      · intro p hc _
        simp [Kernel.freeze, Kernel.setTcb, hc]
      · intro p hc
        simp [Kernel.freeze, Kernel.setTcb, hc]
    exact (send hn (.inl rfl) h₁).trans hfreeze

/-- The target of a TRAPCONTINUE waits for the sender by name. -/
theorem sysSendCase {old : State} (hn : k.currentThread ≠ notWaiting)
    (h : k.sysSendCase old = .ok k') : Roused k.currentThread k k' := by
  obtain ⟨k₁, hk₁, h⟩ := Kernel.sysSendCase_cases h
  have hin : Roused k.currentThread k k₁ := by
    rw [hk₁]
    split <;> exact of_same rfl rfl fun _ _ => ⟨rfl, rfl⟩
  refine hin.trans ?_
  rcases h with ⟨hi, -, h | h⟩ | h
  · exact terminate h
  · obtain ⟨-, -, rfl⟩ := Kernel.continueTrapped_cases h
    refine ⟨⟨fun p hp _ => List.mem_of_mem_erase hp, fun _ _ _ => rfl⟩, fun _ _ hp => hp,
      fun _ hp => hp, ?_⟩
    intro p hp _ hout _ hne
    have hpt : p = k.receiver old := by
      by_contra hpt
      exact hout ((List.mem_erase_of_ne hpt).mpr hp)
    rw [hpt] at hne
    simp only [Kernel.intercepts, Bool.and_eq_true, decide_eq_true_eq] at hi
    exact absurd hi.2 hne
  · obtain ⟨⟨r, k₂⟩, h₁, h₂⟩ := bind_eq_ok.mp h
    cases h₂
    exact (send hn (.inl rfl) h₁).trans (setTcb _)

theorem sysRecvCase {old : State} (h : k.sysRecvCase old = .ok k') :
    Roused k.currentThread k k' := by
  obtain ⟨⟨r, k₁⟩, h₁, h₂⟩ := bind_eq_ok.mp h
  cases h₂
  refine trans ?_ (setTcb _)
  rcases Kernel.recv_cases h₁ with ⟨-, -, rfl⟩ | ⟨m, rest, -, -, -, rfl⟩
  · refine of_stays ?_ (List.subset_append_left _ _) (fun _ hp => hp) ?_
    · refine ⟨?_, ?_⟩
      · intro p hp hc
        simpa [Kernel.block, insertThread, hc] using hp
      · intro p hc _
        simp [Kernel.block, Kernel.setTcb, hc]
    · intro p hc
      simp [Kernel.block, Kernel.setTcb, hc]
  · refine of_same rfl rfl ?_
    intro p hc
    simp [Kernel.received, hc]

theorem sysbpBody {old : State} (hn : k.currentThread ≠ notWaiting)
    (h : k.sysbpBody old = .ok k') : Roused k.currentThread k k' := by
  unfold Kernel.sysbpBody at h
  dsimp only at h
  refine (enter old).trans (Roused.trans (setTcb fun t =>
    { t with tState := { t.tState with pcEpc := t.tState.pcEpc + wordSize } }) ?_)
  split at h
  · refine sysSendCase ?_ h
    exact hn
  · split at h
    · exact sysRecvCase h
    · refine passUp ?_ h
      exact hn

/-! Interrupts. -/

theorem notifySsi (hn : c ≠ notWaiting) (hs : s ∈ deviceIds) (h : k.notifySsi s = .ok k') :
    Roused c k k' := by
  obtain ⟨⟨r, k₁⟩, h₁, h₂⟩ := bind_eq_ok.mp h
  split at h₂
  · cases h₂
  · cases h₂
    exact send hn (.inr hs) h₁

theorem quiet (hq : Quiet k k') (ht : ∀ p, (k'.tcb p).tState = (k.tcb p).tState) : Roused c k k' :=
  of_same hq.waitQueue hq.tcbFree fun p _ => ⟨ht p, hq.waitingFor p⟩

theorem overLines (hn : c ≠ notWaiting) : Kernel.OverLines (Roused c) where
  refl := refl
  trans _ _ _ := trans
  fillSlot _ _ _ := quiet (.fillSlot _ _) fun _ => rfl
  ioStore _ _ _ := quiet (.ioStore _ _) fun _ => rfl
  notifySsi _ _ _ := notifySsi hn
  updatePseudoTick _ := of_same rfl rfl fun _ _ => ⟨rfl, rfl⟩
  restartTick _ := of_same rfl rfl fun _ _ => ⟨rfl, rfl⟩
  sliceEnd k := by
    unfold Kernel.sliceEnd
    split <;> exact of_same rfl rfl fun _ _ => ⟨rfl, rfl⟩

theorem intBody {old : State} (hc : k.currentThread ≠ null → k.currentThread = c)
    (hn : c ≠ notWaiting) (h : k.intBody old = .ok k') : Roused c k k' := by
  obtain ⟨k₁, h₁, h₂⟩ := bind_eq_ok.mp h
  cases h₂
  have hin : Roused c k (if k.currentThread ≠ null then k.enter old else k) := by
    split
    · exact hc ‹_› ▸ enter old
    · exact refl k
  exact hin.trans (((overLines hn).lineInterrupt h₁).trans (of_same rfl rfl fun _ _ => ⟨rfl, rfl⟩))

theorem scheduler (h : k.scheduler = .ok k') : Roused c k k' := by
  unfold Kernel.scheduler at h
  split at h
  · split at h
    · repeat' split at h
      all_goals cases h
      exact refl k
    · next p rest _ =>
      cases h
      have hq := Quiet.dispatch (k := k) p rest
      have hsched : k.scheduler = .ok (k.dispatch p rest) := by simp [Kernel.scheduler, *]
      exact of_stays (Spares.scheduler hsched).1 (fun _ hp => hq.waitQueue ▸ hp)
        (fun _ hp => hq.tcbFree ▸ hp) fun q _ => hq.waitingFor q
  · cases h
    have hq := Quiet.resumeCurrent (k := k)
    exact quiet hq fun p => by rw [(Kernel.resumeCurrent_cpu k).1]

end Roused

namespace Machine

variable {m m' : Machine} {e : Event} {p : Ptr}

theorem current_ne_notWaiting (hw : m.Wf) : m.k.currentThread ≠ notWaiting := by
  intro he
  have hne : m.k.currentThread ≠ null := by
    rw [he]
    decide
  have hm := hw.placed.sub _ (current_live hne).mem_places
  rw [he] at hm
  exact absurd hm magicSsi_notMem_threadArray

/-- Whose message takes a thread out of the wait queue, when the SSI makes no call. -/
theorem step_roused (hw : m.Wf) (h : m.Step e m') (he : ∀ old, e ≠ .ssi old) :
    Roused (m.writes e) m.k m'.k := by
  have hn := current_ne_notWaiting hw
  obtain ⟨k, hb, hk⟩ := step_body h
  have hbody : Roused (m.writes e) m.k k := by
    cases e with
    | sysbp old => exact .sysbpBody hn hb
    | pgmtrap old | tlb old =>
      refine (Roused.enter old).trans (.passUp ?_ hb)
      exact hn
    | interrupt old => exact .intBody (fun _ => rfl) hn hb
    | devices bus =>
      cases hb
      exact .of_same rfl rfl fun _ _ => ⟨rfl, rfl⟩
    | store a v =>
      obtain ⟨-, rfl⟩ := Kernel.storeWord_cases hb
      exact .of_same rfl rfl fun _ _ => ⟨rfl, rfl⟩
    | edit p s =>
      cases hb
      exact .setTcb _
    | ssi old => exact absurd rfl (he old)
  rcases hk with ⟨-, hk⟩ | ⟨-, rfl⟩
  · exact hbody.trans (.scheduler hk)
  · exact hbody

/-- While nobody runs, only devices wake threads. -/
theorem idle_roused {c : Ptr} (hw : m.Wf) (h : m.Step e m') (hidle : m.k.currentThread = null)
    (hn : c ≠ notWaiting) : Roused c m.k m'.k := by
  obtain ⟨k, hb, hk⟩ := step_body h
  have hbody : Roused c m.k k := by
    cases e with
    | interrupt old => exact .intBody (fun hne => absurd hidle hne) hn hb
    | devices bus =>
      cases hb
      exact .of_same rfl rfl fun _ _ => ⟨rfl, rfl⟩
    | ssi old =>
      have hcur : m.k.currentThread = m.k.ssiTcb := h.1
      exact absurd (hcur.symm.trans hidle) hw.ssi_ne_null
    | sysbp | store | edit => exact absurd hidle h.1.1
    | pgmtrap | tlb => exact absurd hidle h.1
  rcases hk with ⟨-, hk⟩ | ⟨-, rfl⟩
  · exact hbody.trans (.scheduler hk)
  · exact hbody

end Machine

end AmiKaya
