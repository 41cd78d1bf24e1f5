import AmiKaya.Runs

/-! What a call of `terminate` does to the queues and the counters, whatever the tree looks like:
some live threads go to the free list. -/
namespace AmiKaya

/-- The threads of `ds` have been freed, in that order, and nothing else has happened to a queue. -/
structure Reaped (k : Kernel) (ds : List Ptr) (k' : Kernel) : Prop where
  live : ∀ p ∈ ds, k.Live p
  tcbFree : k'.tcbFree = k.tcbFree ++ ds
  readyQueue : k'.readyQueue = k.readyQueue.filter (· ∉ ds)
  waitQueue : k'.waitQueue = k.waitQueue.filter (· ∉ ds)
  currentThread : k'.currentThread = if k.currentThread ∈ ds then null else k.currentThread
  threadCount : k'.threadCount + BitVec.ofNat 32 ds.length = k.threadCount
  softBlockCount : k'.softBlockCount + BitVec.ofNat 32 (ds.countP fun p =>
    p ∈ k.waitQueue ∧ (k.tcb p).waitingFor = k.ssiTcb) = k.softBlockCount
  waitingFor : ∀ p, (k'.tcb p).waitingFor = (k.tcb p).waitingFor
  ssiTcb : k'.ssiTcb = k.ssiTcb

namespace Reaped

variable {k k' k'' : Kernel} {ds es : List Ptr} {p t : Ptr}

/-- Unlinking from the tree reaps nobody. -/
theorem unlink {f : Tcb → Tcb} {l : Links.Heap Ptr}
    (hf : ∀ x : Tcb, (f x).waitingFor = x.waitingFor) :
    Reaped k [] { k.setTcb t f with links := l } where
  live := by simp
  tcbFree := by simp [Kernel.setTcb]
  readyQueue := by simp [Kernel.setTcb]
  waitQueue := by simp [Kernel.setTcb]
  currentThread := by simp [Kernel.setTcb]
  threadCount := by simp [Kernel.setTcb]
  softBlockCount := by simp [Kernel.setTcb]
  waitingFor p := by
    by_cases hp : p = t
    · subst hp
      simp [Kernel.setTcb, hf]
    · simp [Kernel.setTcb, hp]
  ssiTcb := rfl

theorem refl (k : Kernel) : Reaped k [] k where
  live := by simp
  tcbFree := by simp
  readyQueue := by simp
  waitQueue := by simp
  currentThread := by simp
  threadCount := by simp
  softBlockCount := by simp
  waitingFor _ := rfl
  ssiTcb := rfl

/-- What is alive afterwards was alive before, and has not been freed. -/
theorem live_of_live (h : Reaped k ds k') (hp : k'.Live p) : k.Live p ∧ p ∉ ds := by
  rcases hp with hp | hp | hp
  · rw [h.readyQueue, List.mem_filter] at hp
    exact ⟨.inl hp.1, by simpa using hp.2⟩
  · rw [h.waitQueue, List.mem_filter] at hp
    exact ⟨.inr (.inl hp.1), by simpa using hp.2⟩
  · obtain ⟨rfl, hc⟩ := Kernel.mem_running.mp hp
    rw [h.currentThread] at hc ⊢
    split at hc
    · exact absurd rfl hc
    · next hm =>
      rw [if_neg hm]
      exact ⟨.inr (.inr (Kernel.mem_running.mpr ⟨rfl, hc⟩)), hm⟩

theorem mem_wait (h : Reaped k ds k') : p ∈ k'.waitQueue ↔ p ∈ k.waitQueue ∧ p ∉ ds := by
  simp [h.waitQueue, List.mem_filter]

theorem trans (h : Reaped k ds k') (h' : Reaped k' es k'') : Reaped k (ds ++ es) k'' where
  live p hp := by
    rcases List.mem_append.mp hp with hp | hp
    · exact h.live p hp
    · exact (h.live_of_live (h'.live p hp)).1
  tcbFree := by rw [h'.tcbFree, h.tcbFree, List.append_assoc]
  readyQueue := by
    rw [h'.readyQueue, h.readyQueue, List.filter_filter]
    apply List.filter_congr
    intro p _
    simp only [List.mem_append, not_or, Bool.decide_and]
    exact Bool.and_comm _ _
  waitQueue := by
    rw [h'.waitQueue, h.waitQueue, List.filter_filter]
    apply List.filter_congr
    intro p _
    simp only [List.mem_append, not_or, Bool.decide_and]
    exact Bool.and_comm _ _
  currentThread := by
    rw [h'.currentThread, h.currentThread]
    by_cases hd : k.currentThread ∈ ds
    · simp [hd]
    · simp [hd]
  threadCount := by
    rw [← h.threadCount, ← h'.threadCount, List.length_append, BitVec.ofNat_add, BitVec.add_assoc,
      BitVec.add_comm (BitVec.ofNat 32 es.length)]
  softBlockCount := by
    have hes : es.countP (fun p => p ∈ k'.waitQueue ∧ (k'.tcb p).waitingFor = k'.ssiTcb) =
        es.countP fun p => p ∈ k.waitQueue ∧ (k.tcb p).waitingFor = k.ssiTcb := by
      apply List.countP_congr
      intro p hp
      have hd := (h.live_of_live (h'.live p hp)).2
      simp [h.mem_wait, hd, h.waitingFor, h.ssiTcb]
    rw [← h.softBlockCount, ← h'.softBlockCount, hes, List.countP_append, BitVec.ofNat_add,
      BitVec.add_assoc, BitVec.add_comm (BitVec.ofNat 32 (es.countP _))]
  waitingFor p := (h'.waitingFor p).trans (h.waitingFor p)
  ssiTcb := h'.ssiTcb.trans h.ssiTcb

theorem filter_notMem_singleton {q : List Ptr} (h : q.Nodup) :
    q.filter (· ∉ [t]) = q.erase t := by
  rw [h.erase_eq_filter]
  apply List.filter_congr
  intro p _
  by_cases hp : p = t <;> simp [hp]

theorem queues_nodup (h : Placed k) : k.readyQueue.Nodup ∧ k.waitQueue.Nodup := by
  have hn := h.nodup
  simp only [Kernel.places, List.nodup_append] at hn
  exact ⟨hn.1.1.1, hn.1.1.2.1⟩

theorem reap (hk : Placed k) (ht : t ≠ null) (h : k.reap t = .ok k') : Reaped k [t] k' := by
  obtain ⟨hready, hwait⟩ := queues_nodup hk
  have hwaiting : ∀ p, ((put k.tcb t { k.tcb t with tInbox := [] }) p).waitingFor =
      (k.tcb p).waitingFor := by
    intro p
    by_cases hp : p = t
    · subst hp
      simp
    · simp [hp]
  rcases Kernel.reap_cases h with ⟨hc, rfl⟩ | ⟨hc, -, hr, hw, rfl⟩
  · have hnw : t ∉ k.waitQueue := by
      rcases hc with ⟨hc, -⟩ | hc
      · exact (hk.ready_notMem hc).1
      · subst hc
        exact (hk.current_notMem ht).2.1
    constructor
    case live =>
      intro p hp
      rw [List.mem_singleton] at hp
      subst hp
      rcases hc with ⟨hc, -⟩ | hc
      · exact .inl hc
      · exact .inr (.inr (Kernel.mem_running.mpr ⟨hc.symm, hc ▸ ht⟩))
    case readyQueue => exact (filter_notMem_singleton hready).symm
    case waitQueue =>
      rw [filter_notMem_singleton hwait, List.erase_of_not_mem hnw]
      rfl
    case threadCount => exact BitVec.sub_add_cancel _ _
    case softBlockCount => simp [Kernel.freed, hnw]
    case currentThread => simp
    case waitingFor => exact hwaiting
    all_goals rfl
  · constructor
    case live =>
      intro p hp
      rw [List.mem_singleton] at hp
      subst hp
      exact .inr (.inl hw)
    case readyQueue =>
      rw [filter_notMem_singleton hready, List.erase_of_not_mem hr]
      rfl
    case waitQueue => exact (filter_notMem_singleton hwait).symm
    case threadCount => exact BitVec.sub_add_cancel _ _
    case softBlockCount =>
      by_cases hs : (k.tcb t).waitingFor = k.ssiTcb
      · simp only [hs, if_true, hw, and_self, decide_true, List.countP_singleton]
        exact BitVec.sub_add_cancel _ _
      · simp [hs]
    case currentThread => simp [hc, Kernel.freed]
    case waitingFor => exact hwaiting
    all_goals rfl

/-- A call of `terminate` that returns frees some live threads, its target among them. -/
theorem terminate (hk : Placed k) (ht : t ≠ null) (h : k.terminate t = .ok k') :
    ∃ ds, t ∈ ds ∧ Reaped k ds k' := by
  obtain ⟨k₁, h₁, h₂⟩ := Kernel.terminate_cases
    (R := fun k k' => Placed k → ∃ ds, Placed k' ∧ Reaped k ds k')
    (fun k hk => ⟨[], hk, refl k⟩)
    (fun _ _ _ h h' hk => by
      obtain ⟨ds, hk', hd⟩ := h hk
      obtain ⟨es, hk'', he⟩ := h' hk'
      exact ⟨ds ++ es, hk'', hd.trans he⟩)
    (fun _ _ hk => ⟨[], hk.of_perm (List.Perm.refl _), unlink fun _ => rfl⟩)
    (fun _ _ _ ht hr hk => ⟨_, hk.of_perm (SamePlaces.reap hk ht hr), reap hk ht hr⟩) h
  obtain ⟨ds, hk₁, hd⟩ := h₁ hk
  exact ⟨ds ++ [t], by simp, hd.trans (reap hk₁ ht h₂)⟩

theorem nodup (hk : Placed k') (h : Reaped k ds k') : ds.Nodup := by
  have hn := hk.nodup
  simp only [Kernel.places, h.tcbFree, List.nodup_append] at hn
  exact hn.1.2.1.2.1

end Reaped

end AmiKaya
