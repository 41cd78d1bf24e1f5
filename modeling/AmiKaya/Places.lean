import AmiKaya.Specs

/-! Every TCB is in at most one place: the ready queue, the wait queue, the free list or the
processor. A TCB in none of them is one the SSI is creating. -/
namespace AmiKaya

/-- The places are disjoint, without repetitions, and hold TCBs of `thread_array` only. -/
structure Placed (k : Kernel) : Prop where
  nodup : k.places.Nodup
  sub : ∀ p ∈ k.places, p ∈ threadArray

theorem threadArray_toNat {p : Ptr} (h : p ∈ threadArray) :
    0x2000B2F0 ≤ p.toNat ∧ p.toNat < 0x2000C2E0 := by
  have hall : threadArray.all (fun p => 0x2000B2F0 ≤ p.toNat && p.toNat < 0x2000C2E0) = true := by
    decide
  simpa using List.all_eq_true.mp hall p h

theorem null_notMem_threadArray : null ∉ threadArray := by
  intro h
  have := (threadArray_toNat h).1
  simp [null] at this

/-- What the kernel needs of a TCB address to read a field through it. -/
theorem threadArray_aligned {p : Ptr} (h : p ∈ threadArray) : p ≠ null ∧ p.toNat % 4 = 0 := by
  have hall : threadArray.all (fun p => p.toNat % 4 = 0) = true := by decide
  exact ⟨fun hn => null_notMem_threadArray (hn ▸ h), by simpa using List.all_eq_true.mp hall p h⟩

theorem magicSsi_notMem_threadArray : magicSsi ∉ threadArray := by
  intro h
  have := (threadArray_toNat h).2
  simp [magicSsi] at this

theorem threadArray_nodup : threadArray.Nodup := by decide

namespace Kernel

variable {k k' : Kernel} {p t : Ptr}

theorem mem_running : p ∈ k.running ↔ p = k.currentThread ∧ k.currentThread ≠ null := by
  unfold running
  split <;> simp_all

theorem running_eq (h : k'.currentThread = k.currentThread) : k'.running = k.running := by
  simp [running, h]

theorem mem_places : p ∈ k.places ↔
    p ∈ k.readyQueue ∨ p ∈ k.waitQueue ∨ p ∈ k.tcbFree ∨
      p = k.currentThread ∧ k.currentThread ≠ null := by
  simp [places, mem_running]

end Kernel

namespace Placed

variable {k k' : Kernel} {p t : Ptr}

theorem of_perm (h : Placed k) (hp : k'.places.Perm k.places) : Placed k' :=
  ⟨hp.nodup_iff.mpr h.nodup, fun p hm => h.sub p (hp.mem_iff.mp hm)⟩

theorem ne_null (h : Placed k) (hp : p ∈ k.places) : p ≠ null := by
  intro he
  exact null_notMem_threadArray (he ▸ h.sub p hp)

theorem count_le (h : Placed k) (p : Ptr) :
    k.readyQueue.count p + k.waitQueue.count p + k.tcbFree.count p + k.running.count p ≤ 1 := by
  have hc := List.nodup_iff_count.mp h.nodup p
  simp only [Kernel.places, List.count_append] at hc
  exact hc

theorem ready_notMem (h : Placed k) (hr : p ∈ k.readyQueue) :
    p ∉ k.waitQueue ∧ p ∉ k.tcbFree ∧ k.currentThread ≠ p := by
  have hc := h.count_le p
  have hp := List.count_pos_iff.mpr hr
  refine ⟨fun hm => ?_, fun hm => ?_, fun he => ?_⟩
  · have := List.count_pos_iff.mpr hm
    omega
  · have := List.count_pos_iff.mpr hm
    omega
  · have hn := h.ne_null (Kernel.mem_places.mpr (.inl hr))
    have := List.count_pos_iff.mpr (Kernel.mem_running.mpr ⟨he.symm, he ▸ hn⟩)
    omega

theorem wait_notMem (h : Placed k) (hw : p ∈ k.waitQueue) :
    p ∉ k.readyQueue ∧ p ∉ k.tcbFree ∧ k.currentThread ≠ p := by
  have hc := h.count_le p
  have hp := List.count_pos_iff.mpr hw
  refine ⟨fun hm => (h.ready_notMem hm).1 hw, fun hm => ?_, fun he => ?_⟩
  · have := List.count_pos_iff.mpr hm
    omega
  · have hn := h.ne_null (Kernel.mem_places.mpr (.inr (.inl hw)))
    have := List.count_pos_iff.mpr (Kernel.mem_running.mpr ⟨he.symm, he ▸ hn⟩)
    omega

/-- A thread is in the wait queue once, so it leaves it for good. -/
theorem wait_erase (h : Placed k) : p ∉ k.waitQueue.erase p := by
  intro hm
  have hc := h.count_le p
  have hpos := List.count_pos_iff.mpr hm
  rw [List.count_erase_self] at hpos
  omega

theorem current_notMem (h : Placed k) (hc : k.currentThread ≠ null) :
    k.currentThread ∉ k.readyQueue ∧ k.currentThread ∉ k.waitQueue ∧
      k.currentThread ∉ k.tcbFree := by
  refine ⟨fun hm => (h.ready_notMem hm).2.2 rfl, fun hm => (h.wait_notMem hm).2.2 rfl, ?_⟩
  intro hm
  have := h.count_le k.currentThread
  have := List.count_pos_iff.mpr hm
  have := List.count_pos_iff.mpr (Kernel.mem_running.mpr ⟨rfl, hc⟩)
  omega

theorem free_notMem (h : Placed k) (hf : p ∈ k.tcbFree) :
    p ∉ k.readyQueue ∧ p ∉ k.waitQueue ∧ k.currentThread ≠ p := by
  refine ⟨fun hm => (h.ready_notMem hm).2.1 hf, fun hm => (h.wait_notMem hm).2.1 hf, ?_⟩
  intro he
  have hn := h.ne_null (Kernel.mem_places.mpr (.inr (.inr (.inl hf))))
  exact (h.current_notMem (he ▸ hn)).2.2 (he ▸ hf)

end Placed

namespace Kernel

variable {k : Kernel} {p : Ptr}

/-- A TCB that has been allocated and not freed since. -/
def Allocated (k : Kernel) (p : Ptr) : Prop := p ∈ threadArray ∧ p ∉ k.tcbFree

/-- A thread that exists: in a queue or on the processor. -/
def Live (k : Kernel) (p : Ptr) : Prop :=
  p ∈ k.readyQueue ∨ p ∈ k.waitQueue ∨ p ∈ k.running

instance (k : Kernel) (p : Ptr) : Decidable (k.Live p) := inferInstanceAs (Decidable (_ ∨ _ ∨ _))

theorem Live.mem_places (hp : k.Live p) : p ∈ k.places := by
  rw [Kernel.mem_places]
  rcases hp with hp | hp | hp
  · exact .inl hp
  · exact .inr (.inl hp)
  · exact .inr (.inr (.inr (mem_running.mp hp)))

theorem Live.notMem_free (h : Placed k) (hp : k.Live p) : p ∉ k.tcbFree := by
  rcases hp with hp | hp | hp
  · exact (h.ready_notMem hp).2.1
  · exact (h.wait_notMem hp).2.1
  · obtain ⟨rfl, hc⟩ := mem_running.mp hp
    exact (h.current_notMem hc).2.2

theorem Live.allocated (h : Placed k) (hp : k.Live p) : k.Allocated p :=
  ⟨h.sub p hp.mem_places, hp.notMem_free h⟩

end Kernel

/-- Nothing has moved between the places. -/
def SamePlaces (k k' : Kernel) : Prop := k'.places.Perm k.places

namespace SamePlaces

variable {k k' k'' : Kernel} {t : Ptr}

theorem of_eq (hr : k'.readyQueue = k.readyQueue) (hw : k'.waitQueue = k.waitQueue)
    (hf : k'.tcbFree = k.tcbFree) (hc : k'.currentThread = k.currentThread) :
    SamePlaces k k' := by
  simp [SamePlaces, Kernel.places, Kernel.running, hr, hw, hf, hc]

theorem quiet (h : Quiet k k') : SamePlaces k k' :=
  of_eq h.readyQueue h.waitQueue h.tcbFree h.currentThread

theorem of_count (h : ∀ q, k'.readyQueue.count q + k'.waitQueue.count q + k'.tcbFree.count q +
    k'.running.count q = k.readyQueue.count q + k.waitQueue.count q + k.tcbFree.count q +
    k.running.count q) : SamePlaces k k' := by
  simp only [SamePlaces, Kernel.places, List.perm_iff_count, List.count_append]
  exact h

/-- A thread goes from the wait queue to the ready queue. -/
theorem wake (ht : t ∈ k.waitQueue) (hr : k'.readyQueue = k.readyQueue ++ [t])
    (hw : k'.waitQueue = k.waitQueue.erase t) (hf : k'.tcbFree = k.tcbFree)
    (hc : k'.currentThread = k.currentThread) : SamePlaces k k' := by
  have hpos := List.count_pos_iff.mpr ht
  apply of_count
  intro q
  simp only [hr, hw, hf, Kernel.running_eq hc, List.count_append, List.count_erase,
    List.count_singleton, beq_iff_eq]
  split
  · subst t
    omega
  · omega

/-- The current thread goes to the end of a queue. -/
theorem suspend (hcur : k.currentThread ≠ null)
    (hq : k'.readyQueue = k.readyQueue ++ [k.currentThread] ∧ k'.waitQueue = k.waitQueue ∨
      k'.readyQueue = k.readyQueue ∧ k'.waitQueue = k.waitQueue ++ [k.currentThread])
    (hf : k'.tcbFree = k.tcbFree) (hc : k'.currentThread = null) : SamePlaces k k' := by
  apply of_count
  intro q
  have hrun : k'.running = [] := by simp [Kernel.running, hc]
  have hrun' : k.running = [k.currentThread] := by simp [Kernel.running, hcur]
  rcases hq with ⟨hr, hw⟩ | ⟨hr, hw⟩ <;>
    simp only [hr, hw, hf, hrun, hrun', List.count_append, List.count_nil] <;> omega

theorem enqueue {id : Ptr} {v : U32} (h : k.enqueue id t v = .ok k') : SamePlaces k k' := by
  obtain ⟨a, free, -, rfl⟩ := Kernel.enqueue_cases h
  exact of_eq rfl rfl rfl rfl

theorem send {s : Ptr} {v r : U32} (h : k.send s t v = .ok (r, k')) : SamePlaces k k' := by
  rcases Kernel.send_cases h with ⟨-, -, he⟩ | ⟨-, -, -, hw, -, -, -, rfl⟩ |
    ⟨-, -, -, -, -, -, he⟩ | ⟨-, -, -, rfl⟩
  · exact enqueue he
  · exact wake hw rfl rfl rfl rfl
  · exact enqueue he
  · exact List.Perm.refl _

theorem recv {w a r : Ptr} (hcur : k.currentThread ≠ null)
    (h : k.recv k.currentThread w a = .ok (r, k')) : SamePlaces k k' := by
  rcases Kernel.recv_cases h with ⟨-, -, rfl⟩ | ⟨m, rest, -, -, -, rfl⟩
  · exact suspend hcur (.inr ⟨rfl, rfl⟩) rfl rfl
  · exact of_eq rfl rfl rfl rfl

/-- A reaped thread goes to the free list, from wherever it was. -/
theorem reap (hp : Placed k) (ht : t ≠ null) (h : k.reap t = .ok k') : SamePlaces k k' := by
  apply of_count
  intro q
  rcases Kernel.reap_cases h with ⟨hc, rfl⟩ | ⟨hc, -, hr, hw, rfl⟩
  · by_cases hcur : k.currentThread = t
    · subst t
      have hr := (hp.current_notMem ht).1
      simp only [Kernel.freed, List.erase_of_not_mem hr, Kernel.running, ht, if_true, if_false,
        List.count_append, List.count_nil]
      omega
    · have hpos := List.count_pos_iff.mpr (hc.resolve_right hcur).1
      simp only [Kernel.freed, Kernel.running, hcur, if_false, List.count_append,
        List.count_erase, List.count_singleton, beq_iff_eq]
      split
      · subst t
        omega
      · omega
  · have hpos := List.count_pos_iff.mpr hw
    change k.readyQueue.count q + (k.waitQueue.erase t).count q + (k.tcbFree ++ [t]).count q +
      k.running.count q = _
    simp only [List.count_append, List.count_erase, List.count_singleton, beq_iff_eq]
    split
    · subst t
      omega
    · omega

end SamePlaces

/-- Running a thread of the ready queue, or giving up the processor to a queue, moves one TCB. -/
theorem SamePlaces.dispatch {k : Kernel} {p : Ptr} {rest : List Ptr} (hp : Placed k)
    (hc : k.currentThread = null) (hr : k.readyQueue = p :: rest) :
    SamePlaces k { k with currentThread := p, readyQueue := rest } := by
  have hn : p ≠ null := hp.ne_null (Kernel.mem_places.mpr (.inl (by simp [hr])))
  apply of_count
  intro q
  simp only [hr, hc, Kernel.running, hn, if_true, if_false, List.count_cons, List.count_nil]
  omega

namespace SamePlaces

variable {k k' : Kernel} {t : Ptr}

theorem terminate (hk : Placed k) (ht : t ≠ null) (h : k.terminate t = .ok k') :
    SamePlaces k k' := by
  obtain ⟨k₁, h₁, h₂⟩ := Kernel.terminate_cases (R := fun k k' => Placed k → SamePlaces k k')
    (fun _ _ => List.Perm.refl _) (fun _ _ _ h h' hk => (h' (hk.of_perm (h hk))).trans (h hk))
    (fun _ _ _ => List.Perm.refl _) (fun _ _ _ ht hr hk => reap hk ht hr) h
  exact (reap (hk.of_perm (h₁ hk)) ht h₂).trans (h₁ hk)

/-- Only an allocation and a publication change the set of placed TCBs. -/
theorem step {o : Op} (h : OpStep k o k') (hk : Placed k) (ha : ∀ p, o ≠ .alloc p)
    (hp : ∀ p, o ≠ .publish p) : SamePlaces k k' := by
  cases h with
  | quiet hq => exact quiet hq
  | send hs => exact send hs
  | recv hc hr => exact recv hc hr
  | freeze hc _ => exact suspend hc (.inr ⟨rfl, rfl⟩) rfl rfl
  | terminate ht h => exact terminate hk ht h
  | resume hr =>
    obtain ⟨hw, -, rfl⟩ := Kernel.continueTrapped_cases hr
    exact wake hw rfl rfl rfl rfl
  | dispatch hc hr => exact dispatch hk hc hr
  | preempt hc => exact suspend hc (.inl ⟨rfl, rfl⟩) rfl rfl
  | alloc => exact absurd rfl (ha _)
  | publish => exact absurd rfl (hp _)
  | request | insertChild _ | insertSibling _ | countThread => exact List.Perm.refl _

end SamePlaces

namespace Placed

variable {k k' : Kernel} {t : Ptr} {o : Op}

/-- Every operation keeps the TCBs in their places. -/
theorem step (h : OpStep k o k') (hk : Placed k) : Placed k' := by
  by_cases ho : (∃ p, o = .alloc p) ∨ ∃ p, o = .publish p
  · rcases ho with ⟨p, rfl⟩ | ⟨p, rfl⟩
    · cases h with
      | alloc ha hp =>
        obtain ⟨free, hf, rfl⟩ := Kernel.allocTcb_cases ha hp
        have hsub : List.Sublist (k.readyQueue ++ k.waitQueue ++ free ++ k.running) k.places := by
          simp only [Kernel.places, hf]
          exact ((List.Sublist.refl _).append (List.sublist_cons_self p free)).append
            (List.Sublist.refl _)
        exact ⟨hk.nodup.sublist hsub, fun q hq => hk.sub q (hsub.subset hq)⟩
    · cases h with
      | publish hp hn =>
        have hperm : List.Perm (k.readyQueue ++ [p] ++ k.waitQueue ++ k.tcbFree ++ k.running)
            (p :: k.places) := by
          simp only [Kernel.places, List.append_assoc]
          exact List.perm_middle
        refine ⟨hperm.nodup_iff.mpr (List.nodup_cons.mpr ⟨hn, hk.nodup⟩), fun q hq => ?_⟩
        rcases List.mem_cons.mp (hperm.mem_iff.mp hq) with rfl | hq
        · exact hp
        · exact hk.sub q hq
  · simp only [not_or, not_exists] at ho
    exact hk.of_perm (SamePlaces.step h hk ho.1 ho.2)

theorem ops {P : Op → Prop} (h : Ops P k k') (hk : Placed k) : Placed k' :=
  h.inv (fun _ _ _ hs _ hk => step hs hk) hk

end Placed

/-- A live thread stays live when only places change hands and nobody is freed. -/
theorem Kernel.Live.of_same {k k' : Kernel} {p : Ptr} (hk : Placed k) (h : SamePlaces k k')
    (hf : k'.tcbFree = k.tcbFree)
    (hp : k.Live p) : k'.Live p := by
  rcases Kernel.mem_places.mp (h.mem_iff.mpr hp.mem_places) with hm | hm | hm | hm
  · exact .inl hm
  · exact .inr (.inl hm)
  · exact absurd (hf ▸ hm) (hp.notMem_free hk)
  · exact .inr (.inr (mem_running.mpr hm))

/-- Without allocations and publications a sequence of operations only moves TCBs around. -/
theorem Ops.samePlaces {P : Op → Prop} {k k' : Kernel} (h : Ops P k k') (hk : Placed k)
    (ha : ∀ p, ¬ P (.alloc p)) (hp : ∀ p, ¬ P (.publish p)) : SamePlaces k k' := by
  obtain ⟨ls, hl⟩ := h
  induction hl with
  | refl => exact List.Perm.refl _
  | stepL hs _ ih =>
    have hsame := SamePlaces.step hs.1 hk (fun p he => ha p (he ▸ hs.2))
      (fun p he => hp p (he ▸ hs.2))
    exact (ih (hk.of_perm hsame)).trans hsame

end AmiKaya
