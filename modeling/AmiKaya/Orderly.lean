import AmiKaya.Failures
import AmiKaya.SoftBlock
import AmiKaya.Subtree

/-! Every TCB in one place, counted, and on the list of its parent: what keeps this order. -/
namespace AmiKaya

/-- TCBs may have moved between the queues and the processor. The tree and the free list are the
same. -/
structure Still (k k' : Kernel) : Prop where
  places : SamePlaces k k'
  tcbFree : k'.tcbFree = k.tcbFree
  threadCount : k'.threadCount = k.threadCount
  links : k'.links = k.links
  tParent : ∀ p, (k'.tcb p).tParent = (k.tcb p).tParent

namespace Still

variable {k k' k'' : Kernel} {s t p : Ptr}

theorem refl (k : Kernel) : Still k k := ⟨List.Perm.refl _, rfl, rfl, rfl, fun _ => rfl⟩

theorem trans (h : Still k k') (h' : Still k' k'') : Still k k'' where
  places := h'.places.trans h.places
  tcbFree := h'.tcbFree.trans h.tcbFree
  threadCount := h'.threadCount.trans h.threadCount
  links := h'.links.trans h.links
  tParent p := (h'.tParent p).trans (h.tParent p)

theorem quiet (h : Quiet k k') : Still k k' :=
  ⟨.quiet h, h.tcbFree, h.threadCount, h.links, h.tParent⟩

/-- A TCB whose parent stays has been written to. -/
theorem of_put {x : Tcb} (ht : k'.tcb = put k.tcb p x) (hx : x.tParent = (k.tcb p).tParent)
    (hp : SamePlaces k k') (hf : k'.tcbFree = k.tcbFree) (hc : k'.threadCount = k.threadCount)
    (hl : k'.links = k.links) : Still k k' := by
  refine ⟨hp, hf, hc, hl, fun q => ?_⟩
  rw [ht]
  by_cases hq : q = p
  · subst hq
    rw [Links.put_same, hx]
  · rw [Links.put_ne hq]

theorem send {v r : U32} (h : k.send s t v = .ok (r, k')) : Still k k' := by
  have hp := SamePlaces.send h
  rcases Kernel.send_cases h with ⟨-, -, he⟩ | ⟨-, -, -, -, -, -, -, rfl⟩ | ⟨-, -, -, -, -, -, he⟩ |
    ⟨-, -, -, rfl⟩
  · obtain ⟨a, free, -, rfl⟩ := Kernel.enqueue_cases he
    exact of_put rfl rfl hp rfl rfl rfl
  · exact of_put rfl rfl hp rfl rfl rfl
  · obtain ⟨a, free, -, rfl⟩ := Kernel.enqueue_cases he
    exact of_put rfl rfl hp rfl rfl rfl
  · exact refl _

theorem recv {w a r : Ptr} (hc : k.currentThread ≠ null)
    (h : k.recv k.currentThread w a = .ok (r, k')) : Still k k' := by
  have hp := SamePlaces.recv hc h
  rcases Kernel.recv_cases h with ⟨-, -, rfl⟩ | ⟨m, rest, -, -, -, rfl⟩
  · exact of_put rfl rfl hp rfl rfl rfl
  · exact of_put rfl rfl hp rfl rfl rfl

theorem freeze (m : Ptr) (hc : k.currentThread ≠ null) : Still k (k.freeze m) :=
  of_put rfl rfl (.suspend hc (.inr ⟨rfl, rfl⟩) rfl rfl) rfl rfl rfl

theorem sendOrdinary {v : U32} (h : k.sendOrdinary s t v = .ok k') : Still k k' := by
  obtain ⟨r, k₁, h₁, rfl⟩ := Kernel.sendOrdinary_cases h
  exact (send h₁).trans (quiet (Quiet.setTcb fun _ => ⟨rfl, rfl, rfl, rfl⟩))

theorem sysRecvCase {old : State} (hc : k.currentThread ≠ null) (h : k.sysRecvCase old = .ok k') :
    Still k k' := by
  obtain ⟨⟨r, k₁⟩, h₁, h₂⟩ := bind_eq_ok.mp h
  cases h₂
  exact (recv hc h₁).trans (quiet (Quiet.setTcb fun _ => ⟨rfl, rfl, rfl, rfl⟩))

/-- The exception is sent to the manager. -/
theorem passUp {m : Ptr} {cause : U32} (hm : m ≠ null) (hc : k.currentThread ≠ null)
    (h : k.passUp m cause = .ok k') : Still k k' := by
  unfold Kernel.passUp at h
  rw [if_neg hm] at h
  obtain ⟨⟨r, k₁⟩, h₁, h₂⟩ := bind_eq_ok.mp h
  cases h₂
  have hcur : k₁.currentThread = k.currentThread := (Kernel.send_frame h₁).currentThread
  exact (send h₁).trans (freeze m (hcur ▸ hc))

theorem resume (h : k.continueTrapped t = .ok k') : Still k k' := by
  obtain ⟨hw, -, rfl⟩ := Kernel.continueTrapped_cases h
  exact ⟨.wake hw rfl rfl rfl rfl, rfl, rfl, rfl, fun _ => rfl⟩

theorem scheduler (hk : Placed k) (h : k.scheduler = .ok k') : Still k k' := by
  have hops := Kernel.scheduler_ops (x := .interrupt) (c := null) h
  have hs := Kernel.scheduler_scheduled hk h
  exact ⟨hops.samePlaces hk (by simp [Entry.Allows]) (by simp [Entry.Allows]), hs.tcbFree,
    hs.threadCount, hs.links, hs.tParent⟩

/-- The handler of interrupts moves threads and sends messages. -/
theorem intBody {old : State} (hk : Placed k) (h : k.intBody old = .ok k') : Still k k' := by
  have hops : Ops (Entry.interrupt.Allows null) k k' := Kernel.intBody_ops h
  refine (hops.inv (I := fun k' => Placed k' ∧ Still k k') (fun k₁ o k₂ hs ho hi => ?_)
    ⟨hk, refl k⟩).2
  refine ⟨hi.1.step hs, hi.2.trans ?_⟩
  cases hs with
  | quiet hq => exact quiet hq
  | send h => exact send h
  | dispatch hc hr =>
    exact ⟨.step (.dispatch hc hr) hi.1 (by simp) (by simp), rfl, rfl, rfl, fun _ => rfl⟩
  | preempt hc =>
    exact ⟨.step (.preempt hc) hi.1 (by simp) (by simp), rfl, rfl, rfl, fun _ => rfl⟩
  | request | recv | freeze | terminate | resume | alloc | insertChild | insertSibling | countThread
  | publish => simp [Entry.Allows] at ho

end Still

namespace Kernel

variable {k k' : Kernel} {s t p : Ptr}

/-- Every TCB is in one place, `thread_count` is right, and a list of children holds live threads
with the owner of the list as parent, without a cycle. -/
structure Orderly (k : Kernel) : Prop where
  places : k.places.Perm threadArray
  threadCount : k.threadCount = BitVec.ofNat 32 (threadArray.countP fun p => p ∉ k.tcbFree)
  children : ∃ rank : Ptr → Nat, ∀ p, k.Allocated p → ∃ l, k.ChildList p l ∧
    ∀ c ∈ l, k.Live c ∧ (k.tcb c).tParent = p ∧ rank p < rank c

/-- A thread with a parent is on the list of its parent, which is a thread. -/
def Linked (k : Kernel) : Prop :=
  ∀ c, k.Allocated c → (k.tcb c).tParent ≠ null → k.Allocated (k.tcb c).tParent ∧
    ∀ l, k.ChildList (k.tcb c).tParent l → c ∈ l

theorem Orderly.placed (h : k.Orderly) : Placed k :=
  ⟨h.places.nodup_iff.mpr threadArray_nodup, fun _ hp => h.places.mem_iff.mp hp⟩

theorem Orderly.live_iff (h : k.Orderly) : k.Live p ↔ k.Allocated p := by
  refine ⟨fun hp => hp.allocated h.placed, fun hp => ?_⟩
  rcases mem_places.mp (h.places.mem_iff.mpr hp.1) with hq | hq | hq | hq
  · exact .inl hq
  · exact .inr (.inl hq)
  · exact absurd hq hp.2
  · exact .inr (.inr (mem_running.mpr hq))

/-- No thread is its own ancestor. -/
def Acyclic (k : Kernel) : Prop :=
  ∃ rank : Ptr → Nat, ∀ c, k.Allocated c → (k.tcb c).tParent ≠ null →
    rank (k.tcb c).tParent < rank c

/-- With the threads on the lists of their parents the lists say the same as the parents. -/
theorem Orderly.family (h : k.Orderly) (hl : k.Linked) : k.Family [] ∧ k.Acyclic := by
  obtain ⟨rank, hc⟩ := h.children
  refine ⟨⟨by simp, fun c ha hn => (hl c ha hn).1, fun p hp => ?_⟩, rank, fun c ha hn => ?_⟩
  · obtain ⟨l, hring, hmem⟩ := hc p hp
    refine ⟨l, hring, fun c => ⟨fun hm => ?_, fun hm => ?_⟩⟩
    · exact ⟨h.live_iff.mp (hmem c hm).1, (hmem c hm).2.1⟩
    · obtain ⟨hca, rfl⟩ := hm
      exact (hl c hca hp.ne_null).2 l hring
  · obtain ⟨hp, hm⟩ := hl c ha hn
    obtain ⟨l, hring, hmem⟩ := hc _ hp
    exact (hmem c (hm l hring)).2.2

theorem orderly_of_family (hp : k.places.Perm threadArray)
    (hc : k.threadCount = BitVec.ofNat 32 (threadArray.countP fun p => p ∉ k.tcbFree))
    (hf : k.Family []) (ha : k.Acyclic) : k.Orderly ∧ k.Linked := by
  obtain ⟨rank, hrank⟩ := ha
  have hchild : ∀ p, k.Allocated p → ∃ l, k.ChildList p l ∧ ∀ c,
      c ∈ l ↔ k.Allocated c ∧ (k.tcb c).tParent = p := hf.kids
  have hlive : ∀ p, k.Allocated p → k.Live p := by
    intro p ha
    rcases mem_places.mp (hp.mem_iff.mpr ha.1) with hq | hq | hq | hq
    · exact .inl hq
    · exact .inr (.inl hq)
    · exact absurd hq ha.2
    · exact .inr (.inr (mem_running.mpr hq))
  refine ⟨⟨hp, hc, rank, fun p hpa => ?_⟩, fun c hca hn => ⟨hf.parent c hca hn, fun l hl => ?_⟩⟩
  · obtain ⟨l, hring, hmem⟩ := hchild p hpa
    refine ⟨l, hring, fun c hm => ?_⟩
    obtain ⟨hca, rfl⟩ := (hmem c).mp hm
    exact ⟨hlive c hca, rfl, hrank c hca hpa.ne_null⟩
  · obtain ⟨l', hring, hmem⟩ := hchild _ (hf.parent c hca hn)
    have he : l = l' := List.map_injective_iff.mpr (fun _ _ he => tSib_inj.mp he)
      (Links.Heap.Ring.unique hl hring)
    rw [he, hmem]
    exact ⟨hca, rfl⟩

/-- Moving threads around keeps all this. -/
theorem Orderly.still (h : k.Orderly) (hl : k.Linked) (hs : Still k k') :
    k'.Orderly ∧ k'.Linked := by
  obtain ⟨hf, rank, hr⟩ := h.family hl
  refine orderly_of_family (hs.places.trans h.places) ?_
    (hf.congr hs.links hs.tParent fun p => by rw [hs.tcbFree]) ⟨rank, fun c hc hn => ?_⟩
  · rw [hs.threadCount, hs.tcbFree]
    exact h.threadCount
  · rw [hs.tParent] at hn ⊢
    exact hr c ⟨hc.1, hs.tcbFree ▸ hc.2⟩ hn

/-- Freeing threads lowers the count by their number. -/
theorem free_count {es : List Ptr} (hk : Placed k) (hk' : Placed k') (h : Reaped k es k') :
    threadArray.countP (fun p => p ∉ k'.tcbFree) + es.length =
      threadArray.countP fun p => p ∉ k.tcbFree := by
  have hsub : es ⊆ threadArray := fun p hp => hk.sub p (h.live p hp).mem_places
  have hes : es.countP (fun p => p ∉ k.tcbFree) = es.length := by
    rw [List.countP_eq_length]
    intro p hp
    simpa using (h.live p hp).notMem_free hk
  have hsplit : threadArray.countP (fun p => decide (p ∉ k.tcbFree) && decide (p ∉ es)) +
      es.countP (fun p => p ∉ k.tcbFree) = threadArray.countP fun p => p ∉ k.tcbFree :=
    countP_and_notMem threadArray_nodup (h.nodup hk') hsub
  have hleft : threadArray.countP (fun p => decide (p ∉ k'.tcbFree)) =
      threadArray.countP fun p => decide (p ∉ k.tcbFree) && decide (p ∉ es) := by
    apply List.countP_congr
    intro p _
    simp [h.tcbFree]
  omega

/-- `terminate` keeps the rest of the threads in order, and it ends. -/
theorem Orderly.terminate (h : k.Orderly) (hl : k.Linked) (ht : k.Live t) :
    ∃ k', k.terminate t = .ok k' ∧ k'.Orderly ∧ k'.Linked := by
  obtain ⟨hf, rank, hr⟩ := h.family hl
  have ha := h.live_iff.mp ht
  have hout := terminate_spec family_prunes h.placed (hf.outChild ha) ha (by simp)
  obtain ⟨k', hok⟩ := hout.ok fun p hb => h.live_iff.mpr (hb.allocated ha)
  rw [hok] at hout
  obtain ⟨hk', hf', es, -, hcut⟩ := hout
  have hcount := free_count h.placed hk' hcut.toReaped
  refine ⟨k', hok, orderly_of_family ?_ ?_ hf' ⟨rank, fun c hc hn => ?_⟩⟩
  · exact (SamePlaces.terminate h.placed ha.ne_null hok).trans h.places
  · have hthread := hcut.threadCount
    rw [h.threadCount, ← hcount, BitVec.ofNat_add] at hthread
    exact BitVec.add_left_inj _ |>.mp hthread
  · obtain ⟨hca, hce⟩ := hcut.toReaped.allocated.mp hc
    rw [hcut.tParent c hce] at hn ⊢
    exact hr c hca hn

theorem sendEnter_still (old : State) : Still k (k.sendEnter old) := by
  have hs := Still.quiet (sysbpEnter_quiet (k := k) old)
  unfold sendEnter
  split
  · exact ⟨hs.places, hs.tcbFree, hs.threadCount, hs.links, hs.tParent⟩
  · exact hs

/-- Two threads without a parent: the first one runs, the second one is ready. -/
def twoThreads : Kernel :=
  { zeroed with
    tcb := fun _ => freshTcb
    links := ⟨id, id⟩
    tcbFree := threadArray.drop 2
    msgFree := msgArray
    readyQueue := [testThreadAddr]
    threadCount := 2
    currentThread := threadArrayAddr
    ssiTcb := threadArrayAddr
    testTcb := testThreadAddr }

theorem twoThreads_orderly {k : Kernel} (hp : k.places.Perm threadArray)
    (hf : k.tcbFree = threadArray.drop 2) (hc : k.threadCount = 2)
    (hl : ∀ p ∈ [threadArrayAddr, testThreadAddr],
      k.links.next (tChild p) = tChild p ∧ k.links.prev (tChild p) = tChild p) : k.Orderly := by
  refine ⟨hp, ?_, fun _ => 0, fun p ha => ⟨[], ?_, by simp⟩⟩
  · rw [hc, hf]
    decide
  · have hmem : p ∈ [threadArrayAddr, testThreadAddr] := by
      have hm := ha.1
      rw [threadArray_eq, ← hf] at hm
      have hn := ha.2
      simp only [List.mem_cons] at hm ⊢
      tauto
    exact ⟨by simp, hl p hmem⟩

end Kernel

end AmiKaya
