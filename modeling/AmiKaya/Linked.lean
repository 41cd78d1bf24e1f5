import AmiKaya.Code
import AmiKaya.Pool

/-! Which lists the kernel of the model has, and that each list operation does to them what the
model does. -/
namespace AmiKaya
open Client Links

/-- The heads of the kernel's queues. -/
inductive ListHead
  | ready
  | wait
  | tcbFree
  | msgFree
  | inbox (p : Ptr)
deriving DecidableEq

namespace ListHead

def addr : ListHead → Ptr
  | .ready => readyQueueAddr
  | .wait => waitQueueAddr
  | .tcbFree => tcbfreeSentinel
  | .msgFree => msgfreeSentinel
  | .inbox p => tInboxHead p

/-- An inbox is made with its TCB. -/
def Made (known : List Ptr) : ListHead → Prop
  | .inbox p => p ∈ known
  | _ => True

/-- The nodes that a queue may have. -/
def items : ListHead → List Ptr
  | .ready | .wait | .tcbFree => threadArray
  | .msgFree | .inbox _ => msgArray

end ListHead

def Kernel.list (k : Kernel) : ListHead → List Ptr
  | .ready => k.readyQueue
  | .wait => k.waitQueue
  | .tcbFree => k.tcbFree
  | .msgFree => k.msgFree
  | .inbox p => k.inboxBuffers p

/-- The lists are those of the kernel. -/
structure Lists.Shows (s : Lists) (k : Kernel) : Prop where
  lists : ∀ q : ListHead, q.Made s.known → s.queues.queue q.addr = some (k.list q)
  only : ∀ a l, s.queues.queue a = some l → ∃ q : ListHead, q.Made s.known ∧ a = q.addr
  items : ∀ q : ListHead, q.Made s.known → ∀ n ∈ k.list q, n ∈ q.items
  msg : ∀ p ∈ s.known, ∀ x ∈ (k.tcb p).tInbox, s.queues.msg x.addr = x
  tree : s.tree = k.links
  closed : s.tree.Closed s.TreeNode
  known : ∀ p ∈ s.known, p ∈ threadArray
  allocated : ∀ p, k.Allocated p → p ∈ s.known
  parents : ∀ p ∈ s.known, (k.tcb p).tParent = null ∨ (k.tcb p).tParent ∈ s.known

def Lists.set (s : Lists) (a : Ptr) (l : List Ptr) : Lists := { s with queues := s.queues.set a l }

theorem ListHead.isHead {known : List Ptr} (hk : ∀ p ∈ known, p ∈ threadArray) {q : ListHead}
    (hq : q.Made known) : IsHead q.addr := by
  cases q with
  | inbox p => exact .inr ⟨p, hk p hq, rfl⟩
  | ready | wait | tcbFree | msgFree => exact .inl (by simp [addr])

theorem ListHead.isItem {q : ListHead} {n : Ptr} (h : n ∈ q.items) : IsItem n := by
  cases q with
  | ready | wait | tcbFree => exact .inl h
  | msgFree | inbox p => exact .inr h

/-- Different heads are at different addresses. -/
theorem ListHead.addr_inj {known : List Ptr} (hk : ∀ p ∈ known, p ∈ threadArray) {q q' : ListHead}
    (hq : q.Made known) (hq' : q'.Made known) (h : q.addr = q'.addr) : q = q' := by
  have hglobal : ∀ p ∈ known, tInboxHead p ∉
      [msgfreeSentinel, tcbfreeSentinel, waitQueueAddr, readyQueueAddr] := by
    intro p hp hm
    have hbound := threadArray_toNat (hk p hp)
    have haddr := tInboxHead_toNat (hk p hp)
    have hlow : (tInboxHead p).toNat < 0x2000B1B0 := by
      simp only [List.mem_cons, List.not_mem_nil, or_false] at hm
      rcases hm with h | h | h | h <;> rw [h] <;> decide
    omega
  have hne : [msgfreeSentinel, tcbfreeSentinel, waitQueueAddr, readyQueueAddr].Nodup := by decide
  simp only [List.nodup_cons, List.mem_cons, List.not_mem_nil, not_or, or_false] at hne hglobal
  cases q <;> cases q' <;> simp only [addr, Made] at h hq hq' ⊢
  case inbox.inbox p p' => rw [tInboxHead_inj.mp h]
  all_goals
    first
    | exact absurd h (by simp [hne])
    | exact absurd h.symm (by simp [hne])
    | exact absurd h (by simp [hglobal _ hq])
    | exact absurd h.symm (by simp [hglobal _ hq'])

namespace Lists.Shows

variable {s : Lists} {k k' : Kernel} {q : ListHead} {p n : Ptr} {l : List Ptr}

theorem typed (hs : s.Shows k) : s.Typed := by
  refine ⟨?_, hs.known⟩
  intro a l ha
  obtain ⟨q, hq, rfl⟩ := hs.only a l ha
  rw [hs.lists q hq] at ha
  cases ha
  exact ⟨ListHead.isHead hs.known hq, fun n hn => ListHead.isItem (hs.items q hq n hn)⟩

/-- A node that is in no list of the kernel can be inserted. -/
theorem loose (hs : s.Shows k) (hn : IsItem n) (h : ∀ q : ListHead, q.Made s.known → n ∉ k.list q) :
    Loose s.queues.queue n := by
  intro a l ha hm
  obtain ⟨q, hq, rfl⟩ := hs.only a l ha
  rw [hs.lists q hq] at ha
  cases ha
  rcases List.mem_cons.mp hm with he | hm
  · exact (ListHead.isHead hs.known hq).ne_item hn he.symm
  · exact h q hq hm

theorem loose_thread (hs : s.Shows k) (hp : p ∈ threadArray) (hr : p ∉ k.readyQueue)
    (hw : p ∉ k.waitQueue) (hf : p ∉ k.tcbFree) : Loose s.queues.queue p := by
  refine hs.loose (.inl hp) fun q hq hm => ?_
  cases q with
  | ready => exact hr hm
  | wait => exact hw hm
  | tcbFree => exact hf hm
  | msgFree | inbox _ => exact thread_notMem_msgArray hp (hs.items _ hq _ hm)

theorem loose_msg (hs : s.Shows k) (hn : n ∈ msgArray) (hf : n ∉ k.msgFree)
    (hi : ∀ p ∈ s.known, n ∉ k.inboxBuffers p) : Loose s.queues.queue n := by
  refine hs.loose (.inr hn) fun q hq hm => ?_
  cases q with
  | msgFree => exact hf hm
  | inbox p => exact hi p hq hm
  | ready | wait | tcbFree => exact thread_notMem_msgArray (hs.items _ hq _ hm) hn

theorem made (hs : s.Shows k) (hq : q.Made s.known) : s.queues.Made q.addr := by
  rw [Queues.Made, hs.lists q hq]
  rfl

theorem list_eq (hs : s.Shows k) (hq : q.Made s.known) : s.queues.list q.addr = k.list q :=
  Queues.list_eq (hs.lists q hq)

/-- One list has changed, and nothing else that the lists show. -/
theorem set (hs : s.Shows k) (hq : q.Made s.known) (hl : k'.list q = l) (hi : ∀ n ∈ l, n ∈ q.items)
    (ho : ∀ q' : ListHead, q' ≠ q → k'.list q' = k.list q')
    (hm : ∀ p ∈ s.known, ∀ x ∈ (k'.tcb p).tInbox, s.queues.msg x.addr = x)
    (ht : k'.links = k.links) (hp : ∀ p, (k'.tcb p).tParent = (k.tcb p).tParent)
    (ha : ∀ p, k'.Allocated p → k.Allocated p) :
    (s.set q.addr l).Shows k' := by
  have hget : ∀ q' : ListHead, q'.Made s.known →
      (s.queues.set q.addr l).queue q'.addr = some (k'.list q') := by
    intro q' hq'
    by_cases he : q' = q
    · subst he
      rw [Queues.set_queue_same, hl]
    · have hne : q'.addr ≠ q.addr := fun h => he (ListHead.addr_inj hs.known hq' hq h)
      rw [Queues.set_queue_ne hne, hs.lists q' hq', ho q' he]
  constructor
  case lists => exact hget
  case only =>
    intro a l' h
    by_cases he : a = q.addr
    · exact ⟨q, hq, he⟩
    · exact hs.only a l' ((Queues.set_queue_ne he).symm.trans h)
  case items =>
    intro q' hq' n hn
    by_cases he : q' = q
    · subst he
      exact hi n (hl ▸ hn)
    · exact hs.items q' hq' n (ho q' he ▸ hn)
  case msg => exact hm
  case tree => exact hs.tree.trans ht.symm
  case closed => exact hs.closed
  case known => exact hs.known
  case allocated => exact fun p h => hs.allocated p (ha p h)
  case parents =>
    intro p hk
    rw [hp]
    exact hs.parents p hk

/-- Nothing has changed that the lists show. -/
theorem congr (hs : s.Shows k) (hl : ∀ q, k'.list q = k.list q)
    (hi : ∀ p, (k'.tcb p).tInbox = (k.tcb p).tInbox) (ht : k'.links = k.links)
    (hp : ∀ p, (k'.tcb p).tParent = (k.tcb p).tParent) (hf : k'.tcbFree = k.tcbFree) :
    s.Shows k' := by
  constructor
  case lists => exact fun q hq => hl q ▸ hs.lists q hq
  case only => exact hs.only
  case items => exact fun q hq n hn => hs.items q hq n (hl q ▸ hn)
  case msg => exact fun p hp x hx => hs.msg p hp x (hi p ▸ hx)
  case tree => exact hs.tree.trans ht.symm
  case closed => exact hs.closed
  case known => exact hs.known
  case allocated => exact fun p h => hs.allocated p ⟨h.1, hf ▸ h.2⟩
  case parents => exact fun p hk => (hp p).symm ▸ hs.parents p hk

theorem quiet (hs : s.Shows k) (h : Quiet k k') : s.Shows k' := by
  refine hs.congr (fun q => ?_) h.tInbox h.links h.tParent h.tcbFree
  cases q with
  | ready => exact h.readyQueue
  | wait => exact h.waitQueue
  | tcbFree => exact h.tcbFree
  | msgFree => exact h.msgFree
  | inbox p => exact congrArg (List.map Msg.addr) (h.tInbox p)

theorem setTcb {f : Tcb → Tcb} (hs : s.Shows k)
    (hf : ∀ t : Tcb, (f t).tInbox = t.tInbox ∧ (f t).tParent = t.tParent) :
    s.Shows (k.setTcb p f) := by
  have htcb : ∀ q, (k.setTcb p f).tcb q = k.tcb q ∨ (k.setTcb p f).tcb q = f (k.tcb q) := by
    intro q
    by_cases hq : q = p
    · subst hq
      exact .inr (by simp [Kernel.setTcb])
    · exact .inl (by simp [Kernel.setTcb, hq])
  have hbox : ∀ q, ((k.setTcb p f).tcb q).tInbox = (k.tcb q).tInbox := by
    intro q
    rcases htcb q with h | h <;> rw [h]
    exact (hf _).1
  refine hs.congr (fun q => ?_) hbox rfl (fun q => ?_) rfl
  · cases q with
    | inbox p' => exact congrArg (List.map Msg.addr) (hbox p')
    | ready | wait | tcbFree | msgFree => rfl
  · rcases htcb q with h | h <;> rw [h]
    exact (hf _).2

/-- Only variables without lists have changed. -/
theorem keep (hs : s.Shows k) (ht : k'.tcb = k.tcb) (hl : k'.links = k.links)
    (hr : k'.readyQueue = k.readyQueue) (hw : k'.waitQueue = k.waitQueue)
    (hf : k'.tcbFree = k.tcbFree) (hm : k'.msgFree = k.msgFree) : s.Shows k' := by
  refine hs.congr (fun q => ?_) (fun p => ht ▸ rfl) hl (fun p => ht ▸ rfl) hf
  cases q with
  | ready => exact hr
  | wait => exact hw
  | tcbFree => exact hf
  | msgFree => exact hm
  | inbox p => exact congrArg (fun g : Ptr → Tcb => (g p).tInbox.map Msg.addr) ht

/-- The fields of a buffer change that is in no inbox. -/
theorem fill {m : Ptr} (hs : s.Shows k) (sender : Ptr) (message : U32)
    (hm : ∀ p ∈ s.known, m ∉ k.inboxBuffers p) :
    Lists.Shows { s with queues := s.queues.fill m sender message } k := by
  refine ⟨hs.lists, hs.only, hs.items, ?_, hs.tree, hs.closed, hs.known, hs.allocated, hs.parents⟩
  intro p hp x hx
  have hne : x.addr ≠ m := by
    rintro rfl
    exact hm p hp (List.mem_map_of_mem hx)
  simp only [Queues.msg, Queues.fill, put_ne hne]
  exact hs.msg p hp x hx

/-- The messages of an inbox are read back from its buffers. -/
theorem inbox_eq (hs : s.Shows k) (hp : p ∈ s.known) :
    s.queues.inbox (tInboxHead p) = (k.tcb p).tInbox := by
  have hl : s.queues.list (tInboxHead p) = k.inboxBuffers p := hs.list_eq (q := .inbox p) hp
  rw [Queues.inbox, hl, Kernel.inboxBuffers, List.map_map]
  exact (List.map_congr_left (hs.msg p hp)).trans (List.map_id _)

end Lists.Shows

end AmiKaya
