import AmiKaya.Client
import AmiKaya.Queues
import AmiKaya.Regions
import AmiKaya.Tree

/-! All the lists of the kernel in one heap of nodes: the queues, whose nodes are the TCBs and the
messages, and the lists of children, which are linked through other nodes of the TCBs. -/
namespace AmiKaya
open Client Links

/-! Link-time addresses of the list heads that are global variables (`kernel.stab.umps`). -/
def msgfreeSentinel : Ptr := 0x2000B160
def tcbfreeSentinel : Ptr := 0x2000B168
def waitQueueAddr : Ptr := 0x2000B170
def readyQueueAddr : Ptr := 0x2000B180

def sentinels : Sentinels := ⟨tcbfreeSentinel, msgfreeSentinel⟩

/-- What the kernel does with list nodes: a queue operation, a load from a message, the three list
operations of the tree. `firstChild` is NULL for an empty list. -/
inductive ListOp
  | queue (op : QueueOp)
  | mSender (m : Ptr)
  | mMessage (m : Ptr)
  | addSib (new head : Ptr)
  | delSib (p : Ptr)
  | firstChild (parent : Ptr)

namespace NodeHeap

/-- The result of an operation and the heap after it, if its loop ends within the bound. -/
def call (fuel : Nat) (h : NodeHeap) : ListOp → Option (U32 × NodeHeap)
  | .queue op => h.exec sentinels fuel op
  | .mSender m => some (h.mSender m, h)
  | .mMessage m => some (h.mMessage m, h)
  | .addSib new head => some (null, h.setLinks (h.links.addTail (tSib new) head))
  | .delSib p => some (null, h.setLinks (h.links.del (tSib p)))
  | .firstChild parent =>
    some (if h.links.isEmpty (tChild parent) then null
      else sibContainer (h.links.next (tChild parent)), h)

end NodeHeap

/-- The queues as lists, the links of the tree apart from them, and the TCBs whose list heads have
been initialised, which is when they are first allocated. -/
structure Lists where
  queues : Queues
  tree : Links.Heap Ptr
  known : List Ptr

/-- The head is no queue any more. -/
def Queues.forget (s : Queues) (a : Ptr) : Queues := { s with queue := put s.queue a none }

namespace Lists

/-- `allocTcb` makes an inbox, and two nodes of the tree. -/
def allocTcb (s : Lists) : U32 × Lists :=
  match s.queues.list tcbfreeSentinel with
  | [] => (null, s)
  | p :: _ =>
    (p, { queues := ((s.queues.apply sentinels .allocTcb).2.forget (tChild p)).forget (tSib p)
          tree := (s.tree.init (tChild p)).init (tSib p)
          known := p :: s.known })

def call (s : Lists) : ListOp → U32 × Lists
  | .queue .allocTcb => s.allocTcb
  | .queue op =>
    ((s.queues.apply sentinels op).1, { s with queues := (s.queues.apply sentinels op).2 })
  | .mSender m => (s.queues.mSender m, s)
  | .mMessage m => (s.queues.mMessage m, s)
  | .addSib new head => (null, { s with tree := s.tree.addTail (tSib new) head })
  | .delSib p => (null, { s with tree := s.tree.del (tSib p) })
  | .firstChild parent =>
    (if s.tree.isEmpty (tChild parent) then null else sibContainer (s.tree.next (tChild parent)), s)

/-- A node of the tree. -/
def TreeNode (s : Lists) (x : Ptr) : Prop := ∃ p ∈ s.known, x = tChild p ∨ x = tSib p

end Lists

/-- The heads of queues, by their addresses. -/
def IsHead (a : Ptr) : Prop :=
  a ∈ [msgfreeSentinel, tcbfreeSentinel, waitQueueAddr, readyQueueAddr] ∨
    ∃ p ∈ threadArray, a = tInboxHead p

/-- The nodes linked in queues. -/
def IsItem (a : Ptr) : Prop := a ∈ threadArray ∨ a ∈ msgArray

/-- The node that a call inserts is an item, the head that it makes is one. -/
def QueueOp.Typed : QueueOp → Prop
  | .mkEmptyThreadQ head | .mkEmptyMessageQ head => IsHead head
  | .insertThread _ p | .freeTcb p => p ∈ threadArray
  | .insertMessage _ m | .pushMessage _ m | .freeMsg m => m ∈ msgArray
  | _ => True

/-! No address is of two kinds. -/

theorem msgArray_toNat {m : Ptr} (h : m ∈ msgArray) :
    0x2000B1B0 ≤ m.toNat ∧ m.toNat < 0x2000B2F0 := by
  have hall : msgArray.all (fun m => 0x2000B1B0 ≤ m.toNat && m.toNat < 0x2000B2F0) = true := by
    decide
  simpa using List.all_eq_true.mp hall m h

/-- A field of a TCB. -/
theorem field_toNat {p : Ptr} (h : p ∈ threadArray) {d : Nat} (hd : d < 204) :
    (p + BitVec.ofNat 32 d).toNat = p.toNat + d := by
  have := threadArray_toNat h
  simp only [BitVec.toNat_add, BitVec.toNat_ofNat]
  omega

theorem tChild_toNat {p : Ptr} (h : p ∈ threadArray) : (tChild p).toNat = p.toNat + 12 :=
  field_toNat h (by decide)

theorem tSib_toNat {p : Ptr} (h : p ∈ threadArray) : (tSib p).toNat = p.toNat + 20 :=
  field_toNat h (by decide)

theorem tInboxHead_toNat {p : Ptr} (h : p ∈ threadArray) : (tInboxHead p).toNat = p.toNat + 168 :=
  field_toNat h (by decide)

theorem tInboxHead_inj {p q : Ptr} : tInboxHead p = tInboxHead q ↔ p = q := BitVec.add_left_inj _

theorem IsHead.cases {a : Ptr} (h : IsHead a) :
    a.toNat < 0x2000B1B0 ∨ 0x2000B2F0 ≤ a.toNat ∧ a.toNat % 204 = 108 := by
  rcases h with h | ⟨p, hp, rfl⟩
  · left
    simp only [List.mem_cons, List.not_mem_nil, or_false] at h
    rcases h with rfl | rfl | rfl | rfl <;> decide
  · right
    have := threadArray_toNat hp
    have := threadArray_mod hp
    rw [tInboxHead_toNat hp]
    omega

theorem IsItem.cases {a : Ptr} (h : IsItem a) :
    0x2000B1B0 ≤ a.toNat ∧ (a.toNat < 0x2000B2F0 ∨ a.toNat % 204 = 144) := by
  rcases h with h | h
  · have := threadArray_toNat h
    have := threadArray_mod h
    omega
  · have := msgArray_toNat h
    omega

theorem IsHead.ne_item {a n : Ptr} (ha : IsHead a) (hn : IsItem n) : a ≠ n := by
  rintro rfl
  have := ha.cases
  have := hn.cases
  omega

theorem thread_notMem_msgArray {p : Ptr} (h : p ∈ threadArray) : p ∉ msgArray := by
  intro hm
  have := threadArray_toNat h
  have := msgArray_toNat hm
  omega

namespace Lists

/-- The operation is about nodes that it may be about. -/
def Allowed (s : Lists) : ListOp → Prop
  | .queue .allocTcb => s.queues.Made tcbfreeSentinel ∧
      ∀ p ∈ (s.queues.list tcbfreeSentinel).head?, p ∈ threadArray
  | .queue op => s.queues.Allowed sentinels op ∧ op.Typed
  | .mSender _ | .mMessage _ => True
  | .addSib new head => s.TreeNode (tSib new) ∧ s.TreeNode head
  | .delSib p => s.TreeNode (tSib p)
  | .firstChild parent => s.TreeNode (tChild parent)

/-- Heads, items and nodes of the tree are what their addresses say. -/
structure Typed (s : Lists) : Prop where
  head : ∀ {a l}, s.queues.queue a = some l → IsHead a ∧ ∀ n ∈ l, IsItem n
  known : ∀ p ∈ s.known, p ∈ threadArray

variable {s : Lists} {a n p x : Ptr} {l : List Ptr}

theorem TreeNode.cases (ht : s.Typed) (h : s.TreeNode x) :
    0x2000B2F0 ≤ x.toNat ∧ (x.toNat % 204 = 156 ∨ x.toNat % 204 = 164) := by
  obtain ⟨p, hp, rfl | rfl⟩ := h
  · have hp := ht.known p hp
    have := threadArray_toNat hp
    have := threadArray_mod hp
    rw [tChild_toNat hp]
    omega
  · have hp := ht.known p hp
    have := threadArray_toNat hp
    have := threadArray_mod hp
    rw [tSib_toNat hp]
    omega

theorem TreeNode.ne_item (ht : s.Typed) (h : s.TreeNode x) (hn : IsItem n) : x ≠ n := by
  rintro rfl
  have := h.cases ht
  have := hn.cases
  omega

theorem TreeNode.ne_head (ht : s.Typed) (h : s.TreeNode x) (ha : IsHead a) : x ≠ a := by
  rintro rfl
  have := h.cases ht
  have := ha.cases
  omega

/-- The tree is linked through nodes of its own. -/
theorem TreeNode.loose (ht : s.Typed) (h : s.TreeNode x) : Loose s.queues.queue x := by
  intro a l ha hm
  obtain ⟨hhead, hitems⟩ := ht.head ha
  rcases List.mem_cons.mp hm with rfl | hm
  · exact h.ne_head ht hhead rfl
  · exact h.ne_item ht (hitems x hm) rfl

/-- A head is linked nowhere. -/
theorem Typed.unlinked (ht : s.Typed) (ha : IsHead a) : s.queues.Unlinked a := by
  intro b l hb hm
  exact ha.ne_item ((ht.head hb).2 a hm) rfl

theorem Typed.set {q : Queues} (ht : Typed { s with queues := q }) (ha : IsHead a)
    (hl : ∀ n ∈ l, IsItem n) : Typed { s with queues := q.set a l } := by
  refine ⟨?_, ht.known⟩
  intro b m hb
  by_cases hba : b = a
  · subst hba
    cases put_same.symm.trans hb
    exact ⟨ha, hl⟩
  · exact ht.head ((put_ne hba).symm.trans hb)

/-- A list that only loses nodes. -/
theorem Typed.shrink (ht : s.Typed) (ha : s.queues.Made a) (hl : ∀ n ∈ l, n ∈ s.queues.list a) :
    Typed { s with queues := s.queues.set a l } := by
  obtain ⟨l', hl'⟩ := ha.exists_list
  obtain ⟨hhead, hitems⟩ := ht.head hl'
  rw [Queues.list_eq hl'] at hl
  exact ht.set hhead fun n hn => hitems n (hl n hn)

/-- A list that gets one more item. -/
theorem Typed.insert (ht : s.Typed) (ha : s.queues.Made a) (hn : IsItem n)
    (hl : ∀ x ∈ l, x = n ∨ x ∈ s.queues.list a) : Typed { s with queues := s.queues.set a l } := by
  obtain ⟨l', hl'⟩ := ha.exists_list
  obtain ⟨hhead, hitems⟩ := ht.head hl'
  rw [Queues.list_eq hl'] at hl
  refine ht.set hhead ?_
  intro x hx
  rcases hl x hx with rfl | hx
  · exact hn
  · exact hitems x hx

/-- The queues after an allocation: the new TCB has left the free list, and has an inbox. -/
theorem allocTcb_queue {free : List Ptr} (hl : s.queues.list tcbfreeSentinel = p :: free) :
    s.allocTcb.2.queues.queue a =
      if a = tSib p ∨ a = tChild p then none
      else if a = tInboxHead p then some []
      else if a = tcbfreeSentinel then some free
      else s.queues.queue a := by
  simp only [allocTcb, hl, Queues.apply, sentinels, Queues.forget, Queues.set]
  by_cases hs : a = tSib p
  · simp [hs]
  by_cases hc : a = tChild p
  · simp [hc, put_apply]
  by_cases hi : a = tInboxHead p
  · subst hi
    simp [hs, hc]
  · simp [hs, hc, hi, put_apply]

theorem allocTcb_fields {free : List Ptr} (hl : s.queues.list tcbfreeSentinel = p :: free) :
    s.allocTcb.1 = p ∧ s.allocTcb.2.tree = (s.tree.init (tChild p)).init (tSib p) ∧
      s.allocTcb.2.known = p :: s.known ∧ s.allocTcb.2.queues.mSender = s.queues.mSender ∧
      s.allocTcb.2.queues.mMessage = s.queues.mMessage := by
  simp only [allocTcb, hl, Queues.apply, sentinels]
  exact ⟨trivial, trivial, trivial, rfl, rfl⟩

/-- The two nodes of the new TCB come to the tree. -/
theorem allocTcb_node {free : List Ptr} (hl : s.queues.list tcbfreeSentinel = p :: free) :
    s.allocTcb.2.TreeNode x ↔ (s.TreeNode x ∨ x = tChild p) ∨ x = tSib p := by
  simp only [TreeNode, (allocTcb_fields hl).2.2.1, List.exists_mem_cons_iff]
  exact or_comm.trans or_assoc.symm

theorem allocTcb_closed {free : List Ptr} (hc : s.tree.Closed s.TreeNode)
    (hl : s.queues.list tcbfreeSentinel = p :: free) :
    s.allocTcb.2.tree.Closed s.allocTcb.2.TreeNode := by
  rw [(allocTcb_fields hl).2.1]
  exact hc.init.init.congr fun x => allocTcb_node hl

theorem allocTcb_typed {free : List Ptr} (ht : s.Typed)
    (hl : s.queues.queue tcbfreeSentinel = some (p :: free)) (hp : p ∈ threadArray) :
    s.allocTcb.2.Typed := by
  have hlist := Queues.list_eq hl
  refine ⟨?_, ?_⟩
  · intro b l hb
    rw [allocTcb_queue hlist] at hb
    split at hb
    · cases hb
    split at hb
    · next hi =>
      cases hb
      exact ⟨.inr ⟨p, hp, hi⟩, by simp⟩
    split at hb
    · next hf =>
      cases hb
      rw [hf]
      exact ⟨(ht.head hl).1, fun n hn => (ht.head hl).2 n (List.mem_cons_of_mem _ hn)⟩
    · exact ht.head hb
  · intro q hq
    rw [(allocTcb_fields hlist).2.2.1] at hq
    rcases List.mem_cons.mp hq with rfl | hq
    · exact hp
    · exact ht.known q hq

/-- By cases on the operation, each of which changes one list. -/
theorem Typed.apply {op : QueueOp} (ht : s.Typed) (ho : s.queues.Allowed sentinels op)
    (hop : op.Typed) (hal : op ≠ .allocTcb) :
    Typed { s with queues := (s.queues.apply sentinels op).2 } := by
  have hback : ∀ {a n : Ptr} {l : List Ptr}, n ∈ l ++ [a] → n = a ∨ n ∈ l := by
    intro a n l hn
    rw [List.mem_append, List.mem_singleton] at hn
    exact hn.symm
  cases op with
  | mkEmptyThreadQ head | mkEmptyMessageQ head => exact ht.set hop (by simp)
  | emptyThreadQ _ | headThread _ | thereIsThread _ _ | emptyMessageQ _ | headMessage _
  | thereIsMessage _ _ => exact ht
  | fill m sender message => exact ⟨ht.head, ht.known⟩
  | insertThread head p | freeTcb p => exact ht.insert ho.1 (.inl hop) fun _ => hback
  | freeMsg m => exact ht.insert ho.1 (.inr hop) fun _ => hback
  | insertMessage head mp =>
    refine ht.insert ho.1 (.inr hop) fun x hx => ?_
    simp only [AmiKaya.insertMessage, List.map_append, Queues.inbox, Queues.map_addr] at hx
    exact hback hx
  | pushMessage head mp =>
    refine ht.insert ho.1 (.inr hop) fun x hx => ?_
    simp only [AmiKaya.pushMessage, List.map_cons, Queues.inbox, Queues.map_addr] at hx
    exact List.mem_cons.mp hx
  | removeThread head =>
    refine ht.shrink ho fun n hn => ?_
    cases hl : s.queues.list head with
    | nil => simp [hl, AmiKaya.removeThread] at hn
    | cons p l =>
      rw [hl] at hn
      exact List.mem_cons_of_mem _ hn
  | outThread head p =>
    refine ht.shrink ho fun n hn => ?_
    rw [outThread_snd] at hn
    exact List.mem_of_mem_erase hn
  | popMessage head mp =>
    simp only [Queues.apply]
    cases hp : AmiKaya.popMessage (s.queues.inbox head) mp with
    | none => exact ht
    | some r =>
      obtain ⟨m, rest⟩ := r
      obtain ⟨pre, post, hq, rfl, -⟩ := popMessage_some hp
      refine ht.shrink ho fun n hn => ?_
      rw [← Queues.map_addr s.queues (s.queues.list head)]
      have hq : (s.queues.list head).map s.queues.msg = pre ++ m :: post := hq
      rw [hq]
      simp only [List.map_append, List.map_cons, List.mem_append, List.mem_cons] at hn ⊢
      exact hn.imp id .inr
  | allocTcb => exact absurd rfl hal
  | allocMsg =>
    simp only [Queues.apply]
    cases hl : s.queues.list sentinels.msgfree with
    | nil => exact ht
    | cons m free =>
      have hfree : ∀ n ∈ free, n ∈ s.queues.list sentinels.msgfree := by
        intro n hn
        rw [hl]
        exact List.mem_cons_of_mem _ hn
      have hshrink := ht.shrink ho hfree
      exact ⟨hshrink.head, ht.known⟩

end Lists

namespace NodeHeap

variable {h h' : NodeHeap} {s : Lists} {q : Queues} {a p x : Ptr} {l : List Ptr} {op : QueueOp}

namespace Represents

theorem sub {q' : Queues} (hr : h.Represents q)
    (hq : ∀ a l, q'.queue a = some l → q.queue a = some l) (hs : q'.mSender = q.mSender)
    (hm : q'.mMessage = q.mMessage) : h.Represents q' :=
  ⟨hr.rings.sub hq, hr.mSender.trans hs.symm, hr.mMessage.trans hm.symm⟩

theorem takeFirst_same (hr : h.Represents q) (ha : q.queue a = some l) (hx : x ∉ a :: l) :
    h.links.SameAt (h.takeFirst a).2.links x := by
  rw [NodeHeap.takeFirst]
  split
  · exact .refl _ _
  · exact (hr.rings.ring ha).del_same ((hr.rings.ring ha).links List.mem_cons_self).1 hx

theorem takeOut_same {fuel : Nat} {stop : Ptr → Bool} {r : U32} (hr : h.Represents q)
    (ha : q.queue a = some l) (hx : x ∉ a :: l) (hf : l.length < fuel)
    (he : h.takeOut fuel a stop = some (r, h')) : h.links.SameAt h'.links x := by
  rw [NodeHeap.takeOut, hr.search ha hf] at he
  cases hl : l.find? stop with
  | none =>
    rw [hl] at he
    cases he
    exact .refl _ _
  | some pos =>
    rw [hl] at he
    cases he
    have hpos := List.mem_of_find?_eq_some hl
    exact (hr.rings.ring ha).del_same (List.mem_cons_of_mem _ hpos) hx

/-- A queue operation leaves the nodes of the tree alone: by cases on the operation. -/
theorem exec_same (hr : h.Represents s.queues) (ht : s.Typed)
    (ho : s.queues.Allowed sentinels op) (hop : op.Typed) (hal : op ≠ .allocTcb)
    (hx : s.TreeNode x) : ∃ n, ∀ fuel, n ≤ fuel → ∀ r h', h.exec sentinels fuel op = some (r, h') →
      h.links.SameAt h'.links x := by
  have hl := hx.loose ht
  cases op with
  | mkEmptyThreadQ head | mkEmptyMessageQ head =>
    refine ⟨0, fun fuel _ r h' he => ?_⟩
    cases he
    exact Heap.init_same (hx.ne_head ht hop)
  | emptyThreadQ _ | headThread _ | emptyMessageQ _ | headMessage _ | fill _ _ _ =>
    refine ⟨0, fun fuel _ r h' he => ?_⟩
    cases he
    exact .refl _ _
  | thereIsThread _ _ | thereIsMessage _ _ =>
    refine ⟨0, fun fuel _ r h' he => ?_⟩
    obtain ⟨r', -, he⟩ := Option.map_eq_some_iff.mp he
    cases he
    exact .refl _ _
  | insertThread head p | freeTcb p =>
    obtain ⟨l, ha⟩ := ho.1.exists_list
    refine ⟨0, fun fuel _ r h' he => ?_⟩
    cases he
    exact (hr.rings.ring ha).addTail_same (hl _ _ ha) (hx.ne_item ht (.inl hop))
  | insertMessage head m | freeMsg m =>
    obtain ⟨l, ha⟩ := ho.1.exists_list
    refine ⟨0, fun fuel _ r h' he => ?_⟩
    cases he
    exact (hr.rings.ring ha).addTail_same (hl _ _ ha) (hx.ne_item ht (.inr hop))
  | pushMessage head m =>
    obtain ⟨l, ha⟩ := ho.1.exists_list
    refine ⟨0, fun fuel _ r h' he => ?_⟩
    cases he
    exact (hr.rings.ring ha).add_same (hl _ _ ha) (hx.ne_item ht (.inr hop))
  | removeThread head =>
    obtain ⟨l, ha⟩ := Queues.Made.exists_list ho
    refine ⟨0, fun fuel _ r h' he => ?_⟩
    have hs := hr.takeFirst_same ha (hl _ _ ha)
    have he : h.takeFirst head = (r, h') := Option.some.inj he
    rwa [he] at hs
  | outThread head p =>
    obtain ⟨l, ha⟩ := Queues.Made.exists_list ho
    exact ⟨l.length + 1, fun fuel hf r h' he => hr.takeOut_same ha (hl _ _ ha) hf he⟩
  | popMessage head mp =>
    obtain ⟨l, ha⟩ := Queues.Made.exists_list ho
    refine ⟨l.length + 1, fun fuel hf r h' he => ?_⟩
    simp only [NodeHeap.exec, NodeHeap.popMessage] at he
    split at he
    · have hs := hr.takeFirst_same ha (hl _ _ ha)
      have he : h.takeFirst head = (r, h') := Option.some.inj he
      rwa [he] at hs
    · exact hr.takeOut_same ha (hl _ _ ha) hf he
  | allocTcb => exact absurd rfl hal
  | allocMsg =>
    obtain ⟨l, ha⟩ := Queues.Made.exists_list ho
    refine ⟨0, fun fuel _ r h' he => ?_⟩
    have hs := hr.takeFirst_same ha (hl _ _ ha)
    simp only [NodeHeap.exec, NodeHeap.allocMsg, NodeHeap.takeFirst] at he hs
    split at he
    · cases he
      exact .refl _ _
    · rw [if_neg ‹_›] at hs
      cases he
      exact hs

end Represents

/-- One heap holds the queues and the links of the tree. -/
structure Holds (h : NodeHeap) (s : Lists) : Prop where
  queues : h.Represents s.queues
  typed : s.Typed
  same : ∀ x, s.TreeNode x → s.tree.SameAt h.links x
  closed : s.tree.Closed s.TreeNode

namespace Holds

theorem queue (hh : h.Holds s) (ho : s.queues.Allowed sentinels op) (hop : op.Typed)
    (hal : op ≠ .allocTcb) : ∃ n h', (∀ fuel, n ≤ fuel →
      h.exec sentinels fuel op = some ((s.queues.apply sentinels op).1, h')) ∧
      h'.Holds { s with queues := (s.queues.apply sentinels op).2 } := by
  obtain ⟨n₁, h', hexec, hr⟩ := hh.queues.exec ho
  refine ⟨n₁, h', hexec, hr, hh.typed.apply ho hop hal, ?_, hh.closed⟩
  intro x hx
  have hx : s.TreeNode x := hx
  obtain ⟨n₂, hsame⟩ := hh.queues.exec_same hh.typed ho hop hal hx
  have hexec := hexec (max n₁ n₂) (Nat.le_max_left _ _)
  exact (hh.same x hx).trans (hsame _ (Nat.le_max_right _ _) _ _ hexec)

/-- The list nodes of a free TCB are no nodes of a queue. -/
theorem allocTcb_allowed (ht : s.Typed) (hm : s.queues.Made tcbfreeSentinel)
    (hp : ∀ p ∈ (s.queues.list tcbfreeSentinel).head?, p ∈ threadArray) :
    s.queues.Allowed sentinels .allocTcb := by
  refine ⟨hm, fun p hp' => ?_⟩
  have hp := hp p hp'
  have := threadArray_toNat hp
  have := threadArray_mod hp
  have hnode : ∀ n : Ptr, 0x2000B2F0 ≤ n.toNat → n.toNat % 204 ≠ 144 → s.queues.Unlinked n := by
    intro n hlow hmod b l hb hm
    have := ((ht.head hb).2 n hm).cases
    omega
  refine ⟨hnode _ ?_ ?_, hnode _ ?_ ?_, ht.unlinked (.inr ⟨p, hp, rfl⟩)⟩
  all_goals
    simp only [tChild_toNat hp, tSib_toNat hp]
    omega

/-- After an allocation: the new TCB has left the free list, it has an inbox, and its two nodes of
the tree are new. -/
theorem allocTcb_cons {free : List Ptr} (hh : h.Holds s)
    (hl : s.queues.queue tcbfreeSentinel = some (p :: free)) (hp : p ∈ threadArray)
    (hr : (h.allocTcb sentinels).2.Represents (s.queues.apply sentinels .allocTcb).2) :
    (h.allocTcb sentinels).2.Holds s.allocTcb.2 := by
  have hlist := Queues.list_eq hl
  have hring := hh.queues.rings.ring hl
  have hempty : h.links.isEmpty tcbfreeSentinel = false := by
    rw [← Bool.not_eq_true, hring.isEmpty_iff]
    exact List.cons_ne_nil _ _
  have hheap : (h.allocTcb sentinels).2.links =
      (((h.links.del p).init (tChild p)).init (tSib p)).init (tInboxHead p) := by
    simp only [NodeHeap.allocTcb, sentinels, hempty, Bool.false_eq_true, if_false, hring.next_head]
    rfl
  have htyped := Lists.allocTcb_typed hh.typed hl hp
  constructor
  case typed => exact htyped
  case queues =>
    obtain ⟨-, -, -, hsender, hmessage⟩ := Lists.allocTcb_fields hlist
    refine hr.sub ?_ (hsender.trans ?_) (hmessage.trans ?_)
    · intro b l hb
      rw [Lists.allocTcb_queue hlist] at hb
      simp only [Queues.apply, sentinels, hlist]
      split at hb
      · cases hb
      · next hnode =>
        obtain ⟨hsib, hchild⟩ := not_or.mp hnode
        simp only [Queues.set, put_apply, if_neg hsib, if_neg hchild]
        exact hb
    · simp only [Queues.apply, sentinels, hlist]
      rfl
    · simp only [Queues.apply, sentinels, hlist]
      rfl
  case same =>
    intro x hx
    have hhead : x ≠ tInboxHead p := hx.ne_head htyped (.inr ⟨p, hp, rfl⟩)
    rw [hheap, (Lists.allocTcb_fields hlist).2.1]
    refine Heap.SameAt.trans ?_ (Heap.init_same hhead)
    rcases (Lists.allocTcb_node hlist).mp hx with (hx | rfl) | rfl
    · have hdel := hring.del_same (n := p) (by simp) (hx.loose hh.typed _ _ hl)
      exact ((hh.same x hx).trans hdel).init.init
    · exact Heap.init_self.init
    · exact Heap.init_self
  case closed => exact Lists.allocTcb_closed hh.closed hlist

theorem allocTcb (hh : h.Holds s) (hm : s.queues.Made tcbfreeSentinel)
    (hp : ∀ p ∈ (s.queues.list tcbfreeSentinel).head?, p ∈ threadArray) :
    ∃ n h', (∀ fuel, n ≤ fuel → h.exec sentinels fuel .allocTcb = some (s.allocTcb.1, h')) ∧
      h'.Holds s.allocTcb.2 := by
  obtain ⟨n, h', hexec, hr⟩ := hh.queues.exec (allocTcb_allowed hh.typed hm hp)
  obtain ⟨l, hl⟩ := hm.exists_list
  have hlist := Queues.list_eq hl
  have hexec₀ := hexec n (Nat.le_refl n)
  have hheap : (h.allocTcb sentinels).2 = h' := congrArg Prod.snd (Option.some.inj hexec₀)
  have hresult : (s.queues.apply sentinels .allocTcb).1 = s.allocTcb.1 := by
    cases l <;> simp only [Queues.apply, Lists.allocTcb, sentinels, hlist]
  refine ⟨n, h', fun fuel hf => hresult ▸ hexec fuel hf, ?_⟩
  subst hheap
  cases l with
  | nil =>
    have hempty : h.links.isEmpty tcbfreeSentinel = true := by
      rw [(hh.queues.rings.ring hl).isEmpty_iff]
    simp only [NodeHeap.allocTcb, sentinels, hempty, if_true, Lists.allocTcb, hlist]
    exact hh
  | cons p free =>
    rw [hlist] at hp
    exact hh.allocTcb_cons hl (hp p rfl) hr

/-- The list operations of the tree leave the queues alone. -/
theorem tree {links' tree' : Links.Heap Ptr} (hh : h.Holds s) (hc : tree'.Closed s.TreeNode)
    (hs : ∀ x, s.TreeNode x → tree'.SameAt links' x)
    (ho : ∀ x, ¬ s.TreeNode x → h.links.SameAt links' x) :
    (h.setLinks links').Holds { s with tree := tree' } := by
  refine ⟨⟨⟨?_, hh.queues.rings.apart⟩, hh.queues.mSender, hh.queues.mMessage⟩,
    ⟨hh.typed.head, hh.typed.known⟩, hs, hc⟩
  intro a l ha
  refine (hh.queues.rings.ring ha).same_at fun x hx => ho x fun ht => ?_
  exact ht.loose hh.typed a l ha hx

theorem closed_links (hh : h.Holds s) : h.links.Closed s.TreeNode := by
  intro x hx
  rw [(hh.same x hx).1, (hh.same x hx).2]
  exact hh.closed x hx

theorem addSib {new head : Ptr} (hh : h.Holds s) (hn : s.TreeNode (tSib new))
    (ha : s.TreeNode head) : (h.setLinks (h.links.addTail (tSib new) head)).Holds
      { s with tree := s.tree.addTail (tSib new) head } := by
  refine hh.tree (hh.closed.addTail hn ha) ?_ ?_
  · intro x hx
    exact .addTail (hh.same head ha) (hh.same x hx)
  · intro x hx
    exact hh.closed_links.addTail_same hn ha hx

theorem delSib (hh : h.Holds s) (hn : s.TreeNode (tSib p)) :
    (h.setLinks (h.links.del (tSib p))).Holds { s with tree := s.tree.del (tSib p) } := by
  refine hh.tree (hh.closed.del hn) ?_ ?_
  · intro x hx
    exact .del (hh.same _ hn) (hh.same x hx)
  · intro x hx
    exact hh.closed_links.del_same hn hx

end Holds

/-- Operation by operation the heap of nodes does what the lists do. -/
theorem simulates : Simulates NodeHeap.Holds (fun fuel h op => h.call fuel op) Lists.call
    Lists.Allowed := by
  intro h s op hh ho
  cases op with
  | queue op =>
    by_cases hal : op = .allocTcb
    · subst hal
      exact hh.allocTcb ho.1 ho.2
    · have hcall : s.call (.queue op) = ((s.queues.apply sentinels op).1,
          { s with queues := (s.queues.apply sentinels op).2 }) := by
        cases op <;> first | rfl | exact absurd rfl hal
      have ho : s.queues.Allowed sentinels op ∧ op.Typed := by
        cases op <;> first | exact ho | exact absurd rfl hal
      rw [hcall]
      exact hh.queue ho.1 ho.2 hal
  | mSender m =>
    exact ⟨0, h, fun _ _ => congrArg (fun f : Ptr → Ptr => some (f m, h)) hh.queues.mSender, hh⟩
  | mMessage m =>
    exact ⟨0, h, fun _ _ => congrArg (fun f : Ptr → U32 => some (f m, h)) hh.queues.mMessage, hh⟩
  | addSib new head => exact ⟨0, _, fun _ _ => rfl, hh.addSib ho.1 ho.2⟩
  | delSib p => exact ⟨0, _, fun _ _ => rfl, hh.delSib ho⟩
  | firstChild parent =>
    refine ⟨0, h, fun _ _ => ?_, hh⟩
    have hsame := hh.same _ ho
    simp only [call, Lists.call, Heap.isEmpty, hsame.1]
    rfl

end NodeHeap

end AmiKaya
