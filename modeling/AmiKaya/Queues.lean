import AmiKaya.NodeHeap
import AmiKaya.Specs

/-! The queue operations on the nodes come to the operations on lists by which the kernel is
modelled elsewhere, on any number of queues. -/
namespace AmiKaya
open Links (Loose Rings put_same put_ne)

/-- For every head the nodes queued behind it, and the fields of the messages. -/
structure Queues where
  queue : Ptr → Option (List Ptr)
  mSender : Ptr → Ptr
  mMessage : Ptr → U32

namespace Queues

def list (s : Queues) (head : Ptr) : List Ptr := (s.queue head).getD []

def set (s : Queues) (head : Ptr) (l : List Ptr) : Queues :=
  { s with queue := put s.queue head (some l) }

def msg (s : Queues) (a : Ptr) : Msg := ⟨a, s.mSender a, s.mMessage a⟩

def inbox (s : Queues) (head : Ptr) : List Msg := (s.list head).map s.msg

def setInbox (s : Queues) (head : Ptr) (q : List Msg) : Queues := s.set head (q.map Msg.addr)

def fill (s : Queues) (m sender : Ptr) (message : U32) : Queues :=
  { s with mSender := put s.mSender m sender, mMessage := put s.mMessage m message }

/-- The result of a call, and the queues after it. -/
def apply (s : Queues) (g : Sentinels) : QueueOp → U32 × Queues
  | .mkEmptyThreadQ emptylist => (null, s.set emptylist [])
  | .emptyThreadQ head => (if AmiKaya.emptyThreadQ (s.list head) then 1 else 0, s)
  | .insertThread head p => (null, s.set head (AmiKaya.insertThread (s.list head) p))
  | .removeThread head =>
    ((AmiKaya.removeThread (s.list head)).1, s.set head (AmiKaya.removeThread (s.list head)).2)
  | .outThread head p =>
    ((AmiKaya.outThread (s.list head) p).1, s.set head (AmiKaya.outThread (s.list head) p).2)
  | .headThread head => ((s.list head).headD null, s)
  | .thereIsThread head p => (AmiKaya.thereIsThread (s.list head) p, s)
  | .freeTcb p => (null, s.set g.tcbfree (s.list g.tcbfree ++ [p]))
  | .allocTcb =>
    match s.list g.tcbfree with
    | [] => (null, s)
    | p :: free =>
      (p, (((s.set g.tcbfree free).set (tChild p) []).set (tSib p) []).set (tInboxHead p) [])
  | .mkEmptyMessageQ emptylist => (null, s.setInbox emptylist [])
  | .emptyMessageQ head => (if (s.inbox head).isEmpty then 1 else 0, s)
  | .insertMessage head mp =>
    (null, s.setInbox head (AmiKaya.insertMessage (s.inbox head) (s.msg mp)))
  | .pushMessage head mp => (null, s.setInbox head (AmiKaya.pushMessage (s.inbox head) (s.msg mp)))
  | .popMessage head mp =>
    match AmiKaya.popMessage (s.inbox head) mp with
    | none => (null, s)
    | some (m, rest) => (m.addr, s.setInbox head rest)
  | .headMessage head => (((s.inbox head).head?.map Msg.addr).getD null, s)
  | .thereIsMessage head mp =>
    ((((s.inbox head).find? fun m => m.mSender = mp).map Msg.addr).getD null, s)
  | .freeMsg m => (null, s.set g.msgfree (s.list g.msgfree ++ [m]))
  | .allocMsg =>
    match s.list g.msgfree with
    | [] => (null, s)
    | m :: free => (m, (s.set g.msgfree free).fill m null 0)
  | .fill m sender message => (null, s.fill m sender message)

def run (s : Queues) (g : Sentinels) : List QueueOp → List U32 × Queues
  | [] => ([], s)
  | op :: ops => ((s.apply g op).1 :: ((s.apply g op).2.run g ops).1, ((s.apply g op).2.run g ops).2)

/-- The head is that of a queue. -/
def Made (s : Queues) (head : Ptr) : Prop := (s.queue head).isSome

/-- The node is not linked behind a head. -/
def Unlinked (s : Queues) (n : Ptr) : Prop := ∀ b l, s.queue b = some l → n ∉ l

/-- A queue is made before it is used, a node is inserted only while it is in no queue, and no
linked node becomes a head. -/
def Allowed (s : Queues) (g : Sentinels) : QueueOp → Prop
  | .mkEmptyThreadQ head | .mkEmptyMessageQ head => s.Unlinked head
  | .emptyThreadQ head | .removeThread head | .outThread head _ | .headThread head
  | .thereIsThread head _ | .emptyMessageQ head | .popMessage head _ | .headMessage head
  | .thereIsMessage head _ => s.Made head
  | .insertThread head p | .insertMessage head p | .pushMessage head p =>
    s.Made head ∧ Loose s.queue p
  | .freeTcb p => s.Made g.tcbfree ∧ Loose s.queue p
  | .allocTcb => s.Made g.tcbfree ∧ ∀ p ∈ (s.list g.tcbfree).head?,
      s.Unlinked (tChild p) ∧ s.Unlinked (tSib p) ∧ s.Unlinked (tInboxHead p)
  | .freeMsg m => s.Made g.msgfree ∧ Loose s.queue m
  | .allocMsg => s.Made g.msgfree
  | .fill _ _ _ => True

/-- Each call is allowed where it is made. -/
def Allows (s : Queues) (g : Sentinels) : List QueueOp → Prop
  | [] => True
  | op :: ops => s.Allowed g op ∧ (s.apply g op).2.Allows g ops

/-- The heads of the queues that the call is about. -/
def heads (s : Queues) (g : Sentinels) : QueueOp → List Ptr
  | .mkEmptyThreadQ head | .mkEmptyMessageQ head | .emptyThreadQ head | .removeThread head
  | .outThread head _ | .headThread head | .thereIsThread head _ | .emptyMessageQ head
  | .popMessage head _ | .headMessage head | .thereIsMessage head _ | .insertThread head _
  | .insertMessage head _ | .pushMessage head _ => [head]
  | .freeTcb _ => [g.tcbfree]
  | .allocTcb => g.tcbfree :: (s.list g.tcbfree).head?.toList.flatMap fun p =>
      [tChild p, tSib p, tInboxHead p]
  | .freeMsg _ | .allocMsg => [g.msgfree]
  | .fill _ _ _ => []

/-- No call is about the queue with head `b`. -/
def Spared (s : Queues) (g : Sentinels) (b : Ptr) : List QueueOp → Prop
  | [] => True
  | op :: ops => b ∉ s.heads g op ∧ (s.apply g op).2.Spared g b ops

variable {s : Queues} {g : Sentinels} {a b n : Ptr} {l : List Ptr} {op : QueueOp}

theorem list_eq (ha : s.queue a = some l) : s.list a = l := by simp [list, ha]

theorem Made.exists_list (ha : s.Made a) : ∃ l, s.queue a = some l := Option.isSome_iff_exists.mp ha

theorem set_queue_same (s : Queues) (a : Ptr) (l : List Ptr) : (s.set a l).queue a = some l :=
  put_same

theorem set_queue_ne (hb : b ≠ a) : (s.set a l).queue b = s.queue b := put_ne hb

/-- To store what is there changes nothing. -/
theorem set_self (ha : s.queue a = some l) : s.set a l = s := by
  have hput : put s.queue a (some l) = s.queue := by
    funext b
    by_cases hb : b = a
    · rw [hb, put_same, ha]
    · exact put_ne hb
  rw [set, hput]

theorem Unlinked.set (hn : s.Unlinked n) (hl : n ∉ l) : (s.set a l).Unlinked n := by
  intro b m hb
  by_cases hba : b = a
  · rw [hba, set_queue_same] at hb
    cases hb
    exact hl
  · rw [set_queue_ne hba] at hb
    exact hn b m hb

theorem map_addr (s : Queues) (l : List Ptr) : (l.map s.msg).map Msg.addr = l := by
  rw [List.map_map]
  exact List.map_id l

/-- A queue that a call is not about keeps its nodes. -/
theorem apply_other (hb : b ∉ s.heads g op) : (s.apply g op).2.queue b = s.queue b := by
  cases op with
  | allocTcb =>
    simp only [apply, heads] at hb ⊢
    cases hl : s.list g.tcbfree with
    | nil => rfl
    | cons p free =>
      simp only [hl, List.head?_cons, Option.toList_some, List.flatMap_cons, List.flatMap_nil,
        List.append_nil, List.mem_cons, List.not_mem_nil, or_false, not_or] at hb
      obtain ⟨hfree, hchild, hsib, hinbox⟩ := hb
      rw [set_queue_ne hinbox, set_queue_ne hsib, set_queue_ne hchild, set_queue_ne hfree]
  | popMessage head mp =>
    simp only [apply]
    cases AmiKaya.popMessage (s.inbox head) mp with
    | none => rfl
    | some r => exact set_queue_ne (List.mem_singleton.not.mp hb)
  | allocMsg =>
    simp only [apply]
    cases s.list g.msgfree with
    | nil => rfl
    | cons m free => exact set_queue_ne (List.mem_singleton.not.mp hb)
  | mkEmptyThreadQ _ | insertThread _ _ | removeThread _ | outThread _ _ | freeTcb _
  | mkEmptyMessageQ _ | insertMessage _ _ | pushMessage _ _ | freeMsg _ =>
    exact set_queue_ne (List.mem_singleton.not.mp hb)
  | emptyThreadQ _ | headThread _ | thereIsThread _ _ | emptyMessageQ _ | headMessage _
  | thereIsMessage _ _ | fill _ _ _ => rfl

theorem run_other {ops : List QueueOp} (hb : s.Spared g b ops) :
    (s.run g ops).2.queue b = s.queue b := by
  induction ops generalizing s with
  | nil => rfl
  | cons op ops ih => exact (ih hb.2).trans (apply_other hb.1)

end Queues

/-- The pop by a list search: the first message, or the first one of the sender. -/
theorem popMessage_eq (q : List Msg) (mp : Ptr) : popMessage q mp =
    (q.find? fun m => mp = null ∨ m.mSender = mp).map fun m =>
      (m, q.eraseP fun m => mp = null ∨ m.mSender = mp) := by
  induction q with
  | nil => rfl
  | cons m q ih =>
    by_cases hm : mp = null ∨ m.mSender = mp
    · rcases hm with hm | hm <;> simp [popMessage, hm]
    · obtain ⟨hn, hs⟩ := not_or.mp hm
      simp only [popMessage, if_neg hn, if_neg hs, ih, List.find?_cons, List.eraseP_cons, hm,
        decide_false, Option.map_map, cond_false]
      rfl

/-- A thread is found exactly where it is queued. -/
theorem thereIsThread_eq (q : List Ptr) (p : Ptr) :
    thereIsThread q p = (q.find? fun pos => pos = p).getD null := by
  rw [thereIsThread]
  cases hq : q.find? fun pos => pos = p with
  | none =>
    rw [if_neg]
    · rfl
    · intro hp
      simpa using List.find?_eq_none.mp hq p hp
  | some pos =>
    have hp : pos = p := by simpa using List.find?_some hq
    rw [if_pos (hp ▸ List.mem_of_find?_eq_some hq), hp]
    rfl

theorem outThread_eq (q : List Ptr) (p : Ptr) :
    outThread q p = ((q.find? fun pos => pos = p).getD null, q.eraseP fun pos => pos = p) := by
  apply Prod.ext
  · rw [← thereIsThread_eq, outThread, thereIsThread]
    split <;> rfl
  · rw [outThread_snd, List.erase_eq_eraseP']
    rfl

namespace NodeHeap

/-- The nodes are linked as the queues say. -/
structure Represents (h : NodeHeap) (s : Queues) : Prop where
  rings : Rings h.links s.queue
  mSender : h.mSender = s.mSender
  mMessage : h.mMessage = s.mMessage

variable {h h' : NodeHeap} {s s' : Queues} {g : Sentinels} {a b n : Ptr} {l : List Ptr}
  {op : QueueOp} {stop : Ptr → Bool} {fuel : Nat}

/-- Heap and queues after a call that returns within some bound. -/
def Matches (h : NodeHeap) (g : Sentinels) (op : QueueOp) (r : U32 × Queues) : Prop :=
  ∃ n h', (∀ fuel, n ≤ fuel → h.exec g fuel op = some (r.1, h')) ∧ h'.Represents r.2

namespace Represents

theorem isEmpty (hr : h.Represents s) (ha : s.queue a = some l) :
    h.links.isEmpty a = l.isEmpty := by
  rw [Bool.eq_iff_iff, (hr.rings.ring ha).isEmpty_iff, List.isEmpty_iff]

theorem first (hr : h.Represents s) (ha : s.queue a = some l) : h.first a = l.headD null := by
  rw [NodeHeap.first, hr.isEmpty ha]
  cases l with
  | nil => rfl
  | cons p l => exact (hr.rings.ring ha).next_head

theorem init (hr : h.Represents s) (hn : s.Unlinked n) :
    (h.setLinks (h.links.init n)).Represents (s.set n []) :=
  ⟨hr.rings.init hn, hr.mSender, hr.mMessage⟩

theorem addTail (hr : h.Represents s) (ha : s.queue a = some l) (hn : Loose s.queue n) :
    (h.setLinks (h.links.addTail n a)).Represents (s.set a (l ++ [n])) :=
  ⟨hr.rings.addTail ha hn, hr.mSender, hr.mMessage⟩

theorem add (hr : h.Represents s) (ha : s.queue a = some l) (hn : Loose s.queue n) :
    (h.setLinks (h.links.add n a)).Represents (s.set a (n :: l)) :=
  ⟨hr.rings.add ha hn, hr.mSender, hr.mMessage⟩

theorem del {l' : List Ptr} (hr : h.Represents s) (ha : s.queue a = some (l ++ n :: l')) :
    (h.setLinks (h.links.del n)).Represents (s.set a (l ++ l')) :=
  ⟨hr.rings.del ha, hr.mSender, hr.mMessage⟩

theorem fill (hr : h.Represents s) (m sender : Ptr) (message : U32) :
    (h.fill m sender message).Represents (s.fill m sender message) := by
  refine ⟨hr.rings, ?_, ?_⟩
  · simp only [NodeHeap.fill, Queues.fill, hr.mSender]
  · simp only [NodeHeap.fill, Queues.fill, hr.mMessage]

theorem takeFirst (hr : h.Represents s) (ha : s.queue a = some l) :
    (h.takeFirst a).1 = l.headD null ∧ (h.takeFirst a).2.Represents (s.set a l.tail) := by
  rw [NodeHeap.takeFirst, hr.isEmpty ha]
  cases l with
  | nil =>
    refine ⟨rfl, ?_⟩
    rw [List.tail_nil, Queues.set_self ha]
    exact hr
  | cons p l =>
    have hp : h.links.next a = p := (hr.rings.ring ha).next_head
    refine ⟨hp, ?_⟩
    simp only [List.isEmpty_cons, Bool.false_eq_true, if_false, hp]
    exact hr.del (l := []) ha

/-- Every search ends, at the first node it is after. -/
theorem search (hr : h.Represents s) (ha : s.queue a = some l) (hf : l.length < fuel) :
    h.search fuel a stop = some (l.find? stop) := by
  rw [NodeHeap.search, hr.isEmpty ha]
  cases l with
  | nil => rfl
  | cons p l => exact (hr.rings.ring ha).forEach hf

theorem find (hr : h.Represents s) (ha : s.queue a = some l) (hf : l.length < fuel) :
    h.find fuel a stop = some ((l.find? stop).getD null) := by
  rw [NodeHeap.find, hr.search ha hf]
  rfl

theorem takeOut (hr : h.Represents s) (stop : Ptr → Bool) (ha : s.queue a = some l) :
    ∃ h', (∀ fuel, l.length < fuel → h.takeOut fuel a stop = some ((l.find? stop).getD null, h')) ∧
      h'.Represents (s.set a (l.eraseP stop)) := by
  cases hl : l.find? stop with
  | none =>
    refine ⟨h, ?_, ?_⟩
    · intro fuel hf
      rw [NodeHeap.takeOut, hr.search ha hf, hl]
      rfl
    · rw [List.eraseP_of_forall_not (List.find?_eq_none.mp hl), Queues.set_self ha]
      exact hr
  | some pos =>
    obtain ⟨hpos, pre, post, rfl, hpre⟩ := List.find?_eq_some_iff_append.mp hl
    have herase : (pre ++ pos :: post).eraseP stop = pre ++ post := by
      rw [List.eraseP_append_right _ (fun x hx => by simpa using hpre x hx), List.eraseP_cons_of_pos hpos]
    refine ⟨h.setLinks (h.links.del pos), ?_, ?_⟩
    · intro fuel hf
      rw [NodeHeap.takeOut, hr.search ha hf, hl]
      rfl
    · rw [herase]
      exact hr.del ha

theorem outThread (hr : h.Represents s) (ho : s.Made a) (p : Ptr) :
    h.Matches g (.outThread a p) (s.apply g (.outThread a p)) := by
  obtain ⟨l, ha⟩ := ho.exists_list
  obtain ⟨h', hexec, hr'⟩ := hr.takeOut (fun pos => pos = p) ha
  rw [Queues.apply, Queues.list_eq ha, outThread_eq]
  exact ⟨l.length + 1, h', hexec, hr'⟩

theorem thereIsThread (hr : h.Represents s) (ho : s.Made a) (p : Ptr) :
    h.Matches g (.thereIsThread a p) (s.apply g (.thereIsThread a p)) := by
  obtain ⟨l, ha⟩ := ho.exists_list
  rw [Queues.apply, Queues.list_eq ha, thereIsThread_eq]
  refine ⟨l.length + 1, h, ?_, hr⟩
  intro fuel hf
  rw [exec, NodeHeap.thereIsThread, hr.find ha hf]
  rfl

theorem allocTcb (hr : h.Represents s) (ho : s.Allowed g .allocTcb) :
    h.Matches g .allocTcb (s.apply g .allocTcb) := by
  obtain ⟨hmade, hun⟩ := ho
  obtain ⟨l, ha⟩ := hmade.exists_list
  rw [Queues.list_eq ha] at hun
  refine ⟨0, (h.allocTcb g).2, ?_⟩
  simp only [exec, Queues.apply, Queues.list_eq ha, NodeHeap.allocTcb, hr.isEmpty ha]
  cases l with
  | nil => exact ⟨fun _ _ => rfl, hr⟩
  | cons p free =>
    have hp : h.links.next g.tcbfree = p := (hr.rings.ring ha).next_head
    obtain ⟨hchild, hsib, hinbox⟩ := hun p rfl
    have htail := fun {n} (hn : s.Unlinked n) => List.not_mem_of_not_mem_cons (hn g.tcbfree _ ha)
    simp only [List.isEmpty_cons, Bool.false_eq_true, if_false, hp]
    refine ⟨fun _ _ => trivial, ?_⟩
    have hdel := hr.del (l := []) ha
    have hc := hdel.init (hchild.set (htail hchild))
    have hs := hc.init ((hsib.set (htail hsib)).set List.not_mem_nil)
    exact hs.init (((hinbox.set (htail hinbox)).set List.not_mem_nil).set List.not_mem_nil)

theorem allocMsg (hr : h.Represents s) (ho : s.Made g.msgfree) :
    h.Matches g .allocMsg (s.apply g .allocMsg) := by
  obtain ⟨l, ha⟩ := ho.exists_list
  refine ⟨0, (h.allocMsg g).2, ?_⟩
  simp only [exec, Queues.apply, Queues.list_eq ha, NodeHeap.allocMsg, hr.isEmpty ha]
  cases l with
  | nil => exact ⟨fun _ _ => rfl, hr⟩
  | cons m free =>
    have hm : h.links.next g.msgfree = m := (hr.rings.ring ha).next_head
    simp only [List.isEmpty_cons, Bool.false_eq_true, if_false, hm]
    exact ⟨fun _ _ => trivial, (hr.del (l := []) ha).fill m null 0⟩

/-- The message that the pop unlinks. -/
theorem pop (hr : h.Represents s) (ha : s.queue a = some l) (mp : Ptr)
    (hs : ∀ n, stop n = decide (mp = null ∨ s.mSender n = mp)) :
    ∃ h', (∀ fuel, l.length < fuel →
        h.popMessage fuel a mp = some ((l.find? stop).getD null, h')) ∧
      h'.Represents (s.set a (l.eraseP stop)) := by
  by_cases hmp : mp = null
  · have hall : ∀ n, stop n = true := fun n => by simp [hs, hmp]
    obtain ⟨hfst, hsnd⟩ := hr.takeFirst ha
    refine ⟨(h.takeFirst a).2, ?_, ?_⟩
    · intro fuel _
      rw [NodeHeap.popMessage, if_pos hmp]
      refine congrArg some (Prod.ext ?_ rfl)
      rw [hfst]
      cases l with
      | nil => rfl
      | cons m l => simp [hall]
    · cases l with
      | nil => exact hsnd
      | cons m l =>
        rw [List.eraseP_cons_of_pos (hall m)]
        exact hsnd
  · have hstop : (fun pos => decide (h.mSender pos = mp)) = stop := by
      funext n
      simp [hs, hmp, hr.mSender]
    obtain ⟨h', hexec, hr'⟩ := hr.takeOut stop ha
    refine ⟨h', ?_, hr'⟩
    intro fuel hf
    rw [NodeHeap.popMessage, if_neg hmp, hstop]
    exact hexec fuel hf

theorem popMessage (hr : h.Represents s) (ho : s.Made a) (mp : Ptr) :
    h.Matches g (.popMessage a mp) (s.apply g (.popMessage a mp)) := by
  obtain ⟨l, ha⟩ := ho.exists_list
  obtain ⟨h', hexec, hr'⟩ := hr.pop ha mp fun _ => rfl
  refine ⟨l.length + 1, h', ?_⟩
  simp only [Queues.apply, Queues.inbox, Queues.list_eq ha, popMessage_eq, List.find?_map,
    List.eraseP_map]
  have hstop : ((fun m : Msg => decide (mp = null ∨ m.mSender = mp)) ∘ s.msg) =
      fun n => decide (mp = null ∨ s.mSender n = mp) := rfl
  rw [hstop]
  cases hl : l.find? fun n => decide (mp = null ∨ s.mSender n = mp) with
  | none =>
    rw [hl] at hexec
    rw [List.eraseP_of_forall_not (List.find?_eq_none.mp hl), Queues.set_self ha] at hr'
    exact ⟨hexec, hr'⟩
  | some n =>
    rw [hl] at hexec
    refine ⟨hexec, ?_⟩
    simp only [Option.map_some, Queues.setInbox, Queues.map_addr]
    exact hr'

theorem thereIsMessage (hr : h.Represents s) (ho : s.Made a) (mp : Ptr) :
    h.Matches g (.thereIsMessage a mp) (s.apply g (.thereIsMessage a mp)) := by
  obtain ⟨l, ha⟩ := ho.exists_list
  refine ⟨l.length + 1, h, ?_, hr⟩
  intro fuel hf
  rw [exec, NodeHeap.thereIsMessage, hr.find ha hf, hr.mSender]
  simp only [Queues.apply, Queues.inbox, Queues.list_eq ha, List.find?_map, Option.map_map]
  have hstop : ((fun m : Msg => decide (m.mSender = mp)) ∘ s.msg) =
      fun n => decide (s.mSender n = mp) := rfl
  have haddr : Msg.addr ∘ s.msg = id := rfl
  rw [hstop, haddr, Option.map_id]
  rfl

/-- One step lemma for all operations: on the nodes each does what it does on the lists. -/
theorem exec (hr : h.Represents s) (ho : s.Allowed g op) : h.Matches g op (s.apply g op) := by
  cases op with
  | mkEmptyThreadQ emptylist => exact ⟨0, _, fun _ _ => rfl, hr.init ho⟩
  | mkEmptyMessageQ emptylist => exact ⟨0, _, fun _ _ => rfl, hr.init ho⟩
  | emptyThreadQ head =>
    obtain ⟨l, ha⟩ := Queues.Made.exists_list ho
    refine ⟨0, h, ?_, hr⟩
    intro fuel _
    rw [NodeHeap.exec, NodeHeap.emptyThreadQ, hr.isEmpty ha, Queues.apply, Queues.list_eq ha]
    rfl
  | emptyMessageQ head =>
    obtain ⟨l, ha⟩ := Queues.Made.exists_list ho
    refine ⟨0, h, ?_, hr⟩
    intro fuel _
    rw [NodeHeap.exec, NodeHeap.emptyMessageQ, hr.isEmpty ha, Queues.apply, Queues.inbox,
      Queues.list_eq ha, List.isEmpty_map]
  | insertThread head p =>
    obtain ⟨l, ha⟩ := ho.1.exists_list
    rw [Queues.apply, Queues.list_eq ha]
    exact ⟨0, _, fun _ _ => rfl, hr.addTail ha ho.2⟩
  | insertMessage head mp =>
    obtain ⟨l, ha⟩ := ho.1.exists_list
    simp only [Queues.apply, Queues.inbox, Queues.list_eq ha, Queues.setInbox,
      AmiKaya.insertMessage, List.map_append, Queues.map_addr]
    exact ⟨0, _, fun _ _ => rfl, hr.addTail ha ho.2⟩
  | pushMessage head mp =>
    obtain ⟨l, ha⟩ := ho.1.exists_list
    simp only [Queues.apply, Queues.inbox, Queues.list_eq ha, Queues.setInbox,
      AmiKaya.pushMessage, List.map_cons, Queues.map_addr]
    exact ⟨0, _, fun _ _ => rfl, hr.add ha ho.2⟩
  | removeThread head =>
    obtain ⟨l, ha⟩ := Queues.Made.exists_list ho
    obtain ⟨hfst, hsnd⟩ := hr.takeFirst ha
    refine ⟨0, (h.takeFirst head).2, ?_⟩
    rw [Queues.apply, Queues.list_eq ha]
    cases l with
    | nil => exact ⟨fun _ _ => congrArg some (Prod.ext hfst rfl), hsnd⟩
    | cons p l => exact ⟨fun _ _ => congrArg some (Prod.ext hfst rfl), hsnd⟩
  | headThread head =>
    obtain ⟨l, ha⟩ := Queues.Made.exists_list ho
    refine ⟨0, h, ?_, hr⟩
    intro fuel _
    rw [NodeHeap.exec, NodeHeap.headThread, hr.first ha, Queues.apply, Queues.list_eq ha]
  | headMessage head =>
    obtain ⟨l, ha⟩ := Queues.Made.exists_list ho
    refine ⟨0, h, ?_, hr⟩
    intro fuel _
    rw [NodeHeap.exec, NodeHeap.headMessage, hr.first ha, Queues.apply, Queues.inbox,
      Queues.list_eq ha]
    cases l <;> rfl
  | freeTcb p =>
    obtain ⟨l, ha⟩ := ho.1.exists_list
    rw [Queues.apply, Queues.list_eq ha]
    exact ⟨0, _, fun _ _ => rfl, hr.addTail ha ho.2⟩
  | freeMsg m =>
    obtain ⟨l, ha⟩ := ho.1.exists_list
    rw [Queues.apply, Queues.list_eq ha]
    exact ⟨0, _, fun _ _ => rfl, hr.addTail ha ho.2⟩
  | fill m sender message => exact ⟨0, _, fun _ _ => rfl, hr.fill m sender message⟩
  | outThread head p => exact hr.outThread ho p
  | thereIsThread head p => exact hr.thereIsThread ho p
  | popMessage head mp => exact hr.popMessage ho mp
  | thereIsMessage head mp => exact hr.thereIsMessage ho mp
  | allocTcb => exact hr.allocTcb ho
  | allocMsg => exact hr.allocMsg ho

/-- The links of every node in a queue undo each other. -/
theorem inverse (hr : h.Represents s) {n : Ptr} (ha : s.queue a = some l) (hn : n ∈ a :: l) :
    h.links.prev (h.links.next n) = n ∧ h.links.next (h.links.prev n) = n :=
  ((hr.rings.ring ha).links hn).2.2

/-- A queue with the nodes it had has the links it had. -/
theorem untouched (hr : h.Represents s) (hr' : h'.Represents s') {n : Ptr} (ha : s.queue a = some l)
    (ha' : s'.queue a = some l) (hn : n ∈ a :: l) :
    h'.links.next n = h.links.next n ∧ h'.links.prev n = h.links.prev n :=
  (hr.rings.ring ha).same (hr'.rings.ring ha') hn

/-- By induction on the calls. The bound of the run covers that of each call. -/
theorem run {ops : List QueueOp} (hr : h.Represents s) (ho : s.Allows g ops) :
    ∃ n h', (∀ fuel, n ≤ fuel → h.run g fuel ops = some ((s.run g ops).1, h')) ∧
      h'.Represents (s.run g ops).2 := by
  induction ops generalizing h s with
  | nil => exact ⟨0, h, fun _ _ => rfl, hr⟩
  | cons op ops ih =>
    obtain ⟨n₁, h₁, hexec, hr₁⟩ := hr.exec ho.1
    obtain ⟨n₂, h₂, hrun, hr₂⟩ := ih hr₁ ho.2
    refine ⟨max n₁ n₂, h₂, ?_, hr₂⟩
    intro fuel hf
    rw [NodeHeap.run, hexec fuel (Nat.le_trans (Nat.le_max_left _ _) hf)]
    simp only [Option.bind_eq_bind, Option.bind_some, hrun fuel (Nat.le_trans (Nat.le_max_right _ _) hf)]
    rfl

end Represents

/-- A heap in which no head has been made. -/
theorem represents_none (h : NodeHeap) :
    h.Represents { queue := fun _ => none, mSender := h.mSender, mMessage := h.mMessage } :=
  ⟨Rings.none h.links, rfl, rfl⟩

end NodeHeap

/-- Calls on the nodes return what the same calls on lists return and leave the same queues, each
linked both ways. A queue that they are not about is left as it was, node by node. -/
theorem queues_refine (h : NodeHeap) (s : Queues) (g : Sentinels) (ops : List QueueOp)
    (hr : h.Represents s) (ho : s.Allows g ops) :
    ∃ n h', (∀ fuel, n ≤ fuel → h.run g fuel ops = some ((s.run g ops).1, h')) ∧
      h'.Represents (s.run g ops).2 ∧
      (∀ a l, (s.run g ops).2.queue a = some l → ∀ n ∈ a :: l,
        h'.links.prev (h'.links.next n) = n ∧ h'.links.next (h'.links.prev n) = n) ∧
      ∀ b l, s.Spared g b ops → s.queue b = some l →
        (s.run g ops).2.queue b = some l ∧ ∀ n ∈ b :: l,
          h'.links.next n = h.links.next n ∧ h'.links.prev n = h.links.prev n := by
  obtain ⟨n, h', hrun, hr'⟩ := hr.run ho
  refine ⟨n, h', hrun, hr', ?_, ?_⟩
  · intro a l ha n hn
    exact hr'.inverse ha hn
  · intro b l hb hs
    have hs' : (s.run g ops).2.queue b = some l := (Queues.run_other hb).trans hs
    exact ⟨hs', fun n hn => hr.untouched hr' hs hs' hn⟩

/-- Two threads in one queue, a message of the first in another. The second thread leaves and cannot
be found again, and the message is popped by its sender. -/
theorem queues_refine_out :
    let h : NodeHeap := ⟨⟨id, id⟩, fun _ => null, fun _ => 0⟩
    ∃ n h', (∀ fuel, n ≤ fuel → h.run ⟨8, 16⟩ fuel [.mkEmptyThreadQ 100, .mkEmptyMessageQ 400,
        .insertThread 100 200, .insertThread 100 300, .fill 500 200 7, .insertMessage 400 500,
        .outThread 100 300, .outThread 100 300, .popMessage 400 200] =
          some ([0, 0, 0, 0, 0, 0, 300, 0, 500], h')) ∧
      h'.links.next 100 = 200 ∧ h'.links.prev 200 = 100 := by
  intro h
  have hloose : ∀ n, Loose (fun _ => none : Ptr → Option (List Ptr)) n := fun _ _ _ ha => nomatch ha
  obtain ⟨n, h', hrun, hr', -, -⟩ := queues_refine h
    { queue := fun _ => none, mSender := h.mSender, mMessage := h.mMessage } ⟨8, 16⟩
    [.mkEmptyThreadQ 100, .mkEmptyMessageQ 400, .insertThread 100 200, .insertThread 100 300,
      .fill 500 200 7, .insertMessage 400 500, .outThread 100 300, .outThread 100 300,
      .popMessage 400 200] h.represents_none
    (by
      refine ⟨?_, ?_, ⟨rfl, ?_⟩, ⟨rfl, ?_⟩, trivial, ⟨rfl, ?_⟩, rfl, rfl, rfl, trivial⟩
      · exact fun _ _ ha => nomatch ha
      · exact Queues.Unlinked.set (fun _ _ ha => nomatch ha) List.not_mem_nil
      · exact ((hloose 200).put (by decide)).put (by decide)
      · exact (((hloose 300).put (by decide)).put (by decide)).put (by decide)
      · exact ((((hloose 500).put (by decide)).put (by decide)).put (by decide)).put (by decide))
  refine ⟨n, h', hrun, ?_⟩
  have hring : h'.links.Ring 100 [200] := hr'.rings.ring rfl
  exact hring.seg.1

end AmiKaya
