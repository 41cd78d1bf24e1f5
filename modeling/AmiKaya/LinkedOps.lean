import AmiKaya.Linked

/-! What each list operation returns and leaves, of the kernel whose lists are worked on. -/
namespace AmiKaya
open Client Links

variable {s s' : Lists} {k k' : Kernel} {p : Ptr} {r : U32} {op : ListOp} {α β : Type}

/-- The program comes to `a` on these lists, and leaves those of `k`. No TCB is forgotten. -/
def Code.Does (c : Code α) (s : Lists) (a : α) (k : Kernel) : Prop :=
  c.Follows Lists.call Lists.Allowed
    (fun x s' => x = a ∧ s'.Shows k ∧ ∀ p ∈ s.known, p ∈ s'.known) s

namespace Code.Does

theorem done {a b : α} (he : a = b) (hs : s.Shows k) : Code.Does (.done a) s b k :=
  ⟨he, hs, fun _ h => h⟩

theorem lift {x : Except Stop α} {a : α} (hx : x = .ok a) (hs : s.Shows k) :
    Code.Does (Prog.lift x) s a k := by
  rw [hx]
  exact done rfl hs

theorem after {x : Except Stop α} {f : α → Code β} {a : α} {b : β} (hx : x = .ok a)
    (hf : (f a).Does s b k) : Code.Does (Prog.lift x >>= f) s b k := by
  rw [hx]
  exact hf

theorem pos {c : Prop} [Decidable c] {x y : Code α} {a : α} (hc : c) (hx : x.Does s a k) :
    Code.Does (if c then x else y) s a k := by
  rw [if_pos hc]
  exact hx

theorem neg {c : Prop} [Decidable c] {x y : Code α} {a : α} (hc : ¬ c) (hy : y.Does s a k) :
    Code.Does (if c then x else y) s a k := by
  rw [if_neg hc]
  exact hy

theorem bind {c : Code α} {f : α → Code β} {a : α} {b : β} (hc : c.Does s a k)
    (hf : ∀ s', s'.Shows k → (∀ p ∈ s.known, p ∈ s'.known) → (f a).Does s' b k') :
    Code.Does (c >>= f) s b k' := by
  refine Prog.Follows.bind hc ?_
  rintro x s' ⟨rfl, hs', hn⟩
  exact Prog.Follows.mono (hf s' hs' hn) fun _ _ h => ⟨h.1, h.2.1, fun p hp => h.2.2 p (hn p hp)⟩

/-- One call, then the rest: by the result of the call and the lists after it. -/
theorem call {f : U32 → Code α} {a : α} (ho : s.Allowed op) (hc : s.call op = (r, s'))
    (hn : ∀ p ∈ s.known, p ∈ s'.known) (hf : (f r).Does s' a k) :
    Code.Does (Code.ask op >>= f) s a k := by
  refine Prog.Follows.call ho hc (Prog.Follows.mono hf ?_)
  exact fun _ _ h => ⟨h.1, h.2.1, fun p hp => h.2.2 p (hn p hp)⟩

theorem peek {f : U32 → Code α} {a : α} (ho : s.Allowed op) (hc : s.call op = (r, s))
    (hf : (f r).Does s a k) : Code.Does (Code.ask op >>= f) s a k :=
  call ho hc (fun _ h => h) hf

theorem ask (ho : s.Allowed op) (hc : s.call op = (r, s')) (hn : ∀ p ∈ s.known, p ∈ s'.known)
    (hs : s'.Shows k) : (Code.ask op).Does s r k :=
  Prog.Follows.call ho hc ⟨rfl, hs, hn⟩

/-- A call that changes nothing. -/
theorem look (ho : s.Allowed op) (hc : s.call op = (r, s)) (hs : s.Shows k) :
    (Code.ask op).Does s r k :=
  ask ho hc (fun _ h => h) hs

/-- A call that changes one queue. -/
theorem set {a : Ptr} {l : List Ptr} (ho : s.Allowed op) (hc : s.call op = (r, s.set a l))
    (hs : (s.set a l).Shows k) : (Code.ask op).Does s r k :=
  ask ho hc (fun _ h => h) hs

end Code.Does

namespace Kernel

def setReady (k : Kernel) (l : List Ptr) : Kernel := { k with readyQueue := l }

def setWait (k : Kernel) (l : List Ptr) : Kernel := { k with waitQueue := l }

/-- One thread less waits for a soft block, in the case `c`. -/
def countIf (k : Kernel) (c : Prop) [Decidable c] : Kernel :=
  if c then { k with softBlockCount := k.softBlockCount - 1 } else k

/-- The thread leaves the processor, if it has it. -/
def leave (k : Kernel) (p : Ptr) : Kernel :=
  if k.currentThread = p then { k with currentThread := null } else k

/-- A TCB with another inbox. -/
def setInbox (k : Kernel) (p : Ptr) (q : List Msg) : Kernel :=
  k.setTcb p fun t => { t with tInbox := q }

theorem bare_countIf (c : Prop) [Decidable c] (k : Kernel) :
    k.bare.countIf c = (k.countIf c).bare := by
  unfold countIf
  split <;> rfl

theorem bare_leave (k : Kernel) (p : Ptr) : k.bare.leave p = (k.leave p).bare := by
  have hc : k.bare.currentThread = k.currentThread := rfl
  simp only [leave, hc]
  split <;> rfl

end Kernel

namespace Lists.Shows

theorem leave (hs : s.Shows k) : s.Shows (k.leave p) := by
  unfold Kernel.leave
  split
  · exact hs.keep rfl rfl rfl rfl rfl rfl
  · exact hs

theorem countIf (c : Prop) [Decidable c] (hs : s.Shows k) : s.Shows (k.countIf c) := by
  unfold Kernel.countIf
  split
  · exact hs.keep rfl rfl rfl rfl rfl rfl
  · exact hs

/-! The two thread queues. -/

theorem thereIsReady (hs : s.Shows k) (p : Ptr) :
    (Code.queue (.thereIsThread readyQueueAddr p)).Does s (thereIsThread k.readyQueue p) k := by
  have hq : ListHead.ready.Made s.known := trivial
  refine .look ⟨hs.made hq, trivial⟩ ?_ hs
  exact congrArg (fun l => (thereIsThread l p, s)) (hs.list_eq hq)

theorem thereIsWait (hs : s.Shows k) (p : Ptr) :
    (Code.queue (.thereIsThread waitQueueAddr p)).Does s (thereIsThread k.waitQueue p) k := by
  have hq : ListHead.wait.Made s.known := trivial
  refine .look ⟨hs.made hq, trivial⟩ ?_ hs
  exact congrArg (fun l => (thereIsThread l p, s)) (hs.list_eq hq)

theorem emptyReady (hs : s.Shows k) :
    (Code.queue (.emptyThreadQ readyQueueAddr)).Does s
      (if emptyThreadQ k.readyQueue then 1 else 0) k := by
  have hq : ListHead.ready.Made s.known := trivial
  refine .look ⟨hs.made hq, trivial⟩ ?_ hs
  exact congrArg (fun l => (if emptyThreadQ l then (1 : U32) else 0, s)) (hs.list_eq hq)

/-- The ready queue gets other threads. -/
theorem setReady {l : List Ptr} (hs : s.Shows k) (hl : ∀ p ∈ l, p ∈ threadArray) :
    (s.set readyQueueAddr l).Shows (k.setReady l) := by
  refine hs.set (q := .ready) trivial rfl hl (fun q hq => ?_) hs.msg rfl (fun _ => rfl) fun _ h => h
  cases q <;> first | rfl | exact absurd rfl hq

theorem setWait {l : List Ptr} (hs : s.Shows k) (hl : ∀ p ∈ l, p ∈ threadArray) :
    (s.set waitQueueAddr l).Shows (k.setWait l) := by
  refine hs.set (q := .wait) trivial rfl hl (fun q hq => ?_) hs.msg rfl (fun _ => rfl) fun _ h => h
  cases q <;> first | rfl | exact absurd rfl hq

theorem outReady (hs : s.Shows k) (p : Ptr) : (Code.queue (.outThread readyQueueAddr p)).Does s
    (outThread k.readyQueue p).1 (k.setReady (outThread k.readyQueue p).2) := by
  have hq : ListHead.ready.Made s.known := trivial
  refine .set ⟨hs.made hq, trivial⟩ ?_ (hs.setReady ?_)
  · exact congrArg (fun l => ((outThread l p).1, s.set readyQueueAddr (outThread l p).2))
      (hs.list_eq hq)
  · intro x hx
    rw [outThread_snd] at hx
    exact hs.items .ready trivial x (List.mem_of_mem_erase hx)

theorem outWait (hs : s.Shows k) (p : Ptr) : (Code.queue (.outThread waitQueueAddr p)).Does s
    (outThread k.waitQueue p).1 (k.setWait (outThread k.waitQueue p).2) := by
  have hq : ListHead.wait.Made s.known := trivial
  refine .set ⟨hs.made hq, trivial⟩ ?_ (hs.setWait ?_)
  · exact congrArg (fun l => ((outThread l p).1, s.set waitQueueAddr (outThread l p).2))
      (hs.list_eq hq)
  · intro x hx
    rw [outThread_snd] at hx
    exact hs.items .wait trivial x (List.mem_of_mem_erase hx)

theorem removeReady (hs : s.Shows k) : (Code.queue (.removeThread readyQueueAddr)).Does s
    (removeThread k.readyQueue).1 (k.setReady (removeThread k.readyQueue).2) := by
  have hq : ListHead.ready.Made s.known := trivial
  refine .set ⟨hs.made hq, trivial⟩ ?_ (hs.setReady ?_)
  · exact congrArg (fun l => ((removeThread l).1, s.set readyQueueAddr (removeThread l).2))
      (hs.list_eq hq)
  · intro x hx
    refine hs.items .ready trivial x (show x ∈ k.readyQueue from ?_)
    cases hl : k.readyQueue with
    | nil => simp [hl, removeThread] at hx
    | cons p l =>
      rw [hl] at hx
      exact List.mem_cons_of_mem _ hx

/-- Only a thread that is in no queue can be inserted. -/
theorem insertReady (hs : s.Shows k) (hp : p ∈ threadArray) (hr : p ∉ k.readyQueue)
    (hw : p ∉ k.waitQueue) (hf : p ∉ k.tcbFree) :
    (Code.queue (.insertThread readyQueueAddr p)).Does s null
      (k.setReady (insertThread k.readyQueue p)) := by
  have hq : ListHead.ready.Made s.known := trivial
  refine .set ⟨⟨hs.made hq, hs.loose_thread hp hr hw hf⟩, hp⟩ ?_ (hs.setReady ?_)
  · exact congrArg (fun l => (null, s.set readyQueueAddr (insertThread l p))) (hs.list_eq hq)
  · intro x hx
    rcases List.mem_append.mp hx with hx | hx
    · exact hs.items .ready trivial x hx
    · exact List.mem_singleton.mp hx ▸ hp

theorem insertWait (hs : s.Shows k) (hp : p ∈ threadArray) (hr : p ∉ k.readyQueue)
    (hw : p ∉ k.waitQueue) (hf : p ∉ k.tcbFree) :
    (Code.queue (.insertThread waitQueueAddr p)).Does s null
      (k.setWait (insertThread k.waitQueue p)) := by
  have hq : ListHead.wait.Made s.known := trivial
  refine .set ⟨⟨hs.made hq, hs.loose_thread hp hr hw hf⟩, hp⟩ ?_ (hs.setWait ?_)
  · exact congrArg (fun l => (null, s.set waitQueueAddr (insertThread l p))) (hs.list_eq hq)
  · intro x hx
    rcases List.mem_append.mp hx with hx | hx
    · exact hs.items .wait trivial x hx
    · exact List.mem_singleton.mp hx ▸ hp

/-! The free lists. -/

theorem freeTcb (hs : s.Shows k) (hp : p ∈ threadArray) (hr : p ∉ k.readyQueue)
    (hw : p ∉ k.waitQueue) (hf : p ∉ k.tcbFree) :
    (Code.queue (.freeTcb p)).Does s null (k.freeTcb p) := by
  have hq : ListHead.tcbFree.Made s.known := trivial
  refine .set (a := tcbfreeSentinel) (l := k.tcbFree ++ [p])
    ⟨⟨hs.made hq, hs.loose_thread hp hr hw hf⟩, hp⟩ ?_ ?_
  · exact congrArg (fun l => (null, s.set tcbfreeSentinel (l ++ [p]))) (hs.list_eq hq)
  · refine hs.set (q := .tcbFree) hq rfl (fun x hx => ?_) (fun q hq => ?_) hs.msg rfl
      (fun _ => rfl) ?_
    · rcases List.mem_append.mp hx with hx | hx
      · exact hs.items .tcbFree hq x hx
      · exact List.mem_singleton.mp hx ▸ hp
    · cases q <;> first | rfl | exact absurd rfl hq
    · exact fun q hq => ⟨hq.1, fun hm => hq.2 (List.mem_append_left _ hm)⟩

theorem freeMsg {m : Msg} (hs : s.Shows k) (hm : m.addr ∈ msgArray) (hf : m.addr ∉ k.msgFree)
    (hi : ∀ p ∈ s.known, m.addr ∉ k.inboxBuffers p) :
    (Code.queue (.freeMsg m.addr)).Does s null (k.freeMsg m) := by
  have hq : ListHead.msgFree.Made s.known := trivial
  refine .set (a := msgfreeSentinel) (l := k.msgFree ++ [m.addr])
    ⟨⟨hs.made hq, hs.loose_msg hm hf hi⟩, hm⟩ ?_ ?_
  · exact congrArg (fun l => (null, s.set msgfreeSentinel (l ++ [m.addr]))) (hs.list_eq hq)
  · refine hs.set (q := .msgFree) hq rfl (fun x hx => ?_) (fun q hq => ?_) hs.msg rfl (fun _ => rfl)
      fun _ h => h
    · rcases List.mem_append.mp hx with hx | hx
      · exact hs.items .msgFree hq x hx
      · exact List.mem_singleton.mp hx ▸ hm
    · cases q <;> first | rfl | exact absurd rfl hq

/-- The inbox of a TCB gets other messages. -/
theorem setInbox {q : List Msg} (hs : s.Shows k) (hp : p ∈ s.known)
    (hm : ∀ x ∈ q, x.addr ∈ msgArray ∧ s.queues.msg x.addr = x) :
    (s.set (tInboxHead p) (q.map Msg.addr)).Shows (k.setInbox p q) := by
  have hbox : ∀ p', ((k.setInbox p q).tcb p').tInbox = if p' = p then q else (k.tcb p').tInbox := by
    intro p'
    by_cases hp' : p' = p
    · subst hp'
      simp [Kernel.setInbox, Kernel.setTcb]
    · simp [Kernel.setInbox, Kernel.setTcb, hp']
  refine hs.set (q := .inbox p) hp ?_ ?_ (fun q' hq' => ?_) ?_ rfl (fun p' => ?_) fun _ h => h
  · exact congrArg (List.map Msg.addr) ((hbox p).trans (if_pos rfl))
  · intro n hn
    obtain ⟨x, hx, rfl⟩ := List.mem_map.mp hn
    exact (hm x hx).1
  · cases q' with
    | inbox p' =>
      have hp' : p' ≠ p := fun he => hq' (he ▸ rfl)
      exact congrArg (List.map Msg.addr) ((hbox p').trans (if_neg hp'))
    | ready | wait | tcbFree | msgFree => rfl
  · intro p' hp' x hx
    rw [hbox] at hx
    split at hx
    · exact (hm x hx).2
    · exact hs.msg p' hp' x hx
  · by_cases hp' : p' = p
    · subst hp'
      simp [Kernel.setInbox, Kernel.setTcb]
    · simp [Kernel.setInbox, Kernel.setTcb, hp']

/-! The tree. -/

theorem node (hp : p ∈ s.known) : s.TreeNode (tSib p) := ⟨p, hp, .inr rfl⟩

/-- Links of the tree and parents change. -/
theorem relink {tree : Links.Heap Ptr} (hs : s.Shows k) (hc : tree.Closed s.TreeNode)
    (hk : k'.links = tree) (hl : ∀ q, k'.list q = k.list q)
    (hi : ∀ p, (k'.tcb p).tInbox = (k.tcb p).tInbox) (hf : k'.tcbFree = k.tcbFree)
    (hp : ∀ p ∈ s.known, (k'.tcb p).tParent = null ∨ (k'.tcb p).tParent ∈ s.known) :
    Lists.Shows { s with tree := tree } k' := by
  constructor
  case lists => exact fun q hq => hl q ▸ hs.lists q hq
  case only => exact hs.only
  case items => exact fun q hq n hn => hs.items q hq n (hl q ▸ hn)
  case msg => exact fun p hp x hx => hs.msg p hp x (hi p ▸ hx)
  case tree => exact hk.symm
  case closed => exact hc
  case known => exact hs.known
  case allocated => exact fun p h => hs.allocated p ⟨h.1, hf ▸ h.2⟩
  case parents => exact hp

/-- A TCB gets another parent, or none. -/
theorem setParent {c parent : Ptr} {tree : Links.Heap Ptr} (hs : s.Shows k)
    (hc : tree.Closed s.TreeNode) (hp : parent = null ∨ parent ∈ s.known) :
    Lists.Shows { s with tree := tree }
      { k.setTcb c (fun t => { t with tParent := parent }) with links := tree } := by
  have hbox : ∀ p, ((k.setTcb c fun t => { t with tParent := parent }).tcb p).tInbox =
      (k.tcb p).tInbox := by
    intro p
    by_cases hpc : p = c
    · subst hpc
      simp [Kernel.setTcb]
    · simp [Kernel.setTcb, hpc]
  refine hs.relink hc rfl (fun q => ?_) hbox rfl fun p hk => ?_
  · cases q with
    | inbox p => exact congrArg (List.map Msg.addr) (hbox p)
    | ready | wait | tcbFree | msgFree => rfl
  · by_cases hpc : p = c
    · subst hpc
      simpa [Kernel.setTcb] using hp
    · simpa [Kernel.setTcb, hpc] using hs.parents p hk

theorem insertChild {parent child : Ptr} (hs : s.Shows k) (hp : parent ∈ s.known)
    (hc : child ∈ s.known) : (Code.insertChild k.bare parent child).Does s
      (k.insertChild parent child).bare (k.insertChild parent child) := by
  refine .call ⟨node hc, parent, hp, .inl rfl⟩ rfl (fun _ h => h)
    (.done (Kernel.bare_setTcb fun _ => rfl) ?_)
  rw [hs.tree]
  exact hs.setParent (hs.tree ▸ hs.closed.addTail (node hc) ⟨parent, hp, .inl rfl⟩) (.inr hp)

theorem insertSibling {sibling new : Ptr} (hs : s.Shows k) (hp : sibling ∈ s.known)
    (hn : new ∈ s.known) : (Code.insertSibling k.bare sibling new).Does s
      (k.insertSibling sibling new).bare (k.insertSibling sibling new) := by
  refine .call ⟨node hn, node hp⟩ rfl (fun _ h => h) (.done rfl ?_)
  rw [hs.tree]
  refine hs.relink (hs.tree ▸ hs.closed.addTail (node hn) (node hp)) rfl (fun q => ?_)
    (fun _ => rfl) rfl hs.parents
  cases q <;> rfl

theorem detach (hs : s.Shows k) (hp : p ∈ s.known) :
    Lists.Shows { s with tree := s.tree.del (tSib p) } (k.detach p) := by
  rw [hs.tree]
  exact hs.setParent (hs.tree ▸ hs.closed.del (node hp)) (.inl rfl)

theorem outChild {child : Ptr} (hs : s.Shows k) (hc : child ∈ s.known) :
    (Code.outChild k.bare child).Does s (k.outChild child).bare (k.outChild child) := by
  by_cases hn : (k.tcb child).tParent = null
  · rw [Kernel.outChild_eq, if_pos hn]
    exact .pos hn (.done rfl hs)
  · rw [Kernel.outChild_eq, if_neg hn]
    exact .neg hn (.call (node hc) rfl (fun _ h => h)
      (.done (Kernel.bare_setTcb fun _ => rfl) (hs.detach hc)))

/-- The links of the tree lead to nodes of TCBs. -/
theorem first_ne_null {parent : Ptr} (hs : s.Shows k) (hp : parent ∈ s.known) :
    sibContainer (k.links.next (tChild parent)) ≠ null := by
  intro he
  have hnode : s.TreeNode (k.links.next (tChild parent)) :=
    hs.tree ▸ (hs.closed _ ⟨parent, hp, .inl rfl⟩).1
  have hbound := (hnode.cases hs.typed).1
  have hlow : k.links.next (tChild parent) = 20 := by
    rw [sibContainer, BitVec.sub_eq_iff_eq_add] at he
    exact he
  rw [hlow] at hbound
  exact absurd hbound (by decide)

/-- The first child has to be a TCB, which the links alone do not say. -/
theorem removeChild {parent : Ptr} (hs : s.Shows k) (hp : parent ∈ s.known)
    (hc : (k.removeChild parent).1 ≠ null → (k.removeChild parent).1 ∈ s.known) :
    (Code.removeChild k.bare parent).Does s
      ((k.removeChild parent).1, (k.removeChild parent).2.bare) (k.removeChild parent).2 := by
  have hne := hs.first_ne_null hp
  rw [Kernel.removeChild_eq] at hc ⊢
  refine .peek (⟨parent, hp, .inl rfl⟩ : s.TreeNode (tChild parent)) rfl ?_
  rw [hs.tree]
  by_cases he : k.links.isEmpty (tChild parent) = true
  · simp only [if_pos he]
    exact .pos trivial (.done rfl hs)
  · simp only [if_neg he] at hc ⊢
    have hk := hc hne
    refine .neg hne (.call (node hk) rfl (fun _ h => h) (.done ?_ (hs.detach hk)))
    exact congrArg _ (Kernel.bare_setTcb fun _ => rfl)

/-! Allocation of a TCB. -/

theorem alloc_list {free : List Ptr} {q : ListHead} (h : k.allocTcb = (p, k')) (hn : p ≠ null)
    (hf : k.tcbFree = p :: free) :
    k'.list q = if q = .inbox p then [] else if q = .tcbFree then free else k.list q := by
  obtain ⟨free', hf', rfl⟩ := Kernel.allocTcb_cases h hn
  cases hf.symm.trans hf'
  cases q with
  | ready | wait | tcbFree | msgFree => rfl
  | inbox p' =>
    by_cases hp : p' = p
    · subst hp
      simp [Kernel.list, Kernel.inboxBuffers, Kernel.freshTcb]
    · simp [Kernel.list, Kernel.inboxBuffers, hp]

/-- The lists after an allocation: an inbox and two nodes of the tree more. -/
theorem alloc (hs : s.Shows k) (h : k.allocTcb = (p, k')) (hn : p ≠ null) :
    s.allocTcb.2.Shows k' := by
  obtain ⟨free, hf, hk⟩ := Kernel.allocTcb_cases h hn
  have hl : s.queues.queue tcbfreeSentinel = some (p :: free) := hf ▸ hs.lists .tcbFree trivial
  have hlist := Queues.list_eq hl
  have hp : p ∈ threadArray := by
    refine hs.items .tcbFree trivial p (show p ∈ k.tcbFree from ?_)
    simp [hf]
  have hfree : ∀ x ∈ free, x ∈ k.tcbFree := by
    intro x hx
    rw [hf]
    exact List.mem_cons_of_mem _ hx
  obtain ⟨-, htree, hknown, hsender, hmessage⟩ := Lists.allocTcb_fields hlist
  have htyped := Lists.allocTcb_typed hs.typed hl hp
  have hnew : p ∈ s.allocTcb.2.known := by simp [hknown]
  have hbox : (ListHead.inbox p).Made s.allocTcb.2.known := hnew
  have hmade : ∀ q : ListHead, q.Made s.allocTcb.2.known → q = .inbox p ∨ q.Made s.known := by
    intro q hq
    cases q with
    | inbox p' =>
      have hq : p' ∈ s.allocTcb.2.known := hq
      rw [hknown] at hq
      exact (List.mem_cons.mp hq).imp (congrArg _) id
    | ready | wait | tcbFree | msgFree => exact .inr trivial
  have htcb : ∀ q, k'.tcb q = if q = p then Kernel.freshTcb else k.tcb q := by
    rw [hk]
    exact fun _ => rfl
  constructor
  case lists =>
    intro q hq
    have hhead := ListHead.isHead htyped.known hq
    have hsib : q.addr ≠ tSib p := fun he =>
      Lists.TreeNode.ne_head htyped ⟨p, hnew, .inr rfl⟩ hhead he.symm
    have hchild : q.addr ≠ tChild p := fun he =>
      Lists.TreeNode.ne_head htyped ⟨p, hnew, .inl rfl⟩ hhead he.symm
    rw [Lists.allocTcb_queue hlist, if_neg (not_or.mpr ⟨hsib, hchild⟩), alloc_list h hn hf]
    by_cases hqb : q = .inbox p
    · have ha : q.addr = tInboxHead p := congrArg ListHead.addr hqb
      rw [if_pos hqb, if_pos ha]
    · have hab : q.addr ≠ tInboxHead p := fun he => hqb (ListHead.addr_inj htyped.known hq hbox he)
      rw [if_neg hqb, if_neg hab]
      by_cases hqf : q = .tcbFree
      · have ha : q.addr = tcbfreeSentinel := congrArg ListHead.addr hqf
        rw [if_pos hqf, if_pos ha]
      · have haf : q.addr ≠ tcbfreeSentinel := fun he =>
          hqf (ListHead.addr_inj htyped.known hq (show ListHead.tcbFree.Made _ from trivial) he)
        rw [if_neg hqf, if_neg haf]
        exact hs.lists q ((hmade q hq).resolve_left hqb)
  case only =>
    intro a l ha
    rw [Lists.allocTcb_queue hlist] at ha
    split at ha
    · cases ha
    split at ha
    · exact ⟨.inbox p, hbox, ‹_›⟩
    split at ha
    · exact ⟨.tcbFree, trivial, ‹_›⟩
    · obtain ⟨q, hq, hqa⟩ := hs.only a l ha
      refine ⟨q, ?_, hqa⟩
      cases q with
      | inbox p' => exact hknown ▸ List.mem_cons_of_mem _ hq
      | ready | wait | tcbFree | msgFree => trivial
  case items =>
    intro q hq n hm
    rw [alloc_list h hn hf] at hm
    split at hm
    · cases hm
    split at hm
    · next hqf => exact hqf ▸ hs.items .tcbFree trivial n (hfree n hm)
    · exact hs.items q ((hmade q hq).resolve_left ‹_›) n hm
  case msg =>
    intro p' hp' x hx
    rw [htcb] at hx
    split at hx
    · simp [Kernel.freshTcb] at hx
    · rw [hknown] at hp'
      simp only [Queues.msg, hsender, hmessage]
      exact hs.msg p' ((List.mem_cons.mp hp').resolve_left ‹_›) x hx
  case tree =>
    rw [htree, hs.tree, hk]
  case closed => exact Lists.allocTcb_closed hs.closed hlist
  case known => exact htyped.known
  case allocated =>
    intro q hq
    rw [hknown]
    by_cases hqp : q = p
    · exact hqp ▸ List.mem_cons_self
    · have hfree' : k'.tcbFree = free := by rw [hk]
      refine List.mem_cons_of_mem _ (hs.allocated q ⟨hq.1, fun hm => hq.2 ?_⟩)
      rw [hf] at hm
      exact hfree' ▸ (List.mem_cons.mp hm).resolve_left hqp
  case parents =>
    intro q hq
    rw [hknown] at hq ⊢
    rw [htcb]
    split
    · exact .inl rfl
    · have hparent := hs.parents q ((List.mem_cons.mp hq).resolve_left ‹_›)
      exact hparent.imp id (List.mem_cons_of_mem _)

end Lists.Shows

end AmiKaya
