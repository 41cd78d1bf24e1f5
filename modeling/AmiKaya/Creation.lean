import AmiKaya.Clock
import AmiKaya.DeadTargets
import AmiKaya.MessageSlots
import AmiKaya.SendRecv

/-! The two services that create a thread, from the dispatch of the request to the next receive of
the SSI. -/
namespace AmiKaya
open Lts

namespace Kernel

variable {k k' : Kernel} {s t : Ptr} {v : U32}

/-- A message of the SSI wakes `t`, which waits for it or for anyone. -/
def Wakes (k : Kernel) (t : Ptr) : Prop := t ∈ k.waitQueue ∧ k.awaits t magicSsi = true

instance (k : Kernel) (t : Ptr) : Decidable (k.Wakes t) := inferInstanceAs (Decidable (_ ∧ _))

/-- The SSI can answer `t`: the place for the answer is aligned, or there is a buffer to queue it.
-/
def CanAnswer (k : Kernel) (t : Ptr) : Prop :=
  if k.Wakes t then (k.tcb t).reply.toNat % 4 = 0 else k.msgFree ≠ []

/-- The message `v` of the SSI has reached `t`; the tree, the free list and the count of threads are
the same, and nobody but `t` may have joined the ready queue. -/
structure Answered (k : Kernel) (t : Ptr) (v : U32) (k' : Kernel) : Prop where
  gets : k.Gets magicSsi t v k'
  readyQueue : k'.readyQueue = k.readyQueue ++ if k.Wakes t then [t] else []
  tcbFree : k'.tcbFree = k.tcbFree
  threadCount : k'.threadCount = k.threadCount
  links : k'.links = k.links
  tParent : ∀ p, (k'.tcb p).tParent = (k.tcb p).tParent
  currentThread : k'.currentThread = k.currentThread
  ssiTcb : k'.ssiTcb = k.ssiTcb

theorem Answered.quiet_right {k₁ : Kernel} (h : k.Answered t v k₁) (hq : Quiet k₁ k')
    (hm : k'.mem = k₁.mem) : k.Answered t v k' where
  gets := by
    rcases h.gets with ⟨hw, hn, hv⟩ | ⟨a, ha⟩
    · exact .inl ⟨hw, by rwa [hq.waitQueue], by rwa [hm]⟩
    · exact .inr ⟨a, by rw [hq.tInbox, ha]⟩
  readyQueue := hq.readyQueue.trans h.readyQueue
  tcbFree := hq.tcbFree.trans h.tcbFree
  threadCount := hq.threadCount.trans h.threadCount
  links := hq.links.trans h.links
  tParent p := (hq.tParent p).trans (h.tParent p)
  currentThread := hq.currentThread.trans h.currentThread
  ssiTcb := hq.ssiTcb.trans h.ssiTcb

theorem wakes_quiet (hq : Quiet k k') : k'.Wakes t ↔ k.Wakes t := by
  simp only [Wakes, awaits, hq.waitQueue, hq.waitingFor]

theorem canAnswer_quiet (hq : Quiet k k') : k'.CanAnswer t ↔ k.CanAnswer t := by
  have hw := wakes_quiet (t := t) hq
  unfold CanAnswer
  by_cases h : k.Wakes t
  · rw [if_pos h, if_pos (hw.mpr h), hq.reply]
  · rw [if_neg h, if_neg (fun h' => h (hw.mp h')), hq.msgFree]

theorem Answered.quiet_left {k₁ : Kernel} (hq : Quiet k k₁) (h : k₁.Answered t v k') :
    k.Answered t v k' where
  gets := h.gets.quiet_left hq
  readyQueue := by
    have hw := wakes_quiet (t := t) hq
    rw [h.readyQueue, hq.readyQueue]
    simp only [hw]
  tcbFree := h.tcbFree.trans hq.tcbFree
  threadCount := h.threadCount.trans hq.threadCount
  links := h.links.trans hq.links
  tParent p := (h.tParent p).trans (hq.tParent p)
  currentThread := h.currentThread.trans hq.currentThread
  ssiTcb := h.ssiTcb.trans hq.ssiTcb

theorem enqueue_empty {id : Ptr} (hf : k.msgFree = []) :
    k.enqueue id t v = .error (.panic .send) := by
  simp [enqueue, allocMsg, hf]

section

variable (hk : Placed k) (ht : t ∈ k.readyQueue ∨ t ∈ k.waitQueue) (hid : k.senderId s = magicSsi)

include hk ht in
theorem queued_ne_null : t ≠ null := by
  apply hk.ne_null
  rw [mem_places]
  exact ht.imp id .inl

include hk ht hid in
/-- A SEND of the SSI to a thread in a queue hands the message over or queues it. -/
theorem send_queued : k.send s t v =
    (if k.Wakes t then k.deliver magicSsi t v else k.enqueue magicSsi t v) >>= fun k =>
      .ok (msgGood, k) := by
  have hn := queued_ne_null hk ht
  simp only [send, hid, thereIsThread_ne_null]
  rcases ht with hr | hw
  · have hnw : ¬ k.Wakes t := fun h => (hk.ready_notMem hr).1 h.1
    rw [if_pos (.inl ⟨hr, hn⟩), if_neg hnw]
  · obtain ⟨hnr, -, hc⟩ := hk.wait_notMem hw
    have hnot : ¬ (t ∈ k.readyQueue ∧ t ≠ null ∨ k.currentThread = t) := by
      rintro (⟨hr, -⟩ | he)
      · exact hnr hr
      · exact hc he
    rw [if_neg hnot, if_pos ⟨hw, hn⟩]
    by_cases ha : k.awaits t magicSsi = true
    · rw [if_pos ha, if_pos ⟨hw, ha⟩]
    · rw [if_neg ha, if_neg fun h => ha h.2]

include hk ht hid in
theorem send_answers (hc : k.CanAnswer t) :
    ∃ k₁, k.send s t v = .ok (msgGood, k₁) ∧ k.Answered t v k₁ := by
  have hlive : k.Live t := ht.imp id .inl
  have hdevice : k.senderId s ≠ busIntervalTimer := by
    rw [hid]
    decide
  have hsend := send_queued (v := v) hk ht hid
  have hgets : ∀ k₁, k.send s t v = .ok (msgGood, k₁) → k.Gets magicSsi t v k₁ := by
    intro k₁ hok
    have h := send_gets hk hlive hdevice hok
    rwa [hid] at h
  unfold CanAnswer at hc
  by_cases hw : k.Wakes t
  · rw [if_pos hw] at hc hsend
    rw [deliver_waiting hw.1, if_pos hc] at hsend
    refine ⟨_, hsend, hgets _ hsend, ?_, rfl, rfl, rfl, ?_, rfl, rfl⟩
    · rw [if_pos hw]
      rfl
    · intro p
      by_cases hp : p = t
      · subst hp
        simp [delivered]
      · simp [delivered, hp]
  · rw [if_neg hw] at hc hsend
    obtain ⟨b, free, hf⟩ := List.exists_cons_of_ne_nil hc
    have henq : k.enqueue magicSsi t v = .ok (k.enqueued t ⟨b, magicSsi, v⟩ free) := by
      simp only [enqueue, allocMsg, hf]
      rfl
    rw [henq] at hsend
    refine ⟨_, hsend, hgets _ hsend, ?_, rfl, rfl, rfl, ?_, rfl, rfl⟩
    · rw [if_neg hw, List.append_nil]
      rfl
    · intro p
      by_cases hp : p = t
      · subst hp
        simp [enqueued]
      · simp [enqueued, hp]

include hk ht hid in
theorem send_fails (hc : ¬ k.CanAnswer t) : ∃ e, k.send s t v = .error e := by
  rw [send_queued hk ht hid]
  unfold CanAnswer at hc
  by_cases hw : k.Wakes t
  · rw [if_pos hw] at hc ⊢
    rw [deliver_waiting hw.1, if_neg hc]
    exact ⟨_, rfl⟩
  · rw [if_neg hw, ne_eq, not_not] at hc
    rw [if_neg hw, enqueue_empty hc]
    exact ⟨_, rfl⟩

end

/-! The call of the SSI that makes this SEND. -/

section

variable (hk : Placed k) (hcur : k.currentThread = k.ssiTcb) (hn : k.ssiTcb ≠ null)
  (ht : t ∈ k.readyQueue ∨ t ∈ k.waitQueue) (hv : v ≠ trapTerminate ∧ v ≠ trapContinue)

include hk hcur ht hv in
theorem answer_body (old : State) : ∃ k₁, Quiet k k₁ ∧ k₁.mem = k.mem ∧
    k.sysbpBody (old.syscall sysSend t v) = k₁.sendOrdinary k.ssiTcb t v := by
  have hmem : t ∈ threadArray := by
    apply hk.sub
    rw [mem_places]
    exact ht.imp id .inl
  have hne : t ≠ magicSsi := fun he => magicSsi_notMem_threadArray (he ▸ hmem)
  have hregs := old.syscall_regs sysSend t v
  have hrec : k.receiver (old.syscall sysSend t v) = t := by
    rw [receiver, hregs.2.1, if_neg hne]
  have henter : k.sendEnter (old.syscall sysSend t v) = k.sysbpEnter (old.syscall sysSend t v) := by
    rw [sendEnter, hregs.2.1, if_neg hne]
  refine ⟨_, sysbpEnter_quiet (old.syscall sysSend t v), rfl, ?_⟩
  rw [sysbpBody_send (old.syscall_isSend _ _) hrec (threadArray_aligned hmem), hregs.2.2, if_neg ?_,
    henter, hcur]
  rintro ⟨-, h | h⟩
  · exact hv.1 h
  · exact hv.2 h

include hk hcur hn ht hv in
theorem answer_ok (hc : k.CanAnswer t) (old : State) :
    ∃ k', k.perform old (.msgSend t v) = .ok (0, k') ∧ k.Answered t v k' := by
  obtain ⟨k₁, hq, -, hbody⟩ := answer_body hk hcur ht hv old
  have hk₁ := hk.of_perm (SamePlaces.quiet hq)
  have ht₁ : t ∈ k₁.readyQueue ∨ t ∈ k₁.waitQueue := by rwa [hq.readyQueue, hq.waitQueue]
  have hid : k₁.senderId k.ssiTcb = magicSsi := by rw [senderId, hq.ssiTcb, if_pos rfl]
  obtain ⟨k₂, hsend, hans⟩ := send_answers (v := v) hk₁ ht₁ hid ((canAnswer_quiet hq).mpr hc)
  obtain ⟨k₃, hk₃⟩ : ∃ k₃, k₃ = k₂.setTcb k.ssiTcb fun x =>
    { x with tState := x.tState.setV0 msgGood } := ⟨_, rfl⟩
  have hset : Quiet k₂ k₃ := hk₃ ▸ Quiet.setTcb fun _ => ⟨rfl, rfl, rfl, rfl⟩
  have hsched : k₃.scheduler = .ok k₃.resumeCurrent := by
    rw [scheduler, if_neg]
    rw [hset.currentThread, hans.currentThread, hq.currentThread, hcur]
    exact hn
  have hans₃ : k.Answered t v k₃.resumeCurrent := by
    have hmem : k₃.resumeCurrent.mem = k₂.mem := by
      rw [resumeCurrent_mem, hk₃]
      rfl
    exact (hans.quiet_right (hset.trans .resumeCurrent) hmem).quiet_left hq
  refine ⟨_, ?_, hans₃⟩
  simp only [perform, sysbpHandler, hbody, sendOrdinary, hsend, bind, Except.bind, ← hk₃, hsched]

include hk hcur ht hv in
theorem answer_error (hc : ¬ k.CanAnswer t) (old : State) :
    ∃ e, k.perform old (.msgSend t v) = .error e := by
  obtain ⟨k₁, hq, -, hbody⟩ := answer_body hk hcur ht hv old
  have hk₁ := hk.of_perm (SamePlaces.quiet hq)
  have ht₁ : t ∈ k₁.readyQueue ∨ t ∈ k₁.waitQueue := by rwa [hq.readyQueue, hq.waitQueue]
  have hid : k₁.senderId k.ssiTcb = magicSsi := by rw [senderId, hq.ssiTcb, if_pos rfl]
  obtain ⟨e, hsend⟩ := send_fails (v := v) hk₁ ht₁ hid fun h => hc ((canAnswer_quiet hq).mp h)
  refine ⟨e, ?_⟩
  simp only [perform, sysbpHandler, hbody, sendOrdinary, hsend, bind, Except.bind]

end

end Kernel

/-- The word that asks for a new thread. -/
def Create.service : Create → U32
  | .brother => createBrother
  | .son => createSon

namespace Machine

/-- Whatever the registers of the SSI hold at its calls, it gets to its next receive, after calls
and in a machine for which `Q` holds. -/
inductive Ensures (Q : List Call → Machine → Prop) : List Call → Machine → Prop
  | done {cs m} : m.ssi.pc = .recv → Q cs m → Ensures Q cs m
  | call {cs m} (next : State → Machine) : m.ssi.pc ≠ .recv →
      (∀ old, m.ssiStep old = .ok (next old)) →
      (∀ old, Ensures Q (cs ++ [m.ssi.call m.k]) (next old)) → Ensures Q cs m

variable {Q : List Call → Machine → Prop} {cs : List Call} {k k' : Kernel} {s s' : Ssi} {x : Call}
  {c : Create} {r new : Ptr}

theorem ssiStep_ok {old : State} (hr : s.misreads k = false)
    (h : k.perform old (s.call k) = .ok (r, k')) :
    ssiStep ⟨k, s⟩ old = .ok ⟨k', s.next k r⟩ := by
  simp only [ssiStep, Ssi.perform, hr, h, bind, Except.bind, Bool.false_eq_true, if_false]

theorem Ensures.next (old : State) (h : Ensures Q cs ⟨k, s⟩) (hpc : s.pc ≠ .recv)
    (hr : s.misreads k = false) (hx : s.call k = x) (hp : k.perform old x = .ok (r, k'))
    (hs : s.next k r = s') : Ensures Q (cs ++ [x]) ⟨k', s'⟩ := by
  subst hx hs
  cases h with
  | done hrecv _ => exact absurd hrecv hpc
  | call next _ hstep hrest =>
    have heq := (hstep old).symm.trans (ssiStep_ok hr hp)
    exact Except.ok.inj heq ▸ hrest old

/-- A call whose outcome does not depend on the registers. -/
def Sure (m : Machine) (x : Call) (m' : Machine) : Prop :=
  (m.ssi.pc ≠ .recv ∧ m.ssi.misreads m.k = false) ∧ m.ssi.call m.k = x ∧
    ∃ r, (∀ old, m.k.perform old x = .ok (r, m'.k)) ∧ m.ssi.next m.k r = m'.ssi

theorem ensures_sure {m m' : Machine} (h : m.Sure x m') :
    Ensures Q cs m ↔ Ensures Q (cs ++ [x]) m' := by
  obtain ⟨⟨hpc, hr⟩, hx, r, hp, hs⟩ := h
  refine ⟨fun h => h.next initTState hpc hr hx (hp _) hs, ?_⟩
  intro h
  refine .call (fun _ => m') hpc ?_ ?_
  · intro old
    have hok := ssiStep_ok (s := m.ssi) hr (hx ▸ hp old)
    rwa [hs] at hok
  · exact fun _ => hx ▸ h

theorem ensures_run {m m' : Machine} {xs : List Call} (h : Run Sure m xs m') :
    Ensures Q cs m ↔ Ensures Q (cs ++ xs) m' := by
  induction h generalizing cs with
  | refl => rw [List.append_nil]
  | stepL hs _ ih =>
    rw [ensures_sure hs, ih, List.append_assoc]
    rfl

theorem ensures_fails (hpc : s.pc ≠ .recv) {e : Stop} (hp : s.perform k initTState = .error e) :
    ¬ Ensures Q cs ⟨k, s⟩ := by
  intro h
  cases h with
  | done hrecv _ => exact hpc hrecv
  | call next _ hstep _ =>
    have hok := hstep initTState
    simp [ssiStep, hp, bind, Except.bind] at hok

theorem ensures_error (hpc : s.pc ≠ .recv) (hx : s.call k = x)
    (hp : ∀ old, ∃ e, k.perform old x = .error e) : ¬ Ensures Q cs ⟨k, s⟩ := by
  obtain ⟨e, he⟩ := hp initTState
  by_cases hr : s.misreads k
  · exact ensures_fails hpc (e := .trap) (by simp [Ssi.perform, hr])
  · exact ensures_fails hpc (e := e) (by simp [Ssi.perform, hr, hx, he])

/-- The messages among the calls. -/
def replies (cs : List Call) : List (Ptr × U32) := cs.filterMap fun
  | .msgSend d v => some (d, v)
  | _ => none

theorem replies_append (xs ys : List Call) : replies (xs ++ ys) = replies xs ++ replies ys :=
  List.filterMap_append

/-- What the requester and the system are to see of a creation that nothing interrupts. -/
structure CreationRight (m : Machine) (cs : List Call) (m' : Machine) : Prop where
  refused : m.k.tcbFree = [] → replies cs = [(m.ssi.reqThread, createNoGood)] ∧
    m.k.Answered m.ssi.reqThread createNoGood m'.k ∧
    ∀ p e, (m'.k.tcb p).manager e = (m.k.tcb p).manager e
  created : ∀ new free, m.k.tcbFree = new :: free → replies cs = [(m.ssi.reqThread, new)] ∧
    m.k.Gets magicSsi m.ssi.reqThread new m'.k ∧ m'.k.tcbFree = free ∧
    m'.k.threadCount = m.k.threadCount + 1 ∧
    m'.k.readyQueue = m.k.readyQueue ++ new :: if m.k.Wakes m.ssi.reqThread
      then [m.ssi.reqThread] else []

/-! With no TCB the service goes on after its reply, and stops at the link. -/

theorem link_fails (hl : s.pc = c.linkPc) (hn : s.newThread = null) : ¬ Ensures Q cs ⟨k, s⟩ := by
  have hlink : ∀ (s : Ssi) cs, s.pc = .link c → s.newThread = null → ¬ Ensures Q cs ⟨k, s⟩ := by
    intro s cs hpc hn
    refine ensures_error (by simp [hpc]) rfl fun old => ⟨.fault, ?_⟩
    cases c with
    | brother =>
      simp only [Ssi.call, hpc, hn]
      split <;> simp [Kernel.perform]
    | son => simp [Ssi.call, hpc, hn, Kernel.perform]
  cases c with
  | brother =>
    have hpc : s.pc = .readParent := hl
    have hread : Sure ⟨k, s⟩ .local ⟨k, s.next k 0⟩ :=
      ⟨⟨by simp [hpc], by simp [Ssi.misreads, Ssi.reads, hpc]⟩, by simp [Ssi.call, hpc], 0,
        fun _ => rfl, rfl⟩
    rw [ensures_sure hread]
    refine hlink _ _ ?_ ?_ <;> simp [Ssi.next, hpc, hn]
  | son => exact hlink s cs hl hn

section

variable (hk : Placed k) (hcur : k.currentThread = k.ssiTcb) (hssi : k.ssiTcb ≠ null)
  (hreq : s.reqThread ∈ k.readyQueue ∨ s.reqThread ∈ k.waitQueue)

include hk hcur hssi hreq in
theorem noGood_fails (hpc : s.pc = .noGood c) (hn : s.newThread = null) :
    ¬ Ensures Q cs ⟨k, s⟩ := by
  have hcall : s.call k = .msgSend s.reqThread createNoGood := by simp [Ssi.call, hpc]
  have hv : createNoGood ≠ trapTerminate ∧ createNoGood ≠ trapContinue := by decide
  by_cases hc : k.CanAnswer s.reqThread
  · intro h
    obtain ⟨k', hp, -⟩ := Kernel.answer_ok hk hcur hssi hreq hv hc initTState
    have hlink := h.next _ (by simp [hpc]) (by simp [Ssi.misreads, Ssi.reads, hpc]) hcall hp rfl
    refine link_fails (c := c) ?_ ?_ hlink <;> simp [Ssi.next, hpc, hn]
  · exact ensures_error (by simp [hpc]) hcall (Kernel.answer_error hk hcur hreq hv hc)

end

/-! With a TCB the new thread is built in private calls, then the SSI answers. -/

/-- Nothing has changed but the TCB of `new` and the links of the tree. -/
structure Private (new : Ptr) (k k' : Kernel) : Prop where
  readyQueue : k'.readyQueue = k.readyQueue
  waitQueue : k'.waitQueue = k.waitQueue
  tcbFree : k'.tcbFree = k.tcbFree
  msgFree : k'.msgFree = k.msgFree
  threadCount : k'.threadCount = k.threadCount
  currentThread : k'.currentThread = k.currentThread
  ssiTcb : k'.ssiTcb = k.ssiTcb
  mem : k'.mem = k.mem
  tcb : ∀ p, p ≠ new → k'.tcb p = k.tcb p

theorem Private.trans {k₁ : Kernel} (h : Private new k k₁) (h' : Private new k₁ k') :
    Private new k k' where
  readyQueue := h'.readyQueue.trans h.readyQueue
  waitQueue := h'.waitQueue.trans h.waitQueue
  tcbFree := h'.tcbFree.trans h.tcbFree
  msgFree := h'.msgFree.trans h.msgFree
  threadCount := h'.threadCount.trans h.threadCount
  currentThread := h'.currentThread.trans h.currentThread
  ssiTcb := h'.ssiTcb.trans h.ssiTcb
  mem := h'.mem.trans h.mem
  tcb p hp := (h'.tcb p hp).trans (h.tcb p hp)

theorem Private.setTcb (f : Tcb → Tcb) : Private new k (k.setTcb new f) := by
  constructor
  case tcb =>
    intro p hp
    simp [Kernel.setTcb, hp]
  all_goals rfl

theorem Private.links (l : Links.Heap Ptr) : Private new k { k with links := l } := by
  constructor <;> intros <;> rfl

theorem Private.insertChild (p : Ptr) : Private new k (k.insertChild p new) :=
  (setTcb _).trans (links _)

/-- The variables of the SSI that a creation does not touch after the allocation. -/
def KeepsRequest (new : Ptr) (s s' : Ssi) : Prop :=
  s'.newThread = new ∧ s'.reqThread = s.reqThread ∧ s'.reqStruct = s.reqStruct

/-- The calls that link a new thread; a brother needs the parent of the requester first. -/
theorem run_link (hl : s.pc = c.linkPc) (hn : s.newThread = new) (hne : new ≠ null) :
    ∃ k' s' xs, Run Sure ⟨k, s⟩ xs ⟨k', s'⟩ ∧ replies xs = [] ∧ Private new k k' ∧ s'.pc = .count c ∧
      KeepsRequest new s s' := by
  subst hn
  cases c with
  | brother =>
    have hpc : s.pc = .readParent := hl
    obtain ⟨s₁, hs₁⟩ : ∃ s₁, s₁ = { s with parent := (k.tcb s.reqThread).tParent, pc := .link .brother } :=
      ⟨_, rfl⟩
    have hread : Sure ⟨k, s⟩ .local ⟨k, s₁⟩ :=
      ⟨⟨by simp [hpc], by simp [Ssi.misreads, Ssi.reads, hpc]⟩, by simp [Ssi.call, hpc], 0,
        fun _ => rfl, by simp [Ssi.next, hpc, hs₁]⟩
    have hready : s₁.pc ≠ .recv ∧ s₁.misreads k = false := by simp [hs₁, Ssi.misreads, Ssi.reads]
    have hnext : (s₁.next k 0).pc = .count .brother ∧ KeepsRequest s.newThread s (s₁.next k 0) := by
      simp [Ssi.next, hs₁, KeepsRequest]
    by_cases hp : (k.tcb s.reqThread).tParent = null
    · have hlink : Sure ⟨k, s₁⟩ (.insertSibling s.reqThread s.newThread)
          ⟨k.insertSibling s.reqThread s.newThread, s₁.next k 0⟩ :=
        ⟨hready, by simp [Ssi.call, hs₁, hp], 0, fun _ => by simp [Kernel.perform, hne], rfl⟩
      exact ⟨_, _, _, .stepL hread (.single hlink), rfl, .links _, hnext⟩
    · have hlink : Sure ⟨k, s₁⟩ (.insertChild (k.tcb s.reqThread).tParent s.newThread)
          ⟨k.insertChild (k.tcb s.reqThread).tParent s.newThread, s₁.next k 0⟩ :=
        ⟨hready, by simp [Ssi.call, hs₁, hp], 0, fun _ => by simp [Kernel.perform, hne], rfl⟩
      exact ⟨_, _, _, .stepL hread (.single hlink), rfl, .insertChild _, hnext⟩
  | son =>
    have hpc : s.pc = .link .son := hl
    have hlink : Sure ⟨k, s⟩ (.insertChild s.reqThread s.newThread)
        ⟨k.insertChild s.reqThread s.newThread, s.next k 0⟩ :=
      ⟨⟨by simp [hpc], by simp [Ssi.misreads, Ssi.reads, hpc]⟩, by simp [Ssi.call, hpc], 0,
        fun _ => by simp [Kernel.perform, hne], rfl⟩
    exact ⟨_, _, _, .single hlink, rfl, .insertChild _, by simp [Ssi.next, hpc],
      by simp [Ssi.next, hpc, KeepsRequest]⟩

/-- The new thread is counted before it gets its state. -/
theorem run_count (hl : s.pc = c.linkPc) (hn : s.newThread = new) (hne : new ≠ null) :
    ∃ k' s' xs, Run Sure ⟨k, s⟩ xs ⟨k', s'⟩ ∧ replies xs = [] ∧
      Private new { k with threadCount := k.threadCount + 1 } k' ∧ s'.pc = .copyState c ∧
      KeepsRequest new s s' := by
  obtain ⟨k₁, s₁, xs₁, hr₁, hx₁, hk₁, hpc₁, hkeep⟩ := run_link (k := k) hl hn hne
  have hcount : Sure ⟨k₁, s₁⟩ .countThread
      ⟨{ k₁ with threadCount := k₁.threadCount + 1 }, { s₁ with pc := .copyState c }⟩ :=
    ⟨⟨by simp [hpc₁], by simp [Ssi.misreads, Ssi.reads, hpc₁]⟩, by simp [Ssi.call, hpc₁], 0,
      fun _ => rfl, by simp [Ssi.next, hpc₁]⟩
  refine ⟨_, _, _, hr₁.append (.single hcount), by rw [replies_append, hx₁]; rfl, ?_, rfl, hkeep⟩
  constructor
  case threadCount => exact congrArg (· + 1) hk₁.threadCount
  case readyQueue => exact hk₁.readyQueue
  case waitQueue => exact hk₁.waitQueue
  case tcbFree => exact hk₁.tcbFree
  case msgFree => exact hk₁.msgFree
  case currentThread => exact hk₁.currentThread
  case ssiTcb => exact hk₁.ssiTcb
  case mem => exact hk₁.mem
  case tcb => exact hk₁.tcb

/-- The calls that give it its state, and the managers of its parent. -/
theorem run_state (hl : s.pc = .copyState c) (hn : s.newThread = new)
    (hreq : (k.mem s.reqStruct).toNat % 4 = 0) (harg : (s.arg k).toNat % 4 = 0) :
    ∃ k' s' xs, Run Sure ⟨k, s⟩ xs ⟨k', s'⟩ ∧ replies xs = [] ∧ Private new k k' ∧ s'.pc = .publish ∧
      KeepsRequest new s s' := by
  subst hn
  have hcopy : Sure ⟨k, s⟩ (.copyState (s.arg k) s.newThread)
      ⟨k.setState s.newThread (k.loadState (s.arg k)), s.next k 0⟩ :=
    ⟨⟨by simp [hl], by simp [Ssi.misreads, hreq]⟩, by simp [Ssi.call, hl], 0,
      fun _ => by simp [Kernel.perform, harg], rfl⟩
  cases c with
  | brother =>
    exact ⟨_, _, _, .single hcopy, rfl, .setTcb _, by simp [Ssi.next, hl],
      by simp [Ssi.next, hl, KeepsRequest]⟩
  | son =>
    obtain ⟨k₁, hk₁⟩ : ∃ k₁, k₁ = k.setState s.newThread (k.loadState (s.arg k)) := ⟨_, rfl⟩
    obtain ⟨s₁, hs₁⟩ : ∃ s₁, s₁ = s.next k 0 := ⟨_, rfl⟩
    rw [← hk₁, ← hs₁] at hcopy
    have hpc₁ : s₁.pc = .inherit ∧ KeepsRequest s.newThread s s₁ := by
      simp [hs₁, Ssi.next, hl, KeepsRequest]
    obtain ⟨hpc₁, hnew, hthread, hstruct⟩ := hpc₁
    have hinherit : Sure ⟨k₁, s₁⟩ (.inherit s.reqThread s.newThread) ⟨k₁.setTcb s.newThread fun t =>
        { t with sysbpManagerThread := (k₁.tcb s.reqThread).sysbpManagerThread
                 pgmtrapManagerThread := (k₁.tcb s.reqThread).pgmtrapManagerThread
                 tlbtrapManagerThread := (k₁.tcb s.reqThread).tlbtrapManagerThread }, s₁.next k₁ 0⟩ :=
      ⟨⟨by simp [hpc₁], by simp [Ssi.misreads, Ssi.reads, hpc₁]⟩,
        by simp [Ssi.call, hpc₁, hnew, hthread], 0, fun _ => rfl, rfl⟩
    refine ⟨_, _, _, .stepL hcopy (.single hinherit), rfl, ?_, by simp [Ssi.next, hpc₁],
      by simp [Ssi.next, hpc₁, KeepsRequest, hnew, hthread, hstruct]⟩
    have hset : Private s.newThread k k₁ := hk₁ ▸ .setTcb _
    exact hset.trans (.setTcb _)

/-- Between the allocation and the reply: `new` has joined the ready queue and the count. -/
structure Built (k : Kernel) (new : Ptr) (k' : Kernel) : Prop where
  readyQueue : k'.readyQueue = k.readyQueue ++ [new]
  waitQueue : k'.waitQueue = k.waitQueue
  tcbFree : k'.tcbFree = k.tcbFree
  msgFree : k'.msgFree = k.msgFree
  threadCount : k'.threadCount = k.threadCount + 1
  currentThread : k'.currentThread = k.currentThread
  ssiTcb : k'.ssiTcb = k.ssiTcb
  tcb : ∀ p, p ≠ new → k'.tcb p = k.tcb p

/-- The calls from the copy of the state to the insertion in the ready queue. -/
theorem run_built {k₁ : Kernel} (hl : s.pc = .copyState c) (hn : s.newThread = new)
    (hreq : (k₁.mem s.reqStruct).toNat % 4 = 0) (harg : (s.arg k₁).toNat % 4 = 0)
    (hk₁ : Private new { k with threadCount := k.threadCount + 1 } k₁) :
    ∃ k' s' xs, Run Sure ⟨k₁, s⟩ xs ⟨k', s'⟩ ∧ replies xs = [] ∧ Built k new k' ∧
      s'.pc = .answerThread ∧ s'.newThread = new ∧ s'.reqThread = s.reqThread := by
  obtain ⟨k₂, s₂, xs₂, hr₂, hx₂, hk₂, hpc₂, hn₂, hq₂, -⟩ := run_state hl hn hreq harg
  have hpub : Sure ⟨k₂, s₂⟩ (.insertReady new)
      ⟨{ k₂ with readyQueue := insertThread k₂.readyQueue new }, s₂.next k₂ 0⟩ :=
    ⟨⟨by simp [hpc₂], by simp [Ssi.misreads, Ssi.reads, hpc₂]⟩, by simp [Ssi.call, hpc₂, hn₂], 0,
      fun _ => rfl, rfl⟩
  have hin := hk₁.trans hk₂
  refine ⟨_, _, _, hr₂.append (.single hpub), by rw [replies_append, hx₂]; rfl, ?_,
    by simp [Ssi.next, hpc₂], by simp [Ssi.next, hpc₂, hn₂], by simp [Ssi.next, hpc₂, hq₂]⟩
  constructor
  case readyQueue => exact congrArg (· ++ [new]) hin.readyQueue
  case waitQueue => exact hin.waitQueue
  case tcbFree => exact hin.tcbFree
  case msgFree => exact hin.msgFree
  case threadCount => exact hin.threadCount
  case currentThread => exact hin.currentThread
  case ssiTcb => exact hin.ssiTcb
  case tcb => exact hin.tcb

/-- The new TCB has come off the free list, and the thread is in its places before the reply. -/
theorem Built.placed {k₁ : Kernel} {free : List Ptr} (hb : Built k₁ new k') (hk : Placed k)
    (hf : k.tcbFree = new :: free) (hk₁ : k₁ = k.allocTcb.2) : Placed k' ∧
      k'.readyQueue = k.readyQueue ++ [new] ∧ k'.waitQueue = k.waitQueue ∧ k'.tcbFree = free ∧
      k'.msgFree = k.msgFree ∧ k'.threadCount = k.threadCount + 1 ∧
      k'.currentThread = k.currentThread ∧ k'.ssiTcb = k.ssiTcb ∧
      ∀ p, p ≠ new → k'.tcb p = k.tcb p := by
  have halloc : k₁ = { k with
      tcb := put k.tcb new Kernel.freshTcb, tcbFree := free
      links := (k.links.init (tChild new)).init (tSib new) } := by
    simp [hk₁, Kernel.allocTcb, hf, Kernel.setTcb]
  subst halloc
  have hready : k'.readyQueue = k.readyQueue ++ [new] := hb.readyQueue
  have hfree : k'.tcbFree = free := hb.tcbFree
  refine ⟨?_, hready, hb.waitQueue, hfree, hb.msgFree, hb.threadCount, hb.currentThread, hb.ssiTcb, ?_⟩
  · apply hk.of_perm
    have hrun : k'.running = k.running := Kernel.running_eq hb.currentThread
    have hwait : k'.waitQueue = k.waitQueue := hb.waitQueue
    simp only [Kernel.places, hready, hwait, hfree, hf, hrun, List.perm_iff_count]
    intro p
    simp only [List.count_append, List.count_cons, List.count_nil]
    omega
  · intro p hp
    exact (hb.tcb p hp).trans (by simp [hp])

/-- The reply can be made when it could be made before the creation. -/
theorem canAnswer_built {t : Ptr} (hw : k'.waitQueue = k.waitQueue) (hm : k'.msgFree = k.msgFree)
    (ht : k'.tcb t = k.tcb t) :
    (k'.Wakes t ↔ k.Wakes t) ∧ (k'.CanAnswer t ↔ k.CanAnswer t) := by
  have hwakes : k'.Wakes t ↔ k.Wakes t := by
    simp only [Kernel.Wakes, Kernel.awaits, hw, ht]
  refine ⟨hwakes, ?_⟩
  unfold Kernel.CanAnswer
  by_cases h : k.Wakes t
  · rw [if_pos h, if_pos (hwakes.mpr h), ht]
  · rw [if_neg h, if_neg (fun h' => h (hwakes.mp h')), hm]

/-- The SSI is about to serve a thread in a queue that asked for a new thread. -/
def AsksCreation (m : Machine) (c : Create) : Prop :=
  m.k.currentThread = m.k.ssiTcb ∧ m.ssi.pc = .serve ∧ m.ssi.service m.k = c.service ∧
    (m.ssi.reqThread ∈ m.k.readyQueue ∨ m.ssi.reqThread ∈ m.k.waitQueue)

/-- The pointer to the request, and the one to the state in it, are aligned. -/
def Readable (m : Machine) : Prop :=
  (m.k.mem m.ssi.reqStruct).toNat % 4 = 0 ∧ (m.ssi.arg m.k).toNat % 4 = 0

/-- The service is dispatched. -/
theorem sure_serve {s : Ssi} (hpc : s.pc = .serve) (hserv : s.service k = c.service)
    (hreq : (k.mem s.reqStruct).toNat % 4 = 0) :
    Sure ⟨k, s⟩ .local ⟨k, { s with pc := .alloc c }⟩ := by
  refine ⟨⟨by simp [hpc], by simp [Ssi.misreads, hreq]⟩, ?_, 0, fun _ => rfl, ?_⟩
  · have hmem : c.service ∈ [waitForClock, createBrother, createSon, terminateService, specPrgMgr,
        specTlbMgr, specSysMgr, getCpuTime, waitForIo] := by cases c <;> decide
    simp only [Ssi.call, hpc, hserv, if_pos hmem]
  · have hclock : c.service ≠ waitForClock := by cases c <;> decide
    simp only [Ssi.next, hpc, Ssi.dispatch, hserv, if_neg hclock]
    cases c with
    | brother => exact if_pos rfl
    | son =>
      have hson : Create.son.service ≠ createBrother := by decide
      rw [if_neg hson]
      exact if_pos rfl

/-- A TCB taken off the free list is no word a manager sends as a decision. -/
theorem new_ne_decision (hk : Placed k) (hnew : new ∈ k.tcbFree) :
    new ≠ null ∧ new ≠ trapTerminate ∧ new ≠ trapContinue := by
  have hm : new ∈ k.places := Kernel.mem_places.mpr (.inr (.inr (.inl hnew)))
  have hb := threadArray_toNat (hk.sub new hm)
  refine ⟨hk.ne_null hm, ?_, ?_⟩
  · rintro rfl
    simp [trapTerminate] at hb
  · rintro rfl
    simp [trapContinue] at hb

instance (m : Machine) (c : Create) : Decidable (m.AsksCreation c) :=
  inferInstanceAs (Decidable (_ ∧ _ ∧ _ ∧ _))

instance (m : Machine) : Decidable m.Readable := inferInstanceAs (Decidable (_ ∧ _))

/-- A thread asks for a son; the SSI looks at the request. -/
def sonAsked : List Event := Event.ssiRequest createSon 0 ++ Event.ssiCalls 3

/-- A thread has a son, and the son waits for a message. -/
def oneSon : List Event :=
  Event.ssiRequest createSon 0 ++ Event.ssiCalls 12 ++ [.call sysRecv anyMessage 0x20030200]

/-- The last free TCB has gone to the eighteenth son when the test thread asks for one more. -/
def manySons : List Event :=
  Event.ssiCalls 2 ++ (List.replicate 18 oneSon).flatten ++ sonAsked

end Machine

end AmiKaya
