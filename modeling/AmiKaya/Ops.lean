import AmiKaya.Machine
import AmiKaya.Lts

/-! The operations a kernel entry or a call of the SSI is made of. Everything that touches a
queue, an inbox, a waiting field, a counter or the tree is named; the rest is quiet. -/
namespace AmiKaya
open Lts

/-- Nothing but saved states, times, timers, registers, managers and memory has changed. -/
structure Quiet (k k' : Kernel) : Prop where
  readyQueue : k'.readyQueue = k.readyQueue
  waitQueue : k'.waitQueue = k.waitQueue
  tcbFree : k'.tcbFree = k.tcbFree
  msgFree : k'.msgFree = k.msgFree
  currentThread : k'.currentThread = k.currentThread
  ssiTcb : k'.ssiTcb = k.ssiTcb
  threadCount : k'.threadCount = k.threadCount
  softBlockCount : k'.softBlockCount = k.softBlockCount
  links : k'.links = k.links
  tParent : ∀ p, (k'.tcb p).tParent = (k.tcb p).tParent
  tInbox : ∀ p, (k'.tcb p).tInbox = (k.tcb p).tInbox
  waitingFor : ∀ p, (k'.tcb p).waitingFor = (k.tcb p).waitingFor
  reply : ∀ p, (k'.tcb p).reply = (k.tcb p).reply

namespace Quiet

variable {k k' k'' : Kernel}

theorem refl (k : Kernel) : Quiet k k := by constructor <;> intros <;> rfl

theorem trans (h : Quiet k k') (h' : Quiet k' k'') : Quiet k k'' where
  readyQueue := h'.readyQueue.trans h.readyQueue
  waitQueue := h'.waitQueue.trans h.waitQueue
  tcbFree := h'.tcbFree.trans h.tcbFree
  msgFree := h'.msgFree.trans h.msgFree
  currentThread := h'.currentThread.trans h.currentThread
  ssiTcb := h'.ssiTcb.trans h.ssiTcb
  threadCount := h'.threadCount.trans h.threadCount
  softBlockCount := h'.softBlockCount.trans h.softBlockCount
  links := h'.links.trans h.links
  tParent p := (h'.tParent p).trans (h.tParent p)
  tInbox p := (h'.tInbox p).trans (h.tInbox p)
  waitingFor p := (h'.waitingFor p).trans (h.waitingFor p)
  reply p := (h'.reply p).trans (h.reply p)

/-- A store in a TCB is quiet when it leaves the fields of message passing and the parent alone. -/
theorem setTcb {p : Ptr} {f : Tcb → Tcb}
    (hf : ∀ t, (f t).tParent = t.tParent ∧ (f t).tInbox = t.tInbox ∧
      (f t).waitingFor = t.waitingFor ∧ (f t).reply = t.reply) : Quiet k (k.setTcb p f) := by
  have hp : ∀ q, (k.setTcb p f).tcb q = k.tcb q ∨ (k.setTcb p f).tcb q = f (k.tcb q) := by
    intro q
    by_cases hq : q = p
    · subst q
      exact .inr (by simp [Kernel.setTcb])
    · exact .inl (by simp [Kernel.setTcb, hq])
  constructor
  case tParent | tInbox | waitingFor | reply =>
    intro q
    rcases hp q with h | h <;> simp [h, hf]
  all_goals rfl

theorem setState (p : Ptr) (s : State) : Quiet k (k.setState p s) :=
  setTcb fun _ => ⟨rfl, rfl, rfl, rfl⟩

theorem readTodlow : Quiet k k.readTodlow := by constructor <;> intros <;> rfl

theorem chargeSlice : Quiet k k.chargeSlice :=
  readTodlow.trans (setTcb fun _ => ⟨rfl, rfl, rfl, rfl⟩)

theorem chargeTime : Quiet k k.chargeTime :=
  readTodlow.trans (setTcb fun _ => ⟨rfl, rfl, rfl, rfl⟩)

theorem enter (old : State) : Quiet k (k.enter old) :=
  chargeSlice.trans (chargeTime.trans (setState _ _))

theorem updatePseudoTick : Quiet k k.updatePseudoTick := by constructor <;> intros <;> rfl

theorem resetSlice : Quiet k k.resetSlice := setTcb fun _ => ⟨rfl, rfl, rfl, rfl⟩

theorem startTod : Quiet k k.startTod := by constructor <;> intros <;> rfl

theorem setTimer (slice : U32) : Quiet k (k.setTimer slice) := by
  unfold Kernel.setTimer
  split <;> constructor <;> intros <;> rfl

theorem ldst : Quiet k k.ldst := by constructor <;> intros <;> rfl

theorem resumeCurrent : Quiet k k.resumeCurrent :=
  updatePseudoTick.trans (startTod.trans ((setTimer _).trans ldst))

theorem dispatch (p : Ptr) (rest : List Ptr) :
    Quiet { k with currentThread := p, readyQueue := rest } (k.dispatch p rest) :=
  updatePseudoTick.trans (resetSlice.trans (startTod.trans ((setTimer _).trans ldst)))

theorem fillSlot (service arg : U32) : Quiet k (k.fillSlot service arg) := by
  constructor <;> intros <;> rfl

theorem ioStore (a : Ptr) (v : U32) : Quiet k (k.ioStore a v) := by constructor <;> intros <;> rfl

theorem storeWord {a : Ptr} {v : U32} (h : k.storeWord a v = .ok k') : Quiet k k' := by
  unfold Kernel.storeWord at h
  split at h <;> cases h
  constructor <;> intros <;> rfl

theorem addManager (m : Ptr) : Quiet k (k.addManager m) := by constructor <;> intros <;> rfl

theorem deleteManager (m : Ptr) : Quiet k (k.deleteManager m) := by
  constructor <;> intros <;> rfl

theorem setManager (e : Trap) (p m : Ptr) : Quiet k (k.setTcb p fun t => t.setManager e m) :=
  setTcb (by intro t; cases e <;> simp [Tcb.setManager])

end Quiet

/-- The operations, with what distinguishes them. -/
inductive Op
  | quiet
  | request
  | send (sender target : Ptr) (payload result : U32)
  | recv (receiver sender reply result : Ptr)
  | freeze (thread manager : Ptr)
  | terminate (target : Ptr)
  | resume (target : Ptr)
  | dispatch (p : Ptr)
  | preempt (p : Ptr)
  | alloc (p : Ptr)
  | insertChild (parent child : Ptr)
  | insertSibling (sibling new : Ptr)
  | countThread
  | publish (p : Ptr)

/-- The thread on the processor, if there is one. -/
def Kernel.running (k : Kernel) : List Ptr :=
  if k.currentThread = null then [] else [k.currentThread]

/-- The TCBs in a queue, in the free list or on the processor. -/
def Kernel.places (k : Kernel) : List Ptr := k.readyQueue ++ k.waitQueue ++ k.tcbFree ++ k.running

/-- `insertThread(&wait_queue, current_thread)` after a trap, and the processor is given up. -/
def Kernel.freeze (k : Kernel) (manager : Ptr) : Kernel :=
  { k.setTcb k.currentThread (fun t => { t with waitingFor := manager }) with
    waitQueue := insertThread k.waitQueue k.currentThread, currentThread := null }

/-- One operation on the kernel. -/
inductive OpStep : Kernel → Op → Kernel → Prop
  | quiet {k k'} : Quiet k k' → OpStep k .quiet k'
  | request {k} : OpStep k .request { k with softBlockCount := k.softBlockCount + 1 }
  | send {k k' s t p r} : k.send s t p = .ok (r, k') → OpStep k (.send s t p r) k'
  | recv {k k' s a r} : k.currentThread ≠ null → k.recv k.currentThread s a = .ok (r, k') →
      OpStep k (.recv k.currentThread s a r) k'
  | freeze {k m} : k.currentThread ≠ null → m ≠ null → OpStep k (.freeze k.currentThread m) (k.freeze m)
  | terminate {k k' t} : t ≠ null → k.terminate t = .ok k' → OpStep k (.terminate t) k'
  | resume {k k' t} : k.continueTrapped t = .ok k' → OpStep k (.resume t) k'
  | dispatch {k p rest} : k.currentThread = null → k.readyQueue = p :: rest →
      OpStep k (.dispatch p) { k with currentThread := p, readyQueue := rest }
  | preempt {k} : k.currentThread ≠ null → OpStep k (.preempt k.currentThread)
      { k with readyQueue := insertThread k.readyQueue k.currentThread, currentThread := null }
  | alloc {k p k'} : k.allocTcb = (p, k') → p ≠ null → OpStep k (.alloc p) k'
  | insertChild {k p c} : c ≠ null → OpStep k (.insertChild p c) (k.insertChild p c)
  | insertSibling {k s n} : n ≠ null → OpStep k (.insertSibling s n) (k.insertSibling s n)
  | countThread {k} : OpStep k .countThread { k with threadCount := k.threadCount + 1 }
  | publish {k p} : p ∈ threadArray → p ∉ k.places → OpStep k (.publish p)
      { k with readyQueue := insertThread k.readyQueue p }

/-- Some sequence of operations that all satisfy `P`. -/
def Ops (P : Op → Prop) (k k' : Kernel) : Prop :=
  ∃ ls, Run (fun k o k' => OpStep k o k' ∧ P o) k ls k'

namespace Ops

variable {P Q : Op → Prop} {k k' k'' : Kernel} {o : Op}

theorem refl : Ops P k k := ⟨[], .refl⟩

theorem one (h : OpStep k o k') (ho : P o) : Ops P k k' := ⟨[o], .single ⟨h, ho⟩⟩

theorem trans (h : Ops P k k') (h' : Ops P k' k'') : Ops P k k'' := by
  obtain ⟨ls, hl⟩ := h
  obtain ⟨ls', hl'⟩ := h'
  exact ⟨ls ++ ls', hl.append hl'⟩

theorem quiet (h : Quiet k k') (hp : P .quiet) : Ops P k k' := one (.quiet h) hp

/-- An invariant of every allowed operation is an invariant of the sequence. -/
theorem inv {I : Kernel → Prop} (hI : ∀ k o k', OpStep k o k' → P o → I k → I k')
    (h : Ops P k k') (hk : I k) : I k' := by
  obtain ⟨ls, hl⟩ := h
  exact hl.inv (fun _ _ _ hs => hI _ _ _ hs.1 hs.2) hk

end Ops

end AmiKaya
