import AmiKaya.NestedTraps
import AmiKaya.Traps

/-! A message that is queued and then received, and one that finds its receiver waiting: two ways
through different code to the same outcome, if the address for the message is aligned. -/
namespace AmiKaya
open Lts

theorem popMessage_append {q : List Msg} {w : Ptr} {m : Msg} (hm : w = anyMessage ∨ m.mSender = w)
    (hq : ∀ x ∈ q, ¬ Accepts w x) : popMessage (q ++ [m]) w = some (m, q) := by
  induction q with
  | nil =>
    rcases hm with rfl | hm
    · rfl
    · simp [popMessage, hm]
  | cons x q ih =>
    have hx := hq x List.mem_cons_self
    simp only [Accepts, not_or] at hx
    have hw : w ≠ null := hx.1
    rw [List.cons_append, popMessage, if_neg hw, if_neg hx.2,
      ih fun y hy => hq y (List.mem_cons_of_mem _ hy)]
    rfl

theorem popMessage_refused {q : List Msg} {w : Ptr} (hq : ∀ x ∈ q, ¬ Accepts w x) :
    popMessage q w = none := by
  induction q with
  | nil => rfl
  | cons x q ih =>
    have hx := hq x List.mem_cons_self
    simp only [Accepts, not_or] at hx
    have hw : w ≠ null := hx.1
    rw [popMessage, if_neg hw, if_neg hx.2, ih fun y hy => hq y (List.mem_cons_of_mem _ hy)]
    rfl

theorem State.setV0_setV0 (s : State) (v w : U32) : (s.setV0 v).setV0 w = s.setV0 w := by
  simp [setV0, setReg]

namespace Kernel

variable {k k' : Kernel} {s r : Ptr} {v : U32} {old : State}

/-- `r` gets the processor, and the thread that had it goes to the tail of the ready queue. -/
def yieldTo (k : Kernel) (r : Ptr) : Kernel :=
  { k with currentThread := r, readyQueue := (k.readyQueue ++ k.running).erase r }

/-- `s` sends to `r`, which then makes its RECV. If this traps, `pgmtrap_handler` runs for `r` and
finds the state `old'` in its old area. -/
def sendThenRecv (k : Kernel) (s r : Ptr) (v : U32) (old old' : State) : Except Stop Kernel := do
  let x ← k.send s r v
  let k := x.2.yieldTo r
  match k.sysRecvCase old with
  | .error .trap => (k.takeMessage old.regA1).pgmtrapBody old'
  | y => y

/-- `r` makes its RECV, then `s` sends to it. If this traps, `pgmtrap_handler` runs for `s`. -/
def recvThenSend (k : Kernel) (s r : Ptr) (v : U32) (old old' : State) : Except Stop Kernel := do
  let k ← (k.yieldTo r).sysRecvCase old
  match k.send s r v with
  | .error .trap => (k.yieldTo s).pgmtrapBody old'
  | .error e => .error e
  | .ok x => .ok x.2

/-- `r` has been handed the payload of `id` at the address `a`, and nothing is left of the message.
-/
structure Handed (k : Kernel) (r id a : Ptr) (v : U32) (k' : Kernel) : Prop where
  mem : k'.mem = put k.mem a v
  tState : (k'.tcb r).tState = (k.tcb r).tState.setV0 id
  tInbox : (k'.tcb r).tInbox = (k.tcb r).tInbox
  waitingFor : (k'.tcb r).waitingFor = notWaiting
  reply : (k'.tcb r).reply = notWaiting
  runnable : r ∈ k'.readyQueue ∨ k'.currentThread = r
  msgFree : k'.msgFree.length = k.msgFree.length

/-- The kernel after a message has been put at the tail of an inbox. -/
def enqueued (k : Kernel) (t : Ptr) (m : Msg) (free : List Ptr) : Kernel :=
  { k with msgFree := free
           tcb := put k.tcb t { k.tcb t with tInbox := (k.tcb t).tInbox ++ [m] } }

/-- A message to a thread that does not wait is queued, in a free buffer. -/
theorem send_runnable {b : Ptr} {free : List Ptr} (hr : r ∈ k.readyQueue ∨ k.currentThread = r)
    (hn : r ≠ null) (hid : k.senderId s ≠ busIntervalTimer) (hf : k.msgFree = b :: free) :
    k.send s r v = .ok (msgGood, k.enqueued r ⟨b, k.senderId s, v⟩ free) := by
  have hready : thereIsThread k.readyQueue r ≠ null ∨ k.currentThread = r := by
    rcases hr with hr | hr
    · exact .inl (thereIsThread_ne_null.mpr ⟨hr, hn⟩)
    · exact .inr hr
  simp only [send, if_pos hready, enqueue, allocMsg, hf, if_neg hid, insertMessage, setTcb]
  rfl

theorem recv_found {p w a : Ptr} {m : Msg} {rest : List Msg}
    (hp : popMessage (k.tcb p).tInbox w = some (m, rest)) : k.recv p w a =
      if a.toNat % 4 = 0 then .ok (if w = anyMessage then m.mSender else w, k.received p w a m rest)
      else .error .trap := by
  by_cases hw : w = anyMessage
  · subst hw
    have hne : anyMessage ≠ magicSsi := by decide
    have hp' : popMessage (k.tcb p).tInbox null = some (m, rest) := hp
    by_cases ha : a.toNat % 4 = 0
    · simp [recv, hp', storeWord, ha, bind, Except.bind, received, freeMsg, setTcb, hne]
    · simp [recv, hp', storeWord, ha, bind, Except.bind]
  · by_cases ha : a.toNat % 4 = 0
    · simp only [recv, if_neg hw, hp, storeWord, if_pos ha, bind, Except.bind]
      split <;> simp_all [received, freeMsg, setTcb]
    · simp [recv, hw, hp, storeWord, ha, bind, Except.bind]

theorem recv_blocks {p w a : Ptr} (hp : popMessage (k.tcb p).tInbox w = none) :
    k.recv p w a = .ok (null, k.block p w a) := by
  by_cases hw : w = anyMessage
  · subst hw
    have hp' : popMessage (k.tcb p).tInbox null = none := hp
    simp [recv, hp']
  · simp [recv, hw, hp]

theorem deliver_waiting {id t : Ptr} (ht : t ∈ k.waitQueue) : k.deliver id t v =
    if (k.tcb t).reply.toNat % 4 = 0 then .ok (k.delivered id t v) else .error .trap := by
  by_cases ha : (k.tcb t).reply.toNat % 4 = 0
  · rw [if_pos ha]
    cases hd : k.deliver id t v with
    | ok k' => rw [(deliver_cases ht hd).2]
    | error e => simp [deliver, storeWord, ha, bind, Except.bind] at hd
  · rw [if_neg ha]
    simp [deliver, storeWord, ha, bind, Except.bind]

theorem sysRecvCase_found {m : Msg} {rest : List Msg} (hc : k.currentThread = r)
    (hp : popMessage (k.tcb r).tInbox old.regA1 = some (m, rest)) : k.sysRecvCase old =
      if old.regA2.toNat % 4 = 0 then .ok ((k.received r old.regA1 old.regA2 m rest).setTcb r fun t =>
        { t with tState := t.tState.setV0 (if old.regA1 = anyMessage then m.mSender else old.regA1) })
      else .error .trap := by
  subst hc
  simp only [sysRecvCase, recv_found hp]
  split <;> rfl

theorem sysRecvCase_blocks (hc : k.currentThread = r)
    (hp : popMessage (k.tcb r).tInbox old.regA1 = none) : k.sysRecvCase old =
      .ok ((k.block r old.regA1 old.regA2).setTcb r fun t =>
        { t with tState := t.tState.setV0 null }) := by
  subst hc
  simp only [sysRecvCase, recv_blocks hp]
  rfl

theorem senderId_device (hk : Placed k) (hs : k.Live s) : k.senderId s ≠ busIntervalTimer := by
  have hmem := hk.sub s hs.mem_places
  have htimer : busIntervalTimer ∉ threadArray := by decide
  have hmagic : magicSsi ≠ busIntervalTimer := by decide
  unfold senderId
  split
  · exact hmagic
  · rintro rfl
    exact htimer hmem

/-- A thread that can run has been given the processor. -/
theorem yieldTo_places (hr : r ∈ k.readyQueue ∨ r ∈ k.running) (hn : r ≠ null) :
    SamePlaces k (k.yieldTo r) := by
  have hmem : r ∈ k.readyQueue ++ k.running := List.mem_append.mpr hr
  have hrun : (k.yieldTo r).running = [r] := by simp [running, yieldTo, hn]
  rw [SamePlaces, List.perm_iff_count]
  intro p
  have hcount := (List.perm_cons_erase hmem).count_eq p
  have hready : (k.yieldTo r).readyQueue = (k.readyQueue ++ k.running).erase r := rfl
  have hrest : (k.yieldTo r).waitQueue = k.waitQueue ∧ (k.yieldTo r).tcbFree = k.tcbFree :=
    ⟨rfl, rfl⟩
  simp only [places, hrun, hready, hrest.1, hrest.2, List.count_append, List.count_cons,
    List.count_nil] at hcount ⊢
  omega

section

variable (hk : Placed k) (hs : k.Live s) (hr : r ∈ k.readyQueue ∨ k.currentThread = r)
  (hn : r ≠ null) (hno : ∀ m ∈ (k.tcb r).tInbox, ¬ Accepts old.regA1 m)
  (hw : old.regA1 = k.senderId s ∨ old.regA1 = anyMessage)

include hk hs hr hn hno hw in
/-- The queued path up to the RECV, which finds the message. -/
theorem sendThenRecv_eq (hf : k.msgFree ≠ []) (old' : State) :
    ∃ b free, k.msgFree = b :: free ∧ k.sendThenRecv s r v old old' =
      if old.regA2.toNat % 4 = 0 then
        .ok ((((k.enqueued r ⟨b, k.senderId s, v⟩ free).yieldTo r).received r old.regA1 old.regA2
          ⟨b, k.senderId s, v⟩ (k.tcb r).tInbox).setTcb r fun t =>
            { t with tState := t.tState.setV0 (k.senderId s) })
      else (((k.enqueued r ⟨b, k.senderId s, v⟩ free).yieldTo r).takeMessage
        old.regA1).pgmtrapBody old' := by
  obtain ⟨b, free, hf⟩ := List.exists_cons_of_ne_nil hf
  refine ⟨b, free, hf, ?_⟩
  have hsend := send_runnable (v := v) hr hn (senderId_device hk hs) hf
  have hpop : popMessage (((k.enqueued r ⟨b, k.senderId s, v⟩ free).yieldTo r).tcb r).tInbox
      old.regA1 = some (⟨b, k.senderId s, v⟩, (k.tcb r).tInbox) := by
    simp only [yieldTo, enqueued, Links.put_same]
    exact popMessage_append (hw.symm.imp id Eq.symm) hno
  have hv0 : (if old.regA1 = anyMessage then k.senderId s else old.regA1) = k.senderId s := by
    split
    · rfl
    · exact hw.resolve_right ‹_›
  have hrecv := sysRecvCase_found rfl hpop
  dsimp only at hrecv
  rw [hv0] at hrecv
  simp only [sendThenRecv, hsend, bind, Except.bind]
  rw [hrecv]
  by_cases ha : old.regA2.toNat % 4 = 0
  · rw [if_pos ha, if_pos ha]
    rfl
  · rw [if_neg ha, if_neg ha]

include hk hs hr hn hno hw in
theorem sendThenRecv_handed (hwait : (k.tcb r).waitingFor = notWaiting)
    (hreply : (k.tcb r).reply = notWaiting) (hf : k.msgFree ≠ [])
    (ha : old.regA2.toNat % 4 = 0) (old' : State) :
    ∃ k', k.sendThenRecv s r v old old' = .ok k' ∧ k.Handed r (k.senderId s) old.regA2 v k' := by
  obtain ⟨b, free, hf, heq⟩ := sendThenRecv_eq (v := v) hk hs hr hn hno hw hf old'
  rw [if_pos ha] at heq
  refine ⟨_, heq, ?_⟩
  constructor
  case runnable => exact .inr rfl
  case msgFree => simp [setTcb, received, yieldTo, enqueued, hf]
  all_goals simp [setTcb, received, yieldTo, enqueued, hwait, hreply]

include hk hs hr hn hno hw in
/-- The receiver traps, and does not come back by itself. -/
theorem sendThenRecv_stuck (hf : k.msgFree ≠ []) (ha : old.regA2.toNat % 4 ≠ 0) {old' : State}
    (h : k.sendThenRecv s r v old old' = .ok k') :
    ¬ (r ∈ k'.readyQueue ∨ k'.currentThread = r) := by
  obtain ⟨b, free, -, heq⟩ := sendThenRecv_eq (v := v) hk hs hr hn hno hw hf old'
  rw [if_neg ha] at heq
  rw [heq] at h
  have hrun : r ∈ k.readyQueue ∨ r ∈ k.running := by
    refine hr.imp id fun hc => ?_
    subst hc
    exact mem_running.mpr ⟨rfl, hn⟩
  have hplaces : SamePlaces (k.enqueued r ⟨b, k.senderId s, v⟩ free)
      ((k.enqueued r ⟨b, k.senderId s, v⟩ free).yieldTo r) := yieldTo_places hrun hn
  have hunmoved := takeMessage_unmoved
    (k := (k.enqueued r ⟨b, k.senderId s, v⟩ free).yieldTo r) old.regA1
  have hstill := (takeMessage_still
    (k := (k.enqueued r ⟨b, k.senderId s, v⟩ free).yieldTo r) old.regA1).places
  have hcur : (((k.enqueued r ⟨b, k.senderId s, v⟩ free).yieldTo r).takeMessage
    old.regA1).currentThread = r := hunmoved.currentThread
  have hplaced : Placed (k.enqueued r ⟨b, k.senderId s, v⟩ free) := hk.of_perm (List.Perm.refl _)
  have hleaves := pgmtrapBody_leaves ((hplaced.of_perm hplaces).of_perm hstill) (hcur.symm ▸ hn) h
  rw [hcur] at hleaves
  rintro (hm | hc)
  · exact hleaves.1 hm
  · exact hleaves.2 hc

omit hs hr hn hno hw in
include hk in
/-- A thread that has been given the processor is not in the ready queue any more. -/
theorem yieldTo_notMem : r ∉ (k.yieldTo r).readyQueue := by
  have hnodup : (k.readyQueue ++ k.running).Nodup := by
    rw [List.nodup_iff_count]
    intro p
    have hc := hk.count_le p
    rw [List.count_append]
    omega
  exact hnodup.not_mem_erase

include hk hn hno hw in
/-- The path through the wait queue. -/
theorem recvThenSend_handed (ha : old.regA2.toNat % 4 = 0) (old' : State) :
    ∃ k', k.recvThenSend s r v old old' = .ok k' ∧ k.Handed r (k.senderId s) old.regA2 v k' := by
  have hblock := sysRecvCase_blocks (k := k.yieldTo r) (r := r) rfl (popMessage_refused hno)
  obtain ⟨k₂, hk₂⟩ : ∃ k₂, k₂ = ((k.yieldTo r).block r old.regA1 old.regA2).setTcb r fun t =>
    { t with tState := t.tState.setV0 null } := ⟨_, rfl⟩
  rw [← hk₂] at hblock
  have htcb : k₂.tcb r = { k.tcb r with
      waitingFor := old.regA1, reply := old.regA2, tState := (k.tcb r).tState.setV0 null } := by
    simp [hk₂, setTcb, block, yieldTo]
  have hwait : r ∈ k₂.waitQueue := by simp [hk₂, setTcb, block, insertThread]
  have hid : k₂.senderId s = k.senderId s := by simp [hk₂, senderId, setTcb, block, yieldTo]
  have hready : ¬ (thereIsThread k₂.readyQueue r ≠ null ∨ k₂.currentThread = r) := by
    rw [thereIsThread_ne_null]
    rintro (⟨hm, -⟩ | hc)
    · rw [hk₂] at hm
      exact yieldTo_notMem hk hm
    · rw [hk₂] at hc
      exact hn hc.symm
  have hawaits : k₂.awaits r (k.senderId s) = true := by
    simp only [awaits, htcb]
    rcases hw with hw | hw <;> simp [hw]
  have hreply : (k₂.tcb r).reply = old.regA2 := by rw [htcb]
  simp only [recvThenSend, hblock, bind, Except.bind, send, if_neg hready,
    if_pos (thereIsThread_ne_null.mpr ⟨hwait, hn⟩), hid, hawaits, if_true, deliver_waiting hwait,
    hreply, if_pos ha]
  refine ⟨_, rfl, ?_⟩
  have hmem : k₂.mem = k.mem := by rw [hk₂]; rfl
  have hfree : k₂.msgFree = k.msgFree := by rw [hk₂]; rfl
  constructor
  case runnable => exact .inl (by simp [delivered])
  case msgFree => simp [delivered, hfree]
  case mem => simp [delivered, hmem, hreply]
  case tState => simp [delivered, htcb, State.setV0_setV0]
  all_goals simp [delivered, htcb]

end

/-- Both orders of the SEND and the RECV hand `r` the same message in the same way. -/
def EitherOrder (k : Kernel) (s r : Ptr) (v : U32) (old old' : State) : Prop :=
  ∃ k₁ k₂, k.sendThenRecv s r v old old' = .ok k₁ ∧ k.recvThenSend s r v old old' = .ok k₂ ∧
    ∃ id w, k.Handed r id old.regA2 w k₁ ∧ k.Handed r id old.regA2 w k₂

/-- The test thread after boot can be sent a message by the SSI, under the name MAGIC_SSI. -/
theorem bootedReceiver : ∃ m : Machine, m.Initial ∧ m.k.Live threadArrayAddr ∧
    testThreadAddr ∈ m.k.readyQueue ∧ (m.k.tcb testThreadAddr).waitingFor = notWaiting ∧
    (m.k.tcb testThreadAddr).reply = notWaiting ∧ m.k.senderId threadArrayAddr = magicSsi ∧
    (m.k.tcb testThreadAddr).tInbox = [] ∧ m.k.msgFree ≠ [] := by
  have hrun : passes (fun m => m.k.Live threadArrayAddr && testThreadAddr ∈ m.k.readyQueue &&
      (m.k.tcb testThreadAddr).waitingFor = notWaiting && (m.k.tcb testThreadAddr).reply = notWaiting &&
      m.k.senderId threadArrayAddr = magicSsi && (m.k.tcb testThreadAddr).tInbox = [] &&
      m.k.msgFree ≠ []) (Machine.start .zeroed) = true := by
    decide +kernel
  obtain ⟨m, hm, hend⟩ := exists_of_passes hrun
  simp only [Bool.and_eq_true, decide_eq_true_eq] at hend
  obtain ⟨⟨⟨⟨⟨⟨hs, hr⟩, hwait⟩, hreply⟩, hid⟩, hbox⟩, hf⟩ := hend
  exact ⟨m, Machine.initial_of_start zeroed_powerOn hm, hs, hr, hwait, hreply, hid, hbox, hf⟩

end Kernel

end AmiKaya
