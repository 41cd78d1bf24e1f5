import AmiKaya.Wakeup

/-! Messages of one sender to one receiver are received in the order they were sent, each once. -/
namespace AmiKaya
open Lts

/-- The payloads of the messages of one sender in an inbox. -/
def payloads (s : Ptr) (q : List Msg) : List U32 :=
  (q.filter fun m => m.mSender = s).map Msg.mMessage

/-- One more payload from `s`. -/
def record (log : Ptr → List U32) (s : Ptr) (v : U32) : Ptr → List U32 := put log s (log s ++ [v])

/-- The messages of the interval timer come before all the others. -/
def TimerFirst (q : List Msg) : Prop :=
  ∃ timer others, q = timer ++ others ∧ (∀ m ∈ timer, m.mSender = busIntervalTimer) ∧
    ∀ m ∈ others, m.mSender ≠ busIntervalTimer

/-- What was sent to a receiver is what it has received, then what is in its inbox. -/
structure Mailbox (sent recvd : Ptr → List U32) (q : List Msg) : Prop where
  fifo : ∀ s ≠ busIntervalTimer, recvd s ++ payloads s q = sent s
  timer : TimerFirst q

namespace Mailbox

variable {sent recvd : Ptr → List U32} {q rest : List Msg} {id w : Ptr} {v : U32} {m : Msg}

theorem empty : Mailbox (fun _ => []) (fun _ => []) [] :=
  ⟨fun _ _ => rfl, [], [], rfl, by simp, by simp⟩

theorem record_same (log : Ptr → List U32) (s : Ptr) (v : U32) :
    record log s v s = log s ++ [v] := by
  simp [record]

theorem record_ne {log : Ptr → List U32} {s s' : Ptr} (h : s' ≠ s) (v : U32) :
    record log s v s' = log s' := by
  simp [record, h]

/-- A new message goes behind all those of its sender, and the timer's in front of everything. -/
theorem queued (h : Mailbox sent recvd q) (a : Ptr) :
    Mailbox (record sent id v) recvd (Kernel.queued id q ⟨a, id, v⟩) := by
  obtain ⟨timer, others, rfl, ht, ho⟩ := h.timer
  constructor
  · intro s hs
    have hfifo := h.fifo s hs
    by_cases hid : s = id
    · subst hid
      rw [record_same, ← hfifo]
      simp [Kernel.queued, hs, payloads]
    · have hid' : id ≠ s := fun he => hid he.symm
      rw [record_ne hid, ← hfifo]
      unfold Kernel.queued
      split <;> simp [payloads, hid']
  · by_cases hid : id = busIntervalTimer
    · refine ⟨⟨a, id, v⟩ :: timer, others, by simp [Kernel.queued, hid], ?_, ho⟩
      simpa [hid] using ht
    · refine ⟨timer, others ++ [⟨a, id, v⟩], by simp [Kernel.queued, hid], ht, ?_⟩
      intro m hm
      rcases List.mem_append.mp hm with hm | hm
      · exact ho m hm
      · rw [List.mem_singleton.mp hm]
        exact hid

/-- A payload may pass an inbox that holds nothing of its sender. -/
theorem direct (h : Mailbox sent recvd q) (hq : ∀ m ∈ q, m.mSender ≠ id) :
    Mailbox (record sent id v) (record recvd id v) q := by
  refine ⟨fun s hs => ?_, h.timer⟩
  have hfifo := h.fifo s hs
  by_cases hid : s = id
  · subst hid
    have hnone : payloads s q = [] := by
      simp only [payloads, List.map_eq_nil_iff, List.filter_eq_nil_iff]
      intro m hm
      simpa using hq m hm
    rw [record_same, record_same, ← hfifo, hnone]
    simp
  · rw [record_ne hid, record_ne hid]
    exact hfifo

/-- A message that is popped is the first one of its sender. -/
theorem pop (h : Mailbox sent recvd q) (hp : popMessage q w = some (m, rest)) :
    Mailbox sent (record recvd m.mSender m.mMessage) rest := by
  obtain ⟨pre, post, hq, hrest, hnull, hw⟩ := popMessage_some hp
  dsimp only at hq hrest hw
  subst hq hrest
  have hpre : ∀ x ∈ pre, x.mSender ≠ m.mSender := by
    by_cases hn : w = null
    · simp [hnull hn]
    · rw [(hw hn).1]
      exact (hw hn).2
  constructor
  · intro s hs
    have hfifo := h.fifo s hs
    by_cases hid : s = m.mSender
    · subst hid
      have hnone : pre.filter (fun x => x.mSender = m.mSender) = [] := by
        simp only [List.filter_eq_nil_iff]
        intro x hx
        simpa using hpre x hx
      rw [record_same, ← hfifo]
      simp [payloads, hnone]
    · have hid' : m.mSender ≠ s := fun he => hid he.symm
      rw [record_ne hid, ← hfifo]
      simp [payloads, hid']
  · obtain ⟨timer, others, hsplit, ht, ho⟩ := h.timer
    rcases List.append_eq_append_iff.mp hsplit with ⟨l, rfl, hl⟩ | ⟨l, rfl, hl⟩
    · cases l with
      | nil =>
        refine ⟨pre, post, rfl, fun x hx => ht x (by simpa using hx), fun x hx => ho x ?_⟩
        rw [← (List.nil_append others), ← hl]
        exact List.mem_cons_of_mem _ hx
      | cons y l =>
        obtain ⟨rfl, rfl⟩ := List.cons.inj hl
        refine ⟨pre ++ l, others, by simp, fun x hx => ht x ?_, ho⟩
        rcases List.mem_append.mp hx with hx | hx
        · exact List.mem_append_left _ hx
        · exact List.mem_append_right _ (List.mem_cons_of_mem _ hx)
    · refine ⟨timer, l ++ post, by simp, ht, fun x hx => ho x ?_⟩
      rw [hl]
      rcases List.mem_append.mp hx with hx | hx
      · exact List.mem_append_left _ hx
      · exact List.mem_append_right _ (List.mem_cons_of_mem _ hx)

end Mailbox

/-- For each receiver and each sender: the payloads sent, and the payloads received. -/
structure Log where
  sent : Ptr → Ptr → List U32
  recvd : Ptr → Ptr → List U32

def Log.empty : Log := ⟨fun _ _ => [], fun _ _ => []⟩

def Log.addSent (log : Log) (r s : Ptr) (v : U32) : Log :=
  { log with sent := put log.sent r (record (log.sent r) s v) }

def Log.addRecvd (log : Log) (r s : Ptr) (v : U32) : Log :=
  { log with recvd := put log.recvd r (record (log.recvd r) s v) }

def Log.reset (log : Log) (r : Ptr) : Log :=
  ⟨put log.sent r fun _ => [], put log.recvd r fun _ => []⟩

/-- The history of one operation. A received payload is what memory holds at the reply pointer. -/
def Log.note (k : Kernel) (o : Op) (k' : Kernel) (log : Log) : Log :=
  match o with
  | .send s t v r =>
    if r = msgGood then
      let log := log.addSent t (k.senderId s) v
      if t ∈ k.waitQueue ∧ t ∉ k'.waitQueue
      then log.addRecvd t (k.senderId s) (k'.mem (k.tcb t).reply) else log
    else log
  | .recv p _ a r => if p ∈ k'.waitQueue then log else log.addRecvd p r (k'.mem a)
  | .alloc p => log.reset p
  | _ => log

namespace Kernel

variable {k k' : Kernel} {log : Log} {p t : Ptr}

def MailboxOf (k : Kernel) (log : Log) (p : Ptr) : Prop :=
  Mailbox (log.sent p) (log.recvd p) (k.tcb p).tInbox

/-- The mailboxes of all allocated TCBs are in order, and nobody waits for what it has. -/
structure Mailboxes (k : Kernel) (log : Log) : Prop where
  placed : Placed k
  blocked : ∀ p ∈ k.waitQueue, ∀ m ∈ (k.tcb p).tInbox, ¬ Accepts (k.tcb p).waitingFor m
  mailbox : ∀ p, k.Allocated p → k.MailboxOf log p

theorem mailbox_enqueue {id : Ptr} {v : U32} (h : ∀ p, k.Allocated p → k.MailboxOf log p)
    (he : k.enqueue id t v = .ok k') (hp : k'.Allocated p) :
    k'.MailboxOf (log.addSent t id v) p := by
  obtain ⟨a, free, -, rfl⟩ := enqueue_cases he
  have hm := h p hp
  unfold MailboxOf Log.addSent at *
  by_cases hpt : p = t
  · subst hpt
    simp only [Links.put_same]
    exact hm.queued a
  · simp only [Links.put_ne hpt]
    exact hm

theorem mailbox_send {s : Ptr} {v r : U32} (h : k.Mailboxes log)
    (hs : k.send s t v = .ok (r, k')) (hp : k'.Allocated p) :
    k'.MailboxOf (log.note k (.send s t v r) k') p := by
  have hgood : msgGood ≠ msgNoGood := by decide
  simp only [Log.note]
  rcases send_cases hs with ⟨ht, rfl, he⟩ | ⟨-, -, -, ht, rfl, ha, -, rfl⟩ |
    ⟨-, -, -, ht, rfl, -, he⟩ | ⟨-, -, rfl, rfl⟩
  · have hw : t ∉ k.waitQueue := by
      intro hw
      have hn := h.placed.wait_notMem hw
      rcases ht with ⟨ht, -⟩ | ht
      · exact hn.1 ht
      · exact hn.2.2 ht
    simp only [hw, if_true, false_and, if_false]
    exact mailbox_enqueue h.mailbox he hp
  · have hnot : t ∉ (k.delivered (k.senderId s) t v).waitQueue := h.placed.wait_erase
    simp only [ht, hnot, if_true, not_false_eq_true, and_self]
    have hm := h.mailbox p hp
    unfold MailboxOf Log.addSent Log.addRecvd at *
    by_cases hpt : p = t
    · subst hpt
      simp only [Links.put_same, delivered]
      refine hm.direct fun m hmem he => ?_
      have hb := h.blocked p ht m hmem
      simp only [awaits, Bool.or_eq_true, decide_eq_true_eq] at ha
      rcases ha with ha | ha
      · exact hb (.inr (he.trans ha.symm))
      · exact hb (.inl ha)
    · simp only [Links.put_ne hpt, delivered]
      exact hm
  · have hw : t ∈ k'.waitQueue := by
      obtain ⟨a, free, -, rfl⟩ := enqueue_cases he
      exact ht
    simp only [hw, if_true, not_true_eq_false, and_false, if_false]
    exact mailbox_enqueue h.mailbox he hp
  · simp only [hgood.symm, if_false]
    exact h.mailbox p hp

theorem mailbox_recv {w a r : Ptr} (hc : k.currentThread ≠ null) (h : k.Mailboxes log)
    (hr : k.recv k.currentThread w a = .ok (r, k')) (hp : k'.Allocated p) :
    k'.MailboxOf (log.note k (.recv k.currentThread w a r) k') p := by
  simp only [Log.note]
  rcases recv_cases hr with ⟨-, -, rfl⟩ | ⟨m, rest, hpop, -, rfl, rfl⟩
  · have hw : k.currentThread ∈ (k.block k.currentThread w a).waitQueue := by
      simp [block, insertThread]
    simp only [hw, if_true]
    have hm := h.mailbox p hp
    unfold MailboxOf at *
    by_cases hpc : p = k.currentThread
    · subst hpc
      simpa [block, setTcb] using hm
    · simpa [block, setTcb, hpc] using hm
  · have hw : k.currentThread ∉ (k.received k.currentThread w a m rest).waitQueue :=
      (h.placed.current_notMem hc).2.1
    simp only [hw, if_false]
    have hm := h.mailbox p hp
    have hid : (if w = anyMessage then m.mSender else w) = m.mSender := by
      split
      · rfl
      · obtain ⟨pre, post, -, -, -, hsender⟩ := popMessage_some hpop
        exact (hsender ‹_›).1.symm
    rw [hid]
    unfold MailboxOf Log.addRecvd at *
    by_cases hpc : p = k.currentThread
    · subst hpc
      simp only [Links.put_same, received]
      exact hm.pop hpop
    · simp only [Links.put_ne hpc, received]
      exact hm

/-- `terminate` empties the inboxes of the TCBs it frees and touches no other. -/
theorem terminate_inbox (h : k.terminate t = .ok k') (hp : p ∉ k'.tcbFree) :
    p ∉ k.tcbFree ∧ (k'.tcb p).tInbox = (k.tcb p).tInbox := by
  have hdetach : ∀ (k : Kernel) t, ∀ p ∉ (k.detach t).tcbFree,
      p ∉ k.tcbFree ∧ ((k.detach t).tcb p).tInbox = (k.tcb p).tInbox := by
    intro k t p hp
    refine ⟨hp, ?_⟩
    by_cases hpt : p = t
    · subst hpt
      simp [detach, setTcb]
    · simp [detach, setTcb, hpt]
  have hreap : ∀ (k : Kernel) t k', k.reap t = .ok k' → ∀ p ∉ k'.tcbFree,
      p ∉ k.tcbFree ∧ (k'.tcb p).tInbox = (k.tcb p).tInbox := by
    intro k t k' hr p hp
    have hkeep : p ∉ k.tcbFree ++ [t] ∧ k'.tcb = put k.tcb t { k.tcb t with tInbox := [] } := by
      rcases reap_cases hr with ⟨-, rfl⟩ | ⟨-, -, -, -, rfl⟩ <;> exact ⟨hp, rfl⟩
    simp only [List.mem_append, List.mem_singleton, not_or] at hkeep
    exact ⟨hkeep.1.1, by rw [hkeep.2, Links.put_ne hkeep.1.2]⟩
  obtain ⟨k₁, h₁, h₂⟩ := terminate_cases (R := fun k k' => ∀ p ∉ k'.tcbFree,
      p ∉ k.tcbFree ∧ (k'.tcb p).tInbox = (k.tcb p).tInbox) (fun _ _ hp => ⟨hp, rfl⟩)
    (fun _ _ _ h h' p hp => ⟨(h p (h' p hp).1).1, (h' p hp).2.trans (h p (h' p hp).1).2⟩)
    hdetach (fun k t k' _ hr => hreap k t k' hr) h
  obtain ⟨hf, hi⟩ := hreap _ _ _ h₂ p hp
  exact ⟨(h₁ p hf).1, hi.trans (h₁ p hf).2⟩

/-- Every operation but a trap keeps the mailboxes in order. -/
theorem Mailboxes.step {o : Op} (hs : OpStep k o k') (hf : ∀ p m, o ≠ .freeze p m)
    (h : k.Mailboxes log) : k'.Mailboxes (log.note k o k') := by
  refine ⟨h.placed.step hs, fun p hp m hm => ?_, fun p hp => ?_⟩
  · rcases wait_cases h.placed hs hp with hw | ⟨w, a, r, -, hw, -, hq⟩ | ⟨m, rfl, -⟩
    · rw [hw.waitingFor]
      rcases hw.tInbox m hm with hm | hm
      · exact h.blocked p hw.mem m hm
      · exact hm
    · rw [hw]
      exact hq m hm
    · exact absurd rfl (hf _ _)
  · cases hs with
    | quiet hq =>
      have hm := h.mailbox p ⟨hp.1, hq.tcbFree ▸ hp.2⟩
      unfold MailboxOf
      rw [hq.tInbox]
      exact hm
    | send hs => exact mailbox_send h hs hp
    | recv hc hr => exact mailbox_recv hc h hr hp
    | freeze => exact absurd rfl (hf _ _)
    | terminate _ hk =>
      obtain ⟨hfree, hinbox⟩ := terminate_inbox hk hp.2
      have hm := h.mailbox p ⟨hp.1, hfree⟩
      unfold MailboxOf
      rw [hinbox]
      exact hm
    | resume hr =>
      obtain ⟨-, -, rfl⟩ := continueTrapped_cases hr
      exact h.mailbox p hp
    | @alloc q _ ha hq =>
      obtain ⟨free, hfree, rfl⟩ := allocTcb_cases ha hq
      unfold MailboxOf Log.note Log.reset
      by_cases hpq : p = q
      · subst hpq
        simp only [Links.put_same]
        exact .empty
      · simp only [Links.put_ne hpq]
        refine h.mailbox p ⟨hp.1, ?_⟩
        rw [hfree]
        exact List.not_mem_cons_of_ne_of_not_mem hpq hp.2
    | @insertChild _ c _ =>
      have hm := h.mailbox p hp
      unfold MailboxOf at *
      by_cases hpc : p = c
      · subst hpc
        simpa [insertChild, setTcb, Log.note] using hm
      · simpa [insertChild, setTcb, hpc, Log.note] using hm
    | request | insertSibling _ | countThread | dispatch _ _ | preempt _ | publish _ _ =>
      exact h.mailbox p hp

/-- At boot the two threads have neither sent nor received anything. -/
theorem Booted.mailboxes (h : k.Booted) (hk : Placed k) : k.Mailboxes .empty := by
  refine ⟨hk, by simp [h.waitQueue], fun p hp => ?_⟩
  have hp' : p = threadArrayAddr ∨ p = testThreadAddr := by
    have hm := hp.1
    rw [threadArray_eq] at hm
    rcases List.mem_cons.mp hm with he | hm
    · exact .inl he
    · rcases List.mem_cons.mp hm with he | hm
      · exact .inr he
      · exact absurd (h.tcbFree ▸ hm) hp.2
  unfold MailboxOf
  rcases hp' with rfl | rfl
  · rw [h.tInbox _ (by decide)]
    exact .empty
  · rw [h.tInbox _ (by decide)]
    exact .empty

end Kernel

/-- Any operation, except that no trap is passed up. -/
def NoTrapStep (k : Kernel) (o : Op) (k' : Kernel) : Prop := OpStep k o k' ∧ ∀ p m, o ≠ .freeze p m

/-- In every run of operations without trap pass-ups, for every live receiver and every sender but
the interval timer, what was received followed by what is in the inbox is what was sent. -/
theorem fifo_per_sender {k₀ k₁ k : Kernel} {os : List Op} {log : Log} (hp : k₀.PowerOn)
    (hm : k₀.main = .ok k₁) (hr : Run (withHistory NoTrapStep Log.note) (k₁, .empty) os (k, log))
    {r : Ptr} (hl : k.Live r) :
    (∀ s ≠ busIntervalTimer, log.recvd r s ++ payloads s (k.tcb r).tInbox = log.sent r s) ∧
      TimerFirst (k.tcb r).tInbox := by
  have hb := Kernel.main_booted hp hm
  have hinv := hr.inv_history (I := fun k log => k.Mailboxes log)
    (fun k o k' log hs h => h.step hs.1 hs.2) (hb.mailboxes hb.placed)
  have hbox := hinv.mailbox r (hl.allocated hinv.placed)
  exact ⟨hbox.fifo, hbox.timer⟩

/-- Message passing and the processor, executed. -/
def Op.exec (k : Kernel) : Op → Except Stop Kernel
  | .send s t v r => do
    let x ← k.send s t v
    if x.1 = r then .ok x.2 else .error .fault
  | .recv p w a r =>
    if p = k.currentThread ∧ p ≠ null then do
      let x ← k.recv p w a
      if x.1 = r then .ok x.2 else .error .fault
    else .error .fault
  | .dispatch p =>
    match k.readyQueue with
    | [] => .error .fault
    | q :: rest =>
      if k.currentThread = null ∧ p = q then .ok { k with currentThread := q, readyQueue := rest }
      else .error .fault
  | .preempt p =>
    if p = k.currentThread ∧ p ≠ null then
      .ok { k with readyQueue := insertThread k.readyQueue p, currentThread := null }
    else .error .fault
  | _ => .error .fault

theorem Op.exec_sound {k k' : Kernel} {o : Op} (h : o.exec k = .ok k') : NoTrapStep k o k' := by
  refine ⟨?_, ?_⟩
  · cases o <;> simp only [exec, reduceCtorEq] at h
    case send s t v r =>
      obtain ⟨⟨r', k₁⟩, h₁, h₂⟩ := bind_eq_ok.mp h
      split at h₂
      · next hr =>
        cases h₂
        exact .send (hr ▸ h₁)
      · cases h₂
    case recv p w a r =>
      split at h
      · next hp =>
        obtain ⟨rfl, hc⟩ := hp
        obtain ⟨⟨r', k₁⟩, h₁, h₂⟩ := bind_eq_ok.mp h
        split at h₂
        · next hr =>
          cases h₂
          exact .recv hc (hr ▸ h₁)
        · cases h₂
      · cases h
    case dispatch p =>
      split at h
      · cases h
      · next q rest hq =>
        split at h
        · next hp =>
          cases h
          exact hp.2 ▸ .dispatch hp.1 (hp.2 ▸ hq)
        · cases h
    case preempt p =>
      split at h
      · next hp =>
        obtain ⟨rfl, hc⟩ := hp
        cases h
        exact .preempt hc
      · cases h
  · rintro p m rfl
    simp [exec] at h

/-- The SSI waits, gets one message directly and another one through its inbox. -/
def talk : List Op :=
  [.recv threadArrayAddr anyMessage 0x2003EFF0 null, .dispatch testThreadAddr,
    .send testThreadAddr threadArrayAddr 7 msgGood, .send testThreadAddr threadArrayAddr 8 msgGood,
    .send testThreadAddr threadArrayAddr 9 msgGood, .preempt testThreadAddr,
    .dispatch threadArrayAddr, .recv threadArrayAddr anyMessage 0x2003EFF0 testThreadAddr]

theorem fifo_per_sender_talk : ∃ k₁ k log,
    Run (withHistory NoTrapStep Log.note) (k₁, .empty) talk (k, log) ∧
    log.sent threadArrayAddr testThreadAddr = [7, 8, 9] ∧
    log.recvd threadArrayAddr testThreadAddr = [7, 8] ∧
    (∀ s ≠ busIntervalTimer, log.recvd threadArrayAddr s ++
      payloads s (k.tcb threadArrayAddr).tInbox = log.sent threadArrayAddr s) ∧
    TimerFirst (k.tcb threadArrayAddr).tInbox := by
  have hrun : passes (fun k₁ => passes (fun s => s.1.currentThread = threadArrayAddr &&
      s.2.sent threadArrayAddr testThreadAddr = [7, 8, 9] &&
      s.2.recvd threadArrayAddr testThreadAddr = [7, 8])
      (exec (execWith (fun k o => o.exec k) Log.note) (k₁, .empty) talk)) Kernel.zeroed.main = true := by
    decide +kernel
  obtain ⟨k₁, hm, hrun⟩ := exists_of_passes hrun
  obtain ⟨⟨k, log⟩, hs, hlog⟩ := exists_of_passes hrun
  simp only [Bool.and_eq_true, decide_eq_true_eq] at hlog
  have hr := run_of_execWith (fun _ _ _ => Op.exec_sound) hs
  have hne : threadArrayAddr ≠ null := by decide
  have hl : k.Live threadArrayAddr :=
    .inr (.inr (Kernel.mem_running.mpr ⟨hlog.1.1.symm, hlog.1.1.symm ▸ hne⟩))
  exact ⟨k₁, k, log, hr, hlog.1.2, hlog.2, fifo_per_sender Kernel.zeroed_powerOn hm hr hl⟩

/-- A run of the machine in which no exception is passed up is such a run of operations. -/
theorem Machine.noTrap_of_run {m m' : Machine} {es : List Event} (hw : m.Wf)
    (hr : Run (fun m e m' => m.Step e m' ∧ ∀ t, m.entry e ≠ .trap t) m es m') :
    ∃ os, Run NoTrapStep m.k os m'.k := by
  induction hr with
  | refl => exact ⟨[], .refl⟩
  | stepL hs _ ih =>
    obtain ⟨os', hos'⟩ := ih (hw.step hs.1)
    obtain ⟨os, hos⟩ := ops_of_step hw hs.1
    refine ⟨os ++ os', (hos.mono ?_).append hos'⟩
    rintro k o k' ⟨ho, ha⟩
    refine ⟨ho, ?_⟩
    rintro p t rfl
    exact hs.2 t ha.2

end AmiKaya
