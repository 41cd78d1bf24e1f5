import AmiKaya.Ops

/-! What each operation returns and leaves behind, case by case. Later proofs use these lemmas
and never unfold the operations again. -/
namespace AmiKaya

theorem thereIsThread_ne_null {q : List Ptr} {p : Ptr} :
    thereIsThread q p ≠ null ↔ p ∈ q ∧ p ≠ null := by
  unfold thereIsThread
  split <;> simp_all

theorem outThread_fst_ne_null {q : List Ptr} {p : Ptr} :
    (outThread q p).1 ≠ null ↔ p ∈ q ∧ p ≠ null := by
  unfold outThread
  split <;> simp_all

theorem outThread_snd (q : List Ptr) (p : Ptr) : (outThread q p).2 = q.erase p := by
  unfold outThread
  split
  · rfl
  · exact (List.erase_of_not_mem ‹_›).symm

theorem outThread_fst_of_mem {q : List Ptr} {p : Ptr} (h : p ∈ q) : (outThread q p).1 = p := by
  simp [outThread, h]

/-- A message is found exactly where the scan stops: everything before it was sent by others. -/
theorem popMessage_some {q : List Msg} {w : Ptr} {r : Msg × List Msg}
    (h : popMessage q w = some r) :
    ∃ pre post, q = pre ++ r.1 :: post ∧ r.2 = pre ++ post ∧ (w = null → pre = []) ∧
      (w ≠ null → r.1.mSender = w ∧ ∀ m ∈ pre, m.mSender ≠ w) := by
  induction q generalizing r with
  | nil => simp [popMessage] at h
  | cons m rest ih =>
    simp only [popMessage] at h
    split at h
    · cases h
      exact ⟨[], rest, rfl, rfl, fun _ => rfl, fun hw => absurd ‹w = null› hw⟩
    · split at h
      · cases h
        exact ⟨[], rest, rfl, rfl, fun _ => rfl, fun _ => ⟨‹_›, by simp⟩⟩
      · obtain ⟨r', hr', rfl⟩ := Option.map_eq_some_iff.mp h
        obtain ⟨pre, post, hq, hr, hn, hs⟩ := ih hr'
        refine ⟨m :: pre, post, by simp [hq], by simp [hr], fun hw => absurd hw ‹_›, ?_⟩
        intro hw
        exact ⟨(hs hw).1, by simpa using ⟨‹_›, (hs hw).2⟩⟩

theorem popMessage_none {q : List Msg} {w : Ptr} (h : popMessage q w = none) :
    q = [] ∨ w ≠ null ∧ ∀ m ∈ q, m.mSender ≠ w := by
  induction q with
  | nil => exact .inl rfl
  | cons m rest ih =>
    simp only [popMessage] at h
    split at h
    · cases h
    · split at h
      · cases h
      · have hr := ih (by simpa using h)
        refine .inr ⟨‹_›, ?_⟩
        rcases hr with rfl | hr <;> simp_all

namespace Kernel

variable {k k' : Kernel}

theorem cleanInbox_eq (p : Ptr) (q : List Msg) : k.cleanInbox p q =
    { k with tcb := put k.tcb p { k.tcb p with tInbox := [] }
             msgFree := k.msgFree ++ q.map Msg.addr } := by
  induction q generalizing k with
  | nil => simp [cleanInbox, setTcb]
  | cons m q ih => simp [cleanInbox, ih, freeMsg]

/-- The kernel after `target` has been freed, whichever place it was taken from. -/
def freed (k : Kernel) (target : Ptr) : Kernel :=
  { k with tcb := put k.tcb target { k.tcb target with tInbox := [] }
           msgFree := k.msgFree ++ (k.tcb target).tInbox.map Msg.addr
           tcbFree := k.tcbFree ++ [target]
           threadCount := k.threadCount - 1
           trapManagers := eraseManager k.trapManagers target }

theorem reap_cases {t : Ptr} (h : k.reap t = .ok k') :
    ((t ∈ k.readyQueue ∧ t ≠ null ∨ k.currentThread = t) ∧
      k' = { k.freed t with
             readyQueue := k.readyQueue.erase t
             currentThread := if k.currentThread = t then null else k.currentThread }) ∨
    (k.currentThread ≠ t ∧ t ≠ null ∧ t ∉ k.readyQueue ∧ t ∈ k.waitQueue ∧
      k' = { k.freed t with
             waitQueue := k.waitQueue.erase t
             softBlockCount := if (k.tcb t).waitingFor = k.ssiTcb then k.softBlockCount - 1
               else k.softBlockCount }) := by
  simp only [reap, outThread_snd, cleanInbox_eq, deleteManager] at h
  split at h
  · next hc =>
    refine .inl ⟨by rwa [outThread_fst_ne_null] at hc, ?_⟩
    cases h
    by_cases hcur : k.currentThread = t <;> simp [freed, freeTcb, hcur]
  · next hc =>
    simp only [outThread_fst_ne_null, not_or] at hc
    split at h
    · next hw =>
      rw [outThread_fst_ne_null] at hw
      refine .inr ⟨hc.2, hw.2, fun hr => hc.1 ⟨hr, hw.2⟩, hw.1, ?_⟩
      cases h
      by_cases hs : (k.tcb t).waitingFor = k.ssiTcb <;> simp [freed, freeTcb, hs]
    · cases h

/-- `list_del(&p->t_sib)` and `p->t_parent = NULL`. -/
def detach (k : Kernel) (p : Ptr) : Kernel :=
  { k.setTcb p (fun t => { t with tParent := null }) with links := k.links.del (tSib p) }

/-- `outChild` takes a thread out of the list of its parent, if it has one. -/
theorem outChild_eq (k : Kernel) (t : Ptr) :
    k.outChild t = if (k.tcb t).tParent = null then k else k.detach t := rfl

theorem removeChild_eq (k : Kernel) (t : Ptr) : k.removeChild t =
    if k.links.isEmpty (tChild t) then (null, k)
    else (sibContainer (k.links.next (tChild t)),
      k.detach (sibContainer (k.links.next (tChild t)))) := rfl

/-- `terminate` detaches and reaps threads and does nothing else, and reaps its target last. -/
theorem terminate_cases {R : Kernel → Kernel → Prop} (hrefl : ∀ k, R k k)
    (htrans : ∀ k₁ k₂ k₃, R k₁ k₂ → R k₂ k₃ → R k₁ k₃) (hdetach : ∀ k p, R k (k.detach p))
    (hreap : ∀ k t k', t ≠ null → k.reap t = .ok k' → R k k') {t : Ptr}
    (h : k.terminate t = .ok k') : ∃ k₁, R k k₁ ∧ k₁.reap t = .ok k' := by
  have hout : ∀ k t, R k (outChild k t) := by
    intro k t
    rw [outChild_eq]
    split
    · exact hrefl k
    · exact hdetach k t
  have hremove : ∀ k t, R k (removeChild k t).2 := by
    intro k t
    rw [removeChild_eq]
    split
    · exact hrefl k
    · exact hdetach k _
  have hrec : ∀ n, (∀ k t k', terminateFuel n k t = .ok k' → ∃ k₁, R k k₁ ∧ k₁.reap t = .ok k') ∧
      (∀ k t k', terminateChildren n k t = .ok k' → R k k') := by
    intro n
    induction n with
    | zero => constructor <;> intro k t k' h <;> cases h
    | succ n ih =>
      refine ⟨fun k t k' h => ?_, fun k t k' h => ?_⟩
      · obtain ⟨k₁, h₁, h₂⟩ := bind_eq_ok.mp h
        exact ⟨k₁, htrans _ _ _ (hout k t) (ih.2 _ _ _ h₁), h₂⟩
      · simp only [terminateChildren] at h
        split at h
        · cases h
          exact hremove k t
        · next hne =>
          obtain ⟨k₁, h₁, h₂⟩ := bind_eq_ok.mp h
          obtain ⟨k₀, h₀, h₁⟩ := ih.1 _ _ _ h₁
          exact htrans _ _ _ (hremove k t) (htrans _ _ _ (htrans _ _ _ h₀ (hreap _ _ _ hne h₁))
            (ih.2 _ _ _ h₂))
  exact (hrec _).1 _ _ _ h

/-- `terminate` stops on a TCB that is in no queue, or never gets to the end of a tree. -/
theorem terminate_error {t : Ptr} {e : Stop} (h : k.terminate t = .error e) :
    e = .panic .terminate ∨ e = .overflow := by
  have hreap : ∀ (k : Kernel) t e, k.reap t = .error e → e = .panic .terminate := by
    intro k t e h
    simp only [reap] at h
    split at h
    · cases h
    · split at h <;> cases h
      rfl
  have hrec : ∀ n, (∀ k t e, terminateFuel n k t = .error e → e = .panic .terminate ∨ e = .overflow) ∧
      ∀ k t e, terminateChildren n k t = .error e → e = .panic .terminate ∨ e = .overflow := by
    intro n
    induction n with
    | zero => constructor <;> intro k t e h <;> cases h <;> exact .inr rfl
    | succ n ih =>
      refine ⟨fun k t e h => ?_, fun k t e h => ?_⟩
      · rcases bind_eq_error.mp h with h | ⟨k₁, -, h⟩
        · exact ih.2 _ _ _ h
        · exact .inl (hreap _ _ _ h)
      · simp only [terminateChildren] at h
        split at h
        · cases h
        · rcases bind_eq_error.mp h with h | ⟨k₁, -, h⟩
          · exact ih.1 _ _ _ h
          · exact ih.2 _ _ _ h
  exact (hrec _).1 _ _ _ h

/-- What detaching and reaping preserve, `terminate` preserves. -/
theorem terminate_inv {I : Kernel → Prop} (hdetach : ∀ k p, I k → I (k.detach p))
    (hreap : ∀ k t k', t ≠ null → k.reap t = .ok k' → I k → I k') {t : Ptr} (ht : t ≠ null)
    (h : k.terminate t = .ok k') (hk : I k) : I k' := by
  obtain ⟨k₁, h₁, h₂⟩ := terminate_cases (R := fun k k' => I k → I k')
    (fun _ hk => hk) (fun _ _ _ h h' hk => h' (h hk)) hdetach hreap h
  exact hreap _ _ _ ht h₂ (h₁ hk)

/-- The inbox of the recipient after a message of `id` has been queued. -/
def queued (id : Ptr) (q : List Msg) (m : Msg) : List Msg :=
  if id = busIntervalTimer then m :: q else q ++ [m]

theorem mem_queued {id : Ptr} {q : List Msg} {x y : Msg} (h : y ∈ queued id q x) :
    y = x ∨ y ∈ q := by
  unfold queued at h
  split at h
  · exact List.mem_cons.mp h
  · rcases List.mem_append.mp h with h | h
    · exact .inr h
    · exact .inl (List.mem_singleton.mp h)

theorem enqueue_cases {id t : Ptr} {v : U32} (h : k.enqueue id t v = .ok k') :
    ∃ a free, k.msgFree = a :: free ∧
      k' = { k with msgFree := free
                    tcb := put k.tcb t { k.tcb t with
                      tInbox := queued id (k.tcb t).tInbox ⟨a, id, v⟩ } } := by
  unfold enqueue allocMsg at h
  cases hf : k.msgFree with
  | nil => simp [hf] at h
  | cons a free =>
    refine ⟨a, free, rfl, ?_⟩
    simp only [hf, Except.ok.injEq] at h
    rw [← h]
    rfl

theorem storeWord_cases {a : Ptr} {v : U32} (h : k.storeWord a v = .ok k') :
    a.toNat % 4 = 0 ∧ k' = { k with mem := put k.mem a v } := by
  unfold storeWord at h
  split at h
  · cases h
    exact ⟨‹_›, rfl⟩
  · cases h

/-- The kernel after a payload has been handed to a recipient in the wait queue. -/
def delivered (k : Kernel) (id t : Ptr) (v : U32) : Kernel :=
  { k with mem := put k.mem (k.tcb t).reply v
           waitQueue := k.waitQueue.erase t
           readyQueue := k.readyQueue ++ [t]
           softBlockCount := if id = k.ssiTcb then k.softBlockCount - 1 else k.softBlockCount
           tcb := put k.tcb t { k.tcb t with
             waitingFor := notWaiting, reply := notWaiting
             tState := (k.tcb t).tState.setV0 id } }

theorem deliver_cases {id t : Ptr} {v : U32} (ht : t ∈ k.waitQueue)
    (h : k.deliver id t v = .ok k') :
    (k.tcb t).reply.toNat % 4 = 0 ∧ k' = k.delivered id t v := by
  obtain ⟨k₁, h₁, h₂⟩ := bind_eq_ok.mp h
  obtain ⟨ha, rfl⟩ := storeWord_cases h₁
  refine ⟨ha, ?_⟩
  simp only [outThread_snd, outThread_fst_of_mem ht, insertThread, setTcb, Except.ok.injEq] at h₂
  rw [← h₂]
  by_cases hs : id = k.ssiTcb <;> simp [delivered, hs]

theorem send_cases {s t : Ptr} {v r : U32} (h : k.send s t v = .ok (r, k')) :
    ((t ∈ k.readyQueue ∧ t ≠ null ∨ k.currentThread = t) ∧ r = msgGood ∧
      k.enqueue (k.senderId s) t v = .ok k') ∨
    (k.currentThread ≠ t ∧ t ≠ null ∧ t ∉ k.readyQueue ∧ t ∈ k.waitQueue ∧ r = msgGood ∧
      k.awaits t (k.senderId s) = true ∧ (k.tcb t).reply.toNat % 4 = 0 ∧
      k' = k.delivered (k.senderId s) t v) ∨
    (k.currentThread ≠ t ∧ t ≠ null ∧ t ∉ k.readyQueue ∧ t ∈ k.waitQueue ∧ r = msgGood ∧
      k.awaits t (k.senderId s) = false ∧ k.enqueue (k.senderId s) t v = .ok k') ∨
    (k.currentThread ≠ t ∧ (t ≠ null → t ∉ k.readyQueue ∧ t ∉ k.waitQueue) ∧ r = msgNoGood ∧
      k' = k) := by
  simp only [send, thereIsThread_ne_null] at h
  split at h
  · obtain ⟨k₁, h₁, h₂⟩ := bind_eq_ok.mp h
    cases h₂
    exact .inl ⟨‹_›, rfl, h₁⟩
  · next hc =>
    simp only [not_or, not_and, not_not] at hc
    split at h
    · next hw =>
      have hr : t ∉ k.readyQueue := fun hr => hw.2 (hc.1 hr)
      split at h
      · next ha =>
        obtain ⟨k₁, h₁, h₂⟩ := bind_eq_ok.mp h
        cases h₂
        obtain ⟨hreply, hk⟩ := deliver_cases hw.1 h₁
        exact .inr (.inl ⟨hc.2, hw.2, hr, hw.1, rfl, ha, hreply, hk⟩)
      · next ha =>
        obtain ⟨k₁, h₁, h₂⟩ := bind_eq_ok.mp h
        cases h₂
        exact .inr (.inr (.inl ⟨hc.2, hw.2, hr, hw.1, rfl, by simpa using ha, h₁⟩))
    · next hw =>
      cases h
      refine .inr (.inr (.inr ⟨hc.2, fun ht => ⟨fun hr => ht (hc.1 hr), fun hq => hw ⟨hq, ht⟩⟩,
        rfl, rfl⟩))

/-- What a SEND leaves alone. -/
structure SendFrame (k k' : Kernel) : Prop where
  currentThread : k'.currentThread = k.currentThread
  tcbFree : k'.tcbFree = k.tcbFree
  threadCount : k'.threadCount = k.threadCount
  links : k'.links = k.links
  ssiTcb : k'.ssiTcb = k.ssiTcb

theorem send_frame {s t : Ptr} {v r : U32} (h : k.send s t v = .ok (r, k')) : SendFrame k k' := by
  rcases send_cases h with ⟨-, -, he⟩ | ⟨-, -, -, -, -, -, -, rfl⟩ | ⟨-, -, -, -, -, -, he⟩ |
    ⟨-, -, -, rfl⟩
  · obtain ⟨a, free, -, rfl⟩ := enqueue_cases he
    exact ⟨rfl, rfl, rfl, rfl, rfl⟩
  · exact ⟨rfl, rfl, rfl, rfl, rfl⟩
  · obtain ⟨a, free, -, rfl⟩ := enqueue_cases he
    exact ⟨rfl, rfl, rfl, rfl, rfl⟩
  · exact ⟨rfl, rfl, rfl, rfl, rfl⟩

/-- A SEND stops only when the message pool is empty or the payload cannot be stored. -/
theorem send_error {s t : Ptr} {v : U32} {e : Stop} (h : k.send s t v = .error e) :
    e = .panic .send ∨ e = .trap ∧ t ∈ k.waitQueue ∧ k.awaits t (k.senderId s) = true ∧
      (k.tcb t).reply.toNat % 4 ≠ 0 := by
  have henq : ∀ (k : Kernel) id t v e, k.enqueue id t v = .error e → e = .panic .send := by
    intro k id t v e h
    unfold enqueue at h
    split at h <;> cases h
    rfl
  simp only [send] at h
  split at h
  · rcases bind_eq_error.mp h with h | ⟨k₁, -, h⟩
    · exact .inl (henq _ _ _ _ _ h)
    · cases h
  · split at h
    · next hw =>
      split at h
      · next ha =>
        rcases bind_eq_error.mp h with h | ⟨k₁, -, h⟩
        · rcases bind_eq_error.mp h with h | ⟨k₁, -, h⟩
          · unfold storeWord at h
            split at h
            · cases h
            · cases h
              exact .inr ⟨rfl, (thereIsThread_ne_null.mp hw).1, ha, ‹_›⟩
          · cases h
        · cases h
      · rcases bind_eq_error.mp h with h | ⟨k₁, -, h⟩
        · exact .inl (henq _ _ _ _ _ h)
        · cases h
    · cases h

/-- The kernel after the receiver has taken a message out of its inbox. -/
def received (k : Kernel) (p w reply : Ptr) (m : Msg) (rest : List Msg) : Kernel :=
  { k with tcb := put k.tcb p { k.tcb p with tInbox := rest }
           mem := put k.mem reply m.mMessage
           msgFree := k.msgFree ++ [m.addr]
           softBlockCount := if w = magicSsi then k.softBlockCount - 1 else k.softBlockCount }

theorem recv_cases {p w a r : Ptr} (h : k.recv p w a = .ok (r, k')) :
    (popMessage (k.tcb p).tInbox w = none ∧ r = null ∧ k' = k.block p w a) ∨
    ∃ m rest, popMessage (k.tcb p).tInbox w = some (m, rest) ∧ a.toNat % 4 = 0 ∧
      r = (if w = anyMessage then m.mSender else w) ∧ k' = k.received p w a m rest := by
  unfold recv at h
  split at h
  · next hw =>
    subst hw
    have hne : anyMessage ≠ magicSsi := by decide
    split at h
    · next hn =>
      cases h
      exact .inl ⟨hn, rfl, rfl⟩
    · next m rest hn =>
      obtain ⟨k₁, h₁, h₂⟩ := bind_eq_ok.mp h
      obtain ⟨ha, rfl⟩ := storeWord_cases h₁
      cases h₂
      exact .inr ⟨m, rest, hn, ha, by simp, by simp [received, freeMsg, setTcb, hne]⟩
  · next hw =>
    split at h
    · next hn =>
      cases h
      exact .inl ⟨hn, rfl, rfl⟩
    · next m rest hn =>
      obtain ⟨k₁, h₁, h₂⟩ := bind_eq_ok.mp h
      obtain ⟨ha, rfl⟩ := storeWord_cases h₁
      cases h₂
      refine .inr ⟨m, rest, hn, ha, by simp [hw], ?_⟩
      by_cases hs : w = magicSsi <;> simp [received, freeMsg, setTcb, hs]

theorem continueTrapped_cases {t : Ptr} (h : k.continueTrapped t = .ok k') :
    t ∈ k.waitQueue ∧ t ≠ null ∧
      k' = { k with waitQueue := k.waitQueue.erase t, readyQueue := k.readyQueue ++ [t] } := by
  unfold continueTrapped at h
  dsimp only at h
  split at h
  · cases h
  · next hp =>
    have hm := outThread_fst_ne_null.mp hp
    cases h
    exact ⟨hm.1, hm.2, by rw [outThread_snd, outThread_fst_of_mem hm.1]; rfl⟩

/-- A SEND that comes back was the decision of a manager or an ordinary message. -/
theorem sysSendCase_cases {old : State} (h : k.sysSendCase old = .ok k') : ∃ k₁ : Kernel,
    k₁ = (if old.regA1 = magicSsi then { k with softBlockCount := k.softBlockCount + 1 } else k) ∧
      (k₁.intercepts k.currentThread (k.receiver old) = true ∧ k.receiver old ≠ null ∧
          (k₁.terminate (k.receiver old) = .ok k' ∨ k₁.continueTrapped (k.receiver old) = .ok k') ∨
        k₁.sendOrdinary k.currentThread (k.receiver old) old.regA2 = .ok k') := by
  have hne : ∀ (k : Kernel) s t, k.intercepts s t = true → t ≠ null := by
    intro k s t hi
    simp only [intercepts, Bool.and_eq_true, decide_eq_true_eq] at hi
    exact hi.1.2
  unfold sysSendCase at h
  dsimp only at h
  generalize (if old.regA1 = magicSsi then { k with softBlockCount := k.softBlockCount + 1 }
    else k : Kernel) = k₁ at h ⊢
  refine ⟨k₁, rfl, ?_⟩
  by_cases hm : k₁.thereIsManager k.currentThread ≠ null ∧ (k.receiver old).toNat % 4 ≠ 0
  · rw [if_pos hm] at h
    cases h
  rw [if_neg hm] at h
  split at h
  · next hi =>
    simp only [Bool.and_eq_true] at hi
    exact .inl ⟨hi.1, hne _ _ _ hi.1, .inl h⟩
  · split at h
    · next hi =>
      simp only [Bool.and_eq_true] at hi
      exact .inl ⟨hi.1, hne _ _ _ hi.1, .inr h⟩
    · exact .inr h

theorem allocTcb_cases {p : Ptr} (h : k.allocTcb = (p, k')) (hp : p ≠ null) :
    ∃ free, k.tcbFree = p :: free ∧
      k' = { k with tcb := put k.tcb p freshTcb, tcbFree := free
                    links := (k.links.init (tChild p)).init (tSib p) } := by
  unfold allocTcb at h
  split at h
  · cases h
    exact absurd rfl hp
  · next q free hf =>
    cases h
    exact ⟨free, hf, rfl⟩

/-- Nothing happens when no TCB is free. -/
theorem allocTcb_null (hf : null ∉ k.tcbFree) (h : k.allocTcb = (null, k')) :
    k.tcbFree = [] ∧ k' = k := by
  unfold allocTcb at h
  split at h
  · cases h
    exact ⟨‹_›, rfl⟩
  · next p free hp =>
    cases h
    exact absurd (by simp [hp]) hf

/-- No operation moves the SSI to another TCB. -/
theorem ssiTcb_step {o : Op} (h : OpStep k o k') : k'.ssiTcb = k.ssiTcb := by
  cases h with
  | quiet hq => exact hq.ssiTcb
  | send hs => exact (send_frame hs).ssiTcb
  | recv _ hr => rcases recv_cases hr with ⟨-, -, rfl⟩ | ⟨m, rest, -, -, -, rfl⟩ <;> rfl
  | terminate ht h =>
    refine terminate_inv (I := fun k' => k'.ssiTcb = k.ssiTcb) (fun _ _ h => h) ?_ ht h rfl
    intro k t k' _ hr hk
    rcases reap_cases hr with ⟨-, rfl⟩ | ⟨-, -, -, -, rfl⟩ <;> exact hk
  | resume hr =>
    obtain ⟨-, -, rfl⟩ := continueTrapped_cases hr
    rfl
  | alloc ha hp =>
    obtain ⟨free, -, rfl⟩ := allocTcb_cases ha hp
    rfl
  | insertChild | insertSibling => rfl
  | request | freeze | dispatch | preempt | countThread | publish => rfl

end Kernel

theorem Ops.ssiTcb {P : Op → Prop} {k k' : Kernel} (h : Ops P k k') : k'.ssiTcb = k.ssiTcb :=
  h.inv (I := fun k' => k'.ssiTcb = k.ssiTcb)
    (fun _ _ _ hs _ hk => (Kernel.ssiTcb_step hs).trans hk) rfl

end AmiKaya
