import AmiKaya.NestedTraps

/-! Every entry of the kernel keeps each TCB in one place, or stops the machine with HALT or PANIC.
-/
namespace AmiKaya

/-- The two ROM routines. -/
def Stop.isRom : Stop → Bool
  | .halt | .panic _ => true
  | .trap | .fault | .overflow => false

namespace Kernel

/-- What the handlers are to keep. -/
def InOrder (k : Kernel) : Prop := k.Orderly ∧ k.Linked

/-- A handler comes back with `P`, or ends in a way that `Q` allows. -/
def Lands (Q : Stop → Prop) (P : Kernel → Prop) : Except Stop Kernel → Prop
  | .ok k => P k
  | .error e => Q e

/-- The SEND is not the decision of a manager about a trapped thread. -/
def NoDecision (k : Kernel) (old : State) : Prop :=
  ¬ (k.intercepts k.currentThread (k.receiver old) = true ∧
    (old.regA2 = trapTerminate ∨ old.regA2 = trapContinue))

/-- A registered manager sends to an aligned address. -/
def Receives (k : Kernel) (old : State) : Prop :=
  k.thereIsManager k.currentThread ≠ null → (k.receiver old).toNat % 4 = 0

section

variable {Q : Stop → Prop} {k k' : Kernel} {s t m : Ptr} {v : U32} {old : State}

theorem InOrder.still (h : k.InOrder) (hs : Still k k') : k'.InOrder := h.1.still h.2 hs

theorem Lands.of_settled {P : Kernel → Prop} {x : Except Stop Kernel} (hx : Settled Q x)
    (h : ∀ k', x = .ok k' → P k') : Lands Q P x := by
  cases x with
  | ok k' => exact h k' rfl
  | error e => exact hx e rfl

variable (hQ : Stop.Tame Q) (h : k.InOrder)

include hQ in
theorem Lands.scheduler {x : Except Stop Kernel} (h : Lands Q InOrder x) :
    Lands Q InOrder (x >>= Kernel.scheduler) := by
  cases x with
  | ok k =>
    refine .of_settled (scheduler_settled hQ) fun k' hk' => ?_
    exact InOrder.still h (.scheduler h.1.placed hk')
  | error e => exact h

/-! The handlers up to their call of the scheduler. -/

include h in
theorem terminate_lands (ht : k.Live t) : Lands Q InOrder (k.terminate t) := by
  obtain ⟨k', hk', hin⟩ := h.1.terminate h.2 ht
  rw [hk']
  exact hin

include hQ h in
theorem passUp_lands (hc : k.currentThread ≠ null)
    (ha : ¬ Q .trap → m ≠ null → k.Addressed k.currentThread m) :
    Lands Q InOrder (k.passUp m v) := by
  by_cases hm : m = null
  · have hlive : k.Live k.currentThread := .inr (.inr (mem_running.mpr ⟨rfl, hc⟩))
    obtain ⟨k', hk', hin⟩ := h.1.terminate h.2 hlive
    have hcur := terminate_current h.1.placed hc hk'
    have heq : k.passUp m v = .ok k' := by
      unfold passUp
      rw [if_pos hm, hk']
      change Except.ok { k' with currentThread := null } = _
      rw [← hcur]
    rw [heq]
    exact hin
  · refine .of_settled (passUp_settled hQ hm fun hq => ha hq hm) fun k' hk' => ?_
    exact h.still (.passUp hm hc hk')

include hQ h in
theorem enterPassUp_lands (hc : k.currentThread ≠ null)
    (ha : ¬ Q .trap → m ≠ null → k.Addressed k.currentThread m) :
    Lands Q InOrder ((k.enter old).passUp m v) := by
  have hin := enter_unmoved (k := k) old
  refine passUp_lands hQ (h.still (.quiet (.enter old))) (hin.currentThread ▸ hc) fun hq hm => ?_
  rw [hin.currentThread, hin.addressed]
  exact ha hq hm

include hQ h in
theorem sysbpSend_lands (hs : old.isSend = true) (hn : k.NoDecision old)
    (ha : ¬ Q .trap → k.Receives old ∧ k.Addressed k.currentThread (k.receiver old)) :
    Lands Q InOrder (k.sysbpBody old) := by
  obtain ⟨-, hw, -, -, hssi, htm, -, -, hwf⟩ := k.sendEnter_eq old
  have hman : (k.sendEnter old).thereIsManager k.currentThread = k.thereIsManager k.currentThread := by
    unfold thereIsManager
    rw [htm]
  have hint : (k.sendEnter old).intercepts k.currentThread (k.receiver old) =
      k.intercepts k.currentThread (k.receiver old) := by
    unfold intercepts
    rw [hman, (hwf _).1]
  have hreply : ((k.sendEnter old).tcb (k.receiver old)).reply = (k.tcb (k.receiver old)).reply := by
    have hq := sysbpEnter_quiet (k := k) old
    unfold sendEnter
    split <;> exact hq.reply _
  rw [sysbpBody_sendEnter hs, hman, hint]
  split
  · next hmis =>
    by_contra hq
    exact hmis.2 ((ha hq).1 hmis.1)
  · split
    · next hd =>
      simp only [Bool.and_eq_true, decide_eq_true_eq] at hd
      exact absurd ⟨hd.1, .inl hd.2⟩ hn
    · split
      · next hd =>
        simp only [Bool.and_eq_true, decide_eq_true_eq] at hd
        exact absurd ⟨hd.1, .inr hd.2⟩ hn
      · have ha' := fun hq => (ha hq).2.congr hw hssi (hwf _).1 hreply
        refine .of_settled (sendOrdinary_settled hQ ha') fun k' hk' => ?_
        exact (h.still (sendEnter_still old)).still (.sendOrdinary hk')

include h in
theorem sysbpRecv_lands (hc : k.currentThread ≠ null)
    (ha : ¬ Q .trap → k.Stores old.regA1 old.regA2) :
    Lands Q InOrder ((k.sysbpEnter old).sysRecvCase old) := by
  have hq := sysbpEnter_quiet (k := k) old
  have ha' : ¬ Q .trap → (k.sysbpEnter old).Stores old.regA1 old.regA2 := by
    intro hn
    unfold Stores
    rw [hq.currentThread, hq.tInbox]
    exact ha hn
  refine .of_settled (sysRecvCase_settled ha') fun k' hk' => ?_
  exact (h.still (.quiet hq)).still (.sysRecvCase (hq.currentThread ▸ hc) hk')

include hQ h in
theorem sysbpPassUp_lands (hc : k.currentThread ≠ null)
    (ha : ¬ Q .trap → ∀ m, m = (k.tcb k.currentThread).manager .sysbp → m ≠ null →
      k.Addressed k.currentThread m) :
    Lands Q InOrder ((k.sysbpEnter old).passUp (((k.sysbpEnter old).tcb
      (k.sysbpEnter old).currentThread).manager .sysbp) old.cause) := by
  have hin := sysbpEnter_unmoved (k := k) old
  refine passUp_lands hQ (h.still (.quiet (sysbpEnter_quiet old))) (hin.currentThread ▸ hc)
    fun hq hm => ?_
  rw [hin.manager, hin.currentThread] at hm ⊢
  rw [hin.addressed]
  exact ha hq _ rfl hm

end

end Kernel

/-- The entries of the kernel, with the old area they find. The TERMINATE service is entered with
its requester. -/
inductive Entrance
  | scheduler
  | interrupt (old : State)
  | sysbp (old : State)
  | pgmtrap (old : State)
  | tlb (old : State)
  | terminate (requester : Ptr)

namespace Entrance

variable {k : Kernel}

/-- The entry up to the first access of it that traps. The SSI serves a requester that it finds in a
queue. -/
def first (k : Kernel) : Entrance → Except Stop Kernel
  | .scheduler => k.scheduler
  | .interrupt old => k.intHandler old
  | .sysbp old => k.sysbpHandler old
  | .pgmtrap old => k.pgmtrapHandler old
  | .tlb old => k.tlbHandler old
  | .terminate p =>
    if thereIsThread k.readyQueue p ≠ null ∨ thereIsThread k.waitQueue p ≠ null then k.terminate p
    else .ok k

/-- The kernel when an access of this entry traps. -/
def trapped (k : Kernel) : Entrance → Kernel
  | .interrupt old => k.intTrap old
  | .sysbp old => k.sysbpTrap old
  | .pgmtrap old | .tlb old => k.enter old
  | .scheduler | .terminate _ => k

/-- The whole entry: a trap inside it is an entry of `pgmtrap_handler`. The old areas of one such
trap after the other are given; with an idle processor that handler works on the NULL thread. -/
def run (k : Kernel) (e : Entrance) : List State → Except Stop Kernel
  | [] => e.first k
  | old :: olds =>
    match e.first k with
    | .error .trap =>
      if k.currentThread = null then .error .fault else run (e.trapped k) (.pgmtrap old) olds
    | r => r

/-- An exception has a thread that raised it, and is not the decision of a manager. -/
def Proper (k : Kernel) : Entrance → Prop
  | .scheduler | .interrupt _ | .terminate _ => True
  | .sysbp old => k.currentThread ≠ null ∧ (old.isSend = true → k.NoDecision old)
  | .pgmtrap _ | .tlb _ => k.currentThread ≠ null

/-- The current thread can pass its exception up to its manager, if it has one. -/
def PassesUp (k : Kernel) (e : Trap) : Prop :=
  ∀ m, m = (k.tcb k.currentThread).manager e → m ≠ null → k.Addressed k.currentThread m

/-- Every address the handler uses is aligned. -/
def Addresses (k : Kernel) : Entrance → Prop
  | .scheduler | .terminate _ => True
  | .interrupt _ => k.Listens
  | .sysbp old =>
    if old.isSend then k.Receives old ∧ k.Addressed k.currentThread (k.receiver old)
    else if old.isRecv then k.Stores old.regA1 old.regA2
    else PassesUp k .sysbp
  | .pgmtrap _ => PassesUp k .pgmtrap
  | .tlb _ => PassesUp k .tlbtrap

theorem enter_manager (old : State) (e : Trap) :
    ((k.enter old).tcb (k.enter old).currentThread).manager e = (k.tcb k.currentThread).manager e := by
  rw [(Quiet.enter old).currentThread, Kernel.enter_manager]

theorem first_lands {Q : Stop → Prop} (hQ : Stop.Tame Q) (e : Entrance) (h : k.InOrder)
    (hp : e.Proper k) (ha : ¬ Q .trap → e.Addresses k) :
    Kernel.Lands Q Kernel.InOrder (e.first k) := by
  cases e with
  | scheduler =>
    refine .of_settled (Kernel.scheduler_settled hQ) fun k' hk' => ?_
    exact h.still (.scheduler h.1.placed hk')
  | interrupt old =>
    refine Kernel.Lands.scheduler hQ (.of_settled (Kernel.intBody_settled hQ ha old) fun k' hk' => ?_)
    exact h.still (.intBody h.1.placed hk')
  | sysbp old =>
    refine Kernel.Lands.scheduler hQ ?_
    simp only [Addresses] at ha
    by_cases hs : old.isSend
    · simp only [hs, if_true] at ha
      exact Kernel.sysbpSend_lands hQ h hs (hp.2 hs) ha
    · rw [Kernel.sysbpBody_eq, if_neg hs]
      by_cases hr : old.isRecv
      · simp only [hs, hr, if_true, if_false, Bool.false_eq_true] at ha ⊢
        exact Kernel.sysbpRecv_lands h hp.1 ha
      · simp only [hs, hr, if_false, Bool.false_eq_true] at ha ⊢
        exact Kernel.sysbpPassUp_lands hQ h hp.1 ha
  | pgmtrap old =>
    have hm := enter_manager (k := k) old .pgmtrap
    exact Kernel.Lands.scheduler hQ (Kernel.enterPassUp_lands hQ h hp fun hq => ha hq _ hm)
  | tlb old =>
    have hm := enter_manager (k := k) old .tlbtrap
    exact Kernel.Lands.scheduler hQ (Kernel.enterPassUp_lands hQ h hp fun hq => ha hq _ hm)
  | terminate p =>
    simp only [first]
    split
    · next hq =>
      have hlive : k.Live p := by
        rcases hq with hq | hq
        · exact .inl (thereIsThread_ne_null.mp hq).1
        · exact .inr (.inl (thereIsThread_ne_null.mp hq).1)
      exact Kernel.terminate_lands h hlive
    · exact h

theorem trapped_still (e : Entrance) : Still k (e.trapped k) := by
  cases e with
  | scheduler | terminate => exact .refl k
  | interrupt old => exact .quiet (Kernel.intTrap_quiet old)
  | sysbp old => exact Kernel.sysbpTrap_still old
  | pgmtrap old | tlb old => exact .quiet (.enter old)

theorem trapped_unmoved (e : Entrance) : k.Unmoved (e.trapped k) := by
  cases e with
  | scheduler | terminate => constructor <;> intros <;> rfl
  | interrupt old => exact Kernel.intTrap_unmoved old
  | sysbp old => exact Kernel.sysbpTrap_unmoved old
  | pgmtrap old | tlb old => exact Kernel.enter_unmoved old

theorem PassesUp.unmoved {k' : Kernel} {e : Trap} (h : PassesUp k e) (hu : k.Unmoved k') :
    PassesUp k' e := by
  intro m hm hn
  rw [hu.currentThread, hu.addressed]
  exact h m (by rw [hm, hu.currentThread, hu.manager]) hn

theorem isRom_tame : Stop.Tame fun e => e.isRom = true := ⟨rfl, fun _ _ => rfl⟩

/-- Where the handler does not trap, the whole entry is the handler. -/
theorem run_of_lands {P : Kernel → Prop} {e : Entrance} {olds : List State}
    (h : Kernel.Lands (fun e => e.isRom = true) P (e.first k)) : e.run k olds = e.first k := by
  cases olds with
  | nil => rfl
  | cons old olds =>
    unfold run
    split
    · next ht =>
      rw [ht] at h
      cases h
    · rfl

/-- A trap that cannot be passed up is taken again and again. -/
theorem run_traps (hk : Placed k) (hc : k.currentThread ≠ null) {old : State}
    (h : k.pgmtrapBody old = .error .trap) (olds : List State) :
    (pgmtrap old).run k olds = .error .trap := by
  have hfirst : ∀ {k : Kernel} {old}, k.pgmtrapBody old = .error .trap →
      (pgmtrap old).first k = .error .trap := by
    intro k old h
    simp only [first, Kernel.pgmtrapHandler, h]
    rfl
  induction olds generalizing k old with
  | nil => exact hfirst h
  | cons old' olds ih =>
    unfold run
    rw [hfirst h]
    dsimp only
    rw [if_neg hc]
    have hq := Quiet.enter (k := k) old
    exact ih (hk.of_perm (SamePlaces.quiet hq)) (hq.currentThread ▸ hc)
      (Kernel.pgmtrapBody_again hk h old')

end Entrance

namespace Kernel

/-- The running thread has a message in its inbox. -/
def twoThreadsMail : Kernel :=
  { twoThreads with
    tcb := put twoThreads.tcb threadArrayAddr
      { freshTcb with tInbox := [⟨msgArrayAddr, testThreadAddr, 0⟩] }
    msgFree := msgArray.drop 1 }

/-- The manager of the running thread waits for a message at an odd address. -/
def twoThreadsOdd : Kernel :=
  { twoThreads with
    readyQueue := []
    waitQueue := [testThreadAddr]
    tcb := put (put twoThreads.tcb threadArrayAddr
        { freshTcb with pgmtrapManagerThread := testThreadAddr })
      testThreadAddr { freshTcb with waitingFor := anyMessage, reply := 1 } }

/-- Nobody runs, and the SSI waits for a message at an odd address. -/
def twoThreadsIdle : Kernel :=
  { twoThreads with
    readyQueue := [testThreadAddr]
    waitQueue := [threadArrayAddr]
    currentThread := null
    tcb := put twoThreads.tcb threadArrayAddr { freshTcb with waitingFor := anyMessage, reply := 1 } }

/-- The ready thread names the running one as its parent, but is not on its list: its `t_sib` points
into the list heads of both. -/
def twoThreadsStray : Kernel :=
  { twoThreads with
    tcb := put twoThreads.tcb testThreadAddr { freshTcb with tParent := threadArrayAddr }
    links := ⟨put id (tSib testThreadAddr) (tChild testThreadAddr),
      put id (tSib testThreadAddr) (tChild threadArrayAddr)⟩ }

theorem twoThreads_linked {k : Kernel} (h : ∀ p, (k.tcb p).tParent = null) : k.Linked := by
  intro c _ hn
  exact absurd (h c) hn

/-- The list of the parent is broken once the stray child is gone. -/
theorem stray_broken {k : Kernel} (h : k.Orderly) (ha : threadArrayAddr ∉ k.tcbFree)
    (hn : k.links.next (tChild threadArrayAddr) = tChild testThreadAddr) : False := by
  obtain ⟨rank, hc⟩ := h.children
  have hmem : threadArrayAddr ∈ threadArray ∧ testThreadAddr ∈ threadArray := by decide
  obtain ⟨l, hl, hl'⟩ := hc _ ⟨hmem.1, ha⟩
  cases l with
  | nil =>
    have hself : k.links.next (tChild threadArrayAddr) = tChild threadArrayAddr := hl.seg.1
    have heq : threadArrayAddr = testThreadAddr := tChild_inj.mp (hself.symm.trans hn)
    revert heq
    decide
  | cons c l =>
    have hnext : k.links.next (tChild threadArrayAddr) = tSib c := Links.Heap.Ring.next_head hl
    have hlive := (hl' c List.mem_cons_self).1
    exact tChild_ne_tSib hmem.2 (h.live_iff.mp hlive).1 (hn.symm.trans hnext)

end Kernel

namespace Entrance

/-- A RECV with the address `a` for the message. -/
def recvAt (a : Ptr) : Entrance := .sysbp (initTState.syscall sysRecv anyMessage a)

/-- The first interrupt line of a device is pending. -/
def diskOld : State := { initTState with cause := 1 <<< 11 }

theorem run_ok {e : Entrance} {k' : Kernel} (h : e.first k = .ok k') (olds : List State) :
    e.run k olds = .ok k' := by
  cases olds with
  | nil => exact h
  | cons old olds =>
    unfold run
    rw [h]

end Entrance

end AmiKaya
