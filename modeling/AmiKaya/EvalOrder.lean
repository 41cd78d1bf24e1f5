import AmiKaya.Requests
import AmiKaya.SendRecv

/-! The two orders in which C may evaluate the sides of the assignment of `recv`'s result. -/
namespace AmiKaya
open Lts

/-- When `current_thread` on the left is read. -/
inductive EvalOrder
  | leftFirst | callFirst
deriving DecidableEq

namespace Kernel

variable {k k' : Kernel} {o : EvalOrder} {old : State}

/-- The thread whose saved `v0` is stored to, after the call of `recv` that led to `k'`. -/
def assignee (o : EvalOrder) (k k' : Kernel) : Ptr :=
  match o with
  | .leftFirst => k.currentThread
  | .callFirst => k'.currentThread

/-- `current_thread->t_state.reg_v0 = recv(...)`. There is no TCB at NULL. -/
def recvAssign (o : EvalOrder) (k : Kernel) (old : State) : Except Stop Kernel := do
  let r ← k.recv k.currentThread old.regA1 old.regA2
  if assignee o k r.2 = null then .error .fault
  else .ok (r.2.setTcb (assignee o k r.2) fun t => { t with tState := t.tState.setV0 r.1 })

def sysbpBodyIn (o : EvalOrder) (k : Kernel) (old : State) : Except Stop Kernel :=
  let k := k.sysbpEnter old
  if old.isSend then k.sysSendCase old
  else if old.isRecv then k.recvAssign o old
  else k.passUp ((k.tcb k.currentThread).manager .sysbp) old.cause

/-- `sysbp_handler`, compiled for one of the orders. -/
def sysbpHandlerIn (o : EvalOrder) (k : Kernel) (old : State) : Except Stop Kernel := do
  let k ← k.sysbpBodyIn o old
  k.scheduler

/-- The assignment comes to its store with NULL on the left. -/
def StoresAtNull (o : EvalOrder) (k : Kernel) (old : State) : Prop :=
  ∃ r k', (k.sysbpEnter old).recv (k.sysbpEnter old).currentThread old.regA1 old.regA2 = .ok (r, k') ∧
    assignee o (k.sysbpEnter old) k' = null

/-- The order does not matter. -/
structure OrderFree (k : Kernel) (old : State) : Prop where
  same : k.sysbpHandlerIn .leftFirst old = k.sysbpHandlerIn .callFirst old
  noNull : ∀ o, ¬ k.StoresAtNull o old

/-- With the left side first, it is the handler as it is modelled elsewhere. -/
theorem sysbpHandlerIn_leftFirst (hc : k.currentThread ≠ null) :
    k.sysbpHandlerIn .leftFirst old = k.sysbpHandler old := by
  have hcur : (k.sysbpEnter old).currentThread ≠ null := by
    rw [(sysbpEnter_quiet old).currentThread]
    exact hc
  have hassign : (k.sysbpEnter old).recvAssign .leftFirst old = (k.sysbpEnter old).sysRecvCase old := by
    simp only [recvAssign, assignee, sysRecvCase]
    cases (k.sysbpEnter old).recv (k.sysbpEnter old).currentThread old.regA1 old.regA2 with
    | error e => rfl
    | ok r => exact if_neg hcur
  rw [sysbpHandler, sysbpBody_eq, ← hassign]
  rfl

/-- On a RECV only the assignment is left. -/
theorem sysbpHandlerIn_recv (o : EvalOrder) (hr : old.isRecv = true) :
    k.sysbpHandlerIn o old = (k.sysbpEnter old).recvAssign o old >>= fun k => k.scheduler := by
  simp only [sysbpHandlerIn, sysbpBodyIn, State.isSend_of_isRecv hr, hr, Bool.false_eq_true,
    if_false, if_true]

theorem popMessage_ne_none {q : List Msg} {w : Ptr} :
    popMessage q w ≠ none ↔ ∃ x ∈ q, Accepts w x := by
  constructor
  · intro h
    by_contra hno
    exact h (popMessage_refused fun x hx ha => hno ⟨x, hx, ha⟩)
  · rintro ⟨x, hx, ha⟩ hnone
    rcases popMessage_none hnone with rfl | ⟨hw, hall⟩
    · cases hx
    · exact ha.elim hw fun he => hall x hx he

/-- The inbox of the current thread holds a message for this RECV. -/
def FindsMessage (k : Kernel) (w : Ptr) : Prop :=
  ∃ x ∈ (k.tcb k.currentThread).tInbox, Accepts w x

/-- `recv` clears `current_thread` exactly when it finds no message. -/
theorem recv_currentThread {r : U32} {w a : Ptr} (h : k.recv k.currentThread w a = .ok (r, k')) :
    k.FindsMessage w ∧ k'.currentThread = k.currentThread ∨
      ¬ k.FindsMessage w ∧ k'.currentThread = null := by
  rcases recv_cases h with ⟨hn, -, rfl⟩ | ⟨x, rest, hs, -, -, rfl⟩
  · exact .inr ⟨fun ha => popMessage_ne_none.mpr ha hn, rfl⟩
  · refine .inl ⟨popMessage_ne_none.mp ?_, rfl⟩
    rw [hs]
    exact Option.some_ne_none _

/-- The two orders agree, without a store at NULL, exactly when `recv` does not block. -/
theorem orderFree_iff (hr : old.isRecv = true) (hc : k.currentThread ≠ null) :
    k.OrderFree old ↔ k.FindsMessage old.regA1 := by
  have hq := sysbpEnter_quiet (k := k) old
  have hcur : (k.sysbpEnter old).currentThread ≠ null := by
    rw [hq.currentThread]
    exact hc
  have hfinds : (k.sysbpEnter old).FindsMessage old.regA1 ↔ k.FindsMessage old.regA1 := by
    unfold FindsMessage
    rw [hq.currentThread, hq.tInbox]
  rw [← hfinds]
  constructor
  · intro h
    by_contra hno
    have hnone := popMessage_refused fun x hx ha => hno ⟨x, hx, ha⟩
    exact h.noNull .callFirst ⟨_, _, recv_blocks hnone, rfl⟩
  · intro hf
    have hkeep : ∀ o r k', (k.sysbpEnter old).recv (k.sysbpEnter old).currentThread old.regA1
        old.regA2 = .ok (r, k') → assignee o (k.sysbpEnter old) k' = (k.sysbpEnter old).currentThread := by
      intro o r k' h
      have hsame := ((recv_currentThread h).resolve_right fun hn => hn.1 hf).2
      cases o with
      | leftFirst => rfl
      | callFirst => exact hsame
    constructor
    case same =>
      rw [sysbpHandlerIn_recv _ hr, sysbpHandlerIn_recv _ hr]
      unfold recvAssign
      cases hrecv : (k.sysbpEnter old).recv (k.sysbpEnter old).currentThread old.regA1 old.regA2 with
      | error e => rfl
      | ok r => simp only [bind, Except.bind, hkeep _ r.1 r.2 hrecv]
    case noNull =>
      rintro o ⟨r, k', h, hnull⟩
      exact hcur ((hkeep o r k' h).symm.trans hnull)

end Kernel

namespace Machine

def recvAny : State := initTState.syscall sysRecv anyMessage 0x20030100

/-- The test thread receives the message it has sent to itself. -/
theorem orderFree_iff_message : ∃ m m' : Machine,
    Run Step m (Event.ssiCalls 2 ++ [.call sysSend testThreadAddr 5]) m' ∧
    m'.k.currentThread = testThreadAddr ∧ m'.k.OrderFree recvAny := by
  have hrun : passes (fun m => passes (fun m' => decide (m'.k.currentThread = testThreadAddr) &&
      decide ((m'.k.tcb m'.k.currentThread).tInbox ≠ [])) (exec fire m
        (Event.ssiCalls 2 ++ [.call sysSend testThreadAddr 5]))) (start .zeroed) = true := by
    decide +kernel
  obtain ⟨m, hm, hrun⟩ := exists_of_passes hrun
  obtain ⟨m', hs, hend⟩ := exists_of_passes hrun
  simp only [Bool.and_eq_true, decide_eq_true_eq] at hend
  obtain ⟨hc, hne⟩ := hend
  obtain ⟨x, hx⟩ := List.exists_mem_of_ne_nil _ hne
  have hfinds : m'.k.FindsMessage recvAny.regA1 := ⟨x, hx, .inl (by decide)⟩
  have hrecv : recvAny.isRecv = true := by decide
  have hiff := Kernel.orderFree_iff (k := m'.k) hrecv (by rw [hc]; decide)
  exact ⟨m, m', (run_of_exec hs).mono fun _ _ _ => step_of_fire, hc, hiff.mpr hfinds⟩

/-- The test thread has received nothing yet when it makes its first RECV. -/
theorem orderFree_fails : ¬ ∀ (m m' : Machine) (es : List Event) (old : State), m.Initial →
    Run Step m es m' → old.isRecv = true → m'.k.currentThread ≠ null → m'.k.OrderFree old := by
  intro hall
  have hrun : passes (fun m => passes (fun m' => decide (m'.k.currentThread = testThreadAddr) &&
      decide ((m'.k.tcb m'.k.currentThread).tInbox = [])) (exec fire m (Event.ssiCalls 2)))
      (start .zeroed) = true := by
    decide +kernel
  obtain ⟨m, hm, hrun⟩ := exists_of_passes hrun
  obtain ⟨m', hs, hend⟩ := exists_of_passes hrun
  simp only [Bool.and_eq_true, decide_eq_true_eq] at hend
  obtain ⟨hc, hnil⟩ := hend
  have hr : Run Step m (Event.ssiCalls 2) m' := (run_of_exec hs).mono fun _ _ _ => step_of_fire
  have hcur : (m'.k.sysbpEnter recvAny).currentThread = m'.k.currentThread :=
    (Kernel.sysbpEnter_quiet recvAny).currentThread
  have hfree := hall m m' _ recvAny (initial_of_start Kernel.zeroed_powerOn hm) hr (by decide)
    (by rw [hc]; decide)
  have hnone : popMessage ((m'.k.sysbpEnter recvAny).tcb (m'.k.sysbpEnter recvAny).currentThread).tInbox
      recvAny.regA1 = none := by
    rw [hcur, (Kernel.sysbpEnter_quiet recvAny).tInbox, hnil]
    rfl
  exact hfree.noNull .callFirst ⟨_, _, Kernel.recv_blocks hnone, rfl⟩

end Machine

end AmiKaya
