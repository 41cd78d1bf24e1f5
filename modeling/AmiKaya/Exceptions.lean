import AmiKaya.Scheduler

/-! Message passing, termination and the three exception handlers (`exceptions.c`). A handler is
split in what it does before its final call of the scheduler and that call. -/
namespace AmiKaya

/-- `save_state`. The loop over the registers runs up to index 29, one past the array: that last
store copies `hi` once more. -/
def saveState (source : State) : State :=
  { entryHi := source.entryHi, cause := source.cause, status := source.status
    pcEpc := source.pcEpc, gpr := source.gpr, hi := source.hi, lo := source.lo }

/-- The exception was raised in kernel mode. -/
def State.kernelMode (old : State) : Bool := (old.status &&& statusKUp) >>> 3 = 0

def State.isSyscall (old : State) : Bool := causeExcCodeGet old.cause = excSyscall

/-- A `MsgSend` the kernel serves. -/
def State.isSend (old : State) : Bool := old.kernelMode && old.isSyscall && old.regA0 = sysSend

/-- A `MsgRecv` the kernel serves. -/
def State.isRecv (old : State) : Bool := old.kernelMode && old.isSyscall && old.regA0 = sysRecv

namespace Kernel

/-- What `terminate` does to a thread once it has no children left. -/
def reap (k : Kernel) (target : Ptr) : Except Stop Kernel :=
  let ready := outThread k.readyQueue target
  let wait := outThread k.waitQueue target
  if ready.1 ≠ null ∨ k.currentThread = target then
    let k := { k with readyQueue := ready.2 }
    let k := k.cleanInbox target (k.tcb target).tInbox
    let k := k.deleteManager target
    let k := if k.currentThread = target then { k with currentThread := null } else k
    .ok { k.freeTcb target with threadCount := k.threadCount - 1 }
  else if wait.1 ≠ null then
    let k := { k with waitQueue := wait.2 }
    let k := if (k.tcb target).waitingFor = k.ssiTcb
      then { k with softBlockCount := k.softBlockCount - 1 } else k
    let k := k.cleanInbox target (k.tcb target).tInbox
    let k := k.deleteManager target
    .ok { k.freeTcb target with threadCount := k.threadCount - 1 }
  else .error (.panic .terminate)

mutual

/-- `terminate` and the loop over its children. The fuel bounds the depth of the C stack. -/
def terminateFuel : Nat → Kernel → Ptr → Except Stop Kernel
  | 0, _, _ => .error .overflow
  | n + 1, k, target => do
    let k ← terminateChildren n (k.outChild target) target
    k.reap target

def terminateChildren : Nat → Kernel → Ptr → Except Stop Kernel
  | 0, _, _ => .error .overflow
  | n + 1, k, target =>
    let child := k.removeChild target
    if child.1 = null then .ok child.2
    else do
      let k ← terminateFuel n child.2 child.1
      terminateChildren n k target

end

/-- Every call that returns frees a TCB, so deeper recursions than this one never return. -/
def terminate (k : Kernel) (target : Ptr) : Except Stop Kernel :=
  terminateFuel (2 * maxThreads) k target

/-- A new message from `sender`, at the head of the inbox for the clock and at its tail otherwise.
-/
def enqueue (k : Kernel) (sender target : Ptr) (payload : U32) : Except Stop Kernel :=
  match k.allocMsg with
  | none => .error (.panic .send)
  | some (msg, k) =>
    let msg := { msg with mSender := sender, mMessage := payload }
    .ok (k.setTcb target fun t => { t with
      tInbox := if sender = busIntervalTimer then pushMessage t.tInbox msg
        else insertMessage t.tInbox msg })

/-- The identity under which a message of `sender` travels: the SSI is never named by its TCB. -/
def senderId (k : Kernel) (sender : Ptr) : Ptr := if sender = k.ssiTcb then magicSsi else sender

/-- The recipient in `wait_queue` is waiting for this very sender or for anyone. -/
def awaits (k : Kernel) (target sender : Ptr) : Bool :=
  (k.tcb target).waitingFor = sender || (k.tcb target).waitingFor = anyMessage

/-- Wake the recipient with the payload stored where it asked for it. -/
def deliver (k : Kernel) (sender target : Ptr) (payload : U32) : Except Stop Kernel := do
  let k ← k.storeWord (k.tcb target).reply payload
  let wait := outThread k.waitQueue target
  let k := { k with waitQueue := wait.2, readyQueue := insertThread k.readyQueue wait.1 }
  let k := k.setTcb target fun t => { t with waitingFor := notWaiting, reply := notWaiting }
  -- `sender` is already MAGIC_SSI when the SSI sends, so this comparison never succeeds for it
  let k := if sender = k.ssiTcb then { k with softBlockCount := k.softBlockCount - 1 } else k
  .ok (k.setTcb target fun t => { t with tState := t.tState.setV0 sender })

def send (k : Kernel) (sender target : Ptr) (payload : U32) : Except Stop (U32 × Kernel) :=
  let id := k.senderId sender
  if thereIsThread k.readyQueue target ≠ null ∨ k.currentThread = target then do
    let k ← k.enqueue id target payload
    .ok (msgGood, k)
  else if thereIsThread k.waitQueue target ≠ null then
    if k.awaits target id then do
      let k ← k.deliver id target payload
      .ok (msgGood, k)
    else do
      let k ← k.enqueue id target payload
      .ok (msgGood, k)
  else .ok (msgNoGood, k)

/-- The blocking half of `recv`. -/
def block (k : Kernel) (receiver sender reply : Ptr) : Kernel :=
  { k.setTcb receiver (fun t => { t with waitingFor := sender, reply := reply }) with
    waitQueue := insertThread k.waitQueue receiver, currentThread := null }

def recv (k : Kernel) (receiver sender reply : Ptr) : Except Stop (Ptr × Kernel) :=
  if sender = anyMessage then
    match popMessage (k.tcb receiver).tInbox null with
    | none => .ok (null, k.block receiver anyMessage reply)
    | some (msg, rest) => do
      let k := k.setTcb receiver fun t => { t with tInbox := rest }
      let k ← k.storeWord reply msg.mMessage
      .ok (msg.mSender, k.freeMsg msg)
  else
    match popMessage (k.tcb receiver).tInbox sender with
    | none => .ok (null, k.block receiver sender reply)
    | some (msg, rest) => do
      let k := k.setTcb receiver fun t => { t with tInbox := rest }
      let k ← k.storeWord reply msg.mMessage
      let k := if sender = magicSsi then { k with softBlockCount := k.softBlockCount - 1 } else k
      .ok (sender, k.freeMsg msg)

def chargeSlice (k : Kernel) : Kernel :=
  k.readTodlow.setTcb k.currentThread fun t =>
    { t with cpuSlice := t.cpuSlice + (k.getTodlow - k.currentThreadTod) }

def chargeTime (k : Kernel) : Kernel :=
  k.readTodlow.setTcb k.currentThread fun t =>
    { t with cpuTime := t.cpuTime + (k.getTodlow - k.currentThreadTod) }

/-- Thread time update: two readings of the clock, both against the last dispatch. -/
def chargeCpu (k : Kernel) : Kernel := k.chargeSlice.chargeTime

def setState (k : Kernel) (p : Ptr) (s : State) : Kernel :=
  k.setTcb p fun t => { t with tState := s }

/-- What the three exception handlers do with an exception that is not message passing. -/
def passUp (k : Kernel) (manager : Ptr) (cause : U32) : Except Stop Kernel :=
  if manager = null then do
    let k ← k.terminate k.currentThread
    .ok { k with currentThread := null }
  else do
    let r ← k.send k.currentThread manager cause
    let k := r.2
    let k := k.setTcb k.currentThread fun t => { t with waitingFor := manager }
    .ok { k with waitQueue := insertThread k.waitQueue k.currentThread, currentThread := null }

/-- TRAPCONTINUE: `insertThread(&ready_queue, outThread(&wait_queue, trapped))`. -/
def continueTrapped (k : Kernel) (trapped : Ptr) : Except Stop Kernel :=
  let wait := outThread k.waitQueue trapped
  if wait.1 = null then .error .fault
  else .ok { k with waitQueue := wait.2, readyQueue := insertThread k.readyQueue wait.1 }

/-- The ordinary case of `MsgSend`: the result goes in the saved `v0` of the sender. -/
def sendOrdinary (k : Kernel) (sender receiver : Ptr) (payload : U32) : Except Stop Kernel := do
  let r ← k.send sender receiver payload
  .ok (r.2.setTcb sender fun t => { t with tState := t.tState.setV0 r.1 })

/-- A registered manager sends to a thread whose `waiting_for` names it. The word of ROM that stands
for `NULL->waiting_for` is taken to name no thread. -/
def intercepts (k : Kernel) (sender receiver : Ptr) : Bool :=
  k.thereIsManager sender ≠ null && receiver ≠ null && (k.tcb receiver).waitingFor = sender

/-- The recipient of a SEND: MAGIC_SSI stands for the SSI. -/
def receiver (k : Kernel) (old : State) : Ptr :=
  if old.regA1 = magicSsi then k.ssiTcb else old.regA1

/-- `MsgSend`. The test for a manager decision reads `waiting_for` through the receiver, and traps
if that is not aligned. -/
def sysSendCase (k : Kernel) (old : State) : Except Stop Kernel :=
  let sender := k.currentThread
  let payload := old.regA2
  let receiver := k.receiver old
  let k := if old.regA1 = magicSsi
    then { k with softBlockCount := k.softBlockCount + 1 } else k
  if k.thereIsManager sender ≠ null ∧ receiver.toNat % 4 ≠ 0 then .error .trap
  else if k.intercepts sender receiver && payload = trapTerminate then k.terminate receiver
  else if k.intercepts sender receiver && payload = trapContinue then k.continueTrapped receiver
  else k.sendOrdinary sender receiver payload

/-- `MsgRecv`. The result is stored in the saved `v0` of the receiver; when `recv` blocks, the
left-hand side of that assignment has been read before the call. -/
def sysRecvCase (k : Kernel) (old : State) : Except Stop Kernel := do
  let receiver := k.currentThread
  let r ← k.recv receiver old.regA1 old.regA2
  .ok (r.2.setTcb receiver fun t => { t with tState := t.tState.setV0 r.1 })

/-- The time update and the copy of the old area all handlers start with. -/
def enter (k : Kernel) (old : State) : Kernel :=
  let k := k.chargeCpu
  k.setState k.currentThread (saveState old)

def sysbpBody (k : Kernel) (old : State) : Except Stop Kernel :=
  let k := k.enter old
  let k := k.setTcb k.currentThread fun t =>
    { t with tState := { t.tState with pcEpc := t.tState.pcEpc + wordSize } }
  if old.isSend then k.sysSendCase old
  else if old.isRecv then k.sysRecvCase old
  else k.passUp (k.tcb k.currentThread).sysbpManagerThread old.cause

def pgmtrapBody (k : Kernel) (old : State) : Except Stop Kernel :=
  let k := k.enter old
  k.passUp (k.tcb k.currentThread).pgmtrapManagerThread old.cause

def tlbBody (k : Kernel) (old : State) : Except Stop Kernel :=
  let k := k.enter old
  k.passUp (k.tcb k.currentThread).tlbtrapManagerThread old.cause

def sysbpHandler (k : Kernel) (old : State) : Except Stop Kernel := do
  let k ← k.sysbpBody old
  k.scheduler

def pgmtrapHandler (k : Kernel) (old : State) : Except Stop Kernel := do
  let k ← k.pgmtrapBody old
  k.scheduler

def tlbHandler (k : Kernel) (old : State) : Except Stop Kernel := do
  let k ← k.tlbBody old
  k.scheduler

end Kernel

end AmiKaya
