import AmiKaya.ListMemory
import AmiKaya.Machine

/-! The kernel as programs over the list nodes: every queue, inbox and list of children is reached
by the operations of `listx.h`, `tcb.c` and `msg.c` only. The programs carry the rest of the kernel,
a `Kernel` with empty lists. -/
namespace AmiKaya
open Client

def Tcb.bare (t : Tcb) : Tcb := { t with tInbox := [] }

/-- The kernel without its lists. -/
def Kernel.bare (k : Kernel) : Kernel :=
  { k with tcb := fun p => (k.tcb p).bare, links := ⟨id, id⟩
           tcbFree := [], msgFree := [], readyQueue := [], waitQueue := [] }

def Machine.bare (m : Machine) : Machine := { m with k := m.k.bare }

/-! What works on no list does the same without them. -/
namespace Kernel

variable {k k' : Kernel} {p : Ptr}

theorem bare_setTcb {f : Tcb → Tcb} (hf : ∀ t : Tcb, f t.bare = (f t).bare) :
    k.bare.setTcb p f = (k.setTcb p f).bare := by
  have htcb : (k.bare.setTcb p f).tcb = (k.setTcb p f).bare.tcb := by
    funext q
    by_cases hq : q = p
    · subst hq
      simp [setTcb, bare, hf]
    · simp [setTcb, bare, hq]
  exact congrArg (fun g => { k.bare with tcb := g }) htcb

theorem bare_setState (s : State) : k.bare.setState p s = (k.setState p s).bare :=
  bare_setTcb fun _ => rfl

theorem bare_enter (old : State) : k.bare.enter old = (k.enter old).bare := by
  have hslice : k.bare.chargeSlice = k.chargeSlice.bare :=
    bare_setTcb (k := k.readTodlow) fun _ => rfl
  have htime : k.chargeSlice.bare.chargeTime = k.chargeSlice.chargeTime.bare :=
    bare_setTcb (k := k.chargeSlice.readTodlow) fun _ => rfl
  simp only [enter, chargeCpu, hslice, htime]
  exact bare_setState (saveState old)

theorem bare_setTimer (slice : U32) : k.bare.setTimer slice = (k.setTimer slice).bare := by
  have htick : k.bare.pseudoTick = k.pseudoTick := rfl
  simp only [setTimer, htick]
  split <;> rfl

theorem bare_dispatch (rest : List Ptr) : k.bare.dispatch p [] = (k.dispatch p rest).bare := by
  obtain ⟨k₀, hk₀⟩ : ∃ k₀ : Kernel, k₀ = { k with currentThread := p, readyQueue := rest } :=
    ⟨_, rfl⟩
  have hreset : k₀.bare.updatePseudoTick.resetSlice = k₀.updatePseudoTick.resetSlice.bare :=
    bare_setTcb (k := k₀.updatePseudoTick) fun _ => rfl
  have hbare : { k.bare with currentThread := p, readyQueue := [] } = k₀.bare := by
    rw [hk₀]
    rfl
  simp only [dispatch, hbare, ← hk₀, hreset]
  exact congrArg ldst (bare_setTimer (k := k₀.updatePseudoTick.resetSlice.startTod) schedTimeSlice)

theorem bare_resumeCurrent : k.bare.resumeCurrent = k.resumeCurrent.bare :=
  congrArg ldst (bare_setTimer (k := k.updatePseudoTick.startTod) _)

theorem bare_storeWord {a : Ptr} {v : U32} (h : k.storeWord a v = .ok k') :
    k.bare.storeWord a v = .ok k'.bare := by
  unfold storeWord at h ⊢
  split at h
  · cases h
    rw [if_pos ‹_›]
    rfl
  · cases h

end Kernel

/-- A program over the list nodes. -/
abbrev Code := Prog ListOp U32 Stop

namespace Code

def ask (op : ListOp) : Code U32 := .call op .done

def queue (op : QueueOp) : Code U32 := ask (.queue op)

/-! `tcb.c` and `msg.c`, with the fields that are not links. -/

/-- `list_add_tail` for every element of an array. -/
def insertAll (op : Ptr → QueueOp) : List Ptr → Code Unit
  | [] => .done ()
  | p :: l => do
    let _ ← queue (op p)
    insertAll op l

def initTcbs : Code Unit := do
  let _ ← queue (.mkEmptyThreadQ tcbfreeSentinel)
  insertAll .freeTcb threadArray

def initMsg : Code Unit := do
  let _ ← queue (.mkEmptyMessageQ msgfreeSentinel)
  insertAll .freeMsg msgArray

def allocTcb (k : Kernel) : Code (Ptr × Kernel) := do
  let p ← queue .allocTcb
  if p = null then .done (null, k)
  else .done (p, k.setTcb p fun _ => Kernel.freshTcb)

def insertChild (k : Kernel) (parent child : Ptr) : Code Kernel := do
  let k := k.setTcb child fun t => { t with tParent := parent }
  let _ ← ask (.addSib child (tChild parent))
  .done k

def removeChild (k : Kernel) (parent : Ptr) : Code (Ptr × Kernel) := do
  let pos ← ask (.firstChild parent)
  if pos = null then .done (null, k)
  else do
    let _ ← ask (.delSib pos)
    .done (pos, k.setTcb pos fun t => { t with tParent := null })

def outChild (k : Kernel) (child : Ptr) : Code Kernel :=
  if (k.tcb child).tParent = null then .done k
  else do
    let _ ← ask (.delSib child)
    .done (k.setTcb child fun t => { t with tParent := null })

def insertSibling (k : Kernel) (sibling new : Ptr) : Code Kernel := do
  let _ ← ask (.addSib new (tSib sibling))
  .done k

/-! `exceptions.c`. -/

/-- The loop that empties an inbox. It is not entered more often than there are messages. -/
def cleanInbox (p : Ptr) : Nat → Code Unit
  | 0 => .stop .overflow
  | n + 1 => do
    let msg ← queue (.popMessage (tInboxHead p) null)
    if msg = null then .done ()
    else do
      let _ ← queue (.freeMsg msg)
      cleanInbox p n

def reap (k : Kernel) (target : Ptr) : Code Kernel := do
  let ready ← queue (.outThread readyQueueAddr target)
  if ready ≠ null ∨ k.currentThread = target then do
    cleanInbox target (maxMessages + 1)
    let k := k.deleteManager target
    let k := if k.currentThread = target then { k with currentThread := null } else k
    let _ ← queue (.freeTcb target)
    .done { k with threadCount := k.threadCount - 1 }
  else do
    let wait ← queue (.outThread waitQueueAddr target)
    if wait ≠ null then do
      let k := if (k.tcb target).waitingFor = k.ssiTcb
        then { k with softBlockCount := k.softBlockCount - 1 } else k
      cleanInbox target (maxMessages + 1)
      let k := k.deleteManager target
      let _ ← queue (.freeTcb target)
      .done { k with threadCount := k.threadCount - 1 }
    else .stop (.panic .terminate)

mutual

def terminateFuel : Nat → Kernel → Ptr → Code Kernel
  | 0, _, _ => .stop .overflow
  | n + 1, k, target => do
    let k ← outChild k target
    let k ← terminateChildren n k target
    reap k target

def terminateChildren : Nat → Kernel → Ptr → Code Kernel
  | 0, _, _ => .stop .overflow
  | n + 1, k, target => do
    let child ← removeChild k target
    if child.1 = null then .done child.2
    else do
      let k ← terminateFuel n child.2 child.1
      terminateChildren n k target

end

def terminate (k : Kernel) (target : Ptr) : Code Kernel := terminateFuel (2 * maxThreads) k target

def enqueue (k : Kernel) (id target : Ptr) (payload : U32) : Code Kernel := do
  let msg ← queue .allocMsg
  if msg = null then .stop (.panic .send)
  else do
    let _ ← queue (.fill msg id payload)
    let _ ← queue (if id = busIntervalTimer then .pushMessage (tInboxHead target) msg
      else .insertMessage (tInboxHead target) msg)
    .done k

def deliver (k : Kernel) (id target : Ptr) (payload : U32) : Code Kernel := do
  let k ← .lift (k.storeWord (k.tcb target).reply payload)
  let wait ← queue (.outThread waitQueueAddr target)
  let _ ← queue (.insertThread readyQueueAddr wait)
  let k := k.setTcb target fun t => { t with waitingFor := notWaiting, reply := notWaiting }
  let k := if id = k.ssiTcb then { k with softBlockCount := k.softBlockCount - 1 } else k
  .done (k.setTcb target fun t => { t with tState := t.tState.setV0 id })

def send (k : Kernel) (sender target : Ptr) (payload : U32) : Code (U32 × Kernel) := do
  let id := k.senderId sender
  let ready ← queue (.thereIsThread readyQueueAddr target)
  if ready ≠ null ∨ k.currentThread = target then do
    let k ← enqueue k id target payload
    .done (msgGood, k)
  else do
    let wait ← queue (.thereIsThread waitQueueAddr target)
    if wait ≠ null then
      if k.awaits target id then do
        let k ← deliver k id target payload
        .done (msgGood, k)
      else do
        let k ← enqueue k id target payload
        .done (msgGood, k)
    else .done (msgNoGood, k)

def block (k : Kernel) (receiver sender reply : Ptr) : Code Kernel := do
  let k := k.setTcb receiver fun t => { t with waitingFor := sender, reply := reply }
  let _ ← queue (.insertThread waitQueueAddr receiver)
  .done { k with currentThread := null }

def recv (k : Kernel) (receiver sender reply : Ptr) : Code (Ptr × Kernel) :=
  if sender = anyMessage then do
    let msg ← queue (.popMessage (tInboxHead receiver) null)
    if msg = null then do
      let k ← block k receiver anyMessage reply
      .done (null, k)
    else do
      let payload ← ask (.mMessage msg)
      let k ← .lift (k.storeWord reply payload)
      let sender ← ask (.mSender msg)
      let _ ← queue (.freeMsg msg)
      .done (sender, k)
  else do
    let msg ← queue (.popMessage (tInboxHead receiver) sender)
    if msg = null then do
      let k ← block k receiver sender reply
      .done (null, k)
    else do
      let payload ← ask (.mMessage msg)
      let k ← .lift (k.storeWord reply payload)
      let k := if sender = magicSsi then { k with softBlockCount := k.softBlockCount - 1 } else k
      let _ ← queue (.freeMsg msg)
      .done (sender, k)

def passUp (k : Kernel) (manager : Ptr) (cause : U32) : Code Kernel :=
  if manager = null then do
    let k ← terminate k k.currentThread
    .done { k with currentThread := null }
  else do
    let r ← send k k.currentThread manager cause
    let k := r.2.setTcb r.2.currentThread fun t => { t with waitingFor := manager }
    let _ ← queue (.insertThread waitQueueAddr k.currentThread)
    .done { k with currentThread := null }

def continueTrapped (k : Kernel) (trapped : Ptr) : Code Kernel := do
  let wait ← queue (.outThread waitQueueAddr trapped)
  if wait = null then .stop .fault
  else do
    let _ ← queue (.insertThread readyQueueAddr wait)
    .done k

def sendOrdinary (k : Kernel) (sender receiver : Ptr) (payload : U32) : Code Kernel := do
  let r ← send k sender receiver payload
  .done (r.2.setTcb sender fun t => { t with tState := t.tState.setV0 r.1 })

def sysSendCase (k : Kernel) (old : State) : Code Kernel :=
  let sender := k.currentThread
  let payload := old.regA2
  let receiver := k.receiver old
  let k := if old.regA1 = magicSsi
    then { k with softBlockCount := k.softBlockCount + 1 } else k
  if k.thereIsManager sender ≠ null ∧ receiver.toNat % 4 ≠ 0 then .stop .trap
  else if k.intercepts sender receiver && payload = trapTerminate then terminate k receiver
  else if k.intercepts sender receiver && payload = trapContinue then continueTrapped k receiver
  else sendOrdinary k sender receiver payload

def sysRecvCase (k : Kernel) (old : State) : Code Kernel := do
  let receiver := k.currentThread
  let r ← recv k receiver old.regA1 old.regA2
  .done (r.2.setTcb receiver fun t => { t with tState := t.tState.setV0 r.1 })

def sysbpBody (k : Kernel) (old : State) : Code Kernel :=
  let k := k.enter old
  let k := k.setTcb k.currentThread fun t =>
    { t with tState := { t.tState with pcEpc := t.tState.pcEpc + wordSize } }
  if old.isSend then sysSendCase k old
  else if old.isRecv then sysRecvCase k old
  else passUp k (k.tcb k.currentThread).sysbpManagerThread old.cause

def pgmtrapBody (k : Kernel) (old : State) : Code Kernel :=
  let k := k.enter old
  passUp k (k.tcb k.currentThread).pgmtrapManagerThread old.cause

def tlbBody (k : Kernel) (old : State) : Code Kernel :=
  let k := k.enter old
  passUp k (k.tcb k.currentThread).tlbtrapManagerThread old.cause

/-! `scheduler.c`. -/

def scheduler (k : Kernel) : Code Kernel :=
  if k.currentThread = null then do
    let empty ← queue (.emptyThreadQ readyQueueAddr)
    if empty ≠ 0 then
      if k.threadCount = 1 then .stop .halt
      else if 0 < k.threadCount ∧ k.softBlockCount = 0 then .stop (.panic .scheduler)
      else if 0 < k.threadCount ∧ 0 < k.softBlockCount then .done k
      else .stop (.panic .scheduler)
    else do
      let p ← queue (.removeThread readyQueueAddr)
      if p = null then .stop (.panic .scheduler)
      else .done (k.dispatch p [])
  else .done k.resumeCurrent

/-! `interrupts.c`. -/

def notifySsi (k : Kernel) (sender : Ptr) : Code Kernel := do
  let r ← send k sender k.ssiTcb (interruptMsgSlot k.intIndex)
  if r.1 = msgNoGood then .stop (.panic .intHandler) else .done r.2

def pseudoClockTick (k : Kernel) : Code Kernel :=
  if schedPseudoClock ≤ k.pseudoTick then do
    let k ← notifySsi (k.fillSlot pseudoClockMsg 0) busIntervalTimer
    .done { k.readTodlow with pseudoTick := 0, startPseudoTick := k.getTodlow }
  else .done k

def sliceEnd (k : Kernel) : Code Kernel :=
  if k.currentThread ≠ null ∧ schedTimeSlice ≤ (k.tcb k.currentThread).cpuSlice then do
    let _ ← queue (.insertThread readyQueueAddr k.currentThread)
    .done { k with currentThread := null }
  else .done { k with intervalTimer := schedPseudoClock - k.pseudoTick * k.timescale }

def timerInterrupt (k : Kernel) : Code Kernel := do
  let k ← pseudoClockTick k.updatePseudoTick
  sliceEnd k

def dtpInterrupt (k : Kernel) (line : Nat) : Code Kernel :=
  let base := deviceBaseAddr line (whichDevice (k.bus (intBitmap line)))
  let status := base
  let command := base + 4
  let k := k.ioStore command devCAck
  let k := k.fillSlot interruptMsg (k.bus status)
  notifySsi k base

def terminalHalf (k : Kernel) (status command : Ptr) : Code Kernel := do
  let k ← notifySsi (k.fillSlot interruptMsg (k.bus status)) status
  .done (k.ioStore command devCAck)

def terminalInterrupt (k : Kernel) : Code Kernel :=
  let base := deviceBaseAddr intTerminal (whichDevice (k.bus (intBitmap intTerminal)))
  let statusTrans := base + 8
  let commandTrans := base + 0xC
  let statusRec := base
  let commandRec := base + 4
  if k.bus statusTrans &&& statusMask = devTtrsSCharTrsm then
    terminalHalf k statusTrans commandTrans
  else if k.bus statusRec &&& statusMask = devTrcvSCharRecv then
    terminalHalf k statusRec commandRec
  else .done k

def lineInterrupt (k : Kernel) (cause : U32) : Code Kernel :=
  if causeIpGet cause intTimer then timerInterrupt k
  else if causeIpGet cause intDisk then dtpInterrupt k intDisk
  else if causeIpGet cause intTape then dtpInterrupt k intTape
  else if causeIpGet cause intUnused then dtpInterrupt k intUnused
  else if causeIpGet cause intPrinter then dtpInterrupt k intPrinter
  else if causeIpGet cause intTerminal then terminalInterrupt k
  else .done k

def intBody (k : Kernel) (old : State) : Code Kernel := do
  let k := if k.currentThread ≠ null then k.enter old else k
  let k ← lineInterrupt k old.cause
  .done { k with intIndex := (k.intIndex + 1) % 48 }

/-! `boot.c`. -/

def bootThread (k : Kernel) (sp entry : U32) : Code (Ptr × Kernel) := do
  let r ← allocTcb k
  if r.1 = null then .stop (.panic .main)
  else do
    let k := r.2.setTcb r.1 fun t => { t with tState := Kernel.bootState t.tState sp entry }
    let _ ← queue (.insertThread readyQueueAddr r.1)
    .done (r.1, { k with threadCount := k.threadCount + 1 })

def boot (k : Kernel) : Code Kernel := do
  initTcbs
  initMsg
  let _ ← queue (.mkEmptyThreadQ readyQueueAddr)
  let _ ← queue (.mkEmptyThreadQ waitQueueAddr)
  let k := { k with threadCount := 0, softBlockCount := 0, currentThread := null, pseudoTick := 0
                    startPseudoTick := 0, currentThreadTod := 0 }
  let r ← bootThread k (k.ramtop - frameSize) ssiThreadAddr
  let k := { r.2 with ssiTcb := r.1 }
  let r ← bootThread k (k.ramtop - 2 * frameSize) testAddr
  let k := { r.2 with testTcb := r.1 }
  .done { k.readTodlow with startPseudoTick := k.getTodlow }

def main (k : Kernel) : Code Kernel := do
  let k ← boot k
  scheduler k

/-! `ssi.c`. -/

/-- A call of the SSI. Those that are not here work on no list. -/
def perform (k : Kernel) (old : State) : Call → Code (U32 × Kernel)
  | .msgRecv reply => do
    let k ← sysbpBody k (old.syscall sysRecv anyMessage reply)
    let k ← scheduler k
    .done (0, k)
  | .msgSend dest payload => do
    let k ← sysbpBody k (old.syscall sysSend dest payload)
    let k ← scheduler k
    .done (0, k)
  | .allocTcb => allocTcb k
  | .insertChild parent child =>
    if child = null then .stop .fault
    else do
      let k ← insertChild k parent child
      .done (0, k)
  | .insertSibling sibling new =>
    if new = null then .stop .fault
    else do
      let k ← insertSibling k sibling new
      .done (0, k)
  | .insertReady p => do
    let _ ← queue (.insertThread readyQueueAddr p)
    .done (0, k)
  | .terminate p => do
    let k ← terminate k p
    .done (0, k)
  | c => .lift (k.perform old c)

/-- The private state of the SSI after its call, and the searches it makes in the queues. -/
def next (s : Ssi) (k : Kernel) (r : U32) : Code Ssi :=
  match s.pc with
  | .checkReady => do
    let found ← queue (.thereIsThread readyQueueAddr s.reqThread)
    .done (if found ≠ null then { s with pc := .serve } else { s with pc := .checkWait })
  | .checkWait => do
    let found ← queue (.thereIsThread waitQueueAddr s.reqThread)
    .done (if found ≠ null then { s with pc := .serve } else { s with pc := .recv })
  | .spec e =>
    if (k.tcb s.reqThread).manager e ≠ null then .done { s with pc := .terminate }
    else do
      let found ← queue (.thereIsThread readyQueueAddr (s.arg k))
      .done (if found ≠ null then { s with pc := .addManager e } else { s with pc := .specWait e })
  | .specWait e => do
    let found ← queue (.thereIsThread waitQueueAddr (s.arg k))
    .done (if found ≠ null then { s with pc := .addManager e } else { s with pc := .terminate })
  | _ => .done (s.next k r)

/-- The SSI goes on to the end of its next call, as in `Ssi.perform`. -/
def serve (s : Ssi) (k : Kernel) (old : State) : Code (U32 × Kernel) :=
  if s.misreads k then .stop .trap else perform k old (s.call k)

/-! The whole machine. -/

/-- A handler, the call of the scheduler at its end, and the machine after it. -/
def handler (m : Machine) (body : Code Kernel) : Code Machine := do
  let k ← body
  let k ← scheduler k
  .done { m with k := k }

def step (m : Machine) : Event → Code Machine
  | .sysbp old => handler m (sysbpBody m.k old)
  | .pgmtrap old => handler m (pgmtrapBody m.k old)
  | .tlb old => handler m (tlbBody m.k old)
  | .interrupt old => handler m (intBody m.k old)
  | .ssi old => do
    let r ← serve m.ssi m.k old
    let ssi ← next m.ssi m.k r.1
    .done { k := r.2, ssi := ssi }
  | .devices bus => .done { m with k := { m.k with bus := bus } }
  | .store a v => do
    let k ← .lift (m.k.storeWord a v)
    .done { m with k := k }
  | .edit p s => .done { m with k := m.k.setState p s }

def steps (m : Machine) : List Event → Code Machine
  | [] => .done m
  | e :: es => do
    let m ← step m e
    steps m es

/-- A run from power on. -/
def machine (k : Kernel) (ssi : Ssi) (es : List Event) : Code Machine := do
  let k ← main k
  steps ⟨k, ssi⟩ es

end Code

end AmiKaya
