import AmiKaya.Interrupts

/-! The system service interface (`ssi.c`), a thread like the others. Its program is cut at the
calls it makes: between two of them it can be preempted. -/
namespace AmiKaya

/-- The device register addresses `rest_index` compares with, in the order of its indices. -/
def restTable : List Ptr :=
  ((List.range 32).map fun i => devRegsStart + BitVec.ofNat 32 (0x10 * i)) ++
  (List.range 8).flatMap fun i =>
    [0x10000250 + BitVec.ofNat 32 (0x10 * i), 0x10000250 + BitVec.ofNat 32 (0x10 * i) + 0x8]

/-- `rest_index`; the source returns -1 where this is `none`. -/
def restIndex (dev : Ptr) : Option Nat := restTable.findIdx? (· = dev)

def devEmpty : U32 := -1

/-- The two services that create a thread. -/
inductive Create
  | brother
  | son
deriving DecidableEq

/-- The three kinds of exceptions a thread can have a manager for. -/
inductive Trap
  | pgmtrap
  | tlbtrap
  | sysbp
deriving DecidableEq

def Tcb.manager (t : Tcb) : Trap → Ptr
  | .pgmtrap => t.pgmtrapManagerThread
  | .tlbtrap => t.tlbtrapManagerThread
  | .sysbp => t.sysbpManagerThread

def Tcb.setManager (t : Tcb) (e : Trap) (m : Ptr) : Tcb :=
  match e with
  | .pgmtrap => { t with pgmtrapManagerThread := m }
  | .tlbtrap => { t with tlbtrapManagerThread := m }
  | .sysbp => { t with sysbpManagerThread := m }

/-- Where the SSI stands in its program. -/
inductive SsiPc
  | init
  | recv
  | got
  | clock (i : Nat)
  | clockClear (i : Nat)
  | interrupt
  | interruptClear
  | checkReady
  | checkWait
  | serve
  | alloc (c : Create)
  | noGood (c : Create)
  | readParent
  | link (c : Create)
  | count (c : Create)
  | copyState (c : Create)
  | inherit
  | publish
  | answerThread
  | terminate
  | spec (e : Trap)
  | specWait (e : Trap)
  | addManager (e : Trap)
  | setManager (e : Trap)
  | answerZero
  | cpuTime
  | waitIo
  | waitIoClear
deriving DecidableEq

/-- Where a creation goes on after the allocation: a brother needs the parent first. -/
def Create.linkPc : Create → SsiPc
  | .brother => .readParent
  | .son => .link .son

/-- The SSI's program point, its local variables and its three arrays. -/
structure Ssi where
  pc : SsiPc
  /-- `&req_struct`, on the stack of the SSI. -/
  reqStruct : Ptr
  reqThread : Ptr
  newThread : Ptr
  parent : Ptr
  deviceNum : Option Nat
  devStatus : Nat → U32
  devTcb : Nat → Ptr
  clockTcb : Nat → Ptr

/-- A library or kernel call, or a stretch of private steps. -/
inductive Call
  | local
  | msgRecv (reply : Ptr)
  | msgSend (dest : Ptr) (payload : U32)
  | allocTcb
  | insertChild (parent child : Ptr)
  | insertSibling (sibling new : Ptr)
  | countThread
  | copyState (source : Ptr) (dest : Ptr)
  | inherit (source dest : Ptr)
  | insertReady (p : Ptr)
  | terminate (p : Ptr)
  | addManager (m : Ptr)
  | setManager (e : Trap) (p m : Ptr)
  | panic
  | fault

namespace Ssi

/-- `req_struct->service`, `req_struct->arg`: the struct is in the memory of the requester. -/
def service (s : Ssi) (k : Kernel) : U32 := k.mem (k.mem s.reqStruct)
def arg (s : Ssi) (k : Kernel) : U32 := k.mem (k.mem s.reqStruct + 4)

/-- At these program points the SSI reads the request through its pointer to it. -/
def reads (s : Ssi) : Bool :=
  match s.pc with
  | .got | .interrupt | .serve | .copyState _ | .spec _ | .specWait _ | .addManager _
  | .setManager _ => true
  | _ => false

/-- The SSI traps: the word it received is no aligned pointer. -/
def misreads (s : Ssi) (k : Kernel) : Bool := s.reads && (k.mem s.reqStruct).toNat % 4 ≠ 0

/-- The call the SSI makes at its program point. -/
def call (s : Ssi) (k : Kernel) : Call :=
  match s.pc with
  | .recv => .msgRecv s.reqStruct
  | .clock i =>
    if i < maxThreads - 1 ∧ s.clockTcb i ≠ null then .msgSend (s.clockTcb i) 42 else .local
  | .interrupt =>
    match s.deviceNum with
    -- `rest_index` is not checked here: the arrays are indexed with -1
    | none => .fault
    | some d =>
      if s.devTcb d = null then .local else .msgSend (s.devTcb d) (s.arg k &&& statusMask)
  | .serve =>
    if s.service k ∈ [waitForClock, createBrother, createSon, terminateService, specPrgMgr,
        specTlbMgr, specSysMgr, getCpuTime, waitForIo] then .local else .panic
  | .alloc _ => .allocTcb
  | .noGood _ => .msgSend s.reqThread createNoGood
  | .link .brother =>
    if s.parent = null then .insertSibling s.reqThread s.newThread
    else .insertChild s.parent s.newThread
  | .link .son => .insertChild s.reqThread s.newThread
  | .count _ => .countThread
  | .copyState _ => .copyState (s.arg k) s.newThread
  | .inherit => .inherit s.reqThread s.newThread
  | .publish => .insertReady s.newThread
  | .answerThread => .msgSend s.reqThread s.newThread
  | .terminate => .terminate s.reqThread
  | .addManager _ => .addManager (s.arg k)
  | .setManager e => .setManager e s.reqThread (s.arg k)
  | .answerZero => .msgSend s.reqThread 0
  | .cpuTime => .msgSend s.reqThread (k.tcb s.reqThread).cpuTime
  | .waitIo =>
    match s.deviceNum with
    | none => .local
    | some d => if s.devStatus d = devEmpty then .local else .msgSend s.reqThread (s.devStatus d)
  | _ => .local

/-- `devStatus_array`, `devTcb_array` and `clockTcb_array` are emptied before the first receive. -/
def initArrays (s : Ssi) : Ssi :=
  { s with devStatus := fun _ => devEmpty, devTcb := fun _ => null, clockTcb := fun _ => null }

/-- WAITFORCLOCK: the requester goes in the first free slot, if one of the scanned ones is free. -/
def recordClock (s : Ssi) : Ssi :=
  match (List.range (maxThreads - 1)).find? fun i => s.clockTcb i = null with
  | none => s
  | some i => { s with clockTcb := put s.clockTcb i s.reqThread }

/-- The program point of a service, once the requester is known to exist. -/
def dispatch (s : Ssi) (k : Kernel) : Ssi :=
  let service := s.service k
  if service = waitForClock then { s.recordClock with pc := .recv }
  else if service = createBrother then { s with pc := .alloc .brother }
  else if service = createSon then { s with pc := .alloc .son }
  else if service = terminateService then { s with pc := .terminate }
  else if service = specPrgMgr then { s with pc := .spec .pgmtrap }
  else if service = specTlbMgr then { s with pc := .spec .tlbtrap }
  else if service = specSysMgr then { s with pc := .spec .sysbp }
  else if service = getCpuTime then { s with pc := .cpuTime }
  else { s with pc := .waitIo, deviceNum := restIndex (s.arg k) }

/-- The private state of the SSI after its call, which returned `r` (for MsgRecv the result is
read from the saved `v0` when the SSI runs again). -/
def next (s : Ssi) (k : Kernel) (r : U32) : Ssi :=
  match s.pc with
  | .init => { s.initArrays with pc := .recv }
  | .recv => { s with pc := .got }
  | .got =>
    let s := { s with reqThread := (k.tcb k.ssiTcb).tState.regV0 }
    if s.service k = pseudoClockMsg then { s with pc := .clock 0 }
    else if s.service k = interruptMsg then
      { s with pc := .interrupt, deviceNum := restIndex s.reqThread }
    else { s with pc := .checkReady }
  | .clock i =>
    if i < maxThreads - 1 ∧ s.clockTcb i ≠ null then { s with pc := .clockClear i }
    else { s with pc := .checkReady }
  | .clockClear i =>
    { s with clockTcb := put s.clockTcb i null, pc := .clock (i + 1) }
  | .interrupt =>
    match s.deviceNum with
    | none => s
    | some d =>
      if s.devTcb d = null then
        { s with devStatus := put s.devStatus d (s.arg k), pc := .checkReady }
      else { s with pc := .interruptClear }
  | .interruptClear =>
    match s.deviceNum with
    | none => s
    | some d => { s with devTcb := put s.devTcb d null, pc := .checkReady }
  | .checkReady =>
    if thereIsThread k.readyQueue s.reqThread ≠ null then { s with pc := .serve }
    else { s with pc := .checkWait }
  | .checkWait =>
    if thereIsThread k.waitQueue s.reqThread ≠ null then { s with pc := .serve }
    else { s with pc := .recv }
  | .serve => s.dispatch k
  | .alloc c =>
    if r = null then { s with newThread := r, pc := .noGood c }
    else { s with newThread := r, pc := Create.linkPc c }
  -- the failed allocation is answered, but the service goes on with the NULL thread
  | .noGood c => { s with pc := Create.linkPc c }
  | .readParent => { s with parent := (k.tcb s.reqThread).tParent, pc := .link .brother }
  | .link c => { s with pc := .count c }
  | .count c => { s with pc := .copyState c }
  | .copyState .brother => { s with pc := .publish }
  | .copyState .son => { s with pc := .inherit }
  | .inherit => { s with pc := .publish }
  | .publish => { s with pc := .answerThread }
  | .answerThread => { s with pc := .recv }
  | .terminate => { s with pc := .recv }
  | .spec e =>
    if (k.tcb s.reqThread).manager e ≠ null then { s with pc := .terminate }
    else if thereIsThread k.readyQueue (s.arg k) ≠ null then { s with pc := .addManager e }
    else { s with pc := .specWait e }
  | .specWait e =>
    if thereIsThread k.waitQueue (s.arg k) ≠ null then { s with pc := .addManager e }
    else { s with pc := .terminate }
  | .addManager e => { s with pc := .setManager e }
  | .setManager _ => { s with pc := .answerZero }
  | .answerZero => { s with pc := .recv }
  | .cpuTime => { s with pc := .recv }
  | .waitIo =>
    match s.deviceNum with
    | none => { s with pc := .terminate }
    | some d =>
      if s.devStatus d = devEmpty then
        { s with devTcb := put s.devTcb d s.reqThread, pc := .recv }
      else { s with pc := .waitIoClear }
  | .waitIoClear =>
    match s.deviceNum with
    | none => s
    | some d => { s with devStatus := put s.devStatus d devEmpty, pc := .recv }

end Ssi

/-- The old area of a system call of the SSI: kernel mode, with the three arguments in place. -/
def State.syscall (old : State) (code a1 a2 : U32) : State :=
  let old := ((old.setReg 3 code).setReg 4 a1).setReg 5 a2
  { old with cause := excSyscall <<< 2, status := old.status &&& ~~~statusKUp }

namespace Kernel

/-- `save_state((state_t *)a, ...)`: the state a thread prepared in its memory. -/
def loadState (k : Kernel) (a : Ptr) : State :=
  saveState
    { entryHi := k.mem a, cause := k.mem (a + 4), status := k.mem (a + 8), pcEpc := k.mem (a + 12)
      gpr := fun i => k.mem (a + 16 + BitVec.ofNat 32 (4 * i.val))
      hi := k.mem (a + 132), lo := k.mem (a + 136) }

/-- A call of the SSI on the kernel, with its result. `old` is what its registers hold. -/
def perform (k : Kernel) (old : State) : Call → Except Stop (U32 × Kernel)
  | .local => .ok (0, k)
  | .msgRecv reply => do
    let k ← k.sysbpHandler (old.syscall sysRecv anyMessage reply)
    .ok (0, k)
  | .msgSend dest payload => do
    let k ← k.sysbpHandler (old.syscall sysSend dest payload)
    .ok (0, k)
  | .allocTcb => .ok k.allocTcb
  | .insertChild parent child =>
    if child = null then .error .fault else .ok (0, k.insertChild parent child)
  | .insertSibling sibling new =>
    if new = null then .error .fault else .ok (0, k.insertSibling sibling new)
  | .countThread => .ok (0, { k with threadCount := k.threadCount + 1 })
  | .copyState source dest =>
    if source.toNat % 4 = 0 then .ok (0, k.setState dest (k.loadState source)) else .error .trap
  | .inherit source dest => .ok (0, k.setTcb dest fun t =>
      { t with sysbpManagerThread := (k.tcb source).sysbpManagerThread
               pgmtrapManagerThread := (k.tcb source).pgmtrapManagerThread
               tlbtrapManagerThread := (k.tcb source).tlbtrapManagerThread })
  | .insertReady p => .ok (0, { k with readyQueue := insertThread k.readyQueue p })
  | .terminate p => do
    let k ← k.terminate p
    .ok (0, k)
  | .addManager m => .ok (0, k.addManager m)
  | .setManager e p m => .ok (0, k.setTcb p fun t => t.setManager e m)
  | .panic => .error (.panic .ssi)
  | .fault => .error .fault

theorem perform_copyState {k k' : Kernel} {old : State} {source dest : Ptr} {r : U32}
    (h : k.perform old (.copyState source dest) = .ok (r, k')) :
    r = 0 ∧ k' = k.setState dest (k.loadState source) := by
  simp only [perform] at h
  split at h
  · cases h
    exact ⟨rfl, rfl⟩
  · cases h

end Kernel

/-- The SSI goes on to the end of its next call. -/
def Ssi.perform (s : Ssi) (k : Kernel) (old : State) : Except Stop (U32 × Kernel) :=
  if s.misreads k then .error .trap else k.perform old (s.call k)

theorem Ssi.perform_ok {s : Ssi} {k : Kernel} {old : State} {r : U32 × Kernel}
    (h : s.perform k old = .ok r) : s.misreads k = false ∧ k.perform old (s.call k) = .ok r := by
  unfold perform at h
  split at h
  · cases h
  · exact ⟨Bool.eq_false_iff.mpr ‹_›, h⟩

end AmiKaya
