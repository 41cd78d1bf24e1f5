import AmiKaya.Links

/-! Words, constants and data types of the kernel (`const.h`, `const11.h`, `types11.h`, `boot.c`).
-/
namespace AmiKaya

export Links (put)

abbrev U32 := BitVec 32

/-- A pointer is the word that holds it; `tcb_t *` may also hold a device register address. -/
abbrev Ptr := U32

instance lawfulBEqPtr : LawfulBEq Ptr := inferInstance

def null : Ptr := 0

def maxThreads : Nat := 20
def maxMessages : Nat := 20

/-- Stands for the SSI in every system call; the same word marks "not waiting" in a TCB. -/
def magicSsi : Ptr := 0xFFFFFFFF
def notWaiting : Ptr := -1
def anyMessage : Ptr := 0

/-! System calls, services and message values. -/
def sysSend : U32 := 1
def sysRecv : U32 := 2

def createBrother : U32 := 1
def createSon : U32 := 2
def terminateService : U32 := 3
def specPrgMgr : U32 := 4
def specTlbMgr : U32 := 5
def specSysMgr : U32 := 6
def getCpuTime : U32 := 7
def waitForClock : U32 := 8
def waitForIo : U32 := 9
def pseudoClockMsg : U32 := 254
def interruptMsg : U32 := 255
def noReply : U32 := 0

def trapContinue : U32 := 1
def trapTerminate : U32 := 0
def createNoGood : U32 := -1
def msgGood : U32 := 0
def msgNoGood : U32 := -1
def statusMask : U32 := 0x000000FF

/-! Bus, device and processor constants. -/
def busIntervalTimer : Ptr := 0x10000020
def pendingBitmapStart : Ptr := 0x1000003c
def devRegsStart : Ptr := 0x10000050
def wordSize : U32 := 4

def intTimer : Nat := 2
def intLowest : Nat := 3
def intDisk : Nat := 3
def intTape : Nat := 4
def intUnused : Nat := 5
def intPrinter : Nat := 6
def intTerminal : Nat := 7

def devCAck : U32 := 1
def devTrcvSCharRecv : U32 := 5
def devTtrsSCharTrsm : U32 := 5

def statusIEp : U32 := 0x00000004
def statusKUp : U32 := 0x00000008
def statusVMp : U32 := 0x02000000
def statusIntUnmasked : U32 := 0x0000ff00
def excSyscall : U32 := 8
def frameSize : U32 := 4096

def schedTimeSlice : U32 := 5000
def schedPseudoClock : U32 := 100000

/-- `CAUSE_EXCCODE_GET`. -/
def causeExcCodeGet (cause : U32) : U32 := (cause &&& 0x0000007c) >>> 2

/-- `CAUSE_IP_GET`: the line is pending. -/
def causeIpGet (cause : U32) (line : Nat) : Bool := cause &&& (1 <<< (line + 8)) ≠ 0

/-! Link-time addresses (`kernel.stab.umps`) and the offsets of the list heads in a `tcb_t`. -/
def threadArrayAddr : Ptr := 0x2000B2F0
def sizeofTcb : Nat := 0xCC
def msgArrayAddr : Ptr := 0x2000B1B0
def sizeofMsg : Nat := 0x10
def interruptMsgArrayAddr : Ptr := 0x2000C4F0
def sizeofSsiRequest : Nat := 0xC
def ssiThreadAddr : Ptr := 0x2000620C
def testAddr : Ptr := 0x20006FB0

/-- The addresses `&thread_array[0]` .. `&thread_array[MAXTHREADS - 1]`. -/
def threadArray : List Ptr :=
  (List.range maxThreads).map fun i => threadArrayAddr + BitVec.ofNat 32 (sizeofTcb * i)

def msgArray : List Ptr :=
  (List.range maxMessages).map fun i => msgArrayAddr + BitVec.ofNat 32 (sizeofMsg * i)

/-- `&interrupt_msg_array[i]`. -/
def interruptMsgSlot (i : Nat) : Ptr :=
  interruptMsgArrayAddr + BitVec.ofNat 32 (sizeofSsiRequest * i)

/-- `&p->t_child`. -/
def tChild (p : Ptr) : Ptr := p + 12

/-- `&p->t_sib`. -/
def tSib (p : Ptr) : Ptr := p + 20

/-- `container_of(n, tcb_t, t_sib)`. -/
def sibContainer (n : Ptr) : Ptr := n - 20

/-- The registers are numbered by numerals. -/
instance neZeroGpr : NeZero 29 := inferInstance

/-- `state_t`: a processor state. -/
structure State where
  entryHi : U32
  cause : U32
  status : U32
  pcEpc : U32
  gpr : Fin 29 → U32
  hi : U32
  lo : U32

def State.regV0 (s : State) : U32 := s.gpr 1
def State.regA0 (s : State) : U32 := s.gpr 3
def State.regA1 (s : State) : U32 := s.gpr 4
def State.regA2 (s : State) : U32 := s.gpr 5

def State.setReg (s : State) (r : Fin 29) (v : U32) : State :=
  { s with gpr := put s.gpr r v }

def State.setV0 (s : State) (v : U32) : State := s.setReg 1 v

/-- `msg_t`, with the address of the buffer it occupies. -/
structure Msg where
  addr : Ptr
  mSender : Ptr
  mMessage : U32
deriving DecidableEq

/-- `tcb_t`; its three list heads live in the link heap and in the kernel's queues. -/
structure Tcb where
  tParent : Ptr
  tState : State
  tInbox : List Msg
  waitingFor : Ptr
  reply : Ptr
  sysbpManagerThread : Ptr
  pgmtrapManagerThread : Ptr
  tlbtrapManagerThread : Ptr
  cpuTime : U32
  cpuSlice : U32

/-- Who calls `PANIC`. -/
inductive Caller
  | main
  | scheduler
  | send
  | terminate
  | intHandler
  | ssi
deriving DecidableEq

/-- The ways a kernel entry does not come back: the two ROM routines; an access at a misaligned
address, which the processor answers with a program trap inside the kernel; undefined behaviour (a
store through NULL, an index out of an array); a runaway recursion. -/
inductive Stop
  | halt
  | panic (caller : Caller)
  | trap
  | fault
  | overflow
deriving DecidableEq

/-- The kernel's global variables, its TCBs and the hardware registers it uses. -/
structure Kernel where
  tcb : Ptr → Tcb
  links : Links.Heap Ptr
  tcbFree : List Ptr
  msgFree : List Ptr
  readyQueue : List Ptr
  waitQueue : List Ptr
  threadCount : U32
  softBlockCount : U32
  currentThread : Ptr
  currentThreadTod : U32
  pseudoTick : U32
  startPseudoTick : U32
  ssiTcb : Ptr
  testTcb : Ptr
  trapManagers : Nat → Ptr
  /-- `i` of `interrupts.c`: the next slot of `interrupt_msg_array`. -/
  intIndex : Nat
  /-- Words in memory outside the kernel's own structures, `interrupt_msg_array` included. -/
  mem : Ptr → U32
  /-- What loads from the device registers and the pending bitmaps return. -/
  bus : Ptr → U32
  /-- How the device registers react to a store. -/
  device : (Ptr → U32) → Ptr → U32 → Ptr → U32
  /-- The values the next loads of `BUS_TODLOW` return. -/
  todlow : Nat → U32
  timescale : U32
  intervalTimer : U32
  ramtop : Ptr
  /-- The processor state last loaded by `LDST`. -/
  cpu : State

namespace Kernel

def setTcb (k : Kernel) (p : Ptr) (f : Tcb → Tcb) : Kernel :=
  { k with tcb := put k.tcb p (f (k.tcb p)) }

/-- `*a = v` through a pointer handed over by a thread: a misaligned store traps. Every aligned
address is taken to be one of the memory. -/
def storeWord (k : Kernel) (a : Ptr) (v : U32) : Except Stop Kernel :=
  if a.toNat % 4 = 0 then .ok { k with mem := put k.mem a v } else .error .trap

/-- `GET_TODLOW`: the next load of the register, converted in microseconds. -/
def getTodlow (k : Kernel) : U32 := k.todlow 0 / k.timescale

/-- The load has been made. -/
def readTodlow (k : Kernel) : Kernel := { k with todlow := fun n => k.todlow (n + 1) }

/-- A store in a device register. -/
def ioStore (k : Kernel) (a : Ptr) (v : U32) : Kernel := { k with bus := k.device k.bus a v }

/-- `LDST(&(current_thread->t_state))`. -/
def ldst (k : Kernel) : Kernel := { k with cpu := (k.tcb k.currentThread).tState }

end Kernel

theorem bind_eq_ok {ε α β : Type} {x : Except ε α} {f : α → Except ε β} {b : β} :
    (x >>= f) = .ok b ↔ ∃ a, x = .ok a ∧ f a = .ok b := by
  cases x <;> simp [bind, Except.bind]

theorem bind_eq_error {ε α β : Type} {x : Except ε α} {f : α → Except ε β} {e : ε} :
    (x >>= f) = .error e ↔ x = .error e ∨ ∃ a, x = .ok a ∧ f a = .error e := by
  cases x <;> simp [bind, Except.bind]

end AmiKaya
