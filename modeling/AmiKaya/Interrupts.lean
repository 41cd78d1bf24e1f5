import AmiKaya.Exceptions

/-! The interrupt handler (`interrupts.c`). -/
namespace AmiKaya

/-- `which_device`: bit `n` is set exactly when or-ing it in changes nothing. -/
def whichDevice (bitmap : U32) : Nat :=
  if bitmap = bitmap ||| 0x1 then 0
  else if bitmap = bitmap ||| 0x2 then 1
  else if bitmap = bitmap ||| 0x4 then 2
  else if bitmap = bitmap ||| 0x8 then 3
  else if bitmap = bitmap ||| 0x10 then 4
  else if bitmap = bitmap ||| 0x20 then 5
  else if bitmap = bitmap ||| 0x40 then 6
  else 7

/-- The pending bitmap of a line. -/
def intBitmap (line : Nat) : Ptr :=
  pendingBitmapStart + wordSize * BitVec.ofNat 32 (line - intLowest)

def deviceBaseAddr (line dev : Nat) : Ptr :=
  devRegsStart + BitVec.ofNat 32 ((line - intLowest) * 0x80) + BitVec.ofNat 32 (dev * 0x10)

namespace Kernel

/-- The three stores that fill `interrupt_msg_array[i]`. -/
def fillSlot (k : Kernel) (service arg : U32) : Kernel :=
  let a := interruptMsgSlot k.intIndex
  { k with mem := put (put (put k.mem a service)
      (a + 4) arg) (a + 8) noReply }

/-- Send the SSI the slot just filled; a dead SSI is a PANIC. -/
def notifySsi (k : Kernel) (sender : Ptr) : Except Stop Kernel := do
  let r ← k.send sender k.ssiTcb (interruptMsgSlot k.intIndex)
  if r.1 = msgNoGood then .error (.panic .intHandler) else .ok r.2

/-- The pseudo clock has ticked. -/
def pseudoClockTick (k : Kernel) : Except Stop Kernel :=
  if schedPseudoClock ≤ k.pseudoTick then do
    let k := k.fillSlot pseudoClockMsg 0
    let k ← k.notifySsi busIntervalTimer
    .ok { k.readTodlow with pseudoTick := 0, startPseudoTick := k.getTodlow }
  else .ok k

/-- The slice of the current thread is over, or the next timer interrupt is set. -/
def sliceEnd (k : Kernel) : Kernel :=
  if k.currentThread ≠ null ∧ schedTimeSlice ≤ (k.tcb k.currentThread).cpuSlice then
    { k with readyQueue := insertThread k.readyQueue k.currentThread, currentThread := null }
  else
    -- the argument of SET_IT is not in brackets there: only `pseudo_tick` is multiplied
    { k with intervalTimer := schedPseudoClock - k.pseudoTick * k.timescale }

/-- Line 2: the pseudo clock first, then the slice of the current thread. -/
def timerInterrupt (k : Kernel) : Except Stop Kernel := do
  let k ← k.updatePseudoTick.pseudoClockTick
  .ok k.sliceEnd

/-- Lines 3 to 6: acknowledge, then read the status and send it. -/
def dtpInterrupt (k : Kernel) (line : Nat) : Except Stop Kernel :=
  let base := deviceBaseAddr line (whichDevice (k.bus (intBitmap line)))
  let status := base
  let command := base + 4
  let k := k.ioStore command devCAck
  let k := k.fillSlot interruptMsg (k.bus status)
  k.notifySsi base

def diskInterrupt (k : Kernel) : Except Stop Kernel := k.dtpInterrupt intDisk
def tapeInterrupt (k : Kernel) : Except Stop Kernel := k.dtpInterrupt intTape
def unusedInterrupt (k : Kernel) : Except Stop Kernel := k.dtpInterrupt intUnused
def printerInterrupt (k : Kernel) : Except Stop Kernel := k.dtpInterrupt intPrinter

/-- One half of a terminal: read the status, send it, then acknowledge. -/
def terminalHalf (k : Kernel) (status command : Ptr) : Except Stop Kernel := do
  let k := k.fillSlot interruptMsg (k.bus status)
  let k ← k.notifySsi status
  .ok (k.ioStore command devCAck)

/-- Line 7: a transmitted character comes before a received one, any other status is left alone. -/
def terminalInterrupt (k : Kernel) : Except Stop Kernel :=
  let base := deviceBaseAddr intTerminal (whichDevice (k.bus (intBitmap intTerminal)))
  let statusTrans := base + 8
  let commandTrans := base + 0xC
  let statusRec := base
  let commandRec := base + 4
  if k.bus statusTrans &&& statusMask = devTtrsSCharTrsm then
    k.terminalHalf statusTrans commandTrans
  else if k.bus statusRec &&& statusMask = devTrcvSCharRecv then
    k.terminalHalf statusRec commandRec
  else .ok k

/-- The lowest pending line is the one served. -/
def lineInterrupt (k : Kernel) (cause : U32) : Except Stop Kernel :=
  if causeIpGet cause intTimer then k.timerInterrupt
  else if causeIpGet cause intDisk then k.diskInterrupt
  else if causeIpGet cause intTape then k.tapeInterrupt
  else if causeIpGet cause intUnused then k.unusedInterrupt
  else if causeIpGet cause intPrinter then k.printerInterrupt
  else if causeIpGet cause intTerminal then k.terminalInterrupt
  else .ok k

def intBody (k : Kernel) (old : State) : Except Stop Kernel := do
  let k := if k.currentThread ≠ null then k.enter old else k
  let k ← k.lineInterrupt old.cause
  .ok { k with intIndex := (k.intIndex + 1) % 48 }

def intHandler (k : Kernel) (old : State) : Except Stop Kernel := do
  let k ← k.intBody old
  k.scheduler

end Kernel

end AmiKaya
