import AmiKaya.Manager

/-! The round-robin scheduler (`scheduler.c`). `SET_IT` is a macro: its argument is pasted as it
stands in front of the multiplication by the timescale. -/
namespace AmiKaya.Kernel

/-- The pseudo-clock accumulator takes the time since its last update, then restarts from now. -/
def updatePseudoTick (k : Kernel) : Kernel :=
  let k := { k.readTodlow with pseudoTick := k.pseudoTick + (k.getTodlow - k.startPseudoTick) }
  { k.readTodlow with startPseudoTick := k.getTodlow }

/-- `MIN`. -/
def minU32 (a b : U32) : U32 := if a < b then a else b

/-- `SET_IT(1)` once the tick is due, otherwise the nearer of the two deadlines. -/
def setTimer (k : Kernel) (slice : U32) : Kernel :=
  if schedPseudoClock ≤ k.pseudoTick then { k with intervalTimer := 1 * k.timescale }
  else { k with intervalTimer := minU32 slice (schedPseudoClock - k.pseudoTick) * k.timescale }

def startTod (k : Kernel) : Kernel :=
  { k.readTodlow with currentThreadTod := k.getTodlow }

def resetSlice (k : Kernel) : Kernel :=
  k.setTcb k.currentThread fun t => { t with cpuSlice := 0 }

/-- The first thread of the ready queue becomes current, with a new slice. -/
def dispatch (k : Kernel) (p : Ptr) (rest : List Ptr) : Kernel :=
  let k := { k with currentThread := p, readyQueue := rest }
  let k := k.updatePseudoTick.resetSlice
  let k := k.startTod
  (k.setTimer schedTimeSlice).ldst

/-- The current thread goes on with what is left of its slice. -/
def resumeCurrent (k : Kernel) : Kernel :=
  let k := k.updatePseudoTick
  let k := k.startTod
  (k.setTimer (schedTimeSlice - (k.tcb k.currentThread).cpuSlice)).ldst

/-- The normal result is a running thread, or no current thread while the processor waits for
an interrupt. -/
def scheduler (k : Kernel) : Except Stop Kernel :=
  if k.currentThread = null then
    match k.readyQueue with
    | [] =>
      if k.threadCount = 1 then .error .halt
      else if 0 < k.threadCount ∧ k.softBlockCount = 0 then .error (.panic .scheduler)
      else if 0 < k.threadCount ∧ 0 < k.softBlockCount then .ok k
      else .error (.panic .scheduler)
    | p :: rest => .ok (k.dispatch p rest)
  else .ok k.resumeCurrent

end AmiKaya.Kernel
