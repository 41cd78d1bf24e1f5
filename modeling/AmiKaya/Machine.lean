import AmiKaya.Ssi

/-! Boot (`boot.c`) and the whole machine: the kernel entries of arbitrary threads, the program of
the SSI, interrupts and the stores of threads, in any order. -/
namespace AmiKaya

/-- The kernel's variables and the private state of the SSI. -/
structure Machine where
  k : Kernel
  ssi : Ssi

/-- What is true of the memory image before `main`: the arrays without an initialiser are zero. -/
structure Kernel.PowerOn (k : Kernel) : Prop where
  trapManagers : ∀ i, k.trapManagers i = null
  intIndex : k.intIndex = 0
  waitingFor : ∀ p ∈ threadArray, (k.tcb p).waitingFor = null
  tParent : ∀ p ∈ threadArray, (k.tcb p).tParent = null
  tInbox : ∀ p ∈ threadArray, (k.tcb p).tInbox = []
  links : ∀ p ∈ threadArray, ∀ n ∈ [tChild p, tSib p], k.links.next n = null ∧ k.links.prev n = null

namespace Kernel

/-- The initial state of the SSI and of the test thread. -/
def bootState (s : State) (sp entry : U32) : State :=
  let s := { s with status := (s.status ||| statusIEp ||| statusIntUnmasked) &&& ~~~statusKUp
                      &&& ~~~statusVMp, pcEpc := entry }
  (s.setReg 26 sp).setReg 24 entry

/-- Allocation, initial state and queue insertion of one of the two boot threads. -/
def bootThread (k : Kernel) (sp entry : U32) : Except Stop (Ptr × Kernel) :=
  let p := k.allocTcb.1
  let k := k.allocTcb.2
  if p = null then .error (.panic .main)
  else
    let k := k.setTcb p fun t => { t with tState := bootState t.tState sp entry }
    .ok (p, { k with readyQueue := insertThread k.readyQueue p, threadCount := k.threadCount + 1 })

/-- `main` up to its call of the scheduler. -/
def boot (k : Kernel) : Except Stop Kernel := do
  let k := (k.initTcbs).initMsg
  let k := { k with readyQueue := [], waitQueue := [], threadCount := 0, softBlockCount := 0,
                    currentThread := null, pseudoTick := 0, startPseudoTick := 0,
                    currentThreadTod := 0 }
  let r ← k.bootThread (k.ramtop - frameSize) ssiThreadAddr
  let k := { r.2 with ssiTcb := r.1 }
  let r ← k.bootThread (k.ramtop - 2 * frameSize) testAddr
  let k := { r.2 with testTcb := r.1 }
  .ok { k.readTodlow with startPseudoTick := k.getTodlow }

/-- `main`. -/
def main (k : Kernel) : Except Stop Kernel := do
  let k ← k.boot
  k.scheduler

end Kernel

/-- What can happen next. `old` is the content of the old area at a kernel entry. -/
inductive Event
  | sysbp (old : State)
  | pgmtrap (old : State)
  | tlb (old : State)
  | interrupt (old : State)
  | ssi (old : State)
  | devices (bus : Ptr → U32)
  | store (a : Ptr) (v : U32)
  | edit (p : Ptr) (s : State)

namespace Machine

/-- Threads run arbitrary programs, the SSI runs its own; it can trap at any point. -/
def Enabled (m : Machine) : Event → Prop
  | .sysbp _ => m.k.currentThread ≠ null ∧ m.k.currentThread ≠ m.k.ssiTcb
  | .pgmtrap _ | .tlb _ => m.k.currentThread ≠ null
  -- the one register of the SSI the model follows: `v0` between MsgRecv and its assignment
  | .interrupt old => m.k.currentThread = m.k.ssiTcb → m.ssi.pc = .got →
      old.regV0 = (m.k.tcb m.k.ssiTcb).tState.regV0
  | .ssi _ => m.k.currentThread = m.k.ssiTcb
  | .devices _ => True
  | .store _ _ => m.k.currentThread ≠ null ∧ m.k.currentThread ≠ m.k.ssiTcb
  -- a trap manager may prepare the saved state of a thread
  | .edit p _ => m.k.currentThread ≠ null ∧ m.k.currentThread ≠ m.k.ssiTcb ∧ p ≠ m.k.ssiTcb

/-- One call of the SSI. -/
def ssiStep (m : Machine) (old : State) : Except Stop Machine := do
  let r ← m.ssi.perform m.k old
  .ok { k := r.2, ssi := m.ssi.next m.k r.1 }

def withKernel (m : Machine) (r : Except Stop Kernel) : Except Stop Machine := do
  let k ← r
  .ok { m with k := k }

def step (m : Machine) : Event → Except Stop Machine
  | .sysbp old => m.withKernel (m.k.sysbpHandler old)
  | .pgmtrap old => m.withKernel (m.k.pgmtrapHandler old)
  | .tlb old => m.withKernel (m.k.tlbHandler old)
  | .interrupt old => m.withKernel (m.k.intHandler old)
  | .ssi old => m.ssiStep old
  | .devices bus => .ok { m with k := { m.k with bus := bus } }
  | .store a v => m.withKernel (m.k.storeWord a v)
  | .edit p s => .ok { m with k := m.k.setState p s }

/-- A step of the machine: the event can happen and the kernel comes back from it. -/
def Step (m : Machine) (e : Event) (m' : Machine) : Prop := m.Enabled e ∧ m.step e = .ok m'

instance (m : Machine) : (e : Event) → Decidable (m.Enabled e)
  | .sysbp _ | .store _ _ => inferInstanceAs (Decidable (_ ∧ _))
  | .pgmtrap _ | .tlb _ => inferInstanceAs (Decidable (_ ≠ _))
  | .interrupt _ => inferInstanceAs (Decidable (_ → _ → _))
  | .ssi _ => inferInstanceAs (Decidable (_ = _))
  | .devices _ => inferInstanceAs (Decidable True)
  | .edit _ _ => inferInstanceAs (Decidable (_ ∧ _ ∧ _))

/-- The step function: an event that cannot happen is refused. -/
def fire (m : Machine) (e : Event) : Except Stop Machine :=
  if m.Enabled e then m.step e else .error .fault

theorem step_of_fire {m m' : Machine} {e : Event} (h : m.fire e = .ok m') : m.Step e m' := by
  unfold fire at h
  split at h
  · exact ⟨‹_›, h⟩
  · cases h

/-- The step function under a condition on the use of the machine. -/
def fireIf (p : Machine → Event → Prop) [∀ m e, Decidable (p m e)] (m : Machine) (e : Event) :
    Except Stop Machine :=
  if p m e then m.fire e else .error .fault

theorem step_of_fireIf {p : Machine → Event → Prop} [∀ m e, Decidable (p m e)] {m m' : Machine}
    {e : Event} (h : m.fireIf p e = .ok m') : m.Step e m' ∧ p m e := by
  unfold fireIf at h
  split at h
  · exact ⟨step_of_fire h, ‹_›⟩
  · cases h

/-- The machine when `main` leaves the kernel for the first time. -/
structure Initial (m : Machine) : Prop where
  boot : ∃ k : Kernel, k.PowerOn ∧ k.main = .ok m.k
  pc : m.ssi.pc = .init

end Machine

/-- A memory image full of zeros, on a machine with one tick a microsecond and no devices. -/
def Kernel.zeroed : Kernel where
  tcb _ := { freshTcb with waitingFor := null, reply := null }
  links := ⟨fun _ => null, fun _ => null⟩
  tcbFree := []
  msgFree := []
  readyQueue := []
  waitQueue := []
  threadCount := 0
  softBlockCount := 0
  currentThread := null
  currentThreadTod := 0
  pseudoTick := 0
  startPseudoTick := 0
  ssiTcb := null
  testTcb := null
  trapManagers _ := null
  intIndex := 0
  mem _ := 0
  bus _ := 0
  device bus _ _ := bus
  todlow _ := 0
  timescale := 1
  intervalTimer := 0
  ramtop := 0x20040000
  cpu := initTState

theorem Kernel.zeroed_powerOn : zeroed.PowerOn :=
  ⟨fun _ => rfl, rfl, fun _ _ => rfl, fun _ _ => rfl, fun _ _ => rfl, fun _ _ _ _ => ⟨rfl, rfl⟩⟩

/-- The machine a memory image boots into, with a stack and empty variables for the SSI. -/
def Machine.start (k : Kernel) : Except Stop Machine := do
  let k ← k.main
  .ok { k, ssi := { pc := .init, reqStruct := 0x2003EFF0, reqThread := null, newThread := null
                    parent := null, deviceNum := none, devStatus := fun _ => 0
                    devTcb := fun _ => null, clockTcb := fun _ => null } }

/-- A system call in kernel mode. -/
def Event.call (code a1 a2 : U32) : Event := .sysbp (initTState.syscall code a1 a2)

/-- `SSIRequest`, with the request structure and the reply of the caller at fixed addresses. -/
def Event.ssiRequest (service payload : U32) : List Event :=
  [.store 0x20030000 service, .store 0x20030004 payload, call sysSend magicSsi 0x20030000,
    call sysRecv magicSsi 0x20030100]

/-- The SSI goes on for `n` of its calls. -/
def Event.ssiCalls (n : Nat) : List Event := List.replicate n (.ssi initTState)

theorem Machine.initial_of_start {k : Kernel} {m : Machine} (hk : k.PowerOn)
    (h : start k = .ok m) : m.Initial := by
  obtain ⟨k', hm, he⟩ := bind_eq_ok.mp h
  cases he
  exact ⟨⟨k, hk, hm⟩, rfl⟩

/-- What the current thread does in an event: a kernel entry of its own, a private call of the
SSI, or instructions the kernel does not see; or it is interrupted. -/
inductive Entry
  | send
  | recv (sender : Ptr)
  | trap (manager : Ptr)
  | interrupt
  | alloc
  | publish (p : Ptr)
  | program
deriving DecidableEq

def Entry.isCall : Entry → Bool
  | .send | .recv _ | .trap _ => true
  | .interrupt | .alloc | .publish _ | .program => false

def Kernel.sysbpEntry (k : Kernel) (old : State) : Entry :=
  if old.isSend then .send
  else if old.isRecv then .recv old.regA1
  else .trap ((k.tcb k.currentThread).manager .sysbp)

def Machine.entry (m : Machine) : Event → Entry
  | .sysbp old => m.k.sysbpEntry old
  | .pgmtrap _ => .trap ((m.k.tcb m.k.currentThread).manager .pgmtrap)
  | .tlb _ => .trap ((m.k.tcb m.k.currentThread).manager .tlbtrap)
  | .interrupt _ => .interrupt
  | .ssi _ => match m.ssi.call m.k with
    | .msgRecv _ => .recv anyMessage
    | .msgSend _ _ => .send
    | .allocTcb => .alloc
    | .insertReady p => .publish p
    | _ => .program
  | .devices _ | .store _ _ | .edit _ _ => .program

/-- History: the last kernel entry of each thread. -/
def Machine.note (m : Machine) (e : Event) (_ : Machine) (last : Ptr → Entry) : Ptr → Entry :=
  if (m.entry e).isCall then put last m.k.currentThread (m.entry e) else last

end AmiKaya
