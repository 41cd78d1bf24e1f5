import AmiKaya.Steps

/-! Runs of the machine from boot. The SSI is the only one to create threads, and a thread it is
creating is in no queue. -/
namespace AmiKaya
open Lts

namespace State

variable (old : State) (c a b : U32)

theorem syscall_kernelMode : (old.syscall c a b).kernelMode = true := by
  have hs : ∀ x : U32, x &&& ~~~statusKUp &&& statusKUp = 0 := by
    intro x
    rw [BitVec.and_assoc]
    simp [statusKUp]
  simp [kernelMode, syscall, hs]

theorem syscall_isSyscall : (old.syscall c a b).isSyscall = true := by
  have hs : causeExcCodeGet (excSyscall <<< 2) = excSyscall := by decide
  simp [isSyscall, syscall, hs]

theorem syscall_regs : (old.syscall c a b).regA0 = c ∧ (old.syscall c a b).regA1 = a ∧
    (old.syscall c a b).regA2 = b := by
  simp [syscall, setReg, regA0, regA1, regA2]

theorem syscall_isSend : (old.syscall sysSend a b).isSend = true := by
  simp [isSend, syscall_kernelMode, syscall_isSyscall, syscall_regs]

theorem syscall_isRecv : (old.syscall sysRecv a b).isSend = false ∧
    (old.syscall sysRecv a b).isRecv = true := by
  have hne : sysRecv ≠ sysSend := by decide
  simp [isSend, isRecv, syscall_kernelMode, syscall_isSyscall, syscall_regs, hne]

end State

/-- The SSI has found its requester in a queue. -/
def SsiPc.serves : SsiPc → Bool
  | .init | .recv | .got | .clock _ | .clockClear _ | .interrupt | .interruptClear
  | .checkReady | .checkWait => false
  | _ => true

/-- The SSI holds what `allocTcb` returned, and has not put it in a queue. -/
def SsiPc.creates : SsiPc → Bool
  | .noGood _ | .readParent | .link _ | .count _ | .copyState _ | .inherit | .publish => true
  | _ => false

/-- The new thread has been linked in the tree. -/
def SsiPc.linked : SsiPc → Bool
  | .count _ | .copyState _ | .inherit | .publish => true
  | _ => false

namespace Ssi

/-- The program points a call is made at, and with which arguments. -/
def CallAt (s : Ssi) : Call → Prop
  | .msgRecv a => s.pc = .recv ∧ a = s.reqStruct
  | .msgSend d v => s.pc.serves = true ∧ d = s.reqThread ∨
      (∃ i, s.pc = .clock i ∧ d = s.clockTcb i ∧ d ≠ null ∧ v = 42) ∨
      ∃ n, s.pc = .interrupt ∧ s.deviceNum = some n ∧ d = s.devTcb n ∧ d ≠ null
  | .allocTcb => ∃ c, s.pc = .alloc c
  | .insertChild p c => s.pc = .link .brother ∧ p = s.parent ∧ p ≠ null ∧ c = s.newThread ∨
      s.pc = .link .son ∧ p = s.reqThread ∧ c = s.newThread
  | .insertSibling p c => s.pc = .link .brother ∧ s.parent = null ∧ p = s.reqThread ∧ c = s.newThread
  | .countThread => ∃ c, s.pc = .count c
  | .copyState _ p => (∃ c, s.pc = .copyState c) ∧ p = s.newThread
  | .inherit q p => s.pc = .inherit ∧ q = s.reqThread ∧ p = s.newThread
  | .insertReady p => s.pc = .publish ∧ p = s.newThread
  | .terminate p => s.pc = .terminate ∧ p = s.reqThread
  | .addManager _ => ∃ e, s.pc = .addManager e
  | .setManager e p _ => s.pc = .setManager e ∧ p = s.reqThread
  | .local | .panic | .fault => True

theorem call_at (s : Ssi) (k : Kernel) : s.CallAt (s.call k) := by
  unfold call
  repeat' split
  all_goals simp_all [CallAt, SsiPc.serves]

@[simp] theorem dispatch_reqThread (s : Ssi) (k : Kernel) :
    (s.dispatch k).reqThread = s.reqThread := by
  unfold dispatch recordClock
  dsimp only
  repeat' split
  all_goals rfl

theorem dispatch_creates (s : Ssi) (k : Kernel) : (s.dispatch k).pc.creates = false := by
  unfold dispatch
  dsimp only
  repeat' split
  all_goals rfl

theorem linked_creates {p : SsiPc} (h : p.linked = true) : p.creates = true := by
  cases p <;> simp_all [SsiPc.linked, SsiPc.creates]

/-- The requester of a service has just been found, or it is the one already served. -/
theorem next_serves {s : Ssi} {k : Kernel} {r : U32} (h : (s.next k r).pc.serves = true) :
    (s.next k r).reqThread = s.reqThread ∧
      (s.pc.serves = true ∨ s.reqThread ∈ k.readyQueue ∨ s.reqThread ∈ k.waitQueue) := by
  cases hpc : s.pc <;> simp only [next, hpc] at h ⊢
  case serve => simp [SsiPc.serves]
  case checkReady | checkWait =>
    split at h
    · next hq =>
      have hm := (thereIsThread_ne_null.mp hq).1
      simp_all
    · simp [SsiPc.serves] at h
  all_goals
    repeat' split at h
    all_goals simp_all [SsiPc.serves, Create.linkPc]

/-- A TCB being created was there before, or has just been allocated. -/
theorem next_creates {s : Ssi} {k : Kernel} {r : U32} (h : (s.next k r).pc.creates = true) :
    (s.pc.creates = true ∧ s.pc ≠ .publish ∧ (s.next k r).newThread = s.newThread) ∨
      (∃ c, s.pc = .alloc c) ∧ (s.next k r).newThread = r := by
  cases hpc : s.pc <;> simp only [next, hpc] at h ⊢
  case serve => simp [dispatch_creates] at h
  all_goals
    repeat' split at h
    all_goals simp_all [SsiPc.creates]

theorem linkPc_linked (c : Create) : c.linkPc.linked = false := by cases c <;> rfl

theorem next_linked {s : Ssi} {k : Kernel} {r : U32} (h : (s.next k r).pc.linked = true) :
    s.pc.linked = true ∨ ∃ c, s.pc = .link c := by
  cases hpc : s.pc <;> simp only [next, hpc] at h ⊢
  case serve =>
    have := linked_creates h
    simp [dispatch_creates] at this
  case alloc | noGood =>
    repeat' split at h
    all_goals simp [linkPc_linked] at h
    all_goals simp [SsiPc.linked] at h
  all_goals
    repeat' split at h
    all_goals simp_all [SsiPc.linked]

end Ssi

namespace Machine

variable {m m' : Machine} {e : Event}

structure Wf (m : Machine) : Prop where
  placed : Placed m.k
  ssi : m.k.ssiTcb ∈ threadArray
  requester : m.ssi.pc.serves = true → m.ssi.reqThread ∈ threadArray
  creating : m.ssi.pc.creates = true → m.ssi.newThread ≠ null →
    m.ssi.newThread ∈ threadArray ∧ m.ssi.newThread ∉ m.k.places
  linked : m.ssi.pc.linked = true → m.ssi.newThread ≠ null

theorem Wf.ssi_ne_null (h : m.Wf) : m.k.ssiTcb ≠ null := by
  intro he
  exact null_notMem_threadArray (he ▸ h.ssi)

/-- A call of the SSI is a sequence of operations. -/
theorem perform_ops {old : State} {r : U32} {k' : Kernel} (hw : m.Wf)
    (hc : m.k.currentThread = m.k.ssiTcb)
    (h : m.k.perform old (m.ssi.call m.k) = .ok (r, k')) :
    Ops ((m.entry (.ssi old)).Allows m.k.currentThread) m.k k' := by
  have hat := m.ssi.call_at m.k
  have hn : m.k.currentThread ≠ null := by rw [hc]; exact hw.ssi_ne_null
  simp only [entry]
  cases hcall : m.ssi.call m.k <;> simp only [hcall] at h hat ⊢
  case «local» =>
    cases h
    exact .refl
  case msgRecv a =>
    obtain ⟨k₁, h₁, h₂⟩ := bind_eq_ok.mp h
    cases h₂
    have hops := Kernel.sysbpHandler_ops hw.placed hn h₁
    rwa [Kernel.sysbpEntry, (old.syscall_isRecv _ _).1, (old.syscall_isRecv _ _).2,
      (old.syscall_regs _ _ _).2.1] at hops
  case msgSend dest payload =>
    obtain ⟨k₁, h₁, h₂⟩ := bind_eq_ok.mp h
    cases h₂
    have hops := Kernel.sysbpHandler_ops hw.placed hn h₁
    rwa [Kernel.sysbpEntry, old.syscall_isSend] at hops
  case allocTcb =>
    simp only [Kernel.perform, Except.ok.injEq] at h
    by_cases hr : r = null
    · subst hr
      have hf : null ∉ m.k.tcbFree := fun hm =>
        hw.placed.ne_null (Kernel.mem_places.mpr (.inr (.inr (.inl hm)))) rfl
      obtain ⟨-, rfl⟩ := Kernel.allocTcb_null hf h
      exact .refl
    · exact .one (.alloc h hr) rfl
  case insertChild parent child =>
    simp only [Kernel.perform] at h
    split at h
    · cases h
    · cases h
      exact .one (.insertChild ‹_›) rfl
  case insertSibling sibling new =>
    simp only [Kernel.perform] at h
    split at h
    · cases h
    · cases h
      exact .one (.insertSibling ‹_›) rfl
  case countThread =>
    cases h
    exact .one .countThread rfl
  case copyState source dest =>
    obtain ⟨-, rfl⟩ := Kernel.perform_copyState h
    exact .quiet (.setState _ _) trivial
  case inherit source dest =>
    cases h
    exact .quiet (Quiet.setTcb fun _ => ⟨rfl, rfl, rfl, rfl⟩) trivial
  case insertReady p =>
    cases h
    obtain ⟨hpub, rfl⟩ := hat
    have hl := hw.linked (by rw [hpub]; rfl)
    have hf := hw.creating (by rw [hpub]; rfl) hl
    exact .one (.publish hf.1 hf.2) rfl
  case terminate p =>
    obtain ⟨k₁, h₁, h₂⟩ := bind_eq_ok.mp h
    cases h₂
    obtain ⟨hterm, rfl⟩ := hat
    have hr : m.ssi.reqThread ≠ null := by
      intro he
      exact null_notMem_threadArray (he ▸ hw.requester (by rw [hterm]; rfl))
    exact .one (.terminate hr h₁) (by simp [Entry.Allows])
  case addManager p =>
    cases h
    exact .quiet (.addManager _) trivial
  case setManager e p p' =>
    cases h
    exact .quiet (.setManager _ _ _) trivial
  case panic => cases h
  case fault => cases h

/-- A step is a call of the SSI or leaves its private state alone. -/
theorem step_cases (h : m.Step e m') :
    (m'.ssi = m.ssi ∧ ∀ old, e ≠ .ssi old) ∨
      ∃ old r, e = .ssi old ∧ m.k.currentThread = m.k.ssiTcb ∧
        m.k.perform old (m.ssi.call m.k) = .ok (r, m'.k) ∧ m'.ssi = m.ssi.next m.k r := by
  obtain ⟨hen, hs⟩ := h
  cases e with
  | ssi old =>
    obtain ⟨⟨r, k'⟩, h₁, h₂⟩ := bind_eq_ok.mp hs
    cases h₂
    exact .inr ⟨old, r, rfl, hen, (Ssi.perform_ok h₁).2, rfl⟩
  | devices bus | edit p s =>
    cases hs
    exact .inl ⟨rfl, by simp⟩
  | sysbp old | pgmtrap old | tlb old | interrupt old | store a v =>
    obtain ⟨k', h₁, h₂⟩ := bind_eq_ok.mp hs
    cases h₂
    exact .inl ⟨rfl, by simp⟩

theorem ssi_other (h : m.Step e m') (he : ∀ old, e ≠ .ssi old) : m'.ssi = m.ssi := by
  rcases step_cases h with ⟨hs, -⟩ | ⟨old, -, rfl, -⟩
  · exact hs
  · exact absurd rfl (he old)

theorem ssi_step {old : State} (h : m.Step (.ssi old) m') :
    ∃ r, m.k.perform old (m.ssi.call m.k) = .ok (r, m'.k) ∧ m'.ssi = m.ssi.next m.k r := by
  rcases step_cases h with ⟨-, hne⟩ | ⟨old', r, he, -, hperf, hs⟩
  · exact absurd rfl (hne old)
  · cases he
    exact ⟨r, hperf, hs⟩

/-- Every step of the machine is a sequence of the operations its entry allows. -/
theorem ops_of_step (hw : m.Wf) (h : m.Step e m') :
    Ops ((m.entry e).Allows m.k.currentThread) m.k m'.k := by
  obtain ⟨hen, hs⟩ := h
  cases e with
  | ssi old =>
    obtain ⟨⟨r, k'⟩, h₁, h₂⟩ := bind_eq_ok.mp hs
    cases h₂
    exact perform_ops hw hen (Ssi.perform_ok h₁).2
  | devices bus =>
    cases hs
    exact .quiet (by constructor <;> intros <;> rfl) trivial
  | edit p s =>
    cases hs
    exact .quiet (.setState p s) trivial
  | store a v =>
    obtain ⟨k', h₁, h₂⟩ := bind_eq_ok.mp hs
    cases h₂
    exact .quiet (.storeWord h₁) trivial
  | sysbp old =>
    obtain ⟨k', h₁, h₂⟩ := bind_eq_ok.mp hs
    cases h₂
    exact Kernel.sysbpHandler_ops hw.placed hen.1 h₁
  | pgmtrap old =>
    obtain ⟨k', h₁, h₂⟩ := bind_eq_ok.mp hs
    cases h₂
    exact Kernel.pgmtrapHandler_ops hw.placed hen h₁
  | tlb old =>
    obtain ⟨k', h₁, h₂⟩ := bind_eq_ok.mp hs
    cases h₂
    exact Kernel.tlbHandler_ops hw.placed hen h₁
  | interrupt old =>
    obtain ⟨k', h₁, h₂⟩ := bind_eq_ok.mp hs
    cases h₂
    exact Kernel.intHandler_ops h₁

/-- Outside the two calls of the SSI that touch the set of placed TCBs, a step only moves them. -/
theorem samePlaces_of_step (hw : m.Wf) (h : m.Step e m') (ha : m.entry e ≠ .alloc)
    (hp : ∀ p, m.entry e ≠ .publish p) : SamePlaces m.k m'.k :=
  (ops_of_step hw h).samePlaces hw.placed (fun _ he => ha he) (fun p he => hp p he)

theorem entry_alloc {old : State} (h : m.entry (.ssi old) = .alloc) : ∃ c, m.ssi.pc = .alloc c := by
  have hat := m.ssi.call_at m.k
  simp only [entry] at h
  cases hcall : m.ssi.call m.k <;> simp only [hcall] at h hat
  all_goals simp_all [Ssi.CallAt]

theorem entry_publish {old : State} {p : Ptr} (h : m.entry (.ssi old) = .publish p) :
    m.ssi.pc = .publish := by
  have hat := m.ssi.call_at m.k
  simp only [entry] at h
  cases hcall : m.ssi.call m.k <;> simp only [hcall] at h hat
  all_goals simp_all [Ssi.CallAt]

theorem entry_of_not_ssi (h : ∀ old, e ≠ .ssi old) :
    m.entry e ≠ .alloc ∧ ∀ p, m.entry e ≠ .publish p := by
  cases e with
  | sysbp old =>
    simp only [entry, Kernel.sysbpEntry]
    split
    · simp
    · split <;> simp
  | ssi old => exact absurd rfl (h old)
  | pgmtrap | tlb | interrupt | devices | store | edit => simp [entry]

/-- Linking the NULL thread would fault. -/
theorem linked_ne_null {old : State} {r : U32} {k' : Kernel} {c : Create} (hl : m.ssi.pc = .link c)
    (h : m.k.perform old (m.ssi.call m.k) = .ok (r, k')) : m.ssi.newThread ≠ null := by
  intro hn
  cases c with
  | brother =>
    simp only [Ssi.call, hl] at h
    split at h <;> simp [Kernel.perform, hn] at h
  | son => simp [Ssi.call, hl, Kernel.perform, hn] at h

theorem Wf.step (hw : m.Wf) (h : m.Step e m') : m'.Wf := by
  have hops := ops_of_step hw h
  have hplaced := hw.placed.ops hops
  have hssi : m'.k.ssiTcb ∈ threadArray := by
    rw [hops.ssiTcb]
    exact hw.ssi
  rcases step_cases h with ⟨hs, hne⟩ | ⟨old, r, rfl, hcur, hperf, hs⟩
  · have hsame := samePlaces_of_step hw h (entry_of_not_ssi hne).1 (entry_of_not_ssi hne).2
    refine ⟨hplaced, hssi, hs ▸ hw.requester, fun hc hn => ?_, hs ▸ hw.linked⟩
    rw [hs] at hc hn ⊢
    have hnew := hw.creating hc hn
    exact ⟨hnew.1, fun hm => hnew.2 (hsame.mem_iff.mp hm)⟩
  · refine ⟨hplaced, hssi, fun hc => ?_, fun hc hn => ?_, fun hc => ?_⟩
    · rw [hs] at hc ⊢
      obtain ⟨he, hq⟩ := Ssi.next_serves hc
      rw [he]
      rcases hq with hq | hq | hq
      · exact hw.requester hq
      · exact hw.placed.sub _ (Kernel.mem_places.mpr (.inl hq))
      · exact hw.placed.sub _ (Kernel.mem_places.mpr (.inr (.inl hq)))
    · rw [hs] at hc hn ⊢
      rcases Ssi.next_creates hc with ⟨hcr, hpub, hnew⟩ | ⟨⟨c, hal⟩, hnew⟩
      · rw [hnew] at hn ⊢
        have hold := hw.creating hcr hn
        have hsame : SamePlaces m.k m'.k := by
          refine samePlaces_of_step hw h (fun he => ?_) fun p he => hpub (entry_publish he)
          obtain ⟨c, hc⟩ := entry_alloc he
          simp [hc, SsiPc.creates] at hcr
        exact ⟨hold.1, fun hm => hold.2 (hsame.mem_iff.mp hm)⟩
      · rw [hnew] at hn ⊢
        have hcall : m.ssi.call m.k = .allocTcb := by simp [Ssi.call, hal]
        rw [hcall] at hperf
        obtain ⟨free, hf, hk⟩ := Kernel.allocTcb_cases (Except.ok.inj hperf) hn
        have hm : r ∈ m.k.tcbFree := by simp [hf]
        refine ⟨hw.placed.sub r (Kernel.mem_places.mpr (.inr (.inr (.inl hm)))), fun hm' => ?_⟩
        have hc := hw.placed.count_le r
        have hpos := List.count_pos_iff.mpr hm'
        simp only [hk, Kernel.places, Kernel.running, List.count_append] at hpos
        simp only [hf, Kernel.running, List.count_cons_self] at hc
        omega
    · rw [hs] at hc ⊢
      have hnew : (m.ssi.next m.k r).newThread = m.ssi.newThread := by
        rcases Ssi.next_creates (Ssi.linked_creates hc) with ⟨-, -, hnew⟩ | ⟨⟨c, hal⟩, -⟩
        · exact hnew
        · rcases Ssi.next_linked hc with hl | ⟨c, hl⟩ <;> simp [hal, SsiPc.linked] at hl
      rw [hnew]
      rcases Ssi.next_linked hc with hl | ⟨c, hl⟩
      · exact hw.linked hl
      · exact linked_ne_null hl hperf

end Machine

/-- The second TCB of the array, which the test thread gets. -/
def testThreadAddr : Ptr := threadArrayAddr + BitVec.ofNat 32 sizeofTcb

theorem threadArray_eq : threadArray = threadArrayAddr :: testThreadAddr :: threadArray.drop 2 := by
  decide

namespace Kernel

/-- The kernel when `main` leaves it: the SSI runs and the test thread is ready. -/
structure Booted (k : Kernel) : Prop where
  ssiTcb : k.ssiTcb = threadArrayAddr
  currentThread : k.currentThread = threadArrayAddr
  readyQueue : k.readyQueue = [testThreadAddr]
  waitQueue : k.waitQueue = []
  tcbFree : k.tcbFree = threadArray.drop 2
  msgFree : k.msgFree = msgArray
  threadCount : k.threadCount = 2
  softBlockCount : k.softBlockCount = 0
  tInbox : ∀ p ∈ threadArray, (k.tcb p).tInbox = []
  tParent : (k.tcb threadArrayAddr).tParent = null ∧ (k.tcb testThreadAddr).tParent = null
  waitingFor : ∀ p ∈ threadArray, (k.tcb p).waitingFor = notWaiting ∨ (k.tcb p).waitingFor = null
  links : ∀ n ∈ [tChild threadArrayAddr, tSib threadArrayAddr, tChild testThreadAddr,
    tSib testThreadAddr], k.links.next n = n ∧ k.links.prev n = n
  trapManagers : ∀ i, k.trapManagers i = null
  intIndex : k.intIndex = 0

theorem bootThread_eq {k : Kernel} {p : Ptr} {free : List Ptr} (sp entry : U32)
    (hf : k.tcbFree = p :: free) (hp : p ≠ null) :
    k.bootThread sp entry = .ok (p, { k with
      tcb := put k.tcb p { freshTcb with tState := bootState initTState sp entry }
      tcbFree := free
      links := (k.links.init (tChild p)).init (tSib p)
      readyQueue := k.readyQueue ++ [p]
      threadCount := k.threadCount + 1 }) := by
  simp [bootThread, allocTcb, hf, hp, setTcb, insertThread, freshTcb]

theorem scheduler_dispatch {k k' : Kernel} {p : Ptr} {rest : List Ptr}
    (hc : k.currentThread = null) (hr : k.readyQueue = p :: rest) (h : k.scheduler = .ok k') :
    Quiet { k with currentThread := p, readyQueue := rest } k' ∧
      k'.trapManagers = k.trapManagers ∧ k'.intIndex = k.intIndex := by
  have htimer : ∀ (k : Kernel) slice, (k.setTimer slice).trapManagers = k.trapManagers ∧
      (k.setTimer slice).intIndex = k.intIndex := by
    intro k slice
    unfold setTimer
    split <;> exact ⟨rfl, rfl⟩
  simp only [scheduler, hc, if_true, hr, Except.ok.injEq] at h
  subst h
  exact ⟨.dispatch p rest, (htimer _ _).1, (htimer _ _).2⟩

theorem main_booted {k k' : Kernel} (h : k.PowerOn) (hm : k.main = .ok k') : k'.Booted := by
  have hne : threadArrayAddr ≠ null ∧ testThreadAddr ≠ null := by decide
  have hne' : threadArrayAddr ≠ testThreadAddr := by decide
  obtain ⟨k₁, hb, hs⟩ := bind_eq_ok.mp hm
  unfold boot at hb
  dsimp only at hb
  rw [bootThread_eq _ _ threadArray_eq hne.1] at hb
  dsimp only [bind, Except.bind] at hb
  rw [bootThread_eq _ _ rfl hne.2] at hb
  have hk := Except.ok.inj hb
  subst hk
  obtain ⟨hq, ht, hi⟩ := scheduler_dispatch rfl rfl hs
  constructor
  case ssiTcb => exact hq.ssiTcb
  case currentThread => exact hq.currentThread
  case readyQueue => exact hq.readyQueue
  case waitQueue => exact hq.waitQueue
  case tcbFree => exact hq.tcbFree
  case msgFree => exact hq.msgFree
  case threadCount => exact hq.threadCount
  case softBlockCount => exact hq.softBlockCount
  case trapManagers =>
    rw [ht]
    exact h.trapManagers
  case intIndex => exact hi.trans h.intIndex
  case tInbox =>
    intro p hp
    rw [hq.tInbox]
    simp only [readTodlow, Links.put_apply]
    split
    · rfl
    · split
      · rfl
      · exact h.tInbox p hp
  case tParent =>
    simp only [hq.tParent]
    simp [readTodlow, hne', freshTcb]
  case waitingFor =>
    intro p hp
    have hw := h.waitingFor p hp
    rw [hq.waitingFor]
    simp only [readTodlow, Links.put_apply]
    split
    · exact .inl rfl
    · split
      · exact .inl rfl
      · exact .inr hw
  case links =>
    have hnodes : [tChild threadArrayAddr, tSib threadArrayAddr, tChild testThreadAddr,
        tSib testThreadAddr].Nodup := by decide
    rw [hq.links]
    simp only [List.nodup_cons, List.mem_cons, not_or] at hnodes
    simp [readTodlow, Links.Heap.init_next, Links.Heap.init_prev, hnodes]

theorem Booted.placed {k : Kernel} (hb : k.Booted) : Placed k := by
  have hne : threadArrayAddr ≠ null := by decide
  have hperm : k.places.Perm threadArray := by
    rw [places, running, hb.currentThread, hb.readyQueue, hb.waitQueue, hb.tcbFree, threadArray_eq]
    simp only [hne, if_false, List.append_nil]
    exact List.perm_append_singleton threadArrayAddr _
  exact ⟨hperm.nodup_iff.mpr threadArray_nodup, fun p hp => hperm.mem_iff.mp hp⟩

end Kernel

namespace Machine

theorem initial_wf {m : Machine} (h : m.Initial) : m.Wf := by
  obtain ⟨k, hp, hm⟩ := h.boot
  have hb := Kernel.main_booted hp hm
  constructor
  case placed => exact hb.placed
  case ssi =>
    rw [hb.ssiTcb]
    decide
  all_goals simp [h.pc, SsiPc.serves, SsiPc.creates, SsiPc.linked]

/-- Everything a run from boot reaches is well formed. -/
theorem wf_of_run {m m' : Machine} {es : List Event} (h : m.Initial) (hr : Run Step m es m') :
    m'.Wf :=
  hr.inv (fun _ _ _ hs hw => hw.step hs) (initial_wf h)

end Machine

end AmiKaya
