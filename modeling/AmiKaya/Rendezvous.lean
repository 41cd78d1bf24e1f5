import AmiKaya.Runs

/-! The rendezvous of a device interrupt and a WAITFORIO request: one slot for a status and one
slot for a waiter. -/
namespace AmiKaya
open Lts

/-- The status that came before its request, and the waiter that came before its interrupt. -/
@[ext] structure Slot where
  status : U32
  waiter : Ptr
deriving DecidableEq

namespace Slot

def empty : Slot := ⟨devEmpty, null⟩

/-- An interrupt wakes the waiter with the masked status, or leaves its status. -/
def interrupt (s : Slot) (w : U32) : Slot × List (Ptr × U32) :=
  if s.waiter = null then ({ s with status := w }, [])
  else ({ s with waiter := null }, [(s.waiter, w &&& statusMask)])

/-- A request takes the status as it was stored, or leaves its thread. -/
def request (s : Slot) (t : Ptr) : Slot × List (Ptr × U32) :=
  if s.status = devEmpty then ({ s with waiter := t }, [])
  else ({ s with status := devEmpty }, [(t, s.status)])

end Slot

/-- The messages a call of the SSI sends. -/
def Call.sent : Call → List (Ptr × U32)
  | .msgSend t v => [(t, v)]
  | _ => []

namespace Ssi

/-- The two entries of a device. An entry that the SSI is about to clear counts as cleared, and
before the first receive both count as empty. -/
def slot (s : Ssi) (d : Nat) : Slot :=
  if s.pc = .init then .empty
  else
    { status := if s.pc = .waitIoClear ∧ s.deviceNum = some d then devEmpty else s.devStatus d
      waiter := if s.pc = .interruptClear ∧ s.deviceNum = some d then null else s.devTcb d }

/-- The two parts of the program of the SSI that use the device arrays. -/
def handles (d : Nat) (s : Ssi) (pc : SsiPc) : Prop := s.pc = pc ∧ s.deviceNum = some d

instance (d : Nat) (s : Ssi) (pc : SsiPc) : Decidable (s.handles d pc) :=
  inferInstanceAs (Decidable (_ ∧ _))

theorem slot_of_pc {s : Ssi} {d : Nat} (h : s.pc ≠ .init) (h₁ : s.pc ≠ .waitIoClear)
    (h₂ : s.pc ≠ .interruptClear) : s.slot d = ⟨s.devStatus d, s.devTcb d⟩ := by
  simp [slot, h, h₁, h₂]

/-- An INTERRUPT_MSG is one interrupt of the slot. -/
theorem interrupt_slot {s : Ssi} {k : Kernel} {r : U32} {d : Nat} (h : s.handles d .interrupt) :
    (s.next k r).slot d = ((s.slot d).interrupt (s.arg k)).1 ∧
      (s.call k).sent = ((s.slot d).interrupt (s.arg k)).2 := by
  obtain ⟨hpc, hd⟩ := h
  have hslot : s.slot d = ⟨s.devStatus d, s.devTcb d⟩ :=
    slot_of_pc (by simp [hpc]) (by simp [hpc]) (by simp [hpc])
  rw [hslot]
  by_cases hw : s.devTcb d = null
  · simp [next, call, hpc, hd, hw, Slot.interrupt, slot, Call.sent]
  · simp [next, call, hpc, hd, hw, Slot.interrupt, slot, Call.sent]

/-- A WAITFORIO is one request on the slot. -/
theorem waitIo_slot {s : Ssi} {k : Kernel} {r : U32} {d : Nat} (h : s.handles d .waitIo) :
    (s.next k r).slot d = ((s.slot d).request s.reqThread).1 ∧
      (s.call k).sent = ((s.slot d).request s.reqThread).2 := by
  obtain ⟨hpc, hd⟩ := h
  have hslot : s.slot d = ⟨s.devStatus d, s.devTcb d⟩ :=
    slot_of_pc (by simp [hpc]) (by simp [hpc]) (by simp [hpc])
  rw [hslot]
  by_cases hw : s.devStatus d = devEmpty
  · simp [next, call, hpc, hd, hw, Slot.request, slot, Call.sent]
  · simp [next, call, hpc, hd, hw, Slot.request, slot, Call.sent]

/-- The program points that touch the two device arrays. -/
def usesDevices : SsiPc → Bool
  | .init | .interrupt | .interruptClear | .waitIo | .waitIoClear => true
  | _ => false

theorem recordClock_eq (s : Ssi) : ∃ c, s.recordClock = { s with clockTcb := c } := by
  unfold recordClock
  split
  · exact ⟨s.clockTcb, rfl⟩
  · exact ⟨_, rfl⟩

/-- Elsewhere the arrays stay as they are, and no entry is about to be cleared. -/
theorem next_devices {s : Ssi} {k : Kernel} {r : U32} (h : usesDevices s.pc = false) :
    (s.next k r).devStatus = s.devStatus ∧ (s.next k r).devTcb = s.devTcb ∧
      (s.next k r).pc ≠ .init ∧ (s.next k r).pc ≠ .waitIoClear ∧
      (s.next k r).pc ≠ .interruptClear := by
  obtain ⟨c, hc⟩ := s.recordClock_eq
  cases hpc : s.pc <;> simp only [hpc, usesDevices, Bool.true_eq_false] at h <;>
    simp only [next, hpc, dispatch, hc]
  case serve =>
    repeat' split
    all_goals simp
  case alloc c => split <;> cases c <;> simp [Create.linkPc]
  case noGood c => cases c <;> simp [Create.linkPc]
  case copyState c => cases c <;> simp
  all_goals
    repeat' split
    all_goals simp_all

/-- Nothing else touches the slot. -/
theorem other_slot {s : Ssi} {k : Kernel} {r : U32} {d : Nat} (h₁ : ¬ s.handles d .interrupt)
    (h₂ : ¬ s.handles d .waitIo) : (s.next k r).slot d = s.slot d := by
  cases hpc : s.pc
  case interruptClear | waitIoClear =>
    cases hd : s.deviceNum with
    | none => simp [next, hpc, hd, slot]
    | some n =>
      by_cases hn : n = d
      · subst hn
        simp [next, hpc, hd, slot]
      · have hn' : d ≠ n := fun h => hn h.symm
        simp [next, hpc, hd, slot, hn, hn']
  case interrupt | waitIo =>
    simp only [handles, hpc, true_and] at h₁ h₂
    cases hd : s.deviceNum with
    | none => simp [next, hpc, hd, slot]
    | some n =>
      have hn : n ≠ d := fun h => by simp_all
      have hn' : d ≠ n := fun h => hn h.symm
      simp only [next, hpc, hd]
      split <;> simp [slot, hpc, hn, hn', hd]
  case init => simp [next, hpc, slot, initArrays, Slot.empty]
  all_goals
    obtain ⟨hs, ht, hi, hw, hc⟩ := next_devices (s := s) (k := k) (r := r) (by rw [hpc]; rfl)
    rw [slot_of_pc hi hw hc, slot_of_pc (by simp [hpc]) (by simp [hpc]) (by simp [hpc]), hs, ht]

/-- The SSI goes on while its program point is in `block`, and sees the kernel in the states `ks` at
its calls: the messages it sends, and its state when it leaves. -/
def runBlock (block : SsiPc → Bool) : List Kernel → Ssi → List (Ptr × U32) × Ssi
  | [], s => ([], s)
  | k :: ks, s =>
    if block s.pc then
      let r := runBlock block ks (s.next k 0)
      ((s.call k).sent ++ r.1, r.2)
    else ([], s)

/-- `INTERRUPT_MSG`, from the call of `rest_index` on. -/
def handleInterrupt (s : Ssi) (d : Nat) (ks : List Kernel) : List (Ptr × U32) × Ssi :=
  runBlock (fun pc => pc = .interrupt || pc = .interruptClear) ks
    { s with pc := .interrupt, deviceNum := some d }

/-- `WAITFORIO` of a thread, from the call of `rest_index` on. -/
def handleWaitForIo (s : Ssi) (d : Nat) (t : Ptr) (ks : List Kernel) : List (Ptr × U32) × Ssi :=
  runBlock (fun pc => pc = .waitIo || pc = .waitIoClear) ks
    { s with pc := .waitIo, deviceNum := some d, reqThread := t }

/-- The SSI at its receive, with nothing stored and nobody waiting. -/
def idle : Ssi where
  pc := .recv
  reqStruct := 0x2003EFF0
  reqThread := null
  newThread := null
  parent := null
  deviceNum := none
  devStatus _ := devEmpty
  devTcb _ := null
  clockTcb _ := null

/-- The two entries of a device as they are in memory. -/
def entries (s : Ssi) (d : Nat) : Slot := ⟨s.devStatus d, s.devTcb d⟩

theorem handleInterrupt_eq (s : Ssi) (d : Nat) (k k' : Kernel) :
    (s.handleInterrupt d [k, k']).1 = ((s.entries d).interrupt (s.arg k)).2 ∧
      (s.handleInterrupt d [k, k']).2.entries d = ((s.entries d).interrupt (s.arg k)).1 ∧
      (s.handleInterrupt d [k, k']).2.reqStruct = s.reqStruct := by
  by_cases hw : s.devTcb d = null
  · simp [handleInterrupt, runBlock, next, call, hw, Call.sent, entries, Slot.interrupt, arg]
  · simp [handleInterrupt, runBlock, next, call, hw, Call.sent, entries, Slot.interrupt, arg]

theorem handleWaitForIo_eq (s : Ssi) (d : Nat) (t : Ptr) (k k' : Kernel) :
    (s.handleWaitForIo d t [k, k']).1 = ((s.entries d).request t).2 ∧
      (s.handleWaitForIo d t [k, k']).2.entries d = ((s.entries d).request t).1 ∧
      (s.handleWaitForIo d t [k, k']).2.reqStruct = s.reqStruct := by
  by_cases hw : s.devStatus d = devEmpty
  · simp [handleWaitForIo, runBlock, next, call, hw, Call.sent, entries, Slot.request]
  · simp [handleWaitForIo, runBlock, next, call, hw, Call.sent, entries, Slot.request]

/-- Whether the SSI handles the interrupt with status `w` or the request of `t` first, it sends `t`
one and the same answer and leaves both entries of the device empty. -/
def SameAnswer (s : Ssi) (d : Nat) (t : Ptr) (w : U32) : Prop :=
  ∀ k₁ k₂ k₃ k₄ : Kernel, s.arg k₁ = w →
    let stored := s.handleInterrupt d [k₁, k₂]
    let fetched := stored.2.handleWaitForIo d t [k₃, k₄]
    let waiting := s.handleWaitForIo d t [k₃, k₄]
    let woken := waiting.2.handleInterrupt d [k₁, k₂]
    (∃ v, stored.1 ++ fetched.1 = [(t, v)] ∧ waiting.1 ++ woken.1 = [(t, v)]) ∧
      fetched.2.entries d = .empty ∧ woken.2.entries d = .empty

theorem and_statusMask_ne {w : U32} (h : w &&& statusMask = w) : w ≠ devEmpty := by
  rintro rfl
  exact absurd h (by decide)

/-- The two orders agree exactly on the status words that the mask leaves as they are. -/
theorem sameAnswer_iff {s : Ssi} {d : Nat} {t : Ptr} {w : U32} (he : s.entries d = .empty)
    (ht : t ≠ null) : s.SameAnswer d t w ↔ w &&& statusMask = w := by
  have horders : ∀ k₁ k₂ k₃ k₄ : Kernel, s.arg k₁ = w →
      (s.handleInterrupt d [k₁, k₂]).1 = [] ∧
      ((s.handleInterrupt d [k₁, k₂]).2.handleWaitForIo d t [k₃, k₄]).1 =
        ((⟨w, null⟩ : Slot).request t).2 ∧
      ((s.handleInterrupt d [k₁, k₂]).2.handleWaitForIo d t [k₃, k₄]).2.entries d =
        ((⟨w, null⟩ : Slot).request t).1 ∧
      (s.handleWaitForIo d t [k₃, k₄]).1 = [] ∧
      ((s.handleWaitForIo d t [k₃, k₄]).2.handleInterrupt d [k₁, k₂]).1 = [(t, w &&& statusMask)] ∧
      ((s.handleWaitForIo d t [k₃, k₄]).2.handleInterrupt d [k₁, k₂]).2.entries d = .empty := by
    intro k₁ k₂ k₃ k₄ hw
    obtain ⟨hi₁, hi₂, -⟩ := s.handleInterrupt_eq d k₁ k₂
    obtain ⟨hr₁, hr₂, hreq⟩ := s.handleWaitForIo_eq d t k₃ k₄
    obtain ⟨hf₁, hf₂, -⟩ := (s.handleInterrupt d [k₁, k₂]).2.handleWaitForIo_eq d t k₃ k₄
    obtain ⟨hw₁, hw₂, -⟩ := (s.handleWaitForIo d t [k₃, k₄]).2.handleInterrupt_eq d k₁ k₂
    have harg : (s.handleWaitForIo d t [k₃, k₄]).2.arg k₁ = w := by
      rw [← hw, arg, arg, hreq]
    rw [hi₁, hf₁, hf₂, hi₂, hr₁, hw₁, hw₂, hr₂, he, hw, harg]
    simp [Slot.empty, Slot.interrupt, Slot.request, ht]
  constructor
  · intro h
    have hk : s.arg { Kernel.zeroed with mem := fun _ => w } = w := rfl
    obtain ⟨h₁, h₂, -, h₄, h₅, -⟩ := horders _ Kernel.zeroed Kernel.zeroed Kernel.zeroed hk
    obtain ⟨⟨v, hv, hv'⟩, -⟩ := h _ Kernel.zeroed Kernel.zeroed Kernel.zeroed hk
    dsimp only at hv hv'
    rw [h₁, h₂, List.nil_append] at hv
    rw [h₄, h₅, List.nil_append] at hv'
    unfold Slot.request at hv
    split at hv
    · cases hv
    · have hstored : w = v := by simpa using hv
      have hmasked : w &&& statusMask = v := by simpa using hv'
      exact hmasked.trans hstored.symm
  · intro hw k₁ k₂ k₃ k₄ hk
    have hne := and_statusMask_ne hw
    obtain ⟨h₁, h₂, h₃, h₄, h₅, h₆⟩ := horders k₁ k₂ k₃ k₄ hk
    refine ⟨⟨w, ?_, ?_⟩, ?_, h₆⟩
    · rw [h₁, h₂]
      simp [Slot.request, hne]
    · rw [h₄, h₅, hw]
      rfl
    · rw [h₃]
      simp [Slot.request, hne, Slot.empty]

theorem sameAnswer_iff_ready : (idle.entries 0 = .empty ∧ testThreadAddr ≠ null) ∧
    (idle.SameAnswer 0 testThreadAddr 1 ↔ 1 &&& statusMask = 1) :=
  ⟨⟨rfl, by decide⟩, sameAnswer_iff rfl (by decide)⟩

/-- A terminal reports the transmitted character above the low byte of its status. -/
theorem sameAnswer_fails : ¬ ∀ (s : Ssi) (d : Nat) (t : Ptr) (w : U32), s.entries d = .empty →
    t ≠ null → s.SameAnswer d t w := by
  intro h
  have hs := h idle 33 testThreadAddr 0x4105 rfl (by decide)
  obtain ⟨⟨v, hv, hv'⟩, -⟩ := hs { Kernel.zeroed with mem := fun _ => 0x4105 } Kernel.zeroed
    Kernel.zeroed Kernel.zeroed rfl
  have hstored : [(testThreadAddr, (0x4105 : U32))] = [(testThreadAddr, v)] := hv
  have hwoken : [(testThreadAddr, (0x5 : U32))] = [(testThreadAddr, v)] := hv'
  exact absurd (hstored.trans hwoken.symm) (by decide)

end Ssi

/-- What has happened to one device: the statuses of its INTERRUPT_MSGs, the threads whose
WAITFORIO was accepted, and the answers sent to them. -/
structure DeviceLog where
  interrupts : List U32
  requests : List Ptr
  answers : List (Ptr × U32)

def DeviceLog.empty : DeviceLog := ⟨[], [], []⟩

/-- The history of device `d`. -/
def DeviceLog.note (d : Nat) (m : Machine) (e : Event) (_ : Machine) (log : DeviceLog) :
    DeviceLog :=
  match e with
  | .ssi _ =>
    if m.ssi.handles d .interrupt then
      { log with interrupts := log.interrupts ++ [m.ssi.arg m.k]
                 answers := log.answers ++ (m.ssi.call m.k).sent }
    else if m.ssi.handles d .waitIo then
      { log with requests := log.requests ++ [m.ssi.reqThread]
                 answers := log.answers ++ (m.ssi.call m.k).sent }
    else log
  | _ => log

/-- What a slot still holds. -/
def Slot.pendingStatus (s : Slot) : List U32 := if s.status = devEmpty then [] else [s.status]
def Slot.pendingWaiter (s : Slot) : List Ptr := if s.waiter = null then [] else [s.waiter]

/-- Requests and interrupts are answered in order, one by one; what is not answered yet is in the
slot, and the slot never holds both a status and a waiter. -/
structure Matched (log : DeviceLog) (s : Slot) : Prop where
  requests : log.requests = log.answers.map Prod.fst ++ s.pendingWaiter
  interrupts : log.interrupts.map (· &&& statusMask) =
    log.answers.map (fun a => a.2 &&& statusMask) ++ s.pendingStatus.map (· &&& statusMask)
  one : s.status = devEmpty ∨ s.waiter = null

namespace Matched

variable {log : DeviceLog} {s : Slot}

theorem empty : Matched .empty .empty := ⟨rfl, rfl, .inl rfl⟩

/-- An interrupt is matched if no status is pending and its own is not the empty marker. -/
theorem interrupt (h : Matched log s) {w : U32}
    (hw : s.waiter = null → s.status = devEmpty ∧ w ≠ devEmpty) :
    Matched { log with interrupts := log.interrupts ++ [w]
                       answers := log.answers ++ (s.interrupt w).2 } (s.interrupt w).1 := by
  have hmask : w &&& statusMask &&& statusMask = w &&& statusMask := by
    rw [BitVec.and_assoc, BitVec.and_self]
  by_cases ht : s.waiter = null
  · obtain ⟨hs, hne⟩ := hw ht
    have hr := h.requests
    have hi := h.interrupts
    simp only [Slot.pendingStatus, Slot.pendingWaiter, hs, ht, if_true, List.append_nil,
      List.map_nil] at hr hi
    refine ⟨?_, ?_, .inr ?_⟩
    · simp [Slot.interrupt, ht, Slot.pendingWaiter, hr]
    · simp [Slot.interrupt, ht, Slot.pendingStatus, hne, hi]
    · simp [Slot.interrupt, ht]
  · have hs := h.one.resolve_right ht
    have hr := h.requests
    have hi := h.interrupts
    simp only [Slot.pendingStatus, Slot.pendingWaiter, hs, ht, if_true, if_false, List.append_nil,
      List.map_nil] at hr hi
    refine ⟨?_, ?_, .inl ?_⟩
    · simp [Slot.interrupt, ht, Slot.pendingWaiter, hr]
    · simp [Slot.interrupt, ht, Slot.pendingStatus, hs, hi, hmask]
    · simp [Slot.interrupt, ht, hs]

/-- A request is matched if nobody waits already. -/
theorem request (h : Matched log s) {t : Ptr} (ht : t ≠ null)
    (hw : s.status = devEmpty → s.waiter = null) :
    Matched { log with requests := log.requests ++ [t]
                       answers := log.answers ++ (s.request t).2 } (s.request t).1 := by
  by_cases hs : s.status = devEmpty
  · have hr := h.requests
    have hi := h.interrupts
    simp only [Slot.pendingStatus, Slot.pendingWaiter, hs, hw hs, if_true, List.append_nil,
      List.map_nil] at hr hi
    refine ⟨?_, ?_, .inl ?_⟩
    · simp [Slot.request, hs, Slot.pendingWaiter, ht, hr]
    · simp [Slot.request, hs, Slot.pendingStatus, hi]
    · simp [Slot.request, hs]
  · have hn := h.one.resolve_left hs
    have hr := h.requests
    have hi := h.interrupts
    simp only [Slot.pendingStatus, Slot.pendingWaiter, hs, hn, if_true, if_false, List.append_nil,
      List.map_cons, List.map_nil] at hr hi
    refine ⟨?_, ?_, .inl ?_⟩
    · simp [Slot.request, hs, Slot.pendingWaiter, hn, hr]
    · simp [Slot.request, hs, Slot.pendingStatus, hi]
    · simp [Slot.request, hs]

/-- The k-th answer goes to the k-th request, with the status of the k-th interrupt. -/
theorem getElem? (h : Matched log s) {k : Nat} {t : Ptr} {v : U32}
    (hk : log.answers[k]? = some (t, v)) :
    log.requests[k]? = some t ∧
      ∃ w, log.interrupts[k]? = some w ∧ v &&& statusMask = w &&& statusMask := by
  obtain ⟨hlt, -⟩ := List.getElem?_eq_some_iff.mp hk
  constructor
  · rw [h.requests, List.getElem?_append_left (by simpa using hlt), List.getElem?_map, hk]
    rfl
  · have hi : (log.interrupts.map (· &&& statusMask))[k]? = some (v &&& statusMask) := by
      rw [h.interrupts, List.getElem?_append_left (by simpa using hlt), List.getElem?_map, hk]
      rfl
    rw [List.getElem?_map] at hi
    obtain ⟨w, hw, he⟩ := Option.map_eq_some_iff.mp hi
    exact ⟨w, hw, he.symm⟩

end Matched

namespace Machine

variable {m m' : Machine} {e : Event} {d : Nat} {log : DeviceLog}

/-- The use of device `d` that one slot can serve: no INTERRUPT_MSG while a status is stored, none
that carries the empty marker to be stored, no WAITFORIO while a waiter is recorded. -/
def Orderly (d : Nat) (m : Machine) (e : Event) : Prop :=
  match e with
  | .ssi _ =>
    (m.ssi.handles d .interrupt → m.ssi.devTcb d = null →
      m.ssi.devStatus d = devEmpty ∧ m.ssi.arg m.k ≠ devEmpty) ∧
    (m.ssi.handles d .waitIo → m.ssi.devStatus d = devEmpty → m.ssi.devTcb d = null)
  | _ => True

instance (d : Nat) (m : Machine) : (e : Event) → Decidable (m.Orderly d e)
  | .ssi _ => inferInstanceAs (Decidable ((_ → _ → _) ∧ (_ → _ → _)))
  | .sysbp _ | .pgmtrap _ | .tlb _ | .interrupt _ | .devices _ | .store _ _ | .edit _ _ =>
    inferInstanceAs (Decidable True)

theorem matched_step (hw : m.Wf) (hs : m.Step e m') (ho : m.Orderly d e)
    (h : Matched log (m.ssi.slot d)) : Matched (DeviceLog.note d m e m' log) (m'.ssi.slot d) := by
  rcases step_cases hs with ⟨he, hne⟩ | ⟨old, r, rfl, -, -, he⟩
  · have hlog : DeviceLog.note d m e m' log = log := by
      cases e with
      | ssi old => exact absurd rfl (hne old)
      | sysbp | pgmtrap | tlb | interrupt | devices | store | edit => rfl
    rw [hlog, he]
    exact h
  · rw [he]
    unfold DeviceLog.note
    by_cases hi : m.ssi.handles d .interrupt
    · have hslot : m.ssi.slot d = ⟨m.ssi.devStatus d, m.ssi.devTcb d⟩ :=
        Ssi.slot_of_pc (by simp [hi.1]) (by simp [hi.1]) (by simp [hi.1])
      have hstep := Ssi.interrupt_slot (k := m.k) (r := r) hi
      simp only [hi, if_true]
      rw [hstep.1, hstep.2]
      exact h.interrupt (by rw [hslot]; exact ho.1 hi)
    · by_cases hq : m.ssi.handles d .waitIo
      · have hslot : m.ssi.slot d = ⟨m.ssi.devStatus d, m.ssi.devTcb d⟩ :=
          Ssi.slot_of_pc (by simp [hq.1]) (by simp [hq.1]) (by simp [hq.1])
        have hstep := Ssi.waitIo_slot (k := m.k) (r := r) hq
        have ht : m.ssi.reqThread ≠ null := by
          intro hn
          exact null_notMem_threadArray (hn ▸ hw.requester (by rw [hq.1]; rfl))
        simp only [hi, hq, if_true, if_false]
        rw [hstep.1, hstep.2]
        exact h.request ht (by rw [hslot]; exact ho.2 hq)
      · simp only [hi, hq, if_false]
        rw [Ssi.other_slot hi hq]
        exact h

/-- A step of an orderly use of device `d`. -/
def OrderlyStep (d : Nat) (m : Machine) (e : Event) (m' : Machine) : Prop :=
  m.Step e m' ∧ m.Orderly d e

/-- When a device is used one request and one interrupt at a time, the k-th accepted WAITFORIO is
answered once, with the status of the k-th interrupt, and nothing stored is lost. -/
theorem rendezvous_matched {es : List Event} (h : m.Initial)
    (hr : Run (withHistory (OrderlyStep d) (DeviceLog.note d)) (m, DeviceLog.empty) es
      (m', log)) :
    Matched log (m'.ssi.slot d) ∧ ∀ (k : Nat) (t : Ptr) (v : U32), log.answers[k]? = some (t, v) →
      log.requests[k]? = some t ∧
        ∃ w, log.interrupts[k]? = some w ∧ v &&& statusMask = w &&& statusMask := by
  have hinv := hr.inv_history (I := fun m log => m.Wf ∧ Matched log (m.ssi.slot d))
    (fun m e m' log hs hi => ⟨hi.1.step hs.1, matched_step hi.1 hs.1 hs.2 hi.2⟩)
    ⟨initial_wf h, by simpa [Ssi.slot, h.pc] using Matched.empty⟩
  exact ⟨hinv.2, fun k t v => hinv.2.getElem?⟩

/-- The interrupt of the first printer, with this status. -/
def printerInterrupts (status : U32) : List Event :=
  [.devices (put (put (fun _ => 0) (intBitmap intPrinter) 1) (deviceBaseAddr intPrinter 0) status),
    .interrupt { initTState with cause := 1 <<< (intPrinter + 8) }]

/-- The test thread waits for the printer, and is answered. -/
def printTrace : List Event :=
  Event.ssiCalls 2 ++ Event.ssiRequest waitForIo (deviceBaseAddr intPrinter 0) ++
    Event.ssiCalls 6 ++ printerInterrupts 1 ++ Event.ssiCalls 3

theorem run_of_orderly {s : Machine × DeviceLog} {es : List Event}
    (h : exec (execWith (fireIf (Orderly d)) (DeviceLog.note d)) (m, log) es =
      .ok s) :
    Run (withHistory (OrderlyStep d) (DeviceLog.note d)) (m, log) es s :=
  run_of_execWith (fun _ _ _ => step_of_fireIf) h

theorem rendezvous_matched_print : ∃ m m' : Machine, ∃ log,
    Run (withHistory (OrderlyStep 24) (DeviceLog.note 24)) (m, DeviceLog.empty) printTrace
      (m', log) ∧
    log.answers = [(testThreadAddr, 1)] ∧ Matched log (m'.ssi.slot 24) ∧
    ∀ (k : Nat) (t : Ptr) (v : U32), log.answers[k]? = some (t, v) →
      log.requests[k]? = some t ∧
        ∃ w, log.interrupts[k]? = some w ∧ v &&& statusMask = w &&& statusMask := by
  have hrun : passes (fun m => passes (fun s => s.2.answers = [(testThreadAddr, 1)])
      (exec (execWith (fireIf (Orderly 24)) (DeviceLog.note 24)) (m, DeviceLog.empty)
        printTrace)) (start .zeroed) = true := by
    decide +kernel
  obtain ⟨m, hm, hrun⟩ := exists_of_passes hrun
  obtain ⟨⟨m', log⟩, hs, ha⟩ := exists_of_passes hrun
  have hr := run_of_orderly hs
  exact ⟨m, m', log, hr, of_decide_eq_true ha,
    rendezvous_matched (initial_of_start Kernel.zeroed_powerOn hm) hr⟩

/-- Two interrupts of the printer come before the request for it: the status of the first one is
overwritten, and the request gets the second one. -/
def twoInterruptsTrace : List Event :=
  Event.ssiCalls 2 ++ printerInterrupts 1 ++ printerInterrupts 4 ++
    Event.ssiRequest waitForIo (deviceBaseAddr intPrinter 0) ++ Event.ssiCalls 15

theorem rendezvous_unmatched : ¬ ∀ (m m' : Machine) (es : List Event) d log, m.Initial →
    Run (withHistory Step (DeviceLog.note d)) (m, DeviceLog.empty) es (m', log) →
    ∀ (k : Nat) (t : Ptr) (v : U32), log.answers[k]? = some (t, v) →
      log.requests[k]? = some t ∧
        ∃ w, log.interrupts[k]? = some w ∧ v &&& statusMask = w &&& statusMask := by
  intro hall
  have hrun : passes (fun m => passes (fun s => s.2.answers = [(testThreadAddr, 4)] &&
      s.2.interrupts = [1, 4])
      (exec (execWith fire (DeviceLog.note 24)) (m, DeviceLog.empty)
        twoInterruptsTrace)) (start .zeroed) = true := by
    decide +kernel
  obtain ⟨m, hm, hrun⟩ := exists_of_passes hrun
  obtain ⟨⟨m', log⟩, hs, hlog⟩ := exists_of_passes hrun
  simp only [Bool.and_eq_true, decide_eq_true_eq] at hlog
  obtain ⟨-, w, hw, he⟩ := hall m m' _ 24 log (initial_of_start Kernel.zeroed_powerOn hm)
    (run_of_execWith (fun _ _ _ => step_of_fire) hs) 0 testThreadAddr 4 (by rw [hlog.1]; rfl)
  rw [hlog.2] at hw
  cases hw
  exact absurd he (by decide)

end Machine

end AmiKaya
