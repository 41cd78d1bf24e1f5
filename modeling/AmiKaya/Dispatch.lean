import AmiKaya.Runs

/-! The first dispatch of the SSI: which messages get the treatment of an interrupt, and with which
indices the two device arrays are used. -/
namespace AmiKaya
open Lts

/-- The identities of the timer and of the device registers the SSI knows. -/
def interruptSenders : List Ptr := busIntervalTimer :: restTable

theorem restIndex_none {dev : Ptr} : restIndex dev = none ↔ dev ∉ restTable := by
  simp only [restIndex, List.findIdx?_eq_none_iff, decide_eq_false_iff_not]
  exact ⟨fun h hm => h dev hm rfl, fun h x hx he => h (he ▸ hx)⟩

theorem restIndex_lt {dev : Ptr} {d : Nat} (h : restIndex dev = some d) : d < 48 := by
  have hlen : restTable.length = 48 := by decide
  obtain ⟨hlt, -⟩ := List.findIdx?_eq_some_iff_getElem.mp h
  omega

/-- The branches of PSEUDOCLOCK_MSG and INTERRUPT_MSG. -/
def SsiPc.takesInterrupt : SsiPc → Bool
  | .clock _ | .clockClear _ | .interrupt | .interruptClear => true
  | _ => false

namespace Ssi

/-- The indices used on `devStatus_array` and `devTcb_array` at a program point; none is -1. -/
def indices (s : Ssi) : List (Option Nat) :=
  match s.pc with
  | .interrupt | .interruptClear | .waitIoClear => [s.deviceNum]
  -- WAITFORIO looks at the index first and terminates the requester
  | .waitIo => if s.deviceNum = none then [] else [s.deviceNum]
  | _ => []

/-- The index exists. -/
def InRange (i : Option Nat) : Prop := ∃ d < 48, i = some d

/-- Interrupt messages come from the interrupt handler, and no index is out of the arrays. -/
structure Guarded (s : Ssi) : Prop where
  sender : s.pc.takesInterrupt = true → s.reqThread ∈ interruptSenders
  index : ∀ i ∈ s.indices, InRange i

theorem inRange_restIndex {dev : Ptr} : InRange (restIndex dev) ↔ dev ∈ restTable := by
  constructor
  · rintro ⟨d, -, hd⟩
    by_contra hn
    rw [restIndex_none.mpr hn] at hd
    cases hd
  · intro hm
    cases hd : restIndex dev with
    | none => exact absurd hm (restIndex_none.mp hd)
    | some d => exact ⟨d, restIndex_lt hd, rfl⟩

theorem Guarded.of_neither {s : Ssi} (hp : s.pc.takesInterrupt = false) (hi : s.indices = []) :
    s.Guarded := ⟨by simp [hp], by simp [hi]⟩

theorem guarded_dispatch (s : Ssi) (k : Kernel) : (s.dispatch k).Guarded := by
  have hio : ({ s with pc := .waitIo, deviceNum := restIndex (s.arg k) } : Ssi).Guarded := by
    refine ⟨by simp [SsiPc.takesInterrupt], fun i hi => ?_⟩
    simp only [indices] at hi
    split at hi
    · cases hi
    · next hn =>
      rw [List.mem_singleton.mp hi, inRange_restIndex]
      by_contra hm
      exact hn (restIndex_none.mpr hm)
  unfold dispatch
  dsimp only
  repeat' split
  all_goals first | exact hio | exact .of_neither rfl rfl

/-- Past the first dispatch nothing new is taken for an interrupt, and the index stays the same. -/
theorem Guarded.next {s : Ssi} {k : Kernel} {r : U32} (h : s.Guarded) (hpc : s.pc ≠ .got) :
    (s.next k r).Guarded := by
  obtain ⟨hs, hi⟩ := h
  cases hpc' : s.pc <;> simp only [indices, hpc', SsiPc.takesInterrupt] at hs hi
  case got => exact absurd hpc' hpc
  case serve =>
    simp only [Ssi.next, hpc']
    exact guarded_dispatch s k
  case interrupt =>
    obtain ⟨d, hd, hn⟩ := hi s.deviceNum (by simp)
    simp only [Ssi.next, hpc', hn]
    split
    · exact .of_neither rfl rfl
    · refine ⟨fun _ => hs trivial, fun i hm => ?_⟩
      rw [List.mem_singleton.mp hm]
      exact ⟨d, hd, rfl⟩
  case waitIo =>
    cases hn : s.deviceNum with
    | none =>
      simp only [Ssi.next, hpc', hn]
      exact .of_neither rfl rfl
    | some d =>
      simp only [Ssi.next, hpc', hn]
      split
      · exact .of_neither rfl rfl
      · refine ⟨by simp [SsiPc.takesInterrupt], ?_⟩
        simpa [indices, hn, hpc'] using hi
  case alloc c =>
    cases c <;> simp only [Ssi.next, hpc', Create.linkPc] <;> split <;> exact .of_neither rfl rfl
  case noGood c | copyState c =>
    cases c <;> simp only [Ssi.next, hpc', Create.linkPc] <;> exact .of_neither rfl rfl
  all_goals
    simp only [Ssi.next, hpc']
    repeat' split
    all_goals
      refine ⟨?_, ?_⟩ <;> simp_all [SsiPc.takesInterrupt, indices]

end Ssi

namespace Machine

/-- The identity the SSI reads as the sender of the message it has just received. -/
def messageSender (m : Machine) : Ptr := (m.k.tcb m.k.ssiTcb).tState.regV0

/-- The service word of an interrupt message was not put in the request of a thread. -/
def Genuine (m : Machine) : Event → Prop
  | .ssi _ => m.ssi.pc = .got →
      (m.ssi.service m.k = pseudoClockMsg → m.messageSender ∈ interruptSenders) ∧
        (m.ssi.service m.k = interruptMsg → m.messageSender ∈ restTable)
  | _ => True

instance (m : Machine) : (e : Event) → Decidable (m.Genuine e)
  | .ssi _ => inferInstanceAs (Decidable (_ → (_ → _) ∧ (_ → _)))
  | .sysbp _ | .pgmtrap _ | .tlb _ | .interrupt _ | .devices _ | .store _ _ | .edit _ _ =>
    inferInstanceAs (Decidable True)

variable {m m' : Machine} {e : Event}

/-- The first dispatch goes right exactly for the genuine messages. -/
theorem guarded_got {r : U32} (hpc : m.ssi.pc = .got) (old : State) :
    (m.ssi.next m.k r).Guarded ↔ m.Genuine (.ssi old) := by
  have hne : interruptMsg ≠ pseudoClockMsg := by decide
  have hsub : ∀ p ∈ restTable, p ∈ interruptSenders := fun p hp => List.mem_cons_of_mem _ hp
  have hserv : ({ m.ssi with reqThread := m.messageSender } : Ssi).service m.k =
      m.ssi.service m.k := rfl
  simp only [Genuine, hpc, forall_true_left]
  unfold Ssi.next
  rw [hpc]
  change (if ({ m.ssi with reqThread := m.messageSender } : Ssi).service m.k = _ then _ else
    if ({ m.ssi with reqThread := m.messageSender } : Ssi).service m.k = _ then _ else _ :
      Ssi).Guarded ↔ _
  rw [hserv]
  by_cases hclock : m.ssi.service m.k = pseudoClockMsg
  · simp only [hclock, if_true, forall_true_left, hne.symm, false_implies, and_true]
    exact ⟨fun h => h.sender rfl, fun h => ⟨fun _ => h, by simp [Ssi.indices]⟩⟩
  · by_cases hint : m.ssi.service m.k = interruptMsg
    · simp only [hint, hne, if_true, if_false, forall_true_left, false_implies, true_and]
      constructor
      · intro h
        exact Ssi.inRange_restIndex.mp (h.index _ List.mem_cons_self)
      · intro h
        refine ⟨fun _ => hsub _ h, fun i hi => ?_⟩
        rw [List.mem_singleton.mp hi]
        exact Ssi.inRange_restIndex.mpr h
    · simp only [hclock, hint, if_false, false_implies, and_self, iff_true]
      exact .of_neither rfl rfl

theorem guarded_step (h : m.Step e m') (hg : m.ssi.Guarded) : m'.ssi.Guarded ↔ m.Genuine e := by
  rcases step_cases h with ⟨hs, hne⟩ | ⟨old, r, rfl, -, -, hs⟩
  · rw [hs]
    have hgen : m.Genuine e := by
      cases e with
      | ssi old => exact absurd rfl (hne old)
      | sysbp | pgmtrap | tlb | interrupt | devices | store | edit => trivial
    exact ⟨fun _ => hgen, fun _ => hg⟩
  · rw [hs]
    by_cases hpc : m.ssi.pc = .got
    · exact guarded_got hpc old
    · exact ⟨fun _ hgot => absurd hgot hpc, fun _ => hg.next hpc⟩

/-- A run never handles a message as an interrupt by mistake, and never leaves the device arrays,
exactly when every message the SSI dispatches in it is genuine. -/
theorem guarded_iff_genuine {es : List Event} (h : m.Initial) :
    Run (fun m e m' => m.Step e m' ∧ m'.ssi.Guarded) m es m' ↔
      Run (fun m e m' => m.Step e m' ∧ m.Genuine e) m es m' := by
  have hg : m.ssi.Guarded := .of_neither (by simp [h.pc, SsiPc.takesInterrupt])
    (by simp [Ssi.indices, h.pc])
  exact Run.keeps_iff (I := fun m : Machine => m.ssi.Guarded) (J := fun _ => True)
    (P := fun (m : Machine) e _ => m.Genuine e) (fun _ _ _ _ _ => trivial)
    (fun _ _ _ hs _ => guarded_step hs) trivial hg

/-- The test thread asks for its processor time, and the SSI answers. -/
def cpuTimeTrace : List Event :=
  Event.ssiCalls 2 ++ Event.ssiRequest getCpuTime 0 ++ Event.ssiCalls 5

theorem guarded_iff_genuine_cpuTime : ∃ m m' : Machine,
    Run (fun m e m' => m.Step e m' ∧ m'.ssi.Guarded) m cpuTimeTrace m' := by
  have hrun : passes (fun m => passes (fun _ => true)
      (exec (guarded (fun m e _ => m.Genuine e) Stop.fault fire) m cpuTimeTrace))
      (start .zeroed) = true := by
    decide +kernel
  obtain ⟨m, hm, hrun⟩ := exists_of_passes hrun
  obtain ⟨m', hs, -⟩ := exists_of_passes hrun
  have hr : Run (fun m e m' => m.Step e m' ∧ m.Genuine e) m cpuTimeTrace m' :=
    (run_of_exec hs).mono fun _ _ _ h => ⟨step_of_fire (of_guarded h).1, (of_guarded h).2⟩
  exact ⟨m, m', (guarded_iff_genuine (initial_of_start Kernel.zeroed_powerOn hm)).mpr hr⟩

/-- The test thread asks for service 255: the SSI takes its request for a device interrupt, and
the index it gets for the TCB is -1. -/
def forgedTrace : List Event :=
  Event.ssiCalls 2 ++ Event.ssiRequest interruptMsg 0 ++ Event.ssiCalls 1

theorem guarded_fails : ¬ ∀ (m m' : Machine) (es : List Event), m.Initial → Run Step m es m' →
    m'.ssi.Guarded := by
  intro hall
  have hrun : passes (fun m => passes (fun m => m.ssi.pc = .interrupt && m.ssi.deviceNum = none)
      (exec fire m forgedTrace)) (start .zeroed) = true := by
    decide +kernel
  obtain ⟨m, hm, hrun⟩ := exists_of_passes hrun
  obtain ⟨m', hs, hpc⟩ := exists_of_passes hrun
  simp only [Bool.and_eq_true, decide_eq_true_eq] at hpc
  have hr : Run Step m forgedTrace m' := (run_of_exec hs).mono fun _ _ _ => step_of_fire
  have hg := hall m m' _ (initial_of_start Kernel.zeroed_powerOn hm) hr
  obtain ⟨d, -, hd⟩ := hg.index m'.ssi.deviceNum (by simp [Ssi.indices, hpc.1])
  rw [hpc.2] at hd
  cases hd

end Machine

end AmiKaya
