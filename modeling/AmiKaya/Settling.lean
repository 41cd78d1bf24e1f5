import AmiKaya.Response

/-! What comes of a message that the SSI has taken: within one round of its calls a request is
answered once, or ends the requester, or is put in a slot. -/
namespace AmiKaya
open Lts

/-- What the SSI has done for the message it is at. -/
structure Round where
  absent : Bool
  service : Option U32
  sent : List (Ptr × U32)
  terminated : List Ptr

def creations : List U32 := [createBrother, createSon]

def specifications : List U32 := [specPrgMgr, specTlbMgr, specSysMgr]

namespace Round

def start : Round := ⟨false, none, [], []⟩

/-- A service has been dispatched, and nothing has been sent for it so far. -/
def opened (v : U32) : Round := ⟨false, some v, [], []⟩

/-- The round after a call of the SSI. -/
def after (r : Round) (s : Ssi) (k : Kernel) : Round :=
  match s.pc with
  | .checkReady => { r with absent := thereIsThread k.readyQueue s.reqThread = null }
  | .checkWait => { r with absent := r.absent && thereIsThread k.waitQueue s.reqThread = null }
  | .serve => opened (s.service k)
  | _ => match s.call k with
    | .msgSend d v => { r with sent := r.sent ++ [(d, v)] }
    | .terminate p => { r with terminated := r.terminated ++ [p] }
    | _ => r

def note (m : Machine) (e : Event) (_ : Machine) (r : Round) : Round :=
  if e.isSsi then r.after m.ssi m.k else r

/-- How a round ends. Two of the ways leave a request without an answer for good: its sender was in
neither of the queues when the SSI looked there, or there was no slot for it. -/
inductive Ends (s : Ssi) : Round → Prop
  | absent (sent : List (Ptr × U32)) (ts : List Ptr) : Ends s ⟨true, none, sent, ts⟩
  | created (v : U32) : v ∈ creations → s.newThread ≠ null →
      Ends s { opened v with sent := [(s.reqThread, s.newThread)] }
  | specified (v : U32) : v ∈ specifications → Ends s { opened v with sent := [(s.reqThread, 0)] }
  | refused (v : U32) : v ∈ specifications → Ends s { opened v with terminated := [s.reqThread] }
  | terminated : Ends s { opened terminateService with terminated := [s.reqThread] }
  | cpuTime (t : U32) : Ends s { opened getCpuTime with sent := [(s.reqThread, t)] }
  | clock (i : Nat) : i < maxThreads - 1 → s.clockTcb i = s.reqThread → Ends s (opened waitForClock)
  | clockFull : (∀ i < maxThreads - 1, s.clockTcb i ≠ null) → Ends s (opened waitForClock)
  | status (v : U32) : Ends s { opened waitForIo with sent := [(s.reqThread, v)] }
  | device (d : Nat) : s.devTcb d = s.reqThread → Ends s (opened waitForIo)
  | noDevice : s.deviceNum = none → Ends s { opened waitForIo with terminated := [s.reqThread] }

/-- What the round is at each program point of the SSI. -/
def Fits (r : Round) (s : Ssi) : Prop :=
  match s.pc with
  | .init => False
  | .recv => r.Ends s
  | .got | .clock _ | .clockClear _ | .interrupt | .interruptClear | .checkReady | .serve =>
    r.service = none
  | .checkWait => r.service = none ∧ r.absent = true
  | .alloc _ => ∃ v ∈ creations, r = opened v
  | .noGood _ => s.newThread = null
  | .readParent | .link _ => s.newThread ≠ null → ∃ v ∈ creations, r = opened v
  | .count _ | .copyState _ | .inherit | .publish | .answerThread =>
    s.newThread ≠ null ∧ ∃ v ∈ creations, r = opened v
  | .spec _ | .specWait _ | .addManager _ | .setManager _ | .answerZero =>
    ∃ v ∈ specifications, r = opened v
  | .terminate => r = opened terminateService ∨ (∃ v ∈ specifications, r = opened v) ∨
      s.deviceNum = none ∧ r = opened waitForIo
  | .cpuTime => r = opened getCpuTime
  | .waitIo => r = opened waitForIo
  | .waitIoClear => ∃ v, r = { opened waitForIo with sent := [(s.reqThread, v)] }

variable {r : Round} {s : Ssi} {k : Kernel} {x : U32}

theorem fits_dispatch (hc : s.pc = .serve) (hp : s.call k ≠ .panic) :
    (opened (s.service k)).Fits (s.dispatch k) := by
  unfold Ssi.dispatch
  dsimp only
  split
  · next h =>
    -- the first free slot, or none
    rw [h]
    unfold Ssi.recordClock
    split
    · next hnone =>
      refine Ends.clockFull fun i hi => ?_
      simpa using List.find?_eq_none.mp hnone i (List.mem_range.mpr hi)
    · next i hi =>
      refine Ends.clock i (List.mem_range.mp (List.mem_of_find?_eq_some hi)) ?_
      simp
  split
  · next h => exact ⟨_, by simp [creations, h], rfl⟩
  split
  · next h => exact ⟨_, by simp [creations, h], rfl⟩
  split
  · next h => exact .inl (congrArg opened h)
  split
  · next h => exact ⟨_, by simp [specifications, h], rfl⟩
  split
  · next h => exact ⟨_, by simp [specifications, h], rfl⟩
  split
  · next h => exact ⟨_, by simp [specifications, h], rfl⟩
  split
  · next h => exact congrArg opened h
  · have hio : s.service k = waitForIo := by
      by_contra hne
      apply hp
      simp [Ssi.call, *]
    exact congrArg opened hio

theorem after_service (hpc : s.pc ≠ .serve) : (r.after s k).service = r.service := by
  cases hc : s.pc <;> simp only [after, hc]
  case serve => exact absurd hc hpc
  all_goals split <;> rfl

/-- The one step of the round: a call from each of the program points. -/
theorem Fits.next (h : r.Fits s) (hpc : s.pc ≠ .recv) (hp : s.call k ≠ .panic)
    (hlink : ∀ c, s.pc = .link c → s.newThread ≠ null) :
    (r.after s k).Fits (s.next k x) := by
  cases hc : s.pc <;> simp only [Fits, hc] at h <;> simp only [Ssi.next, hc]
  case recv => exact absurd hc hpc
  case serve =>
    simp only [after, hc]
    exact fits_dispatch hc hp
  case got | clock | clockClear =>
    have hs : (r.after s k).service = none := (after_service (by simp [hc])).trans h
    repeat' split
    all_goals exact hs
  case interrupt | interruptClear =>
    have hs : (r.after s k).service = none := (after_service (by simp [hc])).trans h
    cases hd : s.deviceNum with
    | none => simpa only [Fits, hc] using hs
    | some d =>
      dsimp only
      repeat' split
      all_goals exact hs
  case checkReady =>
    simp only [after, hc]
    split
    · exact h
    · next hq => exact ⟨h, decide_eq_true (not_not.mp hq)⟩
  case checkWait =>
    simp only [after, hc]
    split
    · exact h.1
    · next hq =>
      simp only [h.1, h.2, not_not.mp hq]
      exact .absent _ _
  case alloc c =>
    simp only [after, Ssi.call, hc]
    split
    · next hx => exact hx
    · cases c
      · exact fun _ => h
      · exact fun _ => h
  case noGood c =>
    cases c
    · exact fun hn => absurd h hn
    · exact fun hn => absurd h hn
  case readParent =>
    simp only [after, Ssi.call, hc]
    exact h
  case link c =>
    have hn := hlink c hc
    have ha : r.after s k = r := by
      cases c
      · by_cases hq : s.parent = null <;> simp only [after, Ssi.call, hc, hq, if_true, if_false]
      · simp only [after, Ssi.call, hc]
    rw [ha]
    exact ⟨hn, h hn⟩
  case copyState c =>
    simp only [after, Ssi.call, hc]
    cases c
    · exact h
    · exact h
  case count | inherit | publish =>
    simp only [after, Ssi.call, hc]
    exact h
  case answerThread =>
    obtain ⟨hn, v, hv, rfl⟩ := h
    simp only [after, Ssi.call, hc]
    exact .created v hv hn
  case terminate =>
    simp only [after, Ssi.call, hc]
    rcases h with rfl | ⟨v, hv, rfl⟩ | ⟨hd, rfl⟩
    · exact .terminated
    · exact .refused v hv
    · exact .noDevice hd
  case spec t | specWait t =>
    simp only [after, Ssi.call, hc]
    repeat' split
    all_goals first | exact h | exact .inr (.inl h)
  case addManager t | setManager t =>
    simp only [after, Ssi.call, hc]
    exact h
  case answerZero =>
    obtain ⟨v, hv, rfl⟩ := h
    simp only [after, Ssi.call, hc]
    exact .specified v hv
  case cpuTime =>
    subst h
    simp only [after, Ssi.call, hc]
    exact .cpuTime _
  case waitIo =>
    subst h
    cases hd : s.deviceNum with
    | none =>
      simp only [after, Ssi.call, hc, hd]
      exact .inr (.inr ⟨rfl, rfl⟩)
    | some d =>
      by_cases hempty : s.devStatus d = devEmpty
      · simp only [after, Ssi.call, hc, hd, hempty, if_true]
        exact Ends.device d (by simp)
      · simp only [after, Ssi.call, hc, hd, hempty, if_false]
        exact ⟨_, rfl⟩
  case waitIoClear =>
    obtain ⟨v, rfl⟩ := h
    cases hd : s.deviceNum with
    | none =>
      simp only [after, Ssi.call, hc]
      simp only [Fits, hc]
      exact ⟨v, rfl⟩
    | some d =>
      simp only [after, Ssi.call, hc]
      exact .status v

end Round

namespace Machine

variable {m m' m₀ : Machine} {e : Event} {es es₀ : List Event} {a : Ptr} {r : Round}

/-- Outside its calls the SSI does not go to sleep. -/
theorem ssi_awake (hw : m.Wf) (hi : m.Apart) (h : m.Step e m') (he : ∀ old, e ≠ .ssi old)
    (hn : m.k.ssiTcb ∉ m.k.waitQueue) : m.k.ssiTcb ∉ m'.k.waitQueue := by
  have hinv := (ops_of_step hw h).inv (I := fun k => Placed k ∧ m.k.ssiTcb ∉ k.waitQueue) ?_
    ⟨hw.placed, hn⟩
  · exact hinv.2
  · rintro k o k' hs ho ⟨hk, hq⟩
    refine ⟨hk.step hs, fun hm => ?_⟩
    rcases wait_cases hk hs hm with hstill | ⟨w, a, r, rfl, -⟩ | ⟨q, rfl, hne, -⟩
    · exact hq hstill.mem
    · obtain ⟨⟨old, rfl⟩, -⟩ := recv_ssi h ho
      exact he old rfl
    · obtain ⟨hcur, hentry⟩ := ho
      obtain ⟨x, hx⟩ := manager_of_entry hentry
      rw [← hcur, hi.unmanaged x] at hx
      exact hne hx.symm

/-- The SSI is awake, and has taken a message of this sender. -/
def Asked (m : Machine) (a : Ptr) : Prop :=
  if m.ssi.pc = .got then
    (m.k.ssiTcb ∈ m.k.readyQueue ∨ m.k.currentThread = m.k.ssiTcb) ∧ m.messageSender = a
  else m.ssi.reqThread = a

theorem asked_other (hw : m.Wf) (hi : m.Apart) (h : m.Step e m') (he : ∀ old, e ≠ .ssi old)
    (hf : m.k.ssiTcb ∉ m'.k.tcbFree) (ha : m.Asked a) : m'.Asked a := by
  have hssi := ssi_other h he
  have htcb := (ops_of_step hw h).ssiTcb
  unfold Asked at ha ⊢
  rw [hssi]
  split
  · next hpc =>
    rw [if_pos hpc] at ha
    obtain ⟨hin, hv⟩ := ha
    have hnw : m.k.ssiTcb ∉ m.k.waitQueue := by
      rcases hin with hr | hc
      · exact (hw.placed.ready_notMem hr).1
      · exact hc ▸ (hw.placed.current_notMem (hc ▸ hw.ssi_ne_null)).2.1
    have hplace : m.k.ssiTcb ∈ m.k.places := by
      rcases hin with hr | hc
      · exact Kernel.mem_places.mpr (.inl hr)
      · exact Kernel.mem_places.mpr (.inr (.inr (.inr ⟨hc.symm, hc ▸ hw.ssi_ne_null⟩)))
    have hsame := samePlaces_of_step hw h (entry_of_not_ssi he).1 (entry_of_not_ssi he).2
    rw [messageSender, htcb]
    refine ⟨?_, (got_kept hw hi h he hpc hin hf).trans hv⟩
    rcases Kernel.mem_places.mp (hsame.mem_iff.mpr hplace) with hr | hm | hfree | ⟨hc, -⟩
    · exact .inl hr
    · exact absurd hm (ssi_awake hw hi h he hnw)
    · exact absurd hfree hf
    · exact .inr hc.symm
  · next hpc =>
    rwa [if_neg hpc] at ha

theorem asked_ssi {old : State} (h : m.Step (.ssi old) m') (hpc : m.ssi.pc ≠ .recv)
    (ha : m.Asked a) : m'.Asked a := by
  obtain ⟨r, -, hssi⟩ := ssi_step h
  unfold Asked at ha ⊢
  by_cases hgot : m.ssi.pc = .got
  · have hpc' : m'.ssi.pc ≠ .got := by
      rw [hssi, ClockLog.next_got hgot]
      dsimp only
      repeat' split
      all_goals simp
    rw [if_pos hgot] at ha
    rw [if_neg hpc', hssi, Ssi.next_of_got hgot]
    exact ha.2
  · have hpc' : m'.ssi.pc ≠ .got := by
      rw [hssi]
      exact (Ssi.next_pc hpc).resolve_right hgot
    rw [if_neg hgot] at ha
    rw [if_neg hpc', hssi, Ssi.next_reqThread hgot]
    exact ha

/-- A step of a round, which ends when the SSI is back at its receive. -/
def RoundStep (s : Machine × Round) (e : Event) (t : Machine × Round) : Prop :=
  s.1.ssi.pc ≠ .recv ∧ withHistory Step Round.note s e t

/-- In a step of a round the SSI gets nearer to its end with each call. -/
theorem fits_step (hs : m.ssi.Sited) (h : m.Step e m') (hpc : m.ssi.pc ≠ .recv)
    (hr : r.Fits m.ssi) : (r.note m e m').Fits m'.ssi ∧
      m'.ssi.pc.left + (if e.isSsi then 1 else 0) ≤ m.ssi.pc.left := by
  rcases step_cases h with ⟨hssi, hne⟩ | ⟨old, x, rfl, -, hperf, hssi⟩
  · have hcalls := Event.isSsi_eq_false hne
    rw [hssi]
    simp only [Round.note, hcalls, Bool.false_eq_true, if_false]
    exact ⟨hr, le_rfl⟩
  · obtain ⟨hpanic, hfault⟩ := Kernel.call_of_perform hperf
    have hlink : ∀ c, m.ssi.pc = .link c → m.ssi.newThread ≠ null := fun _ hc =>
      linked_ne_null hc hperf
    rw [hssi]
    exact ⟨hr.next hpc hpanic hlink, Ssi.next_left hs hpc hfault⟩

/-- The round ends, or it bounds the calls: by induction on the run. -/
theorem round_run (hr : Run Step m es m') (hw : m.Wf) (hi : m.Apart) (hs : m.ssi.Sited)
    (ha : m.Asked a) (hfit : r.Fits m.ssi) :
    (∃ es₁ es₂ m₁ r₁, es = es₁ ++ es₂ ∧ Run RoundStep (m, r) es₁ (m₁, r₁) ∧ Run Step m₁ es₂ m' ∧
      es₁.countP Event.isSsi ≤ m.ssi.pc.left ∧
      (m₁.ssi.pc = .recv ∧ m₁.ssi.reqThread = a ∧ r₁.Ends m₁.ssi ∨
        m.k.ssiTcb ∈ m₁.k.tcbFree)) ∨ es.countP Event.isSsi ≤ m.ssi.pc.left := by
  induction hr generalizing r with
  | refl => exact .inr (Nat.zero_le _)
  | @stepL m e m₁ es m' h hrest ih =>
    by_cases hpc : m.ssi.pc = .recv
    · refine .inl ⟨[], e :: es, m, r, rfl, .refl, .stepL h hrest, Nat.zero_le _, .inl ⟨hpc, ?_, ?_⟩⟩
      · simpa [Asked, hpc] using ha
      · simpa [Round.Fits, hpc] using hfit
    · obtain ⟨hfit', hleft⟩ := fits_step hs h hpc hfit
      have hstep : RoundStep (m, r) e (m₁, r.note m e m₁) := ⟨hpc, h, rfl⟩
      by_cases hf : m.k.ssiTcb ∈ m₁.k.tcbFree
      · refine .inl ⟨[e], es, m₁, _, rfl, .single hstep, hrest, ?_, .inr hf⟩
        rw [List.countP_singleton]
        omega
      · have ha' : m₁.Asked a := by
          rcases step_cases h with ⟨-, he⟩ | ⟨old, x, rfl, -⟩
          · exact asked_other hw hi h he hf ha
          · exact asked_ssi h hpc ha
        rcases ih (hw.step h) (hi.step hw h) (sited_step hs h) ha' hfit' with
          ⟨es₁, es₂, m₂, r₂, rfl, hr₁, hr₂, hcount, hend⟩ | hcount
        · rw [(ops_of_step hw h).ssiTcb] at hend
          refine .inl ⟨e :: es₁, es₂, m₂, r₂, rfl, .stepL hstep hr₁, hr₂, ?_, hend⟩
          rw [List.countP_cons]
          omega
        · right
          rw [List.countP_cons]
          omega

/-- In every run, when the SSI has taken a message it is back at its receive within a round of
calls, unless it dies, and what it has done until then is one of the ends. -/
theorem requests_settled (hm : m₀.Initial) (hr₀ : Run Step m₀ es₀ m) (hpc : m.ssi.pc = .got)
    (ha : a ∈ m.requester) (hr : Run Step m es m') (hn : roundCalls ≤ es.countP Event.isSsi) :
    ∃ es₁ es₂ m₁ r, es = es₁ ++ es₂ ∧ Run RoundStep (m, .start) es₁ (m₁, r) ∧ Run Step m₁ es₂ m' ∧
      es₁.countP Event.isSsi < roundCalls ∧
      (m₁.ssi.pc = .recv ∧ m₁.ssi.reqThread = a ∧ r.Ends m₁.ssi ∨
        m.k.ssiTcb ∈ m₁.k.tcbFree) := by
  have hsited : m₀.ssi.Sited := fun hpc => by simp [hm.pc] at hpc
  obtain ⟨hw, hi, hs⟩ := hr₀.inv (I := fun m => m.Wf ∧ m.Apart ∧ m.ssi.Sited)
    (fun _ _ _ h hi => ⟨hi.1.step h, hi.2.1.step hi.1 h, sited_step hi.2.2 h⟩)
    ⟨initial_wf hm, initial_apart hm, hsited⟩
  have hasked : m.Asked a := by
    obtain ⟨hin, hq⟩ := mem_requester.mp ha
    rw [Asked, if_pos hpc]
    rcases hq with ⟨-, rfl⟩ | ⟨hne, -⟩
    · exact ⟨hin, rfl⟩
    · exact absurd hpc hne
  have hfit : Round.start.Fits m.ssi := by
    simp only [Round.Fits, hpc]
    rfl
  have hleft := m.ssi.pc.left_lt
  rcases round_run hr hw hi hs hasked hfit with ⟨es₁, es₂, m₁, r, he, hr₁, hr₂, hcount, hend⟩ | hle
  · exact ⟨es₁, es₂, m₁, r, he, hr₁, hr₂, by omega, hend⟩
  · omega

/-- The test thread sends requests for the next tick, and the SSI takes the first. -/
theorem requests_settled_clock : ∃ m₀ m m' : Machine, m₀.Initial ∧
    Run Step m₀ ((clockRequests 11).take 15) m ∧ m.ssi.pc = .got ∧
    ∃ es₁ es₂ m₁ r, (clockRequests 11).drop 15 = es₁ ++ es₂ ∧
      Run RoundStep (m, .start) es₁ (m₁, r) ∧ Run Step m₁ es₂ m' ∧
      es₁.countP Event.isSsi < roundCalls ∧
      (m₁.ssi.pc = .recv ∧ m₁.ssi.reqThread = testThreadAddr ∧ r.Ends m₁.ssi ∨
        m.k.ssiTcb ∈ m₁.k.tcbFree) := by
  have hrun : passes (fun m₀ => passes (fun m => m.ssi.pc = .got &&
        decide (m.requester = some testThreadAddr) &&
        passes (fun _ => true) (exec fire m ((clockRequests 11).drop 15)))
      (exec fire m₀ ((clockRequests 11).take 15))) (start .zeroed) = true := by
    decide +kernel
  obtain ⟨m₀, hm, hrun⟩ := exists_of_passes hrun
  obtain ⟨m, hs, hrun⟩ := exists_of_passes hrun
  simp only [Bool.and_eq_true, decide_eq_true_eq] at hrun
  obtain ⟨⟨hpc, ha⟩, hrun⟩ := hrun
  obtain ⟨m', hs', -⟩ := exists_of_passes hrun
  have hi := initial_of_start Kernel.zeroed_powerOn hm
  have hr₀ : Run Step m₀ _ m := (run_of_exec hs).mono fun _ _ _ => step_of_fire
  have hr : Run Step m _ m' := (run_of_exec hs').mono fun _ _ _ => step_of_fire
  have hn : roundCalls ≤ ((clockRequests 11).drop 15).countP Event.isSsi := by decide
  exact ⟨m₀, m, m', hi, hr₀, hpc, requests_settled hi hr₀ hpc ha hr hn⟩

end Machine

end AmiKaya
