import AmiKaya.Acknowledge
import AmiKaya.Clock
import AmiKaya.Readings
import AmiKaya.SliceTimer

/-! The interval timer from an interrupt of line 2 to the next thread on the processor, or to the
wait for the next interrupt. -/
namespace AmiKaya
open Lts

namespace Kernel

variable {k k' : Kernel} {x : U32}

/-- The timer counts, and runs out no later than the pseudo clock is due; within a microsecond, if
it is due already. -/
structure TimerInTime (k : Kernel) : Prop where
  positive : 0 < k.intervalTimer.toNat
  deadline : k.intervalTimer.toNat ≤
    (if schedPseudoClock ≤ k.pseudoTick then 1
      else schedPseudoClock.toNat - k.pseudoTick.toNat) * k.timescale.toNat

/-! What the timer held before is not read by the handler. -/

def withTimer (k : Kernel) (x : U32) : Kernel := { k with intervalTimer := x }

theorem enqueue_withTimer (s t : Ptr) (v : U32) :
    (k.withTimer x).enqueue s t v = (k.enqueue s t v).map (·.withTimer x) := by
  unfold enqueue allocMsg
  simp only [withTimer]
  cases k.msgFree <;> rfl

theorem deliver_withTimer (s t : Ptr) (v : U32) :
    (k.withTimer x).deliver s t v = (k.deliver s t v).map (·.withTimer x) := by
  unfold deliver storeWord
  by_cases ha : (k.tcb t).reply.toNat % 4 = 0
  · rw [if_pos ha, if_pos (show ((k.withTimer x).tcb t).reply.toNat % 4 = 0 from ha)]
    by_cases hs : s = k.ssiTcb
    · simp only [withTimer, setTcb, bind, Except.bind, Except.map, hs, if_true]
    · simp only [withTimer, setTcb, bind, Except.bind, Except.map, hs, if_false]
  · rw [if_neg ha, if_neg (show ¬ ((k.withTimer x).tcb t).reply.toNat % 4 = 0 from ha)]
    rfl

theorem send_withTimer (s t : Ptr) (v : U32) :
    (k.withTimer x).send s t v = (k.send s t v).map fun r => (r.1, r.2.withTimer x) := by
  unfold send
  dsimp only
  have henq : ∀ y : Except Stop Kernel, (do let k ← y.map (·.withTimer x); .ok (msgGood, k)) =
      (do let k ← y; .ok (msgGood, k) : Except Stop (U32 × Kernel)).map
        fun r => (r.1, r.2.withTimer x) := by
    intro y
    cases y <;> rfl
  rw [show (k.withTimer x).senderId s = k.senderId s from rfl,
    show (k.withTimer x).awaits t (k.senderId s) = k.awaits t (k.senderId s) from rfl,
    show (k.withTimer x).readyQueue = k.readyQueue from rfl,
    show (k.withTimer x).waitQueue = k.waitQueue from rfl,
    show (k.withTimer x).currentThread = k.currentThread from rfl,
    enqueue_withTimer, deliver_withTimer, henq, henq]
  by_cases hr : thereIsThread k.readyQueue t ≠ null ∨ k.currentThread = t
  · rw [if_pos hr, if_pos hr]
  · rw [if_neg hr, if_neg hr]
    by_cases hw : thereIsThread k.waitQueue t ≠ null
    · rw [if_pos hw, if_pos hw]
      split <;> rfl
    · rw [if_neg hw, if_neg hw]
      rfl

theorem notifySsi_withTimer {s : Ptr} (h : k.notifySsi s = .ok k') :
    (k.withTimer x).notifySsi s = .ok (k'.withTimer x) := by
  obtain ⟨r, h₁, h₂⟩ := bind_eq_ok.mp h
  refine bind_eq_ok.mpr ⟨(r.1, r.2.withTimer x), ?_, ?_⟩
  · have hsend := send_withTimer (k := k) (x := x) s k.ssiTcb (interruptMsgSlot k.intIndex)
    rw [h₁] at hsend
    exact hsend
  · split at h₂
    · cases h₂
    · cases h₂
      rw [if_neg ‹_›]

theorem pseudoClockTick_withTimer (h : k.pseudoClockTick = .ok k') :
    (k.withTimer x).pseudoClockTick = .ok (k'.withTimer x) := by
  unfold pseudoClockTick at h ⊢
  by_cases hd : schedPseudoClock ≤ k.pseudoTick
  · rw [if_pos hd] at h
    rw [if_pos (show schedPseudoClock ≤ (k.withTimer x).pseudoTick from hd)]
    obtain ⟨k₁, h₁, h₂⟩ := bind_eq_ok.mp h
    cases h₂
    exact bind_eq_ok.mpr ⟨k₁.withTimer x, notifySsi_withTimer (k := k.fillSlot _ _) h₁, rfl⟩
  · rw [if_neg hd] at h
    rw [if_neg (show ¬ schedPseudoClock ≤ (k.withTimer x).pseudoTick from hd)]
    cases h
    rfl

/-- The slice of the current thread is over. -/
def SliceOver (k : Kernel) : Prop :=
  k.currentThread ≠ null ∧ schedTimeSlice ≤ (k.tcb k.currentThread).cpuSlice

theorem sliceEnd_of_over (h : k.SliceOver) : k.sliceEnd =
    { k with readyQueue := insertThread k.readyQueue k.currentThread, currentThread := null } :=
  if_pos h

theorem sliceEnd_of_left (h : ¬ k.SliceOver) : k.sliceEnd =
    { k with intervalTimer := schedPseudoClock - k.pseudoTick * k.timescale } :=
  if_neg h

/-- `int_handler` loads the timer, or the current thread goes back to the ready queue. -/
theorem sliceEnd_withTimer : (k.withTimer x).sliceEnd = k.sliceEnd ∨
    (k.withTimer x).sliceEnd = k.sliceEnd.withTimer x ∧ k.sliceEnd.readyQueue ≠ [] := by
  by_cases hs : k.SliceOver
  · right
    rw [sliceEnd_of_over hs, sliceEnd_of_over (k := k.withTimer x) hs]
    exact ⟨rfl, by simp [insertThread]⟩
  · left
    rw [sliceEnd_of_left hs, sliceEnd_of_left (k := k.withTimer x) hs]
    rfl

/-- The scheduler loads the timer, unless it waits. -/
theorem scheduler_withTimer (h : k.currentThread ≠ null ∨ k.readyQueue ≠ []) :
    (k.withTimer x).scheduler = k.scheduler := by
  unfold scheduler
  by_cases hc : k.currentThread = null
  · rw [if_pos hc, if_pos (show (k.withTimer x).currentThread = null from hc)]
    cases hq : k.readyQueue with
    | nil => exact absurd hq (h.resolve_left fun hn => hn hc)
    | cons p rest =>
      rw [show (k.withTimer x).readyQueue = p :: rest from hq]
      rfl
  · rw [if_neg hc, if_neg (show ¬ (k.withTimer x).currentThread = null from hc)]
    rfl

/-! What is loaded. -/

variable {ts : U32}

theorem setTimer_inTime {slice : U32} (hs : 0 < slice.toNat) (hts : 0 < k.timescale.toNat)
    (hfit : schedPseudoClock.toNat * k.timescale.toNat < 2 ^ 32) :
    (k.setTimer slice).TimerInTime := by
  have htimer := setTimer_timer k slice
  have hp : (k.setTimer slice).pseudoTick = k.pseudoTick := by
    unfold setTimer
    split <;> rfl
  have hscale : (k.setTimer slice).timescale = k.timescale := by
    unfold setTimer
    split <;> rfl
  by_cases hd : schedPseudoClock ≤ k.pseudoTick
  · rw [if_pos hd] at htimer
    refine ⟨by rwa [htimer], ?_⟩
    rw [htimer, hp, hscale, if_pos hd, Nat.one_mul]
  · rw [if_neg hd] at htimer
    have hlt := BitVec.lt_def.mp (BitVec.not_le.mp hd)
    have hsub : (schedPseudoClock - k.pseudoTick).toNat =
        schedPseudoClock.toNat - k.pseudoTick.toNat :=
      BitVec.toNat_sub_of_le (BitVec.le_of_lt (BitVec.not_le.mp hd))
    have hmin : (minU32 slice (schedPseudoClock - k.pseudoTick)).toNat =
        min slice.toNat (schedPseudoClock.toNat - k.pseudoTick.toNat) := by
      rw [← hsub]
      unfold minU32
      split
      · next h => exact (Nat.min_eq_left (Nat.le_of_lt (BitVec.lt_def.mp h))).symm
      · next h => exact (Nat.min_eq_right (BitVec.le_def.mp (BitVec.not_lt.mp h))).symm
    have hpos : 0 < min slice.toNat (schedPseudoClock.toNat - k.pseudoTick.toNat) := by omega
    have hle : min slice.toNat (schedPseudoClock.toNat - k.pseudoTick.toNat) *
        k.timescale.toNat ≤ schedPseudoClock.toNat * k.timescale.toNat :=
      Nat.mul_le_mul_right _ (by omega)
    have hload : (k.setTimer slice).intervalTimer.toNat =
        min slice.toNat (schedPseudoClock.toNat - k.pseudoTick.toNat) * k.timescale.toNat := by
      rw [htimer, BitVec.toNat_mul, hmin, Nat.mod_eq_of_lt (by omega)]
    refine ⟨?_, ?_⟩
    · rw [hload]
      exact Nat.mul_pos hpos hts
    · rw [hload, hp, hscale, if_neg hd]
      exact Nat.mul_le_mul_right _ (Nat.min_le_right _ _)

/-- Without brackets around the argument of `SET_IT` the load is in time only while the product with
the timescale stays below the constant. -/
theorem unbracketed_inTime_iff {p : U32} (hp : p < schedPseudoClock) (hts : 0 < ts.toNat)
    (hfit : schedPseudoClock.toNat * ts.toNat < 2 ^ 32) :
    (0 < (schedPseudoClock - p * ts).toNat ∧ (schedPseudoClock - p * ts).toNat ≤
      (schedPseudoClock.toNat - p.toNat) * ts.toNat) ↔
      p.toNat * ts.toNat < schedPseudoClock.toNat := by
  have hlt := BitVec.lt_def.mp hp
  have hprod : p.toNat * ts.toNat < schedPseudoClock.toNat * ts.toNat :=
    Nat.mul_lt_mul_of_pos_right hlt hts
  have hone : schedPseudoClock.toNat * 1 ≤ schedPseudoClock.toNat * ts.toNat :=
    Nat.mul_le_mul_left _ hts
  have hmul : (p * ts).toNat = p.toNat * ts.toNat := by
    rw [BitVec.toNat_mul, Nat.mod_eq_of_lt (by omega)]
  have hclock : schedPseudoClock.toNat = 100000 := rfl
  rw [Nat.sub_mul, BitVec.toNat_sub, hmul]
  omega

/-- A thread goes on the processor. -/
theorem scheduler_inTime (h : k.scheduler = .ok k')
    (hrun : k.currentThread ≠ null ∨ k.readyQueue ≠ [])
    (hslice : k.currentThread ≠ null → k.usedSlice < schedTimeSlice)
    (hts : 0 < k.timescale.toNat)
    (hfit : schedPseudoClock.toNat * k.timescale.toNat < 2 ^ 32) : k'.TimerInTime := by
  unfold scheduler at h
  by_cases hc : k.currentThread = null
  · rw [if_pos hc] at h
    cases hq : k.readyQueue with
    | nil => exact absurd hq (hrun.resolve_left fun hn => hn hc)
    | cons p rest =>
      rw [hq] at h
      cases h
      let k₁ := { k with currentThread := p, readyQueue := rest }.updatePseudoTick.resetSlice.startTod
      have hload : (k₁.setTimer schedTimeSlice).TimerInTime := setTimer_inTime (by decide) hts hfit
      exact ⟨hload.positive, hload.deadline⟩
  · rw [if_neg hc] at h
    cases h
    have hlt := BitVec.lt_def.mp (hslice hc)
    have hused : (k.updatePseudoTick.startTod.tcb k.updatePseudoTick.startTod.currentThread).cpuSlice =
        k.usedSlice := by
      simp only [startTod, updatePseudoTick, readTodlow, usedSlice]
    have hrest : 0 < (schedTimeSlice - (k.updatePseudoTick.startTod.tcb
        k.updatePseudoTick.startTod.currentThread).cpuSlice).toNat := by
      rw [hused, sub_toNat_of_le (BitVec.le_of_lt (hslice hc))]
      omega
    have hscale : k.updatePseudoTick.startTod.timescale = k.timescale := by
      simp only [startTod, updatePseudoTick, readTodlow]
    rw [← hscale] at hts hfit
    have hload := setTimer_inTime hrest hts hfit
    exact ⟨hload.positive, hload.deadline⟩

/-! An interrupt of line 2, up to the call of the scheduler. -/

theorem intEnter_withTimer (old : State) :
    (k.withTimer x).intEnter old = (k.intEnter old).withTimer x := by
  by_cases hc : k.currentThread ≠ null
  · rw [intEnter, intEnter, if_pos hc, if_pos (show (k.withTimer x).currentThread ≠ null from hc)]
    rfl
  · rw [intEnter, intEnter, if_neg hc, if_neg (show ¬ (k.withTimer x).currentThread ≠ null from hc)]

theorem updatePseudoTick_withTimer :
    (k.withTimer x).updatePseudoTick = k.updatePseudoTick.withTimer x := rfl

def advanceIndex (k : Kernel) : Kernel := { k with intIndex := (k.intIndex + 1) % 48 }

theorem intHandler_timer {old : State} (hline : causeIpGet old.cause intTimer = true) :
    k.intHandler old = .ok k' ↔ ∃ k₁, (k.intEnter old).updatePseudoTick.pseudoClockTick = .ok k₁ ∧
      k₁.sliceEnd.advanceIndex.scheduler = .ok k' := by
  have hlines : ∀ k : Kernel, k.lineInterrupt old.cause = k.timerInterrupt := fun k => if_pos hline
  constructor
  · intro h
    obtain ⟨k₄, hbody, hsched⟩ := bind_eq_ok.mp h
    obtain ⟨k₃, ht, h₄⟩ := bind_eq_ok.mp hbody
    rw [hlines] at ht
    obtain ⟨k₁, htick, h₃⟩ := bind_eq_ok.mp ht
    cases h₄
    cases h₃
    exact ⟨k₁, htick, hsched⟩
  · rintro ⟨k₁, htick, hsched⟩
    have ht : (k.intEnter old).timerInterrupt = .ok k₁.sliceEnd := bind_eq_ok.mpr ⟨k₁, htick, rfl⟩
    rw [← hlines] at ht
    exact bind_eq_ok.mpr ⟨_, bind_eq_ok.mpr ⟨_, ht, rfl⟩, hsched⟩

theorem pseudoClockTick_cases (h : k.pseudoClockTick = .ok k') :
    k'.timescale = k.timescale ∧ k'.currentThread = k.currentThread ∧
      (k.pseudoTick < schedPseudoClock ∧ k' = k ∨
        schedPseudoClock ≤ k.pseudoTick ∧ k'.pseudoTick = 0) := by
  have htimes := times_pseudoClockTick h
  unfold pseudoClockTick at h
  by_cases hd : schedPseudoClock ≤ k.pseudoTick
  · rw [if_pos hd] at h
    obtain ⟨k₁, hn, h₂⟩ := bind_eq_ok.mp h
    cases h₂
    have hscale := congrArg Times.timescale (times_notifySsi hn)
    obtain ⟨r, hs, h₁⟩ := bind_eq_ok.mp hn
    split at h₁
    · cases h₁
    · cases h₁
      have hcur : r.2.currentThread = (k.fillSlot pseudoClockMsg 0).currentThread :=
        (send_frame hs).currentThread
      exact ⟨hscale, hcur, .inr ⟨hd, rfl⟩⟩
  · rw [if_neg hd] at h
    cases h
    exact ⟨rfl, rfl, .inl ⟨BitVec.not_le.mp hd, rfl⟩⟩

/-- Nobody runs and nobody is ready, the pseudo clock is not due, and the time that has passed since
its last tick is as many clock ticks as a whole period has microseconds. -/
def WaitsLate (k : Kernel) : Prop :=
  k.currentThread = null ∧ k.readyQueue = [] ∧ ¬ k.TickDue ∧ schedPseudoClock.toNat ≤
    (k.pseudoTick + (k.getTodlow - k.startPseudoTick)).toNat * k.timescale.toNat

theorem scheduler_waits (hc : k.currentThread = null) (hq : k.readyQueue = [])
    (h : k.scheduler = .ok k') : k' = k := by
  simp only [scheduler, hc, hq, if_true] at h
  repeat' split at h
  all_goals cases h
  rfl

/-- The timer is loaded by the handler or by the scheduler. -/
theorem intHandler_withTimer {old : State} (hline : causeIpGet old.cause intTimer = true)
    (h : k.intHandler old = .ok k') (x : U32) : (k.withTimer x).intHandler old = .ok k' := by
  obtain ⟨k₁, htick, hsched⟩ := (intHandler_timer hline).mp h
  refine (intHandler_timer hline).mpr ⟨k₁.withTimer x, ?_, ?_⟩
  · rw [intEnter_withTimer, updatePseudoTick_withTimer]
    exact pseudoClockTick_withTimer htick
  · rcases sliceEnd_withTimer (k := k₁) (x := x) with hs | ⟨hs, hq⟩
    · rw [hs]
      exact hsched
    · rw [hs, ← hsched]
      exact scheduler_withTimer (k := k₁.sliceEnd.advanceIndex) (.inr hq)

theorem timerInTime_iff (h : k.pseudoTick < schedPseudoClock) : k.TimerInTime ↔
    0 < k.intervalTimer.toNat ∧ k.intervalTimer.toNat ≤
      (schedPseudoClock.toNat - k.pseudoTick.toNat) * k.timescale.toNat := by
  have hnot : ¬ schedPseudoClock ≤ k.pseudoTick := BitVec.not_le.mpr h
  constructor
  · intro ht
    have hd := ht.deadline
    rw [if_neg hnot] at hd
    exact ⟨ht.positive, hd⟩
  · rintro ⟨hpos, hd⟩
    refine ⟨hpos, ?_⟩
    rwa [if_neg hnot]

/-- The handler comes to the wait with what it has loaded itself. -/
theorem wait_inTime_iff (hc : k.currentThread = null) (hp : k.pseudoTick < schedPseudoClock)
    (hts : 0 < k.timescale.toNat)
    (hfit : schedPseudoClock.toNat * k.timescale.toNat < 2 ^ 32) :
    k.sliceEnd.advanceIndex.TimerInTime ↔
      k.pseudoTick.toNat * k.timescale.toNat < schedPseudoClock.toNat := by
  have hover : ¬ k.SliceOver := fun h => h.1 hc
  have hload : k.sliceEnd.advanceIndex.intervalTimer =
      schedPseudoClock - k.pseudoTick * k.timescale := by
    rw [sliceEnd_of_left hover]
    rfl
  have hsame : k.sliceEnd.advanceIndex.pseudoTick = k.pseudoTick ∧
      k.sliceEnd.advanceIndex.timescale = k.timescale := by
    rw [sliceEnd_of_left hover]
    exact ⟨rfl, rfl⟩
  rw [timerInTime_iff (hsame.1 ▸ hp), hload, hsame.1, hsame.2]
  exact unbracketed_inTime_iff hp hts hfit

theorem intEnter_null {old : State} (hc : k.currentThread = null) : k.intEnter old = k :=
  if_neg fun h => h hc

theorem intHandler_inTime_iff {old : State} (hline : causeIpGet old.cause intTimer = true)
    (h : k.intHandler old = .ok k') (hts : 0 < k.timescale.toNat)
    (hfit : schedPseudoClock.toNat * k.timescale.toNat < 2 ^ 32) :
    k'.TimerInTime ↔ ¬ k.WaitsLate := by
  obtain ⟨k₁, htick, hsched⟩ := (intHandler_timer hline).mp h
  obtain ⟨hscale, hcur, hcases⟩ := pseudoClockTick_cases htick
  have hscale₁ : k₁.timescale = k.timescale := by
    rw [hscale]
    unfold intEnter
    split
    · simp only [updatePseudoTick, readTodlow, enter, setState, setTcb, chargeCpu, chargeTime,
        chargeSlice]
    · simp only [updatePseudoTick, readTodlow]
  have hcur₁ : k₁.currentThread = k.currentThread := by
    rw [hcur]
    unfold intEnter
    split
    · simp only [updatePseudoTick, readTodlow, enter, setState, setTcb, chargeCpu, chargeTime,
        chargeSlice]
    · simp only [updatePseudoTick, readTodlow]
  have hp₁ : k₁.pseudoTick < schedPseudoClock := by
    rcases hcases with ⟨hlt, rfl⟩ | ⟨-, hz⟩
    · exact hlt
    · rw [hz]
      decide
  rw [← hscale₁] at hts hfit
  have hwait : k.WaitsLate → k₁ = k.updatePseudoTick := by
    rintro ⟨hc, -, hd, -⟩
    rw [intEnter_null hc] at hcases
    rcases hcases with ⟨-, rfl⟩ | ⟨hdue, -⟩
    · rfl
    · exact absurd hdue hd
  by_cases hrun : k₁.sliceEnd.currentThread ≠ null ∨ k₁.sliceEnd.readyQueue ≠ []
  · have hkeep : k₁.sliceEnd.timescale = k₁.timescale := by
      unfold sliceEnd
      split <;> rfl
    have hslice : k₁.sliceEnd.currentThread ≠ null → k₁.sliceEnd.usedSlice < schedTimeSlice := by
      intro hn
      by_cases hover : k₁.SliceOver
      · rw [sliceEnd_of_over hover] at hn
        exact absurd rfl hn
      · rw [sliceEnd_of_left hover] at hn ⊢
        exact BitVec.not_le.mp fun hle => hover ⟨hn, hle⟩
    rw [← hkeep] at hts hfit
    refine iff_of_true (scheduler_inTime hsched hrun hslice hts hfit) ?_
    intro hl
    have hk₁ := hwait hl
    obtain ⟨hc, hq, -⟩ := hl
    have hover : ¬ k₁.SliceOver := fun h => h.1 (hcur₁.trans hc)
    rw [sliceEnd_of_left hover] at hrun
    subst hk₁
    exact hrun.elim (fun h => h hc) fun h => h hq
  · -- the processor waits
    rw [not_or, not_not, not_not] at hrun
    obtain ⟨hc, hq⟩ := hrun
    have hover : ¬ k₁.SliceOver := by
      intro hover
      rw [sliceEnd_of_over hover] at hq
      simp [insertThread] at hq
    have hc₁ : k₁.currentThread = null := by
      rw [sliceEnd_of_left hover] at hc
      exact hc
    have hk' : k' = k₁.sliceEnd.advanceIndex := scheduler_waits hc hq hsched
    have hck : k.currentThread = null := hcur₁.symm.trans hc₁
    rw [hk', wait_inTime_iff hc₁ hp₁ hts hfit, hscale₁]
    rw [intEnter_null hck] at hcases
    rcases hcases with ⟨hlt, rfl⟩ | ⟨hdue, hz⟩
    · rw [sliceEnd_of_left hover] at hq
      rw [← not_le]
      exact not_congr ⟨fun hle => ⟨hck, hq, BitVec.not_le.mpr hlt, hle⟩, fun hl => hl.2.2.2⟩
    · refine iff_of_true (by simp [hz, schedPseudoClock]) ?_
      rintro ⟨-, -, hd, -⟩
      exact hd hdue

end Kernel

namespace Machine

variable {m m' : Machine} {old : State}

/-- What the timer held before has no influence: the timer is loaded on the way. -/
def Reloads (m : Machine) (e : Event) (m' : Machine) : Prop :=
  ∀ x, ({ m with k := m.k.withTimer x } : Machine).step e = .ok m'

/-- From every interrupt of line 2 the timer is loaded before a thread goes on or the processor
waits, with the time to the deadline or less, if and only if it is no late wait. -/
theorem timer_in_time_iff (h : m.Step (.interrupt old) m')
    (hline : causeIpGet old.cause intTimer = true) (hts : 1 ≤ m.k.timescale.toNat)
    (hfit : schedPseudoClock.toNat * m.k.timescale.toNat < 2 ^ 32) :
    (m.Reloads (.interrupt old) m' ∧ m'.k.TimerInTime) ↔ ¬ m.k.WaitsLate := by
  obtain ⟨k', hk, hm⟩ := bind_eq_ok.mp h.2
  cases hm
  rw [← Kernel.intHandler_inTime_iff hline hk hts hfit]
  refine and_iff_right fun x => ?_
  exact bind_eq_ok.mpr ⟨k', Kernel.intHandler_withTimer hline hk x, rfl⟩

/-- A memory image on a machine with 25 clock ticks a microsecond, whose clock goes on by `d` ticks
from one reading to the next. -/
def fastClock (d : Nat) : Kernel :=
  { Kernel.zeroed with timescale := 25, todlow := fun n => BitVec.ofNat 32 (d * n) }

theorem fastClock_powerOn (d : Nat) : (fastClock d).PowerOn :=
  ⟨Kernel.zeroed_powerOn.trapManagers, rfl, fun _ _ => rfl, fun _ _ => rfl, fun _ _ => rfl,
    fun _ _ _ _ => ⟨rfl, rfl⟩⟩

/-- The test thread waits for the next tick, so that the processor waits. -/
def tickAwaited : List Event :=
  Event.ssiCalls 2 ++ Event.ssiRequest waitForClock 0 ++ Event.ssiCalls 5

/-- 1700 microseconds after the last tick the load is in time. -/
theorem timer_in_time_iff_idle : ∃ m m' m'' : Machine, Run Step m tickAwaited m' ∧
    m'.k.currentThread = null ∧ m'.Step timerInterrupt m'' ∧
    m'.Reloads timerInterrupt m'' ∧ m''.k.TimerInTime := by
  have hrun : passes (fun m => passes (fun m' => decide (m'.k.currentThread = null) &&
      decide (m'.k.timescale = 25) && decide (m'.Enabled timerInterrupt) &&
      decide ((m'.k.pseudoTick + (m'.k.getTodlow - m'.k.startPseudoTick)).toNat = 1700) &&
      passes (fun _ => true) (m'.step timerInterrupt)) (exec fire m tickAwaited))
      (start (fastClock 2500)) = true := by
    decide +kernel
  obtain ⟨m, hm, hrun⟩ := exists_of_passes hrun
  obtain ⟨m', hs, hend⟩ := exists_of_passes hrun
  simp only [Bool.and_eq_true, decide_eq_true_eq] at hend
  obtain ⟨⟨⟨⟨hc, hts⟩, hen⟩, hp⟩, hstep⟩ := hend
  obtain ⟨m'', hst, -⟩ := exists_of_passes hstep
  have hevent : m'.Step timerInterrupt m'' := ⟨hen, hst⟩
  have hiff :=
    timer_in_time_iff hevent (by decide) (by simp [hts]) (by simp [hts, schedPseudoClock])
  have hright := hiff.mpr fun hl => by
    have hlate := hl.2.2.2
    rw [hp, hts] at hlate
    simp [schedPseudoClock] at hlate
  exact ⟨m, m', m'', (run_of_exec hs).mono fun _ _ _ => step_of_fire, hc, hevent, hright⟩

/-- After 6800 microseconds the subtraction has wrapped. -/
theorem timer_in_time_fails : ¬ ∀ (m m' m'' : Machine) (es : List Event) (old : State), m.Initial →
    Run Step m es m' → m'.Step (.interrupt old) m'' → causeIpGet old.cause intTimer = true →
    1 ≤ m'.k.timescale.toNat → schedPseudoClock.toNat * m'.k.timescale.toNat < 2 ^ 32 →
    m''.k.TimerInTime := by
  intro hall
  have hrun : passes (fun m => passes (fun m' => decide (m'.k.timescale = 25) &&
      decide (m'.Enabled timerInterrupt) &&
      passes (fun m'' => decide (m''.k.intervalTimer = 100000 - 170000) &&
        decide (m''.k.pseudoTick = 6800) && decide (m''.k.timescale = 25)) (m'.step timerInterrupt))
      (exec fire m tickAwaited)) (start (fastClock 10000)) = true := by
    decide +kernel
  obtain ⟨m, hm, hrun⟩ := exists_of_passes hrun
  obtain ⟨m', hs, hend⟩ := exists_of_passes hrun
  simp only [Bool.and_eq_true, decide_eq_true_eq] at hend
  obtain ⟨⟨hts, hen⟩, hstep⟩ := hend
  obtain ⟨m'', hst, hbad⟩ := exists_of_passes hstep
  simp only [Bool.and_eq_true, decide_eq_true_eq] at hbad
  obtain ⟨⟨htimer, hp⟩, hts'⟩ := hbad
  have hr : Run Step m tickAwaited m' := (run_of_exec hs).mono fun _ _ _ => step_of_fire
  have hright := hall m m' m'' _ _ (initial_of_start (fastClock_powerOn _) hm) hr ⟨hen, hst⟩
    (by decide) (by simp [hts]) (by simp [hts, schedPseudoClock])
  have hle := hright.deadline
  rw [htimer, hp, hts'] at hle
  simp [schedPseudoClock] at hle

end Machine

end AmiKaya
