import AmiKaya.SoftBlock

/-! The interval timer of a thread that stays on the processor after a kernel entry. -/
namespace AmiKaya
open Lts

namespace Kernel

variable {k k' : Kernel}

/-- The pseudo clock is due, once the scheduler has brought it up to date. -/
def TickDue (k : Kernel) : Prop :=
  schedPseudoClock ≤ k.pseudoTick + (k.getTodlow - k.startPseudoTick)

instance (k : Kernel) : Decidable k.TickDue := inferInstanceAs (Decidable (_ ≤ _))

/-- What the current thread has used of its slice. -/
def usedSlice (k : Kernel) : U32 := (k.tcb k.currentThread).cpuSlice

/-- The timer has been loaded with at most the rest of the slice, and where that rest was computed
the subtraction did not wrap. -/
structure SliceKept (k k' : Kernel) : Prop where
  subtraction : ¬ k.TickDue →
    (schedTimeSlice - k.usedSlice).toNat + k.usedSlice.toNat = schedTimeSlice.toNat
  timer : k'.intervalTimer.toNat ≤
    (schedTimeSlice.toNat - k.usedSlice.toNat) * k.timescale.toNat

theorem setTimer_timer (k : Kernel) (slice : U32) : (k.setTimer slice).intervalTimer =
    if schedPseudoClock ≤ k.pseudoTick then k.timescale
    else minU32 slice (schedPseudoClock - k.pseudoTick) * k.timescale := by
  unfold setTimer
  split
  · exact BitVec.one_mul k.timescale
  · rfl

theorem resumeCurrent_timer (k : Kernel) : k.resumeCurrent.intervalTimer =
    if k.TickDue then k.timescale
    else minU32 (schedTimeSlice - k.usedSlice) (schedPseudoClock -
      (k.pseudoTick + (k.getTodlow - k.startPseudoTick))) * k.timescale := by
  have hused : (k.updatePseudoTick.startTod.tcb k.updatePseudoTick.startTod.currentThread).cpuSlice =
      k.usedSlice := by
    simp only [startTod, updatePseudoTick, readTodlow, usedSlice]
  have hset : k.resumeCurrent.intervalTimer =
      (k.updatePseudoTick.startTod.setTimer (schedTimeSlice - k.usedSlice)).intervalTimer := by
    rw [← hused]
    rfl
  have hp : k.updatePseudoTick.startTod.pseudoTick =
      k.pseudoTick + (k.getTodlow - k.startPseudoTick) := rfl
  have hts : k.updatePseudoTick.startTod.timescale = k.timescale := by
    simp only [startTod, updatePseudoTick, readTodlow]
  rw [hset, setTimer_timer, hp, hts]
  by_cases hd : k.TickDue
  · rw [if_pos hd, if_pos (show schedPseudoClock ≤ _ from hd)]
  · rw [if_neg hd, if_neg (show ¬ schedPseudoClock ≤ _ from hd)]

theorem minU32_le_left (a b : U32) : (minU32 a b).toNat ≤ a.toNat := by
  unfold minU32
  split
  · exact Nat.le_refl _
  · next h =>
    have hle := BitVec.not_lt.mp h
    exact BitVec.le_def.mp hle

theorem sub_toNat_of_le {s : U32} (h : s ≤ schedTimeSlice) :
    (schedTimeSlice - s).toNat = schedTimeSlice.toNat - s.toNat := by
  have := BitVec.le_def.mp h
  exact BitVec.toNat_sub_of_le h

/-- With slice left, the timer is loaded with it or with less. -/
theorem timer_le {s b ts : U32} (h : s ≤ schedTimeSlice) :
    (minU32 (schedTimeSlice - s) b * ts).toNat ≤ (schedTimeSlice.toNat - s.toNat) * ts.toNat := by
  have hmin := minU32_le_left (schedTimeSlice - s) b
  rw [sub_toNat_of_le h] at hmin
  calc (minU32 (schedTimeSlice - s) b * ts).toNat
      ≤ (minU32 (schedTimeSlice - s) b).toNat * ts.toNat := by
        rw [BitVec.toNat_mul]
        exact Nat.mod_le _ _
    _ ≤ (schedTimeSlice.toNat - s.toNat) * ts.toNat := Nat.mul_le_mul_right _ hmin

/-- The rest of an overrun slice wraps. -/
theorem sub_wraps {s : U32} (h : ¬ s ≤ schedTimeSlice) :
    (schedTimeSlice - s).toNat + s.toNat ≠ schedTimeSlice.toNat := by
  have hlt := BitVec.lt_def.mp (BitVec.not_le.mp h)
  intro heq
  omega

theorem sliceKept_iff (k : Kernel) : SliceKept k k.resumeCurrent ↔
    if k.TickDue then k.usedSlice < schedTimeSlice ∨ k.timescale = 0
    else k.usedSlice ≤ schedTimeSlice := by
  have htimer := resumeCurrent_timer k
  by_cases hd : k.TickDue
  · rw [if_pos hd] at htimer ⊢
    constructor
    · intro h
      have hle := h.timer
      rw [htimer] at hle
      by_cases hz : k.timescale = 0
      · exact .inr hz
      · left
        have hpos : 0 < k.timescale.toNat := by
          rw [Nat.pos_iff_ne_zero]
          intro h0
          exact hz (BitVec.eq_of_toNat_eq (by simpa using h0))
        rw [BitVec.lt_def]
        by_contra hn
        have hrest : schedTimeSlice.toNat - k.usedSlice.toNat = 0 := by omega
        rw [hrest] at hle
        omega
    · intro h
      constructor
      case subtraction => exact fun hn => absurd hd hn
      case timer =>
        rw [htimer]
        rcases h with h | h
        · have hlt := BitVec.lt_def.mp h
          have hone : 1 ≤ schedTimeSlice.toNat - k.usedSlice.toNat := by omega
          exact Nat.le_mul_of_pos_left _ hone
        · simp [h]
  · rw [if_neg hd] at htimer ⊢
    constructor
    · intro h
      by_contra hn
      exact sub_wraps hn (h.subtraction hd)
    · intro h
      have hle := BitVec.le_def.mp h
      constructor
      case subtraction =>
        intro _
        rw [sub_toNat_of_le h]
        omega
      case timer =>
        rw [htimer]
        exact timer_le h

end Kernel

namespace Machine

variable {m m' : Machine} {e : Event} {k : Kernel}

/-- When a handler leaves a thread on the processor, the timer is loaded with at most the rest of
its slice if and only if the slice is not overrun, and not used up when the pseudo clock is due. -/
theorem slice_timer_iff (h : m.Step e m') (hs : m.schedules e = true) (hb : m.body e = .ok k)
    (hc : k.currentThread ≠ null) : m'.k.currentThread = k.currentThread ∧
      (k.SliceKept m'.k ↔ if k.TickDue then k.usedSlice < schedTimeSlice ∨ k.timescale = 0
        else k.usedSlice ≤ schedTimeSlice) := by
  obtain ⟨k₁, hb₁, hk⟩ := step_body h
  obtain rfl := Except.ok.inj (hb.symm.trans hb₁)
  obtain ⟨-, hsched⟩ := hk.resolve_right fun hn => by simp [hs] at hn
  rw [Kernel.scheduler, if_neg hc] at hsched
  obtain hk' := Except.ok.inj hsched
  rw [← hk']
  exact ⟨Quiet.resumeCurrent.currentThread, Kernel.sliceKept_iff k⟩

/-- A SEND of the test thread to itself. -/
def selfSend : Event := .call sysSend testThreadAddr 5

def runsOn (m : Machine) : Bool :=
  decide (m.Enabled selfSend) && passes (fun k => k.currentThread ≠ null && ¬ k.TickDue &&
    k.usedSlice ≤ schedTimeSlice) (m.body selfSend) && passes (fun _ => true) (m.step selfSend)

/-- The first SEND comes within the slice. -/
theorem slice_timer_iff_first : ∃ m m' m'' : Machine, ∃ k, Run Step m (Event.ssiCalls 2) m' ∧
    m'.Step selfSend m'' ∧ m'.body selfSend = .ok k ∧ k.SliceKept m''.k := by
  have hrun : passes (fun m => passes runsOn (exec fire m (Event.ssiCalls 2)))
      (start slowClock) = true := by
    decide +kernel
  obtain ⟨m, hm, hrun⟩ := exists_of_passes hrun
  obtain ⟨m', hs, hend⟩ := exists_of_passes hrun
  simp only [runsOn, Bool.and_eq_true, decide_eq_true_eq] at hend
  obtain ⟨⟨hen, hbody⟩, hstep⟩ := hend
  obtain ⟨k, hb, hk⟩ := exists_of_passes hbody
  obtain ⟨m'', hst, -⟩ := exists_of_passes hstep
  simp only [Bool.and_eq_true, decide_eq_true_eq] at hk
  obtain ⟨⟨hc, hd⟩, hle⟩ := hk
  have hstep : m'.Step selfSend m'' := ⟨hen, hst⟩
  have hiff := (slice_timer_iff hstep rfl hb hc).2
  rw [if_neg hd] at hiff
  exact ⟨m, m', m'', k, (run_of_exec hs).mono fun _ _ _ => step_of_fire, hstep, hb, hiff.mpr hle⟩

/-- The second SEND comes after the end of the slice: the timer is loaded with the time to the next
tick of the pseudo clock. -/
theorem slice_timer_wraps : ¬ ∀ (m m' m'' : Machine) (es : List Event) (e : Event) (k : Kernel),
    m.Initial → Run Step m es m' → m'.Step e m'' → m'.schedules e = true → m'.body e = .ok k →
    k.currentThread ≠ null → k.SliceKept m''.k := by
  intro hall
  have hrun : passes (fun m => passes (fun s => decide (s.Enabled selfSend) &&
      passes (fun k => k.currentThread ≠ null && k.usedSlice = 6000) (s.body selfSend) &&
      passes (fun s' => s'.k.intervalTimer = 61000) (s.step selfSend))
      (exec fire m (Event.ssiCalls 2 ++ [selfSend]))) (start slowClock) = true := by
    decide +kernel
  obtain ⟨m, hm, hrun⟩ := exists_of_passes hrun
  obtain ⟨m', hs, hend⟩ := exists_of_passes hrun
  simp only [Bool.and_eq_true, decide_eq_true_eq] at hend
  obtain ⟨⟨hen, hbody⟩, hstep⟩ := hend
  obtain ⟨k, hb, hk⟩ := exists_of_passes hbody
  obtain ⟨m'', hst, htimer⟩ := exists_of_passes hstep
  simp only [Bool.and_eq_true, decide_eq_true_eq] at hk htimer
  have hr : Run Step m (Event.ssiCalls 2 ++ [selfSend]) m' :=
    (run_of_exec hs).mono fun _ _ _ => step_of_fire
  have hkept :=
    hall m m' m'' _ _ k (initial_of_start slowClock_powerOn hm) hr ⟨hen, hst⟩ rfl hb hk.1
  have hle := hkept.timer
  rw [htimer, hk.2] at hle
  simp [schedTimeSlice] at hle

end Machine

end AmiKaya
