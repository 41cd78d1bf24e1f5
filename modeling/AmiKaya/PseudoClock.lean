import AmiKaya.MessageSlots
import AmiKaya.Readings

/-! The pseudo clock: how far its ticks are apart, and what its two variables amount to. -/
namespace AmiKaya
open Lts

/-- Something happened after one reading of the clock and before the next one. -/
structure Moment where
  before : Nat
  after : Nat

/-- The ticks since boot, which counts as one, and what the pairs of readings made since the last
one differ by, all together. -/
structure TickLog where
  last : Moment
  earlier : List Moment
  gaps : Nat

namespace Machine

/-- The interrupt handler sends PSEUDOCLOCK_MSG. -/
def sendsTick (m : Machine) : Event → Bool
  | .interrupt old => match (m.k.intEnter old).report old.cause with
    | some r => r.service = pseudoClockMsg
    | none => false
  | _ => false

end Machine

namespace TickLog

/-- `main` makes one reading, and the scheduler a pair before it loads the SSI. -/
def boot (k : Kernel) : TickLog :=
  ⟨⟨k.times.tod 0, k.times.tod 0⟩, [], k.times.tod 2 - k.times.tod 1⟩

/-- The handler of the timer makes a pair of readings after those of the charge, and one more after
the message. -/
def noteTimer (log : TickLog) (m : Machine) (e : Event) : TickLog :=
  let t := m.entryTimes e
  if m.sendsTick e then ⟨⟨t.tod 1, t.tod 2⟩, log.last :: log.earlier, 0⟩
  else if Machine.isTimer e then { log with gaps := log.gaps + (t.tod 1 - t.tod 0) }
  else log

/-- The scheduler makes a pair of readings before it loads a thread. -/
def note (m : Machine) (e : Event) (m' : Machine) (log : TickLog) : TickLog :=
  let log := log.noteTimer m e
  if m.schedules e = true ∧ m'.k.currentThread ≠ null then
    match m.body e with
    | .ok k => { log with gaps := log.gaps + (k.times.tod 1 - k.times.tod 0) }
    | .error _ => log
  else log

end TickLog

/-! The accumulator and its starting point against the last tick. -/

variable {t t' : Times} {s g : Nat} {b : Nat} {log : TickLog}

/-- Since `s` the readings account for all but `g` of the time. -/
structure Counts (s g : Nat) (t : Times) : Prop where
  clock : Monotone t.tod
  start : t.startPseudoTick.toNat ≤ t.tod 0
  sum : t.pseudoTick.toNat + g + s = t.startPseudoTick.toNat

namespace Counts

/-- Other readings change nothing. -/
theorem later {d : Nat} (h : Counts s g t) (hp : t'.pseudoTick = t.pseudoTick)
    (hs : t'.startPseudoTick = t.startPseudoTick) (hd : ∀ n, t'.tod n = t.tod (n + d)) :
    Counts s g t' := by
  obtain ⟨hmono, hle⟩ := Times.shift_mono h.clock hd
  refine ⟨hmono, ?_, ?_⟩
  · rw [hs]
    exact h.start.trans hle
  · rw [hp, hs]
    exact h.sum

/-- The first reading of a pair is added, the second one is where the next addition starts. -/
theorem update (h : Counts s g t) : Counts s (g + (t.tod 1 - t.tod 0)) t.update := by
  have hstart := h.start
  have hsum := h.sum
  have h01 : t.tod 0 ≤ t.tod 1 := h.clock (by omega)
  have hlt : t.tod 0 < 2 ^ 32 := BitVec.isLt _
  have htod : t.getTodlow.toNat = t.tod 0 := rfl
  have hpseudo : t.update.pseudoTick.toNat =
      t.pseudoTick.toNat + (t.tod 0 - t.startPseudoTick.toNat) := by
    have hadd : t.update.pseudoTick = t.pseudoTick + (t.getTodlow - t.startPseudoTick) := rfl
    rw [hadd, Times.toNat_charged]
    · rw [htod]
    · rw [htod]
      exact hstart
    · rw [htod]
      omega
  have hnext : t.update.startPseudoTick.toNat = t.tod 1 := rfl
  refine ⟨(Times.shift_mono h.clock Times.update_tod).1, ?_, ?_⟩
  · rw [hnext, Times.update_tod]
    exact h.clock (by omega)
  · rw [hnext, hpseudo]
    omega

/-- A tick starts a new period, and the old one was long enough. -/
theorem tick (h : Counts s g t) (hdue : schedPseudoClock ≤ t.pseudoTick) :
    Counts (t.tod 0) 0 t.tick ∧ s + schedPseudoClock.toNat ≤ t.startPseudoTick.toNat := by
  have htick : t.tick = { t with pseudoTick := 0 }.restartTick := if_pos hdue
  have hsum := h.sum
  rw [BitVec.le_def] at hdue
  refine ⟨?_, by omega⟩
  rw [htick]
  refine ⟨?_, ?_, ?_⟩
  · exact (Times.shift_mono (d := 1) h.clock fun _ => rfl).1
  · exact h.clock (by omega)
  · have hnext : t.getTodlow.toNat = t.tod 0 := rfl
    have hstart : ({ t with pseudoTick := 0 }.restartTick).startPseudoTick.toNat = t.tod 0 := rfl
    have hzero : ({ t with pseudoTick := 0 }.restartTick).pseudoTick.toNat = 0 := rfl
    rw [hstart, hzero]
    omega

end Counts

/-- The ticks are a period apart, and `b` is boot. -/
structure TickLog.Spaced (b : Nat) (log : TickLog) : Prop where
  apart : (log.last :: log.earlier).Pairwise fun i j => j.after + schedPseudoClock.toNat ≤ i.before
  boot : (log.last :: log.earlier).getLast? = some ⟨b, b⟩
  count : log.earlier.length * schedPseudoClock.toNat + b ≤ log.last.before
  ordered : log.last.before ≤ log.last.after

theorem TickLog.Spaced.tick {x : Moment} (h : log.Spaced b)
    (hx : log.last.after + schedPseudoClock.toNat ≤ x.before) (ho : x.before ≤ x.after) :
    Spaced b ⟨x, log.last :: log.earlier, 0⟩ := by
  have hlast := h.ordered
  have hcount := h.count
  refine ⟨.cons ?_ h.apart, ?_, ?_, ho⟩
  · intro j hj
    rcases List.mem_cons.mp hj with rfl | hj
    · exact hx
    · have hj' := List.rel_of_pairwise_cons h.apart hj
      dsimp only
      omega
  · rw [List.getLast?_cons_cons]
    exact h.boot
  · rw [List.length_cons, Nat.succ_mul]
    dsimp only
    omega

/-- The devices on the other lines report with another message. -/
theorem Kernel.report_service {k : Kernel} {cause : U32} {r : Report}
    (ht : causeIpGet cause intTimer = false) (h : k.report cause = some r) :
    r.service = interruptMsg := by
  have hdtp : ∀ line, k.dtpReport line = some r → r.service = interruptMsg := by
    intro line h
    cases h
    rfl
  unfold report at h
  rw [if_neg (by simp [ht])] at h
  split at h
  · exact hdtp _ h
  split at h
  · exact hdtp _ h
  split at h
  · exact hdtp _ h
  split at h
  · exact hdtp _ h
  split at h
  · unfold terminalReport at h
    dsimp only at h
    split at h
    · cases h
      rfl
    · split at h
      · cases h
        rfl
      · cases h
  · cases h

namespace Machine

variable {m m' : Machine} {e : Event}

/-- The handler sends the message when the accumulator has come to a period. -/
theorem sendsTick_iff : m.sendsTick e = true ↔
    isTimer e = true ∧ schedPseudoClock ≤ (m.entryTimes e).update.pseudoTick := by
  cases e with
  | interrupt old =>
    have henter : (m.k.intEnter old).times = m.entryTimes (.interrupt old) := by
      unfold Kernel.intEnter entryTimes
      by_cases hn : m.k.currentThread = null
      · simp [charges, hn]
      · simp [charges, hn, Kernel.times_enter]
    have hpseudo : (m.k.intEnter old).updatePseudoTick.pseudoTick =
        (m.entryTimes (.interrupt old)).update.pseudoTick := by
      rw [← henter]
      rfl
    have hne : interruptMsg ≠ pseudoClockMsg := by decide
    simp only [sendsTick, isTimer]
    cases ht : causeIpGet old.cause intTimer with
    | true =>
      have hrep : (m.k.intEnter old).report old.cause = (m.k.intEnter old).timerReport := if_pos ht
      rw [hrep, Kernel.timerReport, hpseudo]
      by_cases hdue : schedPseudoClock ≤ (m.entryTimes (.interrupt old)).update.pseudoTick <;> simp [hdue]
    | false =>
      cases hrep : (m.k.intEnter old).report old.cause with
      | none => simp
      | some r => simp [Kernel.report_service ht hrep, hne]
  | sysbp | pgmtrap | tlb | ssi | devices | store | edit => simp [sendsTick, isTimer]

end Machine

namespace TickLog

open Machine

variable {m m' : Machine} {e : Event}

/-- The two variables of the pseudo clock are right about the time since the last tick. -/
structure Sound (b : Nat) (m : Machine) (log : TickLog) : Prop where
  counts : Counts log.last.after log.gaps m.k.times
  spaced : log.Spaced b

/-- The charge at the entry leaves the pseudo clock alone. -/
theorem Sound.entry (hs : log.Sound b m) (e : Event) :
    Counts log.last.after log.gaps (m.entryTimes e) := by
  unfold entryTimes
  split
  · exact hs.counts.later rfl rfl (Times.charge_tod (p := m.k.currentThread))
  · exact hs.counts

/-- The timer interrupt, with its pair of readings and its message. -/
theorem Sound.timer (hs : log.Sound b m) (e : Event) :
    Counts (log.noteTimer m e).last.after (log.noteTimer m e).gaps
      (if isTimer e then (m.entryTimes e).update.tick else m.entryTimes e) ∧
    (log.noteTimer m e).Spaced b := by
  have hentry := hs.entry e
  have hiff := sendsTick_iff (m := m) (e := e)
  unfold noteTimer
  dsimp only
  cases ht : isTimer e with
  | false =>
    have hsend : ¬ m.sendsTick e = true := fun h => by
      rw [ht] at hiff
      simpa using (hiff.mp h).1
    rw [if_neg hsend]
    exact ⟨hentry, hs.spaced⟩
  | true =>
    have hupdate := hentry.update
    by_cases hdue : schedPseudoClock ≤ (m.entryTimes e).update.pseudoTick
    · rw [if_pos (hiff.mpr ⟨ht, hdue⟩)]
      obtain ⟨htick, hlong⟩ := hupdate.tick hdue
      have hstart : (m.entryTimes e).update.startPseudoTick.toNat = (m.entryTimes e).tod 1 := rfl
      exact ⟨htick, hs.spaced.tick (hstart ▸ hlong) (hentry.clock (by omega))⟩
    · have htick : (m.entryTimes e).update.tick = (m.entryTimes e).update := if_neg hdue
      rw [if_neg fun h => hdue (hiff.mp h).2, if_pos rfl, if_pos rfl, htick]
      exact ⟨hupdate, hs.spaced.apart, hs.spaced.boot, hs.spaced.count, hs.spaced.ordered⟩

theorem Sound.body (hs : log.Sound b m) (e : Event) :
    Counts (log.noteTimer m e).last.after (log.noteTimer m e).gaps (m.bodyTimes e) ∧
    (log.noteTimer m e).Spaced b := by
  obtain ⟨hcounts, hspaced⟩ := hs.timer e
  refine ⟨?_, hspaced⟩
  unfold bodyTimes
  cases m.born e with
  | none => exact hcounts
  | some p => exact hcounts.later rfl rfl (d := 0) fun _ => rfl

/-- One step keeps the log sound. -/
theorem Sound.step (hs : log.Sound b m) (hw : m.Wf) (h : m.Step e m') :
    (note m e m' log).Sound b m' := by
  obtain ⟨hcounts, hspaced⟩ := hs.body e
  rcases step_times hw h with ⟨hidle, ht⟩ | ⟨hsch, hn, t, htt, ht⟩
  · have hnote : note m e m' log = log.noteTimer m e := by
      apply if_neg
      rintro ⟨hsch, hn⟩
      rcases hidle with hf | hc
      · rw [hsch] at hf
        cases hf
      · exact hn hc
    rw [hnote]
    exact ⟨ht ▸ hcounts, hspaced⟩
  · obtain ⟨k, hb, -⟩ := step_body h
    have hnote : note m e m' log = { log.noteTimer m e with
        gaps := (log.noteTimer m e).gaps + ((m.bodyTimes e).tod 1 - (m.bodyTimes e).tod 0) } := by
      unfold note
      dsimp only
      rw [if_pos ⟨hsch, hn⟩, hb, ← body_times hb]
    have hload : Counts (log.noteTimer m e).last.after
        ((log.noteTimer m e).gaps + ((m.bodyTimes e).tod 1 - (m.bodyTimes e).tod 0)) m'.k.times := by
      rw [ht]
      refine hcounts.update.later (d := 1) ?_ ?_ ?_
      all_goals rcases htt with rfl | rfl <;> intros <;> rfl
    rw [hnote]
    exact ⟨hload, hspaced.apart, hspaced.boot, hspaced.count, hspaced.ordered⟩

theorem sound_boot {k : Kernel} (hb : m.BootsFrom k) (hm : Monotone k.times.tod) :
    (boot k).Sound (k.times.tod 0) m := by
  obtain ⟨t, hboot, ht⟩ := Kernel.times_main hb.main
  have hstart : t.startPseudoTick.toNat = k.times.tod 0 := by
    rw [hboot.startPseudoTick]
    rfl
  have hcounts : Counts (k.times.tod 0) 0 t := by
    refine ⟨(Times.shift_mono hm hboot.tod).1, ?_, ?_⟩
    · rw [hstart, hboot.tod]
      exact hm (by omega)
    · have hzero : t.pseudoTick.toNat = 0 := by
        rw [hboot.pseudoTick]
        rfl
      omega
  refine ⟨?_, .cons (by simp [boot]) .nil, rfl, ?_, le_rfl⟩
  · have hload : Counts (k.times.tod 0) (0 + (t.tod 1 - t.tod 0)) m.k.times := by
      rw [ht]
      exact hcounts.update.later (d := 1) rfl rfl fun _ => rfl
    have hgaps : 0 + (t.tod 1 - t.tod 0) = (boot k).gaps := by
      rw [hboot.tod, hboot.tod, Nat.zero_add]
      rfl
    exact hgaps ▸ hload
  · simp [boot]

/-- A run keeps the log sound. -/
theorem sound_of_run {k : Kernel} {m₀ : Machine} {es : List Event} (hb : m₀.BootsFrom k)
    (hm : Monotone k.times.tod) (hr : Run (withHistory Step note) (m₀, boot k) es (m, log)) :
    log.Sound (k.times.tod 0) m := by
  have hinv := hr.inv_history (I := fun m l => m.Wf ∧ l.Sound (k.times.tod 0) m) ?_
    ⟨initial_wf hb.initial, sound_boot hb hm⟩
  · exact hinv.2
  · intro m e m' l h hi
    exact ⟨hi.1.step h, hi.2.step hi.1 h⟩

end TickLog

namespace Machine

variable {m : Machine}

/-- The ticks and boot, `b`, are a period apart, and the two variables tell the time since the last
one when both readings of every pair made since then are the same. -/
structure TicksRight (b : Nat) (m : Machine) (log : TickLog) : Prop where
  boot : (log.last :: log.earlier).getLast? = some ⟨b, b⟩
  apart : (log.last :: log.earlier).Pairwise fun i j => j.after + schedPseudoClock.toNat ≤ i.before
  count : log.earlier.length ≤ (log.last.before - b) / schedPseudoClock.toNat
  past : log.last.before ≤ log.last.after ∧ log.last.after ≤ m.k.times.tod 0
  exact : log.gaps = 0 → ∀ now, m.k.startPseudoTick.toNat ≤ now →
    m.k.pseudoTick.toNat + (now - m.k.startPseudoTick.toNat) = now - log.last.after

/-- In every run under a clock that does not go back the ticks come no earlier than they should. -/
theorem ticks_right {k : Kernel} {m₀ : Machine} {es : List Event} (hb : m₀.BootsFrom k)
    (hclock : Monotone k.times.tod)
    (hr : Run (withHistory Step TickLog.note) (m₀, .boot k) es (m, log)) :
    TicksRight (k.times.tod 0) m log := by
  obtain ⟨hcounts, hspaced⟩ := TickLog.sound_of_run hb hclock hr
  have hsum : m.k.pseudoTick.toNat + log.gaps + log.last.after = m.k.startPseudoTick.toNat :=
    hcounts.sum
  have hstart : m.k.startPseudoTick.toNat ≤ m.k.times.tod 0 := hcounts.start
  refine ⟨hspaced.boot, hspaced.apart, ?_, ⟨hspaced.ordered, by omega⟩, ?_⟩
  · rw [Nat.le_div_iff_mul_le (by decide)]
    have hcount := hspaced.count
    omega
  · intro hg now hnow
    omega

/-- A memory image on a machine whose clock stands still for 30 readings and then goes on by 200 ms.
-/
def lateClock : Kernel := { Kernel.zeroed with todlow := fun n => if n < 30 then 0 else 200000 }

theorem lateClock_powerOn : lateClock.PowerOn :=
  ⟨Kernel.zeroed_powerOn.trapManagers, rfl, fun _ _ => rfl, fun _ _ => rfl, fun _ _ => rfl,
    fun _ _ _ _ => ⟨rfl, rfl⟩⟩

theorem lateClock_mono : Monotone lateClock.times.tod := by
  have htod : ∀ n, lateClock.times.tod n = if n < 30 then 0 else 200000 := by
    intro n
    by_cases hn : n < 30 <;> simp [Times.tod, Kernel.times, lateClock, Kernel.zeroed, hn]
  intro i j hij
  rw [htod, htod]
  split <;> split <;> omega

/-- The timer interrupts the test thread three times before the clock goes on, then once more. -/
def lateTrace : List Event :=
  Event.ssiCalls 2 ++ List.replicate 4 (.interrupt { initTState with cause := 1 <<< (intTimer + 8) })

theorem ticks_right_late : ∃ m₀ m log,
    Run (withHistory Step TickLog.note) (m₀, .boot lateClock) lateTrace (m, log) ∧
    log.earlier.length = 1 ∧ log.gaps = 0 ∧ TicksRight (lateClock.times.tod 0) m log := by
  have hrun : passes (fun m => passes (fun s => s.2.earlier.length = 1 ∧ s.2.gaps = 0)
      (exec (execWith fire TickLog.note) (m, .boot lateClock) lateTrace)) (start lateClock) = true := by
    decide +kernel
  obtain ⟨m₀, hm, hrun⟩ := exists_of_passes hrun
  obtain ⟨⟨m, log⟩, hs, hlog⟩ := exists_of_passes hrun
  obtain ⟨hone, hgaps⟩ := of_decide_eq_true hlog
  have hr : Run (withHistory Step TickLog.note) (m₀, .boot lateClock) lateTrace (m, log) :=
    run_of_execWith (fun _ _ _ => step_of_fire) hs
  exact ⟨m₀, m, log, hr, hone, hgaps,
    ticks_right (bootsFrom_of_start lateClock_powerOn hm) lateClock_mono hr⟩

end Machine

end AmiKaya
