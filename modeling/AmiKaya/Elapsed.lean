import AmiKaya.Machine

/-! The differences of clock readings, against the time that has really passed. The register holds
the low 32 bits of the number of ticks since power-on. -/
namespace AmiKaya

/-- `c` microseconds are the time of `d` clock ticks, up to one unit. -/
def RightAmount (ts d c : Nat) : Prop := c * ts ≤ d + ts ∧ d ≤ c * ts + ts

/-- The difference of the two quotients, in 32 bits. -/
theorem sub_div_toNat {ts a b : U32} : (b / ts - a / ts).toNat =
    if a.toNat / ts.toNat ≤ b.toNat / ts.toNat then b.toNat / ts.toNat - a.toNat / ts.toNat
    else 2 ^ 32 - (a.toNat / ts.toNat - b.toNat / ts.toNat) := by
  have ha : a.toNat / ts.toNat < 2 ^ 32 := Nat.lt_of_le_of_lt (Nat.div_le_self _ _) a.isLt
  have hb : b.toNat / ts.toNat < 2 ^ 32 := Nat.lt_of_le_of_lt (Nat.div_le_self _ _) b.isLt
  rw [BitVec.toNat_sub, BitVec.toNat_udiv, BitVec.toNat_udiv]
  generalize a.toNat / ts.toNat = x at *
  generalize b.toNat / ts.toNat = y at *
  split <;> omega

/-- Without a wrap of the register both divisions round down, so the difference is off by less than
one unit. -/
theorem rightAmount_of_le {ts a d : Nat} (hts : 1 ≤ ts) :
    RightAmount ts d ((a + d) / ts - a / ts) := by
  have ha := Nat.div_add_mod a ts
  have hb := Nat.div_add_mod (a + d) ts
  have hma := Nat.mod_lt a hts
  have hmb := Nat.mod_lt (a + d) hts
  have hmul : ((a + d) / ts - a / ts) * ts = ts * ((a + d) / ts) - ts * (a / ts) := by
    rw [Nat.sub_mul, Nat.mul_comm ts, Nat.mul_comm ts]
  have hle : ts * (a / ts) ≤ ts * ((a + d) / ts) :=
    Nat.mul_le_mul_left _ (Nat.div_le_div_right (Nat.le_add_right a d))
  unfold RightAmount
  rw [hmul]
  omega

/-- With a wrap the amount is right only on a machine with one tick a microsecond, or before the
first microsecond is over. -/
theorem rightAmount_wrapped {ts a b d : Nat} (hts : 1 ≤ ts) (ha : a < 2 ^ 32)
    (hd : a + d = b + 2 ^ 32) (hlt : b < a) :
    RightAmount ts d (if a / ts ≤ b / ts then b / ts - a / ts else 2 ^ 32 - (a / ts - b / ts)) ↔
      ts = 1 ∨ a < ts ∧ d ≤ ts := by
  have hqa := Nat.div_add_mod a ts
  have hqb := Nat.div_add_mod b ts
  have hma := Nat.mod_lt a hts
  have hmb := Nat.mod_lt b hts
  have hmono : b / ts ≤ a / ts := Nat.div_le_div_right (Nat.le_of_lt hlt)
  unfold RightAmount
  by_cases heq : a / ts = b / ts
  · -- nothing is added
    have hpos : a / ts ≠ 0 → ts ≤ ts * (a / ts) := fun h =>
      Nat.le_mul_of_pos_right _ (Nat.pos_of_ne_zero h)
    have hzero : a / ts = 0 ↔ a < ts := Nat.div_eq_zero_iff_lt hts
    rw [if_pos (Nat.le_of_eq heq), heq, Nat.sub_self, Nat.zero_mul]
    rw [← heq] at hqb
    generalize ts * (a / ts) = x at *
    by_cases hone : ts = 1
    · omega
    · omega
  · -- the difference has wrapped, but by 2 ^ 32 microseconds and not by 2 ^ 32 ticks
    have hlt' : b / ts < a / ts := Nat.lt_of_le_of_ne hmono (Ne.symm heq)
    have hq : a / ts ≤ a := Nat.div_le_self a ts
    have hge : ts ≤ a := by
      by_contra hn
      rw [Nat.div_eq_of_lt (Nat.not_le.mp hn)] at hlt'
      exact absurd hlt' (Nat.not_lt_zero _)
    have hmul : (2 ^ 32 - (a / ts - b / ts)) * ts = 2 ^ 32 * ts - (ts * (a / ts) - ts * (b / ts)) := by
      rw [Nat.sub_mul, Nat.sub_mul, Nat.mul_comm ts, Nat.mul_comm ts]
    have hle : ts * (b / ts) ≤ ts * (a / ts) := Nat.mul_le_mul_left _ hmono
    rw [if_neg (Nat.not_le.mpr hlt'), hmul]
    generalize ts * (a / ts) = x at *
    generalize ts * (b / ts) = y at *
    omega

/-- The variables to which the handlers add a difference of two readings. -/
inductive Account
  | cpuSlice | cpuTime | pseudoTick
deriving DecidableEq

namespace Kernel

variable {k : Kernel} {a : Account}

/-- The reading that was saved for the variable, in microseconds. -/
def savedTod (k : Kernel) : Account → U32
  | .cpuSlice | .cpuTime => k.currentThreadTod
  | .pseudoTick => k.startPseudoTick

/-- What the code adds to the variable with its next reading. -/
def added (k : Kernel) : Account → U32
  | .cpuSlice => (k.chargeSlice.tcb k.currentThread).cpuSlice - (k.tcb k.currentThread).cpuSlice
  | .cpuTime => (k.chargeTime.tcb k.currentThread).cpuTime - (k.tcb k.currentThread).cpuTime
  | .pseudoTick => k.updatePseudoTick.pseudoTick - k.pseudoTick

theorem added_eq (k : Kernel) (a : Account) : k.added a = k.getTodlow - k.savedTod a := by
  have hsub : ∀ x y : U32, x + y - x = y := by
    intro x y
    rw [BitVec.add_comm, BitVec.add_sub_cancel]
  cases a <;> simp [added, savedTod, chargeSlice, chargeTime, updatePseudoTick, setTcb, readTodlow, hsub]

/-- The saved value was read `saved` ticks after power-on, and the next reading comes after `now`
ticks, within one turn of the register. -/
structure ReadAt (k : Kernel) (a : Account) (saved now : Nat) : Prop where
  saved_eq : k.savedTod a = BitVec.ofNat 32 saved / k.timescale
  now_eq : k.todlow 0 = BitVec.ofNat 32 now
  le : saved ≤ now
  turn : now - saved < 2 ^ 32

/-- The amount is right exactly when the machine has one tick a microsecond, the register has not
wrapped in between, or its whole value was less than a microsecond before and so is the distance. -/
theorem added_right_iff {saved now : Nat} (h : k.ReadAt a saved now) (hts : 1 ≤ k.timescale.toNat) :
    RightAmount k.timescale.toNat (now - saved) (k.added a).toNat ↔
      k.timescale.toNat = 1 ∨ saved % 2 ^ 32 + (now - saved) < 2 ^ 32 ∨
        saved % 2 ^ 32 < k.timescale.toNat ∧ now - saved ≤ k.timescale.toNat := by
  have hle := h.le
  have hturn := h.turn
  have hlow : saved % 2 ^ 32 < 2 ^ 32 := Nat.mod_lt _ (by decide)
  rw [added_eq, getTodlow, h.saved_eq, h.now_eq, sub_div_toNat, BitVec.toNat_ofNat,
    BitVec.toNat_ofNat]
  by_cases hwrap : saved % 2 ^ 32 + (now - saved) < 2 ^ 32
  · have hnow : now % 2 ^ 32 = saved % 2 ^ 32 + (now - saved) := by omega
    rw [hnow, if_pos (Nat.div_le_div_right (Nat.le_add_right _ _))]
    exact iff_of_true (rightAmount_of_le hts) (.inr (.inl hwrap))
  · have hnow : saved % 2 ^ 32 + (now - saved) = now % 2 ^ 32 + 2 ^ 32 := by omega
    have hlt : now % 2 ^ 32 < saved % 2 ^ 32 := by omega
    rw [rightAmount_wrapped hts hlow hnow hlt]
    simp only [hwrap, false_or]

/-- On a machine with `ts` ticks a microsecond, the last thread was loaded at tick `saved`, and the
register shows `now` from here on. -/
def readAgain (ts saved now : Nat) : Kernel :=
  { zeroed with
    timescale := BitVec.ofNat 32 ts
    currentThreadTod := BitVec.ofNat 32 saved / BitVec.ofNat 32 ts
    todlow := fun _ => BitVec.ofNat 32 now }

theorem readAgain_readAt {ts saved now : Nat} (hle : saved ≤ now) (hturn : now - saved < 2 ^ 32) :
    (readAgain ts saved now).ReadAt .cpuTime saved now :=
  ⟨rfl, rfl, hle, hturn⟩

/-- With one tick a microsecond a wrap does no harm. -/
theorem added_right_iff_one : RightAmount 1 3000
    ((readAgain 1 (2 ^ 32 - 1000) (2 ^ 32 + 2000)).added .cpuTime).toNat :=
  (added_right_iff (readAgain_readAt (by decide) (by decide)) (by decide)).mpr (.inl rfl)

/-- With two ticks a microsecond, one microsecond counts for more than half an hour. -/
theorem added_right_fails : ¬ ∀ (k : Kernel) (a : Account) (saved now : Nat), k.ReadAt a saved now →
    1 ≤ k.timescale.toNat → RightAmount k.timescale.toNat (now - saved) (k.added a).toNat := by
  intro hall
  have hright := hall (readAgain 2 (2 ^ 32 - 2) (2 ^ 32)) .cpuTime _ _
    (readAgain_readAt (by decide) (by decide)) (by decide)
  have hadded : ((readAgain 2 (2 ^ 32 - 2) (2 ^ 32)).added .cpuTime).toNat = 2 ^ 31 + 1 := by
    decide +kernel
  have hts : (readAgain 2 (2 ^ 32 - 2) (2 ^ 32)).timescale.toNat = 2 := by decide
  rw [hadded, hts] at hright
  exact absurd hright.1 (by decide)

end Kernel

end AmiKaya
