import AmiKaya.Intervals
import AmiKaya.NamedManagers
import AmiKaya.Readings

/-! The processor time that is charged to the threads. -/
namespace AmiKaya
open Lts Intervals

/-- The intervals of the processor that have been charged, and to whom: a TCB and how often it had
been allocated before. -/
structure CpuLog where
  births : Ptr → Nat
  loaded : Nat
  intervals : List (Stretch (Ptr × Nat))

namespace CpuLog

/-- `main` reads the clock, and the scheduler loads the SSI at its third reading. -/
def boot (k : Kernel) : CpuLog := ⟨fun _ => 0, k.times.tod 3, []⟩

def birth (births : Ptr → Nat) : Option Ptr → Ptr → Nat
  | some p => put births p (births p + 1)
  | none => births

/-- From the load of the thread on the processor to the second reading of the handler. -/
def charge (log : CpuLog) (m : Machine) (e : Event) : List (Stretch (Ptr × Nat)) :=
  if m.charges e then
    ⟨(m.k.currentThread, log.births m.k.currentThread), log.loaded, m.k.times.tod 1⟩ :: log.intervals
  else log.intervals

/-- The scheduler loads a thread at its third reading. -/
def load (log : CpuLog) (m : Machine) (e : Event) (m' : Machine) : Nat :=
  if m.schedules e = true ∧ m'.k.currentThread ≠ null then
    match m.body e with
    | .ok k => k.times.tod 2
    | .error _ => log.loaded
  else log.loaded

def note (m : Machine) (e : Event) (m' : Machine) (log : CpuLog) : CpuLog :=
  ⟨birth log.births (m.born e), log.load m e m', log.charge m e⟩

end CpuLog

/-! What the readings amount to, as long as nobody is born. -/

variable {b e e' : Nat} {t t' : Times} {A A' : Ptr → Prop} {births : Ptr → Nat}
  {is : List (Stretch (Ptr × Nat))} {p : Ptr}

/-- Until `e` the intervals account for the time of the threads in `A`. -/
structure Accounts (b e : Nat) (t : Times) (A : Ptr → Prop) (births : Ptr → Nat)
    (is : List (Stretch (Ptr × Nat))) : Prop where
  packed : Packed b is e
  known : ∀ i ∈ is, i.owner.2 ≤ births i.owner.1
  time : ∀ p, A p → (t.cpuTime p).toNat = spent (p, births p) is
  slice : ∀ p, A p → t.cpuSlice p ≤ t.cpuTime p

namespace Accounts

/-- Time passes. -/
theorem later (h : Accounts b e t A births is) (htime : t'.cpuTime = t.cpuTime)
    (hslice : t'.cpuSlice = t.cpuSlice) (he : e ≤ e') (hA : ∀ p, A' p → A p) :
    Accounts b e' t' A' births is where
  packed := h.packed.mono he
  known := h.known
  time q hq := by
    rw [htime]
    exact h.time q (hA q hq)
  slice q hq := by
    rw [htime, hslice]
    exact h.slice q (hA q hq)

/-- The thread on the processor is charged. -/
theorem charge (h : Accounts b t.currentThreadTod.toNat t A births is) (hp : A p)
    (hm : Monotone t.tod) (hl : t.currentThreadTod.toNat ≤ t.tod 0) :
    Accounts b (t.tod 1) (t.charge p) A births
      (⟨(p, births p), t.currentThreadTod.toNat, t.tod 1⟩ :: is) := by
  have h01 : t.tod 0 ≤ t.tod 1 := hm (by omega)
  have hpacked : Packed b (⟨(p, births p), t.currentThreadTod.toNat, t.tod 1⟩ :: is) (t.tod 1) :=
    .cons h.packed (by dsimp only; omega) le_rfl
  have hspent : spent (p, births p) (⟨(p, births p), t.currentThreadTod.toNat, t.tod 1⟩ :: is) =
      (t.tod 1 - t.currentThreadTod.toNat) + spent (p, births p) is := by
    rw [spent_cons, if_pos rfl]
    rfl
  -- the new total is a time since boot, so neither sum overflows
  have hbound : spent (p, births p) is + (t.tod 1 - t.currentThreadTod.toNat) < 2 ^ 32 := by
    have hsum := hpacked.sum_spent_le (List.nodup_singleton (p, births p))
    have hlt : t.tod 1 < 2 ^ 32 := BitVec.isLt _
    simp only [List.map_cons, List.map_nil, List.sum_cons, List.sum_nil] at hsum
    omega
  have htime : ((t.charge p).cpuTime p).toNat =
      (t.cpuTime p).toNat + (t.tod 1 - t.currentThreadTod.toNat) := by
    have hput : (t.charge p).cpuTime p =
        t.cpuTime p + (t.todlow 1 / t.timescale - t.currentThreadTod) := Links.put_same
    rw [hput, Times.toNat_charged]
    · rfl
    · exact hl.trans h01
    · rw [h.time p hp]
      exact hbound
  have hslice : ((t.charge p).cpuSlice p).toNat =
      (t.cpuSlice p).toNat + (t.tod 0 - t.currentThreadTod.toNat) := by
    have hput : (t.charge p).cpuSlice p = t.cpuSlice p + (t.getTodlow - t.currentThreadTod) :=
      Links.put_same
    have hle : (t.cpuSlice p).toNat ≤ (t.cpuTime p).toNat := h.slice p hp
    rw [hput, Times.toNat_charged]
    · rfl
    · exact hl
    · have htod : t.getTodlow.toNat = t.tod 0 := rfl
      rw [h.time p hp] at hle
      omega
  have hother : ∀ q, q ≠ p → (t.charge p).cpuTime q = t.cpuTime q ∧
      (t.charge p).cpuSlice q = t.cpuSlice q := by
    intro q hq
    simp [Times.charge, Times.chargeTime, Times.chargeSlice, Times.readTodlow, hq]
  refine ⟨hpacked, ?_, ?_, ?_⟩
  · intro i hi
    rcases List.mem_cons.mp hi with rfl | hi
    · exact le_rfl
    · exact h.known i hi
  · intro q hq
    by_cases hqp : q = p
    · subst hqp
      rw [htime, hspent, h.time q hq]
      omega
    · have hne : (p, births p) ≠ (q, births q) := fun he => hqp (congrArg Prod.fst he).symm
      rw [(hother q hqp).1, h.time q hq, spent_cons, if_neg hne, Nat.zero_add]
  · intro q hq
    by_cases hqp : q = p
    · subst hqp
      have hle : (t.cpuSlice q).toNat ≤ (t.cpuTime q).toNat := h.slice q hq
      rw [BitVec.le_def, htime, hslice]
      omega
    · rw [(hother q hqp).1, (hother q hqp).2]
      exact h.slice q hq

theorem newSlice (h : Accounts b e t A births is) (p : Ptr) :
    Accounts b e (t.newSlice p) A births is := by
  refine ⟨h.packed, h.known, h.time, ?_⟩
  intro q hq
  by_cases hqp : q = p
  · subst hqp
    have hzero : (t.newSlice q).cpuSlice q = 0 := Links.put_same
    rw [hzero, BitVec.le_def]
    exact Nat.zero_le _
  · simpa [Times.newSlice, hqp] using h.slice q hq

/-- A new thread has been charged nothing. -/
theorem birth (h : Accounts b e t A births is) (hp : ¬ A p) (hA : ∀ q, A' q → A q ∨ q = p) :
    Accounts b e (t.birth p) A' (put births p (births p + 1)) is := by
  have hknown : ∀ i ∈ is, i.owner.2 ≤ put births p (births p + 1) i.owner.1 := by
    intro i hi
    have hle := h.known i hi
    by_cases hip : i.owner.1 = p
    · rw [hip] at hle ⊢
      simp only [Links.put_same]
      omega
    · simpa [hip] using hle
  refine ⟨h.packed, hknown, ?_, ?_⟩
  · intro q hq
    by_cases hqp : q = p
    · subst hqp
      have hnone : ∀ i ∈ is, i.owner ≠ (q, births q + 1) := by
        intro i hi he
        have hle := h.known i hi
        rw [he] at hle
        simp only at hle
        omega
      simp [Times.birth, spent_eq_zero hnone]
    · have haq := (hA q hq).resolve_right hqp
      simpa [Times.birth, Times.newSlice, hqp] using h.time q haq
  · intro q hq
    by_cases hqp : q = p
    · subst hqp
      simp [Times.birth, Times.newSlice]
    · have haq := (hA q hq).resolve_right hqp
      simpa [Times.birth, Times.newSlice, hqp] using h.slice q haq

end Accounts

namespace Machine

variable {m m' : Machine} {e : Event} {log : CpuLog}

/-- A handler charges a thread that is on the processor. -/
theorem current_of_charges (hw : m.Wf) (hen : m.Enabled e) (hc : m.charges e = true) :
    m.k.currentThread ≠ null := by
  cases e with
  | sysbp old => exact hen.1
  | pgmtrap old | tlb old => exact hen
  | interrupt old => simpa [charges] using hc
  | ssi old =>
    have hcur : m.k.currentThread = m.k.ssiTcb := hen
    rw [hcur]
    exact hw.ssi_ne_null
  | devices | store | edit => cases hc

theorem charges_schedules (hs : m.schedules e = false) : m.charges e = false := by
  cases e with
  | interrupt => cases hs
  | sysbp | pgmtrap | tlb | ssi | devices | store | edit => exact hs

/-- The TCBs in use were so before, or have just been born. -/
theorem allocated_born (hw : m.Wf) (h : m.Step e m') {p : Ptr} (ha : m'.k.Allocated p) :
    m.k.Allocated p ∨ m.born e = some p := by
  rcases allocated_step hw h ha with ha | ⟨old, rfl, hcall, hal, hp⟩
  · exact .inl ha
  · obtain ⟨free, hf, -⟩ := Kernel.allocTcb_cases hal hp
    right
    simp [born, hcall, hf]

theorem born_not_allocated {p : Ptr} (hp : m.born e = some p) : ¬ m.k.Allocated p := by
  have hmem : p ∈ m.k.tcbFree := by
    cases e with
    | ssi old =>
      simp only [born] at hp
      cases hcall : m.ssi.call m.k <;> simp only [hcall] at hp
      case allocTcb => exact List.mem_of_mem_head? hp
      all_goals cases hp
    | sysbp | pgmtrap | tlb | interrupt | devices | store | edit => cases hp
  exact fun ha => ha.2 hmem

end Machine

namespace CpuLog

open Machine

variable {m m' : Machine} {ev : Event} {log : CpuLog}

/-- The last moment the log knows of: the load of the thread on the processor, or now. -/
def horizon (log : CpuLog) (m : Machine) : Nat :=
  if m.k.currentThread = null then m.k.times.tod 0 else log.loaded

/-- The log accounts for the processor time of all threads since `b`. -/
structure Sound (b : Nat) (m : Machine) (log : CpuLog) : Prop where
  clock : Monotone m.k.times.tod
  loaded : m.k.currentThread ≠ null →
    m.k.times.currentThreadTod.toNat = log.loaded ∧ log.loaded ≤ m.k.times.tod 0
  accounts : Accounts b (log.horizon m) m.k.times m.k.Allocated log.births log.intervals

theorem Sound.horizon_le (hs : log.Sound b m) : log.horizon m ≤ m.k.times.tod 0 := by
  unfold horizon
  split
  · exact le_rfl
  · exact (hs.loaded ‹_›).2

/-- The handler charges the thread it interrupts up to its second reading. -/
theorem Sound.entry (hs : log.Sound b m) (hw : m.Wf) (hen : m.Enabled ev) :
    ∃ e', Accounts b e' (m.entryTimes ev) m.k.Allocated log.births (log.charge m ev) ∧
      e' ≤ (m.entryTimes ev).tod 0 ∧ Monotone (m.entryTimes ev).tod ∧
      (m.charges ev = false → e' = log.horizon m) := by
  cases hc : m.charges ev with
  | false =>
    have hentry : m.entryTimes ev = m.k.times := if_neg (by simp [hc])
    have hcharge : log.charge m ev = log.intervals := if_neg (by simp [hc])
    rw [hentry, hcharge]
    exact ⟨_, hs.accounts, hs.horizon_le, hs.clock, fun _ => rfl⟩
  | true =>
    have hn := current_of_charges hw hen hc
    obtain ⟨hl, hle⟩ := hs.loaded hn
    have hp : m.k.Allocated m.k.currentThread :=
      Kernel.Live.allocated hw.placed (.inr (.inr (Kernel.mem_running.mpr ⟨rfl, hn⟩)))
    have hentry : m.entryTimes ev = m.k.times.charge m.k.currentThread := if_pos hc
    have hcharge : log.charge m ev = ⟨(m.k.currentThread, log.births m.k.currentThread), log.loaded,
        m.k.times.tod 1⟩ :: log.intervals := if_pos hc
    have haccounts := hs.accounts
    rw [horizon, if_neg hn, ← hl] at haccounts
    obtain ⟨hmono, -⟩ := Times.shift_mono hs.clock fun n =>
      Times.charge_tod (t := m.k.times) (p := m.k.currentThread) n
    rw [hentry, hcharge, ← hl]
    refine ⟨_, haccounts.charge hp hs.clock (hl ▸ hle), ?_, hmono, fun hf => ?_⟩
    · rw [Times.charge_tod]
      exact hs.clock (by omega)
    · cases hf

/-- At the end of the handler the log still accounts for everything. -/
theorem Sound.body (hs : log.Sound b m) (hw : m.Wf) (h : m.Step ev m') :
    ∃ e', Accounts b e' (m.bodyTimes ev) m'.k.Allocated (birth log.births (m.born ev)) (log.charge m ev) ∧
      e' ≤ (m.bodyTimes ev).tod 0 ∧ Monotone (m.bodyTimes ev).tod ∧
      (m.charges ev = false → e' = log.horizon m) := by
  obtain ⟨e', hacc, hle, hmono, hhor⟩ := hs.entry hw h.1
  obtain ⟨t, ht⟩ : ∃ t, t = if isTimer ev then (m.entryTimes ev).update.tick else m.entryTimes ev :=
    ⟨_, rfl⟩
  have htick : t.cpuTime = (m.entryTimes ev).cpuTime ∧ t.cpuSlice = (m.entryTimes ev).cpuSlice ∧
      ∃ d, ∀ n, t.tod n = (m.entryTimes ev).tod (n + d) := by
    rw [ht]
    split
    · obtain ⟨d, hd⟩ := Times.tick_tod (t := (m.entryTimes ev).update)
      refine ⟨?_, ?_, d + 2, fun n => by rw [hd, Times.update_tod, Nat.add_assoc]⟩
      · unfold Times.tick
        split <;> rfl
      · unfold Times.tick
        split <;> rfl
    · exact ⟨rfl, rfl, 0, fun _ => rfl⟩
  obtain ⟨htime, hslice, d, hd⟩ := htick
  obtain ⟨hmono', hle'⟩ := Times.shift_mono hmono hd
  have hbody : m.bodyTimes ev = t.births (m.born ev) := by rw [bodyTimes, ← ht]
  have htod : ∀ n, (m.bodyTimes ev).tod n = t.tod n := fun n => by rw [hbody, Times.births_tod]
  refine ⟨e', ?_, ?_, ?_, hhor⟩
  · rw [hbody]
    cases hborn : m.born ev with
    | none =>
      have hA : ∀ p, m'.k.Allocated p → m.k.Allocated p := by
        intro p hp
        rcases allocated_born hw h hp with hp | hp
        · exact hp
        · rw [hborn] at hp
          cases hp
      exact hacc.later htime hslice le_rfl hA
    | some p =>
      have hA : ∀ q, m'.k.Allocated q → m.k.Allocated q ∨ q = p := by
        intro q hq
        rcases allocated_born hw h hq with hq | hq
        · exact .inl hq
        · rw [hborn] at hq
          exact .inr (Option.some.inj hq).symm
      exact (hacc.later htime hslice le_rfl fun _ => id).birth (born_not_allocated hborn) hA
  · rw [htod]
    exact hle.trans hle'
  · intro i j hij
    rw [htod, htod]
    exact hmono' hij

/-- Without a call of the scheduler no reading is made. -/
theorem bodyTimes_quiet (hs : m.schedules ev = false) :
    m.bodyTimes ev = m.k.times.births (m.born ev) := by
  have hentry : m.entryTimes ev = m.k.times := if_neg (by simp [charges_schedules hs])
  have htimer : isTimer ev = false := by
    cases ev with
    | interrupt => cases hs
    | sysbp | pgmtrap | tlb | ssi | devices | store | edit => rfl
  rw [bodyTimes, hentry, htimer]
  rfl

/-- The scheduler, at the end of an event whose handler has been accounted for, keeps the log sound.
Where it is not called the log was sound before. -/
theorem sound_of_body (hw : m.Wf) (h : m.Step ev m')
    (hacc : Accounts b e' (m.bodyTimes ev) m'.k.Allocated (birth log.births (m.born ev))
      (log.charge m ev))
    (hle : e' ≤ (m.bodyTimes ev).tod 0) (hmono : Monotone (m.bodyTimes ev).tod)
    (hquiet : m.schedules ev = false → log.Sound b m ∧ e' = log.horizon m) :
    (note m ev m' log).Sound b m' := by
  rcases step_times hw h with ⟨hidle, ht⟩ | ⟨hsch, hn, t, htt, ht⟩
  · have hload : log.load m ev m' = log.loaded := by
      apply if_neg
      rintro ⟨hsch, hn⟩
      rcases hidle with hf | hc
      · rw [hsch] at hf
        cases hf
      · exact hn hc
    -- a thread that is still on the processor was loaded before
    have hkept : m'.k.currentThread ≠ null → m.schedules ev = false ∧ m.k.currentThread ≠ null := by
      intro hn
      have hf := hidle.resolve_right hn
      rcases loaded_of_step hw h hn with ⟨hcur, -⟩ | ⟨hsch, -⟩
      · exact ⟨hf, hcur ▸ hn⟩
      · rw [hsch] at hf
        cases hf
    refine ⟨ht ▸ hmono, ?_, ?_⟩
    · intro hn
      obtain ⟨hf, hn₀⟩ := hkept hn
      obtain ⟨hl, hle₀⟩ := (hquiet hf).1.loaded hn₀
      have hbody := bodyTimes_quiet hf
      have htod : (m.k.times.births (m.born ev)).currentThreadTod = m.k.times.currentThreadTod := by
        cases m.born ev <;> rfl
      change _ = log.load m ev m' ∧ log.load m ev m' ≤ _
      rw [hload, ht, hbody, htod, Times.births_tod]
      exact ⟨hl, hle₀⟩
    · have hhor : e' ≤ (note m ev m' log).horizon m' := by
        by_cases hn : m'.k.currentThread = null
        · rw [horizon, if_pos hn, ht]
          exact hle
        · obtain ⟨hf, hn₀⟩ := hkept hn
          rw [(hquiet hf).2, horizon, horizon, if_neg hn₀, if_neg hn]
          exact hload.ge
      exact ht ▸ hacc.later rfl rfl hhor fun _ => id
  · obtain ⟨k, hb, -⟩ := step_body h
    have hload : log.load m ev m' = (m.bodyTimes ev).tod 2 := by
      rw [load, if_pos ⟨hsch, hn⟩, hb, ← body_times hb]
    have htod : ∀ n, t.tod n = (m.bodyTimes ev).tod (n + 2) := by
      rcases htt with rfl | rfl <;> exact fun _ => rfl
    have hstart : m'.k.times.currentThreadTod.toNat = (m.bodyTimes ev).tod 2 := by
      rw [ht]
      exact htod 0
    have hnext : m'.k.times.tod 0 = (m.bodyTimes ev).tod 3 := by
      rw [ht, Times.load_tod, htod]
    have haccounts : Accounts b ((m.bodyTimes ev).tod 2) t m'.k.Allocated
        (birth log.births (m.born ev)) (log.charge m ev) := by
      have hlater : Accounts b ((m.bodyTimes ev).tod 2) (m.bodyTimes ev).update m'.k.Allocated
          (birth log.births (m.born ev)) (log.charge m ev) :=
        hacc.later rfl rfl (hle.trans (hmono (Nat.zero_le 2))) fun _ => id
      rcases htt with rfl | rfl
      · exact hlater
      · exact hlater.newSlice _
    refine ⟨?_, ?_, ?_⟩
    · have hshift : ∀ n, m'.k.times.tod n = (m.bodyTimes ev).tod (n + 3) := fun n => by
        rw [ht, Times.load_tod, htod]
      exact (Times.shift_mono hmono hshift).1
    · intro _
      change _ = log.load m ev m' ∧ log.load m ev m' ≤ _
      rw [hload, hnext]
      exact ⟨hstart, hmono (by omega)⟩
    · have hhor' : (note m ev m' log).horizon m' = (m.bodyTimes ev).tod 2 := by
        rw [horizon, if_neg hn]
        exact hload
      rw [hhor', ht]
      exact haccounts.later rfl rfl le_rfl fun _ => id

/-- One step keeps the log sound. -/
theorem Sound.step (hs : log.Sound b m) (hw : m.Wf) (h : m.Step ev m') :
    (note m ev m' log).Sound b m' := by
  obtain ⟨e', hacc, hle, hmono, hhor⟩ := hs.body hw h
  exact sound_of_body hw h hacc hle hmono fun hf => ⟨hs, hhor (charges_schedules hf)⟩

theorem sound_boot {k : Kernel} (hb : m.BootsFrom k) (hm : Monotone k.times.tod) :
    (boot k).Sound (k.times.tod 0) m := by
  have hbooted := Kernel.main_booted hb.powerOn hb.main
  obtain ⟨t, hboot, ht⟩ := Kernel.times_main hb.main
  have hn : m.k.currentThread ≠ null := by
    rw [hbooted.currentThread]
    decide
  have htod : ∀ n, m.k.times.tod n = k.times.tod (n + 4) := fun n => by
    rw [ht, Times.load_tod, Times.newSlice_tod, Times.update_tod, hboot.tod]
  have hstart : m.k.times.currentThreadTod.toNat = k.times.tod 3 := by
    rw [ht]
    exact hboot.tod 2
  have hmem : ∀ p, m.k.Allocated p → p ∈ [threadArrayAddr, testThreadAddr] := by
    rintro p ⟨hp, hf⟩
    rw [threadArray_eq] at hp
    rw [hbooted.tcbFree] at hf
    simp only [List.mem_cons] at hp ⊢
    tauto
  have htime : ∀ p, m.k.Allocated p → m.k.times.cpuTime p = 0 := fun p hp => by
    rw [ht]
    exact hboot.cpuTime p (hmem p hp)
  have hslice : ∀ p, m.k.Allocated p → m.k.times.cpuSlice p = 0 := by
    intro p hp
    have hput : m.k.times.cpuSlice p = put t.cpuSlice threadArrayAddr 0 p := by
      rw [ht]
      rfl
    rw [hput]
    by_cases hpa : p = threadArrayAddr
    · rw [hpa, Links.put_same]
    · rw [Links.put_ne hpa]
      exact hboot.cpuSlice p (hmem p hp)
  refine ⟨(Times.shift_mono hm htod).1, ?_, ?_⟩
  · intro _
    rw [htod]
    exact ⟨hstart, hm (by omega)⟩
  · rw [horizon, if_neg hn]
    refine ⟨.nil (hm (by omega)), by simp [boot], ?_, ?_⟩
    · intro p hp
      rw [htime p hp]
      rfl
    · intro p hp
      rw [htime p hp, hslice p hp, BitVec.le_def]

theorem charge_suffix (log : CpuLog) (m : Machine) (e : Event) :
    log.intervals <:+ log.charge m e := by
  unfold charge
  split
  · exact List.suffix_cons _ _
  · exact List.suffix_rfl

end CpuLog

/-- The threads in a queue or on the processor. -/
def Kernel.living (k : Kernel) : List Ptr := k.readyQueue ++ k.waitQueue ++ k.running

theorem Kernel.mem_living {k : Kernel} {p : Ptr} : p ∈ k.living ↔ k.Live p := by
  simp [living, Live]

theorem Placed.living_nodup {k : Kernel} (hk : Placed k) : k.living.Nodup := by
  have hsub : List.Sublist k.living k.places :=
    .append (List.sublist_append_left _ _) (List.Sublist.refl _)
  exact hk.nodup.sublist hsub

namespace Machine

variable {m m' : Machine} {log : CpuLog}

/-- The processor time of the threads, against the intervals in which they were on the processor and
the time `b` of boot. -/
structure CpuSound (b : Nat) (m : Machine) (log : CpuLog) : Prop where
  charged : ∀ p, m.k.Live p → (m.k.tcb p).cpuTime.toNat = spent (p, log.births p) log.intervals
  disjoint : log.intervals.Pairwise fun i j => j.stop ≤ i.start
  slice : ∀ p, m.k.Live p → (m.k.tcb p).cpuSlice ≤ (m.k.tcb p).cpuTime
  elapsed : (m.k.living.map fun p => (m.k.tcb p).cpuTime.toNat).sum ≤ last b log.intervals - b
  past : last b log.intervals ≤ m.k.times.tod 0

theorem cpuSound_of_sound (hs : log.Sound b m) (hw : m.Wf) : CpuSound b m log := by
  have hacc := hs.accounts
  have htime : ∀ p, m.k.Live p → (m.k.tcb p).cpuTime.toNat = spent (p, log.births p) log.intervals :=
    fun p hp => hacc.time p (hp.allocated hw.placed)
  obtain ⟨hlast, hle⟩ := hacc.packed.last_le
  refine ⟨htime, hacc.packed.pairwise, fun p hp => hacc.slice p (hp.allocated hw.placed), ?_,
    hle.trans hs.horizon_le⟩
  have hmap : (m.k.living.map fun p => (m.k.tcb p).cpuTime.toNat) =
      (m.k.living.map fun p => (p, log.births p)).map fun o => spent o log.intervals := by
    rw [List.map_map]
    apply List.map_congr_left
    intro p hp
    exact htime p (Kernel.mem_living.mp hp)
  have hnodup : (m.k.living.map fun p => (p, log.births p)).Nodup :=
    hw.placed.living_nodup.map fun p q he => congrArg Prod.fst he
  have hsum := hlast.sum_spent_le hnodup
  rw [hmap]
  omega

end Machine

end AmiKaya
