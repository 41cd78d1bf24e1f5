import AmiKaya.SoftBlock

/-! What the scheduler decides when nobody can run: HALT, a deadlock, or waiting for an interrupt.
It only reads the two counters. -/
namespace AmiKaya
open Lts

namespace Kernel

variable {k k' : Kernel}

/-- The number of threads in a queue or on the processor. -/
def population (k : Kernel) : Nat := k.readyQueue.length + k.waitQueue.length + k.running.length

/-- The threads `thread_count` counts beyond those. -/
def balance (k : Kernel) : U32 := k.threadCount - BitVec.ofNat 32 k.population

theorem length_places (k : Kernel) : k.places.length = k.population + k.tcbFree.length := by
  simp only [places, population, List.length_append]
  omega

theorem population_eq (hf : k'.tcbFree = k.tcbFree) (hp : SamePlaces k k') :
    k'.population = k.population := by
  have h := hp.length_eq
  rw [length_places, length_places, hf] at h
  omega

theorem balance_eq (ht : k'.threadCount = k.threadCount) (hf : k'.tcbFree = k.tcbFree)
    (hp : SamePlaces k k') : k'.balance = k.balance := by
  rw [balance, balance, ht, population_eq hf hp]

theorem Quiet.balance (h : Quiet k k') : k'.balance = k.balance :=
  balance_eq h.threadCount h.tcbFree (SamePlaces.quiet h)

/-- Each freed thread is counted down once. -/
theorem terminate_balance {t : Ptr} (hk : Placed k) (ht : t ≠ null) (h : k.terminate t = .ok k') :
    k'.balance = k.balance := by
  obtain ⟨ds, -, hd⟩ := Reaped.terminate hk ht h
  have hp := (SamePlaces.terminate hk ht h).length_eq
  have hpop : k.population = k'.population + ds.length := by
    rw [length_places, length_places, hd.tcbFree, List.length_append] at hp
    omega
  rw [balance, balance, hpop, ← hd.threadCount, BitVec.ofNat_add]
  grind

/-- Only the two steps of a creation change the balance. -/
theorem step_balance {o : Op} (hk : Placed k) (hs : OpStep k o k') (hc : o ≠ .countThread)
    (hp : ∀ p, o ≠ .publish p) : k'.balance = k.balance := by
  by_cases ha : ∃ p, o = .alloc p
  · obtain ⟨p, rfl⟩ := ha
    cases hs with
    | alloc ha hp =>
      obtain ⟨free, hf, rfl⟩ := allocTcb_cases ha hp
      rfl
  · have hsame := SamePlaces.step hs hk (fun p he => ha ⟨p, he⟩) hp
    cases hs with
    | quiet hq => exact Quiet.balance hq
    | send hs => exact balance_eq (send_frame hs).threadCount (send_frame hs).tcbFree hsame
    | recv _ hr =>
      rcases recv_cases hr with ⟨-, -, rfl⟩ | ⟨m, rest, -, -, -, rfl⟩
      · exact balance_eq rfl rfl hsame
      · exact balance_eq rfl rfl hsame
    | terminate ht h => exact terminate_balance hk ht h
    | resume hr =>
      obtain ⟨-, -, rfl⟩ := continueTrapped_cases hr
      exact balance_eq rfl rfl hsame
    | alloc => exact absurd ⟨_, rfl⟩ ha
    | countThread => exact absurd rfl hc
    | publish => exact absurd rfl (hp _)
    | request | freeze _ _ | dispatch _ _ | preempt _ | insertChild _ | insertSibling _ =>
      exact balance_eq rfl rfl hsame

end Kernel

/-- A kernel entry never changes the balance. -/
theorem Ops.balance {x : Entry} {c : Ptr} {k k' : Kernel} (hk : Placed k)
    (h : Ops (x.Allows c) k k') (hx : x ≠ .program) (hp : ∀ p, x ≠ .publish p) :
    k'.balance = k.balance := by
  have hinv := h.inv (I := fun k' => Placed k' ∧ k'.balance = k.balance) ?_ ⟨hk, rfl⟩
  · exact hinv.2
  · rintro k₁ o k₂ hs ha ⟨hk₁, he⟩
    refine ⟨hk₁.step hs, (Kernel.step_balance hk₁ hs ?_ ?_).trans he⟩
    · rintro rfl
      exact hx ha
    · rintro p rfl
      exact hp p ha

def Event.isTrap : Event → Bool
  | .pgmtrap _ | .tlb _ => true
  | _ => false

/-- The SSI has counted a thread and not published it yet. -/
def SsiPc.counted : SsiPc → Bool
  | .copyState _ | .inherit | .publish => true
  | _ => false

theorem Ssi.next_counted (s : Ssi) (k : Kernel) (r : U32) : (s.next k r).pc.counted =
    match s.pc with
    | .count _ | .copyState _ | .inherit => true
    | _ => false := by
  cases hpc : s.pc <;> simp only [next, hpc]
  case serve =>
    by_contra hc
    have hl : (s.dispatch k).pc.linked = true := by
      cases hd : (s.dispatch k).pc <;> simp_all [SsiPc.counted, SsiPc.linked]
    have := linked_creates hl
    simp [dispatch_creates] at this
  case copyState c => cases c <;> rfl
  case alloc c | noGood c =>
    repeat' split
    all_goals first | rfl | (cases c <;> rfl)
  case interrupt | interruptClear | waitIoClear =>
    repeat' split
    all_goals first | rfl | rw [hpc]; rfl
  all_goals
    repeat' split
    all_goals rfl

namespace Machine

variable {m m' : Machine} {e : Event} {k : Kernel} {pend : Ptr → Bool}

theorem entry_of_schedules (h : m.schedules e = true) :
    m.entry e ≠ .program ∧ ∀ p, m.entry e ≠ .publish p := by
  cases e with
  | sysbp old =>
    simp only [entry, Kernel.sysbpEntry]
    repeat' split
    all_goals simp
  | ssi old =>
    simp only [schedules] at h
    simp only [entry]
    cases hcall : m.ssi.call m.k <;> simp only [hcall] at h ⊢
    all_goals simp_all
  | pgmtrap | tlb | interrupt => simp [entry]
  | devices | store | edit => simp [schedules] at h

/-- The handlers that call the scheduler have left the balance alone. -/
theorem body_balance (hw : m.Wf) (hen : m.Enabled e) (hs : m.schedules e = true)
    (h : m.body e = .ok k) : k.balance = m.k.balance := by
  obtain ⟨hp, hpub⟩ := entry_of_schedules hs
  exact (body_ops hw hen h).balance hw.placed hp hpub

/-- The calls of the SSI that make no kernel entry. -/
theorem perform_balance {old : State} {r : U32} (hw : m.Wf)
    (hc : m.ssi.call m.k ≠ .countThread) (hp : ∀ p, m.ssi.call m.k ≠ .insertReady p)
    (hs : m.schedules (.ssi old) = false) (h : m.k.perform old (m.ssi.call m.k) = .ok (r, k)) :
    k.balance = m.k.balance := by
  have hat := m.ssi.call_at m.k
  simp only [schedules] at hs
  cases hcall : m.ssi.call m.k <;> simp only [hcall] at h hat hs hc hp
  case msgRecv | msgSend => cases hs
  case «local» =>
    cases h
    rfl
  case allocTcb =>
    simp only [Kernel.perform, Except.ok.injEq] at h
    cases hf : m.k.tcbFree with
    | nil =>
      simp only [Kernel.allocTcb, hf, Prod.mk.injEq] at h
      rw [h.2]
    | cons p free =>
      simp only [Kernel.allocTcb, hf, Prod.mk.injEq] at h
      rw [← h.2]
      rfl
  case insertChild | insertSibling =>
    simp only [Kernel.perform] at h
    split at h
    · cases h
    · cases h
      rfl
  case copyState =>
    obtain ⟨-, rfl⟩ := Kernel.perform_copyState h
    rfl
  case inherit =>
    cases h
    rfl
  case terminate p =>
    obtain ⟨k₁, h₁, h₂⟩ := bind_eq_ok.mp h
    cases h₂
    obtain ⟨hterm, rfl⟩ := hat
    refine Kernel.terminate_balance hw.placed (fun he => ?_) h₁
    exact null_notMem_threadArray (he ▸ hw.requester (by rw [hterm]; rfl))
  case addManager =>
    cases h
    rfl
  case setManager =>
    cases h
    rfl
  case panic => cases h
  case fault => cases h
  case countThread => exact absurd rfl hc
  case insertReady p => exact absurd rfl (hp p)

/-- `thread_count` is ahead of the live threads by the one the SSI has counted and not published. -/
theorem balance_step (hw : m.Wf) (h : m.Step e m')
    (hi : m.k.balance = if m.ssi.pc.counted then 1 else 0) :
    m'.k.balance = if m'.ssi.pc.counted then 1 else 0 := by
  by_cases hsch : m.schedules e = true
  · obtain ⟨hp, hpub⟩ := entry_of_schedules hsch
    have hk := (ops_of_step hw h).balance hw.placed hp hpub
    rcases step_cases h with ⟨hs, -⟩ | ⟨old, r, rfl, -, -, hs⟩
    · rw [hk, hs, hi]
    · have hpc : m.ssi.pc.counted = false ∧ (m.ssi.next m.k r).pc.counted = false := by
        rw [Ssi.next_counted]
        simp only [schedules] at hsch
        cases hpc : m.ssi.pc <;> simp_all [Ssi.call, SsiPc.counted]
      rw [hk, hs, hi, hpc.1, hpc.2]
  · rcases step_cases h with ⟨hs, hne⟩ | ⟨old, r, rfl, hcur, hperf, hs⟩
    · have hquiet : Quiet m.k m'.k := by
        obtain ⟨-, hst⟩ := h
        cases e with
        | devices bus =>
          cases hst
          constructor <;> intros <;> rfl
        | edit p s =>
          cases hst
          exact .setState p s
        | store a v =>
          obtain ⟨k', h₁, h₂⟩ := bind_eq_ok.mp hst
          cases h₂
          exact .storeWord h₁
        | ssi old => exact absurd rfl (hne old)
        | sysbp | pgmtrap | tlb | interrupt => simp [schedules] at hsch
      rw [Kernel.Quiet.balance hquiet, hs, hi]
    · rw [hs, Ssi.next_counted]
      cases hpc : m.ssi.pc
      case count c =>
        have hcall : m.ssi.call m.k = .countThread := by simp [Ssi.call, hpc]
        rw [hcall] at hperf
        obtain ⟨-, hk⟩ := Prod.mk.inj (Except.ok.inj hperf)
        simp only [hpc, SsiPc.counted, Kernel.balance] at hi
        rw [← hk]
        change m.k.threadCount + 1 - BitVec.ofNat 32 m.k.population = 1
        grind
      case publish =>
        have hcall : m.ssi.call m.k = .insertReady m.ssi.newThread := by simp [Ssi.call, hpc]
        rw [hcall] at hperf
        obtain ⟨-, hk⟩ := Prod.mk.inj (Except.ok.inj hperf)
        have hpop : m'.k.population = m.k.population + 1 := by
          rw [← hk]
          simp only [Kernel.population, insertThread, Kernel.running, List.length_append,
            List.length_singleton]
          omega
        simp only [hpc, SsiPc.counted, Kernel.balance] at hi
        rw [Kernel.balance, hpop, BitVec.ofNat_add, ← hk]
        change m.k.threadCount - _ = 0
        grind
      all_goals
        have hat := m.ssi.call_at m.k
        have hk : m'.k.balance = m.k.balance := by
          refine perform_balance hw (fun hcall => ?_) (fun p hcall => ?_) (by simpa using hsch) hperf
          · rw [hcall] at hat
            obtain ⟨c, hc⟩ := hat
            simp [hpc] at hc
          · rw [hcall] at hat
            simp [Ssi.CallAt, hpc] at hat
        rw [hk, hi, hpc]
        rfl

/-- The SSI neither raises an exception nor is terminated. -/
def SsiSound (m : Machine) (e : Event) (k : Kernel) : Prop :=
  (m.k.currentThread = m.k.ssiTcb → e.isTrap = false) ∧ m.k.ssiTcb ∉ k.tcbFree

instance (m : Machine) (e : Event) (k : Kernel) : Decidable (m.SsiSound e k) :=
  inferInstanceAs (Decidable ((_ → _) ∧ _))

/-- The SSI is in the wait queue only between two requests. -/
theorem ssi_wait_body (hw : m.Wf) (hen : m.Enabled e) (hs : m.SsiSound e k) (hb : m.body e = .ok k)
    (hi : m.k.ssiTcb ∈ m.k.waitQueue → m.ssi.pc = .got) (hm : m.k.ssiTcb ∈ k.waitQueue) :
    m.ssi.pc = .got ∧ (∀ old, e ≠ .ssi old) ∨ m.ssi.pc = .recv ∧ ∃ old, e = .ssi old := by
  rcases (body_ops hw hen hb).wait hw.placed hm with hwait | ⟨hcur, hx⟩
  · refine .inl ⟨hi hwait, ?_⟩
    rintro old rfl
    exact (hw.placed.wait_notMem hwait).2.2 hen
  · cases e with
    | sysbp old => exact absurd hcur.symm hen.2
    | pgmtrap | tlb => exact absurd (hs.1 hcur.symm) (by simp [Event.isTrap])
    | interrupt | devices | store | edit => simp [entry] at hx
    | ssi old =>
      refine .inr ⟨?_, old, rfl⟩
      have hat := m.ssi.call_at m.k
      simp only [entry] at hx
      cases hcall : m.ssi.call m.k <;> simp only [hcall] at hat hx
      case msgRecv => exact hat.1
      all_goals simp at hx

/-- What the decision depends on, besides the count of requests. -/
structure SsiWaits (m : Machine) (pend : Ptr → Bool) : Prop where
  balance : m.k.balance = if m.ssi.pc.counted then 1 else 0
  wait : m.k.ssiTcb ∈ m.k.waitQueue → m.ssi.pc = .got
  live : m.k.Live m.k.ssiTcb
  asks : pend m.k.ssiTcb = false

theorem ssi_asks_body (hen : m.Enabled e) (h : pend m.k.ssiTcb = false) :
    m.outstanding e k pend m.k.ssiTcb = false := by
  have hne : ¬ (e.requests = true ∧ m.k.ssiTcb = m.k.currentThread) := by
    rintro ⟨hr, hcur⟩
    cases e with
    | sysbp old => exact hen.2 hcur.symm
    | pgmtrap | tlb | interrupt | ssi | devices | store | edit => simp [Event.requests] at hr
  unfold outstanding
  rw [if_neg hne, h]
  simp

theorem ssi_live_body (hw : m.Wf) (hn : m.ssi.Named) (hen : m.Enabled e) (hq : m.AnswersQueued e)
    (hs : m.SsiSound e k) (hb : m.body e = .ok k) (h : m.k.Live m.k.ssiTcb) :
    k.Live m.k.ssiTcb := by
  obtain ⟨ds, -, he⟩ := body_effect hw hn hen hq hb
  exact he.keeps _ h fun hd => hs.2 (he.mem_free _ hd)

theorem SsiWaits.step (hw : m.Wf) (hn : m.ssi.Named) (h : m.Step e m') (hq : m.AnswersQueued e)
    (hs : m.SsiSound e m'.k) (hi : m.SsiWaits pend) : m'.SsiWaits (notePending m e m' pend) := by
  obtain ⟨k, hb, hk⟩ := step_body h
  have hsch : Kernel.Scheduled k m'.k := by
    rcases hk with ⟨-, hk⟩ | ⟨-, hk⟩
    · exact Kernel.scheduler_scheduled (hw.placed.ops (body_ops hw h.1 hb)) hk
    · exact hk ▸ .quiet (Quiet.refl _)
  have hssi : m'.k.ssiTcb = m.k.ssiTcb := (ops_of_step hw h).ssiTcb
  have hsound : m.SsiSound e k := ⟨hs.1, hsch.tcbFree ▸ hs.2⟩
  constructor
  · exact balance_step hw h hi.balance
  · rw [hssi, hsch.waitQueue]
    intro hm
    rcases ssi_wait_body hw h.1 hsound hb hi.wait hm with ⟨hpc, hne⟩ | ⟨hpc, old, rfl⟩
    · rw [ssi_other h hne, hpc]
    · obtain ⟨r, -, he⟩ := ssi_step h
      rw [he, Ssi.next, hpc]
  · rw [hssi]
    exact (hsch.live _).mpr (ssi_live_body hw hn h.1 hq hsound hb hi.live)
  · rw [hssi]
    exact ssi_asks_body h.1 hi.asks

/-- The decision of the scheduler when nobody can run: HALT if the SSI is alone, a deadlock if
nobody else has an outstanding request, otherwise waiting. -/
structure RightChoice (k : Kernel) (pend : Ptr → Bool) : Prop where
  halt : k.scheduler = .error .halt ↔ ∀ p, k.Live p ↔ p = k.ssiTcb
  deadlock : k.scheduler = .error (.panic .scheduler) ↔
    (∃ p, k.Live p ∧ p ≠ k.ssiTcb) ∧ ∀ p, k.Live p → p ≠ k.ssiTcb → pend p = false
  wait : k.scheduler = .ok k ↔ ∃ p, k.Live p ∧ p ≠ k.ssiTcb ∧ pend p = true

theorem scheduler_idle {k : Kernel} {n r : Nat} (hc : k.currentThread = null)
    (hq : k.readyQueue = []) (hn : 0 < n ∧ n ≤ 20) (hr : r ≤ 20)
    (ht : k.threadCount = BitVec.ofNat 32 n) (hs : k.softBlockCount = BitVec.ofNat 32 r) :
    k.scheduler = if n = 1 then .error .halt
      else if r = 0 then .error (.panic .scheduler) else .ok k := by
  have htn : k.threadCount.toNat = n := by
    rw [ht, BitVec.toNat_ofNat]
    omega
  have hsr : k.softBlockCount.toNat = r := by
    rw [hs, BitVec.toNat_ofNat]
    omega
  have h₁ : k.threadCount = 1 ↔ n = 1 := by
    rw [← htn, ← BitVec.toNat_inj]
    rfl
  have h₂ : k.softBlockCount = 0 ↔ r = 0 := by
    rw [← hsr, ← BitVec.toNat_inj]
    rfl
  have h₃ : 0 < k.threadCount := by
    rw [BitVec.lt_def, htn]
    exact hn.1
  have h₄ : 0 < k.softBlockCount ↔ r ≠ 0 := by
    rw [BitVec.lt_def, hsr]
    exact Nat.pos_iff_ne_zero
  unfold Kernel.scheduler
  simp only [hc, if_true, hq, h₁, h₂, h₃, h₄, true_and]
  by_cases hn₁ : n = 1
  · simp [hn₁]
  · by_cases hr₀ : r = 0 <;> simp [hn₁, hr₀]

/-- The SSI is alone exactly when the wait queue holds one thread. -/
theorem alone_iff {q : List Ptr} {s : Ptr} (hq : q.Nodup) (hs : s ∈ q) :
    q.length = 1 ↔ ∀ p, p ∈ q ↔ p = s := by
  constructor
  · intro h p
    obtain ⟨t, rfl⟩ := List.length_eq_one_iff.mp h
    rw [List.mem_singleton] at hs ⊢
    rw [hs]
  · intro h
    have hperm : q.Perm [s] := by
      rw [List.perm_ext_iff_of_nodup hq (List.pairwise_singleton _ _)]
      intro p
      rw [h, List.mem_singleton]
    exact hperm.length_eq

/-- With the counters right, so is the decision. -/
theorem rightChoice_of_counts {k : Kernel} (hk : Placed k) (hc : k.currentThread = null)
    (hr : k.readyQueue = []) (hl : k.Live k.ssiTcb) (hb : k.balance = 0) (hn : Counted k pend)
    (hs : pend k.ssiTcb = false) : RightChoice k pend := by
  have hrun : k.running = [] := by simp [Kernel.running, hc]
  have hlive : ∀ p, k.Live p ↔ p ∈ k.waitQueue := by
    intro p
    simp [Kernel.Live, hr, hrun]
  have hnodup := (Reaped.queues_nodup hk).2
  have hsub : k.waitQueue ⊆ threadArray := fun p hp => hk.sub p ((hlive p).mpr hp).mem_places
  have hlen : k.waitQueue.length ≤ 20 := hnodup.length_le_of_subset hsub
  have hpos : 0 < k.waitQueue.length := List.length_pos_of_mem ((hlive _).mp hl)
  have hcount : k.threadCount = BitVec.ofNat 32 k.waitQueue.length := by
    have hpop : k.population = k.waitQueue.length := by simp [Kernel.population, hr, hrun]
    rw [Kernel.balance, hpop] at hb
    grind
  have hsch := scheduler_idle hc hr ⟨hpos, hlen⟩ List.countP_le_length hcount hn.count
  have halone : k.waitQueue.length = 1 ↔ ∀ p, k.Live p ↔ p = k.ssiTcb := by
    simp only [hlive]
    exact alone_iff hnodup ((hlive _).mp hl)
  have hsome : (∃ p, k.Live p ∧ p ≠ k.ssiTcb ∧ pend p = true) ↔ threadArray.countP pend ≠ 0 := by
    rw [← Nat.pos_iff_ne_zero, List.countP_pos_iff]
    constructor
    · rintro ⟨p, hp, -, hpend⟩
      exact ⟨p, hk.sub p hp.mem_places, hpend⟩
    · rintro ⟨p, -, hpend⟩
      refine ⟨p, hn.live p hpend, ?_, hpend⟩
      rintro rfl
      simp [hs] at hpend
  have hmore : threadArray.countP pend ≠ 0 → k.waitQueue.length ≠ 1 := by
    intro h h₁
    obtain ⟨p, hp, hne, -⟩ := hsome.mpr h
    exact hne ((halone.mp h₁ p).mp hp)
  have hothers : (∃ p, k.Live p ∧ p ≠ k.ssiTcb) ↔ k.waitQueue.length ≠ 1 := by
    rw [Ne, halone]
    constructor
    · rintro ⟨p, hp, hne⟩ h
      exact hne ((h p).mp hp)
    · intro h
      by_contra hno
      simp only [not_exists, not_and, not_not] at hno
      refine h fun p => ⟨hno p, ?_⟩
      rintro rfl
      exact hl
  have hnone : (∀ p, k.Live p → p ≠ k.ssiTcb → pend p = false) ↔ threadArray.countP pend = 0 := by
    rw [← not_iff_not, ← Ne, ← hsome]
    simp
  generalize threadArray.countP pend = r at hsch hsome hmore hnone
  constructor
  · rw [hsch, ← halone]
    by_cases h₁ : k.waitQueue.length = 1
    · simp [h₁]
    · by_cases h₀ : r = 0 <;> simp [h₁, h₀]
  · rw [hsch, hothers, hnone]
    by_cases h₁ : k.waitQueue.length = 1
    · simp [h₁]
    · by_cases h₀ : r = 0 <;> simp [h₁, h₀]
  · rw [hsch, hsome]
    by_cases h₀ : r = 0
    · by_cases h₁ : k.waitQueue.length = 1 <;> simp [h₁, h₀]
    · simp [hmore h₀, h₀]

/-- A step on which both counters stay right. -/
def SoundStep (s : Machine × (Ptr → Bool)) (e : Event) (t : Machine × (Ptr → Bool)) : Prop :=
  withHistory Step notePending s e t ∧ (s.1.SsiRequestOnly e s.2 ∧ s.1.AnswersQueued e ∧
    s.1.FreedCounted e t.1.k s.2 ∧ s.1.SsiSound e t.1.k)

theorem ssiWaits_initial (h : m.Initial) : m.SsiWaits fun _ => false := by
  obtain ⟨k, hp, hm⟩ := h.boot
  have hb := Kernel.main_booted hp hm
  have hne : threadArrayAddr ≠ null := by decide
  constructor
  · have hpop : m.k.population = 2 := by
      simp [Kernel.population, Kernel.running, hb.readyQueue, hb.waitQueue, hb.currentThread, hne]
    rw [Kernel.balance, hpop, hb.threadCount, h.pc]
    rfl
  · simp [hb.waitQueue]
  · rw [hb.ssiTcb, ← hb.currentThread]
    exact current_live (by rw [hb.currentThread]; exact hne)
  · rfl

theorem ssiWaits_of_run {es : List Event} (h : m.Initial)
    (hr : Run SoundStep (m, fun _ => false) es (m', pend)) :
    m'.Wf ∧ m'.ssi.Named ∧ Counted m'.k pend ∧ m'.SsiWaits pend := by
  refine hr.inv (I := fun s => s.1.Wf ∧ s.1.ssi.Named ∧ Counted s.1.k s.2 ∧ s.1.SsiWaits s.2) ?_
    ⟨initial_wf h, fun hpc => absurd h.pc hpc, counted_initial h, ssiWaits_initial h⟩
  rintro ⟨m, pend⟩ e ⟨m', pend'⟩ ⟨⟨hs, he⟩, hd, hq, hf, hsound⟩ ⟨hw, hn, hi, hsw⟩
  rw [he]
  exact ⟨hw.step hs, ssi_named hw hs hn, counted_step hw hn hs hd hq hf hi,
    hsw.step hw hn hs hq hsound⟩

/-- When every answer of the SSI is queued before its thread blocks for it, terminations are
counted, and the SSI neither traps nor dies, the scheduler decides rightly whenever nobody can
run. -/
theorem right_choice_of_run {es : List Event} {m₀ : Machine} (h : m₀.Initial)
    (hr : Run SoundStep (m₀, fun _ => false) es (m, pend)) (hen : m.Enabled e)
    (hd : m.SsiRequestOnly e pend) (hb : m.body e = .ok k) (hsch : m.schedules e = true)
    (hc : k.currentThread = null) (hrq : k.readyQueue = []) (hq : m.AnswersQueued e)
    (hf : m.FreedCounted e k pend) (hs : m.SsiSound e k) :
    RightChoice k (m.outstanding e k pend) := by
  obtain ⟨hw, hn, hi, hsw⟩ := ssiWaits_of_run h hr
  have hops := body_ops hw hen hb
  have hplaced := hw.placed.ops hops
  have hssi : k.ssiTcb = m.k.ssiTcb := hops.ssiTcb
  have hlive : k.Live k.ssiTcb := by
    rw [hssi]
    exact ssi_live_body hw hn hen hq hs hb hsw.live
  have hwait : m.k.ssiTcb ∈ k.waitQueue := by
    rcases hlive with hl | hl | hl
    · simp [hrq] at hl
    · exact hssi ▸ hl
    · exact absurd hc (Kernel.mem_running.mp hl).2
  have hbal : k.balance = 0 := by
    rw [body_balance hw hen hsch hb, hsw.balance]
    rcases ssi_wait_body hw hen hs hb hsw.wait hwait with ⟨hpc, -⟩ | ⟨hpc, -⟩ <;> rw [hpc] <;> rfl
  refine rightChoice_of_counts hplaced hc hrq hlive hbal (counted_body hw hn hen hd hq hb hf hi) ?_
  rw [hssi]
  exact ssi_asks_body hen hsw.asks

/-- Nobody can run at the end of the handler of `e`, which calls the scheduler. -/
def StopsAt (m : Machine) (e : Event) (k : Kernel) : Prop :=
  m.Enabled e ∧ m.schedules e = true ∧ k.currentThread = null ∧ k.readyQueue = []

instance (m : Machine) (e : Event) (k : Kernel) : Decidable (m.StopsAt e k) :=
  inferInstanceAs (Decidable (_ ∧ _ ∧ _ ∧ _))

/-- The test thread waits for the clock, and the SSI is about to block. -/
def idleTrace : List Event :=
  Event.ssiCalls 2 ++ Event.ssiRequest waitForClock 0 ++ Event.ssiCalls 4

theorem right_choice_idle : ∃ m₀ m : Machine, ∃ pend k,
    Run SoundStep (m₀, fun _ => false) idleTrace (m, pend) ∧
    m.body (.ssi initTState) = .ok k ∧ m.StopsAt (.ssi initTState) k ∧
    RightChoice k (m.outstanding (.ssi initTState) k pend) := by
  have hrun : passes (fun m => passes (fun s => passes (fun k =>
      s.1.StopsAt (.ssi initTState) k ∧ s.1.SsiRequestOnly (.ssi initTState) s.2 ∧
        s.1.AnswersQueued (.ssi initTState) ∧ s.1.FreedCounted (.ssi initTState) k s.2 ∧
        s.1.SsiSound (.ssi initTState) k) (s.1.body (.ssi initTState)))
      (exec (guarded (fun s e t => s.1.SsiRequestOnly e s.2 ∧ s.1.AnswersQueued e ∧
        s.1.FreedCounted e t.1.k s.2 ∧ s.1.SsiSound e t.1.k) Stop.fault
        (execWith fire notePending)) (m, fun _ => false) idleTrace)) (start .zeroed) = true := by
    decide +kernel
  obtain ⟨m₀, hm, hrun⟩ := exists_of_passes hrun
  obtain ⟨⟨m, pend⟩, hs, hbody⟩ := exists_of_passes hrun
  obtain ⟨k, hb, hk⟩ := exists_of_passes hbody
  obtain ⟨hstop, hd, hq, hf, hsound⟩ := of_decide_eq_true hk
  have hr : Run SoundStep (m₀, fun _ => false) idleTrace (m, pend) :=
    run_of_guarded (fun _ _ _ => step_of_fire) hs
  exact ⟨m₀, m, pend, k, hr, hb, hstop,
    right_choice_of_run (initial_of_start Kernel.zeroed_powerOn hm) hr hstop.1 hd hb hstop.2.1
      hstop.2.2.1 hstop.2.2.2 hq hf hsound⟩

/-- The test thread, already answered, then waits for a message nobody will send. The drifted count
makes the deadlock look like an idle wait. -/
theorem right_choice_fails : ¬ ∀ (m₀ m : Machine) (es : List Event) (e : Event) pend k, m₀.Initial →
    Run SsiRequestStep (m₀, fun _ => false) es (m, pend) → m.SsiRequestOnly e pend →
    m.body e = .ok k → m.StopsAt e k → RightChoice k (m.outstanding e k pend) := by
  intro hall
  let e := Event.call sysRecv testThreadAddr 0x20030100
  have hrun : passes (fun m => passes (fun s => passes (fun k =>
      s.1.StopsAt e k ∧ s.1.SsiRequestOnly e s.2 ∧ k.threadCount = 2 ∧ k.softBlockCount = 1 ∧
        k.waitQueue.all (fun p => s.1.outstanding e k s.2 p = false) = true) (s.1.body e))
      (exec (guarded (fun s e _ => s.1.SsiRequestOnly e s.2) Stop.fault (execWith fire notePending))
        (m, fun _ => false) answeredTrace)) (start .zeroed) = true := by
    decide +kernel
  obtain ⟨m₀, hm, hrun⟩ := exists_of_passes hrun
  obtain ⟨⟨m, pend⟩, hs, hbody⟩ := exists_of_passes hrun
  obtain ⟨k, hb, hk⟩ := exists_of_passes hbody
  obtain ⟨hstop, hd, ht, hsoft, hnone⟩ := of_decide_eq_true hk
  have hr : Run SsiRequestStep (m₀, fun _ => false) answeredTrace (m, pend) :=
    run_of_guarded (fun _ _ _ => step_of_fire) hs
  have hright := hall m₀ m _ e pend k (initial_of_start Kernel.zeroed_powerOn hm) hr hd hb hstop
  obtain ⟨-, -, hc, hrq⟩ := hstop
  have hidle : k.scheduler = .ok k := by
    rw [scheduler_idle (n := 2) (r := 1) hc hrq (by omega) (by omega) ht hsoft]
    rfl
  obtain ⟨p, hp, -, hpend⟩ := hright.wait.mp hidle
  have hpw : p ∈ k.waitQueue := by simpa [Kernel.Live, hrq, Kernel.running, hc] using hp
  have := List.all_eq_true.mp hnone p hpw
  simp [hpend] at this

end Machine

end AmiKaya
