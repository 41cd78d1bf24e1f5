import AmiKaya.Requests

/-! `soft_block_count` against the requests to the SSI that are outstanding. -/
namespace AmiKaya
open Lts

section
variable {α : Type} [DecidableEq α] {l ds : List α} {f : α → Bool} {a : α}

theorem countP_put_true (hl : l.Nodup) (ha : a ∈ l) (hf : f a = false) :
    l.countP (put f a true) = l.countP f + 1 := by
  induction l with
  | nil => simp at ha
  | cons b l ih =>
    obtain ⟨hb, hl⟩ := List.nodup_cons.mp hl
    by_cases hab : a = b
    · subst hab
      have hrest : l.countP (put f a true) = l.countP f := by
        apply List.countP_congr
        intro c hc
        have hne : c ≠ a := by
          rintro rfl
          exact hb hc
        rw [Links.put_ne hne]
      simp [hrest, hf]
    · have hmem : a ∈ l := (List.mem_cons.mp ha).resolve_left hab
      simp only [List.countP_cons, ih hl hmem, Links.put_ne (Ne.symm hab)]
      omega

theorem countP_put_false (hl : l.Nodup) (ha : a ∈ l) (hf : f a = true) :
    l.countP (put f a false) + 1 = l.countP f := by
  have hput : put (put f a false) a true = f := by
    rw [Links.put_put]
    funext b
    by_cases hb : b = a
    · subst hb
      simp [hf]
    · simp [hb]
  rw [← countP_put_true hl ha (by simp), hput]

/-- Some members are taken out of the count. -/
theorem countP_and_notMem (hl : l.Nodup) (hd : ds.Nodup) (hs : ds ⊆ l) :
    l.countP (fun b => f b && b ∉ ds) + ds.countP f = l.countP f := by
  have hperm : (l.filter (· ∈ ds)).Perm ds := by
    rw [List.perm_ext_iff_of_nodup (hl.filter _) hd]
    intro b
    simp only [List.mem_filter, decide_eq_true_eq]
    exact ⟨fun h => h.2, fun h => ⟨hs h, h⟩⟩
  rw [l.countP_eq_countP_filter_add f (· ∈ ds), hperm.countP_eq, Nat.add_comm, List.countP_filter]
  simp

end

namespace Machine

variable {m m' : Machine} {e : Event} {k : Kernel} {pend : Ptr → Bool}

/-- The threads with an outstanding request after a handler has run to `k`: a SEND to MAGIC_SSI
makes one, a RECV from MAGIC_SSI that returns ends it, at once or when the blocked thread is woken,
and it ends with the thread. -/
def outstanding (m : Machine) (e : Event) (k : Kernel) (pend : Ptr → Bool) (p : Ptr) : Bool :=
  p ∉ k.tcbFree &&
    if e.requests ∧ p = m.k.currentThread then true
    else if p ∉ k.waitQueue ∧ (e.collects ∧ p = m.k.currentThread ∨
      p ∈ m.k.waitQueue ∧ (m.k.tcb p).waitingFor = magicSsi) then false
    else pend p

/-- Threads reach the SSI only through `SSIRequest`, a SEND to MAGIC_SSI and then a RECV from it. -/
def SsiRequestOnly (m : Machine) (e : Event) (pend : Ptr → Bool) : Prop :=
  match e with
  | .sysbp old =>
    (old.isSend = true → pend m.k.currentThread = false ∧ old.regA1 ≠ m.k.ssiTcb) ∧
    (old.isRecv = true → (old.regA1 = magicSsi ↔ pend m.k.currentThread = true))
  | _ => True

/-- `terminate` counts down for the threads it frees that have an outstanding request. -/
def FreedCounted (m : Machine) (e : Event) (k : Kernel) (pend : Ptr → Bool) : Prop :=
  ∀ p ∈ k.tcbFree, p ∉ m.k.tcbFree →
    ((pend p = true ∨ e.requests = true ∧ p = m.k.currentThread) ↔
      p ∈ m.k.waitQueue ∧ (m.k.tcb p).waitingFor = m.k.ssiTcb)

/-- The count is right, and only live threads have something outstanding. -/
structure Counted (k : Kernel) (pend : Ptr → Bool) : Prop where
  live : ∀ p, pend p = true → k.Live p
  count : k.softBlockCount = BitVec.ofNat 32 (threadArray.countP pend)

/-- What is outstanding before anyone is freed. -/
def midway (m : Machine) (e : Event) (k : Kernel) (pend : Ptr → Bool) : Ptr → Bool :=
  if e.requests then put pend m.k.currentThread true
  else if e.collects ∧ m.k.currentThread ∉ k.waitQueue then put pend m.k.currentThread false
  else pend

/-- A thread that asks the SSI is the current one and has nothing outstanding. -/
theorem of_requests (hen : m.Enabled e) (hd : m.SsiRequestOnly e pend)
    (h : e.requests = true) : m.k.currentThread ≠ null ∧ pend m.k.currentThread = false ∧
      e.collects = false := by
  cases e with
  | sysbp old =>
    simp only [Event.requests, Bool.and_eq_true, decide_eq_true_eq] at h
    refine ⟨hen.1, (hd.1 h.1).1, ?_⟩
    by_contra hc
    simp only [Event.collects, Bool.not_eq_false, Bool.and_eq_true] at hc
    have hs := State.isSend_of_isRecv hc.1
    simp [hs] at h
  | pgmtrap | tlb | interrupt | ssi | devices | store | edit => simp [Event.requests] at h

theorem of_collects (hen : m.Enabled e) (hd : m.SsiRequestOnly e pend)
    (h : e.collects = true) : m.k.currentThread ≠ null ∧ pend m.k.currentThread = true := by
  cases e with
  | sysbp old =>
    simp only [Event.collects, Bool.and_eq_true, decide_eq_true_eq] at h
    exact ⟨hen.1, (hd.2 h.1).mp h.2⟩
  | pgmtrap | tlb | interrupt | ssi | devices | store | edit => simp [Event.collects] at h

theorem current_live (hc : m.k.currentThread ≠ null) : m.k.Live m.k.currentThread :=
  .inr (.inr (Kernel.mem_running.mpr ⟨rfl, hc⟩))

theorem midway_countP (hw : m.Wf) (hen : m.Enabled e) (hd : m.SsiRequestOnly e pend) :
    threadArray.countP (m.midway e k pend) +
        (if e.collects ∧ m.k.currentThread ∉ k.waitQueue then 1 else 0) =
      threadArray.countP pend + if e.requests then 1 else 0 := by
  unfold midway
  by_cases hr : e.requests
  · obtain ⟨hc, hp, hcol⟩ := of_requests hen hd hr
    have hmem := hw.placed.sub _ (current_live hc).mem_places
    simp [hr, hcol, countP_put_true threadArray_nodup hmem hp]
  · by_cases hcol : e.collects ∧ m.k.currentThread ∉ k.waitQueue
    · obtain ⟨hc, hp⟩ := of_collects hen hd hcol.1
      have hmem := hw.placed.sub _ (current_live hc).mem_places
      simp [hr, hcol, countP_put_false threadArray_nodup hmem hp]
    · simp [hr, hcol]

theorem midway_live (hen : m.Enabled e) (hd : m.SsiRequestOnly e pend) (h : Counted m.k pend)
    {p : Ptr} (hp : m.midway e k pend p = true) : m.k.Live p := by
  unfold midway at hp
  by_cases hpc : p = m.k.currentThread
  · subst hpc
    split at hp
    · next hr => exact current_live (of_requests hen hd hr).1
    · split at hp
      · simp at hp
      · exact h.live _ hp
  · repeat' split at hp
    · exact h.live p (by simpa [hpc] using hp)
    · exact h.live p (by simpa [hpc] using hp)
    · exact h.live p hp

/-- Freed threads have nothing outstanding, and nobody else is affected by the terminations. -/
theorem outstanding_eq (hw : m.Wf) (hen : m.Enabled e) (hd : m.SsiRequestOnly e pend)
    (h : Counted m.k pend) {ds : List Ptr} {n n' : Nat} (he : m.k.Effect ds n n' k) (p : Ptr) :
    m.outstanding e k pend p = (m.midway e k pend p && p ∉ ds) := by
  by_cases hds : p ∈ ds
  · simp [outstanding, hds, he.mem_free p hds]
  · have hfree : m.midway e k pend p = true → p ∉ k.tcbFree := by
      intro hp hf
      have hl := midway_live hen hd h hp
      exact (he.freed p hf).elim (hl.notMem_free hw.placed) hds
    have hout : m.outstanding e k pend p = (p ∉ k.tcbFree && m.midway e k pend p) := by
      unfold outstanding midway
      congr 1
      by_cases hpc : p = m.k.currentThread
      · subst hpc
        have hwait : e.requests = true ∨ e.collects = true → m.k.currentThread ∉ m.k.waitQueue := by
          intro hrc
          have hc : m.k.currentThread ≠ null :=
            hrc.elim (fun hr => (of_requests hen hd hr).1) fun hr => (of_collects hen hd hr).1
          exact (hw.placed.current_notMem hc).2.1
        by_cases hr : e.requests
        · simp [hr]
        · by_cases hcol : e.collects
          · by_cases hk : m.k.currentThread ∈ k.waitQueue <;> simp [hr, hcol, hk]
          · have hnot : ¬ (m.k.currentThread ∉ k.waitQueue ∧ m.k.currentThread ∈ m.k.waitQueue ∧
                (m.k.tcb m.k.currentThread).waitingFor = magicSsi) :=
              fun hx => hx.1 (he.waits _ hx.2.1 hx.2.2 hds)
            simp only [hr, hcol, false_and, false_or, Bool.false_eq_true, if_false, if_neg hnot]
      · have hnot : ¬ (p ∉ k.waitQueue ∧ p ∈ m.k.waitQueue ∧ (m.k.tcb p).waitingFor = magicSsi) :=
          fun hx => hx.1 (he.waits _ hx.2.1 hx.2.2 hds)
        simp only [hpc, and_false, false_or, if_false, if_neg hnot]
        repeat' split
        all_goals simp [hpc]
    rw [hout]
    cases hp : m.midway e k pend p with
    | false => simp
    | true => simp [hfree hp, hds]

theorem counted_body (hw : m.Wf) (hn : m.ssi.Named) (hen : m.Enabled e)
    (hd : m.SsiRequestOnly e pend) (hq : m.AnswersQueued e) (hb : m.body e = .ok k)
    (hf : m.FreedCounted e k pend) (h : Counted m.k pend) :
    Counted k (m.outstanding e k pend) := by
  obtain ⟨ds, hcol, he⟩ := body_effect hw hn hen hq hb
  have hout : m.outstanding e k pend = fun p => m.midway e k pend p && p ∉ ds :=
    funext fun p => outstanding_eq hw hen hd h he p
  have hfreed : ∀ p ∈ ds, m.midway e k pend p = true ↔
      p ∈ m.k.waitQueue ∧ (m.k.tcb p).waitingFor = m.k.ssiTcb := by
    intro p hp
    rw [← hf p (he.mem_free p hp) ((he.live p hp).notMem_free hw.placed)]
    have hnc : e.collects ≠ true := by
      intro hc
      rw [hcol hc] at hp
      cases hp
    unfold midway
    by_cases hr : e.requests
    · by_cases hpc : p = m.k.currentThread <;> simp [hr, hpc]
    · simp [hr, hnc]
  constructor
  · intro p hp
    rw [hout, Bool.and_eq_true, decide_eq_true_eq] at hp
    exact he.keeps p (midway_live hen hd h hp.1) hp.2
  · have hds : ds.countP (fun p => p ∈ m.k.waitQueue ∧ (m.k.tcb p).waitingFor = m.k.ssiTcb) =
        ds.countP (m.midway e k pend) := by
      apply List.countP_congr
      intro p hp
      rw [decide_eq_true_eq]
      exact (hfreed p hp).symm
    have hsub : ds ⊆ threadArray := fun p hp => hw.placed.sub p (he.live p hp).mem_places
    have hcount := countP_and_notMem (f := m.midway e k pend) threadArray_nodup he.nodup hsub
    have hmid := midway_countP (k := k) hw hen hd
    have hsoft := he.softBlockCount
    rw [h.count, hds, ← BitVec.ofNat_add, ← hmid, ← hcount, BitVec.ofNat_add, BitVec.ofNat_add,
      BitVec.add_left_inj, BitVec.add_left_inj] at hsoft
    rw [hout]
    exact hsoft

/-- History: the threads with an outstanding request. -/
def notePending (m : Machine) (e : Event) (m' : Machine) : (Ptr → Bool) → Ptr → Bool :=
  m.outstanding e m'.k

/-- A step of a system whose threads use the SSI through `SSIRequest`. -/
def SsiRequestStep (s : Machine × (Ptr → Bool)) (e : Event) (t : Machine × (Ptr → Bool)) : Prop :=
  withHistory Step notePending s e t ∧ s.1.SsiRequestOnly e s.2

/-- Such a step on which the count does not go wrong: the SSI answers nobody who is already blocked
for the answer, and whoever is freed is counted down for what it had outstanding. -/
def CountedStep (s : Machine × (Ptr → Bool)) (e : Event) (t : Machine × (Ptr → Bool)) : Prop :=
  withHistory Step notePending s e t ∧
    (s.1.SsiRequestOnly e s.2 ∧ s.1.AnswersQueued e ∧ s.1.FreedCounted e t.1.k s.2)

theorem Counted.scheduled {k k' : Kernel} (hs : Kernel.Scheduled k k') (h : Counted k pend) :
    Counted k' pend :=
  ⟨fun p hp => (hs.live p).mpr (h.live p hp), hs.softBlockCount.trans h.count⟩

/-- The scheduler neither frees a thread nor wakes one. -/
theorem outstanding_scheduled {k k' : Kernel} (hs : Kernel.Scheduled k k') :
    m.outstanding e k' pend = m.outstanding e k pend := by
  funext p
  simp only [outstanding, hs.tcbFree, hs.waitQueue]

theorem ssi_named (hw : m.Wf) (h : m.Step e m') (hn : m.ssi.Named) : m'.ssi.Named := by
  rcases step_cases h with ⟨hs, -⟩ | ⟨old, r, -, -, -, hs⟩ <;> rw [hs]
  · exact hn
  · exact hn.next hw.requester

theorem counted_step (hw : m.Wf) (hn : m.ssi.Named) (h : m.Step e m')
    (hd : m.SsiRequestOnly e pend) (hq : m.AnswersQueued e) (hf : m.FreedCounted e m'.k pend)
    (hi : Counted m.k pend) : Counted m'.k (notePending m e m' pend) := by
  obtain ⟨k, hb, ⟨-, hs⟩ | ⟨-, hs⟩⟩ := step_body h
  · have hplaced := hw.placed.ops (body_ops hw h.1 hb)
    have hsch := Kernel.scheduler_scheduled hplaced hs
    rw [notePending, outstanding_scheduled hsch]
    have hf' : m.FreedCounted e k pend := by
      unfold FreedCounted at hf ⊢
      rwa [hsch.tcbFree] at hf
    exact (counted_body hw hn h.1 hd hq hb hf' hi).scheduled hsch
  · rw [notePending, hs]
    exact counted_body hw hn h.1 hd hq hb (hs ▸ hf) hi

theorem counted_initial (h : m.Initial) : Counted m.k fun _ => false := by
  obtain ⟨k, hp, hm⟩ := h.boot
  have hb := Kernel.main_booted hp hm
  exact ⟨by simp, by simp [hb.softBlockCount]⟩

/-- Everything the count depends on, over a whole run. -/
theorem counted_of_run {es : List Event} (h : m.Initial)
    (hr : Run CountedStep (m, fun _ => false) es (m', pend)) :
    m'.Wf ∧ m'.ssi.Named ∧ Counted m'.k pend := by
  refine hr.inv (I := fun s => s.1.Wf ∧ s.1.ssi.Named ∧ Counted s.1.k s.2) ?_
    ⟨initial_wf h, fun hpc => absurd h.pc hpc, counted_initial h⟩
  rintro ⟨m, pend⟩ e ⟨m', pend'⟩ ⟨⟨hs, he⟩, hd, hq, hf⟩ ⟨hw, hn, hi⟩
  rw [he]
  exact ⟨hw.step hs, ssi_named hw hs hn, counted_step hw hn hs hd hq hf hi⟩

/-- As long as every answer of the SSI is queued before its thread blocks for it, and terminations
are counted, `soft_block_count` is the number of live threads with an outstanding request. -/
theorem soft_block_count_of_run {es : List Event} (h : m.Initial)
    (hr : Run CountedStep (m, fun _ => false) es (m', pend)) :
    m'.k.softBlockCount.toNat = threadArray.countP fun p => m'.k.Live p ∧ pend p = true := by
  obtain ⟨-, -, hi⟩ := counted_of_run h hr
  have hcount : threadArray.countP pend =
      threadArray.countP fun p => m'.k.Live p ∧ pend p = true := by
    apply List.countP_congr
    intro p _
    rw [decide_eq_true_eq]
    exact ⟨fun hp => ⟨hi.live p hp, hp⟩, fun hp => hp.2⟩
  have hle : threadArray.countP pend ≤ threadArray.length := List.countP_le_length
  have hlen : threadArray.length = 20 := by decide
  rw [hi.count, ← hcount, BitVec.toNat_ofNat]
  omega

instance (m : Machine) (pend : Ptr → Bool) : (e : Event) → Decidable (m.SsiRequestOnly e pend)
  | .sysbp _ => inferInstanceAs (Decidable ((_ → _ ∧ _) ∧ (_ → (_ ↔ _))))
  | .pgmtrap _ | .tlb _ | .interrupt _ | .ssi _ | .devices _ | .store _ _ | .edit _ _ =>
    inferInstanceAs (Decidable True)

-- a search for the instances would go through all the words
instance (m : Machine) (e : Event) : Decidable (m.AnswersQueued e) :=
  have : Decidable (∀ t ∈ m.recipient e, t ∈ m.k.waitQueue →
      (m.k.tcb t).waitingFor ≠ magicSsi) := Option.decidableForallMem _
  inferInstanceAs (Decidable (_ → _))

instance (m : Machine) (e : Event) (k : Kernel) (pend : Ptr → Bool) :
    Decidable (m.FreedCounted e k pend) :=
  List.decidableBAll _ k.tcbFree

/-- A memory image on a machine where each reading of the clock is 3 ms after the one before. -/
def slowClock : Kernel := { Kernel.zeroed with todlow := fun n => BitVec.ofNat 32 (3000 * n) }

theorem slowClock_powerOn : slowClock.PowerOn :=
  ⟨Kernel.zeroed_powerOn.trapManagers, rfl, fun _ _ => rfl, fun _ _ => rfl, fun _ _ => rfl,
    fun _ _ _ _ => ⟨rfl, rfl⟩⟩

/-- The slice of the test thread ends between its SEND and its RECV, so it finds the answer of the
SSI in its inbox. -/
def queuedAnswerTrace : List Event :=
  Event.ssiCalls 2 ++ (Event.ssiRequest getCpuTime 0).take 3 ++
    [.interrupt { initTState with cause := 1 <<< (intTimer + 8) }] ++ Event.ssiCalls 5 ++
    (Event.ssiRequest getCpuTime 0).drop 3

theorem soft_block_count_queued : ∃ m m' : Machine, ∃ pend,
    Run CountedStep (m, fun _ => false) queuedAnswerTrace (m', pend) ∧
    m'.k.softBlockCount.toNat = threadArray.countP fun p => m'.k.Live p ∧ pend p = true := by
  have hrun : passes (fun m => passes (fun s => s.1.k.currentThread = testThreadAddr)
      (exec (guarded (fun s e t => s.1.SsiRequestOnly e s.2 ∧ s.1.AnswersQueued e ∧
        s.1.FreedCounted e t.1.k s.2) Stop.fault (execWith fire notePending))
        (m, fun _ => false) queuedAnswerTrace)) (start slowClock) = true := by
    decide +kernel
  obtain ⟨m, hm, hrun⟩ := exists_of_passes hrun
  obtain ⟨⟨m', pend⟩, hs, -⟩ := exists_of_passes hrun
  have hr : Run CountedStep (m, fun _ => false) queuedAnswerTrace (m', pend) :=
    run_of_guarded (fun _ _ _ => step_of_fire) hs
  exact ⟨m, m', pend, hr, soft_block_count_of_run (initial_of_start slowClock_powerOn hm) hr⟩

/-- The test thread blocks for the answer to its request and gets it: nothing is outstanding, but
the request is still counted. -/
def answeredTrace : List Event :=
  Event.ssiCalls 2 ++ Event.ssiRequest getCpuTime 0 ++ Event.ssiCalls 6

theorem soft_block_count_drifts : ¬ ∀ (m m' : Machine) (es : List Event) pend, m.Initial →
    Run SsiRequestStep (m, fun _ => false) es (m', pend) →
    m'.k.softBlockCount.toNat = threadArray.countP fun p => m'.k.Live p ∧ pend p = true := by
  intro hall
  have hrun : passes (fun m => passes (fun s => s.1.k.softBlockCount = 1 &&
      threadArray.countP (fun p => s.1.k.Live p ∧ s.2 p = true) = 0)
      (exec (guarded (fun s e _ => s.1.SsiRequestOnly e s.2) Stop.fault (execWith fire notePending))
        (m, fun _ => false) answeredTrace)) (start .zeroed) = true := by
    decide +kernel
  obtain ⟨m, hm, hrun⟩ := exists_of_passes hrun
  obtain ⟨⟨m', pend⟩, hs, hcount⟩ := exists_of_passes hrun
  simp only [Bool.and_eq_true, decide_eq_true_eq] at hcount
  have hr : Run SsiRequestStep (m, fun _ => false) answeredTrace (m', pend) :=
    run_of_guarded (fun _ _ _ => step_of_fire) hs
  have heq := hall m m' _ pend (initial_of_start Kernel.zeroed_powerOn hm) hr
  rw [hcount.1, hcount.2] at heq
  cases heq

end Machine

end AmiKaya
