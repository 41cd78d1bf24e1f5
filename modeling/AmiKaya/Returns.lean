import AmiKaya.Writes

/-! With what state a thread goes on that has been blocked in a RECV or by a trap. -/
namespace AmiKaya
open Lts

namespace Machine

variable {m m' : Machine} {e : Event} {p w a : Ptr} {s s' : State}

/-- The thread is blocked with a saved state, until a message for `w` comes; it wants the payload
at `a`. -/
structure Blocked (m : Machine) (p : Ptr) (s : State) (w a : Ptr) : Prop where
  waiting : p ∈ m.k.waitQueue
  tState : (m.k.tcb p).tState = s
  waitingFor : (m.k.tcb p).waitingFor = w
  reply : (m.k.tcb p).reply = a

/-- The step that lets a blocked thread go on, and the state it then has: it is handed a message it
waits for, or the thread it waits for makes the SEND with which a manager decides. -/
def Wakes (m : Machine) (e : Event) (m' : Machine) (p : Ptr) (s : State) (w a : Ptr) (s' : State) :
    Prop :=
  (∃ id v, m.Carries e p id v ∧ (w = anyMessage ∨ w = id) ∧ a.toNat % 4 = 0 ∧ m'.k.mem a = v ∧
    s' = s.setV0 id) ∨
  m.entry e = .send ∧ w = m.k.currentThread ∧ s' = s

/-- It goes on with this state the next time it is loaded, or has just been loaded. -/
def GoesOn (m : Machine) (p : Ptr) (s : State) : Prop :=
  m.Parked p s ∨ p = m.k.currentThread ∧ m.k.cpu = s

theorem goesOn_of_left (hw : m.Wf) (h : m.Step e m') (hp : p ∈ m.k.waitQueue)
    (hl : p ∉ m'.k.waitQueue)
    (hf : p ∉ m'.k.tcbFree) (hs : (m'.k.tcb p).tState = s) : m'.GoesOn p s := by
  have hcur := (hw.placed.wait_notMem hp).2.2
  rcases ready_or_current (live_step hw h (.inr (.inl hp)) hf) hl with hr | ⟨hc, hn⟩
  · exact .inl ⟨hr, hs⟩
  · rcases loaded_of_step hw h hn with ⟨he, -⟩ | ⟨-, hcpu⟩
    · exact absurd (he.symm.trans hc.symm) hcur
    · exact .inr ⟨hc, by rw [hcpu, ← hc, hs]⟩

theorem Blocked.kept {c : Ptr} {k : Kernel} (hb : m.Blocked p s w a) (hi : Inert c k m'.k)
    (hc : p ≠ c)
    (hf : p ∉ m'.k.tcbFree) (hq : k.waitQueue = m.k.waitQueue) (ht : k.tcb p = m.k.tcb p) :
    m'.Blocked p s w a where
  waiting := hi.stays p (hq ▸ hb.waiting) hf
  tState := by rw [hi.tState p hc, ht, hb.tState]
  waitingFor := by rw [hi.waitingFor p hc, ht, hb.waitingFor]
  reply := by rw [hi.reply p, ht, hb.reply]

/-- A message is handed to it, or to somebody else, or to nobody. -/
theorem Blocked.reached {c t id : Ptr} {v : U32} {k : Kernel} (hb : m.Blocked p s w a) (hw : m.Wf)
    (h : m.Step e m') (hcar : m.Carries e t id v) (hr : Reaches c t id v k m'.k) (hc : p ≠ c)
    (hf : p ∉ m'.k.tcbFree) (hq : k.waitQueue = m.k.waitQueue) (ht : k.tcb p = m.k.tcb p) :
    m'.Blocked p s w a ∨ ∃ s', m.Wakes e m' p s w a s' ∧ m'.GoesOn p s' := by
  rcases hr with hi | hh
  · exact .inl (hb.kept hi hc hf hq ht)
  · by_cases hpt : p = t
    · subst hpt
      right
      have hwants : w = anyMessage ∨ w = id := by
        have ha := hh.awaits
        rw [Kernel.awaits, ht, hb.waitingFor] at ha
        simpa [or_comm] using ha
      have hal := hh.aligned
      have hmem := congrFun hh.mem (k.tcb p).reply
      rw [Links.put_same] at hmem
      rw [ht, hb.reply] at hal hmem
      refine ⟨_, .inl ⟨id, v, hcar, hwants, hal, hmem, rfl⟩, goesOn_of_left hw h hb.waiting hh.left hf ?_⟩
      rw [hh.tState p hc, if_pos rfl, ht, hb.tState]
    · left
      refine ⟨hh.stays p (hq ▸ hb.waiting) hpt hf, ?_, ?_, ?_⟩
      · rw [hh.tState p hc, if_neg hpt, ht, hb.tState]
      · rw [hh.waitingFor p hc hpt, ht, hb.waitingFor]
      · rw [hh.reply, if_neg hpt, ht, hb.reply]

/-- A blocked thread stays so, or a step of somebody else wakes it. -/
theorem Blocked.step (hb : m.Blocked p s w a) (hw : m.Wf) (h : m.Step e m') (he : edits p e = false)
    (hf : p ∉ m'.k.tcbFree) :
    m'.Blocked p s w a ∨ ∃ s', m.Wakes e m' p s w a s' ∧ m'.GoesOn p s' := by
  have hplace := Kernel.mem_places.mpr (.inr (.inl hb.waiting))
  obtain ⟨-, hfree, hcur⟩ := hw.placed.wait_notMem hb.waiting
  have hcur : p ≠ m.k.currentThread := fun hx => hcur hx.symm
  have hne := placed_ne_writes hw hplace hfree hcur he
  have hn : p ≠ null := hw.placed.ne_null hplace
  cases step_changes hw h with
  | reached ht hr => exact hb.reached hw h ht hr hne hf rfl rfl
  | notified hx hr =>
    subst hx
    rcases hr with hi | ⟨id, service, arg, hid, hr⟩
    · exact .inl (hb.kept hi hcur hf rfl rfl)
    · exact hb.reached hw h ⟨rfl, hid, rfl⟩ hr hcur hf (by rfl) (by rfl)
  | @resumed t hx _ hr =>
    have hstate := (hr.tState p hcur).trans hb.tState
    have hfor := (hr.waitingFor p hcur).trans hb.waitingFor
    by_cases hq : p ∈ m'.k.waitQueue
    · exact .inl ⟨hq, hstate, hfor, (hr.reply p).trans hb.reply⟩
    · have hpt : p = t := by
        by_contra hpt
        exact hq (hr.stays p hb.waiting hpt hf)
      have hman := hr.manager
      rw [← hpt, hb.waitingFor] at hman
      exact .inr ⟨s, .inr ⟨hx, hman, rfl⟩, goesOn_of_left hw h hb.waiting hq hf hstate⟩
  | inert _ _ hi => exact .inl (hb.kept hi hne hf rfl rfl)
  | stored _ _ hi => exact .inl (hb.kept hi hn hf rfl rfl)
  | received _ _ _ _ hi => exact .inl (hb.kept hi hcur hf rfl rfl)
  | blocked _ _ hi => exact .inl (hb.kept hi hcur hf rfl (by simp [Kernel.setTcb, hcur]))
  | @born q hq _ hi =>
    obtain ⟨free, hfr⟩ := List.head?_eq_some_iff.mp (born_head hq)
    have hpq : p ≠ q := by
      rintro rfl
      exact hfree (by simp [hfr])
    refine .inl (hb.kept hi hn hf ?_ ?_)
    · simp only [Kernel.allocTcb, hfr]
      rfl
    · simp [Kernel.allocTcb, hfr, Kernel.setTcb, hpq]

/-- Once it goes on, it does so with the same state until it is on the processor. -/
theorem GoesOn.run {es : List Event} (hg : m.GoesOn p s) (hw : m.Wf) (hn : p ≠ m.k.currentThread)
    (hr : Run (Leaves p) m es m') : m'.Parked p s := by
  rcases hg with hg | ⟨hcur, -⟩
  · exact (hg.run hw hr).2
  · exact absurd hcur hn

/-- One step of a run wakes the thread, and it is loaded with the state it then has. -/
def Returns (m : Machine) (es : List Event) (m' : Machine) (p : Ptr) (s : State) (w a : Ptr)
    (s' : State) :
    Prop :=
  ∃ es₁ n e n' es₂, es = es₁ ++ e :: es₂ ∧ Run (Leaves p) m es₁ n ∧ n.Step e n' ∧
    n.Wakes e n' p s w a s' ∧ m'.k.cpu = s'

theorem Returns.cons {es : List Event} {n : Machine} (hs : Leaves p m e m')
    (h : m'.Returns es n p s w a s') : m.Returns (e :: es) n p s w a s' := by
  obtain ⟨es₁, n₁, e₁, n₂, es₂, rfl, hr, hstep, hwakes, hcpu⟩ := h
  exact ⟨e :: es₁, n₁, e₁, n₂, es₂, rfl, .stepL hs hr, hstep, hwakes, hcpu⟩

/-- A step that puts `p` on the processor edits no saved state. -/
theorem not_edits_of_loaded (h : m.Step e m') (hc : p ≠ m.k.currentThread)
    (hc' : m'.k.currentThread = p) :
    edits p e = false := by
  cases e with
  | edit q s =>
    obtain ⟨-, hs⟩ := h
    cases hs
    exact absurd hc'.symm hc
  | sysbp | pgmtrap | tlb | interrupt | ssi | devices | store => rfl

theorem Parked.loaded (hp : m.Parked p s) (hw : m.Wf) (h : m.Step e m')
    (hc : m'.k.currentThread = p)
    (hn : p ≠ null) : m'.k.cpu = s := by
  subst hc
  have hcur := (hw.placed.ready_notMem hp.1).2.2
  have hnot := (hw.step h).placed.current_notMem hn
  have hedit := not_edits_of_loaded h (fun hx => hcur hx.symm) rfl
  rcases hp.step hw h hedit hnot.2.2 with ⟨hready, -⟩ | ⟨-, hcpu⟩
  · exact absurd hready hnot.1
  · exact hcpu

/-- The next time a blocked thread is on the processor, some step has woken it. -/
theorem Blocked.returns {es : List Event} {n n' : Machine} (hb : m.Blocked p s w a) (hw : m.Wf)
    (hr : Run (Leaves p) m es n) (hs : n.Step e n') (hc : n'.k.currentThread = p) :
    ∃ s', m.Returns (es ++ [e]) n' p s w a s' := by
  induction hr with
  | refl =>
    rename_i m
    obtain ⟨-, hfree, hcur⟩ := hw.placed.wait_notMem hb.waiting
    have hn : p ≠ null := hw.placed.ne_null (Kernel.mem_places.mpr (.inr (.inl hb.waiting)))
    have hcur : p ≠ m.k.currentThread := fun hx => hcur hx.symm
    have hnot := (hw.step hs).placed.current_notMem (hc ▸ hn)
    rw [hc] at hnot
    rcases hb.step hw hs (not_edits_of_loaded hs hcur hc) hnot.2.2 with hb' | ⟨s', hwakes, hg⟩
    · exact absurd hb'.waiting hnot.2.1
    · rcases hg with hg | ⟨-, hcpu⟩
      · exact absurd hg.1 hnot.1
      · exact ⟨s', [], m, e, n', [], rfl, .refl, hs, hwakes, hcpu⟩
  | @stepL m e₁ m' es n hl hrest ih =>
    obtain ⟨hstep, hcur', hfree, hedit⟩ := hl
    rcases hb.step hw hstep hedit hfree with hb' | ⟨s', hwakes, hg⟩
    · obtain ⟨s', hret⟩ := ih hb' (hw.step hstep) hs
      exact ⟨s', hret.cons ⟨hstep, hcur', hfree, hedit⟩⟩
    · have hn : p ≠ null := hw.placed.ne_null (Kernel.mem_places.mpr (.inr (.inl hb.waiting)))
      have hw' := hw.step hstep
      have hpark := hg.run hw' hcur' hrest
      have hwn : n.Wf := hrest.inv (I := Wf) (fun _ _ _ hx hi => hi.step hx.1) hw'
      exact ⟨s', [], m, e₁, m', es ++ [e], rfl, .refl, hstep, hwakes, hpark.loaded hwn hs hc hn⟩

end Machine

/-- The state saved at an exception: behind the instruction, if it was a system call or a
breakpoint. -/
def Event.saved : Event → State
  | .sysbp old => { saveState old with pcEpc := old.pcEpc + wordSize }
  | .pgmtrap old | .tlb old | .interrupt old | .ssi old => saveState old
  | .devices _ | .store _ _ | .edit _ _ => initTState

namespace Kernel

variable {k k' : Kernel} {q : Ptr} {cause : U32} {old : State}

theorem enter_tState (k : Kernel) (old : State) :
    ((k.enter old).tcb k.currentThread).tState = saveState old := by
  simp [enter, setState, chargeCpu, chargeTime, chargeSlice, setTcb, readTodlow]

theorem sysbpEnter_tState (k : Kernel) (old : State) :
    ((k.sysbpEnter old).tcb k.currentThread).tState = (Event.sysbp old).saved := by
  have hcur : (k.enter old).currentThread = k.currentThread := (Quiet.enter old).currentThread
  simp only [sysbpEnter, hcur, setTcb, Links.put_same, enter_tState]
  rfl

/-- A thread with a manager is frozen. -/
theorem passUp_frozen (hk : Placed k) (hc : k.currentThread ≠ null) (hq : q ≠ null)
    (h : k.passUp q cause = .ok k') : k.currentThread ∈ k'.waitQueue ∧
      (k'.tcb k.currentThread).tState = (k.tcb k.currentThread).tState ∧
      (k'.tcb k.currentThread).waitingFor = q ∧
      (k'.tcb k.currentThread).reply = (k.tcb k.currentThread).reply := by
  rw [passUp, if_neg hq] at h
  obtain ⟨⟨r, k₁⟩, h₁, h₂⟩ := bind_eq_ok.mp h
  cases h₂
  have hcur : k₁.currentThread = k.currentThread := (send_frame h₁).currentThread
  have hsent : (k₁.tcb k.currentThread).tState = (k.tcb k.currentThread).tState ∧
      (k₁.tcb k.currentThread).reply = (k.tcb k.currentThread).reply := by
    rcases Reaches.send (c := null) hk h₁ with hi | hh
    · exact ⟨hi.tState _ hc, hi.reply _⟩
    · have hne : k.currentThread ≠ q := by
        rintro rfl
        exact (hk.current_notMem hc).2.1 hh.waiting
      rw [hh.tState _ hc, hh.reply, if_neg hne, if_neg hne]
      exact ⟨rfl, rfl⟩
  simp only [insertThread, setTcb, hcur, Links.put_same]
  exact ⟨List.mem_append_right _ (List.mem_singleton.mpr rfl), hsent.1, trivial, hsent.2⟩

end Kernel

namespace Machine

variable {m m' : Machine} {e : Event} {p q : Ptr} {old : State}

/-- After a trap the thread is blocked, with the state saved at the trap, until a message of its
manager comes. -/
theorem trap_blocked (hw : m.Wf) (h : m.Step e m') (he : m.entry e = .trap q) (hq : q ≠ null) :
    m'.Blocked m.k.currentThread e.saved q (m.k.tcb m.k.currentThread).reply := by
  have hbody : ∀ {k}, m.body e = .ok k → m.k.currentThread ≠ null ∧ m.k.currentThread ∈ k.waitQueue ∧
      (k.tcb m.k.currentThread).tState = e.saved ∧ (k.tcb m.k.currentThread).waitingFor = q ∧
      (k.tcb m.k.currentThread).reply = (m.k.tcb m.k.currentThread).reply := by
    intro k hb
    have hpass : ∀ {k₀ : Kernel} {cause}, Quiet m.k k₀ → m.k.currentThread ≠ null →
        k₀.passUp q cause = .ok k → (k₀.tcb m.k.currentThread).tState = e.saved →
        m.k.currentThread ≠ null ∧ m.k.currentThread ∈ k.waitQueue ∧
        (k.tcb m.k.currentThread).tState = e.saved ∧ (k.tcb m.k.currentThread).waitingFor = q ∧
        (k.tcb m.k.currentThread).reply = (m.k.tcb m.k.currentThread).reply := by
      intro k₀ cause hquiet hc hp hs
      have hfrozen := Kernel.passUp_frozen (hw.placed.of_perm (SamePlaces.quiet hquiet))
        (hquiet.currentThread ▸ hc) hq hp
      rw [hquiet.currentThread, hs, hquiet.reply] at hfrozen
      exact ⟨hc, hfrozen⟩
    cases e with
    | sysbp old =>
      have hquiet := Kernel.sysbpEnter_quiet (k := m.k) old
      simp only [entry, Kernel.sysbpEntry] at he
      split at he
      · cases he
      · split at he
        · cases he
        · have hman := Entry.trap.inj he
          simp only [body, Kernel.sysbpBody_eq, if_neg ‹¬ old.isSend = true›,
            if_neg ‹¬ old.isRecv = true›, hquiet.currentThread, Kernel.sysbpEnter_manager, hman] at hb
          exact hpass hquiet h.1.1 hb (Kernel.sysbpEnter_tState m.k old)
    | pgmtrap old | tlb old =>
      have hman := Entry.trap.inj he
      have hb' : (m.k.enter old).passUp q old.cause = .ok k := by
        rw [← hman, ← Kernel.enter_manager (k := m.k) old]
        exact hb
      exact hpass (.enter old) h.1 hb' (Kernel.enter_tState m.k old)
    | ssi old =>
      simp only [entry] at he
      split at he <;> cases he
    | interrupt | devices | store | edit => cases he
  obtain ⟨k, hb, ⟨-, hk⟩ | ⟨-, hk⟩⟩ := step_body h
  · obtain ⟨hc, hwait, hstate, hfor, hreply⟩ := hbody hb
    have hi : Inert null k m'.k := .scheduler hk
    refine ⟨?_, (hi.tState _ hc).trans hstate, (hi.waitingFor _ hc).trans hfor,
      (hi.reply _).trans hreply⟩
    rwa [(Kernel.scheduler_silent hk).waitQueue]
  · obtain ⟨-, hwait, hstate, hfor, hreply⟩ := hbody hb
    exact ⟨hk ▸ hwait, hk ▸ hstate, hk ▸ hfor, hk ▸ hreply⟩

/-- A RECV that finds its message goes on with it at once, any other blocks. -/
theorem recv_step (h : m.Step (.sysbp old) m') (hr : old.isRecv = true) :
    (∀ x rest, popMessage (m.k.tcb m.k.currentThread).tInbox old.regA1 = some (x, rest) →
      m'.k.currentThread = m.k.currentThread ∧
        m'.k.cpu = (Event.sysbp old).saved.setV0 x.mSender ∧ m'.k.mem old.regA2 = x.mMessage) ∧
    (popMessage (m.k.tcb m.k.currentThread).tInbox old.regA1 = none →
      m'.Blocked m.k.currentThread ((Event.sysbp old).saved.setV0 null) old.regA1 old.regA2) := by
  have hc := h.1.1
  have hquiet := Kernel.sysbpEnter_quiet (k := m.k) old
  have hstate := Kernel.sysbpEnter_tState m.k old
  have hsend : ¬ old.isSend = true := by
    intro hs
    rw [isRecv_of_isSend hs] at hr
    cases hr
  obtain ⟨k, hb, ⟨-, hk⟩ | ⟨hs, -⟩⟩ := step_body h
  · simp only [body, Kernel.sysbpBody_eq, if_neg hsend, if_pos hr] at hb
    obtain ⟨⟨r, k₁⟩, h₁, h₂⟩ := bind_eq_ok.mp hb
    cases h₂
    rw [hquiet.currentThread] at h₁ hk
    rcases Kernel.recv_cases h₁ with ⟨hpop, rfl, rfl⟩ | ⟨x, rest, hpop, -, hx, rfl⟩
    · rw [hquiet.tInbox] at hpop
      refine ⟨fun x rest hx => absurd (hpop.symm.trans hx) (by simp), fun _ => ?_⟩
      have hi := Inert.scheduler (c := null) hk
      refine ⟨?_, ?_, ?_, ?_⟩
      · rw [(Kernel.scheduler_silent hk).waitQueue]
        exact List.mem_append_right _ (List.mem_singleton.mpr rfl)
      · rw [hi.tState _ hc, ← hstate]
        simp [Kernel.block, Kernel.setTcb]
      · rw [hi.waitingFor _ hc]
        simp [Kernel.block, Kernel.setTcb]
      · rw [hi.reply]
        simp [Kernel.block, Kernel.setTcb]
    · rw [hquiet.tInbox] at hpop
      refine ⟨fun y rest' hy => ?_, fun hn => absurd (hn.symm.trans hpop) (by simp)⟩
      rw [hpop] at hy
      cases hy
      have hsender : r = x.mSender := by
        rw [hx]
        split
        · rfl
        · obtain ⟨_, _, -, -, -, hfirst⟩ := popMessage_some hpop
          exact (hfirst ‹_›).1.symm
      rw [Kernel.scheduler, if_neg (by exact hquiet.currentThread ▸ hc)] at hk
      have hk := Except.ok.inj hk
      rw [← hk]
      refine ⟨?_, ?_, ?_⟩
      · rw [Quiet.resumeCurrent.currentThread]
        exact hquiet.currentThread
      · rw [(Kernel.resumeCurrent_cpu _).2]
        simp [Kernel.received, Kernel.setTcb, hquiet.currentThread, hstate, hsender]
      · rw [Kernel.resumeCurrent_mem]
        simp [Kernel.received, Kernel.setTcb]
  · cases hs

/-- In every run, a RECV that finds a message it accepts returns its sender at once, and has stored
the payload where it was asked to. One that finds none goes on with the state of the call, if nobody
but the kernel writes to that state: with the sender of a message it accepts, whose payload is
stored in the step that wakes the thread, or with NULL and no payload, if the thread it waits for
makes the SEND with which a manager decides. -/
theorem recv_returns {es es' : List Event} {m₁ m₂ m₃ m₄ : Machine} (h : m.Initial)
    (hr : Run Step m es m₁) (hc : m₁.k.currentThread = p) (hs : m₁.Step (.sysbp old) m₂)
    (hrecv : old.isRecv = true) :
    (∀ x rest, popMessage (m₁.k.tcb p).tInbox old.regA1 = some (x, rest) →
      m₂.k.currentThread = p ∧ m₂.k.cpu = (Event.sysbp old).saved.setV0 x.mSender ∧
        m₂.k.mem old.regA2 = x.mMessage) ∧
    (popMessage (m₁.k.tcb p).tInbox old.regA1 = none → Run (Leaves p) m₂ es' m₃ → m₃.Step e m₄ →
      m₄.k.currentThread = p → ∃ s', m₂.Returns (es' ++ [e]) m₄ p ((Event.sysbp old).saved.setV0 null)
        old.regA1 old.regA2 s') := by
  subst hc
  have hw := wf_of_run h hr
  obtain ⟨hnow, hblocked⟩ := recv_step hs hrecv
  exact ⟨hnow, fun hpop hrun hstep hback => (hblocked hpop).returns (hw.step hs) hrun hstep hback⟩

theorem run_leaves {es : List Event}
    (h : exec (guarded (fun _ e m' => p ≠ m'.k.currentThread ∧ p ∉ m'.k.tcbFree ∧ edits p e = false)
      Stop.fault fire) m es = .ok m') : Run (Leaves p) m es m' := by
  refine (run_of_exec h).mono ?_
  intro m e m' hg
  obtain ⟨hf, hguard⟩ := of_guarded hg
  exact ⟨step_of_fire hf, hguard⟩

/-- The test thread waits for the answer of the SSI, which makes five calls until it waits itself.
-/
theorem recv_returns_answer : ∃ m m₁ m₂ m₃ m₄ : Machine, ∃ old : State, m.Initial ∧
    Run Step m (requestTrace.take 5) m₁ ∧ m₁.Step (.sysbp old) m₂ ∧
    Run (Leaves testThreadAddr) m₂ (Event.ssiCalls 5) m₃ ∧ m₃.Step (.ssi initTState) m₄ ∧
    m₄.k.currentThread = testThreadAddr ∧ ∃ s', m₂.Returns (Event.ssiCalls 5 ++ [.ssi initTState]) m₄
      testThreadAddr ((Event.sysbp old).saved.setV0 null) old.regA1 old.regA2 s' := by
  have hrun : passes (fun m => passes (fun m₁ => m₁.k.currentThread = testThreadAddr &&
      popMessage (m₁.k.tcb testThreadAddr).tInbox magicSsi = none &&
      passes (fun m₂ => passes (fun m₃ => passes (fun m₄ => m₄.k.currentThread = testThreadAddr)
          (m₃.fire (.ssi initTState)))
        (exec (guarded (fun _ e m' => testThreadAddr ≠ m'.k.currentThread ∧
          testThreadAddr ∉ m'.k.tcbFree ∧ edits testThreadAddr e = false) Stop.fault fire) m₂
          (Event.ssiCalls 5)))
      (m₁.fire (.call sysRecv magicSsi 0x20030100)))
      (exec fire m (requestTrace.take 5))) (start .zeroed) = true := by
    decide +kernel
  obtain ⟨m, hm, hrun⟩ := exists_of_passes hrun
  obtain ⟨m₁, hs₁, hrun⟩ := exists_of_passes hrun
  simp only [Bool.and_eq_true, decide_eq_true_eq] at hrun
  obtain ⟨⟨hc, hpop⟩, hrun⟩ := hrun
  obtain ⟨m₂, hs₂, hrun⟩ := exists_of_passes hrun
  obtain ⟨m₃, hs₃, hrun⟩ := exists_of_passes hrun
  obtain ⟨m₄, hs₄, hback⟩ := exists_of_passes hrun
  have hi := initial_of_start Kernel.zeroed_powerOn hm
  have hr : Run Step m (requestTrace.take 5) m₁ := (run_of_exec hs₁).mono fun _ _ _ => step_of_fire
  have hback := of_decide_eq_true hback
  have hregs := State.syscall_regs initTState sysRecv magicSsi 0x20030100
  have hret := (recv_returns hi hr hc (step_of_fire hs₂) (State.syscall_isRecv _ _ _).2).2
    (by rw [hregs.2.1]; exact hpop) (run_leaves hs₃) (step_of_fire hs₄) hback
  exact ⟨m, m₁, m₂, m₃, m₄, _, hi, hr, step_of_fire hs₂, run_leaves hs₃, step_of_fire hs₄, hback, hret⟩

/-- In every run, a thread that is frozen by a trap goes on with the state saved at the trap, by a
SEND of the manager the trap was passed up to, if nobody but the kernel writes to that state; the
reply pointer of a thread that is in no RECV is at its 'not waiting' value. -/
theorem trap_transparent {es es' : List Event} {m₁ m₂ m₃ m₄ : Machine} {e' : Event} (h : m.Initial)
    (hr : Run Step m es m₁) (hc : m₁.k.currentThread = p) (he : m₁.entry e = .trap q) (hq : q ≠ null)
    (hreply : (m₁.k.tcb p).reply = notWaiting) (hs : m₁.Step e m₂) (hrun : Run (Leaves p) m₂ es' m₃)
    (hstep : m₃.Step e' m₄) (hback : m₄.k.currentThread = p) :
    m₄.k.cpu = e.saved ∧ ∃ es₁ n e₁ n' es₂, es' ++ [e'] = es₁ ++ e₁ :: es₂ ∧
      Run (Leaves p) m₂ es₁ n ∧ n.Step e₁ n' ∧ n.entry e₁ = .send ∧ n.k.currentThread = q := by
  subst hc
  have hw := wf_of_run h hr
  have hb := trap_blocked hw hs he hq
  rw [hreply] at hb
  obtain ⟨s', es₁, n, e₁, n', es₂, hes, hrun₁, hst, hwakes, hcpu⟩ :=
    hb.returns (hw.step hs) hrun hstep hback
  rcases hwakes with ⟨id, v, -, -, hal, -, -⟩ | ⟨hsend, hman, rfl⟩
  · exact absurd hal (by decide)
  · exact ⟨hcpu, es₁, n, e₁, n', es₂, hes, hrun₁, hst, hsend, hman.symm⟩

/-- The manager lets the test thread go on and waits for its next message. -/
theorem trap_transparent_continued : ∃ m m₁ m₂ m₃ m₄ : Machine, m.Initial ∧
    Run Step m managerTrace m₁ ∧ m₁.Step (.call 9 0 0) m₂ ∧
    Run (Leaves testThreadAddr) m₂ [.sysbp (answer trapContinue)] m₃ ∧
    m₃.Step (.call sysRecv anyMessage 0x20030200) m₄ ∧ m₄.k.cpu = (Event.call 9 0 0).saved := by
  have hrun : passes (fun m => passes (fun m₁ => m₁.k.currentThread = testThreadAddr &&
      m₁.entry (.call 9 0 0) = .trap managerAddr && (m₁.k.tcb testThreadAddr).reply = notWaiting &&
      passes (fun m₂ => passes (fun m₃ => passes (fun m₄ => m₄.k.currentThread = testThreadAddr)
          (m₃.fire (.call sysRecv anyMessage 0x20030200)))
        (exec (guarded (fun _ e m' => testThreadAddr ≠ m'.k.currentThread ∧
          testThreadAddr ∉ m'.k.tcbFree ∧ edits testThreadAddr e = false) Stop.fault fire) m₂
          [.sysbp (answer trapContinue)]))
      (m₁.fire (.call 9 0 0)))
      (exec fire m managerTrace)) (start .zeroed) = true := by
    decide +kernel
  obtain ⟨m, hm, hrun⟩ := exists_of_passes hrun
  obtain ⟨m₁, hs₁, hrun⟩ := exists_of_passes hrun
  simp only [Bool.and_eq_true, decide_eq_true_eq] at hrun
  obtain ⟨⟨⟨hc, hentry⟩, hreply⟩, hrun⟩ := hrun
  obtain ⟨m₂, hs₂, hrun⟩ := exists_of_passes hrun
  obtain ⟨m₃, hs₃, hrun⟩ := exists_of_passes hrun
  obtain ⟨m₄, hs₄, hback⟩ := exists_of_passes hrun
  have hi := initial_of_start Kernel.zeroed_powerOn hm
  have hr : Run Step m managerTrace m₁ := (run_of_exec hs₁).mono fun _ _ _ => step_of_fire
  have hcpu := (trap_transparent hi hr hc hentry (by decide) hreply (step_of_fire hs₂) (run_leaves hs₃)
    (step_of_fire hs₄) (of_decide_eq_true hback)).1
  exact ⟨m, m₁, m₂, m₃, m₄, hi, hr, step_of_fire hs₂, run_leaves hs₃, step_of_fire hs₄, hcpu⟩

end Machine

end AmiKaya
