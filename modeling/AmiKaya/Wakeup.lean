import AmiKaya.Runs

/-! How a thread gets in the wait queue and what can happen to it there; no wake-up is lost. -/
namespace AmiKaya
open Lts

/-- A RECV from `w` would take this message. -/
def Accepts (w : Ptr) (m : Msg) : Prop := w = anyMessage ∨ m.mSender = w

/-- The thread was already waiting, for the same sender with the same reply pointer, and got only
messages it does not wait for. -/
structure StillWaits (k k' : Kernel) (p : Ptr) : Prop where
  mem : p ∈ k.waitQueue
  waitingFor : (k'.tcb p).waitingFor = (k.tcb p).waitingFor
  reply : (k'.tcb p).reply = (k.tcb p).reply
  tInbox : ∀ m ∈ (k'.tcb p).tInbox, m ∈ (k.tcb p).tInbox ∨ ¬ Accepts (k.tcb p).waitingFor m

namespace StillWaits

variable {k k' k'' : Kernel} {p t : Ptr}

theorem of_eq (hp : p ∈ k.waitQueue) (ht : k'.tcb p = k.tcb p) : StillWaits k k' p :=
  ⟨hp, by rw [ht], by rw [ht], fun m hm => .inl (ht ▸ hm)⟩

theorem trans (h : StillWaits k k' p) (h' : StillWaits k' k'' p) : StillWaits k k'' p where
  mem := h.mem
  waitingFor := h'.waitingFor.trans h.waitingFor
  reply := h'.reply.trans h.reply
  tInbox m hm := by
    rcases h'.tInbox m hm with hm | hm
    · exact h.tInbox m hm
    · exact .inr (h.waitingFor ▸ hm)

theorem quiet (h : Quiet k k') (hp : p ∈ k'.waitQueue) : StillWaits k k' p where
  mem := h.waitQueue ▸ hp
  waitingFor := h.waitingFor p
  reply := h.reply p
  tInbox _ hm := .inl (h.tInbox p ▸ hm)

/-- A message can be queued for a thread that does not wait for it. -/
theorem enqueue {id : Ptr} {v : U32} (ht : t ∈ k.waitQueue → k.awaits t id = false)
    (he : k.enqueue id t v = .ok k') (hp : p ∈ k'.waitQueue) : StillWaits k k' p := by
  obtain ⟨a, free, -, rfl⟩ := Kernel.enqueue_cases he
  by_cases hpt : p = t
  · subst hpt
    have haw := ht hp
    simp only [Kernel.awaits, Bool.or_eq_false_iff, decide_eq_false_iff_not] at haw
    refine ⟨hp, by simp, by simp, fun m hm => ?_⟩
    have hm : m = ⟨a, id, v⟩ ∨ m ∈ (k.tcb p).tInbox := by
      simp only [Links.put_same, Kernel.queued] at hm
      split at hm
      · exact List.mem_cons.mp hm
      · rcases List.mem_append.mp hm with hm | hm
        · exact .inr hm
        · exact .inl (List.mem_singleton.mp hm)
    rcases hm with rfl | hm
    · refine .inr ?_
      rintro (hany | hid)
      · exact haw.2 hany
      · exact haw.1 hid.symm
    · exact .inl hm
  · exact of_eq hp (by simp [hpt])

theorem send {s : Ptr} {v r : U32} (hk : Placed k) (hs : k.send s t v = .ok (r, k'))
    (hp : p ∈ k'.waitQueue) : StillWaits k k' p := by
  rcases Kernel.send_cases hs with ⟨ht, -, he⟩ | ⟨-, -, -, ht, -, -, -, rfl⟩ |
    ⟨-, -, -, -, -, ha, he⟩ | ⟨-, -, -, rfl⟩
  · refine enqueue (fun hw => ?_) he hp
    have hn := hk.wait_notMem hw
    rcases ht with ⟨ht, -⟩ | ht
    · exact absurd ht hn.1
    · exact absurd ht hn.2.2
  · have hne : p ≠ t := by
      rintro rfl
      exact hk.wait_erase hp
    exact of_eq (List.mem_of_mem_erase hp) (by simp [Kernel.delivered, hne])
  · exact enqueue (fun _ => ha) he hp
  · exact of_eq hp rfl

/-- A store of the parent, or any other, that leaves message passing alone. -/
theorem setTcb {f : Tcb → Tcb} {l : Links.Heap Ptr}
    (hf : ∀ x : Tcb, (f x).waitingFor = x.waitingFor ∧
    (f x).reply = x.reply ∧ (f x).tInbox = x.tInbox) (hp : p ∈ k.waitQueue) :
    StillWaits k { k.setTcb t f with links := l } p := by
  by_cases hpt : p = t
  · subst hpt
    exact ⟨hp, by simp [Kernel.setTcb, hf], by simp [Kernel.setTcb, hf],
      fun m hm => .inl (by simpa [Kernel.setTcb, hf] using hm)⟩
  · exact of_eq hp (by simp [Kernel.setTcb, hpt])

theorem reap (h : k.reap t = .ok k') (hp : p ∈ k'.waitQueue) : StillWaits k k' p := by
  have hkeep : p ∈ k.waitQueue ∧ k'.tcb = put k.tcb t { k.tcb t with tInbox := [] } := by
    rcases Kernel.reap_cases h with ⟨-, rfl⟩ | ⟨-, -, -, -, rfl⟩
    · exact ⟨hp, rfl⟩
    · exact ⟨List.mem_of_mem_erase hp, rfl⟩
  by_cases hpt : p = t
  · subst hpt
    exact ⟨hkeep.1, by simp [hkeep.2], by simp [hkeep.2], by simp [hkeep.2]⟩
  · exact of_eq hkeep.1 (by simp [hkeep.2, hpt])

theorem terminate (h : k.terminate t = .ok k') (hp : p ∈ k'.waitQueue) : StillWaits k k' p := by
  obtain ⟨k₁, h₁, h₂⟩ := Kernel.terminate_cases
    (R := fun k k' => ∀ p ∈ k'.waitQueue, StillWaits k k' p) (fun _ _ hp => of_eq hp rfl)
    (fun _ _ _ h h' p hp => (h p (h' p hp).mem).trans (h' p hp))
    (fun _ _ _ hp => setTcb (fun _ => ⟨rfl, rfl, rfl⟩) hp) (fun _ _ _ _ hr _ hp => reap hr hp) h
  have hr := reap h₂ hp
  exact (h₁ p hr.mem).trans hr

end StillWaits

/-- There are two ways into the wait queue. A RECV goes there only when its inbox has nothing for
it; a trap goes there without a look at the inbox. -/
theorem wait_cases {k k' : Kernel} {o : Op} {p : Ptr} (hk : Placed k) (hs : OpStep k o k')
    (hp : p ∈ k'.waitQueue) :
    StillWaits k k' p ∨
    (∃ w a r, o = .recv p w a r ∧ (k'.tcb p).waitingFor = w ∧ (k'.tcb p).reply = a ∧
      ∀ m ∈ (k'.tcb p).tInbox, ¬ Accepts w m) ∨
    ∃ m, o = .freeze p m ∧ m ≠ null ∧ (k'.tcb p).waitingFor = m := by
  cases hs with
  | quiet hq => exact .inl (.quiet hq hp)
  | send hs => exact .inl (.send hk hs hp)
  | @recv _ w a r hc hr =>
    rcases Kernel.recv_cases hr with ⟨hpop, -, rfl⟩ | ⟨m, rest, -, -, -, rfl⟩
    · by_cases hpc : p = k.currentThread
      · subst hpc
        refine .inr (.inl ⟨w, a, r, rfl, by simp [Kernel.block, Kernel.setTcb],
          by simp [Kernel.block, Kernel.setTcb], fun m hm => ?_⟩)
        have hm : m ∈ (k.tcb k.currentThread).tInbox := by
          simpa [Kernel.block, Kernel.setTcb] using hm
        rcases popMessage_none hpop with hq | ⟨hw, hq⟩
        · simp [hq] at hm
        · rintro (ha | ha)
          · exact hw ha
          · exact hq m hm ha
      · have hpw : p ∈ k.waitQueue := by simpa [Kernel.block, insertThread, hpc] using hp
        exact .inl (.of_eq hpw (by simp [Kernel.block, Kernel.setTcb, hpc]))
    · have hne : p ≠ k.currentThread := by
        rintro rfl
        exact (hk.current_notMem hc).2.1 hp
      exact .inl (.of_eq hp (by simp [Kernel.received, hne]))
  | @freeze m hc hm =>
    by_cases hpc : p = k.currentThread
    · subst hpc
      exact .inr (.inr ⟨m, rfl, hm, by simp [Kernel.freeze, Kernel.setTcb]⟩)
    · have hpw : p ∈ k.waitQueue := by simpa [Kernel.freeze, insertThread, hpc] using hp
      exact .inl (.of_eq hpw (by simp [Kernel.freeze, Kernel.setTcb, hpc]))
  | terminate ht h => exact .inl (.terminate h hp)
  | resume hr =>
    obtain ⟨-, -, rfl⟩ := Kernel.continueTrapped_cases hr
    exact .inl (.of_eq (List.mem_of_mem_erase hp) rfl)
  | @alloc q _ ha hq =>
    obtain ⟨free, hfree, rfl⟩ := Kernel.allocTcb_cases ha hq
    have hne : p ≠ q := by
      rintro rfl
      exact (hk.wait_notMem hp).2.1 (by simp [hfree])
    exact .inl (.of_eq hp (by simp [hne]))
  | insertChild _ => exact .inl (.setTcb (fun _ => ⟨rfl, rfl, rfl⟩) hp)
  | request | insertSibling _ | countThread | dispatch _ _ | preempt _ | publish _ _ =>
    exact .inl (.of_eq hp rfl)

/-- Only a RECV or a trap of the current thread puts somebody in the wait queue: itself. -/
theorem Ops.wait {x : Entry} {c p : Ptr} {k k' : Kernel} (hk : Placed k)
    (h : Ops (x.Allows c) k k') (hp : p ∈ k'.waitQueue) :
    p ∈ k.waitQueue ∨ p = c ∧ ((∃ w, x = .recv w) ∨ ∃ t, x = .trap t) := by
  have hinv := h.inv (I := fun k' => Placed k' ∧ ∀ q ∈ k'.waitQueue,
    q ∈ k.waitQueue ∨ q = c ∧ ((∃ w, x = .recv w) ∨ ∃ t, x = .trap t)) ?_ ⟨hk, fun q hq => .inl hq⟩
  · exact hinv.2 p hp
  · rintro k₁ o k₂ hs ha ⟨hk₁, hi⟩
    refine ⟨hk₁.step hs, fun q hq => ?_⟩
    rcases wait_cases hk₁ hs hq with hw | ⟨w, a, r, rfl, -⟩ | ⟨m, rfl, -⟩
    · exact hi q hw.mem
    · exact .inr ⟨ha.1, .inl ⟨w, ha.2⟩⟩
    · exact .inr ⟨ha.1, .inr ⟨m, ha.2⟩⟩

/-- What the last kernel entry of a waiting thread waits for. -/
def Entry.awaited : Entry → Option Ptr
  | .recv w => some w
  | .trap m => some m
  | _ => none

/-- The wait queue agrees with the history of kernel entries. -/
structure Kernel.Waiting (k : Kernel) (last : Ptr → Entry) : Prop where
  awaited : ∀ p ∈ k.waitQueue, (last p).awaited = some (k.tcb p).waitingFor
  recv : ∀ p ∈ k.waitQueue, ∀ w, last p = .recv w → ∀ m ∈ (k.tcb p).tInbox, ¬ Accepts w m
  trap : ∀ p ∈ k.waitQueue, ∀ t, last p = .trap t → t ≠ null

theorem Kernel.Waiting.step {k k' : Kernel} {o : Op} {last : Ptr → Entry} (hk : Placed k)
    (h : k.Waiting last) (hs : OpStep k o k')
    (hr : ∀ p w a r, o = .recv p w a r → last p = .recv w)
    (hf : ∀ p m, o = .freeze p m → last p = .trap m) : k'.Waiting last := by
  constructor
  · intro p hp
    rcases wait_cases hk hs hp with hw | ⟨w, a, r, rfl, hw, -⟩ | ⟨m, rfl, -, hw⟩
    · rw [hw.waitingFor]
      exact h.awaited p hw.mem
    · rw [hr _ _ _ _ rfl, hw]
      rfl
    · rw [hf _ _ rfl, hw]
      rfl
  · intro p hp w hl m hm
    rcases wait_cases hk hs hp with hw | ⟨w', a, r, rfl, -, -, hq⟩ | ⟨m, rfl, -⟩
    · rcases hw.tInbox m hm with hm | hm
      · exact h.recv p hw.mem w hl m hm
      · have ha := h.awaited p hw.mem
        rw [hl] at ha
        rw [Option.some.inj ha]
        exact hm
    · have he : w = w' := by
        have := (hr _ _ _ _ rfl).symm.trans hl
        simpa using this.symm
      exact he ▸ hq m hm
    · have := (hf _ _ rfl).symm.trans hl
      cases this
  · intro p hp t hl
    rcases wait_cases hk hs hp with hw | ⟨w, a, r, rfl, -⟩ | ⟨m, rfl, hm, -⟩
    · exact h.trap p hw.mem t hl
    · have := (hr _ _ _ _ rfl).symm.trans hl
      cases this
    · have := (hf _ _ rfl).symm.trans hl
      simp_all

namespace Machine

variable {m m' : Machine} {e : Event} {last : Ptr → Entry}

/-- The history entry of the current thread may change: it is in no queue. -/
theorem waiting_note (hw : m.Wf) (h : m.k.Waiting last) : m.k.Waiting (m.note e m' last) := by
  unfold note
  split
  · have hne : ∀ p ∈ m.k.waitQueue, p ≠ m.k.currentThread :=
      fun p hp he => (hw.placed.wait_notMem hp).2.2 he.symm
    constructor
    · intro p hp
      rw [Links.put_ne (hne p hp)]
      exact h.awaited p hp
    · intro p hp w hl
      rw [Links.put_ne (hne p hp)] at hl
      exact h.recv p hp w hl
    · intro p hp t hl
      rw [Links.put_ne (hne p hp)] at hl
      exact h.trap p hp t hl
  · exact h

theorem note_current (h : (m.entry e).isCall = true) :
    m.note e m' last m.k.currentThread = m.entry e := by
  simp [note, h]

theorem waiting_step (hw : m.Wf) (hs : m.Step e m') (h : m.k.Waiting last) :
    m'.k.Waiting (m.note e m' last) := by
  obtain ⟨ls, hl⟩ := ops_of_step hw hs
  have hinv := hl.inv (I := fun k => Placed k ∧ k.Waiting (m.note e m' last)) ?_
    ⟨hw.placed, waiting_note hw h⟩
  · exact hinv.2
  · rintro k o k' ⟨ho, ha⟩ ⟨hk, hi⟩
    refine ⟨hk.step ho, hi.step hk ho ?_ ?_⟩
    · rintro p w a r rfl
      obtain ⟨rfl, he⟩ := ha
      rw [note_current (by rw [he]; rfl), he]
    · rintro p w rfl
      obtain ⟨rfl, he⟩ := ha
      rw [note_current (by rw [he]; rfl), he]

/-- The wait queue agrees with the history in every run from boot. -/
theorem waiting_of_run {es : List Event} {last₀ : Ptr → Entry} (h : m.Initial)
    (hr : Run (withHistory Step note) (m, last₀) es (m', last)) :
    m'.Wf ∧ m'.k.Waiting last := by
  obtain ⟨k, hp, hm⟩ := h.boot
  have hb := Kernel.main_booted hp hm
  refine hr.inv_history (I := fun m last => m.Wf ∧ m.k.Waiting last) ?_ ⟨initial_wf h, ?_⟩
  · rintro m e m' last hs ⟨hw, hi⟩
    exact ⟨hw.step hs, waiting_step hw hs hi⟩
  · constructor <;> simp [hb.waitQueue]

/-- The thread is in the wait queue because of a RECV from `w`. -/
def RecvBlocked (m : Machine) (last : Ptr → Entry) (p w : Ptr) : Prop :=
  p ∈ m.k.waitQueue ∧ last p = .recv w

instance (m : Machine) (last : Ptr → Entry) (p w : Ptr) : Decidable (m.RecvBlocked last p w) :=
  inferInstanceAs (Decidable (_ ∧ _))

/-- In every reachable state, a thread in the wait queue because of a RECV has no message in its
inbox that this RECV would accept. -/
theorem no_lost_wakeup {es : List Event} (h : m.Initial)
    (hr : Run (withHistory Step note) (m, fun _ => .program) es (m', last)) {p w : Ptr}
    (hp : m'.RecvBlocked last p w) :
    (m'.k.tcb p).waitingFor = w ∧ (w = anyMessage → (m'.k.tcb p).tInbox = []) ∧
      ∀ msg ∈ (m'.k.tcb p).tInbox, msg.mSender ≠ w := by
  have hw := (waiting_of_run h hr).2
  have ha := hw.awaited p hp.1
  have hq := hw.recv p hp.1 w hp.2
  rw [hp.2] at ha
  refine ⟨(Option.some.inj ha).symm, fun hany => ?_, fun msg hm he => hq msg hm (.inr he)⟩
  exact List.eq_nil_iff_forall_not_mem.mpr fun msg hm => hq msg hm (.inl hany)

/-- The test thread waits for the answer to a GETCPUTIME that the SSI has not read yet. -/
def requestTrace : List Event :=
  Event.ssiCalls 2 ++ Event.ssiRequest getCpuTime 0

theorem no_lost_wakeup_request : ∃ m m' : Machine, ∃ last,
    Run (withHistory Step note) (m, fun _ => .program) requestTrace (m', last) ∧
    m'.RecvBlocked last testThreadAddr magicSsi ∧
    (m'.k.tcb testThreadAddr).waitingFor = magicSsi ∧
    (magicSsi = anyMessage → (m'.k.tcb testThreadAddr).tInbox = []) ∧
    ∀ msg ∈ (m'.k.tcb testThreadAddr).tInbox, msg.mSender ≠ magicSsi := by
  have hrun : passes (fun m => passes (fun s => s.1.RecvBlocked s.2 testThreadAddr magicSsi)
      (exec (execWith fire note) (m, fun _ => .program) requestTrace)) (start .zeroed) = true := by
    decide +kernel
  obtain ⟨m, hm, hrun⟩ := exists_of_passes hrun
  obtain ⟨⟨m', last⟩, hs, hb⟩ := exists_of_passes hrun
  have hb : m'.RecvBlocked last testThreadAddr magicSsi := of_decide_eq_true hb
  have hr := run_of_execWith (fun _ _ _ => step_of_fire) hs
  exact ⟨m, m', last, hr, hb,
    no_lost_wakeup (initial_of_start Kernel.zeroed_powerOn hm) hr hb⟩

end Machine

end AmiKaya
