import AmiKaya.Requests

/-! What the kernel entries leave alone: the manager fields, the array of managers up to deletions,
and the index of the interrupt handler. -/
namespace AmiKaya
open Lts

/-- Nothing but the deletions of the threads freed has happened to the managers. -/
structure Steady (k : Kernel) (ds : List Ptr) (k' : Kernel) : Prop where
  intIndex : k'.intIndex = k.intIndex
  manager : ∀ p e, (k'.tcb p).manager e = (k.tcb p).manager e
  trapManagers : k'.trapManagers = ds.foldl eraseManager k.trapManagers
  tcbFree : k'.tcbFree = k.tcbFree ++ ds

/-- The same, for some threads freed. -/
def Sheds (k k' : Kernel) : Prop := ∃ ds, Steady k ds k'

namespace Steady

variable {k k' k'' : Kernel} {ds es : List Ptr} {s t p : Ptr}

theorem refl (k : Kernel) : Steady k [] k := ⟨rfl, fun _ _ => rfl, rfl, by simp⟩

theorem trans (h : Steady k ds k') (h' : Steady k' es k'') : Steady k (ds ++ es) k'' where
  intIndex := h'.intIndex.trans h.intIndex
  manager p e := (h'.manager p e).trans (h.manager p e)
  trapManagers := by rw [h'.trapManagers, h.trapManagers, List.foldl_append]
  tcbFree := by rw [h'.tcbFree, h.tcbFree, List.append_assoc]

theorem then_ (h : Steady k ds k') (h' : Steady k' [] k'') : Steady k ds k'' := by
  have ht := h.trans h'
  rwa [List.append_nil] at ht

/-- Updates of a TCB that keep the managers, with any change elsewhere. -/
theorem setTcb {f : Tcb → Tcb} (hf : ∀ t e, (f t).manager e = t.manager e) :
    Steady k [] (k.setTcb p f) := by
  refine ⟨rfl, fun q e => ?_, rfl, by simp [Kernel.setTcb]⟩
  by_cases hq : q = p
  · subst hq
    simp [Kernel.setTcb, hf]
  · simp [Kernel.setTcb, hq]

theorem setState (p : Ptr) (s : State) : Steady k [] (k.setState p s) :=
  setTcb fun _ e => by cases e <;> rfl

theorem readTodlow : Steady k [] k.readTodlow :=
  ⟨rfl, fun _ _ => rfl, rfl, by simp [Kernel.readTodlow]⟩

theorem enter (old : State) : Steady k [] (k.enter old) := by
  have hslice : Steady k [] k.chargeSlice := readTodlow.then_ (setTcb fun _ e => by cases e <;> rfl)
  have htime : Steady k.chargeSlice [] k.chargeSlice.chargeTime :=
    readTodlow.then_ (setTcb fun _ e => by cases e <;> rfl)
  exact (hslice.then_ htime).then_ (setState _ _)

theorem enqueue {v : U32} (h : k.enqueue s t v = .ok k') : Steady k [] k' := by
  obtain ⟨a, free, -, rfl⟩ := Kernel.enqueue_cases h
  refine ⟨rfl, fun q e => ?_, rfl, by simp⟩
  by_cases hq : q = t
  · subst hq
    cases e <;> simp [Tcb.manager]
  · simp [hq]

theorem send {v r : U32} (h : k.send s t v = .ok (r, k')) : Steady k [] k' := by
  rcases Kernel.send_cases h with ⟨-, -, he⟩ | ⟨-, -, -, -, -, -, -, rfl⟩ | ⟨-, -, -, -, -, -, he⟩ |
    ⟨-, -, -, rfl⟩
  · exact enqueue he
  · refine ⟨rfl, fun q e => ?_, rfl, by simp [Kernel.delivered]⟩
    by_cases hq : q = t
    · subst hq
      cases e <;> simp [Kernel.delivered, Tcb.manager]
    · simp [Kernel.delivered, hq]
  · exact enqueue he
  · exact refl _

theorem recv {w a r : Ptr} (h : k.recv p w a = .ok (r, k')) : Steady k [] k' := by
  have hput : ∀ t : Tcb, (∀ e, t.manager e = (k.tcb p).manager e) → ∀ q e,
      (put k.tcb p t q).manager e = (k.tcb q).manager e := by
    intro t ht q e
    by_cases hq : q = p
    · subst hq
      simp [ht]
    · simp [hq]
  rcases Kernel.recv_cases h with ⟨-, -, rfl⟩ | ⟨m, rest, -, -, -, rfl⟩
  · exact ⟨rfl, hput _ fun e => by cases e <;> rfl, rfl, by simp [Kernel.block, Kernel.setTcb]⟩
  · exact ⟨rfl, hput _ fun e => by cases e <;> rfl, rfl, by simp [Kernel.received]⟩

theorem reap (h : k.reap t = .ok k') : Steady k [t] k' := by
  have hput : ∀ q e, (put k.tcb t { k.tcb t with tInbox := [] } q).manager e =
      (k.tcb q).manager e := by
    intro q e
    by_cases hq : q = t
    · subst hq
      cases e <;> simp [Tcb.manager]
    · simp [hq]
  rcases Kernel.reap_cases h with ⟨-, rfl⟩ | ⟨-, -, -, -, rfl⟩ <;> exact ⟨rfl, hput, rfl, rfl⟩

theorem detach (k : Kernel) (t : Ptr) : Steady k [] (k.detach t) := by
  have h := setTcb (k := k) (p := t) (f := fun t => { t with tParent := null })
    fun _ e => by cases e <;> rfl
  exact ⟨h.intIndex, h.manager, h.trapManagers, h.tcbFree⟩

theorem terminate (h : k.terminate t = .ok k') : Sheds k k' := by
  obtain ⟨k₁, ⟨ds, hds⟩, hr⟩ := Kernel.terminate_cases (R := Sheds) (fun k => ⟨_, refl k⟩)
    (fun _ _ _ ⟨_, h⟩ ⟨_, h'⟩ => ⟨_, h.trans h'⟩) (fun k t => ⟨_, detach k t⟩)
    (fun _ _ _ _ hr => ⟨_, reap hr⟩) h
  exact ⟨_, hds.trans (reap hr)⟩

theorem passUp {m : Ptr} {cause : U32} (h : k.passUp m cause = .ok k') : Sheds k k' := by
  unfold Kernel.passUp at h
  split at h
  · obtain ⟨k₁, h₁, h₂⟩ := bind_eq_ok.mp h
    cases h₂
    obtain ⟨ds, hds⟩ := terminate h₁
    exact ⟨ds, hds.intIndex, hds.manager, hds.trapManagers, hds.tcbFree⟩
  · obtain ⟨⟨r, k₁⟩, h₁, h₂⟩ := bind_eq_ok.mp h
    cases h₂
    have hset := setTcb (k := k₁) (p := k₁.currentThread) (f := fun t => { t with waitingFor := m })
      fun _ e => by cases e <;> rfl
    have hs := (send h₁).then_ hset
    exact ⟨[], hs.intIndex, hs.manager, hs.trapManagers, hs.tcbFree⟩

theorem sendOrdinary {v : U32} (h : k.sendOrdinary s t v = .ok k') : Steady k [] k' := by
  obtain ⟨⟨r, k₁⟩, h₁, h₂⟩ := bind_eq_ok.mp h
  cases h₂
  exact (send h₁).then_ (setTcb fun _ e => by cases e <;> rfl)

theorem sendEnter (old : State) : Steady k [] (k.sysbpEnter old) ∧
    Steady k [] (k.sendEnter old) := by
  have hin : Steady k [] (k.sysbpEnter old) :=
    (enter old).then_ (setTcb fun _ e => by cases e <;> rfl)
  refine ⟨hin, ?_⟩
  unfold Kernel.sendEnter
  split
  · exact ⟨hin.intIndex, hin.manager, hin.trapManagers, hin.tcbFree⟩
  · exact hin

theorem decision {v : U32} (h : k.decision t v = .ok k') : Sheds k k' := by
  unfold Kernel.decision at h
  split at h
  · exact terminate h
  · obtain ⟨-, -, rfl⟩ := Kernel.continueTrapped_cases h
    exact ⟨[], rfl, fun _ _ => rfl, rfl, by simp⟩

theorem sysRecvCase {old : State} (h : k.sysRecvCase old = .ok k') : Steady k [] k' := by
  obtain ⟨⟨r, k₁⟩, h₁, h₂⟩ := bind_eq_ok.mp h
  cases h₂
  exact (recv h₁).then_ (setTcb fun _ e => by cases e <;> rfl)

theorem sysbpBody {old : State} (h : k.sysbpBody old = .ok k') : Sheds k k' := by
  obtain ⟨hin, hsend⟩ := sendEnter (k := k) old
  by_cases hs : old.isSend
  · rcases Kernel.sysbpBody_send_cases hs h with ⟨t, -, -, hd⟩ | ho
    · obtain ⟨ds, hds⟩ := decision hd
      exact ⟨ds, hsend.trans hds⟩
    · exact ⟨[], hsend.trans (sendOrdinary ho)⟩
  · rw [Kernel.sysbpBody_eq, if_neg hs] at h
    split at h
    · exact ⟨[], hin.trans (sysRecvCase h)⟩
    · obtain ⟨ds, hds⟩ := passUp h
      exact ⟨ds, hin.trans hds⟩

theorem scheduler (h : k.scheduler = .ok k') : Steady k [] k' := by
  have htimer : ∀ (k : Kernel) slice, Steady k [] (k.setTimer slice) := by
    intro k slice
    unfold Kernel.setTimer
    split <;> exact ⟨rfl, fun _ _ => rfl, rfl, by simp⟩
  have hrun : ∀ (k : Kernel), Steady k [] k.updatePseudoTick ∧ Steady k [] k.startTod ∧
      Steady k [] k.ldst :=
    fun k => ⟨⟨rfl, fun _ _ => rfl, rfl, by simp [Kernel.updatePseudoTick, Kernel.readTodlow]⟩,
      ⟨rfl, fun _ _ => rfl, rfl, by simp [Kernel.startTod, Kernel.readTodlow]⟩,
      ⟨rfl, fun _ _ => rfl, rfl, by simp [Kernel.ldst]⟩⟩
  unfold Kernel.scheduler at h
  split at h
  · split at h
    · repeat' split at h
      all_goals cases h
      exact refl k
    · next p rest hr =>
      cases h
      have hpick : Steady k [] { k with currentThread := p, readyQueue := rest } :=
        ⟨rfl, fun _ _ => rfl, rfl, by simp⟩
      have hslice : ∀ k : Kernel, Steady k [] k.resetSlice := fun k =>
        setTcb fun _ e => by cases e <;> rfl
      exact hpick.then_ ((hrun _).1.then_ ((hslice _).then_ ((hrun _).2.1.then_
        ((htimer _ _).then_ (hrun _).2.2))))
  · cases h
    exact (hrun _).1.then_ ((hrun _).2.1.then_ ((htimer _ _).then_ (hrun _).2.2))

/-! The interrupt handler, up to its last assignment. -/

theorem fillSlot (service arg : U32) : Steady k [] (k.fillSlot service arg) :=
  ⟨rfl, fun _ _ => rfl, rfl, by simp [Kernel.fillSlot]⟩

theorem ioStore (a : Ptr) (v : U32) : Steady k [] (k.ioStore a v) :=
  ⟨rfl, fun _ _ => rfl, rfl, by simp [Kernel.ioStore]⟩

theorem notifySsi (h : k.notifySsi s = .ok k') : Steady k [] k' := by
  obtain ⟨⟨r, k₁⟩, h₁, h₂⟩ := bind_eq_ok.mp h
  split at h₂
  · cases h₂
  · cases h₂
    exact send h₁

theorem overLines : Kernel.OverLines fun k k' => Steady k [] k' where
  refl := refl
  trans _ _ _ := then_
  fillSlot _ := fillSlot
  ioStore _ := ioStore
  notifySsi _ _ _ _ := notifySsi
  updatePseudoTick k := ⟨rfl, fun _ _ => rfl, rfl, by simp [Kernel.updatePseudoTick, Kernel.readTodlow]⟩
  restartTick k := ⟨rfl, fun _ _ => rfl, rfl, by simp [Kernel.readTodlow]⟩
  sliceEnd k := by
    unfold Kernel.sliceEnd
    split <;> exact ⟨rfl, fun _ _ => rfl, rfl, by simp⟩

end Steady

/-- The calls of the SSI that work on managers or on a new TCB. -/
def Call.isSteady : Call → Bool
  | .allocTcb | .inherit _ _ | .addManager _ | .setManager _ _ _ => false
  | _ => true

namespace Machine

variable {m m' : Machine} {e : Event} {k : Kernel}

def isSteady (m : Machine) : Event → Bool
  | .ssi _ => (m.ssi.call m.k).isSteady
  | .interrupt _ => false
  | _ => true

theorem performBody_steady {old : State} {c : Call} (hc : c.isSteady = true)
    (h : m.k.performBody old c = .ok k) : Sheds m.k k := by
  cases c
  case msgRecv | msgSend => exact Steady.sysbpBody h
  case allocTcb | inherit | addManager | setManager => cases hc
  all_goals
    obtain ⟨⟨r, k'⟩, h₁, h₂⟩ := bind_eq_ok.mp h
    cases h₂
  case «local» =>
    cases h₁
    exact ⟨[], .refl _⟩
  case insertChild p c =>
    simp only [Kernel.perform] at h₁
    split at h₁
    · cases h₁
    · cases h₁
      have hset := Steady.setTcb (k := m.k) (p := c) (f := fun t => { t with tParent := p })
        fun _ e => by cases e <;> rfl
      exact ⟨[], hset.intIndex, hset.manager, hset.trapManagers, hset.tcbFree⟩
  case insertSibling =>
    simp only [Kernel.perform] at h₁
    split at h₁
    · cases h₁
    · cases h₁
      exact ⟨[], rfl, fun _ _ => rfl, rfl, by simp [Kernel.insertSibling]⟩
  case countThread | insertReady =>
    cases h₁
    exact ⟨[], rfl, fun _ _ => rfl, rfl, by simp⟩
  case copyState =>
    obtain ⟨-, rfl⟩ := Kernel.perform_copyState h₁
    exact ⟨[], .setState _ _⟩
  case terminate =>
    obtain ⟨k₁, h₁, h₂⟩ := bind_eq_ok.mp h₁
    cases h₂
    exact Steady.terminate h₁
  case panic | fault => cases h₁

/-- Outside the interrupt handler and the services for managers, only deletions happen. -/
theorem step_steady (hs : m.isSteady e = true) (h : m.Step e m') : Sheds m.k m'.k := by
  obtain ⟨k, hb, hk⟩ := step_body h
  have hbody : Sheds m.k k := by
    cases e with
    | sysbp old => exact Steady.sysbpBody hb
    | pgmtrap old | tlb old =>
      obtain ⟨ds, hds⟩ := Steady.passUp hb
      exact ⟨ds, (Steady.enter old).trans hds⟩
    | interrupt old => cases hs
    | ssi old => exact performBody_steady hs hb
    | devices bus =>
      cases hb
      exact ⟨[], rfl, fun _ _ => rfl, rfl, by simp⟩
    | store a v =>
      obtain ⟨-, rfl⟩ := Kernel.storeWord_cases hb
      exact ⟨[], rfl, fun _ _ => rfl, rfl, by simp⟩
    | edit p s =>
      cases hb
      exact ⟨[], .setState p s⟩
  rcases hk with ⟨-, hk⟩ | ⟨-, rfl⟩
  · obtain ⟨ds, hds⟩ := hbody
    exact ⟨ds, hds.then_ (.scheduler hk)⟩
  · exact hbody

/-- An interrupt frees nobody and leaves the managers alone. -/
theorem interrupt_managers {old : State} (h : m.Step (.interrupt old) m') :
    (∀ p e, (m'.k.tcb p).manager e = (m.k.tcb p).manager e) ∧
      m'.k.trapManagers = m.k.trapManagers ∧ m'.k.tcbFree = m.k.tcbFree := by
  obtain ⟨k, hb, hk⟩ := step_body h
  have hsched := hk.resolve_right fun hn => by simp [schedules] at hn
  have hs := Steady.scheduler hsched.2
  obtain ⟨k₁, h₁, h₂⟩ := bind_eq_ok.mp hb
  cases h₂
  have hin : Steady m.k [] (if m.k.currentThread ≠ null then m.k.enter old else m.k) := by
    split
    · exact .enter old
    · exact .refl _
  have hline := hin.then_ (Steady.overLines.lineInterrupt h₁)
  refine ⟨fun p e => (hs.manager p e).trans (hline.manager p e),
    hs.trapManagers.trans hline.trapManagers, ?_⟩
  rw [hs.tcbFree, List.append_nil]
  simpa using hline.tcbFree

/-- Only the interrupt handler moves to another slot. -/
theorem step_intIndex (hi : ∀ old, e ≠ .interrupt old) (h : m.Step e m') :
    m'.k.intIndex = m.k.intIndex := by
  by_cases hs : m.isSteady e = true
  · obtain ⟨ds, hds⟩ := step_steady hs h
    exact hds.intIndex
  · obtain ⟨k, hb, hk⟩ := step_body h
    have hbody : k.intIndex = m.k.intIndex := by
      cases e with
      | interrupt old => exact absurd rfl (hi old)
      | ssi old =>
        simp only [isSteady] at hs
        simp only [body] at hb
        cases hcall : m.ssi.call m.k <;> rw [hcall] at hs hb <;>
          simp only [Call.isSteady, not_true_eq_false] at hs
        all_goals
          obtain ⟨⟨r, k'⟩, h₁, h₂⟩ := bind_eq_ok.mp hb
          cases h₂
        case ssi.allocTcb.refl =>
          have hk' : k' = m.k.allocTcb.2 := by
            simp only [Kernel.perform, Except.ok.injEq] at h₁
            rw [h₁]
          rw [hk', Kernel.allocTcb]
          split <;> rfl
        all_goals
          cases h₁
          rfl
      | sysbp | pgmtrap | tlb | devices | store | edit => simp [isSteady] at hs
    rcases hk with ⟨-, hk⟩ | ⟨-, rfl⟩
    · exact (Steady.scheduler hk).intIndex.trans hbody
    · exact hbody

end Machine

end AmiKaya
