import AmiKaya.Requests

/-! One rule for the invariants of the kernel: what the operations keep, every step of the machine
keeps. The sends of a handler come with their sender and their target. -/
namespace AmiKaya
open Lts

/-- The current thread sends in its own name, a device only to the SSI. -/
def Kernel.Aims (k : Kernel) (s t : Ptr) : Prop :=
  k.currentThread ≠ null ∧ s = k.currentThread ∨ s ∈ deviceIds ∧ t = k.ssiTcb

/-- What every operation keeps, sends being aimed. -/
structure Keeps (I : Kernel → Prop) : Prop where
  op : ∀ k o k', OpStep k o k' → (∀ s t v r, o ≠ .send s t v r) → I k → I k'
  send : ∀ k s t v r k', k.Aims s t → k.send s t v = .ok (r, k') → I k → I k'

namespace Keeps

variable {I : Kernel → Prop} {k k' : Kernel} {x : Entry} {c s t : Ptr}

theorem quiet (hI : Keeps I) (h : Quiet k k') (hk : I k) : I k' :=
  hI.op _ _ _ (.quiet h) (by simp) hk

/-- An entry that sends nothing. -/
theorem ops (hI : Keeps I) (hx : ∀ s t v r, ¬ x.Allows c (.send s t v r))
    (h : Ops (x.Allows c) k k') (hk : I k) : I k' := by
  refine h.inv (fun k o k' hs ho hk => hI.op k o k' hs ?_ hk) hk
  rintro s t v r rfl
  exact hx s t v r ho

theorem scheduler (hI : Keeps I) (h : k.scheduler = .ok k') (hk : I k) : I k' :=
  hI.ops (x := .program) (c := null) (by simp [Entry.Allows]) (Kernel.scheduler_ops h) hk

theorem terminate (hI : Keeps I) (ht : t ≠ null) (h : k.terminate t = .ok k') (hk : I k) : I k' :=
  hI.op _ _ _ (.terminate ht h) (by simp) hk

theorem passUp (hI : Keeps I) {m : Ptr} {cause : U32} (hp : Placed k) (hc : k.currentThread ≠ null)
    (h : k.passUp m cause = .ok k') (hk : I k) : I k' := by
  unfold Kernel.passUp at h
  split at h
  · obtain ⟨k₁, h₁, h₂⟩ := bind_eq_ok.mp h
    cases h₂
    have hcur := Kernel.terminate_current hp hc h₁
    have he : { k₁ with currentThread := null } = k₁ := by rw [← hcur]
    rw [he]
    exact hI.terminate hc h₁ hk
  · next hm =>
    obtain ⟨⟨r, k₁⟩, h₁, h₂⟩ := bind_eq_ok.mp h
    cases h₂
    have hk₁ := hI.send _ _ _ _ _ _ (.inl ⟨hc, rfl⟩) h₁ hk
    have hcur : k₁.currentThread = k.currentThread := (Kernel.send_frame h₁).currentThread
    exact hI.op k₁ _ (k₁.freeze m) (.freeze (hcur ▸ hc) hm) (by simp) hk₁

theorem sendOrdinary (hI : Keeps I) {v : U32} (hs : k.Aims s t) (h : k.sendOrdinary s t v = .ok k')
    (hk : I k) : I k' := by
  obtain ⟨r, k₁, h₁, rfl⟩ := Kernel.sendOrdinary_cases h
  exact hI.quiet (Quiet.setTcb fun _ => ⟨rfl, rfl, rfl, rfl⟩) (hI.send _ _ _ _ _ _ hs h₁ hk)

theorem sendEnter (hI : Keeps I) (old : State) (hk : I k) : I (k.sendEnter old) := by
  have hk₁ := hI.quiet (Kernel.sysbpEnter_quiet old) hk
  unfold Kernel.sendEnter
  split
  · exact hI.op _ _ _ .request (by simp) hk₁
  · exact hk₁

theorem sysbpBody (hI : Keeps I) {old : State} (hp : Placed k) (hc : k.currentThread ≠ null)
    (h : k.sysbpBody old = .ok k') (hk : I k) : I k' := by
  have hq := Kernel.sysbpEnter_quiet (k := k) old
  by_cases hs : old.isSend
  · have hk₁ := hI.sendEnter old hk
    obtain ⟨-, -, -, hcur, -⟩ := k.sendEnter_eq old
    rcases Kernel.sysbpBody_send_cases hs h with ⟨t, ht, -, hd⟩ | ho
    · unfold Kernel.decision at hd
      split at hd
      · exact hI.terminate ht hd hk₁
      · exact hI.op _ _ _ (.resume hd) (by simp) hk₁
    · exact hI.sendOrdinary (.inl ⟨hcur ▸ hc, hcur.symm⟩) ho hk₁
  · rw [Kernel.sysbpBody_eq] at h
    by_cases hr : old.isRecv
    · simp only [hs, hr, if_true, if_false, Bool.false_eq_true] at h
      exact hI.ops (by simp [Entry.Allows]) (Kernel.sysRecvCase_ops (hq.currentThread ▸ hc) h)
        (hI.quiet hq hk)
    · simp only [hs, hr, if_false, Bool.false_eq_true] at h
      exact hI.passUp (hp.of_perm (SamePlaces.quiet hq)) (hq.currentThread ▸ hc) h (hI.quiet hq hk)

theorem notifySsi (hI : Keeps I) (hs : s ∈ deviceIds) (h : k.notifySsi s = .ok k') (hk : I k) :
    I k' := by
  obtain ⟨⟨r, k₁⟩, h₁, h₂⟩ := bind_eq_ok.mp h
  split at h₂
  · cases h₂
  · cases h₂
    exact hI.send _ _ _ _ _ _ (.inr ⟨hs, rfl⟩) h₁ hk

theorem sliceEnd (hI : Keeps I) (hk : I k) : I k.sliceEnd := by
  unfold Kernel.sliceEnd
  split
  · next hc => exact hI.op _ _ _ (.preempt hc.1) (by simp) hk
  · exact hI.quiet (by constructor <;> intros <;> rfl) hk

theorem overLines (hI : Keeps I) : Kernel.OverLines fun k k' => I k → I k' where
  refl _ hk := hk
  trans _ _ _ h h' hk := h' (h hk)
  fillSlot _ _ _ := hI.quiet (.fillSlot _ _)
  ioStore _ _ _ := hI.quiet (.ioStore _ _)
  notifySsi _ _ _ := hI.notifySsi
  updatePseudoTick _ := hI.quiet .updatePseudoTick
  restartTick _ := hI.quiet (by constructor <;> intros <;> rfl)
  sliceEnd _ := hI.sliceEnd

theorem intBody (hI : Keeps I) {old : State} (h : k.intBody old = .ok k') (hk : I k) : I k' := by
  obtain ⟨k₁, h₁, h₂⟩ := bind_eq_ok.mp h
  cases h₂
  have hin : I (if k.currentThread ≠ null then k.enter old else k) := by
    split
    · exact hI.quiet (.enter old) hk
    · exact hk
  exact hI.quiet (by constructor <;> intros <;> rfl) (hI.overLines.lineInterrupt h₁ hin)

variable {m m' : Machine} {e : Event}

theorem enterPassUp (hI : Keeps I) {old : State} {p : Ptr} (hp : Placed k)
    (hc : k.currentThread ≠ null) (h : (k.enter old).passUp p old.cause = .ok k') (hk : I k) :
    I k' := by
  have hq := Quiet.enter (k := k) old
  exact hI.passUp (hp.of_perm (SamePlaces.quiet hq)) (hq.currentThread ▸ hc) h (hI.quiet hq hk)

theorem performBody (hI : Keeps I) {old : State} (hw : m.Wf)
    (hcur : m.k.currentThread = m.k.ssiTcb)
    (h : m.k.performBody old (m.ssi.call m.k) = .ok k') (hk : I m.k) : I k' := by
  have hc : m.k.currentThread ≠ null := by rw [hcur]; exact hw.ssi_ne_null
  have hops := Machine.body_ops hw hcur (e := .ssi old) h
  simp only [Machine.entry] at hops
  cases hcall : m.ssi.call m.k <;> simp only [hcall] at h hops
  case msgRecv a => exact hI.sysbpBody hw.placed hc h hk
  case msgSend dest payload => exact hI.sysbpBody hw.placed hc h hk
  all_goals exact hI.ops (by simp [Entry.Allows]) hops hk

theorem body (hI : Keeps I) (hw : m.Wf) (hen : m.Enabled e) (h : m.body e = .ok k') (hk : I m.k) :
    I k' := by
  cases e with
  | devices bus =>
    cases h
    exact hI.quiet (by constructor <;> intros <;> rfl) hk
  | edit p s =>
    cases h
    exact hI.quiet (.setState p s) hk
  | store a v => exact hI.quiet (.storeWord h) hk
  | interrupt old => exact hI.intBody h hk
  | pgmtrap old | tlb old => exact hI.enterPassUp hw.placed hen h hk
  | sysbp old => exact hI.sysbpBody hw.placed hen.1 h hk
  | ssi old => exact hI.performBody hw hen h hk

theorem step (hI : Keeps I) (hw : m.Wf) (h : m.Step e m') (hk : I m.k) : I m'.k := by
  obtain ⟨k, hb, ⟨-, hs⟩ | ⟨-, rfl⟩⟩ := Machine.step_body h
  · exact hI.scheduler hs (hI.body hw h.1 hb hk)
  · exact hI.body hw h.1 hb hk

/-- An invariant of the operations that holds at boot holds in every reachable state. -/
theorem of_run (hI : Keeps I) {es : List Event} (h : m.Initial) (hr : Run Machine.Step m es m')
    (hk : I m.k) : I m'.k :=
  (hr.inv (I := fun m => m.Wf ∧ I m.k) (fun _ _ _ hs hw => ⟨hw.1.step hs, hI.step hw.1 hs hw.2⟩)
    ⟨Machine.initial_wf h, hk⟩).2

end Keeps

end AmiKaya
