import AmiKaya.LinkedCalls

/-! The handlers, the scheduler and the interrupts over the list nodes do what they do on the lists
of the model, whenever the kernel of the model comes back from them. -/
namespace AmiKaya
open Client Links

namespace Kernel

variable {k k' : Kernel}

theorem bare_sysbpEnter (old : State) : k.bare.sysbpEnter old = (k.sysbpEnter old).bare := by
  unfold sysbpEnter
  rw [bare_enter]
  exact bare_setTcb fun _ => rfl

/-- `current_thread` gives up the processor. -/
theorem Pooled.current (h : k.Pooled) (hc : k.currentThread ≠ null) :
    k.currentThread ∈ threadArray ∧ k.currentThread ∉ k.readyQueue ∧
      k.currentThread ∉ k.waitQueue ∧ k.currentThread ∉ k.tcbFree :=
  ⟨h.placed.sub _ (mem_places.mpr (.inr (.inr (.inr ⟨rfl, hc⟩)))), h.placed.current_notMem hc⟩

theorem Pooled.pseudoClockTick (hk : k.Pooled) (h : k.pseudoClockTick = .ok k') : k'.Pooled := by
  unfold Kernel.pseudoClockTick at h
  split at h
  · obtain ⟨k₁, h₁, h₂⟩ := bind_eq_ok.mp h
    cases h₂
    have hk₁ := keeps_pooled.notifySsi List.mem_cons_self h₁ (keeps_pooled.quiet (.fillSlot _ _) hk)
    exact keeps_pooled.quiet (by constructor <;> intros <;> rfl) hk₁
  · cases h
    exact hk

end Kernel

namespace Lists.Shows

variable {s : Lists} {k k' : Kernel} {p t : Ptr} {v : U32} {old : State}

/-! `exceptions.c`. -/

theorem passUp {m : Ptr} {cause : U32} (hs : s.Shows k) (hk : k.Pooled)
    (hc : k.currentThread ≠ null) (h : k.passUp m cause = .ok k') :
    (Code.passUp k.bare m cause).Does s k'.bare k' := by
  unfold Kernel.passUp at h
  split at h
  · next hm =>
    obtain ⟨k₁, h₁, h₂⟩ := bind_eq_ok.mp h
    cases h₂
    refine .pos hm (.bind (hs.terminate hk hc h₁) fun s₁ hs₁ _ => .done rfl ?_)
    exact hs₁.keep rfl rfl rfl rfl rfl rfl
  · next hm =>
    obtain ⟨⟨r, k₁⟩, h₁, h₂⟩ := bind_eq_ok.mp h
    cases h₂
    have hcur : k₁.currentThread = k.currentThread := (Kernel.send_frame h₁).currentThread
    have hk₁ : k₁.Pooled := hk.send (.inl ⟨hc, rfl⟩) h₁
    obtain ⟨hthread, hready, hwait, hfree⟩ := hk₁.current (hcur ▸ hc)
    have hbare : (k₁.bare.setTcb k₁.currentThread fun t => { t with waitingFor := m }) =
        (k₁.setTcb k₁.currentThread fun t => { t with waitingFor := m }).bare :=
      Kernel.bare_setTcb fun _ => rfl
    refine .neg hm (.bind (hs.send hk (.inl ⟨hc, rfl⟩) h₁) fun s₁ hs₁ _ => ?_)
    have hs₂ : s₁.Shows (k₁.setTcb k₁.currentThread fun t => { t with waitingFor := m }) :=
      hs₁.setTcb fun _ => ⟨rfl, rfl⟩
    refine .bind (hs₂.insertWait hthread hready hwait hfree) fun s₂ hs₂ _ => ?_
    refine .done ?_ (hs₂.keep rfl rfl rfl rfl rfl rfl)
    exact congrArg (fun k => { k with currentThread := null }) hbare

theorem continueTrapped (hs : s.Shows k) (hk : Placed k) (h : k.continueTrapped t = .ok k') :
    (Code.continueTrapped k.bare t).Does s k'.bare k' := by
  obtain ⟨ht, hne, -⟩ := Kernel.continueTrapped_cases h
  have hout := outThread_fst_of_mem ht
  obtain ⟨hready, hfree, -⟩ := hk.wait_notMem ht
  have hwait : t ∉ (outThread k.waitQueue t).2 := by
    rw [outThread_snd]
    exact (Reaped.queues_nodup hk).2.not_mem_erase
  have hthread := hk.sub t (Kernel.mem_places.mpr (.inr (.inl ht)))
  refine .bind (hs.outWait t) fun s₁ hs₁ _ => ?_
  unfold Kernel.continueTrapped at h
  simp only [hout, if_neg hne] at h ⊢
  cases h
  exact .bind (hs₁.insertReady hthread hready hwait hfree) fun s₂ hs₂ _ => .done rfl hs₂

theorem sendOrdinary {x : Ptr} (hs : s.Shows k) (hk : k.Pooled) (ha : k.Aims x t)
    (h : k.sendOrdinary x t v = .ok k') : (Code.sendOrdinary k.bare x t v).Does s k'.bare k' := by
  obtain ⟨⟨r, k₁⟩, h₁, h₂⟩ := bind_eq_ok.mp h
  cases h₂
  refine .bind (hs.send hk ha h₁) fun s₁ hs₁ _ => .done ?_ (hs₁.setTcb fun _ => ⟨rfl, rfl⟩)
  exact Kernel.bare_setTcb fun _ => rfl

theorem sysRecvCase (hs : s.Shows k) (hk : k.Pooled) (hc : k.currentThread ≠ null)
    (h : k.sysRecvCase old = .ok k') : (Code.sysRecvCase k.bare old).Does s k'.bare k' := by
  obtain ⟨⟨r, k₁⟩, h₁, h₂⟩ := bind_eq_ok.mp h
  cases h₂
  refine .bind (hs.recv hk hc h₁) fun s₁ hs₁ _ => .done ?_ (hs₁.setTcb fun _ => ⟨rfl, rfl⟩)
  exact Kernel.bare_setTcb fun _ => rfl

theorem sysSendCase (hs : s.Shows k) (hk : k.Pooled) (hc : k.currentThread ≠ null)
    (h : k.sysSendCase old = .ok k') : (Code.sysSendCase k.bare old).Does s k'.bare k' := by
  unfold Kernel.sysSendCase at h
  dsimp only at h
  obtain ⟨k₁, hk₁⟩ : ∃ k₁, k₁ = if old.regA1 = magicSsi
    then { k with softBlockCount := k.softBlockCount + 1 } else k := ⟨_, rfl⟩
  have hbare : (if old.regA1 = magicSsi
      then { k.bare with softBlockCount := k.bare.softBlockCount + 1 } else k.bare) = k₁.bare := by
    rw [hk₁]
    split <;> rfl
  have hs₁ : s.Shows k₁ := by
    rw [hk₁]
    split
    · exact hs.keep rfl rfl rfl rfl rfl rfl
    · exact hs
  have hk : k₁.Pooled ∧ k₁.currentThread = k.currentThread := by
    rw [hk₁]
    split
    · exact ⟨Kernel.keeps_pooled.op _ _ _ .request (by simp) hk, rfl⟩
    · exact ⟨hk, rfl⟩
  obtain ⟨hk, hcur⟩ := hk
  rw [← hk₁] at h
  unfold Code.sysSendCase
  simp only [hbare]
  split at h
  · cases h
  · next hn =>
    refine .neg hn ?_
    split at h
    · next hi =>
      have hne : k.receiver old ≠ null := by
        intro he
        apply hn
        simp_all [Kernel.intercepts]
      exact .pos hi (hs₁.terminate hk hne h)
    · next hi =>
      refine .neg hi ?_
      split at h
      · exact .pos ‹_› (hs₁.continueTrapped hk.placed h)
      · exact .neg ‹_› (hs₁.sendOrdinary hk (.inl ⟨hcur ▸ hc, hcur.symm⟩) h)

theorem sysbpBody (hs : s.Shows k) (hk : k.Pooled) (hc : k.currentThread ≠ null)
    (h : k.sysbpBody old = .ok k') : (Code.sysbpBody k.bare old).Does s k'.bare k' := by
  have hq := Kernel.sysbpEnter_quiet (k := k) old
  have hs₁ := hs.quiet hq
  have hk₁ := Kernel.keeps_pooled.quiet hq hk
  have hc₁ : (k.sysbpEnter old).currentThread ≠ null := hq.currentThread ▸ hc
  rw [Kernel.sysbpBody_eq] at h
  change Code.Does (if old.isSend then Code.sysSendCase (k.bare.sysbpEnter old) old
    else if old.isRecv then Code.sysRecvCase (k.bare.sysbpEnter old) old
    else Code.passUp (k.bare.sysbpEnter old) (((k.bare.sysbpEnter old).tcb
      (k.bare.sysbpEnter old).currentThread).manager .sysbp) old.cause) s k'.bare k'
  rw [Kernel.bare_sysbpEnter]
  split at h
  · exact .pos ‹_› (hs₁.sysSendCase hk₁ hc₁ h)
  · refine .neg ‹_› ?_
    split at h
    · exact .pos ‹_› (hs₁.sysRecvCase hk₁ hc₁ h)
    · exact .neg ‹_› (hs₁.passUp hk₁ hc₁ h)

theorem pgmtrapBody (hs : s.Shows k) (hk : k.Pooled) (hc : k.currentThread ≠ null)
    (h : k.pgmtrapBody old = .ok k') : (Code.pgmtrapBody k.bare old).Does s k'.bare k' := by
  have hq := Quiet.enter (k := k) old
  simp only [Code.pgmtrapBody, Kernel.bare_enter]
  exact (hs.quiet hq).passUp (Kernel.keeps_pooled.quiet hq hk) (hq.currentThread ▸ hc) h

theorem tlbBody (hs : s.Shows k) (hk : k.Pooled) (hc : k.currentThread ≠ null)
    (h : k.tlbBody old = .ok k') : (Code.tlbBody k.bare old).Does s k'.bare k' := by
  have hq := Quiet.enter (k := k) old
  simp only [Code.tlbBody, Kernel.bare_enter]
  exact (hs.quiet hq).passUp (Kernel.keeps_pooled.quiet hq hk) (hq.currentThread ▸ hc) h

/-! `scheduler.c`. -/

theorem scheduler (hs : s.Shows k) (hnull : null ∉ k.readyQueue) (h : k.scheduler = .ok k') :
    (Code.scheduler k.bare).Does s k'.bare k' := by
  unfold Kernel.scheduler at h
  split at h
  · next hc =>
    refine .pos hc (.bind hs.emptyReady fun s₁ hs₁ _ => ?_)
    cases hr : k.readyQueue with
    | nil =>
      rw [hr] at h
      refine .pos (by simp [emptyThreadQ]) ?_
      dsimp only at h
      split at h
      · cases h
      · refine .neg ‹_› ?_
        split at h
        · cases h
        · refine .neg ‹_› ?_
          split at h
          · cases h
            exact .pos ‹_› (.done rfl hs₁)
          · cases h
    | cons p rest =>
      have hp : p ≠ null := fun he => hnull (by simp [hr, he])
      rw [hr] at h
      cases h
      refine .neg (by simp [emptyThreadQ]) (.bind hs₁.removeReady fun s₂ hs₂ _ => ?_)
      rw [hr] at hs₂ ⊢
      have hs₃ : s₂.Shows { k with currentThread := p, readyQueue := rest } :=
        hs₂.keep rfl rfl rfl rfl rfl rfl
      exact .neg hp (.done (Kernel.bare_dispatch rest) (hs₃.quiet (.dispatch p rest)))
  · next hc =>
    cases h
    exact .neg hc (.done Kernel.bare_resumeCurrent (hs.quiet .resumeCurrent))

/-! `interrupts.c`. -/

theorem notifySsi {d : Ptr} (hs : s.Shows k) (hk : k.Pooled) (hd : d ∈ deviceIds)
    (h : k.notifySsi d = .ok k') : (Code.notifySsi k.bare d).Does s k'.bare k' := by
  obtain ⟨⟨r, k₁⟩, h₁, h₂⟩ := bind_eq_ok.mp h
  refine .bind (hs.send hk (.inr ⟨hd, rfl⟩) h₁) fun s₁ hs₁ _ => ?_
  split at h₂
  · cases h₂
  · cases h₂
    exact .neg ‹_› (.done rfl hs₁)

theorem pseudoClockTick (hs : s.Shows k) (hk : k.Pooled) (h : k.pseudoClockTick = .ok k') :
    (Code.pseudoClockTick k.bare).Does s k'.bare k' := by
  unfold Kernel.pseudoClockTick at h
  split at h
  · obtain ⟨k₁, h₁, h₂⟩ := bind_eq_ok.mp h
    cases h₂
    have hq : Quiet k (k.fillSlot pseudoClockMsg 0) := .fillSlot _ _
    have hk₁ := Kernel.keeps_pooled.quiet hq hk
    refine .pos ‹_› (.bind ((hs.quiet hq).notifySsi hk₁ List.mem_cons_self h₁) fun s₁ hs₁ _ => ?_)
    exact .done rfl (hs₁.keep rfl rfl rfl rfl rfl rfl)
  · cases h
    exact .neg ‹_› (.done rfl hs)

theorem sliceEnd (hs : s.Shows k) (hk : k.Pooled) :
    (Code.sliceEnd k.bare).Does s k.sliceEnd.bare k.sliceEnd := by
  unfold Kernel.sliceEnd
  split
  · next hc =>
    obtain ⟨hthread, hready, hwait, hfree⟩ := hk.current hc.1
    refine .pos hc (.bind (hs.insertReady hthread hready hwait hfree) fun s₁ hs₁ _ => ?_)
    exact .done rfl (hs₁.keep rfl rfl rfl rfl rfl rfl)
  · next hc => exact .neg hc (.done rfl (hs.keep rfl rfl rfl rfl rfl rfl))

theorem timerInterrupt (hs : s.Shows k) (hk : k.Pooled) (h : k.timerInterrupt = .ok k') :
    (Code.timerInterrupt k.bare).Does s k'.bare k' := by
  obtain ⟨k₁, h₁, h₂⟩ := bind_eq_ok.mp h
  cases h₂
  have hq : Quiet k k.updatePseudoTick := .updatePseudoTick
  have hk₀ := Kernel.keeps_pooled.quiet hq hk
  refine .bind ((hs.quiet hq).pseudoClockTick hk₀ h₁) fun s₁ hs₁ _ => ?_
  exact hs₁.sliceEnd (hk₀.pseudoClockTick h₁)

theorem dtpInterrupt (hs : s.Shows k) (hk : k.Pooled) (line : Nat) (hl : 3 ≤ line ∧ line < 8)
    (h : k.dtpInterrupt line = .ok k') : (Code.dtpInterrupt k.bare line).Does s k'.bare k' := by
  refine ((hs.quiet (.ioStore _ _)).quiet (.fillSlot _ _)).notifySsi ?_
    (deviceBaseAddr_mem line hl _).1 h
  exact Kernel.keeps_pooled.quiet (.fillSlot _ _) (Kernel.keeps_pooled.quiet (.ioStore _ _) hk)

theorem terminalHalf {status command : Ptr} (hs : s.Shows k) (hk : k.Pooled)
    (hd : status ∈ deviceIds) (h : k.terminalHalf status command = .ok k') :
    (Code.terminalHalf k.bare status command).Does s k'.bare k' := by
  obtain ⟨k₁, h₁, h₂⟩ := bind_eq_ok.mp h
  cases h₂
  have hq : Quiet k (k.fillSlot interruptMsg (k.bus status)) := .fillSlot _ _
  refine .bind ((hs.quiet hq).notifySsi (Kernel.keeps_pooled.quiet hq hk) hd h₁) fun s₁ hs₁ _ => ?_
  exact .done rfl (hs₁.quiet (.ioStore _ _))

theorem terminalInterrupt (hs : s.Shows k) (hk : k.Pooled) (h : k.terminalInterrupt = .ok k') :
    (Code.terminalInterrupt k.bare).Does s k'.bare k' := by
  have hd := deviceBaseAddr_mem intTerminal (by decide) (k.bus (intBitmap intTerminal))
  unfold Kernel.terminalInterrupt at h
  dsimp only at h
  split at h
  · exact .pos ‹_› (hs.terminalHalf hk hd.2 h)
  · refine .neg ‹_› ?_
    split at h
    · exact .pos ‹_› (hs.terminalHalf hk hd.1 h)
    · cases h
      exact .neg ‹_› (.done rfl hs)

theorem lineInterrupt {cause : U32} (hs : s.Shows k) (hk : k.Pooled)
    (h : k.lineInterrupt cause = .ok k') : (Code.lineInterrupt k.bare cause).Does s k'.bare k' := by
  unfold Kernel.lineInterrupt at h
  split at h
  · exact .pos ‹_› (hs.timerInterrupt hk h)
  refine .neg ‹_› ?_
  split at h
  · exact .pos ‹_› (hs.dtpInterrupt hk intDisk (by decide) h)
  refine .neg ‹_› ?_
  split at h
  · exact .pos ‹_› (hs.dtpInterrupt hk intTape (by decide) h)
  refine .neg ‹_› ?_
  split at h
  · exact .pos ‹_› (hs.dtpInterrupt hk intUnused (by decide) h)
  refine .neg ‹_› ?_
  split at h
  · exact .pos ‹_› (hs.dtpInterrupt hk intPrinter (by decide) h)
  refine .neg ‹_› ?_
  split at h
  · exact .pos ‹_› (hs.terminalInterrupt hk h)
  · cases h
    exact .neg ‹_› (.done rfl hs)

theorem intBody (hs : s.Shows k) (hk : k.Pooled) (h : k.intBody old = .ok k') :
    (Code.intBody k.bare old).Does s k'.bare k' := by
  obtain ⟨k₁, h₁, h₂⟩ := bind_eq_ok.mp h
  cases h₂
  have hin : ∃ k₀ : Kernel, (if k.currentThread ≠ null then k.enter old else k) = k₀ ∧
      (if k.bare.currentThread ≠ null then k.bare.enter old else k.bare) = k₀.bare ∧
      Quiet k k₀ := by
    refine ⟨_, rfl, ?_, ?_⟩
    · rw [Kernel.bare_enter, apply_ite Kernel.bare]
      rfl
    · split
      · exact .enter old
      · exact .refl k
  obtain ⟨k₀, h₀, hbare, hq⟩ := hin
  simp only [h₀] at h₁
  unfold Code.intBody
  simp only [hbare]
  refine .bind ((hs.quiet hq).lineInterrupt (Kernel.keeps_pooled.quiet hq hk) h₁) fun s₁ hs₁ _ => ?_
  exact .done rfl (hs₁.keep rfl rfl rfl rfl rfl rfl)

end Lists.Shows

end AmiKaya
