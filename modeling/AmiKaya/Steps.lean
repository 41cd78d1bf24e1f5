import AmiKaya.Places

/-! Every step of the machine is a sequence of operations, and which ones. -/
namespace AmiKaya

/-- The identities under which the interrupt handler sends. -/
def deviceIds : List Ptr := busIntervalTimer ::
  (List.range 5).flatMap fun l => (List.range 8).flatMap fun d =>
    [deviceBaseAddr (l + 3) d, deviceBaseAddr (l + 3) d + 8]

theorem deviceIds_toNat {s : Ptr} (h : s ∈ deviceIds) : 0 < s.toNat ∧ s.toNat < 0x2000B2F0 := by
  have hall : deviceIds.all (fun s => 0 < s.toNat && s.toNat < 0x2000B2F0) = true := by
    decide +kernel
  simpa using List.all_eq_true.mp hall s h

theorem deviceIds_notMem {s : Ptr} (h : s ∈ deviceIds) : s ∉ threadArray ∧ s ≠ magicSsi := by
  have hs := deviceIds_toNat h
  refine ⟨fun hp => ?_, ?_⟩
  · have := threadArray_toNat hp
    omega
  · rintro rfl
    simp [magicSsi] at hs

theorem whichDevice_lt (bitmap : U32) : whichDevice bitmap < 8 := by
  unfold whichDevice
  repeat' split
  all_goals omega

theorem deviceBaseAddr_mem (line : Nat) (h : 3 ≤ line ∧ line < 8) (bitmap : U32) :
    deviceBaseAddr line (whichDevice bitmap) ∈ deviceIds ∧
      deviceBaseAddr line (whichDevice bitmap) + 8 ∈ deviceIds := by
  obtain ⟨l, rfl⟩ := Nat.exists_eq_add_of_le' h.1
  have hl : l ∈ List.range 5 := List.mem_range.mpr (by omega)
  have hd : whichDevice bitmap ∈ List.range 8 := List.mem_range.mpr (whichDevice_lt bitmap)
  simp only [deviceIds, List.mem_cons, List.mem_flatMap]
  exact ⟨.inr ⟨l, hl, _, hd, .inl rfl⟩, .inr ⟨l, hl, _, hd, .inr (.inl rfl)⟩⟩

/-- The operations that an entry of thread `c` may be made of. -/
def Entry.Allows (x : Entry) (c : Ptr) : Op → Prop
  | .quiet | .dispatch _ => True
  | .request | .resume _ => x = .send
  | .send s t _ _ => s = c ∧ (x = .send ∨ x = .trap t) ∨ s ∈ deviceIds ∧ x = .interrupt
  | .recv p w _ _ => p = c ∧ x = .recv w
  | .freeze p m => p = c ∧ x = .trap m
  | .terminate _ => x ≠ .interrupt
  | .preempt _ => x = .interrupt
  | .alloc _ => x = .alloc
  | .publish p => x = .publish p
  | .insertChild _ _ | .insertSibling _ _ | .countThread => x = .program

namespace Kernel

variable {k k' : Kernel} {x : Entry} {c : Ptr}

theorem scheduler_ops (h : k.scheduler = .ok k') : Ops (x.Allows c) k k' := by
  unfold scheduler at h
  split at h
  · next hc =>
    split at h
    · split at h
      · cases h
      · split at h
        · cases h
        · split at h
          · cases h
            exact .refl
          · cases h
    · next p rest hr =>
      cases h
      exact (Ops.one (.dispatch hc hr) trivial).trans (.quiet (.dispatch p rest) trivial)
  · cases h
    exact .quiet .resumeCurrent trivial

/-- Nobody starts running and nobody starts waiting. -/
def Fades (k k' : Kernel) : Prop :=
  (k'.currentThread = k.currentThread ∨ k'.currentThread = null) ∧ k'.waitQueue ⊆ k.waitQueue

theorem Fades.trans {k k' k'' : Kernel} (h : Fades k k') (h' : Fades k' k'') : Fades k k'' := by
  refine ⟨?_, fun p hp => h.2 (h'.2 hp)⟩
  rcases h'.1 with he | he
  · rw [he]
    exact h.1
  · exact .inr he

theorem reap_fades {t : Ptr} (h : k.reap t = .ok k') : Fades k k' := by
  rcases reap_cases h with ⟨-, rfl⟩ | ⟨-, -, -, -, rfl⟩
  · refine ⟨?_, fun _ h => h⟩
    dsimp only
    split
    · exact .inr rfl
    · exact .inl rfl
  · exact ⟨.inl rfl, fun p hp => List.mem_of_mem_erase hp⟩

/-- A thread that terminates itself leaves the processor. -/
theorem terminate_current (hk : Placed k) (hc : k.currentThread ≠ null)
    (h : k.terminate k.currentThread = .ok k') : k'.currentThread = null := by
  obtain ⟨k₁, h₁, h₂⟩ := terminate_cases (R := Fades) (fun _ => ⟨.inl rfl, fun _ h => h⟩)
    (fun _ _ _ => Fades.trans) (fun _ _ => ⟨.inl rfl, fun _ h => h⟩) (fun _ _ _ _ => reap_fades) h
  rcases reap_cases h₂ with ⟨-, rfl⟩ | ⟨-, -, -, hw, -⟩
  · rcases h₁.1 with he | he <;> simp [he]
  · exact absurd (h₁.2 hw) (hk.current_notMem hc).2.1

theorem passUp_ops {m : Ptr} {cause : U32} (hk : Placed k) (hc : k.currentThread ≠ null)
    (h : k.passUp m cause = .ok k') : Ops (Entry.Allows (.trap m) k.currentThread) k k' := by
  unfold passUp at h
  split at h
  · obtain ⟨k₁, h₁, h₂⟩ := bind_eq_ok.mp h
    cases h₂
    have hcur := terminate_current hk hc h₁
    have he : { k₁ with currentThread := null } = k₁ := by rw [← hcur]
    rw [he]
    exact .one (.terminate hc h₁) (by simp [Entry.Allows])
  · next hm =>
    obtain ⟨⟨r, k₁⟩, h₁, h₂⟩ := bind_eq_ok.mp h
    cases h₂
    have hcur : k₁.currentThread = k.currentThread := by
      rcases send_cases h₁ with ⟨-, -, he⟩ | ⟨-, -, -, -, -, -, -, rfl⟩ | ⟨-, -, -, -, -, -, he⟩ |
        ⟨-, -, -, rfl⟩
      · obtain ⟨a, free, -, rfl⟩ := enqueue_cases he
        rfl
      · rfl
      · obtain ⟨a, free, -, rfl⟩ := enqueue_cases he
        rfl
      · rfl
    have hsend := Ops.one (P := Entry.Allows (.trap m) k.currentThread) (.send h₁)
      (.inl ⟨rfl, .inr rfl⟩)
    refine hsend.trans ?_
    have hf : OpStep k₁ (.freeze k₁.currentThread m) (k₁.freeze m) := .freeze (hcur ▸ hc) hm
    exact .one hf ⟨hcur, rfl⟩

theorem sendOrdinary_ops {s t : Ptr} {v : U32} (h : k.sendOrdinary s t v = .ok k') :
    Ops (Entry.Allows .send s) k k' := by
  obtain ⟨⟨r, k₁⟩, h₁, h₂⟩ := bind_eq_ok.mp h
  cases h₂
  exact (Ops.one (.send h₁) (.inl ⟨rfl, .inl rfl⟩)).trans
    (.quiet (Quiet.setTcb fun _ => ⟨rfl, rfl, rfl, rfl⟩) trivial)

theorem sysSendCase_ops {old : State} (h : k.sysSendCase old = .ok k') :
    Ops (Entry.Allows .send k.currentThread) k k' := by
  obtain ⟨k₁, hk₁, h⟩ := sysSendCase_cases h
  have hreq : Ops (Entry.Allows .send k.currentThread) k k₁ := by
    rw [hk₁]
    split
    · exact .one .request rfl
    · exact .refl
  refine hreq.trans ?_
  rcases h with ⟨-, hne, h | h⟩ | h
  · exact .one (.terminate hne h) (by simp [Entry.Allows])
  · exact .one (.resume h) rfl
  · exact sendOrdinary_ops h

theorem sysRecvCase_ops {old : State} (hc : k.currentThread ≠ null)
    (h : k.sysRecvCase old = .ok k') :
    Ops (Entry.Allows (.recv old.regA1) k.currentThread) k k' := by
  obtain ⟨⟨r, k₁⟩, h₁, h₂⟩ := bind_eq_ok.mp h
  cases h₂
  exact (Ops.one (.recv hc h₁) ⟨rfl, rfl⟩).trans
    (.quiet (Quiet.setTcb fun _ => ⟨rfl, rfl, rfl, rfl⟩) trivial)

theorem enter_manager (old : State) (p : Ptr) (e : Trap) :
    ((k.enter old).tcb p).manager e = (k.tcb p).manager e := by
  by_cases hp : p = k.currentThread
  · subst hp
    cases e <;> simp [enter, chargeCpu, chargeSlice, chargeTime, setState, setTcb, readTodlow,
      Tcb.manager]
  · simp [enter, chargeCpu, chargeSlice, chargeTime, setState, setTcb, readTodlow, hp]

/-- The kernel when the cases of the SYS/BP handler are told apart. -/
def sysbpEnter (k : Kernel) (old : State) : Kernel :=
  (k.enter old).setTcb (k.enter old).currentThread fun t =>
    { t with tState := { t.tState with pcEpc := t.tState.pcEpc + wordSize } }

theorem sysbpEnter_quiet (old : State) : Quiet k (k.sysbpEnter old) :=
  (Quiet.enter old).trans (Quiet.setTcb fun _ => ⟨rfl, rfl, rfl, rfl⟩)

theorem sysbpEnter_manager (old : State) (p : Ptr) (e : Trap) :
    ((k.sysbpEnter old).tcb p).manager e = (k.tcb p).manager e := by
  have h := enter_manager (k := k) old p e
  by_cases hp : p = (k.enter old).currentThread
  · subst hp
    cases e <;> simpa [sysbpEnter, setTcb, Tcb.manager] using h
  · simpa [sysbpEnter, setTcb, hp] using h

theorem sysbpBody_ops {old : State} (hk : Placed k) (hc : k.currentThread ≠ null)
    (h : k.sysbpBody old = .ok k') : Ops ((k.sysbpEntry old).Allows k.currentThread) k k' := by
  have hq := sysbpEnter_quiet (k := k) old
  have hcur := hq.currentThread
  refine (Ops.quiet hq trivial).trans ?_
  have hman := sysbpEnter_manager (k := k) old k.currentThread .sysbp
  change (if old.isSend then (k.sysbpEnter old).sysSendCase old
    else if old.isRecv then (k.sysbpEnter old).sysRecvCase old
    else (k.sysbpEnter old).passUp
      (((k.sysbpEnter old).tcb (k.sysbpEnter old).currentThread).manager .sysbp) old.cause) =
      .ok k' at h
  rw [hcur, hman] at h
  rw [← hcur]
  unfold sysbpEntry
  by_cases hs : old.isSend
  · simp only [hs, if_true] at h ⊢
    exact sysSendCase_ops h
  · by_cases hr : old.isRecv
    · simp only [hs, hr, if_true, if_false, Bool.false_eq_true] at h ⊢
      exact sysRecvCase_ops (hcur ▸ hc) h
    · simp only [hs, hr, if_false, Bool.false_eq_true] at h ⊢
      exact passUp_ops (hk.of_perm (SamePlaces.quiet hq)) (hcur ▸ hc) h

theorem enter_passUp_ops {old : State} (e : Trap) (hk : Placed k) (hc : k.currentThread ≠ null)
    (h : (k.enter old).passUp (((k.enter old).tcb (k.enter old).currentThread).manager e)
      old.cause = .ok k') :
    Ops (Entry.Allows (.trap ((k.tcb k.currentThread).manager e)) k.currentThread) k k' := by
  have hq := Quiet.enter (k := k) old
  have hcur := hq.currentThread
  refine (Ops.quiet hq trivial).trans ?_
  rw [hcur, enter_manager] at h
  rw [← hcur] at hc ⊢
  exact passUp_ops (hk.of_perm (SamePlaces.quiet hq)) hc h

theorem sysbpHandler_ops {old : State} (hk : Placed k) (hc : k.currentThread ≠ null)
    (h : k.sysbpHandler old = .ok k') :
    Ops ((k.sysbpEntry old).Allows k.currentThread) k k' := by
  obtain ⟨k₁, h₁, h₂⟩ := bind_eq_ok.mp h
  exact (sysbpBody_ops hk hc h₁).trans (scheduler_ops h₂)

theorem pgmtrapHandler_ops {old : State} (hk : Placed k) (hc : k.currentThread ≠ null)
    (h : k.pgmtrapHandler old = .ok k') :
    Ops (Entry.Allows (.trap ((k.tcb k.currentThread).manager .pgmtrap)) k.currentThread) k k' := by
  obtain ⟨k₁, h₁, h₂⟩ := bind_eq_ok.mp h
  exact (enter_passUp_ops .pgmtrap hk hc h₁).trans (scheduler_ops h₂)

theorem tlbHandler_ops {old : State} (hk : Placed k) (hc : k.currentThread ≠ null)
    (h : k.tlbHandler old = .ok k') :
    Ops (Entry.Allows (.trap ((k.tcb k.currentThread).manager .tlbtrap)) k.currentThread) k k' := by
  obtain ⟨k₁, h₁, h₂⟩ := bind_eq_ok.mp h
  exact (enter_passUp_ops .tlbtrap hk hc h₁).trans (scheduler_ops h₂)

/-! Interrupts. -/

/-- What holds for each line that may be served, and when there is none, holds for the choice. -/
theorem lineInterrupt_inv {P : Except Stop Kernel → Prop} (timer : P k.timerInterrupt)
    (dtp : ∀ line, 3 ≤ line ∧ line < 8 → P (k.dtpInterrupt line))
    (half : ∀ status ∈ deviceIds, ∀ command, P (k.terminalHalf status command)) (none : P (.ok k))
    (cause : U32) : P (k.lineInterrupt cause) := by
  unfold lineInterrupt
  split
  · exact timer
  split
  · exact dtp intDisk (by decide)
  split
  · exact dtp intTape (by decide)
  split
  · exact dtp intUnused (by decide)
  split
  · exact dtp intPrinter (by decide)
  split
  · have hd := deviceBaseAddr_mem intTerminal (by decide) (k.bus (intBitmap intTerminal))
    unfold terminalInterrupt
    dsimp only
    split
    · exact half _ hd.2 _
    · split
      · exact half _ hd.1 _
      · exact none
  · exact none

/-- A relation between kernels that composes and holds over each step of the handler for a line. -/
structure OverLines (R : Kernel → Kernel → Prop) : Prop where
  refl : ∀ k, R k k
  trans : ∀ k₁ k₂ k₃, R k₁ k₂ → R k₂ k₃ → R k₁ k₃
  fillSlot : ∀ k service arg, R k (fillSlot k service arg)
  ioStore : ∀ k a v, R k (ioStore k a v)
  notifySsi : ∀ k k' s, s ∈ deviceIds → notifySsi k s = .ok k' → R k k'
  updatePseudoTick : ∀ k, R k (updatePseudoTick k)
  restartTick : ∀ k : Kernel, R k { k.readTodlow with pseudoTick := 0, startPseudoTick := k.getTodlow }
  sliceEnd : ∀ k, R k (sliceEnd k)

namespace OverLines

variable {R : Kernel → Kernel → Prop}

theorem timerInterrupt (hR : OverLines R) (h : k.timerInterrupt = .ok k') : R k k' := by
  obtain ⟨k₁, h₁, h₂⟩ := bind_eq_ok.mp h
  cases h₂
  refine hR.trans _ _ _ (hR.updatePseudoTick k) (hR.trans _ _ _ ?_ (hR.sliceEnd k₁))
  unfold pseudoClockTick at h₁
  split at h₁
  · obtain ⟨k₂, h₂, h₃⟩ := bind_eq_ok.mp h₁
    cases h₃
    exact hR.trans _ _ _ (hR.fillSlot _ _ _) (hR.trans _ _ _
      (hR.notifySsi _ _ _ List.mem_cons_self h₂) (hR.restartTick k₂))
  · cases h₁
    exact hR.refl _

theorem dtpInterrupt (hR : OverLines R) (line : Nat) (hl : 3 ≤ line ∧ line < 8)
    (h : k.dtpInterrupt line = .ok k') : R k k' :=
  hR.trans _ _ _ (hR.ioStore k _ _) (hR.trans _ _ _ (hR.fillSlot _ _ _)
    (hR.notifySsi _ _ _ (deviceBaseAddr_mem line hl _).1 h))

theorem terminalHalf (hR : OverLines R) {status command : Ptr} (hs : status ∈ deviceIds)
    (h : k.terminalHalf status command = .ok k') : R k k' := by
  obtain ⟨k₁, h₁, h₂⟩ := bind_eq_ok.mp h
  cases h₂
  exact hR.trans _ _ _ (hR.fillSlot _ _ _) (hR.trans _ _ _ (hR.notifySsi _ _ _ hs h₁)
    (hR.ioStore _ _ _))

theorem lineInterrupt (hR : OverLines R) {cause : U32} (h : k.lineInterrupt cause = .ok k') :
    R k k' := by
  refine lineInterrupt_inv (P := fun x => x = .ok k' → R k k') hR.timerInterrupt
    (fun line hl => hR.dtpInterrupt line hl) (fun _ hs _ => hR.terminalHalf hs) ?_ cause h
  intro he
  cases he
  exact hR.refl k

end OverLines

theorem notifySsi_ops {s : Ptr} (hs : s ∈ deviceIds) (h : k.notifySsi s = .ok k') :
    Ops (Entry.interrupt.Allows c) k k' := by
  obtain ⟨⟨r, k₁⟩, h₁, h₂⟩ := bind_eq_ok.mp h
  split at h₂
  · cases h₂
  · cases h₂
    exact .one (.send h₁) (.inr ⟨hs, rfl⟩)

theorem sliceEnd_ops : Ops (Entry.interrupt.Allows c) k k.sliceEnd := by
  unfold sliceEnd
  split
  · next hc => exact .one (.preempt hc.1) rfl
  · exact .quiet (by constructor <;> intros <;> rfl) trivial

theorem ops_overLines : OverLines (Ops (Entry.interrupt.Allows c)) where
  refl _ := .refl
  trans _ _ _ := .trans
  fillSlot _ _ _ := .quiet (.fillSlot _ _) trivial
  ioStore _ _ _ := .quiet (.ioStore _ _) trivial
  notifySsi _ _ _ := notifySsi_ops
  updatePseudoTick _ := .quiet .updatePseudoTick trivial
  restartTick _ := .quiet (by constructor <;> intros <;> rfl) trivial
  sliceEnd _ := sliceEnd_ops

theorem intBody_ops {old : State} (h : k.intBody old = .ok k') :
    Ops (Entry.interrupt.Allows c) k k' := by
  obtain ⟨k₁, h₁, h₂⟩ := bind_eq_ok.mp h
  cases h₂
  have hin : Ops (Entry.interrupt.Allows c) k
      (if k.currentThread ≠ null then k.enter old else k) := by
    split
    · exact .quiet (.enter old) trivial
    · exact .refl
  exact (hin.trans (ops_overLines.lineInterrupt h₁)).trans
    (.quiet (by constructor <;> intros <;> rfl) trivial)

theorem intHandler_ops {old : State} (h : k.intHandler old = .ok k') :
    Ops (Entry.interrupt.Allows c) k k' := by
  obtain ⟨k₁, h₁, h₂⟩ := bind_eq_ok.mp h
  exact (intBody_ops h₁).trans (scheduler_ops h₂)

end Kernel

end AmiKaya
