import AmiKaya.SoftBlock
import Mathlib.Tactic.IntervalCases

/-! Pending devices and the interrupt handler: which one it acknowledges, and what it tells the
SSI. A device, or half of a terminal, goes by the address of its status register. -/
namespace AmiKaya
open Lts

/-! The pending bitmap of a line. -/

theorem eq_or_bit {b w : U32} {d : Nat} (hd : d < 32) (hw : w = 1#32 <<< d) :
    b = b ||| w ↔ b.getLsbD d = true := by
  subst hw
  constructor
  · intro h
    rw [h]
    simp [hd]
  · intro h
    apply BitVec.eq_of_getLsbD_eq
    intro i hi
    by_cases hid : i = d
    · subst hid
      simp [h, BitVec.getLsbD_or]
    · have hbit : (1#32 <<< d).getLsbD i = false := by
        simp
        omega
      simp [BitVec.getLsbD_or, hbit]

/-- The device found is the lowest one whose bit is set. -/
theorem whichDevice_first {b : U32} (h : ∃ d < 8, b.getLsbD d = true) :
    b.getLsbD (whichDevice b) = true ∧ ∀ j < whichDevice b, b.getLsbD j = false := by
  have h0 : b = b ||| 0x1 ↔ b.getLsbD 0 = true := eq_or_bit (by omega) rfl
  have h1 : b = b ||| 0x2 ↔ b.getLsbD 1 = true := eq_or_bit (by omega) rfl
  have h2 : b = b ||| 0x4 ↔ b.getLsbD 2 = true := eq_or_bit (by omega) rfl
  have h3 : b = b ||| 0x8 ↔ b.getLsbD 3 = true := eq_or_bit (by omega) rfl
  have h4 : b = b ||| 0x10 ↔ b.getLsbD 4 = true := eq_or_bit (by omega) rfl
  have h5 : b = b ||| 0x20 ↔ b.getLsbD 5 = true := eq_or_bit (by omega) rfl
  have h6 : b = b ||| 0x40 ↔ b.getLsbD 6 = true := eq_or_bit (by omega) rfl
  simp only [whichDevice, h0, h1, h2, h3, h4, h5, h6]
  clear h0 h1 h2 h3 h4 h5 h6
  repeat' split
  case isFalse.isFalse.isFalse.isFalse.isFalse.isFalse.isFalse =>
    obtain ⟨d, hd, hb⟩ := h
    have hall : ∀ j < 7, b.getLsbD j = false := by
      intro j hj
      interval_cases j <;> simp_all
    have hd7 : d = 7 := by
      by_contra hne
      rw [hall d (by omega)] at hb
      cases hb
    exact ⟨hd7 ▸ hb, hall⟩
  all_goals
    refine ⟨‹_›, fun j hj => ?_⟩
    interval_cases j <;> simp_all

/-- The parts of device `dev` of a line that interrupt on their own, in the order of priority: the
transmitter of a terminal comes before its receiver. -/
def subDevices (line dev : Nat) : List Ptr :=
  if line = intTerminal then [deviceBaseAddr line dev + 8, deviceBaseAddr line dev]
  else [deviceBaseAddr line dev]

def deviceLines : List Nat := [intDisk, intTape, intUnused, intPrinter, intTerminal]

/-- The pending part of highest priority: lines, then devices, in increasing order. -/
def topDevice (pend : Ptr → Bool) : Option Ptr :=
  deviceLines.findSome? fun line => (List.range 8).findSome? fun dev =>
    (subDevices line dev).find? pend

/-- The status codes of a terminal half that has completed nothing: not installed, ready, busy. -/
def idleStatus (status : U32) : Bool := status &&& statusMask ∈ [0, 1, 3]

/-- What the device registers show of the pending completions. -/
structure Shows (bus : Ptr → U32) (pend : Ptr → Bool) : Prop where
  bitmap : ∀ line ∈ deviceLines, ∀ dev < 8,
    (bus (intBitmap line)).getLsbD dev = (subDevices line dev).any pend
  status : ∀ dev < 8, ∀ s ∈ subDevices intTerminal dev, pend s = !idleStatus (bus s)

/-- The cause register when these completions are pending, and no timer interrupt is. -/
structure Raises (cause : U32) (pend : Ptr → Bool) : Prop where
  timer : causeIpGet cause intTimer = false
  line : ∀ line ∈ deviceLines,
    causeIpGet cause line = (List.range 8).any fun dev => (subDevices line dev).any pend

theorem findSome?_range {α : Type} {n d : Nat} {f : Nat → Option α} (hd : d < n)
    (hn : ∀ j < d, f j = none) (hs : (f d).isSome) : (List.range n).findSome? f = f d := by
  obtain ⟨k, rfl⟩ := Nat.exists_eq_add_of_lt hd
  have hsplit : List.range (d + k + 1) = List.range d ++ d :: (List.range' (d + 1) k) := by
    rw [List.range_eq_range', List.range_eq_range', show d + k + 1 = d + (k + 1) by omega,
      ← List.range'_append_1, List.range'_succ, Nat.zero_add]
  have hnone : (List.range d).findSome? f = none := by
    rw [List.findSome?_eq_none_iff]
    intro j hj
    exact hn j (List.mem_range.mp hj)
  rw [hsplit, List.findSome?_append, hnone, List.findSome?_cons]
  cases hf : f d with
  | none => simp [hf] at hs
  | some a => rfl

theorem isSome_find? {α : Type} {l : List α} {p : α → Bool} : (l.find? p).isSome = l.any p := by
  rw [Bool.eq_iff_iff, List.find?_isSome, List.any_eq_true]

namespace Shows

variable {bus : Ptr → U32} {pend : Ptr → Bool} {line : Nat}

/-- On a line with something pending the handler finds the right device. -/
theorem find (h : Shows bus pend) (hl : line ∈ deviceLines)
    (hp : (List.range 8).any (fun dev => (subDevices line dev).any pend) = true) :
    whichDevice (bus (intBitmap line)) < 8 ∧
    ((subDevices line (whichDevice (bus (intBitmap line)))).find? pend).isSome ∧
    (List.range 8).findSome? (fun dev => (subDevices line dev).find? pend) =
      (subDevices line (whichDevice (bus (intBitmap line)))).find? pend := by
  obtain ⟨d, hd, hany⟩ := List.any_eq_true.mp hp
  have hd := List.mem_range.mp hd
  have hlt := whichDevice_lt (bus (intBitmap line))
  obtain ⟨hbit, hbefore⟩ := whichDevice_first (b := bus (intBitmap line))
    ⟨d, hd, by rw [h.bitmap line hl d hd, hany]⟩
  have hsome : ((subDevices line (whichDevice (bus (intBitmap line)))).find? pend).isSome := by
    rw [isSome_find?, ← h.bitmap line hl _ hlt, hbit]
  refine ⟨hlt, hsome, findSome?_range hlt (fun j hj => ?_) hsome⟩
  have hnone := h.bitmap line hl j (by omega)
  rw [hbefore j hj, ← isSome_find?] at hnone
  exact Option.isSome_eq_false_iff.mp hnone.symm |> Option.isNone_iff_eq_none.mp

end Shows

/-- A line without a cause bit has nothing pending. -/
theorem Raises.none {cause : U32} {pend : Ptr → Bool} {line : Nat} (h : Raises cause pend)
    (hl : line ∈ deviceLines) (hc : ¬ causeIpGet cause line = true) :
    (List.range 8).findSome? (fun dev => (subDevices line dev).find? pend) = none := by
  rw [List.findSome?_eq_none_iff]
  intro d hd
  have hany : (subDevices line d).any pend = false := by
    rw [h.line line hl] at hc
    simp only [Bool.not_eq_true, List.any_eq_false] at hc
    simpa using hc d hd
  rw [← isSome_find?] at hany
  exact Option.isNone_iff_eq_none.mp (Option.isSome_eq_false_iff.mp hany)

namespace Kernel

variable {k k' k₁ : Kernel} {s t a : Ptr} {pend : Ptr → Bool} {old : State}

/-- The handler serves the line of the pending part of highest priority. -/
theorem lineInterrupt_eq {cause : U32} (hs : Shows k.bus pend) (hr : Raises cause pend)
    (hp : topDevice pend = some s) : ∃ line ∈ deviceLines,
      (subDevices line (whichDevice (k.bus (intBitmap line)))).find? pend = some s ∧
      k.lineInterrupt cause =
        if line = intTerminal then k.terminalInterrupt else k.dtpInterrupt line := by
  have hfind : ∀ line ∈ deviceLines, causeIpGet cause line = true →
      (List.range 8).findSome? (fun dev => (subDevices line dev).find? pend) =
        (subDevices line (whichDevice (k.bus (intBitmap line)))).find? pend ∧
      ((subDevices line (whichDevice (k.bus (intBitmap line)))).find? pend).isSome := by
    intro line hl hc
    obtain ⟨-, hsome, heq⟩ := hs.find hl (by rw [← hr.line line hl, hc])
    exact ⟨heq, hsome⟩
  simp only [topDevice, deviceLines, List.findSome?_cons, List.findSome?_nil] at hp
  unfold lineInterrupt
  rw [if_neg (by simp [hr.timer])]
  have hmem : intDisk ∈ deviceLines ∧ intTape ∈ deviceLines ∧ intUnused ∈ deviceLines ∧
      intPrinter ∈ deviceLines ∧ intTerminal ∈ deviceLines := by decide
  -- the first line with its cause bit set, in the order of both scans
  by_cases h3 : causeIpGet cause intDisk = true
  · obtain ⟨heq, hsome⟩ := hfind _ hmem.1 h3
    obtain ⟨s', hs'⟩ := Option.isSome_iff_exists.mp hsome
    rw [heq, hs'] at hp
    exact ⟨_, hmem.1, hs'.trans hp, by rw [if_pos h3]; rfl⟩
  rw [hr.none hmem.1 h3] at hp
  rw [if_neg h3]
  by_cases h4 : causeIpGet cause intTape = true
  · obtain ⟨heq, hsome⟩ := hfind _ hmem.2.1 h4
    obtain ⟨s', hs'⟩ := Option.isSome_iff_exists.mp hsome
    rw [heq, hs'] at hp
    exact ⟨_, hmem.2.1, hs'.trans hp, by rw [if_pos h4]; rfl⟩
  rw [hr.none hmem.2.1 h4] at hp
  rw [if_neg h4]
  by_cases h5 : causeIpGet cause intUnused = true
  · obtain ⟨heq, hsome⟩ := hfind _ hmem.2.2.1 h5
    obtain ⟨s', hs'⟩ := Option.isSome_iff_exists.mp hsome
    rw [heq, hs'] at hp
    exact ⟨_, hmem.2.2.1, hs'.trans hp, by rw [if_pos h5]; rfl⟩
  rw [hr.none hmem.2.2.1 h5] at hp
  rw [if_neg h5]
  by_cases h6 : causeIpGet cause intPrinter = true
  · obtain ⟨heq, hsome⟩ := hfind _ hmem.2.2.2.1 h6
    obtain ⟨s', hs'⟩ := Option.isSome_iff_exists.mp hsome
    rw [heq, hs'] at hp
    exact ⟨_, hmem.2.2.2.1, hs'.trans hp, by rw [if_pos h6]; rfl⟩
  rw [hr.none hmem.2.2.2.1 h6] at hp
  rw [if_neg h6]
  by_cases h7 : causeIpGet cause intTerminal = true
  · obtain ⟨heq, hsome⟩ := hfind _ hmem.2.2.2.2 h7
    obtain ⟨s', hs'⟩ := Option.isSome_iff_exists.mp hsome
    rw [heq, hs'] at hp
    exact ⟨_, hmem.2.2.2.2, hs'.trans hp, by rw [if_pos h7]; rfl⟩
  rw [hr.none hmem.2.2.2.2 h7] at hp
  cases hp

/-! What the SSI is told. -/

/-- The SSI can be sent a message of `s`: it is in a queue or running, and there is a buffer for
the message or an aligned word where the SSI waits for it. -/
def CanNotify (k : Kernel) (s : Ptr) : Prop :=
  (k.ssiTcb ∈ k.readyQueue ∨ k.currentThread = k.ssiTcb) ∧ k.msgFree ≠ [] ∨
    ¬ (k.ssiTcb ∈ k.readyQueue ∨ k.currentThread = k.ssiTcb) ∧ k.ssiTcb ∈ k.waitQueue ∧
      (k.awaits k.ssiTcb s = true ∧ (k.tcb k.ssiTcb).reply.toNat % 4 = 0 ∨
        k.awaits k.ssiTcb s = false ∧ k.msgFree ≠ [])

instance (k : Kernel) (s : Ptr) : Decidable (k.CanNotify s) :=
  inferInstanceAs (Decidable (_ ∨ _))

/-- The SSI has been sent one message: `s` is the sender and `a` the payload. -/
def Notified (k : Kernel) (s a : Ptr) (k' : Kernel) : Prop :=
  (k.ssiTcb ∈ k.waitQueue ∧ k.ssiTcb ∉ k'.waitQueue ∧ k'.mem (k.tcb k.ssiTcb).reply = a ∧
      (k'.tcb k.ssiTcb).tState.regV0 = s ∧
      (k'.tcb k.ssiTcb).tInbox = (k.tcb k.ssiTcb).tInbox) ∨
    k'.waitQueue = k.waitQueue ∧
      ∃ b, (k'.tcb k.ssiTcb).tInbox = queued s (k.tcb k.ssiTcb).tInbox ⟨b, s, a⟩

theorem canNotify_quiet (h : Quiet k k₁) : k₁.CanNotify s ↔ k.CanNotify s := by
  simp only [CanNotify, awaits, h.ssiTcb, h.readyQueue, h.currentThread, h.msgFree, h.waitQueue,
    h.reply, h.waitingFor]

theorem notified_quiet (hq : Quiet k k₁) : k₁.Notified s a k' ↔ k.Notified s a k' := by
  simp only [Notified, hq.ssiTcb, hq.waitQueue, hq.reply, hq.tInbox]

theorem notifySsi_ok (hk : Placed k) (hid : s ≠ k.ssiTcb)
    (h : k.notifySsi s = .ok k') : k.CanNotify s ∧ (k'.bus = k.bus ∧ k'.device = k.device) ∧
      k.Notified s (interruptMsgSlot k.intIndex) k' := by
  obtain ⟨⟨r, k₁⟩, h₁, h₂⟩ := bind_eq_ok.mp h
  have hid' : k.senderId s = s := by simp [senderId, hid]
  have henq : k.enqueue s k.ssiTcb (interruptMsgSlot k.intIndex) = .ok k₁ →
      k.msgFree ≠ [] ∧ (k₁.bus = k.bus ∧ k₁.device = k.device) ∧
        k.Notified s (interruptMsgSlot k.intIndex) k₁ := by
    intro he
    obtain ⟨b, free, hf, rfl⟩ := enqueue_cases he
    exact ⟨by simp [hf], ⟨rfl, rfl⟩, .inr ⟨rfl, b, by simp⟩⟩
  split at h₂
  · cases h₂
  · next hr =>
    cases h₂
    rcases send_cases h₁ with ⟨hc, -, he⟩ | ⟨hc, -, hn, hw, -, ha, hreply, rfl⟩ |
      ⟨hc, -, hn, hw, -, ha, he⟩ | ⟨-, -, hbad, -⟩
    · obtain ⟨hf, hb, hnot⟩ := henq (hid' ▸ he)
      refine ⟨?_, hb, hnot⟩
      have hor : k.ssiTcb ∈ k.readyQueue ∨ k.currentThread = k.ssiTcb := hc.imp And.left id
      simp [CanNotify, hor, hf]
    · rw [hid'] at ha ⊢
      refine ⟨by simp [CanNotify, hc, hn, hw, ha, hreply], ⟨rfl, rfl⟩, .inl ⟨hw, hk.wait_erase, ?_⟩⟩
      simp [delivered, State.setV0, State.setReg, State.regV0]
    · rw [hid'] at ha he
      obtain ⟨hf, hb, hnot⟩ := henq he
      exact ⟨by simp [CanNotify, hc, hn, hw, ha, hf], hb, hnot⟩
    · exact absurd hbad hr

theorem notifySsi_of_can (hid : s ≠ k.ssiTcb) (hssi : k.ssiTcb ≠ null) (h : k.CanNotify s) :
    ∃ k', k.notifySsi s = .ok k' := by
  have hid' : k.senderId s = s := by simp [senderId, hid]
  have henq : k.msgFree ≠ [] →
      ∃ k', k.enqueue s k.ssiTcb (interruptMsgSlot k.intIndex) = .ok k' := by
    intro hf
    obtain ⟨b, free, hfree⟩ := List.exists_cons_of_ne_nil hf
    simp only [enqueue, allocMsg, hfree]
    exact ⟨_, rfl⟩
  have hgood : msgGood ≠ msgNoGood := by decide
  simp only [notifySsi, send, hid', thereIsThread_ne_null, hssi, ne_eq, not_false_eq_true, and_true]
  rcases h with ⟨hc, hf⟩ | ⟨hc, hw, ⟨ha, hreply⟩ | ⟨ha, hf⟩⟩
  · obtain ⟨k', he⟩ := henq hf
    exact ⟨k', by simp [hc, he, bind, Except.bind, hgood]⟩
  · simp only [hc, hw, ha, deliver, storeWord, hreply, bind, Except.bind, hgood, if_true, if_false]
    exact ⟨_, rfl⟩
  · obtain ⟨k', he⟩ := henq hf
    exact ⟨k', by simp [hc, hw, ha, he, bind, Except.bind, hgood]⟩

/-! One call of the handler. -/

/-- The completion of a terminal half is the only one the handler knows; other devices have no
status that matters. -/
def Completed (bus : Ptr → U32) (s : Ptr) : Prop :=
  ∀ dev < 8, s ∈ subDevices intTerminal dev → bus s &&& statusMask = devTtrsSCharTrsm

instance (bus : Ptr → U32) (s : Ptr) : Decidable (Completed bus s) :=
  inferInstanceAs (Decidable (∀ dev < 8, _ → _))

/-- The handler acknowledges the pending part of highest priority, and nothing else, and sends the
SSI one message for it. -/
def Attends (k : Kernel) (old : State) (pend : Ptr → Bool) : Prop :=
  ∃ s k', topDevice pend = some s ∧ k.intBody old = .ok k' ∧
    k'.bus = k.device k.bus (s + 4) devCAck ∧ k.Notified s (interruptMsgSlot k.intIndex) k'

/-- The other lines have no terminal half. -/
theorem notMem_terminal {line dev : Nat} (hl : line ∈ deviceLines) (hne : line ≠ intTerminal)
    (hd : dev < 8) : ∀ dev' < 8, deviceBaseAddr line dev ∉ subDevices intTerminal dev' := by
  have hall : deviceLines.all (fun line => line = intTerminal || (List.range 8).all fun dev =>
      (List.range 8).all fun dev' => deviceBaseAddr line dev ∉ subDevices intTerminal dev') =
        true := by
    decide +kernel
  have hline := List.all_eq_true.mp hall line hl
  simp only [hne, decide_false, Bool.false_or] at hline
  have hdev := List.all_eq_true.mp hline dev (List.mem_range.mpr hd)
  intro dev' hd'
  simpa using List.all_eq_true.mp hdev dev' (List.mem_range.mpr hd')

theorem dtpInterrupt_spec (line : Nat) (hk : Placed k) (hssi : k.ssiTcb ≠ null)
    (hs : deviceBaseAddr line (whichDevice (k.bus (intBitmap line))) = s) (hid : s ≠ k.ssiTcb) :
    (k.CanNotify s → ∃ k', k.dtpInterrupt line = .ok k') ∧
    ∀ k', k.dtpInterrupt line = .ok k' → k.CanNotify s ∧
      k'.bus = k.device k.bus (s + 4) devCAck ∧ k.Notified s (interruptMsgSlot k.intIndex) k' := by
  subst hs
  have hq : Quiet k ((k.ioStore (deviceBaseAddr line (whichDevice (k.bus (intBitmap line))) + 4)
      devCAck).fillSlot interruptMsg ((k.ioStore
        (deviceBaseAddr line (whichDevice (k.bus (intBitmap line))) + 4) devCAck).bus
        (deviceBaseAddr line (whichDevice (k.bus (intBitmap line)))))) :=
    (Quiet.ioStore _ _).trans (.fillSlot _ _)
  constructor
  · intro hcan
    exact notifySsi_of_can hid hssi ((canNotify_quiet hq).mpr hcan)
  · intro k' h
    obtain ⟨hcan, ⟨hb, -⟩, hnot⟩ := notifySsi_ok (hk.of_perm (SamePlaces.quiet hq)) hid h
    exact ⟨(canNotify_quiet hq).mp hcan, hb, (notified_quiet hq).mp hnot⟩

theorem terminalHalf_spec (command : Ptr) (hk : Placed k) (hssi : k.ssiTcb ≠ null)
    (hid : s ≠ k.ssiTcb) :
    (k.CanNotify s → ∃ k', k.terminalHalf s command = .ok k') ∧
    ∀ k', k.terminalHalf s command = .ok k' → k.CanNotify s ∧
      k'.bus = k.device k.bus command devCAck ∧ k.Notified s (interruptMsgSlot k.intIndex) k' := by
  have hq := Quiet.fillSlot (k := k) interruptMsg (k.bus s)
  constructor
  · intro hcan
    obtain ⟨k₁, h₁⟩ := notifySsi_of_can (k := k.fillSlot interruptMsg (k.bus s)) hid hssi
      ((canNotify_quiet hq).mpr hcan)
    exact ⟨_, bind_eq_ok.mpr ⟨k₁, h₁, rfl⟩⟩
  · intro k' h
    obtain ⟨k₁, h₁, h₂⟩ := bind_eq_ok.mp h
    cases h₂
    obtain ⟨hcan, ⟨hb, hd⟩, hnot⟩ := notifySsi_ok (hk.of_perm (SamePlaces.quiet hq)) hid h₁
    refine ⟨(canNotify_quiet hq).mp hcan, ?_, (notified_quiet hq).mp hnot⟩
    simp only [ioStore, hb, hd]
    rfl

/-- What comes before the line is looked at: times and the saved state of the current thread. -/
def intEnter (k : Kernel) (old : State) : Kernel :=
  if k.currentThread ≠ null then k.enter old else k

theorem intEnter_quiet (k : Kernel) (old : State) :
    Quiet k (k.intEnter old) ∧ (k.intEnter old).bus = k.bus ∧
    (k.intEnter old).device = k.device ∧ (k.intEnter old).intIndex = k.intIndex ∧
    (k.intEnter old).mem = k.mem := by
  unfold intEnter
  split
  · exact ⟨.enter old, rfl, rfl, rfl, rfl⟩
  · exact ⟨.refl k, rfl, rfl, rfl, rfl⟩

theorem intBody_eq (k : Kernel) (old : State) : k.intBody old =
    (k.intEnter old).lineInterrupt old.cause >>= fun k' =>
      .ok { k' with intIndex := (k'.intIndex + 1) % 48 } := rfl

/-- A notification names its sender. -/
theorem Notified.sender (hs : s ≠ busIntervalTimer) (ht : t ≠ busIntervalTimer)
    (h : k.Notified s a k') (h' : k.Notified t a k') : s = t := by
  rcases h with ⟨hw, hn, -, hv, -⟩ | ⟨hw, b, hb⟩
  · rcases h' with ⟨-, -, -, hv', -⟩ | ⟨hw', -⟩
    · exact hv.symm.trans hv'
    · exact absurd (hw' ▸ hw) hn
  · rcases h' with ⟨hw', hn, -⟩ | ⟨-, b', hb'⟩
    · exact absurd (hw ▸ hw') hn
    · rw [hb] at hb'
      simp only [queued, hs, ht, if_false] at hb'
      have hm := List.append_cancel_left hb'
      simp only [List.cons.injEq, Msg.mk.injEq] at hm
      exact hm.1.2.1

theorem not_notified (h : k'.waitQueue = k.waitQueue)
    (hin : (k'.tcb k.ssiTcb).tInbox = (k.tcb k.ssiTcb).tInbox) : ¬ k.Notified s a k' := by
  rintro (⟨hw, hn, -⟩ | ⟨-, b, hb⟩)
  · exact hn (h ▸ hw)
  · have hlen := congrArg List.length (hin.symm.trans hb)
    simp only [queued] at hlen
    split at hlen <;> simp at hlen

theorem terminal_halves (dev : Nat) :
    deviceBaseAddr intTerminal dev + 8 ≠ deviceBaseAddr intTerminal dev := by
  intro he
  have hv := congrArg BitVec.toNat he
  have h8 : (8 : U32).toNat = 8 := rfl
  have hlt := (deviceBaseAddr intTerminal dev).isLt
  rw [BitVec.toNat_add] at hv
  omega

theorem terminal_ne_timer {dev : Nat} (hd : dev < 8) :
    deviceBaseAddr intTerminal dev ≠ busIntervalTimer ∧
    deviceBaseAddr intTerminal dev + 8 ≠ busIntervalTimer := by
  interval_cases dev <;> decide

/-- `s` has been acknowledged and reported. -/
def Served (k : Kernel) (s : Ptr) (r : Except Stop Kernel) : Prop :=
  ∃ k', r = .ok k' ∧ k'.bus = k.device k.bus (s + 4) devCAck ∧
    k.Notified s (interruptMsgSlot k.intIndex) k'

theorem dtp_served {line dev : Nat} (hk : Placed k) (hssi : k.ssiTcb ∈ threadArray)
    (hl : line ∈ deviceLines) (h7 : line ≠ intTerminal)
    (hd : whichDevice (k.bus (intBitmap line)) = dev) (hid : deviceBaseAddr line dev ∈ deviceIds) :
    k.Served (deviceBaseAddr line dev) (k.dtpInterrupt line) ↔
      Completed k.bus (deviceBaseAddr line dev) ∧ k.CanNotify (deviceBaseAddr line dev) := by
  have hlt : dev < 8 := hd ▸ whichDevice_lt _
  have hdone : Completed k.bus (deviceBaseAddr line dev) := fun dev' hd' hm =>
    absurd hm (notMem_terminal hl h7 hlt dev' hd')
  have hne : deviceBaseAddr line dev ≠ k.ssiTcb := fun he =>
    (deviceIds_notMem hid).1 (he ▸ hssi)
  have hn : k.ssiTcb ≠ null := fun he => null_notMem_threadArray (he ▸ hssi)
  obtain ⟨hcan, hok⟩ := dtpInterrupt_spec line hk hn (by rw [hd]) hne
  simp only [hdone, true_and]
  constructor
  · rintro ⟨k', h, -⟩
    exact (hok k' h).1
  · intro hc
    obtain ⟨k', h⟩ := hcan hc
    exact ⟨k', h, (hok k' h).2⟩

theorem half_served (hk : Placed k) (hssi : k.ssiTcb ∈ threadArray)
    (hid : s ∈ deviceIds) : k.Served s (k.terminalHalf s (s + 4)) ↔ k.CanNotify s := by
  have hne : s ≠ k.ssiTcb := fun he => (deviceIds_notMem hid).1 (he ▸ hssi)
  have hn : k.ssiTcb ≠ null := fun he => null_notMem_threadArray (he ▸ hssi)
  obtain ⟨hcan, hok⟩ := terminalHalf_spec (s + 4) hk hn hne
  constructor
  · rintro ⟨k', h, -⟩
    exact (hok k' h).1
  · intro hc
    obtain ⟨k', h⟩ := hcan hc
    exact ⟨k', h, (hok k' h).2⟩

theorem terminal_served {dev : Nat} (hk : Placed k) (hssi : k.ssiTcb ∈ threadArray)
    (hs : Shows k.bus pend) (hd : whichDevice (k.bus (intBitmap intTerminal)) = dev)
    (hfind : (subDevices intTerminal dev).find? pend = some s) :
    k.Served s k.terminalInterrupt ↔ Completed k.bus s ∧ k.CanNotify s := by
  have hlt : dev < 8 := hd ▸ whichDevice_lt _
  have hids : deviceBaseAddr intTerminal dev ∈ deviceIds ∧
      deviceBaseAddr intTerminal dev + 8 ∈ deviceIds :=
    hd ▸ deviceBaseAddr_mem intTerminal (by decide) (k.bus (intBitmap intTerminal))
  have hadd : deviceBaseAddr intTerminal dev + 8 + 4 = deviceBaseAddr intTerminal dev + 0xC := by
    rw [BitVec.add_assoc]
    rfl
  have hstat : ∀ p ∈ subDevices intTerminal dev, k.bus p &&& statusMask = devTtrsSCharTrsm →
      pend p = true := by
    intro p hp hb
    rw [hs.status dev hlt p hp, idleStatus, hb]
    decide
  have hcompl : ∀ p ∈ subDevices intTerminal dev,
      (Completed k.bus p ↔ k.bus p &&& statusMask = devTtrsSCharTrsm) :=
    fun p hp => ⟨fun h => h dev hlt hp, fun h _ _ _ => h⟩
  have hnone : ∀ p, ¬ k.Served p (.ok k) := by
    rintro p ⟨k', he, -, hnot⟩
    cases he
    exact not_notified rfl rfl hnot
  have hrec : devTrcvSCharRecv = devTtrsSCharTrsm := rfl
  simp only [subDevices, if_true, List.mem_cons, List.not_mem_nil, or_false, forall_eq_or_imp,
    forall_eq] at hstat hcompl
  have hterm : k.terminalInterrupt =
      if k.bus (deviceBaseAddr intTerminal dev + 8) &&& statusMask = devTtrsSCharTrsm then
        k.terminalHalf (deviceBaseAddr intTerminal dev + 8) (deviceBaseAddr intTerminal dev + 0xC)
      else if k.bus (deviceBaseAddr intTerminal dev) &&& statusMask = devTtrsSCharTrsm then
        k.terminalHalf (deviceBaseAddr intTerminal dev) (deviceBaseAddr intTerminal dev + 4)
      else .ok k := by
    rw [← hd]
    rfl
  rw [hterm, ← hadd]
  simp only [subDevices, if_true, List.find?_cons, List.find?_nil] at hfind
  by_cases ht : k.bus (deviceBaseAddr intTerminal dev + 8) &&& statusMask = devTtrsSCharTrsm
  · rw [hstat.1 ht] at hfind
    cases hfind
    simp only [ht, if_true, hcompl.1, true_and]
    exact half_served hk hssi hids.2
  · rw [if_neg ht]
    cases hp : pend (deviceBaseAddr intTerminal dev + 8) with
    | true =>
      -- the transmitter has to be served, and its status is not the one the handler knows
      rw [hp] at hfind
      cases hfind
      simp only [hcompl.1, ht, false_and, iff_false]
      split
      · rintro ⟨k', h, -, hnot⟩
        have hn : k.ssiTcb ≠ null := fun he => null_notMem_threadArray (he ▸ hssi)
        have hne : deviceBaseAddr intTerminal dev ≠ k.ssiTcb := fun he =>
          (deviceIds_notMem hids.1).1 (he ▸ hssi)
        obtain ⟨-, -, hnot'⟩ := (terminalHalf_spec _ hk hn hne).2 k' h
        obtain ⟨ht0, ht8⟩ := terminal_ne_timer hlt
        exact terminal_halves dev (hnot.sender ht8 ht0 hnot')
      · exact hnone _
    | false =>
      rw [hp] at hfind
      simp only at hfind
      split at hfind
      · cases hfind
        by_cases hr : k.bus (deviceBaseAddr intTerminal dev) &&& statusMask = devTtrsSCharTrsm
        · simp only [hr, if_true, hcompl.2, true_and]
          exact half_served hk hssi hids.1
        · simp only [hr, if_false, hcompl.2, false_and, iff_false]
          exact hnone _
      · cases hfind

/-- The handler does its duty exactly when the part it has to serve has completed normally and the
SSI can be told. -/
theorem attends_iff (hk : Placed k) (hssi : k.ssiTcb ∈ threadArray) (hs : Shows k.bus pend)
    (hr : Raises old.cause pend) (hp : topDevice pend = some s) :
    k.Attends old pend ↔ Completed k.bus s ∧ k.CanNotify s := by
  obtain ⟨hq, hbus, hdev, hidx, -⟩ := intEnter_quiet k old
  have hplaced : Placed (k.intEnter old) := hk.of_perm (SamePlaces.quiet hq)
  have hssi' : (k.intEnter old).ssiTcb ∈ threadArray := hq.ssiTcb ▸ hssi
  have hserved : k.Attends old pend ↔
      (k.intEnter old).Served s ((k.intEnter old).lineInterrupt old.cause) := by
    unfold Attends Served
    simp only [intBody_eq, hbus, hdev, hidx, notified_quiet hq]
    constructor
    · rintro ⟨s', k', hs', h, hb, hnot⟩
      rw [hp] at hs'
      cases hs'
      obtain ⟨k₁, h₁, h₂⟩ := bind_eq_ok.mp h
      cases h₂
      exact ⟨k₁, h₁, hb, hnot⟩
    · rintro ⟨k₁, h₁, hb, hnot⟩
      exact ⟨s, { k₁ with intIndex := (k₁.intIndex + 1) % 48 }, hp,
        bind_eq_ok.mpr ⟨k₁, h₁, rfl⟩, hb, hnot⟩
  have hshows : Shows (k.intEnter old).bus pend := hbus ▸ hs
  obtain ⟨line, hl, hfind, hline⟩ := lineInterrupt_eq hshows hr hp
  rw [hserved, hline, ← hbus, ← canNotify_quiet hq]
  by_cases h7 : line = intTerminal
  · subst h7
    rw [if_pos rfl]
    exact terminal_served hplaced hssi' hshows rfl hfind
  · rw [if_neg h7]
    have hrange : 3 ≤ line ∧ line < 8 := by
      simp only [deviceLines, List.mem_cons, List.not_mem_nil, or_false] at hl
      rcases hl with rfl | rfl | rfl | rfl | rfl <;> decide
    obtain ⟨hid, -⟩ := deviceBaseAddr_mem line hrange ((k.intEnter old).bus (intBitmap line))
    simp only [subDevices, h7, if_false, List.find?_cons, List.find?_nil] at hfind
    split at hfind
    · cases hfind
      exact dtp_served hplaced hssi' hl h7 rfl hid
    · cases hfind

theorem setTimer_bus (slice : U32) : (k.setTimer slice).bus = k.bus := by
  unfold setTimer
  split <;> rfl

theorem dispatch_bus (p : Ptr) (rest : List Ptr) : (k.dispatch p rest).bus = k.bus := by
  simp only [dispatch, ldst, setTimer_bus, startTod, resetSlice, setTcb, updatePseudoTick, readTodlow]

theorem resumeCurrent_bus (k : Kernel) : k.resumeCurrent.bus = k.bus := by
  simp only [resumeCurrent, ldst, setTimer_bus, startTod, updatePseudoTick, readTodlow]

theorem scheduler_bus (h : k.scheduler = .ok k') : k'.bus = k.bus := by
  unfold scheduler at h
  repeat' split at h
  all_goals cases h
  · rfl
  · exact dispatch_bus _ _
  · exact resumeCurrent_bus k

/-- With nothing pending the handler leaves everything alone. -/
theorem lineInterrupt_none {cause : U32} (hr : Raises cause pend) (hp : topDevice pend = none) :
    k.lineInterrupt cause = .ok k := by
  have hline : ∀ line ∈ deviceLines, causeIpGet cause line = false := by
    intro line hl
    have hnone := List.findSome?_eq_none_iff.mp hp line hl
    rw [hr.line line hl, List.any_eq_false]
    intro d hd
    rw [← isSome_find?, List.findSome?_eq_none_iff.mp hnone d hd]
    simp
  simp only [deviceLines, List.forall_mem_cons] at hline
  obtain ⟨h3, h4, h5, h6, h7, -⟩ := hline
  simp [lineInterrupt, hr.timer, h3, h4, h5, h6, h7]

end Kernel

/-! Calls of the handler one after the other. -/

/-- All the parts of the devices of the machine. -/
def deviceParts : List Ptr :=
  deviceLines.flatMap fun line => (List.range 8).flatMap fun dev => subDevices line dev

theorem deviceParts_nodup : deviceParts.Nodup := by
  decide +kernel

theorem topDevice_some {pend : Ptr → Bool} {s : Ptr} (h : topDevice pend = some s) :
    s ∈ deviceParts ∧ pend s = true := by
  obtain ⟨line, hl, h⟩ := List.exists_of_findSome?_eq_some h
  obtain ⟨dev, hd, h⟩ := List.exists_of_findSome?_eq_some h
  have hm := List.mem_of_find?_eq_some h
  exact ⟨List.mem_flatMap.mpr ⟨line, hl, List.mem_flatMap.mpr ⟨dev, hd, hm⟩⟩, List.find?_some h⟩

theorem topDevice_none {pend : Ptr → Bool} (h : topDevice pend = none) :
    deviceParts.countP pend = 0 := by
  rw [List.countP_eq_zero]
  intro s hs
  obtain ⟨line, hl, hs⟩ := List.mem_flatMap.mp hs
  obtain ⟨dev, hd, hs⟩ := List.mem_flatMap.mp hs
  have hline := List.findSome?_eq_none_iff.mp h line hl
  exact List.find?_eq_none.mp (List.findSome?_eq_none_iff.mp hline dev hd) s hs

-- a search for the second instance would go through all the words
instance (bus : Ptr → U32) (pend : Ptr → Bool) : Decidable (Shows bus pend) :=
  have : ∀ dev, Decidable (∀ s ∈ subDevices intTerminal dev, pend s = !idleStatus (bus s)) :=
    fun _ => List.decidableBAll _ _
  decidable_of_iff (_ ∧ _) ⟨fun h => ⟨h.1, h.2⟩, fun h => ⟨h.bitmap, h.status⟩⟩

instance (cause : U32) (pend : Ptr → Bool) : Decidable (Raises cause pend) :=
  decidable_of_iff (_ ∧ _) ⟨fun h => ⟨h.1, h.2⟩, fun h => ⟨h.timer, h.line⟩⟩

namespace Machine

variable {m m' : Machine} {e : Event} {pend pend' : Ptr → Bool}

/-- History: the parts with an unacknowledged completion, when there are no new ones. -/
def acked (_ : Machine) (e : Event) (_ : Machine) (pend : Ptr → Bool) : Ptr → Bool :=
  match e with
  | .interrupt _ => match topDevice pend with
    | some s => put pend s false
    | none => pend
  | _ => pend

/-- The hardware: it raises the lines of the pending parts, an acknowledged part is not pending
any more, and nothing else changes what is pending. -/
def NoCompletion (m : Machine) (e : Event) (m' : Machine) (pend : Ptr → Bool) : Prop :=
  match e with
  | .interrupt old => Raises old.cause pend ∧
      ∀ s ∈ topDevice pend, Shows (m.k.device m.k.bus (s + 4) devCAck) (put pend s false)
  | _ => Shows m.k.bus pend → Shows m'.k.bus pend

/-- The part to be served has completed normally and the SSI can be told. -/
def Serves (m : Machine) (e : Event) (pend : Ptr → Bool) : Prop :=
  match e with
  | .interrupt _ => ∀ s ∈ topDevice pend, Kernel.Completed m.k.bus s ∧ m.k.CanNotify s
  | _ => True

instance (m m' : Machine) (pend : Ptr → Bool) : (e : Event) → Decidable (m.NoCompletion e m' pend)
  | .interrupt old =>
    have : Decidable (∀ s ∈ topDevice pend,
        Shows (m.k.device m.k.bus (s + 4) devCAck) (put pend s false)) := Option.decidableForallMem _
    inferInstanceAs (Decidable (Raises old.cause pend ∧ _))
  | .sysbp _ | .pgmtrap _ | .tlb _ | .ssi _ | .devices _ | .store _ _ | .edit _ _ =>
    inferInstanceAs (Decidable (_ → _))

instance (m : Machine) (pend : Ptr → Bool) : (e : Event) → Decidable (m.Serves e pend)
  | .interrupt _ =>
    have : Decidable (∀ s ∈ topDevice pend, Kernel.Completed m.k.bus s ∧ m.k.CanNotify s) :=
      Option.decidableForallMem _
    inferInstanceAs (Decidable (∀ s ∈ topDevice pend, _))
  | .sysbp _ | .pgmtrap _ | .tlb _ | .ssi _ | .devices _ | .store _ _ | .edit _ _ =>
    inferInstanceAs (Decidable True)

/-- A step with no new completions in which the handler finds a part it can serve. -/
def ServingStep (s : Machine × (Ptr → Bool)) (e : Event) (t : Machine × (Ptr → Bool)) : Prop :=
  withHistory Step acked s e t ∧ (s.1.NoCompletion e t.1 s.2 ∧ s.1.Serves e s.2)

def isInterrupt : Event → Bool
  | .interrupt _ => true
  | _ => false

/-- One step: what the registers show follows, and a call of the handler clears one part. -/
theorem acked_step (hw : m.Wf) (h : m.Step e m') (hno : m.NoCompletion e m' pend)
    (hserves : m.Serves e pend) (hs : Shows m.k.bus pend) :
    Shows m'.k.bus (acked m e m' pend) ∧
    deviceParts.countP (acked m e m' pend) =
      deviceParts.countP pend - if isInterrupt e then 1 else 0 := by
  cases e with
  | interrupt old =>
    obtain ⟨hr, hack⟩ := hno
    obtain ⟨k, hb, ⟨-, hk⟩ | ⟨hsch, -⟩⟩ := step_body h
    · have hbus := Kernel.scheduler_bus hk
      simp only [acked, isInterrupt, if_true]
      cases htop : topDevice pend with
      | none =>
        have hzero := topDevice_none htop
        obtain ⟨-, henter, -⟩ := Kernel.intEnter_quiet m.k old
        simp only [body, Kernel.intBody_eq, Kernel.lineInterrupt_none hr htop] at hb
        cases hb
        refine ⟨?_, by simp [hzero]⟩
        rw [hbus]
        simpa only [henter] using hs
      | some s =>
        obtain ⟨hmem, hp⟩ := topDevice_some htop
        obtain ⟨s', k', htop', hb', hbus', -⟩ :=
          (Kernel.attends_iff hw.placed hw.ssi hs hr htop).mpr (hserves s htop)
        rw [htop] at htop'
        cases htop'
        rw [show m.body (.interrupt old) = .ok k' from hb'] at hb
        cases hb
        have hcount := countP_put_false deviceParts_nodup hmem hp
        refine ⟨?_, by simp only; omega⟩
        rw [hbus, hbus']
        exact hack s htop
    · cases hsch
  | sysbp | pgmtrap | tlb | ssi | devices | store | edit => exact ⟨hno hs, rfl⟩

/-- The calls of the handler clear one pending part after the other. -/
theorem acked_run {s t : Machine × (Ptr → Bool)} {es : List Event} (hw : s.1.Wf)
    (hs : Shows s.1.k.bus s.2) (h : Run ServingStep s es t) :
    Shows t.1.k.bus t.2 ∧
    deviceParts.countP t.2 = deviceParts.countP s.2 - es.countP isInterrupt := by
  induction h with
  | refl => exact ⟨hs, rfl⟩
  | @stepL s e t es u hst _ ih =>
    obtain ⟨⟨hstep, hnote⟩, hno, hserves⟩ := hst
    obtain ⟨hshows, hcount⟩ := acked_step hw hstep hno hserves hs
    rw [← hnote] at hshows hcount
    obtain ⟨hshows', hcount'⟩ := ih (hw.step hstep) hshows
    refine ⟨hshows', ?_⟩
    rw [hcount', hcount, List.countP_cons]
    omega

/-- The handler acknowledges and reports the pending part of highest priority if and only if that
part has completed normally and the SSI can be told; where every call finds such a part, there are
none left after as many calls as there were pending parts. -/
theorem pending_acknowledged {es : List Event} (h : m.Initial) (hr : Run Step m es m') :
    (∀ old pend s, Shows m'.k.bus pend → Raises old.cause pend → topDevice pend = some s →
      (m'.k.Attends old pend ↔ Kernel.Completed m'.k.bus s ∧ m'.k.CanNotify s)) ∧
    ∀ fs t pend, Shows m'.k.bus pend → Run ServingStep (m', pend) fs t →
      Shows t.1.k.bus t.2 ∧
      deviceParts.countP t.2 = deviceParts.countP pend - fs.countP isInterrupt := by
  have hw := wf_of_run h hr
  constructor
  · intro old pend s hs hraise htop
    exact Kernel.attends_iff hw.placed hw.ssi hs hraise htop
  · intro fs t pend hs hrun
    exact acked_run hw hs hrun

/-- The registers when only terminal 0 has anything to show: the status of its two halves. -/
def terminalBus (trans recv : U32) : Ptr → U32 :=
  let base := deviceBaseAddr intTerminal 0
  put (put (put (fun _ => 0) (intBitmap intTerminal)
    (if idleStatus trans && idleStatus recv then 0 else 1)) base recv) (base + 8) trans

/-- Terminal 0: a half is ready again once it is acknowledged. -/
def terminalDevice (bus : Ptr → U32) (a : Ptr) (_ : U32) : Ptr → U32 :=
  let base := deviceBaseAddr intTerminal 0
  if a = base + 0xC then terminalBus 1 (bus base)
  else if a = base + 4 then terminalBus (bus (base + 8)) 1
  else bus

def terminalMachine : Kernel := { Kernel.zeroed with device := terminalDevice }

theorem terminalMachine_powerOn : terminalMachine.PowerOn :=
  ⟨Kernel.zeroed_powerOn.trapManagers, rfl, fun _ _ => rfl, fun _ _ => rfl, fun _ _ => rfl,
    fun _ _ _ _ => ⟨rfl, rfl⟩⟩

/-- The SSI waits for a message when the terminal shows these statuses. -/
def terminalTrace (trans recv : U32) : List Event :=
  Event.ssiCalls 2 ++ [.devices (terminalBus trans recv)]

def terminalInterrupt : Event := .interrupt { initTState with cause := 1 <<< (intTerminal + 8) }

def terminalPending (trans recv : Bool) : Ptr → Bool :=
  put (put (fun _ => false) (deviceBaseAddr intTerminal 0) recv)
    (deviceBaseAddr intTerminal 0 + 8) trans

/-- Both halves of a terminal have completed, and the handler is called twice. -/
theorem pending_acknowledged_terminal : ∃ m m' : Machine, ∃ t,
    m.Initial ∧ Run Step m (terminalTrace 5 5) m' ∧
    Run ServingStep (m', terminalPending true true) [terminalInterrupt, terminalInterrupt] t ∧
    (∃ old, m'.k.Attends old (terminalPending true true)) ∧ deviceParts.countP t.2 = 0 := by
  have hrun : passes (fun m => passes (fun m' =>
      decide (Shows m'.k.bus (terminalPending true true)) &&
      decide (m'.Serves terminalInterrupt (terminalPending true true)) &&
      passes (fun _ => true) (exec (guarded (fun s e t => s.1.NoCompletion e t.1 s.2 ∧
        s.1.Serves e s.2) Stop.fault (execWith fire acked)) (m', terminalPending true true)
          [terminalInterrupt, terminalInterrupt]))
      (exec fire m (terminalTrace 5 5))) (start terminalMachine) = true := by
    decide +kernel
  obtain ⟨m, hm, hrun⟩ := exists_of_passes hrun
  obtain ⟨m', hs, hrun⟩ := exists_of_passes hrun
  simp only [Bool.and_eq_true, decide_eq_true_eq] at hrun
  obtain ⟨⟨hshows, hserves⟩, hrun⟩ := hrun
  obtain ⟨t, ht, -⟩ := exists_of_passes hrun
  have hi := initial_of_start terminalMachine_powerOn hm
  have hr : Run Step m (terminalTrace 5 5) m' := (run_of_exec hs).mono fun _ _ _ => step_of_fire
  have hserving : Run ServingStep (m', terminalPending true true)
      [terminalInterrupt, terminalInterrupt] t := run_of_guarded (fun _ _ _ => step_of_fire) ht
  obtain ⟨hattends, hclear⟩ := pending_acknowledged hi hr
  have htop : topDevice (terminalPending true true) =
      some (deviceBaseAddr intTerminal 0 + 8) := by
    decide +kernel
  have hraises : Raises (1 <<< (intTerminal + 8)) (terminalPending true true) := by
    decide +kernel
  refine ⟨m, m', t, hi, hr, hserving, ⟨{ initTState with cause := _ },
    (hattends _ _ _ hshows hraises htop).mpr (hserves _ htop)⟩, ?_⟩
  rw [(hclear _ t _ hshows hserving).2]
  decide +kernel

/-- A character that could not be transmitted: the handler returns and the interrupt stays. -/
theorem pending_unacknowledged : ¬ ∀ (m m' : Machine) (es : List Event) (old : State) pend s,
    m.Initial → Run Step m es m' → Shows m'.k.bus pend → Raises old.cause pend →
    topDevice pend = some s → m'.k.Attends old pend := by
  intro hall
  have hrun : passes (fun m => passes (fun m' =>
      decide (Shows m'.k.bus (terminalPending true false)) &&
      decide (¬ m'.Serves terminalInterrupt (terminalPending true false)))
      (exec fire m (terminalTrace 4 1))) (start terminalMachine) = true := by
    decide +kernel
  obtain ⟨m, hm, hrun⟩ := exists_of_passes hrun
  obtain ⟨m', hs, hrun⟩ := exists_of_passes hrun
  simp only [Bool.and_eq_true, decide_eq_true_eq] at hrun
  obtain ⟨hshows, hserves⟩ := hrun
  have hi := initial_of_start terminalMachine_powerOn hm
  have hr : Run Step m (terminalTrace 4 1) m' := (run_of_exec hs).mono fun _ _ _ => step_of_fire
  have htop : topDevice (terminalPending true false) =
      some (deviceBaseAddr intTerminal 0 + 8) := by
    decide +kernel
  have hraises : Raises (1 <<< (intTerminal + 8)) (terminalPending true false) := by
    decide +kernel
  have hw := wf_of_run hi hr
  have hattends := hall m m' _ { initTState with cause := _ } _ _ hi hr hshows hraises htop
  have hok := (Kernel.attends_iff hw.placed hw.ssi hshows hraises htop).mp hattends
  apply hserves
  intro s' hs'
  rw [Option.mem_def, htop] at hs'
  cases hs'
  exact hok

end Machine

end AmiKaya
