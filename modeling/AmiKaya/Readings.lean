import AmiKaya.Preemption
import Mathlib.Order.Monotone.Basic

/-! The readings of the clock, and the variables of the kernel they end up in. -/
namespace AmiKaya
open Lts

/-- The variables that depend on the clock, with the readings still to come. -/
@[ext]
structure Times where
  cpuTime : Ptr → U32
  cpuSlice : Ptr → U32
  currentThreadTod : U32
  pseudoTick : U32
  startPseudoTick : U32
  todlow : Nat → U32
  timescale : U32

def Kernel.times (k : Kernel) : Times where
  cpuTime p := (k.tcb p).cpuTime
  cpuSlice p := (k.tcb p).cpuSlice
  currentThreadTod := k.currentThreadTod
  pseudoTick := k.pseudoTick
  startPseudoTick := k.startPseudoTick
  todlow := k.todlow
  timescale := k.timescale

namespace Times

variable {t : Times} {p : Ptr}

/-- The reading after `n` others, in microseconds. -/
def tod (t : Times) (n : Nat) : Nat := (t.todlow n / t.timescale).toNat

def getTodlow (t : Times) : U32 := t.todlow 0 / t.timescale

def readTodlow (t : Times) : Times := { t with todlow := fun n => t.todlow (n + 1) }

def chargeSlice (t : Times) (p : Ptr) : Times :=
  { t.readTodlow with
    cpuSlice := put t.cpuSlice p (t.cpuSlice p + (t.getTodlow - t.currentThreadTod)) }

def chargeTime (t : Times) (p : Ptr) : Times :=
  { t.readTodlow with
    cpuTime := put t.cpuTime p (t.cpuTime p + (t.getTodlow - t.currentThreadTod)) }

def charge (t : Times) (p : Ptr) : Times := (t.chargeSlice p).chargeTime p

def restartTick (t : Times) : Times := { t.readTodlow with startPseudoTick := t.getTodlow }

def update (t : Times) : Times :=
  { t.readTodlow with
    pseudoTick := t.pseudoTick + (t.getTodlow - t.startPseudoTick) }.restartTick

/-- The pseudo clock ticks when its period is over. -/
def tick (t : Times) : Times :=
  if schedPseudoClock ≤ t.pseudoTick then { t with pseudoTick := 0 }.restartTick else t

def load (t : Times) : Times := { t.readTodlow with currentThreadTod := t.getTodlow }

def newSlice (t : Times) (p : Ptr) : Times := { t with cpuSlice := put t.cpuSlice p 0 }

def birth (t : Times) (p : Ptr) : Times := { t.newSlice p with cpuTime := put t.cpuTime p 0 }

/-- The thread that is born, if there is one. -/
def births (t : Times) : Option Ptr → Times
  | some p => t.birth p
  | none => t

@[simp] theorem charge_tod (n : Nat) : (t.charge p).tod n = t.tod (n + 2) := rfl

@[simp] theorem update_tod (n : Nat) : t.update.tod n = t.tod (n + 2) := rfl

@[simp] theorem load_tod (n : Nat) : t.load.tod n = t.tod (n + 1) := rfl

@[simp] theorem newSlice_tod (n : Nat) : (t.newSlice p).tod n = t.tod n := rfl

@[simp] theorem births_tod (n : Nat) (o : Option Ptr) : (t.births o).tod n = t.tod n := by
  cases o <;> rfl

/-- The readings that come later are no smaller. -/
theorem shift_mono {f g : Nat → Nat} {d : Nat} (hm : Monotone f) (hg : ∀ n, g n = f (n + d)) :
    Monotone g ∧ f 0 ≤ g 0 := by
  refine ⟨?_, ?_⟩
  · intro i j hij
    rw [hg, hg]
    exact hm (by omega)
  · rw [hg]
    exact hm (by omega)

theorem tick_tod : ∃ d, ∀ n, t.tick.tod n = t.tod (n + d) := by
  unfold tick
  split
  · exact ⟨1, fun _ => rfl⟩
  · exact ⟨0, fun _ => rfl⟩

/-- The time since `tod` is added without a carry when the sum is a moment in time. -/
theorem toNat_charged {c now tod : U32} (h : tod.toNat ≤ now.toNat)
    (hs : c.toNat + (now.toNat - tod.toNat) < 2 ^ 32) :
    (c + (now - tod)).toNat = c.toNat + (now.toNat - tod.toNat) := by
  bv_omega

end Times

/-! Message passing, termination and the queues do not touch them. -/
namespace Kernel

variable {k k' : Kernel} {s t : Ptr} {f : Tcb → Tcb}

theorem times_setTcb (hf : ∀ x : Tcb, (f x).cpuTime = x.cpuTime ∧ (f x).cpuSlice = x.cpuSlice) :
    (k.setTcb t f).times = k.times := by
  have hput : ∀ p, ((k.setTcb t f).tcb p).cpuTime = (k.tcb p).cpuTime ∧
      ((k.setTcb t f).tcb p).cpuSlice = (k.tcb p).cpuSlice := by
    intro p
    by_cases hp : p = t
    · subst hp
      simpa [setTcb] using hf (k.tcb p)
    · simp [setTcb, hp]
  have htime : (k.setTcb t f).times.cpuTime = k.times.cpuTime := funext fun p => (hput p).1
  have hslice : (k.setTcb t f).times.cpuSlice = k.times.cpuSlice := funext fun p => (hput p).2
  exact Times.ext htime hslice rfl rfl rfl rfl rfl

theorem times_setState (g : Tcb → State) :
    (k.setTcb t fun x => { x with tState := g x }).times = k.times :=
  times_setTcb fun _ => ⟨rfl, rfl⟩

theorem times_enqueue {v : U32} (h : k.enqueue s t v = .ok k') : k'.times = k.times := by
  obtain ⟨a, free, -, rfl⟩ := enqueue_cases h
  have hset := times_setTcb (k := k) (t := t) (f := fun x => { x with tInbox := queued s x.tInbox ⟨a, s, v⟩ })
    fun _ => ⟨rfl, rfl⟩
  exact hset

theorem times_send {v r : U32} (h : k.send s t v = .ok (r, k')) : k'.times = k.times := by
  rcases send_cases h with ⟨-, -, he⟩ | ⟨-, -, -, -, -, -, -, rfl⟩ | ⟨-, -, -, -, -, -, he⟩ |
    ⟨-, -, -, rfl⟩
  · exact times_enqueue he
  · have hset := times_setTcb (k := k) (t := t) (f := fun x => { x with
      waitingFor := notWaiting, reply := notWaiting, tState := x.tState.setV0 (k.senderId s) })
      fun _ => ⟨rfl, rfl⟩
    exact hset
  · exact times_enqueue he
  · rfl

theorem times_reap (h : k.reap t = .ok k') : k'.times = k.times := by
  have hset :=
    times_setTcb (k := k) (t := t) (f := fun x => { x with tInbox := [] }) fun _ => ⟨rfl, rfl⟩
  rcases reap_cases h with ⟨-, rfl⟩ | ⟨-, -, -, -, rfl⟩
  · exact hset
  · exact hset

theorem times_terminate (h : k.terminate t = .ok k') : k'.times = k.times := by
  have hdetach : ∀ (k : Kernel) p, (k.setTcb p fun x => { x with tParent := null }).times = k.times :=
    fun _ _ => times_setTcb fun _ => ⟨rfl, rfl⟩
  obtain ⟨k₁, h₁, h₂⟩ := terminate_cases (R := fun k k' => k'.times = k.times) (fun _ => rfl)
    (fun _ _ _ h h' => h'.trans h) hdetach (fun _ _ _ _ hr => times_reap hr) h
  exact (times_reap h₂).trans h₁

theorem times_storeWord {a : Ptr} {v : U32} (h : k.storeWord a v = .ok k') :
    k'.times = k.times := by
  obtain ⟨-, rfl⟩ := storeWord_cases h
  rfl

theorem times_passUp {m : Ptr} {cause : U32} (h : k.passUp m cause = .ok k') :
    k'.times = k.times := by
  unfold passUp at h
  split at h
  · obtain ⟨k₁, h₁, h₂⟩ := bind_eq_ok.mp h
    cases h₂
    have hterm : k₁.times = k.times := times_terminate h₁
    exact hterm
  · obtain ⟨⟨r, k₁⟩, h₁, h₂⟩ := bind_eq_ok.mp h
    cases h₂
    have hset := times_setTcb (k := k₁) (t := k₁.currentThread) (f := fun x => { x with waitingFor := m })
      fun _ => ⟨rfl, rfl⟩
    exact Eq.trans hset (times_send h₁)

theorem times_sysSendCase {old : State} (h : k.sysSendCase old = .ok k') : k'.times = k.times := by
  obtain ⟨k₁, hk₁, h⟩ := sysSendCase_cases h
  have hin : k₁.times = k.times := by
    rw [hk₁]
    split <;> rfl
  refine Eq.trans ?_ hin
  rcases h with ⟨-, -, h | h⟩ | h
  · exact times_terminate h
  · obtain ⟨-, -, rfl⟩ := continueTrapped_cases h
    rfl
  · obtain ⟨⟨r, k₂⟩, h₁, h₂⟩ := bind_eq_ok.mp h
    cases h₂
    exact (times_setState _).trans (times_send h₁)

theorem times_sysRecvCase {old : State} (h : k.sysRecvCase old = .ok k') : k'.times = k.times := by
  obtain ⟨⟨r, k₁⟩, h₁, h₂⟩ := bind_eq_ok.mp h
  cases h₂
  refine (times_setState _).trans ?_
  rcases recv_cases h₁ with ⟨-, -, rfl⟩ | ⟨m, rest, -, -, -, rfl⟩
  · have hset := times_setTcb (k := k) (t := k.currentThread) (f := fun x => { x with
      waitingFor := old.regA1, reply := old.regA2 }) fun _ => ⟨rfl, rfl⟩
    exact hset
  · have hset := times_setTcb (k := k) (t := k.currentThread) (f := fun x => { x with tInbox := rest })
      fun _ => ⟨rfl, rfl⟩
    exact hset

/-! The handlers and the scheduler, with the readings they make. -/

theorem times_chargeCpu : k.chargeCpu.times = k.times.charge k.currentThread := by
  have hput : ∀ p, ((k.chargeCpu.tcb p).cpuTime = (k.times.charge k.currentThread).cpuTime p) ∧
      (k.chargeCpu.tcb p).cpuSlice = (k.times.charge k.currentThread).cpuSlice p := by
    intro p
    by_cases hp : p = k.currentThread
    · subst hp
      simp [chargeCpu, chargeTime, chargeSlice, setTcb, readTodlow, getTodlow, times, Times.charge,
        Times.chargeTime, Times.chargeSlice, Times.readTodlow, Times.getTodlow]
    · simp [chargeCpu, chargeTime, chargeSlice, setTcb, readTodlow, times, Times.charge,
        Times.chargeTime, Times.chargeSlice, Times.readTodlow, hp]
  have htime : k.chargeCpu.times.cpuTime = _ := funext fun p => (hput p).1
  have hslice : k.chargeCpu.times.cpuSlice = _ := funext fun p => (hput p).2
  exact Times.ext htime hslice rfl rfl rfl rfl rfl

theorem times_enter (old : State) : (k.enter old).times = k.times.charge k.currentThread := by
  have hset :=
    times_setState (k := k.chargeCpu) (t := k.chargeCpu.currentThread) fun _ => saveState old
  exact Eq.trans hset times_chargeCpu

theorem times_sysbpEnter (old : State) :
    (k.sysbpEnter old).times = k.times.charge k.currentThread :=
  (times_setState _).trans (times_enter old)

theorem times_sysbpBody {old : State} (h : k.sysbpBody old = .ok k') :
    k'.times = k.times.charge k.currentThread := by
  rw [sysbpBody_eq] at h
  refine Eq.trans ?_ (times_sysbpEnter old)
  split at h
  · exact times_sysSendCase h
  · split at h
    · exact times_sysRecvCase h
    · exact times_passUp h

theorem times_notifySsi (h : k.notifySsi s = .ok k') : k'.times = k.times := by
  obtain ⟨⟨r, k₁⟩, h₁, h₂⟩ := bind_eq_ok.mp h
  split at h₂
  · cases h₂
  · cases h₂
    exact times_send h₁

theorem times_pseudoClockTick (h : k.pseudoClockTick = .ok k') : k'.times = k.times.tick := by
  unfold pseudoClockTick at h
  unfold Times.tick
  have hpseudo : k.times.pseudoTick = k.pseudoTick := rfl
  rw [hpseudo]
  split at h
  · next hdue =>
    obtain ⟨k₁, h₁, h₂⟩ := bind_eq_ok.mp h
    cases h₂
    have hfill : (k.fillSlot pseudoClockMsg 0).times = k.times := rfl
    have hnotify : k₁.times = k.times := (times_notifySsi h₁).trans hfill
    rw [if_pos hdue, ← hnotify]
    rfl
  · next hdue =>
    have hk := Except.ok.inj h
    rw [← hk, if_neg hdue]

theorem times_sliceEnd : k.sliceEnd.times = k.times := by
  unfold sliceEnd
  split
  · rfl
  · simp only [times]

theorem times_timerInterrupt (h : k.timerInterrupt = .ok k') : k'.times = k.times.update.tick := by
  obtain ⟨k₁, h₁, h₂⟩ := bind_eq_ok.mp h
  cases h₂
  have hupdate : k.updatePseudoTick.times = k.times.update := rfl
  rw [times_sliceEnd, times_pseudoClockTick h₁, hupdate]

theorem times_dtpInterrupt {line : Nat} (h : k.dtpInterrupt line = .ok k') :
    k'.times = k.times := by
  unfold dtpInterrupt at h
  dsimp only at h
  exact (times_notifySsi h).trans rfl

theorem times_terminalHalf {status command : Ptr} (h : k.terminalHalf status command = .ok k') :
    k'.times = k.times := by
  obtain ⟨k₁, h₁, h₂⟩ := bind_eq_ok.mp h
  cases h₂
  exact (times_notifySsi (k := k.fillSlot interruptMsg (k.bus status)) h₁).trans rfl

theorem times_terminalInterrupt (h : k.terminalInterrupt = .ok k') : k'.times = k.times := by
  unfold terminalInterrupt at h
  dsimp only at h
  split at h
  · exact times_terminalHalf h
  · split at h
    · exact times_terminalHalf h
    · cases h
      rfl

/-- Only the timer interrupt reads the clock. -/
theorem times_lineInterrupt {cause : U32} (h : k.lineInterrupt cause = .ok k') :
    k'.times = if causeIpGet cause intTimer then k.times.update.tick else k.times := by
  unfold lineInterrupt at h
  split at h
  · next htimer =>
    rw [if_pos htimer]
    exact times_timerInterrupt h
  next htimer =>
  rw [if_neg htimer]
  split at h
  · exact times_dtpInterrupt h
  split at h
  · exact times_dtpInterrupt h
  split at h
  · exact times_dtpInterrupt h
  split at h
  · exact times_dtpInterrupt h
  split at h
  · exact times_terminalInterrupt h
  · cases h
    rfl

theorem times_intBody {old : State} (h : k.intBody old = .ok k') :
    k'.times = (if causeIpGet old.cause intTimer
      then (if k.currentThread ≠ null then k.times.charge k.currentThread else k.times).update.tick
      else if k.currentThread ≠ null then k.times.charge k.currentThread else k.times) := by
  obtain ⟨k₁, h₁, h₂⟩ := bind_eq_ok.mp h
  cases h₂
  have henter : (if k.currentThread ≠ null then k.enter old else k).times =
      if k.currentThread ≠ null then k.times.charge k.currentThread else k.times := by
    split
    · exact times_enter old
    · rfl
  rw [← henter]
  have hline : k₁.times = _ := times_lineInterrupt h₁
  exact hline

theorem times_setTimer (slice : U32) : (k.setTimer slice).times = k.times := by
  unfold setTimer
  split
  · simp only [times]
  · simp only [times]

theorem times_resetSlice : k.resetSlice.times = k.times.newSlice k.currentThread := by
  have hput : ∀ p, (k.resetSlice.tcb p).cpuTime = (k.tcb p).cpuTime ∧
      (k.resetSlice.tcb p).cpuSlice = (k.times.newSlice k.currentThread).cpuSlice p := by
    intro p
    by_cases hp : p = k.currentThread
    · subst hp
      simp [resetSlice, setTcb, Times.newSlice]
    · simp [resetSlice, setTcb, Times.newSlice, times, hp]
  have htime : k.resetSlice.times.cpuTime = k.times.cpuTime := funext fun p => (hput p).1
  have hslice : k.resetSlice.times.cpuSlice = (k.times.newSlice k.currentThread).cpuSlice :=
    funext fun p => (hput p).2
  exact Times.ext htime hslice rfl rfl rfl rfl rfl

theorem times_dispatch (p : Ptr) (rest : List Ptr) :
    (k.dispatch p rest).times = (k.times.update.newSlice p).load := by
  obtain ⟨k₁, hk₁⟩ : ∃ k₁, k₁ = ({ k with currentThread := p, readyQueue := rest }).updatePseudoTick :=
    ⟨_, rfl⟩
  have hupdate : k₁.times = k.times.update := by
    rw [hk₁]
    rfl
  have hcur : k₁.currentThread = p := by
    rw [hk₁]
    rfl
  have hload : k₁.resetSlice.startTod.times = k₁.resetSlice.times.load := rfl
  have hdispatch : k.dispatch p rest = (k₁.resetSlice.startTod.setTimer schedTimeSlice).ldst := by
    rw [hk₁]
    rfl
  have hldst : ∀ k : Kernel, k.ldst.times = k.times := fun _ => rfl
  rw [hdispatch, hldst, times_setTimer, hload, times_resetSlice, hupdate, hcur]

/-- The processor waits, or a thread is loaded, with a new slice if it was not on the processor. -/
theorem times_scheduler (hk : Placed k) (h : k.scheduler = .ok k') :
    k'.currentThread = null ∧ k'.times = k.times ∨
    k'.currentThread ≠ null ∧ ∃ t, (t = k.times.update ∨ t = k.times.update.newSlice k'.currentThread) ∧
      k'.times = t.load := by
  unfold scheduler at h
  split at h
  · next hc =>
    split at h
    · repeat' split at h
      all_goals cases h
      exact .inl ⟨hc, rfl⟩
    · next p rest hr =>
      cases h
      have hcur : (k.dispatch p rest).currentThread = p := (Quiet.dispatch p rest).currentThread
      have hp : p ≠ null := hk.ne_null (mem_places.mpr (.inl (by simp [hr])))
      rw [hcur]
      exact .inr ⟨hp, _, .inr rfl, times_dispatch p rest⟩
  · next hc =>
    cases h
    have hcur : k.resumeCurrent.currentThread = k.currentThread := Quiet.resumeCurrent.currentThread
    rw [hcur]
    exact .inr ⟨hc, _, .inl rfl, times_setTimer _⟩

/-- `main` makes one reading; nothing has been charged to the two threads. -/
structure BootTimes (k : Kernel) (t : Times) : Prop where
  cpuTime : ∀ p ∈ [threadArrayAddr, testThreadAddr], t.cpuTime p = 0
  cpuSlice : ∀ p ∈ [threadArrayAddr, testThreadAddr], t.cpuSlice p = 0
  pseudoTick : t.pseudoTick = 0
  startPseudoTick : t.startPseudoTick = k.times.getTodlow
  tod : ∀ n, t.tod n = k.times.tod (n + 1)

/-- Then the scheduler loads the SSI. -/
theorem times_main (hm : k.main = .ok k') : ∃ t, k.BootTimes t ∧
    k'.times = (t.update.newSlice threadArrayAddr).load := by
  have hne : threadArrayAddr ≠ null ∧ testThreadAddr ≠ null := by decide
  have hne' : threadArrayAddr ≠ testThreadAddr := by decide
  obtain ⟨k₁, hb, hs⟩ := bind_eq_ok.mp hm
  unfold boot at hb
  dsimp only at hb
  rw [bootThread_eq _ _ threadArray_eq hne.1] at hb
  dsimp only [bind, Except.bind] at hb
  rw [bootThread_eq _ _ rfl hne.2] at hb
  have hk := Except.ok.inj hb
  have hcur : k₁.currentThread = null := by rw [← hk]; rfl
  have hready : k₁.readyQueue = [threadArrayAddr, testThreadAddr] := by rw [← hk]; rfl
  refine ⟨k₁.times, ?_, ?_⟩
  · rw [← hk]
    refine ⟨?_, ?_, rfl, rfl, fun _ => rfl⟩
    · simp [times, readTodlow, freshTcb, hne']
    · simp [times, readTodlow, freshTcb, hne']
  · unfold scheduler at hs
    rw [if_pos hcur, hready] at hs
    cases hs
    exact times_dispatch _ _

end Kernel

namespace Machine

variable {m m' : Machine} {e : Event} {k : Kernel} {p : Ptr}

/-- The handler of the event charges the thread it finds on the processor. -/
def charges (m : Machine) : Event → Bool
  | .interrupt _ => m.k.currentThread ≠ null
  | e => m.schedules e

/-- An interrupt of the interval timer. -/
def isTimer : Event → Bool
  | .interrupt old => causeIpGet old.cause intTimer
  | _ => false

/-- The TCB the SSI allocates with the event. -/
def born (m : Machine) : Event → Option Ptr
  | .ssi _ => match m.ssi.call m.k with
    | .allocTcb => m.k.tcbFree.head?
    | _ => none
  | _ => none

/-- After the charge at the entry of the kernel. -/
def entryTimes (m : Machine) (e : Event) : Times :=
  if m.charges e then m.k.times.charge m.k.currentThread else m.k.times

/-- At the end of the handler, before the scheduler. -/
def bodyTimes (m : Machine) (e : Event) : Times :=
  (if isTimer e then (m.entryTimes e).update.tick else m.entryTimes e).births (m.born e)

theorem times_allocTcb (k : Kernel) : k.allocTcb.2.times = k.times.births k.tcbFree.head? := by
  unfold Kernel.allocTcb
  split
  · next hf =>
    rw [hf]
    rfl
  · next p free hf =>
    rw [hf, List.head?_cons]
    have hput : ∀ q, ((k.setTcb p fun _ => Kernel.freshTcb).tcb q).cpuTime = (k.times.birth p).cpuTime q ∧
        ((k.setTcb p fun _ => Kernel.freshTcb).tcb q).cpuSlice = (k.times.birth p).cpuSlice q := by
      intro q
      by_cases hq : q = p
      · subst hq
        simp [Kernel.setTcb, Kernel.freshTcb, Times.birth, Times.newSlice]
      · simp [Kernel.setTcb, Times.birth, Times.newSlice, Kernel.times, hq]
    have htime := funext fun q => (hput q).1
    have hslice := funext fun q => (hput q).2
    exact Times.ext htime hslice rfl rfl rfl rfl rfl

/-- A call of the SSI that does not end in the scheduler. -/
theorem perform_times {old : State} {r : U32} (h : m.k.perform old (m.ssi.call m.k) = .ok (r, k))
    (hc : m.schedules (.ssi old) = false) : k.times = m.bodyTimes (.ssi old) := by
  have hentry : m.entryTimes (.ssi old) = m.k.times := if_neg (by simp [charges, hc])
  have hbody : m.bodyTimes (.ssi old) = m.k.times.births (m.born (.ssi old)) := by
    rw [bodyTimes, hentry]
    rfl
  rw [hbody]
  simp only [schedules, born] at hc ⊢
  cases hcall : m.ssi.call m.k <;> rw [hcall] at h hc
  case msgRecv | msgSend => cases hc
  case allocTcb =>
    have hk : m.k.allocTcb.2 = k := congrArg Prod.snd (Except.ok.inj h)
    rw [← hk]
    exact times_allocTcb m.k
  case insertChild q c =>
    simp only [Kernel.perform] at h
    split at h
    · cases h
    · cases h
      exact Kernel.times_setTcb (k := m.k) (t := c) (f := fun t => { t with tParent := q }) fun _ => ⟨rfl, rfl⟩
  case insertSibling =>
    simp only [Kernel.perform] at h
    split at h
    · cases h
    · cases h
      rfl
  case terminate =>
    obtain ⟨k₁, h₁, h₂⟩ := bind_eq_ok.mp h
    cases h₂
    exact Kernel.times_terminate h₁
  case copyState =>
    obtain ⟨-, rfl⟩ := Kernel.perform_copyState h
    exact Kernel.times_setState _
  case inherit =>
    cases h
    exact Kernel.times_setTcb fun _ => ⟨rfl, rfl⟩
  case setManager x q n =>
    cases h
    exact Kernel.times_setTcb fun t => by cases x <;> exact ⟨rfl, rfl⟩
  case panic | fault => cases h
  all_goals
    cases h
    rfl

/-- What an event does to the times, the scheduler apart. -/
theorem body_times (h : m.body e = .ok k) : k.times = m.bodyTimes e := by
  cases e with
  | sysbp old => exact Kernel.times_sysbpBody h
  | pgmtrap old | tlb old => exact (Kernel.times_passUp h).trans (Kernel.times_enter old)
  | interrupt old =>
    rw [Kernel.times_intBody h]
    simp [bodyTimes, entryTimes, charges, isTimer, born, Times.births]
  | devices bus =>
    cases h
    rfl
  | store a v => exact Kernel.times_storeWord h
  | edit p s =>
    cases h
    exact Kernel.times_setState _
  | ssi old =>
    cases hc : m.schedules (.ssi old) with
    | false =>
      obtain ⟨r, hperf⟩ := perform_of_body h hc
      exact perform_times hperf hc
    | true =>
      have hentry : m.entryTimes (.ssi old) = m.k.times.charge m.k.currentThread := if_pos hc
      rw [bodyTimes, hentry]
      simp only [schedules, body, born] at hc h ⊢
      cases hcall : m.ssi.call m.k <;> rw [hcall] at hc h
      case msgRecv | msgSend => exact Kernel.times_sysbpBody h
      all_goals cases hc

/-- What a step does to the times: the handler, then a load by the scheduler if it finds a thread.
-/
theorem step_times (hw : m.Wf) (h : m.Step e m') :
    (m.schedules e = false ∨ m'.k.currentThread = null) ∧ m'.k.times = m.bodyTimes e ∨
    m.schedules e = true ∧ m'.k.currentThread ≠ null ∧
      ∃ t, (t = (m.bodyTimes e).update ∨ t = (m.bodyTimes e).update.newSlice m'.k.currentThread) ∧
        m'.k.times = t.load := by
  obtain ⟨k, hb, ⟨hs, hk⟩ | ⟨hs, hk⟩⟩ := step_body h
  · have hplaced : Placed k := hw.placed.ops (body_ops hw h.1 hb)
    rw [← body_times hb]
    rcases Kernel.times_scheduler hplaced hk with ⟨hn, ht⟩ | ⟨hn, ht⟩
    · exact .inl ⟨.inr hn, ht⟩
    · exact .inr ⟨hs, hn, ht⟩
  · exact .inl ⟨.inl hs, hk ▸ body_times hb⟩

/-- The machine when `main` leaves the kernel, started from the memory image `k`. -/
structure BootsFrom (m : Machine) (k : Kernel) : Prop where
  powerOn : k.PowerOn
  main : k.main = .ok m.k
  pc : m.ssi.pc = .init

theorem BootsFrom.initial {k : Kernel} (h : m.BootsFrom k) :
    m.Initial := ⟨⟨k, h.powerOn, h.main⟩, h.pc⟩

theorem bootsFrom_of_start {k : Kernel} (hk : k.PowerOn) (hm : start k = .ok m) :
    m.BootsFrom k := by
  obtain ⟨k', h₁, h₂⟩ := bind_eq_ok.mp hm
  cases h₂
  exact ⟨hk, h₁, rfl⟩

end Machine

/-- A memory image on a machine where each reading of the clock is 3 ms after the one before, until
it stops after 3 s. -/
def steadyClock : Kernel :=
  { Kernel.zeroed with todlow := fun n => BitVec.ofNat 32 (3000 * min n 1000) }

theorem steadyClock_powerOn : steadyClock.PowerOn :=
  ⟨Kernel.zeroed_powerOn.trapManagers, rfl, fun _ _ => rfl, fun _ _ => rfl, fun _ _ => rfl,
    fun _ _ _ _ => ⟨rfl, rfl⟩⟩

theorem steadyClock_mono : Monotone steadyClock.times.tod := by
  have htod : ∀ n, steadyClock.times.tod n = 3000 * min n 1000 := by
    intro n
    have hdiv : (BitVec.ofNat 32 (3000 * min n 1000) / (1 : U32)).toNat = 3000 * min n 1000 := by
      rw [BitVec.toNat_udiv, BitVec.toNat_ofNat]
      have hone : (1 : U32).toNat = 1 := rfl
      rw [hone]
      omega
    exact hdiv
  intro i j hij
  rw [htod, htod]
  omega

end AmiKaya
