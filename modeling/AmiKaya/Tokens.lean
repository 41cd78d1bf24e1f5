import AmiKaya.Dispatch
import AmiKaya.Posting

/-! Whose answer an `SSIRequest` returns with. Neither a request nor an answer carries a number, so
history numbers the requests and follows each to its answer. -/
namespace AmiKaya
open Lts

/-- Where a request can be, or its answer: in a message buffer, with the SSI, in a slot of one of
its two arrays. -/
inductive Token
  | asked (b : Ptr)
  | served
  | dev (i : Nat)
  | clock (i : Nat)
  | answer (b : Ptr)

/-- Where a request goes when the SSI takes the message in buffer `a`. -/
def Token.taken (a : Ptr) : Token → Token
  | .asked b => if b = a then .served else .asked b
  | t => t

namespace Ssi

variable {s : Ssi} {k : Kernel} {r : U32} {p : Ptr} {i : Nat}

/-- The request being served has not been answered. A creation without a TCB is answered at once,
and goes on to a fault. -/
def owes (s : Ssi) : Bool :=
  match s.pc with
  | .waitIoClear => false
  | .readParent | .link _ => s.newThread ≠ null
  | _ => true

/-- The request that the next message of the SSI answers. -/
def source (s : Ssi) : Token :=
  match s.pc with
  | .clock i => .clock i
  | .interrupt => match s.deviceNum with
    | some d => .dev d
    | none => .served
  | _ => .served

/-- What the SSI knows at some of its program points. -/
structure Sure (s : Ssi) : Prop where
  index : s.pc = .waitIo ∨ s.pc = .interrupt → ∀ d ∈ s.deviceNum, d < 48
  refused : ∀ c, s.pc = .noGood c → s.newThread = null

theorem Sure.of_pc (hw : s.pc ≠ .waitIo ∧ s.pc ≠ .interrupt) (hn : ∀ c, s.pc ≠ .noGood c) :
    s.Sure :=
  ⟨fun h => (h.elim hw.1 hw.2).elim, fun c h => absurd h (hn c)⟩

theorem Sure.dispatch : (s.dispatch k).Sure := by
  unfold Ssi.dispatch
  dsimp only
  repeat' split
  case isFalse => exact ⟨fun _ d hd => restIndex_lt hd, fun c hc => by cases hc⟩
  all_goals exact .of_pc (by simp) (by simp)

theorem Sure.next (h : s.Sure) : (s.next k r).Sure := by
  cases hs : s.pc <;> simp only [Ssi.next, hs]
  case got =>
    split
    · exact .of_pc (by simp) (by simp)
    · split
      · exact ⟨fun _ d hd => restIndex_lt hd, fun c hc => by cases hc⟩
      · exact .of_pc (by simp) (by simp)
  case serve => exact .dispatch
  case interrupt =>
    split
    · exact h
    · split <;> exact .of_pc (by simp) (by simp)
  case alloc c =>
    split
    · next hr => exact ⟨fun hc => by simp at hc, fun _ _ => hr⟩
    · cases c <;> exact .of_pc (by simp [Create.linkPc]) (by simp [Create.linkPc])
  case noGood c => cases c <;> exact .of_pc (by simp [Create.linkPc]) (by simp [Create.linkPc])
  case copyState c => cases c <;> exact .of_pc (by simp) (by simp)
  case interruptClear | waitIoClear =>
    split
    · exact .of_pc (by simp [hs]) (by simp [hs])
    · exact .of_pc (by simp) (by simp)
  all_goals
    repeat' split
    all_goals exact .of_pc (by simp) (by simp)

/-- A waiter in a slot has just been recorded there, or was there and has not been answered. -/
theorem next_dev (hpc : s.pc ≠ .init) (hp : p ≠ null) (h : (s.next k r).devTcb i = p)
    (hclear : ¬ ((s.next k r).pc = .interruptClear ∧ (s.next k r).deviceNum = some i)) :
    (s.devSlot = some i ∧ p = s.reqThread) ∨ s.devSlot ≠ some i ∧ s.devTcb i = p ∧
      ¬ (s.pc = .interruptClear ∧ s.deviceNum = some i) ∧
      ¬ (s.pc = .interrupt ∧ s.deviceNum = some i) := by
  rcases next_devTcb_slot (k := k) (r := r) hpc i with he | he
  · exact absurd (h.symm.trans he) hp
  · by_cases hs : s.devSlot = some i
    · rw [if_pos hs] at he
      exact .inl ⟨hs, h.symm.trans he⟩
    · rw [if_neg hs] at he
      have hold : s.devTcb i = p := he.symm.trans h
      refine .inr ⟨hs, hold, ?_, ?_⟩
      · rintro ⟨hpc, hd⟩
        apply hp
        rw [← h]
        simp [next, hpc, hd]
      · rintro ⟨hpc, hd⟩
        apply hclear
        simp [next, hpc, hd, hold, hp]

theorem next_clock (hpc : s.pc ≠ .init) (hp : p ≠ null) (hi : i < maxThreads - 1)
    (h : (s.next k r).clockTcb i = p) (hclear : (s.next k r).pc ≠ .clockClear i) :
    (s.clockSlot k = some i ∧ p = s.reqThread) ∨ s.clockSlot k ≠ some i ∧ s.clockTcb i = p ∧
      s.pc ≠ .clockClear i ∧ s.pc ≠ .clock i := by
  rcases next_clockTcb_slot (k := k) (r := r) hpc i with he | he
  · exact absurd (h.symm.trans he) hp
  · by_cases hs : s.clockSlot k = some i
    · rw [if_pos hs] at he
      exact .inl ⟨hs, h.symm.trans he⟩
    · rw [if_neg hs] at he
      have hold : s.clockTcb i = p := he.symm.trans h
      refine .inr ⟨hs, hold, ?_, ?_⟩
      · intro hpc
        apply hp
        rw [← h]
        simp [next, hpc]
      · intro hpc
        apply hclear
        simp [next, hpc, hold, hp, hi]

theorem next_of_slot (h : s.devSlot = some i ∨ s.clockSlot k = some i) :
    (s.next k r).pc = .recv := by
  rcases h with h | h
  · have hpc := devSlot_pc h
    simp only [devSlot, hpc, Option.filter_eq_some_iff, decide_eq_true_eq] at h
    simp [next, hpc, h.1, h.2]
  · have hpc := clockSlot_pc h
    unfold clockSlot at h
    split at h
    · next hw => simp [next, hpc, dispatch, hw.2]
    · cases h

/-- What the SSI owes an answer, it did before its call. -/
theorem owes_of_next (hlink : ∀ c, s.pc = .link c → s.newThread ≠ null)
    (h' : (s.next k r).pc ≠ .recv) (h : (s.next k r).owes = true) : s.owes = true := by
  cases hs : s.pc <;> simp only [owes, hs]
  case waitIoClear =>
    cases hd : s.deviceNum with
    | none => simp [next, hs, hd, owes] at h
    | some d => simp [next, hs, hd] at h'
  case readParent =>
    simp only [next, hs, owes] at h
    exact h
  case link c => simp [hlink c hs]

theorem msgSend_pc {d : Ptr} {v : U32} (h : s.call k = .msgSend d v) : (∃ i, s.pc = .clock i) ∨
    s.pc = .interrupt ∨ (∃ c, s.pc = .noGood c) ∨ s.pc = .answerThread ∨ s.pc = .answerZero ∨
      s.pc = .cpuTime ∨ s.pc = .waitIo := by
  cases hpc : s.pc <;> simp only [call, hpc] at h
  case clock | interrupt | noGood | answerThread | answerZero | cpuTime | waitIo => simp
  case serve => split at h <;> cases h
  case link c =>
    cases c
    · simp only at h
      split at h <;> cases h
    · cases h
  all_goals cases h

/-- Where a request goes in a call of the SSI that is neither MsgRecv nor MsgSend. -/
def moves (s : Ssi) (k : Kernel) : Token → Token
  | .served => match s.devSlot with
    | some i => .dev i
    | none => match s.clockSlot k with
      | some i => .clock i
      | none => .served
  | t => t

/-- After its answer the SSI owes nothing for the request. -/
theorem next_of_answer (hsure : s.Sure) {d : Ptr} {v : U32} (hs : s.pc.serves = true)
    (hc : s.call k = .msgSend d v) : (s.next k r).pc = .recv ∨ (s.next k r).owes = false := by
  rcases msgSend_pc hc with ⟨i, hpc⟩ | hpc | ⟨c, hpc⟩ | hpc | hpc | hpc | hpc
  · simp [hpc, SsiPc.serves] at hs
  · simp [hpc, SsiPc.serves] at hs
  · have hn := hsure.refused c hpc
    cases c <;> simp [next, hpc, Create.linkPc, owes, hn]
  · simp [next, hpc]
  · simp [next, hpc]
  · simp [next, hpc]
  · simp only [call, hpc] at hc
    cases hd : s.deviceNum with
    | none => simp [hd] at hc
    | some n =>
      by_cases he : s.devStatus n = devEmpty
      · simp [hd, he] at hc
      · simp [next, hpc, hd, he, owes]

end Ssi

/-- A request that has returned: its own number, the number of the one whose answer it got, and what
it then found at its reply pointer. -/
structure Return where
  asked : Nat
  answered : Nat
  value : U32

/-- History: how many requests there have been, who has one outstanding, the number of the latest
one of each TCB, the numbers of the request or answer in each buffer, of the request the SSI is at
and of those in its slots, the answers it has sent, and the requests that have returned. -/
structure Numbers where
  count : Nat
  pend : Ptr → Bool
  asked : Ptr → Nat
  tag : Ptr → Nat
  request : Nat
  dev : Nat → Nat
  clock : Nat → Nat
  sent : List (Nat × U32)
  returned : List Return

namespace Numbers

def start : Numbers where
  count := 0
  pend _ := false
  asked _ := 0
  tag _ := 0
  request := 0
  dev _ := 0
  clock _ := 0
  sent := []
  returned := []

/-- The number of the request that a token stands for. -/
def of (h : Numbers) : Token → Nat
  | .asked b | .answer b => h.tag b
  | .served => h.request
  | .dev i => h.dev i
  | .clock i => h.clock i

section
variable (h : Numbers) (b : Ptr) (i : Nat)

theorem of_asked : h.of (.asked b) = h.tag b := rfl
theorem of_answer : h.of (.answer b) = h.tag b := rfl
theorem of_served : h.of .served = h.request := rfl
theorem of_dev : h.of (.dev i) = h.dev i := rfl
theorem of_clock : h.of (.clock i) = h.clock i := rfl

end

/-- The number of a request that is made in this step; other messages have the number 0. -/
def fresh (e : Event) (h : Numbers) : Nat := if e.requests then h.count + 1 else 0

/-- The number of the message that is sent in this step. -/
def stamp (m : Machine) (e : Event) (h : Numbers) : Nat :=
  match e with
  | .ssi _ => h.of m.ssi.source
  | _ => h.fresh e

def noteRequest (m : Machine) (e : Event) (m' : Machine) (h : Numbers) : Nat :=
  match e with
  | .ssi _ =>
    if m.ssi.pc = .recv then
      match popMessage (m.k.tcb m.k.ssiTcb).tInbox anyMessage with
      | some (x, _) => h.tag x.addr
      | none => h.request
    else h.request
  | _ => if m.k.ssiTcb ∈ m.k.waitQueue ∧ m.k.ssiTcb ∉ m'.k.waitQueue
    then h.fresh e else h.request

/-- The answer the SSI sends. -/
def answer (m : Machine) (e : Event) (h : Numbers) : List (Nat × U32) :=
  match e with
  | .ssi _ => match m.ssi.call m.k with
    | .msgSend _ v => [(h.of m.ssi.source, v)]
    | _ => []
  | _ => []

/-- A RECV from MAGIC_SSI finds its message, or the SSI sends to a thread blocked in one. -/
def returns (m : Machine) (e : Event) (m' : Machine) (h : Numbers) : List Return :=
  match e with
  | .sysbp old =>
    if e.collects ∧ m.k.currentThread ∉ m'.k.waitQueue then
      match popMessage (m.k.tcb m.k.currentThread).tInbox magicSsi with
      | some (x, _) => [⟨h.asked m.k.currentThread, h.tag x.addr, m'.k.mem old.regA2⟩]
      | none => []
    else []
  | .ssi _ => match m.ssi.call m.k with
    | .msgSend dest _ =>
      if dest ∈ m.k.waitQueue ∧ (m.k.tcb dest).waitingFor = magicSsi ∧
        dest ∉ m'.k.waitQueue ∧ dest ∉ m'.k.tcbFree
      then [⟨h.asked dest, h.of m.ssi.source, m'.k.mem (m.k.tcb dest).reply⟩] else []
    | _ => []
  | _ => []

def noteSlots (m : Machine) (e : Event) (h : Numbers) : Numbers :=
  match e with
  | .ssi _ =>
    { h with
      dev := Origins.fill h.dev m.ssi.devSlot h.request
      clock := Origins.fill h.clock (m.ssi.clockSlot m.k) h.request }
  | _ => h

def note (m : Machine) (e : Event) (m' : Machine) (h : Numbers) : Numbers :=
  { h.noteSlots m e with
    count := if e.requests then h.count + 1 else h.count
    pend := Machine.notePending m e m' h.pend
    asked := if e.requests then put h.asked m.k.currentThread (h.count + 1) else h.asked
    tag := fun b => if Origins.Posted m m' b then h.stamp m e else h.tag b
    request := h.noteRequest m e m'
    sent := h.sent ++ h.answer m e
    returned := h.returned ++ h.returns m e m' }

end Numbers

namespace Machine

/-- The token is there, and names the TCB `p`. -/
def Has (m : Machine) (p : Ptr) : Token → Prop
  | .asked b => ∃ x ∈ (m.k.tcb m.k.ssiTcb).tInbox, x.mSender = p ∧ x.addr = b
  | .served => p ∈ m.requester ∧ m.ssi.owes = true
  | .dev i => m.ssi.pc ≠ .init ∧ i < 48 ∧ m.ssi.devTcb i = p ∧
      ¬ (m.ssi.pc = .interruptClear ∧ m.ssi.deviceNum = some i)
  | .clock i => m.ssi.pc ≠ .init ∧ i < maxThreads - 1 ∧ m.ssi.clockTcb i = p ∧
      m.ssi.pc ≠ .clockClear i
  | .answer b => ∃ x ∈ (m.k.tcb p).tInbox, x.mSender = magicSsi ∧ x.addr = b

/-- Threads talk to the SSI through `SSIRequest` only: none has the SSI for its manager either. -/
def OnlyRequests (m : Machine) (e : Event) (pend : Ptr → Bool) : Prop :=
  m.SsiRequestOnly e pend ∧ m.entry e ≠ .trap m.k.ssiTcb

/-- When a TCB is allocated, the SSI has nothing left of the thread that had it: neither a message
nor a request that it is at nor an entry of its arrays. -/
def Unasked (m : Machine) (e : Event) : Prop :=
  ∀ p ∈ m.born e, (∀ x ∈ (m.k.tcb m.k.ssiTcb).tInbox, x.mSender ≠ p) ∧ m.ssi.reqThread ≠ p ∧
    (∀ i < 48, m.ssi.devTcb i ≠ p) ∧ ∀ i < maxThreads - 1, m.ssi.clockTcb i ≠ p

instance (m : Machine) (e : Event) (pend : Ptr → Bool) : Decidable (m.OnlyRequests e pend) :=
  inferInstanceAs (Decidable (_ ∧ _))

-- a search for the instances would go through all the words
instance (m : Machine) (e : Event) : Decidable (m.Unasked e) :=
  have (p : Ptr) : Decidable (∀ x ∈ (m.k.tcb m.k.ssiTcb).tInbox, x.mSender ≠ p) :=
    List.decidableBAll _ _
  Option.decidableForallMem _

/-- A TCB in use has at most one token, and it stands for the request that the TCB has outstanding.
-/
def Single (m : Machine) (h : Numbers) (p : Ptr) : Prop :=
  ∃ t₀, ∀ t, m.Has p t → t = t₀ ∧ h.pend p = true ∧ h.of t = h.asked p

structure Answered (m : Machine) (h : Numbers) : Prop where
  single : ∀ p ∈ threadArray, p ∉ m.k.tcbFree → m.Single h p
  value : ∀ p ∈ threadArray, ∀ x ∈ (m.k.tcb p).tInbox, x.mSender = magicSsi →
    (h.tag x.addr, x.mMessage) ∈ h.sent
  right : ∀ r ∈ h.returned, r.answered = r.asked ∧ (r.answered, r.value) ∈ h.sent

variable {m m' : Machine} {e : Event} {p q : Ptr} {g : Numbers} {t : Token}

theorem Single.of_none (h : ∀ t, ¬ m.Has p t) : m.Single g p :=
  ⟨.served, fun t ht => absurd ht (h t)⟩

/-- All tokens of a TCB have moved in the same way. -/
theorem Single.of_moved {g' : Numbers} (h : m.Single g p) (f : Token → Token)
    (hm : ∀ t', m'.Has p t' → ∃ t, m.Has p t ∧ t' = f t ∧ g'.of t' = g.of t)
    (hp : (∃ t, m'.Has p t) → g'.pend p = g.pend p ∧ g'.asked p = g.asked p) :
    m'.Single g' p := by
  obtain ⟨t₀, h₀⟩ := h
  refine ⟨f t₀, fun t' ht' => ?_⟩
  obtain ⟨t, ht, rfl, hof⟩ := hm t' ht'
  obtain ⟨rfl, hpend, hnum⟩ := h₀ t ht
  obtain ⟨hpend', hasked'⟩ := hp ⟨_, ht'⟩
  exact ⟨rfl, hpend'.trans hpend, by rw [hof, hnum, hasked']⟩

end Machine

end AmiKaya
