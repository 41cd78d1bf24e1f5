import AmiKaya.Tokens

/-! The steps of the threads: a request starts as one token, and a RECV takes the answer. -/
namespace AmiKaya
open Lts

namespace Machine

variable {m m' : Machine} {e : Event} {p q : Ptr} {g : Numbers} {t : Token}

theorem sysbp_ne_ssi {old old' : State} : Event.sysbp old ≠ .ssi old' := by
  simp

/-! Steps in which nobody sends to the SSI, and the SSI sends to nobody. -/

/-- Other messages are neither answers of the SSI nor requests of a thread. -/
theorem inbox_quiet (hw : m.Wf) (hi : m.Apart) (h : m.Step e m') (he : m.entry e ≠ .send)
    (hno : m.entry e ≠ .trap m.k.ssiTcb) (hp : p ∈ threadArray) : ∀ x ∈ (m'.k.tcb p).tInbox,
    x ∈ (m.k.tcb p).tInbox ∨ x.mSender ≠ magicSsi ∧
      (p = m.k.ssiTcb → x.mSender ∉ threadArray) := by
  have hinv := (ops_of_step hw h).inv (I := fun k => k.ssiTcb = m.k.ssiTcb ∧
    ∀ x ∈ (k.tcb p).tInbox, x ∈ (m.k.tcb p).tInbox ∨ x.mSender ≠ magicSsi ∧
      (p = m.k.ssiTcb → x.mSender ∉ threadArray)) ?_ ⟨rfl, fun _ hx => .inl hx⟩
  · exact hinv.2
  · rintro k o k' hs ho ⟨hssi, hin⟩
    refine ⟨(Kernel.ssiTcb_step hs).trans hssi, fun x hx => ?_⟩
    rcases inbox_step hs p x hx with hx | ⟨s, v, r, rfl, hid⟩
    · exact hin x hx
    · right
      rw [hid]
      unfold Kernel.senderId
      rcases ho with ⟨rfl, hent⟩ | ⟨hd, -⟩
      · -- the message of a trap, to a manager that is not the SSI
        have htrap := hent.resolve_left he
        have hcur : m.k.currentThread ≠ m.k.ssiTcb := by
          intro hc
          obtain ⟨x, hx⟩ := manager_of_entry htrap
          rw [hc, hi.unmanaged x] at hx
          exact null_notMem_threadArray (hx ▸ hp)
        rw [hssi, if_neg hcur]
        exact ⟨current_ne_notWaiting hw, fun hps => absurd (hps ▸ htrap) hno⟩
      · have hne : s ≠ k.ssiTcb := fun hc => (deviceIds_notMem hd).1 (hc ▸ hssi ▸ hw.ssi)
        rw [if_neg hne]
        exact ⟨(deviceIds_notMem hd).2, fun _ => (deviceIds_notMem hd).1⟩

/-- The SSI goes on waiting, unless it is freed. -/
theorem ssi_stays (hw : m.Wf) (h : m.Step e m') (he : ∀ old, e ≠ .ssi old)
    (hsend : m.entry e ≠ .send) (hint : m.entry e ≠ .interrupt)
    (hno : m.entry e ≠ .trap m.k.ssiTcb) (hwait : m.k.ssiTcb ∈ m.k.waitQueue) :
    m.k.ssiTcb ∈ m'.k.waitQueue ∨ m.k.ssiTcb ∈ m'.k.tcbFree := by
  have halloc := (entry_of_not_ssi (m := m) he).1
  have hinv := (ops_of_step hw h).inv (I := fun k => Placed k ∧
    (m.k.ssiTcb ∈ k.waitQueue ∨ m.k.ssiTcb ∈ k.tcbFree)) ?_ ⟨hw.placed, .inl hwait⟩
  · exact hinv.2
  · rintro k o k' hs ho ⟨hk, hin⟩
    refine ⟨hk.step hs, ?_⟩
    cases hs with
    | quiet hq => rwa [hq.waitQueue, hq.tcbFree]
    | send hs =>
      rw [(Kernel.send_frame hs).tcbFree]
      rcases ho with ⟨-, htrap⟩ | ⟨-, hx⟩
      · refine hin.imp (fun hm => ?_) id
        rcases Kernel.send_waitQueue hs with heq | ⟨heq, -, -⟩
        · exact heq ▸ hm
        · rw [heq]
          refine (List.mem_erase_of_ne ?_).mpr hm
          rintro rfl
          exact hno (htrap.resolve_left hsend)
      · exact absurd hx hint
    | recv hc hr =>
      rcases Kernel.recv_cases hr with ⟨-, -, rfl⟩ | ⟨x, rest, -, -, -, rfl⟩
      · exact hin.imp (List.mem_append_left _) id
      · exact hin
    | freeze hc hm => exact hin.imp (List.mem_append_left _) id
    | terminate ht hr =>
      obtain ⟨ds, -, hd⟩ := Reaped.terminate hk ht hr
      rw [hd.mem_wait, hd.tcbFree]
      by_cases hds : m.k.ssiTcb ∈ ds
      · exact .inr (List.mem_append_right _ hds)
      · exact hin.imp (fun hm => ⟨hm, hds⟩) (List.mem_append_left _)
    | resume => exact absurd ho hsend
    | alloc => exact absurd ho halloc
    | request | dispatch | preempt | insertChild | insertSibling | countThread | publish => exact hin

/-- In an interrupt, the SSI is handed messages of devices only. -/
theorem interrupt_sender {old : State} (hw : m.Wf) (hi : m.Apart) (h : m.Step (.interrupt old) m')
    (hwait : m.k.ssiTcb ∈ m.k.waitQueue) (hout : m.k.ssiTcb ∉ m'.k.waitQueue)
    (hf : m.k.ssiTcb ∉ m'.k.tcbFree) : (m'.k.tcb m.k.ssiTcb).tState.regV0 ∉ threadArray := by
  have hbus : busIntervalTimer ∉ threadArray := (deviceIds_notMem List.mem_cons_self).1
  have hany := (hi.waits hwait).2
  obtain ⟨k, hb, hk⟩ := step_body h
  obtain ⟨k₁, h₁, h₂⟩ := bind_eq_ok.mp hb
  cases h₂
  have hrest : Roused busIntervalTimer (if m.k.currentThread ≠ null then m.k.enter old else m.k)
      m'.k := by
    have hn : busIntervalTimer ≠ notWaiting := by decide
    refine ((Roused.overLines hn).lineInterrupt h₁).trans ?_
    rcases hk with ⟨-, hk⟩ | ⟨hs, -⟩
    · have hclear : Roused busIntervalTimer k₁ { k₁ with intIndex := (k₁.intIndex + 1) % 48 } :=
        .of_same rfl rfl fun _ _ => ⟨rfl, rfl⟩
      exact hclear.trans (.scheduler hk)
    · cases hs
  intro hm
  have hq : ∀ p, ((if m.k.currentThread ≠ null then m.k.enter old else m.k).tcb p).waitingFor =
      (m.k.tcb p).waitingFor := by
    intro p
    split
    · exact (Quiet.enter old).waitingFor p
    · rfl
  have hwq : (if m.k.currentThread ≠ null then m.k.enter old else m.k).waitQueue =
      m.k.waitQueue := by
    split
    · exact (Quiet.enter old).waitQueue
    · rfl
  have hssi : m.k.ssiTcb ≠ busIntervalTimer := fun hc => hbus (hc ▸ hw.ssi)
  have hv := hrest.sender m.k.ssiTcb (hwq ▸ hwait) hssi hout hf (by rw [hq, hany]; decide) hm
  exact hbus (hv ▸ hm)

/-- A TCB that is free stays so until the SSI allocates it. -/
theorem tcbFree_kept (hw : m.Wf) (h : m.Step e m') (hb : m.born e ≠ some p)
    (hp : p ∈ m.k.tcbFree) : p ∈ m'.k.tcbFree := by
  by_cases ha : m.entry e = .alloc
  · rcases step_cases h with ⟨-, hne⟩ | ⟨old, r, rfl, -, hperf, -⟩
    · exact absurd ha (entry_of_not_ssi hne).1
    · obtain ⟨c, hc⟩ := entry_alloc ha
      have hcall : m.ssi.call m.k = .allocTcb := by simp [Ssi.call, hc]
      simp only [born, hcall] at hb
      rw [hcall] at hperf
      have hal : m.k.allocTcb = (r, m'.k) := Except.ok.inj hperf
      have hk : m'.k = m.k.allocTcb.2 := by rw [hal]
      cases hf : m.k.tcbFree with
      | nil =>
        rw [hf] at hp
        cases hp
      | cons q free =>
        rw [hf] at hp hb
        rw [hk]
        simp only [Kernel.allocTcb, hf]
        refine (List.mem_cons.mp hp).resolve_left ?_
        rintro rfl
        exact hb rfl
  · have hinv := (ops_of_step hw h).inv (I := fun k => Placed k ∧ p ∈ k.tcbFree) ?_
      ⟨hw.placed, hp⟩
    · exact hinv.2
    · rintro k o k' hs ho ⟨hk, hf⟩
      refine ⟨hk.step hs, ?_⟩
      cases hs with
      | quiet hq => exact hq.tcbFree ▸ hf
      | send hs => exact (Kernel.send_frame hs).tcbFree ▸ hf
      | recv hc hr =>
        rcases Kernel.recv_cases hr with ⟨-, -, rfl⟩ | ⟨x, rest, -, -, -, rfl⟩ <;> exact hf
      | terminate ht hr =>
        obtain ⟨ds, -, hd⟩ := Reaped.terminate hk ht hr
        rw [hd.tcbFree]
        exact List.mem_append_left _ hf
      | resume hr =>
        obtain ⟨-, -, rfl⟩ := Kernel.continueTrapped_cases hr
        exact hf
      | alloc => exact absurd ho ha
      | freeze | request | dispatch | preempt | insertChild | insertSibling | countThread
        | publish => exact hf

/-! Who has a request outstanding. -/

theorem answersQueued (hw : m.Wf) (hi : m.Apart)
    (he : ∀ old, e = .ssi old → ∀ d v, m.ssi.call m.k ≠ .msgSend d v) : m.AnswersQueued e := by
  have hnull : null ∉ m.k.waitQueue := fun hm =>
    hw.placed.ne_null (Kernel.mem_places.mpr (.inr (.inl hm))) rfl
  intro hcur t ht hm
  cases e with
  | ssi old =>
    simp only [recipient] at ht
    split at ht
    · next d v hc => exact absurd hc (he old rfl d v)
    · cases ht
  | pgmtrap | tlb =>
    simp only [recipient, hcur, hi.unmanaged, Option.mem_def, Option.some.injEq] at ht
    exact absurd (ht ▸ hm) hnull
  | sysbp | interrupt | devices | store | edit => cases ht

theorem ssi_mailed {old : State} {d : Ptr} {v : U32} (hw : m.Wf) (hn : m.ssi.Named)
    (h : m.Step (.ssi old) m') (hc : m.ssi.call m.k = .msgSend d v) : m.k.Mailed d v m'.k := by
  have hne : d ≠ magicSsi := by
    rintro rfl
    exact magicSsi_notMem_threadArray (Ssi.msgSend_mem hn hw.requester hc)
  rcases step_cases h with ⟨-, hne'⟩ | ⟨old', r, he, -, hperf, -⟩
  · exact absurd rfl (hne' old)
  · cases he
    rw [hc] at hperf
    obtain ⟨k, hk, hr⟩ := bind_eq_ok.mp hperf
    cases hr
    have hm := Kernel.sysbpHandler_mailed hw.placed (old.syscall_isSend d v) hk
    have hrec : m.k.receiver (old.syscall sysSend d v) = d := by
      rw [Kernel.receiver, (old.syscall_regs _ _ _).2.1, if_neg hne]
    rwa [hrec, (old.syscall_regs _ _ _).2.2] at hm

/-- A thread that waits for an answer goes on waiting, or is freed, or the SSI sends to it. -/
theorem answered_by (hw : m.Wf) (hn : m.ssi.Named) (hi : m.Apart) (h : m.Step e m')
    (hin : p ∈ m.k.waitQueue) (hwf : (m.k.tcb p).waitingFor = magicSsi)
    (hout : p ∉ m'.k.waitQueue) (hf : p ∉ m'.k.tcbFree) :
    ∃ old v, e = .ssi old ∧ m.ssi.call m.k = .msgSend p v := by
  by_cases he : ∀ old, e = .ssi old → ∀ d v, m.ssi.call m.k ≠ .msgSend d v
  · exfalso
    obtain ⟨k, hb, hk⟩ := step_body h
    obtain ⟨ds, -, heff⟩ := body_effect hw hn h.1 (answersQueued hw hi he) hb
    have hsame : m'.k.waitQueue = k.waitQueue ∧ m'.k.tcbFree = k.tcbFree := by
      rcases hk with ⟨-, hk⟩ | ⟨-, rfl⟩
      · have hs := Kernel.scheduler_scheduled (hw.placed.ops (body_ops hw h.1 hb)) hk
        exact ⟨hs.waitQueue, hs.tcbFree⟩
      · exact ⟨rfl, rfl⟩
    rw [hsame.1] at hout
    rw [hsame.2] at hf
    exact hout (heff.waits p hin hwf fun hd => hf (heff.mem_free p hd))
  · simp only [not_forall, not_not] at he
    obtain ⟨old, rfl, d, v, hc⟩ := he
    have hcur : m.k.currentThread = m.k.ssiTcb := h.1
    by_cases hd : d = p
    · exact ⟨old, v, rfl, hd ▸ hc⟩
    · exfalso
      cases ssi_mailed hw hn h hc with
      | nothing _ hw' =>
        refine hout (hw' p hin ?_ hf)
        rw [hwf, hcur]
        rintro he
        exact magicSsi_notMem_threadArray (he ▸ hw.ssi)
      | queued a _ hw' => exact hout (hw' ▸ hin)
      | handed _ _ _ hw' _ =>
        rw [hw'] at hout
        exact hout ((List.mem_erase_of_ne (Ne.symm hd)).mpr hin)

/-- Nothing changes for a thread that neither asks nor is answered. -/
theorem pend_kept (hw : m.Wf) (hn : m.ssi.Named) (hi : m.Apart) (h : m.Step e m')
    (hf : p ∉ m'.k.tcbFree) (hr : e.requests = true → p ≠ m.k.currentThread)
    (hc : e.collects = true → p = m.k.currentThread → p ∈ m'.k.waitQueue)
    (hs : ∀ old v, e = .ssi old → m.ssi.call m.k = .msgSend p v → p ∈ m.k.waitQueue →
      p ∈ m'.k.waitQueue) :
    (g.note m e m').pend p = g.pend p ∧ (g.note m e m').asked p = g.asked p := by
  constructor
  · have hask : ¬ (e.requests = true ∧ p = m.k.currentThread) := fun hx => hr hx.1 hx.2
    have hans : ¬ (p ∉ m'.k.waitQueue ∧ (e.collects = true ∧ p = m.k.currentThread ∨
        p ∈ m.k.waitQueue ∧ (m.k.tcb p).waitingFor = magicSsi)) := by
      rintro ⟨hout, hx | hx⟩
      · exact hout (hc hx.1 hx.2)
      · obtain ⟨old, v, he, hcall⟩ := answered_by hw hn hi h hx.1 hx.2 hout hf
        exact hout (hs old v he hcall hx.1)
    have hnote : (g.note m e m').pend p = m.outstanding e m'.k g.pend p := by
      cases e <;> rfl
    rw [hnote, outstanding, if_neg hask, if_neg hans]
    simp [hf]
  · have hnote : (g.note m e m').asked =
        if e.requests then put g.asked m.k.currentThread (g.count + 1) else g.asked := by
      cases e <;> rfl
    rw [hnote]
    split
    · next hq => exact Links.put_ne (hr hq)
    · rfl

/-- The SSI asks for nothing: it can only end the wait of a thread. -/
theorem pend_kept_ssi {old : State} (hw : m.Wf) (hn : m.ssi.Named) (hi : m.Apart)
    (h : m.Step (.ssi old) m') (hf : p ∉ m'.k.tcbFree)
    (hs : ∀ v, m.ssi.call m.k = .msgSend p v → p ∈ m.k.waitQueue → p ∈ m'.k.waitQueue) :
    (g.note m (.ssi old) m').pend p = g.pend p ∧
      (g.note m (.ssi old) m').asked p = g.asked p :=
  pend_kept hw hn hi h hf (by simp [Event.requests]) (by simp [Event.collects])
    fun _ v _ => hs v

/-! The tokens of a TCB in one step. -/

/-- No request of `p` has been put in the inbox of the SSI, and no answer in the one of `p`. -/
structure Unmailed (m m' : Machine) (p : Ptr) : Prop where
  asked : ∀ x ∈ (m'.k.tcb m.k.ssiTcb).tInbox, x ∈ (m.k.tcb m.k.ssiTcb).tInbox ∨ x.mSender ≠ p
  answer : ∀ x ∈ (m'.k.tcb p).tInbox, x ∈ (m.k.tcb p).tInbox ∨ x.mSender ≠ magicSsi

theorem unmailed_quiet (hw : m.Wf) (hi : m.Apart) (h : m.Step e m') (he : m.entry e ≠ .send)
    (hno : m.entry e ≠ .trap m.k.ssiTcb) (hp : p ∈ threadArray) : Unmailed m m' p := by
  constructor
  · intro x hx
    refine (inbox_quiet hw hi h he hno hw.ssi x hx).imp id fun hx => ?_
    rintro rfl
    exact hx.2 rfl hp
  · intro x hx
    exact (inbox_quiet hw hi h he hno hp x hx).imp id fun hx => hx.1

theorem unmailed_send {d : Ptr} {v : U32} (hm : m.k.Mailed d v m'.k)
    (hs : d = m.k.ssiTcb → m.k.senderId m.k.currentThread ≠ p)
    (hd : d = p → m.k.senderId m.k.currentThread ≠ magicSsi) : Unmailed m m' p := by
  constructor
  · intro x hx
    refine (hm.mem_inbox _ x hx).imp id fun hx => ?_
    rw [hx.2.1]
    exact hs hx.1.symm
  · intro x hx
    refine (hm.mem_inbox _ x hx).imp id fun hx => ?_
    rw [hx.2.1]
    exact hd hx.1.symm

/-- A message that was there keeps its number. -/
theorem note_tag {x : Msg} (hpool : m'.k.Pooled) (hp : p ∈ threadArray)
    (hx : x ∈ (m.k.tcb p).tInbox) (hx' : x ∈ (m'.k.tcb p).tInbox) :
    (g.note m e m').tag x.addr = g.tag x.addr := by
  have hnot := not_posted hpool hp hx hx'
  simp only [Numbers.note]
  rw [if_neg hnot]

theorem Unmailed.has_asked {b : Ptr} (hm : Unmailed m m' p) (hw : m.Wf) (h : m.Step e m')
    (hpool : m'.k.Pooled) (ht : m'.Has p (.asked b)) :
    m.Has p (.asked b) ∧ (g.note m e m').of (.asked b) = g.of (.asked b) := by
  obtain ⟨x, hx, hsend, rfl⟩ := ht
  rw [(ops_of_step hw h).ssiTcb] at hx
  rw [Numbers.of_asked, Numbers.of_asked]
  have hold := (hm.asked x hx).resolve_right fun hne => hne hsend
  exact ⟨⟨x, hold, hsend, rfl⟩, note_tag hpool hw.ssi hold hx⟩

theorem Unmailed.has_answer {b : Ptr} (hm : Unmailed m m' p) (hpool : m'.k.Pooled)
    (hp : p ∈ threadArray) (ht : m'.Has p (.answer b)) :
    m.Has p (.answer b) ∧ (g.note m e m').of (.answer b) = g.of (.answer b) := by
  obtain ⟨x, hx, hsend, rfl⟩ := ht
  rw [Numbers.of_answer, Numbers.of_answer]
  have hold := (hm.answer x hx).resolve_right fun hne => hne hsend
  exact ⟨⟨x, hold, hsend, rfl⟩, note_tag hpool hp hold hx⟩

/-- The SSI is given a request of `p`. -/
def Woken (m m' : Machine) (p : Ptr) : Prop :=
  m.k.ssiTcb ∈ m.k.waitQueue ∧ m.k.ssiTcb ∉ m'.k.waitQueue ∧ m.k.ssiTcb ∉ m'.k.tcbFree ∧
    p = (m'.k.tcb m.k.ssiTcb).tState.regV0

theorem request_other (he : ∀ old, e ≠ .ssi old) : g.noteRequest m e m' =
    if m.k.ssiTcb ∈ m.k.waitQueue ∧ m.k.ssiTcb ∉ m'.k.waitQueue
      then g.fresh e else g.request := by
  cases e with
  | ssi old => exact absurd rfl (he old)
  | sysbp | pgmtrap | tlb | interrupt | devices | store | edit => rfl

theorem stamp_other (he : ∀ old, e ≠ .ssi old) : g.stamp m e = g.fresh e := by
  cases e with
  | ssi old => exact absurd rfl (he old)
  | sysbp | pgmtrap | tlb | interrupt | devices | store | edit => rfl

theorem slots_other (he : ∀ old, e ≠ .ssi old) : (g.note m e m').dev = g.dev ∧
    (g.note m e m').clock = g.clock := by
  cases e with
  | ssi old => exact absurd rfl (he old)
  | sysbp | pgmtrap | tlb | interrupt | devices | store | edit => exact ⟨rfl, rfl⟩

theorem has_served_other (hw : m.Wf) (hi : m.Apart) (h : m.Step e m')
    (he : ∀ old, e ≠ .ssi old) (hp : p ∈ threadArray) (ht : m'.Has p .served) :
    (m.Has p .served ∧ (g.note m e m').of .served = g.of .served) ∨
      Woken m m' p ∧ p = m.k.currentThread := by
  obtain ⟨hreq, howes⟩ := ht
  rw [ssi_other h he] at howes
  rcases requester_other hw hi h he hreq hp with ⟨hnot, hq⟩ | ⟨hwoken, hf, hv, hcur⟩
  · have hrequest : (g.note m e m').request = g.noteRequest m e m' := by
      simp only [Numbers.note]
    rw [Numbers.of_served, Numbers.of_served, hrequest, request_other he, if_neg hnot]
    exact .inl ⟨⟨hq, howes⟩, rfl⟩
  · exact .inr ⟨⟨hwoken.1, hwoken.2, hf, hv⟩, hcur⟩

/-- Without a call of the SSI, what it has not been given by a message it had before. -/
theorem has_other (hw : m.Wf) (hi : m.Apart) (h : m.Step e m') (hpool : m'.k.Pooled)
    (he : ∀ old, e ≠ .ssi old) (hm : Unmailed m m' p)
    (hq : p = m.k.currentThread → ¬ Woken m m' p) (hp : p ∈ threadArray) (ht : m'.Has p t) :
    m.Has p t ∧ (g.note m e m').of t = g.of t := by
  have hssi := ssi_other h he
  cases t with
  | asked b => exact hm.has_asked hw h hpool ht
  | answer b => exact hm.has_answer hpool hp ht
  | served => exact (has_served_other hw hi h he hp ht).resolve_right fun hx => hq hx.2 hx.1
  | dev i =>
    rw [Numbers.of_dev, Numbers.of_dev, (slots_other he).1]
    simp only [Has, hssi] at ht
    exact ⟨ht, rfl⟩
  | clock i =>
    rw [Numbers.of_clock, Numbers.of_clock, (slots_other he).2]
    simp only [Has, hssi] at ht
    exact ⟨ht, rfl⟩

/-- A SEND to another thread leaves the SSI waiting, unless it is freed. -/
theorem ssi_waits_mailed {d : Ptr} {v : U32} (hi : m.Apart) (hm : m.k.Mailed d v m'.k)
    (hc : m.k.currentThread ≠ null) (hd : d ≠ m.k.ssiTcb) (hwait : m.k.ssiTcb ∈ m.k.waitQueue)
    (hf : m.k.ssiTcb ∉ m'.k.tcbFree) : m.k.ssiTcb ∈ m'.k.waitQueue := by
  cases hm with
  | nothing _ hw =>
    refine hw _ hwait ?_ hf
    rw [(hi.waits hwait).2]
    exact hc.symm
  | queued a _ hw => exact hw ▸ hwait
  | handed _ _ _ hw _ =>
    rw [hw]
    exact (List.mem_erase_of_ne hd.symm).mpr hwait

theorem sysbp_mailed {old : State} (hw : m.Wf) (h : m.Step (.sysbp old) m')
    (hs : old.isSend = true) : m.k.Mailed (m.k.receiver old) old.regA2 m'.k := by
  obtain ⟨k, hk, he⟩ := bind_eq_ok.mp h.2
  cases he
  exact Kernel.sysbpHandler_mailed hw.placed hs hk

theorem entry_send {e : Event} (he : ∀ old, e ≠ .ssi old) (h : m.entry e = .send) :
    ∃ old, e = .sysbp old ∧ old.isSend = true := by
  cases e with
  | ssi old => exact absurd rfl (he old)
  | sysbp old =>
    refine ⟨old, rfl, ?_⟩
    simp only [entry, Kernel.sysbpEntry] at h
    split at h
    · assumption
    · split at h <;> cases h
  | pgmtrap | tlb | interrupt | devices | store | edit => cases h

/-- The steps of the threads in which nobody asks the SSI for anything. -/
theorem unmailed_other {pend : Ptr → Bool} (hw : m.Wf) (hi : m.Apart) (h : m.Step e m')
    (he : ∀ old, e ≠ .ssi old) (hon : m.OnlyRequests e pend) (hr : e.requests = false)
    (hp : p ∈ threadArray) : Unmailed m m' p ∧ ¬ Woken m m' p := by
  by_cases hsend : m.entry e = .send
  · obtain ⟨old, rfl, hs⟩ := entry_send he hsend
    have hne : old.regA1 ≠ magicSsi := by
      intro ha
      simp [Event.requests, hs, ha] at hr
    have hd := (hon.1.1 hs).2
    have hm := sysbp_mailed hw h hs
    rw [Kernel.receiver, if_neg hne] at hm
    have hid : m.k.senderId m.k.currentThread = m.k.currentThread := if_neg h.1.2
    refine ⟨unmailed_send hm (fun hx => absurd hx hd) fun _ => ?_, ?_⟩
    · rw [hid]
      exact current_ne_notWaiting hw
    · rintro ⟨hwait, hout, hf, -⟩
      exact hout (ssi_waits_mailed hi hm h.1.1 hd hwait hf)
  · refine ⟨unmailed_quiet hw hi h hsend hon.2 hp, ?_⟩
    rintro ⟨hwait, hout, hf, hv⟩
    by_cases hint : m.entry e = .interrupt
    · cases e with
      | interrupt old => exact interrupt_sender hw hi h hwait hout hf (hv ▸ hp)
      | ssi old => exact absurd rfl (he old)
      | sysbp old =>
        simp only [entry, Kernel.sysbpEntry] at hint
        repeat' split at hint
        all_goals cases hint
      | pgmtrap | tlb | devices | store | edit => cases hint
    · rcases ssi_stays hw h he hsend hint hon.2 hwait with hin | hin
      · exact hout hin
      · exact hf hin

/-- A RECV that returns has taken the only token there was. -/
theorem none_collected (hw : m.Wf) (hpool : m.k.Pooled) (h : m.Step e m') (hc : e.collects = true)
    (hold : m.Single g m.k.currentThread) (hout : m.k.currentThread ∉ m'.k.waitQueue)
    (hhas : m'.Has m.k.currentThread t → m.Has m.k.currentThread t) :
    ¬ m'.Has m.k.currentThread t := by
  cases e with
  | sysbp old =>
    simp only [Event.collects, Bool.and_eq_true, decide_eq_true_eq] at hc
    obtain ⟨k, hk, he⟩ := bind_eq_ok.mp h.2
    cases he
    obtain ⟨x, rest, hpop, hrest, -⟩ :=
      (Kernel.sysbpHandler_popped (State.isSend_of_isRecv hc.1) hc.1 hk).resolve_left
        fun hx => hout hx.2
    rw [hc.2] at hpop
    obtain ⟨pre, post, hq, -, -, hsend⟩ := popMessage_some hpop
    have hx : m.Has m.k.currentThread (.answer x.addr) :=
      ⟨x, by simp [hq], (hsend (by decide)).1, rfl⟩
    intro ht
    obtain ⟨t₀, h₀⟩ := hold
    have heq : t = .answer x.addr := (h₀ t (hhas ht)).1.trans (h₀ _ hx).1.symm
    subst heq
    obtain ⟨y, hy, -, haddr⟩ := ht
    have hmem := hw.placed.sub _ (current_live h.1.1).mem_places
    exact popMessage_rest (hpool.inbox_nodup hmem) hpop (hrest ▸ hy) haddr
  | pgmtrap | tlb | interrupt | ssi | devices | store | edit => cases hc

/-- The steps of the threads in which nobody asks for anything keep the tokens, or take one. -/
theorem Answered.single_other (ha : m.Answered g) (hw : m.Wf) (hn : m.ssi.Named) (hi : m.Apart)
    (hpool : m.k.Pooled) (hpool' : m'.k.Pooled) (h : m.Step e m') (he : ∀ old, e ≠ .ssi old)
    (hon : m.OnlyRequests e g.pend) (hr : e.requests = false) (hp : p ∈ threadArray)
    (hf : p ∉ m'.k.tcbFree) : m'.Single (g.note m e m') p := by
  have hborn : m.born e ≠ some p := by
    simp [born_of_not_ssi he]
  have hold := ha.single p hp fun hfree => hf (tcbFree_kept hw h hborn hfree)
  obtain ⟨hm, hnot⟩ := unmailed_other hw hi h he hon hr hp
  have hhas : ∀ t, m'.Has p t → m.Has p t ∧ (g.note m e m').of t = g.of t := fun t =>
    has_other hw hi h hpool' he hm (fun _ => hnot) hp
  by_cases hcol : e.collects = true ∧ p = m.k.currentThread ∧ p ∉ m'.k.waitQueue
  · obtain ⟨hc, rfl, hout⟩ := hcol
    exact .of_none fun t => none_collected hw hpool h hc hold hout fun ht => (hhas t ht).1
  · refine hold.of_moved id (fun t ht => ⟨t, (hhas t ht).1, rfl, (hhas t ht).2⟩) fun _ => ?_
    refine pend_kept hw hn hi h hf (by simp [hr]) (fun hc hcur => ?_) fun old v hx => absurd hx (he old)
    by_contra hout
    exact hcol ⟨hc, hcur, hout⟩

theorem note_requests {old : State} (hr : (Event.sysbp old).requests = true)
    (hf : m.k.currentThread ∉ m'.k.tcbFree) :
    (g.note m (.sysbp old) m').pend m.k.currentThread = true ∧
      (g.note m (.sysbp old) m').asked m.k.currentThread = g.count + 1 := by
  have hpend : (g.note m (.sysbp old) m').pend = m.outstanding (.sysbp old) m'.k g.pend := rfl
  have hasked : (g.note m (.sysbp old) m').asked =
      if (Event.sysbp old).requests then put g.asked m.k.currentThread (g.count + 1)
        else g.asked := rfl
  constructor
  · rw [hpend, outstanding, if_pos ⟨hr, rfl⟩]
    simp [hf]
  · rw [hasked, if_pos hr, Links.put_same]

/-- The only tokens of a thread that has just made a request are those of this request. -/
theorem has_new {old : State} {v : U32} (hw : m.Wf) (hi : m.Apart) (h : m.Step (.sysbp old) m')
    (hm : m.k.Mailed m.k.ssiTcb v m'.k) (hnone : ∀ t, ¬ m.Has m.k.currentThread t)
    (ht : m'.Has m.k.currentThread t) :
    (∃ x ∈ (m'.k.tcb m.k.ssiTcb).tInbox, x ∉ (m.k.tcb m.k.ssiTcb).tInbox ∧ t = .asked x.addr) ∨
      t = .served ∧ Woken m m' m.k.currentThread := by
  have he : ∀ old', Event.sysbp old ≠ .ssi old' := fun _ => sysbp_ne_ssi
  have hp := hw.placed.sub _ (current_live h.1.1).mem_places
  cases t with
  | asked b =>
    obtain ⟨x, hx, hsend, rfl⟩ := ht
    rw [(ops_of_step hw h).ssiTcb] at hx
    exact .inl ⟨x, hx, fun hold => hnone (.asked x.addr) ⟨x, hold, hsend, rfl⟩, rfl⟩
  | served =>
    rcases has_served_other (g := .start) hw hi h he hp ht with hx | hx
    · exact absurd hx.1 (hnone _)
    · exact .inr ⟨rfl, hx.1⟩
  | dev i =>
    simp only [Has, ssi_other h he] at ht
    exact absurd ht (hnone (.dev i))
  | clock i =>
    simp only [Has, ssi_other h he] at ht
    exact absurd ht (hnone (.clock i))
  | answer b =>
    obtain ⟨x, hx, hsend, rfl⟩ := ht
    rcases hm.mem_inbox _ x hx with hx | ⟨hcur, -, -⟩
    · exact absurd ⟨x, hx, hsend, rfl⟩ (hnone (.answer x.addr))
    · exact absurd hcur h.1.2

/-- A request starts as one token: its message, or the SSI has it at once. -/
theorem Answered.single_asked {old : State} (ha : m.Answered g) (hw : m.Wf) (hi : m.Apart)
    (h : m.Step (.sysbp old) m') (hon : m.OnlyRequests (.sysbp old) g.pend)
    (hr : (Event.sysbp old).requests = true) (hf : m.k.currentThread ∉ m'.k.tcbFree) :
    m'.Single (g.note m (.sysbp old) m') m.k.currentThread := by
  have he : ∀ old', Event.sysbp old ≠ .ssi old' := fun _ => sysbp_ne_ssi
  have hlive : m.k.Live m.k.currentThread := current_live h.1.1
  have hreq := hr
  simp only [Event.requests, Bool.and_eq_true, decide_eq_true_eq] at hreq
  have hm := sysbp_mailed hw h hreq.1
  rw [Kernel.receiver, if_pos hreq.2] at hm
  have hnone : ∀ t, ¬ m.Has m.k.currentThread t := by
    intro t ht
    obtain ⟨t₀, h₀⟩ := ha.single _ (hw.placed.sub _ hlive.mem_places) (hlive.notMem_free hw.placed)
    have hpend := (h₀ t ht).2.1
    rw [(hon.1.1 hreq.1).1] at hpend
    cases hpend
  have hnew := fun t => has_new (t := t) hw hi h hm hnone
  obtain ⟨hpend, hasked⟩ := note_requests (g := g) hr hf
  cases hm with
  | nothing hin hwait =>
    refine .of_none fun t ht => ?_
    rcases hnew t ht with ⟨x, hx, hnot, -⟩ | ⟨-, hssi, hout, hfree, -⟩
    · exact hnot (hin _ x hx)
    · refine hout (hwait _ hssi ?_ hfree)
      rw [(hi.waits hssi).2]
      exact h.1.1.symm
  | queued a hin hwait =>
    refine ⟨.asked a, fun t ht => ?_⟩
    rcases hnew t ht with ⟨x, hx, hnot, rfl⟩ | ⟨-, hssi, hout, -⟩
    · have hposted : Origins.Posted m m' x.addr := ⟨_, hw.ssi, x, hx, hnot, rfl⟩
      rw [hin, if_pos rfl] at hx
      have hxa : x.addr = a := by
        rw [(Kernel.mem_queued hx).resolve_right hnot]
      refine ⟨by rw [hxa], hpend, ?_⟩
      rw [Numbers.of_asked, hasked]
      simp only [Numbers.note]
      rw [if_pos hposted, stamp_other he, Numbers.fresh, if_pos hr]
    · exact absurd (hwait ▸ hssi) hout
  | handed hssi _ hin hwait _ =>
    refine ⟨.served, fun t ht => ?_⟩
    rcases hnew t ht with ⟨x, hx, hnot, -⟩ | ⟨rfl, hwoken⟩
    · rw [hin] at hx
      exact absurd hx hnot
    · refine ⟨rfl, hpend, ?_⟩
      have hrequest : (g.note m (.sysbp old) m').request =
          g.noteRequest m (.sysbp old) m' := by
        simp only [Numbers.note]
      rw [Numbers.of_served, hasked, hrequest, request_other he,
        if_pos ⟨hwoken.1, hwoken.2.1⟩, Numbers.fresh, if_pos hr]

/-- Nobody else is concerned. -/
theorem Answered.single_request {old : State} (ha : m.Answered g) (hw : m.Wf)
    (hn : m.ssi.Named) (hi : m.Apart) (hpool' : m'.k.Pooled) (h : m.Step (.sysbp old) m')
    (hon : m.OnlyRequests (.sysbp old) g.pend) (hr : (Event.sysbp old).requests = true)
    (hp : p ∈ threadArray) (hf : p ∉ m'.k.tcbFree) :
    m'.Single (g.note m (.sysbp old) m') p := by
  by_cases hcur : p = m.k.currentThread
  · subst hcur
    exact ha.single_asked hw hi h hon hr hf
  · have hid : m.k.senderId m.k.currentThread = m.k.currentThread := if_neg h.1.2
    have hborn : m.born (.sysbp old) ≠ some p := by simp [born]
    have hold := ha.single p hp fun hfree => hf (tcbFree_kept hw h hborn hfree)
    simp only [Event.requests, Bool.and_eq_true, decide_eq_true_eq] at hr
    have hmail : Unmailed m m' p := by
      refine unmailed_send (sysbp_mailed hw h hr.1) (fun _ => ?_) fun _ => ?_
      · rw [hid]
        exact Ne.symm hcur
      · rw [hid]
        exact current_ne_notWaiting hw
    have hhas : ∀ t, m'.Has p t → m.Has p t ∧
        (g.note m (.sysbp old) m').of t = g.of t := fun t =>
      has_other hw hi h hpool' (fun _ => sysbp_ne_ssi) hmail (fun hx => absurd hx hcur) hp
    refine hold.of_moved id (fun t ht => ⟨t, (hhas t ht).1, rfl, (hhas t ht).2⟩) fun _ => ?_
    exact pend_kept hw hn hi h hf (fun _ => hcur) (fun _ hx => absurd hx hcur)
      fun _ _ hx => absurd hx sysbp_ne_ssi

end Machine

end AmiKaya
