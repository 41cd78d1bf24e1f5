import AmiKaya.Asking

/-! The calls of the SSI: it takes a request, puts it aside or answers it. Every request returns
with its own answer, unless a TCB is used again too early. -/
namespace AmiKaya
open Lts

namespace Machine

variable {m m' : Machine} {e : Event} {p : Ptr} {g : Numbers} {t : Token}

theorem note_slots {old : State} :
    (g.note m (.ssi old) m').dev = Origins.fill g.dev m.ssi.devSlot g.request ∧
      (g.note m (.ssi old) m').clock =
        Origins.fill g.clock (m.ssi.clockSlot m.k) g.request := ⟨rfl, rfl⟩

/-- The SSI is at a request of its requester. -/
theorem has_served {old : State} (h : m.Step (.ssi old) m')
    (hpc : m.ssi.pc = .waitIo ∨ m.ssi.pc = .serve) : m.Has m.ssi.reqThread .served := by
  have hcur : m.k.currentThread = m.k.ssiTcb := h.1
  refine ⟨mem_requester.mpr ⟨.inr hcur, .inr ?_⟩, ?_⟩
  · rcases hpc with hpc | hpc <;> simp [hpc]
  · rcases hpc with hpc | hpc <;> simp [Ssi.owes, hpc]

/-- The entry of a device is the request that has just been recorded, or was there. -/
theorem has_dev {old : State} {i : Nat} (h : m.Step (.ssi old) m') (hp : p ∈ threadArray)
    (ht : m'.Has p (.dev i)) :
    (m.ssi.devSlot = some i ∧ m.Has p .served ∧
      (g.note m (.ssi old) m').of (.dev i) = g.of .served) ∨
    (m.ssi.devSlot ≠ some i ∧ m.Has p (.dev i) ∧
      ¬ (m.ssi.pc = .interrupt ∧ m.ssi.deviceNum = some i) ∧
      (g.note m (.ssi old) m').of (.dev i) = g.of (.dev i)) := by
  have hne : p ≠ null := fun he => null_notMem_threadArray (he ▸ hp)
  obtain ⟨r, -, hs⟩ := ssi_step h
  simp only [Has, hs] at ht
  obtain ⟨-, hlt, hdev, hclear⟩ := ht
  have hinit : m.ssi.pc ≠ .init := by
    intro hinit
    simp [Ssi.next, hinit, Ssi.initArrays] at hdev
    exact hne hdev.symm
  rw [Numbers.of_dev, Numbers.of_served, Numbers.of_dev, note_slots.1]
  rcases Ssi.next_dev hinit hne hdev hclear with ⟨hslot, rfl⟩ | ⟨hslot, hold, hc, hint⟩
  · exact .inl ⟨hslot, has_served h (.inl (Ssi.devSlot_pc hslot)), Origins.fill_same hslot⟩
  · exact .inr ⟨hslot, ⟨hinit, hlt, hold, hc⟩, hint, Origins.fill_ne hslot⟩

theorem has_clock {old : State} {i : Nat} (h : m.Step (.ssi old) m') (hp : p ∈ threadArray)
    (ht : m'.Has p (.clock i)) :
    (m.ssi.clockSlot m.k = some i ∧ m.Has p .served ∧
      (g.note m (.ssi old) m').of (.clock i) = g.of .served) ∨
    (m.ssi.clockSlot m.k ≠ some i ∧ m.Has p (.clock i) ∧ m.ssi.pc ≠ .clock i ∧
      (g.note m (.ssi old) m').of (.clock i) = g.of (.clock i)) := by
  have hne : p ≠ null := fun he => null_notMem_threadArray (he ▸ hp)
  obtain ⟨r, -, hs⟩ := ssi_step h
  simp only [Has, hs] at ht
  obtain ⟨-, hlt, hclock, hclear⟩ := ht
  have hinit : m.ssi.pc ≠ .init := by
    intro hinit
    simp [Ssi.next, hinit, Ssi.initArrays] at hclock
    exact hne hclock.symm
  rw [Numbers.of_clock, Numbers.of_served, Numbers.of_clock, note_slots.2]
  rcases Ssi.next_clock hinit hne hlt hclock hclear with ⟨hslot, rfl⟩ | ⟨hslot, hold, hc, hpc⟩
  · exact .inl ⟨hslot, has_served h (.inr (Ssi.clockSlot_pc hslot)), Origins.fill_same hslot⟩
  · exact .inr ⟨hslot, ⟨hinit, hlt, hold, hc⟩, hpc, Origins.fill_ne hslot⟩

/-- The request being served has just been received, or was being served. -/
theorem has_served_ssi {old : State} (hw : m.Wf) (h : m.Step (.ssi old) m')
    (ht : m'.Has p .served) :
    (m.ssi.pc = .recv ∧ ∃ x rest,
      popMessage (m.k.tcb m.k.ssiTcb).tInbox anyMessage = some (x, rest) ∧ p = x.mSender) ∨
    (m.ssi.pc ≠ .recv ∧ m'.ssi.pc ≠ .recv ∧ m.Has p .served ∧
      (g.note m (.ssi old) m').of .served = g.of .served) := by
  obtain ⟨hreq, howes⟩ := ht
  have hpc' : m'.ssi.pc ≠ .recv := by
    intro hpc
    have hq := (mem_requester.mp hreq).2
    simp [hpc] at hq
  rcases requester_ssi hw h hreq with hrecv | ⟨hrecv, hq⟩
  · exact .inl hrecv
  · obtain ⟨r, hperf, hs⟩ := ssi_step h
    rw [hs] at howes
    have hlink : ∀ c, m.ssi.pc = .link c → m.ssi.newThread ≠ null := fun c hc =>
      linked_ne_null hc hperf
    refine .inr ⟨hrecv, hpc', ⟨hq, Ssi.owes_of_next hlink (hs ▸ hpc') howes⟩, ?_⟩
    simp only [Numbers.of_served, Numbers.note, Numbers.noteRequest]
    rw [if_neg hrecv]

/-- The SSI has nothing left of the thread that had the TCB before. -/
theorem none_unasked (hw : m.Wf) (hpool : m.k.Pooled) (h : m.Step e m') (hb : m.born e = some p)
    (hun : m.Unasked e) : ¬ m.Has p t := by
  have hmem := born_mem hw h hb
  obtain ⟨hinbox, hreq, hdev, hclock⟩ := hun p hb
  obtain ⟨-, c, free, hpc, hfree, -⟩ := born_step h hb
  intro ht
  cases t with
  | asked b =>
    obtain ⟨x, hx, hsend, -⟩ := ht
    exact hinbox x hx hsend
  | served =>
    rcases (mem_requester.mp ht.1).2 with ⟨hgot, -⟩ | ⟨-, -, -, hq⟩
    · simp [hpc] at hgot
    · exact hreq hq.symm
  | dev i => exact hdev i ht.2.1 ht.2.2.1
  | clock i => exact hclock i ht.2.1 ht.2.2.1
  | answer b =>
    obtain ⟨x, hx, -, -⟩ := ht
    rw [hpool.idle p hmem fun hl => hl.notMem_free hw.placed (hfree ▸ List.mem_cons_self)] at hx
    cases hx

theorem entry_ssi {old : State} (hc : ∀ d v, m.ssi.call m.k ≠ .msgSend d v) :
    m.entry (.ssi old) ≠ .send ∧ m.entry (.ssi old) ≠ .trap m.k.ssiTcb := by
  simp only [entry]
  cases hcall : m.ssi.call m.k <;> simp
  exact hc _ _ hcall

/-- The call records the request in a slot, or leaves it where it is. -/
theorem Answered.single_local {old : State} (ha : m.Answered g) (hw : m.Wf) (hn : m.ssi.Named)
    (hi : m.Apart) (hpool : m.k.Pooled) (hpool' : m'.k.Pooled) (h : m.Step (.ssi old) m')
    (hc : ∀ d v, m.ssi.call m.k ≠ .msgSend d v) (hrecv : m.ssi.pc ≠ .recv)
    (hun : m.Unasked (.ssi old)) (hp : p ∈ threadArray) (hf : p ∉ m'.k.tcbFree) :
    m'.Single (g.note m (.ssi old) m') p := by
  have hmail := unmailed_quiet hw hi h (entry_ssi hc).1 (entry_ssi hc).2 hp
  have hhas : ∀ t', m'.Has p t' → ∃ t, m.Has p t ∧ t' = m.ssi.moves m.k t ∧
      (g.note m (.ssi old) m').of t' = g.of t := by
    intro t' ht
    cases t' with
    | asked b =>
      obtain ⟨hold, htag⟩ := hmail.has_asked (g := g) hw h hpool' ht
      exact ⟨.asked b, hold, rfl, htag⟩
    | answer b =>
      obtain ⟨hold, htag⟩ := hmail.has_answer (g := g) (e := .ssi old) hpool' hp ht
      exact ⟨.answer b, hold, rfl, htag⟩
    | served =>
      rcases has_served_ssi (g := g) hw h ht with ⟨hpc, -⟩ | ⟨-, hpc', hold, hnum⟩
      · exact absurd hpc hrecv
      · refine ⟨.served, hold, ?_, hnum⟩
        obtain ⟨r, -, hs⟩ := ssi_step h
        have hdev : m.ssi.devSlot = none := by
          rw [Option.eq_none_iff_forall_ne_some]
          intro i hslot
          exact hpc' (hs ▸ Ssi.next_of_slot (.inl hslot))
        have hclock : m.ssi.clockSlot m.k = none := by
          rw [Option.eq_none_iff_forall_ne_some]
          intro i hslot
          exact hpc' (hs ▸ Ssi.next_of_slot (.inr hslot))
        simp only [Ssi.moves, hdev, hclock]
    | dev i =>
      rcases has_dev (g := g) h hp ht with ⟨hslot, hold, hnum⟩ | ⟨-, hold, -, hnum⟩
      · exact ⟨.served, hold, by simp only [Ssi.moves, hslot], hnum⟩
      · exact ⟨.dev i, hold, rfl, hnum⟩
    | clock i =>
      rcases has_clock (g := g) h hp ht with ⟨hslot, hold, hnum⟩ | ⟨-, hold, -, hnum⟩
      · have hdev : m.ssi.devSlot = none := by
          simp [Ssi.devSlot, Ssi.clockSlot_pc hslot]
        exact ⟨.served, hold, by simp only [Ssi.moves, hdev, hslot], hnum⟩
      · exact ⟨.clock i, hold, rfl, hnum⟩
  by_cases hb : m.born (.ssi old) = some p
  · refine .of_none fun t' ht => ?_
    obtain ⟨t, hold, -⟩ := hhas t' ht
    exact none_unasked hw hpool h hb hun hold
  · have hold := ha.single p hp fun hfree => hf (tcbFree_kept hw h hb hfree)
    refine hold.of_moved (m.ssi.moves m.k) hhas fun _ => ?_
    exact pend_kept_ssi hw hn hi h hf fun v hcall => absurd hcall (hc p v)

theorem recv_rest {old : State} {x : Msg} {rest : List Msg} (h : m.Step (.ssi old) m')
    (hrecv : m.ssi.pc = .recv)
    (hpop : popMessage (m.k.tcb m.k.ssiTcb).tInbox anyMessage = some (x, rest)) :
    (m'.k.tcb m.k.ssiTcb).tInbox = rest := by
  have hcur : m.k.currentThread = m.k.ssiTcb := h.1
  obtain ⟨r, hperf, -⟩ := ssi_step h
  rw [show m.ssi.call m.k = .msgRecv m.ssi.reqStruct by simp [Ssi.call, hrecv]] at hperf
  obtain ⟨k, hk, hr⟩ := bind_eq_ok.mp hperf
  cases hr
  have hfound := Kernel.sysbpHandler_popped (old.syscall_isRecv _ _).1 (old.syscall_isRecv _ _).2 hk
  rw [hcur, (old.syscall_regs _ _ _).2.1, hpop] at hfound
  rcases hfound with ⟨hx, -⟩ | ⟨x', rest', hx, hbox, -⟩
  · cases hx
  · cases hx
    exact hbox

/-- The SSI only takes a message. -/
theorem has_recv {old : State} (hw : m.Wf) (hi : m.Apart) (hpool' : m'.k.Pooled)
    (h : m.Step (.ssi old) m') (hrecv : m.ssi.pc = .recv) (hp : p ∈ threadArray)
    (ht : m'.Has p t) : (t ≠ .served ∧ m.Has p t ∧ (g.note m (.ssi old) m').of t = g.of t) ∨
      t = .served ∧ ∃ x rest,
        popMessage (m.k.tcb m.k.ssiTcb).tInbox anyMessage = some (x, rest) ∧ p = x.mSender := by
  have hc : ∀ d v, m.ssi.call m.k ≠ .msgSend d v := by simp [Ssi.call, hrecv]
  have hmail := unmailed_quiet hw hi h (entry_ssi hc).1 (entry_ssi hc).2 hp
  cases t with
  | asked b => exact .inl ⟨by simp, hmail.has_asked hw h hpool' ht⟩
  | answer b => exact .inl ⟨by simp, hmail.has_answer hpool' hp ht⟩
  | served =>
    rcases has_served_ssi (g := g) hw h ht with ⟨-, hx⟩ | ⟨hpc, -⟩
    · exact .inr ⟨rfl, hx⟩
    · exact absurd hrecv hpc
  | dev i =>
    rcases has_dev (g := g) h hp ht with ⟨hs, -⟩ | ⟨-, hx, -, hnum⟩
    · simp [Ssi.devSlot, hrecv] at hs
    · exact .inl ⟨by simp, hx, hnum⟩
  | clock i =>
    rcases has_clock (g := g) h hp ht with ⟨hs, -⟩ | ⟨-, hx, -, hnum⟩
    · simp [Ssi.clockSlot, hrecv] at hs
    · exact .inl ⟨by simp, hx, hnum⟩

/-- A request in the inbox becomes the one that is served. -/
theorem Answered.single_recv {old : State} (ha : m.Answered g) (hw : m.Wf) (hn : m.ssi.Named)
    (hi : m.Apart) (hpool : m.k.Pooled) (hpool' : m'.k.Pooled) (h : m.Step (.ssi old) m')
    (hrecv : m.ssi.pc = .recv) (hp : p ∈ threadArray) (hf : p ∉ m'.k.tcbFree) :
    m'.Single (g.note m (.ssi old) m') p := by
  have hcall : m.ssi.call m.k = .msgRecv m.ssi.reqStruct := by simp [Ssi.call, hrecv]
  have hborn : m.born (.ssi old) ≠ some p := by simp [born, hcall]
  have hold := ha.single p hp fun hfree => hf (tcbFree_kept hw h hborn hfree)
  have hhas := fun t => has_recv (t := t) (g := g) hw hi hpool' h hrecv hp
  have hkept := pend_kept_ssi (g := g) hw hn hi h hf fun v hx => by
    rw [hcall] at hx
    cases hx
  cases hpop : popMessage (m.k.tcb m.k.ssiTcb).tInbox anyMessage with
  | none =>
    refine hold.of_moved id (fun t ht => ?_) fun _ => hkept
    rcases hhas t ht with ⟨-, hx, hnum⟩ | ⟨-, x, rest, hx, -⟩
    · exact ⟨t, hx, rfl, hnum⟩
    · rw [hpop] at hx
      cases hx
  | some y =>
    obtain ⟨x, rest⟩ := y
    refine hold.of_moved (Token.taken x.addr) (fun t ht => ?_) fun _ => hkept
    rcases hhas t ht with ⟨hserved, hx, hnum⟩ | ⟨rfl, y, rest', hy, rfl⟩
    · refine ⟨t, hx, ?_, hnum⟩
      cases t with
      | asked b =>
        -- another message is still in the inbox
        obtain ⟨y, hy, -, rfl⟩ := ht
        rw [(ops_of_step hw h).ssiTcb, recv_rest h hrecv hpop] at hy
        exact (if_neg (popMessage_rest (hpool.inbox_nodup hw.ssi) hpop hy)).symm
      | served | dev i | clock i | answer b => rfl
    · rw [hpop] at hy
      cases hy
      obtain ⟨pre, post, hq, -⟩ := popMessage_some hpop
      refine ⟨.asked x.addr, ⟨x, by simp [hq], rfl, rfl⟩, (if_pos rfl).symm, ?_⟩
      rw [Numbers.of_served, Numbers.of_asked]
      simp only [Numbers.note, Numbers.noteRequest]
      rw [if_pos hrecv]
      simp only [hpop]

/-- The SSI answers a request of the thread it sends to. -/
theorem has_source {old : State} {d : Ptr} {v : U32} (hsure : m.ssi.Sure)
    (h : m.Step (.ssi old) m') (hc : m.ssi.call m.k = .msgSend d v) : m.Has d m.ssi.source := by
  have hcur : m.k.currentThread = m.k.ssiTcb := h.1
  have hat := m.ssi.call_at m.k
  rw [hc] at hat
  rcases hat with ⟨hs, rfl⟩ | ⟨i, hpc, rfl, -, -⟩ | ⟨n, hpc, hd, rfl, -⟩
  · have hserved : m.ssi.source = .served ∧ m.ssi.owes = true ∧ m.ssi.pc ≠ .got ∧
        m.ssi.pc ≠ .init ∧ m.ssi.pc ≠ .recv := by
      rcases Ssi.msgSend_pc hc with ⟨i, hpc⟩ | hpc | ⟨c, hpc⟩ | hpc | hpc | hpc | hpc
      · simp [hpc, SsiPc.serves] at hs
      · simp [hpc, SsiPc.serves] at hs
      all_goals simp [Ssi.source, Ssi.owes, hpc]
    obtain ⟨hsource, howes, hpc⟩ := hserved
    rw [hsource]
    exact ⟨mem_requester.mpr ⟨.inr hcur, .inr ⟨hpc.1, hpc.2.1, hpc.2.2, rfl⟩⟩, howes⟩
  · have hlt : i < maxThreads - 1 := by
      by_contra hlt
      simp [Ssi.call, hpc, hlt] at hc
    rw [show m.ssi.source = .clock i by simp [Ssi.source, hpc]]
    exact ⟨by simp [hpc], hlt, rfl, by simp [hpc]⟩
  · rw [show m.ssi.source = .dev n by simp [Ssi.source, hpc, hd]]
    exact ⟨by simp [hpc], hsure.index (.inr hpc) n hd, rfl, by simp [hpc]⟩

theorem slots_none {d : Ptr} {v : U32} (hc : m.ssi.call m.k = .msgSend d v) :
    m.ssi.devSlot = none ∧ m.ssi.clockSlot m.k = none := by
  constructor
  · rw [Option.eq_none_iff_forall_ne_some]
    intro i hslot
    have hpc := Ssi.devSlot_pc hslot
    simp only [Ssi.devSlot, hpc, Option.filter_eq_some_iff, decide_eq_true_eq] at hslot
    simp [Ssi.call, hpc, hslot.1, hslot.2] at hc
  · rw [Option.eq_none_iff_forall_ne_some]
    intro i hslot
    have hpc := Ssi.clockSlot_pc hslot
    simp only [Ssi.call, hpc] at hc
    split at hc <;> cases hc

/-- A token of the recipient after the message of the SSI is the message, or it had another one. -/
theorem answered_has {old : State} {d : Ptr} {v : U32} (hw : m.Wf) (hsure : m.ssi.Sure)
    (h : m.Step (.ssi old) m') (hc : m.ssi.call m.k = .msgSend d v)
    (hm : m.k.Mailed d v m'.k) (hd : d ∈ threadArray) (ht : m'.Has d t) :
    (∃ x ∈ (m'.k.tcb d).tInbox, x ∉ (m.k.tcb d).tInbox ∧ t = .answer x.addr) ∨
      m.Has d t ∧ t ≠ m.ssi.source := by
  have hcur : m.k.currentThread = m.k.ssiTcb := h.1
  have hid : m.k.senderId m.k.currentThread = magicSsi := if_pos hcur
  have hslots := slots_none hc
  have hasked : ∀ b, m.ssi.source ≠ .asked b ∧ m.ssi.source ≠ .answer b := by
    intro b
    unfold Ssi.source
    repeat' split
    all_goals simp
  cases t with
  | asked b =>
    obtain ⟨x, hx, hsend, rfl⟩ := ht
    rw [(ops_of_step hw h).ssiTcb] at hx
    rcases hm.mem_inbox _ x hx with hx | ⟨-, hmagic, -⟩
    · exact .inr ⟨⟨x, hx, hsend, rfl⟩, (hasked x.addr).1.symm⟩
    · rw [hsend, hid] at hmagic
      exact absurd (hmagic ▸ hd) magicSsi_notMem_threadArray
  | answer b =>
    obtain ⟨x, hx, hsend, rfl⟩ := ht
    by_cases hold : x ∈ (m.k.tcb d).tInbox
    · exact .inr ⟨⟨x, hold, hsend, rfl⟩, (hasked x.addr).2.symm⟩
    · exact .inl ⟨x, hx, hold, rfl⟩
  | served =>
    have howes := ht.2
    rcases has_served_ssi (g := .start) hw h ht with ⟨hpc, -⟩ | ⟨-, hpc', hold, -⟩
    · simp [Ssi.call, hpc] at hc
    · refine .inr ⟨hold, fun hsource => ?_⟩
      obtain ⟨r, -, hs⟩ := ssi_step h
      have hserves : m.ssi.pc.serves = true := by
        have hat := m.ssi.call_at m.k
        rw [hc] at hat
        rcases hat with ⟨hs, -⟩ | ⟨i, hpc, -⟩ | ⟨n, hpc, hn, -⟩
        · exact hs
        · simp [Ssi.source, hpc] at hsource
        · simp [Ssi.source, hpc, hn] at hsource
      rcases Ssi.next_of_answer (r := r) hsure hserves hc with hpc | hno
      · exact hpc' (hs ▸ hpc)
      · rw [hs, hno] at howes
        cases howes
  | dev i =>
    rcases has_dev (g := .start) h hd ht with ⟨hslot, -⟩ | ⟨-, hold, hint, -⟩
    · rw [hslots.1] at hslot
      cases hslot
    · refine .inr ⟨hold, fun hsource => hint ?_⟩
      unfold Ssi.source at hsource
      repeat' split at hsource
      all_goals cases hsource
      exact ⟨‹_›, ‹_›⟩
  | clock i =>
    rcases has_clock (g := .start) h hd ht with ⟨hslot, -⟩ | ⟨-, hold, hpc, -⟩
    · rw [hslots.2] at hslot
      cases hslot
    · refine .inr ⟨hold, fun hsource => hpc ?_⟩
      unfold Ssi.source at hsource
      repeat' split at hsource
      all_goals cases hsource
      assumption

/-- The answered request becomes the answer, and is gone if its thread gets it at once. -/
theorem Single.answered {old : State} {v : U32} (hold : m.Single g p) (hw : m.Wf)
    (hn : m.ssi.Named) (hi : m.Apart) (hsure : m.ssi.Sure) (h : m.Step (.ssi old) m')
    (hc : m.ssi.call m.k = .msgSend p v) (hp : p ∈ threadArray) (hf : p ∉ m'.k.tcbFree) :
    m'.Single (g.note m (.ssi old) m') p := by
  have hm := ssi_mailed hw hn h hc
  obtain ⟨t₀, h₀⟩ := hold
  obtain ⟨ht₀, hpend, hnum⟩ := h₀ _ (has_source hsure h hc)
  have honly : ∀ t, m'.Has p t →
      ∃ x ∈ (m'.k.tcb p).tInbox, x ∉ (m.k.tcb p).tInbox ∧ t = .answer x.addr := by
    intro t ht
    rcases answered_has hw hsure h hc hm hp ht with hx | ⟨hx, hne⟩
    · exact hx
    · exact absurd ((h₀ t hx).1.trans ht₀.symm) hne
  cases hm with
  | nothing hin _ =>
    refine .of_none fun t ht => ?_
    obtain ⟨x, hx, hnot, -⟩ := honly t ht
    exact hnot (hin p x hx)
  | handed _ _ hin _ _ =>
    refine .of_none fun t ht => ?_
    obtain ⟨x, hx, hnot, -⟩ := honly t ht
    exact hnot (hin p ▸ hx)
  | queued a hin hwait =>
    obtain ⟨hpend', hasked'⟩ := pend_kept_ssi (g := g) hw hn hi h hf
      fun _ _ hx => hwait ▸ hx
    refine ⟨.answer a, fun t ht => ?_⟩
    obtain ⟨x, hx, hnot, rfl⟩ := honly t ht
    have hposted : Origins.Posted m m' x.addr := ⟨p, hp, x, hx, hnot, rfl⟩
    rw [hin p, if_pos rfl] at hx
    have hxa : x.addr = a := by
      rw [(Kernel.mem_queued hx).resolve_right hnot]
    refine ⟨by rw [hxa], hpend'.trans hpend, ?_⟩
    rw [Numbers.of_answer, hasked', ← hnum]
    simp only [Numbers.note]
    rw [if_pos hposted]
    rfl

/-- A message of the SSI concerns its recipient only. -/
theorem has_bystander {old : State} {d : Ptr} {v : U32} (hw : m.Wf) (hn : m.ssi.Named)
    (hpool' : m'.k.Pooled) (h : m.Step (.ssi old) m') (hc : m.ssi.call m.k = .msgSend d v)
    (hd : p ≠ d) (hp : p ∈ threadArray) (ht : m'.Has p t) :
    m.Has p t ∧ (g.note m (.ssi old) m').of t = g.of t := by
  have hcur : m.k.currentThread = m.k.ssiTcb := h.1
  have hid : m.k.senderId m.k.currentThread = magicSsi := if_pos hcur
  have hmail : Unmailed m m' p := by
    refine unmailed_send (ssi_mailed hw hn h hc) (fun _ => ?_) fun he => absurd he.symm hd
    rw [hid]
    exact fun he => magicSsi_notMem_threadArray (he ▸ hp)
  have hslots := slots_none hc
  cases t with
  | asked b => exact hmail.has_asked hw h hpool' ht
  | answer b => exact hmail.has_answer hpool' hp ht
  | served =>
    rcases has_served_ssi (g := g) hw h ht with ⟨hpc, -⟩ | ⟨-, -, hx⟩
    · simp [Ssi.call, hpc] at hc
    · exact hx
  | dev i =>
    rcases has_dev (g := g) h hp ht with ⟨hs, -⟩ | ⟨-, hx, -, hnum⟩
    · rw [hslots.1] at hs
      cases hs
    · exact ⟨hx, hnum⟩
  | clock i =>
    rcases has_clock (g := g) h hp ht with ⟨hs, -⟩ | ⟨-, hx, -, hnum⟩
    · rw [hslots.2] at hs
      cases hs
    · exact ⟨hx, hnum⟩

theorem Answered.single_send {old : State} {d : Ptr} {v : U32} (ha : m.Answered g) (hw : m.Wf)
    (hn : m.ssi.Named) (hi : m.Apart) (hsure : m.ssi.Sure) (hpool' : m'.k.Pooled)
    (h : m.Step (.ssi old) m') (hc : m.ssi.call m.k = .msgSend d v) (hp : p ∈ threadArray)
    (hf : p ∉ m'.k.tcbFree) : m'.Single (g.note m (.ssi old) m') p := by
  have hborn : m.born (.ssi old) ≠ some p := by simp [born, hc]
  have hold := ha.single p hp fun hfree => hf (tcbFree_kept hw h hborn hfree)
  by_cases hd : p = d
  · subst hd
    exact hold.answered hw hn hi hsure h hc hp hf
  · have hhas : ∀ t, m'.Has p t → m.Has p t ∧ (g.note m (.ssi old) m').of t = g.of t :=
      fun t => has_bystander hw hn hpool' h hc hd hp
    refine hold.of_moved id (fun t ht => ⟨t, (hhas t ht).1, rfl, (hhas t ht).2⟩) fun _ => ?_
    refine pend_kept_ssi hw hn hi h hf fun w hx => ?_
    rw [hc] at hx
    cases hx
    exact absurd rfl hd

/-- A step keeps it at one token for each TCB. -/
theorem Answered.single_step (ha : m.Answered g) (hw : m.Wf) (hn : m.ssi.Named) (hi : m.Apart)
    (hsure : m.ssi.Sure) (hpool : m.k.Pooled) (hpool' : m'.k.Pooled) (h : m.Step e m')
    (hon : m.OnlyRequests e g.pend) (hun : m.Unasked e) (hp : p ∈ threadArray)
    (hf : p ∉ m'.k.tcbFree) : m'.Single (g.note m e m') p := by
  cases e with
  | ssi old =>
    by_cases hsend : ∃ d v, m.ssi.call m.k = .msgSend d v
    · obtain ⟨d, v, hc⟩ := hsend
      exact ha.single_send hw hn hi hsure hpool' h hc hp hf
    · have hc : ∀ d v, m.ssi.call m.k ≠ .msgSend d v := fun d v hc => hsend ⟨d, v, hc⟩
      by_cases hrecv : m.ssi.pc = .recv
      · exact ha.single_recv hw hn hi hpool hpool' h hrecv hp hf
      · exact ha.single_local hw hn hi hpool hpool' h hc hrecv hun hp hf
  | sysbp old =>
    by_cases hr : (Event.sysbp old).requests = true
    · exact ha.single_request hw hn hi hpool' h hon hr hp hf
    · exact ha.single_other hw hn hi hpool hpool' h (fun _ => sysbp_ne_ssi) hon (by simpa using hr) hp hf
  | pgmtrap | tlb | interrupt | devices | store | edit =>
    exact ha.single_other hw hn hi hpool hpool' h (by simp) hon rfl hp hf

/-- A new message under the name of the SSI is its answer. -/
theorem answer_new {x : Msg} (hw : m.Wf) (hn : m.ssi.Named) (hi : m.Apart) (h : m.Step e m')
    (hon : m.OnlyRequests e g.pend) (hp : p ∈ threadArray) (hx : x ∈ (m'.k.tcb p).tInbox)
    (hnot : x ∉ (m.k.tcb p).tInbox) (hs : x.mSender = magicSsi) :
    (∃ old, e = .ssi old) ∧ m.ssi.call m.k = .msgSend p x.mMessage := by
  by_cases hsend : ∃ old d v, e = .ssi old ∧ m.ssi.call m.k = .msgSend d v
  · obtain ⟨old, d, v, rfl, hc⟩ := hsend
    obtain ⟨rfl, -, rfl⟩ := ((ssi_mailed hw hn h hc).mem_inbox p x hx).resolve_left hnot
    exact ⟨⟨old, rfl⟩, hc⟩
  · exfalso
    have hmail : Unmailed m m' p := by
      by_cases he : ∀ old, e ≠ .ssi old
      · by_cases hr : e.requests = true
        · cases e with
          | sysbp old =>
            simp only [Event.requests, Bool.and_eq_true, decide_eq_true_eq] at hr
            have hm := sysbp_mailed hw h hr.1
            have hid : m.k.senderId m.k.currentThread = m.k.currentThread := if_neg h.1.2
            obtain ⟨-, hmagic, -⟩ := (hm.mem_inbox p x hx).resolve_left hnot
            rw [hid, hs] at hmagic
            exact absurd hmagic.symm (current_ne_notWaiting hw)
          | ssi old => exact absurd rfl (he old)
          | pgmtrap | tlb | interrupt | devices | store | edit => cases hr
        · exact (unmailed_other hw hi h he hon (by simpa using hr) hp).1
      · obtain ⟨old, rfl⟩ : ∃ old, e = .ssi old := by simpa using he
        have hc : ∀ d v, m.ssi.call m.k ≠ .msgSend d v := fun d v hc =>
          hsend ⟨old, d, v, rfl, hc⟩
        exact unmailed_quiet hw hi h (entry_ssi hc).1 (entry_ssi hc).2 hp
    rcases hmail.answer x hx with hx | hx
    · exact hnot hx
    · exact hx hs

theorem note_sent : (g.note m e m').sent = g.sent ++ g.answer m e := by
  simp only [Numbers.note]

theorem Answered.value_step (ha : m.Answered g) (hw : m.Wf) (hn : m.ssi.Named) (hi : m.Apart)
    (hpool' : m'.k.Pooled) (h : m.Step e m') (hon : m.OnlyRequests e g.pend)
    (hp : p ∈ threadArray) {x : Msg} (hx : x ∈ (m'.k.tcb p).tInbox) (hs : x.mSender = magicSsi) :
    ((g.note m e m').tag x.addr, x.mMessage) ∈ (g.note m e m').sent := by
  rw [note_sent]
  by_cases hold : x ∈ (m.k.tcb p).tInbox
  · rw [note_tag hpool' hp hold hx]
    exact List.mem_append_left _ (ha.value p hp x hold hs)
  · obtain ⟨⟨old, rfl⟩, hc⟩ := answer_new hw hn hi h hon hp hx hold hs
    have hposted : Origins.Posted m m' x.addr := ⟨p, hp, x, hx, hold, rfl⟩
    refine List.mem_append_right _ ?_
    simp only [Numbers.note, Numbers.answer, hc]
    rw [if_pos hposted]
    exact List.mem_singleton_self _

/-- Whoever returns from its request got the answer to it. -/
theorem Answered.right_step (ha : m.Answered g) (hw : m.Wf) (hn : m.ssi.Named)
    (hsure : m.ssi.Sure) (h : m.Step e m') {r : Return} (hr : r ∈ g.returns m e m') :
    r.answered = r.asked ∧ (r.answered, r.value) ∈ g.sent ++ g.answer m e := by
  cases e with
  | sysbp old =>
    simp only [Numbers.returns] at hr
    split at hr
    · next hcol =>
      obtain ⟨hcol, hout⟩ := hcol
      simp only [Event.collects, Bool.and_eq_true, decide_eq_true_eq] at hcol
      obtain ⟨k, hk, he⟩ := bind_eq_ok.mp h.2
      cases he
      obtain ⟨x, rest, hpop, -, hmem⟩ :=
        (Kernel.sysbpHandler_popped (State.isSend_of_isRecv hcol.1) hcol.1 hk).resolve_left
          fun hx => hout hx.2
      rw [hcol.2] at hpop
      simp only [hpop, List.mem_singleton] at hr
      subst hr
      obtain ⟨pre, post, hq, -, -, hsend⟩ := popMessage_some hpop
      have hsend := (hsend (by decide)).1
      have hx : x ∈ (m.k.tcb m.k.currentThread).tInbox := by simp [hq]
      have hlive : m.k.Live m.k.currentThread := current_live h.1.1
      have hp := hw.placed.sub _ hlive.mem_places
      obtain ⟨t₀, h₀⟩ := ha.single _ hp (hlive.notMem_free hw.placed)
      have hnum := (h₀ (.answer x.addr) ⟨x, hx, hsend, rfl⟩).2.2
      refine ⟨hnum, List.mem_append_left _ ?_⟩
      rw [show k.mem old.regA2 = x.mMessage from hmem]
      exact ha.value _ hp x hx hsend
    · cases hr
  | ssi old =>
    simp only [Numbers.returns] at hr
    split at hr
    · next d v hc =>
      split at hr
      · next hwoken =>
        obtain ⟨hin, hwf, hout, hf⟩ := hwoken
        have hcur : m.k.currentThread = m.k.ssiTcb := h.1
        have hp := Ssi.msgSend_mem hn hw.requester hc
        have hlive : m.k.Live d := .inr (.inl hin)
        obtain ⟨t₀, h₀⟩ := ha.single d hp (hlive.notMem_free hw.placed)
        have hnum := (h₀ _ (has_source hsure h hc)).2.2
        have hval : m'.k.mem (m.k.tcb d).reply = v := by
          cases ssi_mailed hw hn h hc with
          | nothing _ hwait =>
            refine absurd (hwait d hin ?_ hf) hout
            rw [hwf, hcur]
            rintro he
            exact magicSsi_notMem_threadArray (he ▸ hw.ssi)
          | queued a _ hwait => exact absurd (hwait ▸ hin) hout
          | handed _ _ _ _ hmem => exact hmem
        rw [List.mem_singleton.mp hr]
        refine ⟨hnum, List.mem_append_right _ ?_⟩
        simp only [Numbers.answer, hc, hval]
        exact List.mem_singleton_self _
      · cases hr
    · cases hr
  | pgmtrap | tlb | interrupt | devices | store | edit => cases hr

theorem Answered.step (ha : m.Answered g) (hw : m.Wf) (hn : m.ssi.Named) (hi : m.Apart)
    (hsure : m.ssi.Sure) (hpool : m.k.Pooled) (hpool' : m'.k.Pooled) (h : m.Step e m')
    (hon : m.OnlyRequests e g.pend) (hun : m.Unasked e) : m'.Answered (g.note m e m') := by
  constructor
  · intro p hp hf
    exact ha.single_step hw hn hi hsure hpool hpool' h hon hun hp hf
  · intro p hp x hx hs
    exact ha.value_step hw hn hi hpool' h hon hp hx hs
  · intro r hr
    rw [note_sent]
    have hreturned : (g.note m e m').returned = g.returned ++ g.returns m e m' := by
      simp only [Numbers.note]
    rw [hreturned] at hr
    rcases List.mem_append.mp hr with hr | hr
    · exact ⟨(ha.right r hr).1, List.mem_append_left _ (ha.right r hr).2⟩
    · exact ha.right_step hw hn hsure h hr

/-- A step of a system whose threads use `SSIRequest`. -/
def RequestStep (s : Machine × Numbers) (e : Event) (t : Machine × Numbers) : Prop :=
  withHistory Step Numbers.note s e t ∧ s.1.OnlyRequests e s.2.pend

/-- Such a step that does not pass on a request to the next owner of a TCB. -/
def AnswerStep (s : Machine × Numbers) (e : Event) (t : Machine × Numbers) : Prop :=
  withHistory Step Numbers.note s e t ∧ (s.1.OnlyRequests e s.2.pend ∧ s.1.Unasked e)

theorem initial_answered (h : m.Initial) : m.Answered .start := by
  obtain ⟨k, hp, hm⟩ := h.boot
  have hb := Kernel.main_booted hp hm
  have hempty := hb.tInbox
  refine ⟨fun p hp _ => .of_none fun t ht => ?_, fun p hp x hx => ?_, fun r hr => nomatch hr⟩
  · cases t with
    | asked b =>
      obtain ⟨x, hx, -⟩ := ht
      rw [hempty _ (initial_wf h).ssi] at hx
      cases hx
    | served =>
      have hq := (mem_requester.mp ht.1).2
      simp [h.pc] at hq
    | dev i | clock i => exact ht.1 h.pc
    | answer b =>
      obtain ⟨x, hx, -⟩ := ht
      rw [hempty p hp] at hx
      cases hx
  · rw [hempty p hp] at hx
    cases hx

/-- In every run in which no TCB is allocated while the SSI still has something of its last owner,
every request returns with the answer to that request. -/
theorem answers_right {es : List Event} (h : m.Initial)
    (hr : Run AnswerStep (m, Numbers.start) es (m', g)) :
    ∀ r ∈ g.returned, r.answered = r.asked ∧ (r.answered, r.value) ∈ g.sent := by
  obtain ⟨k, hp, hm⟩ := h.boot
  have hinv : m'.Wf ∧ m'.k.Pooled ∧ m'.Apart ∧ m'.ssi.Named ∧ m'.ssi.Sure ∧ m'.Answered g := by
    refine hr.inv (I := fun s => s.1.Wf ∧ s.1.k.Pooled ∧ s.1.Apart ∧ s.1.ssi.Named ∧
      s.1.ssi.Sure ∧ s.1.Answered s.2) ?_
      ⟨initial_wf h, (Kernel.main_booted hp hm).pooled, initial_apart h, fun hpc => absurd h.pc hpc,
        .of_pc (by simp [h.pc]) (by simp [h.pc]), initial_answered h⟩
    rintro ⟨m, g⟩ e ⟨m', g'⟩ ⟨⟨hs, he⟩, hon, hun⟩ ⟨hw, hpool, hi, hn, hsure, ha⟩
    dsimp only at hs he hon hun hw hpool hi hn hsure ha
    have hpool' := Kernel.keeps_pooled.step hw hs hpool
    have hsure' : m'.ssi.Sure := by
      rcases step_cases hs with ⟨hssi, -⟩ | ⟨old, r, -, -, -, hssi⟩ <;> rw [hssi]
      · exact hsure
      · exact hsure.next
    rw [he]
    exact ⟨hw.step hs, hpool', hi.step hw hs, ssi_named hw hs hn, hsure',
      ha.step hw hn hi hsure hpool hpool' hs hon hun⟩
  exact hinv.2.2.2.2.2.right

/-- The test thread asks for a son, and gets the answer. -/
def sonAnswered : List Event :=
  Event.ssiCalls 2 ++ Event.ssiRequest createSon 0 ++ Event.ssiCalls 11

theorem answers_right_son : ∃ m m' : Machine, ∃ g,
    Run AnswerStep (m, Numbers.start) sonAnswered (m', g) ∧ g.returned.length = 1 ∧
    ∀ r ∈ g.returned, r.answered = r.asked ∧ (r.answered, r.value) ∈ g.sent := by
  have hrun : passes (fun m => passes (fun s => s.2.returned.length = 1)
      (exec (guarded (fun s e _ => s.1.OnlyRequests e s.2.pend ∧ s.1.Unasked e) Stop.fault
        (execWith fire Numbers.note)) (m, Numbers.start) sonAnswered)) (start .zeroed) = true := by
    decide +kernel
  obtain ⟨m, hm, hrun⟩ := exists_of_passes hrun
  obtain ⟨⟨m', g⟩, hs, hlen⟩ := exists_of_passes hrun
  have hr : Run AnswerStep (m, Numbers.start) sonAnswered (m', g) :=
    run_of_guarded (fun _ _ _ => step_of_fire) hs
  exact ⟨m, m', g, hr, of_decide_eq_true hlen,
    answers_right (initial_of_start Kernel.zeroed_powerOn hm) hr⟩

/-- The last TCB of the array. -/
def lastThreadAddr : Ptr := threadArrayAddr + BitVec.ofNat 32 (19 * sizeofTcb)

/-- All TCBs are in use: the last one by a son of the first son. -/
def grandson : List Event :=
  Event.ssiCalls 2 ++ (List.replicate 17 oneSon).flatten ++
    [.call sysSend thirdThreadAddr 0, .call sysRecv anyMessage 0x20030200] ++ oneSon

/-- The first son asks for its end, the test thread for a son, the grandson for its processor time.
The grandson dies with its father, and its TCB goes to the new son, which asks for its processor
time and finds the answer to the dead thread. -/
def answeredTwice : List Event :=
  grandson ++
    [.call sysSend testThreadAddr 0, .call sysSend lastThreadAddr 0,
      .store 0x20030000 terminateService, .call sysSend magicSsi 0x20030000,
      .call sysRecv magicSsi 0x20030100,
      .store 0x20030010 createSon, .call sysSend magicSsi 0x20030010,
      .call sysRecv magicSsi 0x20030110,
      .store 0x20030020 getCpuTime, .call sysSend magicSsi 0x20030020,
      .call sysRecv magicSsi 0x20030120] ++ Event.ssiCalls 23 ++
    [.call sysSend magicSsi 0x20030020, .call sysRecv magicSsi 0x20030120]

theorem answers_mixed : ¬ ∀ (m m' : Machine) (es : List Event) g, m.Initial →
    Run RequestStep (m, Numbers.start) es (m', g) →
    ∀ r ∈ g.returned, r.answered = r.asked ∧ (r.answered, r.value) ∈ g.sent := by
  intro hall
  have hrun : passes (fun m => passes (fun s => s.2.returned.any fun r => r.answered ≠ r.asked)
      (exec (guarded (fun s e _ => s.1.OnlyRequests e s.2.pend) Stop.fault
        (execWith fire Numbers.note)) (m, Numbers.start) answeredTwice)) (start .zeroed) = true := by
    decide +kernel
  obtain ⟨m, hm, hrun⟩ := exists_of_passes hrun
  obtain ⟨⟨m', g⟩, hs, hbad⟩ := exists_of_passes hrun
  have hr : Run RequestStep (m, Numbers.start) answeredTwice (m', g) :=
    run_of_guarded (fun _ _ _ => step_of_fire) hs
  obtain ⟨r, hmem, hne⟩ := List.any_eq_true.mp hbad
  have hright := hall m m' _ g (initial_of_start Kernel.zeroed_powerOn hm) hr r hmem
  exact of_decide_eq_true hne hright.1

end Machine

end AmiKaya
