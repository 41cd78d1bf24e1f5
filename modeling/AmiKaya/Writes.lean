import AmiKaya.Footprint

/-! Which words of memory the kernel writes: its own slots, and what the threads have asked it to.
-/
namespace AmiKaya
open Lts
open CpuLog (birth)

/-- History: the reply address of the RECV in which each thread was last blocked since it was
created. -/
def Machine.noteAsked (m : Machine) (e : Event) (m' : Machine) (asked : Ptr → Ptr) : Ptr → Ptr :=
  fun p =>
    if m.born e = some p then notWaiting
    else if p = m.k.currentThread ∧ p ∈ m'.k.waitQueue then (m.replyAddress e).getD (asked p)
    else asked p

/-- The three words of a slot of `interrupt_msg_array`. -/
def slot (i : Nat) : List Ptr :=
  [interruptMsgSlot i, interruptMsgSlot i + 4, interruptMsgSlot i + 8]

theorem Kernel.fillSlot_mem {k : Kernel} {service arg : U32} {a : Ptr} (ha : a ∉ slot k.intIndex) :
    (k.fillSlot service arg).mem a = k.mem a := by
  simp only [slot, List.mem_cons, List.not_mem_nil, or_false, not_or] at ha
  simp only [fillSlot, Links.put_ne ha.1, Links.put_ne ha.2.1, Links.put_ne ha.2.2]

theorem Kernel.main_reply {k k' : Kernel} (hm : k.main = .ok k') :
    (k'.tcb threadArrayAddr).reply = notWaiting ∧ (k'.tcb testThreadAddr).reply = notWaiting := by
  have hne : threadArrayAddr ≠ null ∧ testThreadAddr ≠ null := by decide
  have hne' : threadArrayAddr ≠ testThreadAddr := by decide
  obtain ⟨k₁, hb, hs⟩ := bind_eq_ok.mp hm
  unfold boot at hb
  dsimp only at hb
  rw [bootThread_eq _ _ threadArray_eq hne.1] at hb
  dsimp only [bind, Except.bind] at hb
  rw [bootThread_eq _ _ rfl hne.2] at hb
  have hk := Except.ok.inj hb
  subst hk
  obtain ⟨hq, -, -⟩ := scheduler_dispatch rfl rfl hs
  simp only [hq.reply]
  simp [readTodlow, hne', freshTcb]

/-- The boot threads are the only ones. -/
theorem Kernel.Booted.allocated {k : Kernel} {p : Ptr} (hb : k.Booted) (hp : k.Allocated p) :
    p = threadArrayAddr ∨ p = testThreadAddr := by
  obtain ⟨hm, hf⟩ := hp
  rw [threadArray_eq] at hm
  rw [hb.tcbFree] at hf
  simp only [List.mem_cons] at hm
  tauto

namespace Machine

variable {m m' : Machine} {e : Event} {asked : Ptr → Ptr} {p : Ptr}

/-- A reply pointer is the one that was asked for, or none. -/
def AsAsked (m : Machine) (asked : Ptr → Ptr) : Prop :=
  ∀ p, m.k.Allocated p → (m.k.tcb p).reply = notWaiting ∨ (m.k.tcb p).reply = asked p

/-- An event that sends a message receives none. -/
theorem replyAddress_of_carries {t id : Ptr} {v : U32} (h : m.Carries e t id v) :
    m.replyAddress e = none := by
  cases e with
  | sysbp old =>
    obtain ⟨-, h⟩ := h
    simp only [replyAddress]
    split at h
    · simp [isRecv_of_isSend ‹_›]
    · simp [h.1]
  | ssi old =>
    obtain ⟨dest, hcall, -⟩ := h
    simp [replyAddress, hcall]
  | pgmtrap | tlb | interrupt | devices | store | edit => rfl

theorem born_head {q : Ptr} (h : m.born e = some q) : m.k.tcbFree.head? = some q := by
  cases e with
  | ssi old =>
    simp only [born] at h
    split at h
    · exact h
    · cases h
  | sysbp | pgmtrap | tlb | interrupt | devices | store | edit => cases h

theorem Changes.asked_step (h : m.Changes e m'.k) (hb : m.born e ≠ some p)
    (hi : (m.k.tcb p).reply = notWaiting ∨ (m.k.tcb p).reply = asked p) :
    (m'.k.tcb p).reply = notWaiting ∨ (m'.k.tcb p).reply = m.noteAsked e m' asked p := by
  have hnote : m.replyAddress e = none → m.noteAsked e m' asked p = asked p := by
    intro hr
    simp only [noteAsked, if_neg hb, hr, Option.getD_none, ite_self]
  have hreach : ∀ {c t id v k₀}, (k₀.tcb p).reply = (m.k.tcb p).reply → Reaches c t id v k₀ m'.k →
      (m'.k.tcb p).reply = notWaiting ∨ (m'.k.tcb p).reply = asked p := by
    rintro c t id v k₀ h₀ (hi' | hh)
    · rwa [hi'.reply, h₀]
    · rw [hh.reply, h₀]
      split
      · exact .inl rfl
      · exact hi
  cases h with
  | reached ht h =>
    rw [hnote (replyAddress_of_carries ht)]
    exact hreach rfl h
  | notified he h =>
    rw [hnote (by rw [he]; rfl)]
    rcases h with h | ⟨id, service, arg, -, h⟩
    · rwa [h.reply]
    · have hslot : ((m.k.fillSlot service arg).tcb p).reply = (m.k.tcb p).reply := rfl
      exact hreach hslot h
  | resumed _ hr h => rwa [hnote hr, h.reply]
  | inert hr _ h => rwa [hnote hr, h.reply]
  | stored he _ h => rwa [hnote (by rw [he]; rfl), h.reply]
  | received _ _ _ hw h =>
    have hno : ¬ (p = m.k.currentThread ∧ p ∈ m'.k.waitQueue) := fun hx => hw (hx.1 ▸ hx.2)
    rwa [noteAsked, if_neg hb, if_neg hno, h.reply]
  | blocked ha hw h =>
    rw [h.reply, noteAsked, if_neg hb, ha]
    by_cases hp : p = m.k.currentThread
    · subst hp
      right
      simp [Kernel.setTcb, hw]
    · simpa [Kernel.setTcb, hp] using hi
  | @born q hq hr h =>
    have hne : p ≠ q := fun he => hb (he ▸ hq)
    obtain ⟨free, hf⟩ := List.head?_eq_some_iff.mp (born_head hq)
    rw [hnote hr, h.reply]
    simpa [Kernel.allocTcb, hf, Kernel.setTcb, hne] using hi

theorem AsAsked.step (hi : m.AsAsked asked) (hw : m.Wf) (h : m.Step e m') :
    m'.AsAsked (m.noteAsked e m' asked) := by
  intro p hp
  by_cases hb : m.born e = some p
  · obtain ⟨-, c, free, -, hfree, hal, -⟩ := born_step h hb
    left
    have hk : m'.k = m.k.allocTcb.2 := by rw [hal]
    simp [hk, Kernel.allocTcb, hfree, Kernel.setTcb, Kernel.freshTcb]
  · exact (step_changes hw h).asked_step hb (hi p ((allocated_born hw h hp).resolve_right hb))

/-- A word that an event changes: a store of the thread itself, a slot of the interrupt handler, or
the reply address of the thread that gets a message. -/
theorem Changes.mem_cases (h : m.Changes e m'.k) {a : Ptr} (ha : m'.k.mem a ≠ m.k.mem a) :
    (∃ v, e = .store a v) ∨ (∃ old, e = .interrupt old) ∧ a ∈ slot m.k.intIndex ∨
      m.replyAddress e = some a ∨ ∃ t id v, m.Carries e t id v ∧ t ∈ m.k.waitQueue ∧
        t ∉ m'.k.waitQueue ∧ m'.k.mem a = v ∧ a = (m.k.tcb t).reply ∧ a.toNat % 4 = 0 := by
  have hput : ∀ {b : Ptr} {v : U32} {mem : Ptr → U32}, mem a = m.k.mem a → m'.k.mem = put mem b v → a = b := by
    intro b v mem hm he
    by_contra hne
    rw [he, Links.put_ne hne] at ha
    exact ha hm
  cases h with
  | reached ht h =>
    rcases h with hi | hh
    · exact absurd (congrFun hi.mem a) ha
    · obtain rfl := hput rfl hh.mem
      exact .inr (.inr (.inr ⟨_, _, _, ht, hh.waiting, hh.left, by rw [hh.mem, Links.put_same], rfl,
        hh.aligned⟩))
  | @notified old he h =>
    rcases h with hi | ⟨id, service, arg, hid, hi | hh⟩
    · exact absurd (congrFun hi.mem a) ha
    · refine .inr (.inl ⟨⟨old, he⟩, ?_⟩)
      by_contra hslot
      exact ha ((congrFun hi.mem a).trans (Kernel.fillSlot_mem hslot))
    · by_cases hslot : a ∈ slot m.k.intIndex
      · exact .inr (.inl ⟨⟨old, he⟩, hslot⟩)
      · obtain rfl := hput (Kernel.fillSlot_mem hslot) hh.mem
        subst he
        exact .inr (.inr (.inr ⟨_, id, _, ⟨rfl, hid, rfl⟩, hh.waiting, hh.left,
          by rw [hh.mem]; exact Links.put_same, rfl, hh.aligned⟩))
  | resumed _ _ h => exact absurd (congrFun h.mem a) ha
  | inert _ _ h => exact absurd (congrFun h.mem a) ha
  | @stored b v he hm _ =>
    obtain rfl := hput rfl hm
    exact .inl ⟨v, he⟩
  | received hr _ hm _ _ =>
    obtain rfl := hput rfl hm
    exact .inr (.inr (.inl hr))
  | blocked _ _ h => exact absurd (congrFun h.mem a) ha
  | @born q hq _ h =>
    obtain ⟨free, hf⟩ := List.head?_eq_some_iff.mp (born_head hq)
    have hmem : m.k.allocTcb.2.mem = m.k.mem := by
      simp only [Kernel.allocTcb, hf]
      rfl
    exact absurd (congrFun (h.mem.trans hmem) a) ha

/-- In every run, a word of memory changes only by a store of the current thread, in the slot the
interrupt handler fills, where the current thread wants the payload of a message it receives, or
where the recipient of a message wants the payload, as it said in the RECV in which it was last
blocked. -/
theorem word_changed {es : List Event} {m₁ m₂ : Machine} {a : Ptr} (h : m.Initial)
    (hr : Run (withHistory Step noteAsked) (m, fun _ => notWaiting) es (m₁, asked)) (hs : m₁.Step e m₂)
    (ha : m₂.k.mem a ≠ m₁.k.mem a) :
    (∃ v, e = .store a v) ∨ (∃ old, e = .interrupt old) ∧ a ∈ slot m₁.k.intIndex ∨
      m₁.replyAddress e = some a ∨ ∃ t id v, m₁.Carries e t id v ∧ t ∈ m₁.k.waitQueue ∧
        t ∉ m₂.k.waitQueue ∧ m₂.k.mem a = v ∧ a = asked t := by
  obtain ⟨k, hp, hmain⟩ := h.boot
  have hb := Kernel.main_booted hp hmain
  have hstart : m.AsAsked fun _ => notWaiting := by
    intro p hp
    rcases hb.allocated hp with rfl | rfl
    · exact .inl (Kernel.main_reply hmain).1
    · exact .inl (Kernel.main_reply hmain).2
  have hinv : m₁.Wf ∧ m₁.AsAsked asked := by
    refine hr.inv_history (I := fun m asked => m.Wf ∧ m.AsAsked asked) ?_ ⟨initial_wf h, hstart⟩
    intro m e m' asked hst hi
    exact ⟨hi.1.step hst, hi.2.step hi.1 hst⟩
  rcases (step_changes hinv.1 hs).mem_cases ha with hc | hc | hc | ⟨t, id, v, ht, hwait, hleft, hv, rfl, hal⟩
  · exact .inl hc
  · exact .inr (.inl hc)
  · exact .inr (.inr (.inl hc))
  · refine .inr (.inr (.inr ⟨t, id, v, ht, hwait, hleft, hv, ?_⟩))
    have hallocated := Kernel.Live.allocated hinv.1.placed (.inr (.inl hwait))
    refine (hinv.2 t hallocated).resolve_left fun hn => ?_
    rw [hn] at hal
    exact absurd hal (by decide)

/-- The SSI waits for a request and the test thread sends it one. -/
theorem word_changed_request : ∃ m m₁ m₂ : Machine, ∃ asked e a, m.Initial ∧
    Run (withHistory Step noteAsked) (m, fun _ => notWaiting) (requestTrace.take 4) (m₁, asked) ∧
    m₁.Step e m₂ ∧ m₂.k.mem a ≠ m₁.k.mem a ∧
    ((∃ v, e = .store a v) ∨ (∃ old, e = .interrupt old) ∧ a ∈ slot m₁.k.intIndex ∨
      m₁.replyAddress e = some a ∨ ∃ t id v, m₁.Carries e t id v ∧ t ∈ m₁.k.waitQueue ∧
        t ∉ m₂.k.waitQueue ∧ m₂.k.mem a = v ∧ a = asked t) := by
  have hrun : passes (fun m => passes (fun s =>
      passes (fun (m₂ : Machine) => m₂.k.mem 0x2003EFF0 ≠ s.1.k.mem 0x2003EFF0)
        (fire s.1 (.call sysSend magicSsi 0x20030000)))
      (exec (execWith fire noteAsked) (m, fun _ => notWaiting) (requestTrace.take 4))) (start .zeroed) =
      true := by
    decide +kernel
  obtain ⟨m, hm, hrun⟩ := exists_of_passes hrun
  obtain ⟨⟨m₁, asked⟩, hs₁, hrun⟩ := exists_of_passes hrun
  obtain ⟨m₂, hs₂, hne⟩ := exists_of_passes hrun
  have hinit := initial_of_start Kernel.zeroed_powerOn hm
  have hr := run_of_execWith (fun _ _ _ => step_of_fire) hs₁
  have hs := step_of_fire hs₂
  have hne := of_decide_eq_true hne
  exact ⟨m, m₁, m₂, asked, _, _, hinit, hr, hs, hne, word_changed hinit hr hs hne⟩

end Machine

end AmiKaya
