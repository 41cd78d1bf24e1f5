import AmiKaya.Fifo
import AmiKaya.Letterbox
import AmiKaya.Termination
import AmiKaya.Traps

/-! Message passing against plain letterboxes. A SEND to a thread that waits for it goes past the
inbox; no receiver can tell. -/
namespace AmiKaya
open Lts Letterbox

/-- A message as its receiver sees it: who sent it, and the payload. -/
abbrev Letter := Ptr × U32

def Msg.letter (m : Msg) : Letter := (m.mSender, m.mMessage)

/-- A receive pattern is a sender or ANYMESSAGE. -/
def accepts (w : Ptr) (x : Letter) : Bool := w = anyMessage || x.1 = w

def urgent (x : Letter) : Bool := x.1 = busIntervalTimer

/-- History: the letterbox of each TCB, and what the kernel has given to the thread in it. -/
structure Letters where
  box : Ptr → Box Ptr Letter
  got : Ptr → List Letter

namespace Letters

def empty : Letters := ⟨fun _ => .empty, fun _ => []⟩

def addGot (h : Letters) (p : Ptr) (x : Letter) : Letters :=
  { h with got := put h.got p (h.got p ++ [x]) }

/-- The boxes follow the calls. What a thread has been given is read off its `v0`, or the result of
its call, and the word at its reply pointer. -/
def note (k : Kernel) (o : Op) (k' : Kernel) (h : Letters) : Letters :=
  match o with
  | .send s t v r =>
    if r = msgGood then
      let h' := { h with box := put h.box t ((h.box t).post accepts urgent (k.senderId s, v)) }
      if t ∈ k.waitQueue ∧ t ∉ k'.waitQueue
      then h'.addGot t ((k'.tcb t).tState.regV0, k'.mem (k.tcb t).reply) else h'
    else h
  | .recv p w a r =>
    let h' := { h with box := put h.box p ((h.box p).read accepts w) }
    if p ∈ k'.waitQueue then h' else h'.addGot p (r, k'.mem a)
  | .resume t => { h with box := put h.box t (h.box t).cancel }
  | .alloc p => ⟨put h.box p .empty, put h.got p []⟩
  | _ => h

end Letters

/-- A thread frozen by a trap receives nothing: no message is handed over to it. -/
def Heard (p : Ptr) (k : Kernel) (o : Op) (h : Letters) : Prop :=
  match o with
  | .send s t _ _ =>
    t = p → p ∈ k.waitQueue → k.awaits p (k.senderId s) = true → (h.box p).wanted ≠ none
  | _ => True

instance (p : Ptr) (k : Kernel) (o : Op) (h : Letters) : Decidable (Heard p k o h) :=
  match o with
  | .send _ _ _ _ => inferInstanceAs (Decidable (_ → _ → _ → _ ≠ _))
  | .quiet | .request | .recv _ _ _ _ | .freeze _ _ | .terminate _ | .resume _ | .dispatch _
  | .preempt _ | .alloc _ | .insertChild _ _ | .insertSibling _ _ | .countThread | .publish _ =>
    inferInstanceAs (Decidable True)

namespace Kernel

variable {k k' : Kernel} {h : Letters} {p t : Ptr} {q rest : List Msg} {w : Ptr} {x : Msg}

/-- A pop of the inbox is a pop of the letters. -/
theorem popMessage_letters : popMessage q w = some (x, rest) →
    (q.map Msg.letter).find? (accepts w) = some x.letter ∧
      (q.map Msg.letter).eraseP (accepts w) = rest.map Msg.letter := by
  intro hp
  obtain ⟨pre, post, hq, hrest, hnull, hw⟩ := popMessage_some hp
  dsimp only at hq hrest hw
  subst hq hrest
  by_cases hn : w = null
  · subst hn
    have hall : ∀ y : Letter, accepts null y = true := fun _ => rfl
    rw [hnull rfl]
    simp [hall]
  · have hpre : ∀ y ∈ pre.map Msg.letter, ¬ accepts w y = true := by
      intro y hy
      obtain ⟨z, hz, rfl⟩ := List.mem_map.mp hy
      have hne : w ≠ anyMessage := hn
      simp [accepts, hne, Msg.letter, (hw hn).2 z hz]
    have hx : accepts w x.letter = true := by simp [accepts, Msg.letter, (hw hn).1]
    rw [List.map_append, List.map_cons, List.find?_append, List.find?_eq_none.mpr hpre,
      List.eraseP_append_right _ hpre, List.eraseP_cons_of_pos hx]
    simp [hx]

theorem popMessage_letters_none (hp : popMessage q w = none) :
    (q.map Msg.letter).find? (accepts w) = none := by
  rw [List.find?_eq_none]
  intro y hy
  obtain ⟨z, hz, rfl⟩ := List.mem_map.mp hy
  rcases popMessage_none hp with rfl | ⟨hn, hne⟩
  · cases hz
  · have hn' : w ≠ anyMessage := hn
    simp [accepts, hn', Msg.letter, hne z hz]

theorem queued_letters (id : Ptr) (q : List Msg) (a : Ptr) (v : U32) :
    (queued id q ⟨a, id, v⟩).map Msg.letter =
      if urgent (id, v) then (id, v) :: q.map Msg.letter else q.map Msg.letter ++ [(id, v)] := by
  unfold queued urgent
  by_cases hid : id = busIntervalTimer <;> simp [hid, Msg.letter]

/-- The inbox is the box, and the thread has been given what it took out of its box. -/
structure LetteredAt (k : Kernel) (b : Box Ptr Letter) (got : List Letter) (p : Ptr) : Prop where
  letters : b.letters = (k.tcb p).tInbox.map Msg.letter
  wanted : ∀ w ∈ b.wanted, p ∈ k.waitQueue ∧ (k.tcb p).waitingFor = w
  settled : b.Settled accepts
  got : got = b.taken

/-- The TCB has its letters while it is in use. -/
structure Lettered (k : Kernel) (h : Letters) (p : Ptr) : Prop where
  placed : Placed k
  letters : k.Allocated p → k.LetteredAt (h.box p) (h.got p) p

variable {b : Box Ptr Letter} {got : List Letter} {v r a : U32} {s : Ptr}

theorem LetteredAt.congr (hl : k.LetteredAt b got p) (hin : (k'.tcb p).tInbox = (k.tcb p).tInbox)
    (hw : p ∈ k.waitQueue → p ∈ k'.waitQueue ∧ (k'.tcb p).waitingFor = (k.tcb p).waitingFor) :
    k'.LetteredAt b got p where
  letters := hin ▸ hl.letters
  wanted w hm := by
    obtain ⟨hq, rfl⟩ := hl.wanted w hm
    exact hw hq
  settled := hl.settled
  got := hl.got

/-- A thread that would not be handed the letter does not wait for it. -/
theorem LetteredAt.refuses (hl : k.LetteredAt b got p) {id : Ptr}
    (hn : p ∉ k.waitQueue ∨ k.awaits p id = false) : ∀ w ∈ b.wanted, accepts w (id, v) = false := by
  intro w hm
  obtain ⟨hq, rfl⟩ := hl.wanted w hm
  have ha := hn.resolve_left (not_not_intro hq)
  simp only [awaits, Bool.or_eq_false_iff, decide_eq_false_iff_not] at ha
  simp only [accepts, Bool.or_eq_false_iff, decide_eq_false_iff_not]
  exact ⟨ha.2, Ne.symm ha.1⟩

/-- The message is put in the inbox of a thread that does not wait for it. -/
theorem LetteredAt.enqueued (hl : k.LetteredAt b got p) {id : Ptr}
    (hn : p ∉ k.waitQueue ∨ k.awaits p id = false) (he : k.enqueue id p v = .ok k') :
    k'.LetteredAt (b.post accepts urgent (id, v)) got p := by
  have hx := hl.refuses (v := v) hn
  obtain ⟨a, free, -, rfl⟩ := enqueue_cases he
  rw [Box.post_of_unwanted hl.settled hx]
  refine ⟨?_, fun w hm => ?_, ?_, hl.got⟩
  · simp only [Box.put, Links.put_same, queued_letters, hl.letters]
  · simpa using hl.wanted w hm
  · rw [← Box.post_of_unwanted hl.settled hx]
    exact Box.post_settled _ _

theorem LetteredAt.enqueue_ne (hl : k.LetteredAt b got p) {id : Ptr} (hp : p ≠ t)
    (he : k.enqueue id t v = .ok k') : k'.LetteredAt b got p := by
  obtain ⟨a, free, -, rfl⟩ := enqueue_cases he
  refine hl.congr ?_ fun hq => ⟨hq, ?_⟩ <;> simp [hp]

/-- The message is handed over to a thread that has been reading. -/
theorem LetteredAt.delivered (hl : k.LetteredAt b got p) {id : Ptr} (hb : b.wanted ≠ none)
    (ha : k.awaits p id = true) :
    (k.delivered id p v).LetteredAt (b.post accepts urgent (id, v)) (got ++ [(id, v)]) p := by
  obtain ⟨w, hw'⟩ := Option.ne_none_iff_exists'.mp hb
  obtain ⟨-, hwf⟩ := hl.wanted w hw'
  have hacc : accepts w (id, v) = true := by
    simp only [awaits, hwf, Bool.or_eq_true, decide_eq_true_eq] at ha
    simp only [accepts, Bool.or_eq_true, decide_eq_true_eq]
    exact ha.symm.imp (fun hx => hx) Eq.symm
  rw [Box.post_of_wanted hl.settled hw' hacc]
  refine ⟨?_, ?_, Box.settled_of_none rfl, ?_⟩
  · simp only [hl.letters, Kernel.delivered, Links.put_same]
  · rintro w' hm
    cases hm
  · simp only [hl.got]

/-- A read that finds its letter, or starts waiting. -/
theorem LetteredAt.received (hl : k.LetteredAt b got p)
    (hpop : popMessage (k.tcb p).tInbox w = some (x, rest)) :
    (k.received p w a x rest).LetteredAt (b.read accepts w) (got ++ [x.letter]) p := by
  obtain ⟨hfind, herase⟩ := popMessage_letters hpop
  rw [← hl.letters] at hfind herase
  rw [Box.read_of_some hfind]
  refine ⟨?_, ?_, Box.settled_of_none rfl, ?_⟩
  · simp only [herase, Kernel.received, Links.put_same]
  · rintro w' hm
    cases hm
  · simp only [hl.got]

theorem LetteredAt.blocked (hl : k.LetteredAt b got p)
    (hpop : popMessage (k.tcb p).tInbox w = none) :
    (k.block p w a).LetteredAt (b.read accepts w) got p := by
  have hfind := popMessage_letters_none hpop
  rw [← hl.letters] at hfind
  have hs : (b.read accepts w).Settled accepts := Box.read_settled w b
  rw [Box.read_of_none hfind] at hs ⊢
  refine ⟨?_, ?_, hs, hl.got⟩
  · simp [hl.letters, block, setTcb]
  · rintro w' hm
    cases hm
    simp [block, insertThread, setTcb]

theorem Lettered.send (hl : k.Lettered h p) (hs : k.send s t v = .ok (r, k'))
    (hh : Heard p k (.send s t v r) h) (hp : k'.Allocated p) :
    k'.LetteredAt ((h.note k (.send s t v r) k').box p) ((h.note k (.send s t v r) k').got p) p := by
  have hgood : msgNoGood ≠ msgGood := by decide
  have hp₀ : k.Allocated p := ⟨hp.1, fun hf => hp.2 ((send_frame hs).tcbFree ▸ hf)⟩
  have hat := hl.letters hp₀
  simp only [Letters.note]
  rcases send_cases hs with ⟨ht, rfl, he⟩ | ⟨-, -, -, ht, rfl, ha, -, rfl⟩ |
    ⟨-, -, -, ht, rfl, ha, he⟩ | ⟨-, -, rfl, rfl⟩
  · -- the recipient is not waiting
    have hw : t ∉ k.waitQueue := by
      intro hw
      have hn := hl.placed.wait_notMem hw
      rcases ht with ⟨ht, -⟩ | ht
      · exact hn.1 ht
      · exact hn.2.2 ht
    simp only [if_true, hw, false_and, if_false]
    by_cases hpt : p = t
    · subst hpt
      rw [Links.put_same]
      exact hat.enqueued (.inl hw) he
    · rw [Links.put_ne hpt]
      exact hat.enqueue_ne hpt he
  · -- the payload is handed over
    have hnot : t ∉ (k.delivered (k.senderId s) t v).waitQueue := hl.placed.wait_erase
    simp only [if_true, ht, hnot, not_false_eq_true, and_self, Letters.addGot]
    by_cases hpt : p = t
    · subst hpt
      have hb := hh rfl ht ha
      have hgot : ((k.delivered (k.senderId s) p v).tcb p).tState.regV0 = k.senderId s := by
        simp [Kernel.delivered, State.setV0, State.setReg, State.regV0]
      have hmem : (k.delivered (k.senderId s) p v).mem (k.tcb p).reply = v := by
        simp [Kernel.delivered]
      rw [Links.put_same, Links.put_same, hgot, hmem]
      exact hat.delivered hb ha
    · rw [Links.put_ne hpt, Links.put_ne hpt]
      refine hat.congr ?_ fun hq => ⟨?_, ?_⟩
      · simp [Kernel.delivered, hpt]
      · exact (List.mem_erase_of_ne hpt).mpr hq
      · simp [Kernel.delivered, hpt]
  · -- the recipient waits for somebody else, or is frozen
    have hw : t ∈ k'.waitQueue := by
      obtain ⟨a, free, -, rfl⟩ := enqueue_cases he
      exact ht
    simp only [if_true, hw, not_true_eq_false, and_false, if_false]
    by_cases hpt : p = t
    · subst hpt
      rw [Links.put_same]
      exact hat.enqueued (.inr ha) he
    · rw [Links.put_ne hpt]
      exact hat.enqueue_ne hpt he
  · rw [if_neg hgood]
    exact hat

theorem Lettered.recv (hl : k.Lettered h p) (hc : k.currentThread ≠ null)
    (hr : k.recv k.currentThread w a = .ok (r, k')) (hp : k'.Allocated p) :
    k'.LetteredAt ((h.note k (.recv k.currentThread w a r) k').box p)
      ((h.note k (.recv k.currentThread w a r) k').got p) p := by
  have hnot := (hl.placed.current_notMem hc).2.1
  simp only [Letters.note]
  rcases recv_cases hr with ⟨hpop, -, rfl⟩ | ⟨x, rest, hpop, -, rfl, rfl⟩
  · have hat := hl.letters hp
    have hw : k.currentThread ∈ (k.block k.currentThread w a).waitQueue := by
      simp [block, insertThread]
    rw [if_pos hw]
    dsimp only
    by_cases hpc : p = k.currentThread
    · subst hpc
      rw [Links.put_same]
      exact hat.blocked hpop
    · rw [Links.put_ne hpc]
      refine hat.congr ?_ fun hq => ⟨?_, ?_⟩
      · simp [block, setTcb, hpc]
      · exact List.mem_append_left _ hq
      · simp [block, setTcb, hpc]
  · have hat := hl.letters hp
    have hw : k.currentThread ∉ (k.received k.currentThread w a x rest).waitQueue := hnot
    have hid : (if w = anyMessage then x.mSender else w) = x.mSender := by
      split
      · rfl
      · obtain ⟨pre, post, -, -, -, hsender⟩ := popMessage_some hpop
        exact (hsender ‹_›).1.symm
    have hmem : (k.received k.currentThread w a x rest).mem a = x.mMessage := by
      simp [Kernel.received]
    rw [if_neg hw, hid, hmem]
    simp only [Letters.addGot]
    by_cases hpc : p = k.currentThread
    · subst hpc
      rw [Links.put_same, Links.put_same]
      exact hat.received hpop
    · rw [Links.put_ne hpc, Links.put_ne hpc]
      refine hat.congr ?_ fun hq => ⟨hq, ?_⟩
      · simp [Kernel.received, hpc]
      · simp [Kernel.received, hpc]

theorem Lettered.step {o : Op} (hl : k.Lettered h p) (hs : OpStep k o k') (hh : Heard p k o h) :
    k'.Lettered (h.note k o k') p := by
  refine ⟨hl.placed.step hs, fun hp => ?_⟩
  cases hs with
  | quiet hq =>
    refine (hl.letters ⟨hp.1, hq.tcbFree ▸ hp.2⟩).congr (hq.tInbox p) fun hw => ⟨?_, hq.waitingFor p⟩
    rwa [hq.waitQueue]
  | send hs => exact hl.send hs hh hp
  | recv hc hr => exact hl.recv hc hr hp
  | @freeze m hc hm =>
    refine (hl.letters hp).congr ?_ fun hw => ⟨List.mem_append_left _ hw, ?_⟩
    · by_cases hpc : p = k.currentThread
      · subst hpc
        simp [freeze, setTcb]
      · simp [freeze, setTcb, hpc]
    · have hpc : p ≠ k.currentThread := by
        rintro rfl
        exact (hl.placed.current_notMem hc).2.1 hw
      simp [freeze, setTcb, hpc]
  | terminate ht hr =>
    obtain ⟨hf, hin⟩ := terminate_inbox hr hp.2
    refine (hl.letters ⟨hp.1, hf⟩).congr hin fun hw => ?_
    obtain ⟨ds, -, hd⟩ := Reaped.terminate hl.placed ht hr
    have hds : p ∉ ds := by
      intro hm
      apply hp.2
      rw [hd.tcbFree]
      exact List.mem_append_right _ hm
    exact ⟨hd.mem_wait.mpr ⟨hw, hds⟩, hd.waitingFor p⟩
  | @resume _ t hr =>
    obtain ⟨hw, -, rfl⟩ := continueTrapped_cases hr
    have hat := hl.letters hp
    simp only [Letters.note]
    by_cases hpt : p = t
    · subst hpt
      rw [Links.put_same]
      refine ⟨hat.letters, ?_, Box.settled_of_none rfl, hat.got⟩
      rintro w hm
      cases hm
    · rw [Links.put_ne hpt]
      exact hat.congr rfl fun hq => ⟨(List.mem_erase_of_ne hpt).mpr hq, rfl⟩
  | @alloc q _ ha hq =>
    obtain ⟨free, hfree, rfl⟩ := allocTcb_cases ha hq
    simp only [Letters.note]
    by_cases hpq : p = q
    · subst hpq
      rw [Links.put_same, Links.put_same]
      refine ⟨by simp [Box.empty, freshTcb], ?_, Box.settled_of_none rfl, rfl⟩
      rintro w hm
      cases hm
    · rw [Links.put_ne hpq, Links.put_ne hpq]
      have hp₀ : k.Allocated p := by
        refine ⟨hp.1, ?_⟩
        rw [hfree]
        exact List.not_mem_cons_of_ne_of_not_mem hpq hp.2
      refine (hl.letters hp₀).congr ?_ fun hw => ⟨hw, ?_⟩ <;> simp [hpq]
  | @insertChild _ c _ =>
    refine (hl.letters hp).congr ?_ fun hw => ⟨hw, ?_⟩
    all_goals
      by_cases hpc : p = c
      · subst hpc
        simp [insertChild, setTcb]
      · simp [insertChild, setTcb, hpc]
  | request | insertSibling _ | countThread | dispatch _ _ | preempt _ | publish _ _ =>
    exact (hl.letters hp).congr rfl fun hw => ⟨hw, rfl⟩

theorem Booted.lettered (hb : k.Booted) : k.Lettered .empty p := by
  refine ⟨hb.placed, fun hp => ⟨?_, ?_, Box.settled_of_none rfl, rfl⟩⟩
  · rw [hb.tInbox p hp.1]
    rfl
  · rintro w hm
    cases hm

end Kernel

/-- Any operation, except that `p` is handed nothing while a trap has it frozen. -/
def HeardStep (p : Ptr) (s : Kernel × Letters) (o : Op) (t : Kernel × Letters) : Prop :=
  withHistory OpStep Letters.note s o t ∧ Heard p s.1 o s.2

theorem lettered_of_run {k₁ k : Kernel} {os : List Op} {g h : Letters} {p : Ptr}
    (hl : k₁.Lettered g p) (hr : Run (HeardStep p) (k₁, g) os (k, h)) : k.Lettered h p := by
  refine hr.inv (I := fun s => s.1.Lettered s.2 p) ?_ hl
  rintro s o t ⟨hs, hh⟩ hl
  rw [hs.2]
  exact hl.step hs.1 hh

/-- Between its box and a live thread, nothing is lost. -/
theorem letteredAt_of_run {k₀ k₁ k : Kernel} {os : List Op} {h : Letters} {p : Ptr}
    (hp : k₀.PowerOn) (hm : k₀.main = .ok k₁) (hr : Run (HeardStep p) (k₁, .empty) os (k, h))
    (hl : k.Live p) : k.LetteredAt (h.box p) (h.got p) p := by
  have hlet := lettered_of_run (Kernel.main_booted hp hm).lettered hr
  exact hlet.letters (hl.allocated hlet.placed)

/-- In every run of operations that come back, a live thread has been given the letters that a plain
letterbox would have given it, and its inbox holds those that the box would hold. Those it waits for
are not there. -/
theorem letters_right {k₀ k₁ k : Kernel} {os : List Op} {h : Letters} {p : Ptr} (hp : k₀.PowerOn)
    (hm : k₀.main = .ok k₁) (hr : Run (HeardStep p) (k₁, .empty) os (k, h)) (hl : k.Live p) :
    h.got p = (h.box p).taken ∧ (k.tcb p).tInbox.map Msg.letter = (h.box p).letters ∧
      ∀ w ∈ (h.box p).wanted, p ∈ k.waitQueue ∧ (k.tcb p).waitingFor = w ∧
        ∀ x ∈ (h.box p).letters, accepts w x = false := by
  have hat := letteredAt_of_run hp hm hr hl
  refine ⟨hat.got, hat.letters.symm, fun w hw => ?_⟩
  obtain ⟨hq, hwf⟩ := hat.wanted w hw
  exact ⟨hq, hwf, hat.settled w hw⟩

theorem run_talk : ∃ k₁ k h, Kernel.zeroed.main = .ok k₁ ∧
    Run (HeardStep threadArrayAddr) (k₁, .empty) talk (k, h) ∧ k.Live threadArrayAddr ∧
    h.got threadArrayAddr = [(testThreadAddr, 7), (testThreadAddr, 8)] := by
  have hrun : passes (fun k₁ => passes (fun s => s.1.currentThread = threadArrayAddr &&
      s.2.got threadArrayAddr = [(testThreadAddr, 7), (testThreadAddr, 8)])
      (exec (guarded (fun s o _ => Heard threadArrayAddr s.1 o s.2) .fault
        (execWith (fun k o => o.exec k) Letters.note)) (k₁, .empty) talk)) Kernel.zeroed.main = true := by
    decide +kernel
  obtain ⟨k₁, hm, hrun⟩ := exists_of_passes hrun
  obtain ⟨⟨k, h⟩, hs, hrun⟩ := exists_of_passes hrun
  simp only [Bool.and_eq_true, decide_eq_true_eq] at hrun
  have hr : Run (HeardStep threadArrayAddr) (k₁, .empty) talk (k, h) :=
    run_of_guarded (fun _ _ _ hs => (Op.exec_sound hs).1) hs
  have hl : k.Live threadArrayAddr :=
    .inr (.inr (Kernel.mem_running.mpr ⟨hrun.1.symm, hrun.1.symm ▸ by decide⟩))
  exact ⟨k₁, k, h, hm, hr, hl, hrun.2⟩

theorem letters_right_talk : ∃ k₁ k h, Run (HeardStep threadArrayAddr) (k₁, .empty) talk (k, h) ∧
    h.got threadArrayAddr = [(testThreadAddr, 7), (testThreadAddr, 8)] ∧
    h.got threadArrayAddr = (h.box threadArrayAddr).taken ∧
    (k.tcb threadArrayAddr).tInbox.map Msg.letter = (h.box threadArrayAddr).letters ∧
    ∀ w ∈ (h.box threadArrayAddr).wanted, threadArrayAddr ∈ k.waitQueue ∧
      (k.tcb threadArrayAddr).waitingFor = w ∧
      ∀ x ∈ (h.box threadArrayAddr).letters, accepts w x = false := by
  obtain ⟨k₁, k, h, hm, hr, hl, hgot⟩ := run_talk
  exact ⟨k₁, k, h, hr, hgot, letters_right Kernel.zeroed_powerOn hm hr hl⟩

/-- The RECVs of `p` do not tell apart the letters of the kind `c`. -/
def Impartial (c : Letter → Bool) (p : Ptr) (o : Op) : Prop :=
  ∀ w a r, o = .recv p w a r → ∀ x y, c x = true → c y = true → accepts w x = accepts w y

section
variable {k k' : Kernel} {o : Op} {h : Letters} {p : Ptr} {c : Letter → Bool}

/-- The letters of the kind are in order in the box of `p`, and its owner waits impartially. -/
def Letters.InOrder (c : Letter → Bool) (p : Ptr) (h : Letters) : Prop :=
  (h.box p).InOrder c ∧
    ∀ w ∈ (h.box p).wanted, ∀ x y, c x = true → c y = true → accepts w x = accepts w y

theorem Letters.InOrder.post {x : Letter} {t : Ptr} (hi : h.InOrder c p)
    (hu : ∀ x, urgent x = true → c x = false) :
    InOrder c p { h with box := put h.box t ((h.box t).post accepts urgent x) } := by
  unfold InOrder
  dsimp only
  by_cases hpt : p = t
  · subst hpt
    rw [Links.put_same]
    exact ⟨hi.1.post (hu x) hi.2, fun w hw => hi.2 w (Box.settle_wanted (b := (h.box p).put urgent x) hw)⟩
  · rw [Links.put_ne hpt]
    exact hi

theorem Letters.InOrder.step (hi : h.InOrder c p) (hu : ∀ x, urgent x = true → c x = false)
    (ho : Impartial c p o) : (h.note k o k').InOrder c p := by
  cases o with
  | send s t v r =>
    simp only [note]
    split
    · split <;> exact hi.post hu
    · exact hi
  | recv q w a r =>
    have hread : InOrder c p { h with box := put h.box q ((h.box q).read accepts w) } := by
      unfold InOrder
      dsimp only
      by_cases hpq : p = q
      · subst hpq
        have hw := ho w a r rfl
        rw [Links.put_same]
        refine ⟨hi.1.read hw, fun w' hw' => ?_⟩
        rw [Box.read_wanted hw']
        exact hw
      · rw [Links.put_ne hpq]
        exact hi
    simp only [note]
    split <;> exact hread
  | resume t =>
    simp only [note, InOrder]
    by_cases hpt : p = t
    · subst hpt
      rw [Links.put_same]
      refine ⟨hi.1, ?_⟩
      rintro w hw
      cases hw
    · rw [Links.put_ne hpt]
      exact hi
  | alloc q =>
    simp only [note, InOrder]
    by_cases hpq : p = q
    · subst hpq
      rw [Links.put_same]
      refine ⟨.empty, ?_⟩
      rintro w hw
      cases hw
    · rw [Links.put_ne hpq]
      exact hi
  | quiet | request | freeze | terminate | dispatch | preempt | insertChild | insertSibling
    | countThread | publish => exact hi

end

/-- Letters of one kind, none of which is urgent, are received in the order in which they were sent,
by whomever, if the receiver does not tell them apart and is handed nothing while a trap has it
frozen. An operation that traps takes no step here. -/
theorem received_in_order {k₀ k₁ k : Kernel} {os : List Op} {h : Letters} {p : Ptr}
    {c : Letter → Bool} (hu : ∀ x, urgent x = true → c x = false) (hp : k₀.PowerOn)
    (hm : k₀.main = .ok k₁)
    (hr : Run (fun s o t => HeardStep p s o t ∧ Impartial c p o) (k₁, .empty) os (k, h))
    (hl : k.Live p) :
    (h.got p ++ (k.tcb p).tInbox.map Msg.letter).filter c = (h.box p).posted.filter c := by
  have hat := letteredAt_of_run hp hm (hr.mono fun _ _ _ hs => hs.1) hl
  have hord : h.InOrder c p := by
    refine hr.inv (I := fun s => s.2.InOrder c p) ?_ ⟨.empty, ?_⟩
    · rintro s o t ⟨⟨hs, -⟩, ho⟩ hi
      rw [hs.2]
      exact hi.step hu ho
    · rintro w hw
      cases hw
  rw [hat.got, ← hat.letters]
  exact hord.1

theorem received_in_order_talk : ∃ k₁ k h,
    Run (HeardStep threadArrayAddr) (k₁, .empty) talk (k, h) ∧
    (h.got threadArrayAddr ++ (k.tcb threadArrayAddr).tInbox.map Msg.letter).filter
      (fun x => !urgent x) = (h.box threadArrayAddr).posted.filter fun x => !urgent x := by
  obtain ⟨k₁, k, h, hm, hr, hl, -⟩ := run_talk
  have hany : ∀ o ∈ talk, Impartial (fun x => !urgent x) threadArrayAddr o := by
    intro o ho w a r he x y _ _
    have hw : w = anyMessage := by
      subst he
      simp only [talk, List.mem_cons, Op.recv.injEq, reduceCtorEq, List.not_mem_nil, or_false,
        false_or] at ho
      rcases ho with ⟨-, hw, -⟩ | ⟨-, hw, -⟩ <;> exact hw
    rw [hw]
    rfl
  have hr' := hr.labelled.mono fun _ o _ hs => And.intro hs.1 (hany o hs.2)
  exact ⟨k₁, k, h, hr, received_in_order (fun x hx => by simp [hx]) Kernel.zeroed_powerOn hm hr' hl⟩

end AmiKaya
