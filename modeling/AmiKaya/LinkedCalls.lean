import AmiKaya.LinkedOps

/-! Message passing and termination over the list nodes do what they do on the lists of the model.
-/
namespace AmiKaya
open Client Links

theorem msgArray_ne_null {a : Ptr} (h : a ∈ msgArray) : a ≠ null := by
  rintro rfl
  exact absurd (msgArray_toNat h).1 (by decide)

namespace Kernel

variable {k k' : Kernel} {a p : Ptr} {free : List Ptr} {m : Msg} {pre post : List Msg}

theorem buffers_nodup (hb : k.buffers.Perm msgArray) : k.buffers.Nodup :=
  hb.nodup_iff.mpr msgArray_nodup

/-- A free buffer is in no inbox. -/
theorem free_buffer (hb : k.buffers.Perm msgArray) (ha : a ∈ k.msgFree) :
    a ∈ msgArray ∧ ∀ p ∈ threadArray, a ∉ k.inboxBuffers p := by
  refine ⟨hb.mem_iff.mp (List.mem_append_left _ ha), fun p hp hm => ?_⟩
  have hd := (List.nodup_append.mp (buffers_nodup hb)).2.2
  exact hd a ha a (List.mem_flatMap.mpr ⟨p, hp, hm⟩) rfl

theorem setInbox_buffers (hb : k.buffers.Perm msgArray) (hp : p ∈ threadArray)
    (hq : (k.tcb p).tInbox = pre ++ m :: post) :
    ((k.setInbox p (pre ++ post)).freeMsg m).buffers.Perm msgArray := by
  refine (buffers_count hp (fun p' hp' => ?_) fun a => ?_).trans hb
  · simp [inboxBuffers, setInbox, freeMsg, setTcb, hp']
  · simp only [inboxBuffers, setInbox, freeMsg, setTcb, put_same, hq, List.map_append,
      List.map_cons, List.count_append, List.count_cons, List.count_nil]
    omega

/-- Before it is freed, the buffer of the message is linked nowhere. -/
theorem setInbox_loose (hb : k.buffers.Perm msgArray) (hp : p ∈ threadArray)
    (hq : (k.tcb p).tInbox = pre ++ m :: post) : m.addr ∈ msgArray ∧ m.addr ∉ k.msgFree ∧
      ∀ p' ∈ threadArray, m.addr ∉ (k.setInbox p (pre ++ post)).inboxBuffers p' := by
  have hb' := setInbox_buffers hb hp hq
  have hm : m.addr ∈ ((k.setInbox p (pre ++ post)).freeMsg m).msgFree := by simp [freeMsg]
  have hn := (List.nodup_append.mp (buffers_nodup hb')).1
  refine ⟨(free_buffer hb' hm).1, fun hf => ?_, (free_buffer hb' hm).2⟩
  exact (List.nodup_append.mp hn).2.2 _ hf _ List.mem_cons_self rfl

theorem bare_setInbox (q : List Msg) : (k.setInbox p q).bare = k.bare := by
  have htcb : (k.setInbox p q).bare.tcb = k.bare.tcb := by
    funext p'
    by_cases hp : p' = p
    · subst hp
      simp [setInbox, setTcb, bare, Tcb.bare]
    · simp [setInbox, setTcb, bare, hp]
  exact congrArg (fun g => { k.bare with tcb := g }) htcb

theorem setInbox_self {q : List Msg} (hq : (k.tcb p).tInbox = q) : k.setInbox p q = k := by
  have htcb : (k.setInbox p q).tcb = k.tcb := by
    funext p'
    by_cases hp : p' = p
    · subst hp
      simp [setInbox, setTcb, ← hq]
    · simp [setInbox, setTcb, hp]
  exact congrArg (fun g => { k with tcb := g }) htcb

/-- An inbox is emptied one message at a time. -/
theorem cleanInbox_cons (q : List Msg) :
    ((k.setInbox p q).freeMsg m).cleanInbox p q = k.cleanInbox p (m :: q) := by
  simp only [cleanInbox, cleanInbox_eq, setInbox, freeMsg, setTcb, put_same, put_put]

theorem bare_cleanInbox (q : List Msg) : (k.cleanInbox p q).bare = k.bare := by
  rw [cleanInbox_eq]
  exact bare_setInbox (k := { k with msgFree := k.msgFree ++ q.map Msg.addr }) []

/-- What is given up before the TCB: the messages and the place among the managers. -/
def discharge (k : Kernel) (p : Ptr) : Kernel :=
  (k.cleanInbox p (k.tcb p).tInbox).deleteManager p

/-- The TCB goes back to the free list. -/
def reclaim (k : Kernel) (p : Ptr) : Kernel :=
  { k.freeTcb p with threadCount := k.threadCount - 1 }

theorem bare_discharge (k : Kernel) (p : Ptr) : (k.discharge p).bare = k.bare.deleteManager p :=
  congrArg (fun k : Kernel => k.deleteManager p) (bare_cleanInbox _)

/-- The two queues of threads and the free list are the same. -/
def SameQueues (k k' : Kernel) : Prop :=
  k'.readyQueue = k.readyQueue ∧ k'.waitQueue = k.waitQueue ∧ k'.tcbFree = k.tcbFree

theorem SameQueues.discharge (k : Kernel) (p : Ptr) : SameQueues k (k.discharge p) := by
  rw [Kernel.discharge, cleanInbox_eq]
  exact ⟨rfl, rfl, rfl⟩

theorem SameQueues.leave (h : SameQueues k k') (p : Ptr) : SameQueues k (k'.leave p) := by
  unfold Kernel.leave
  split
  · exact h
  · exact h

theorem countIf_lists (c : Prop) [Decidable c] (k : Kernel) :
    SameQueues k (k.countIf c) ∧ (k.countIf c).buffers = k.buffers := by
  unfold countIf
  split <;> exact ⟨⟨rfl, rfl, rfl⟩, rfl⟩

/-- A thread that ends leaves the ready queue or the processor, or else the wait queue. -/
theorem reap_steps {t : Ptr} (h : k.reap t = .ok k') :
    (((outThread k.readyQueue t).1 ≠ null ∨ k.currentThread = t) ∧
      k' = (((k.setReady (outThread k.readyQueue t).2).discharge t).leave t).reclaim t) ∨
    (¬ ((outThread k.readyQueue t).1 ≠ null ∨ k.currentThread = t) ∧
      (outThread k.waitQueue t).1 ≠ null ∧
      k' = (((k.setWait (outThread k.waitQueue t).2).countIf
        ((k.tcb t).waitingFor = k.ssiTcb)).discharge t).reclaim t) := by
  rw [reap] at h
  split at h
  · next hc => exact .inl ⟨hc, (Except.ok.inj h).symm⟩
  · next hc =>
    split at h
    · next hw => exact .inr ⟨hc, hw, (Except.ok.inj h).symm⟩
    · cases h

theorem inbox_length (hb : k.buffers.Perm msgArray) (hp : p ∈ threadArray) :
    (k.tcb p).tInbox.length < maxMessages + 1 := by
  have hsub : (k.inboxBuffers p).Sublist (threadArray.flatMap k.inboxBuffers) := by
    rw [List.flatMap_def]
    exact List.sublist_flatten_of_mem (List.mem_map_of_mem hp)
  have hle := (hsub.trans (List.sublist_append_right k.msgFree _)).length_le
  have hlen := hb.length_eq
  have harr : msgArray.length = maxMessages := by decide
  simp only [inboxBuffers, List.length_map] at hle
  simp only [buffers] at hlen
  omega

/-- A thread that is sent to while it has the processor. -/
theorem Pooled.aimed_live {x t : Ptr} (h : k.Pooled) (ha : k.Aims x t) (hc : k.currentThread = t) :
    k.Live t := by
  subst hc
  refine .inr (.inr (mem_running.mpr ⟨rfl, ?_⟩))
  rcases ha with ⟨hc, -⟩ | ⟨-, ht⟩
  · exact hc
  · intro hn
    exact null_notMem_threadArray (hn ▸ ht ▸ h.ssi)

/-- A change of the tree only. -/
structure Rewired (k k' : Kernel) : Prop where
  pooled : k.Pooled → k'.Pooled
  live : ∀ p, k'.Live p ↔ k.Live p

theorem outChild_rewired (k : Kernel) (t : Ptr) : Rewired k (k.outChild t) := by
  unfold outChild
  split
  · exact ⟨id, fun _ => Iff.rfl⟩
  · exact ⟨Pooled.unlink fun _ => rfl, fun _ => Iff.rfl⟩

theorem removeChild_rewired (k : Kernel) (t : Ptr) : Rewired k (k.removeChild t).2 := by
  unfold removeChild
  split
  · exact ⟨id, fun _ => Iff.rfl⟩
  · exact ⟨Pooled.unlink fun _ => rfl, fun _ => Iff.rfl⟩

/-- What is terminated was alive, and nothing comes alive: by induction on the bound of the
recursion. -/
theorem terminateFuel_live (n : Nat) :
    (∀ k t k', Pooled k → t ≠ null → terminateFuel n k t = .ok k' →
      Pooled k' ∧ (∀ p, Live k' p → Live k p) ∧ Live k t) ∧
    (∀ k t k', Pooled k → terminateChildren n k t = .ok k' →
      Pooled k' ∧ ∀ p, Live k' p → Live k p) := by
  induction n with
  | zero => constructor <;> intros <;> contradiction
  | succ n ih =>
    refine ⟨fun k t k' hk ht h => ?_, fun k t k' hk h => ?_⟩
    · obtain ⟨k₁, h₁, h₂⟩ := bind_eq_ok.mp h
      have hout := outChild_rewired k t
      obtain ⟨hk₁, hlive₁⟩ := ih.2 _ _ _ (hout.pooled hk) h₁
      have hd := Reaped.reap hk₁.placed ht h₂
      have hback : ∀ p, Live k₁ p → Live k p := fun p hp => (hout.live p).mp (hlive₁ p hp)
      exact ⟨hk₁.reap ht h₂, fun p hp => hback p (hd.live_of_live hp).1,
        hback t (hd.live t List.mem_cons_self)⟩
    · have hremove := removeChild_rewired k t
      simp only [terminateChildren] at h
      split at h
      · cases h
        exact ⟨hremove.pooled hk, fun p => (hremove.live p).mp⟩
      · next hne =>
        obtain ⟨k₁, h₁, h₂⟩ := bind_eq_ok.mp h
        obtain ⟨hk₁, hlive₁, -⟩ := ih.1 _ _ _ (hremove.pooled hk) hne h₁
        obtain ⟨hk', hlive'⟩ := ih.2 _ _ _ hk₁ h₂
        exact ⟨hk', fun p hp => (hremove.live p).mp (hlive₁ p (hlive' p hp))⟩

end Kernel

namespace Lists

variable {s : Lists} {k k' : Kernel} {p t : Ptr} {v : U32} {m : Msg}

/-- A message that has been popped: its fields can still be read, and its buffer is to be freed. -/
structure Popped (s : Lists) (k : Kernel) (m : Msg) : Prop where
  shows : s.Shows k
  addr : m.addr ∈ msgArray
  msg : s.queues.msg m.addr = m
  free : m.addr ∉ k.msgFree
  inbox : ∀ p ∈ s.known, m.addr ∉ k.inboxBuffers p

theorem Popped.freeMsg (h : s.Popped k m) :
    (Code.queue (.freeMsg m.addr)).Does s null (k.freeMsg m) :=
  h.shows.freeMsg h.addr h.free h.inbox

theorem Popped.quiet (h : s.Popped k m) (hq : Quiet k k') : s.Popped k' m where
  shows := h.shows.quiet hq
  addr := h.addr
  msg := h.msg
  free := hq.msgFree ▸ h.free
  inbox p hp := by
    rw [Kernel.inboxBuffers, hq.tInbox]
    exact h.inbox p hp

namespace Shows

/-! `msg.c`. -/

theorem popMessage_none {w : Ptr} (hs : s.Shows k) (hp : p ∈ s.known)
    (h : popMessage (k.tcb p).tInbox w = none) :
    (Code.queue (.popMessage (tInboxHead p) w)).Does s null k := by
  refine .look ⟨hs.made (q := .inbox p) hp, trivial⟩ ?_ hs
  simp only [Lists.call, Queues.apply, hs.inbox_eq hp, h]

/-- The message goes, and its fields can still be read. -/
theorem popMessage_some {w : Ptr} {rest : List Msg} (hs : s.Shows k) (hp : p ∈ s.known)
    (h : popMessage (k.tcb p).tInbox w = some (m, rest)) :
    s.Allowed (.queue (.popMessage (tInboxHead p) w)) ∧
      s.call (.queue (.popMessage (tInboxHead p) w)) =
        (m.addr, s.set (tInboxHead p) (rest.map Msg.addr)) ∧
      (s.set (tInboxHead p) (rest.map Msg.addr)).Shows (k.setInbox p rest) ∧
      s.queues.msg m.addr = m := by
  obtain ⟨pre, post, hq, rfl, -⟩ := AmiKaya.popMessage_some h
  have hmem : ∀ x ∈ pre ++ post, x ∈ (k.tcb p).tInbox := by
    intro x hx
    simp only [hq, List.mem_append, List.mem_cons] at hx ⊢
    exact hx.imp id .inr
  refine ⟨⟨hs.made (q := .inbox p) hp, trivial⟩, ?_, ?_, hs.msg p hp m (by simp [hq])⟩
  · simp only [Lists.call, Queues.apply, hs.inbox_eq hp, h]
    rfl
  · refine hs.setInbox hp fun x hx => ⟨?_, hs.msg p hp x (hmem x hx)⟩
    exact hs.items (.inbox p) hp _ (List.mem_map_of_mem (hmem x hx))

theorem allocMsg {a : Ptr} {free : List Ptr} (hs : s.Shows k) (hb : k.buffers.Perm msgArray)
    (hf : k.msgFree = a :: free) : s.Allowed (.queue .allocMsg) ∧
      s.call (.queue .allocMsg) =
        (a, { s with queues := (s.queues.set msgfreeSentinel free).fill a null 0 }) ∧
      Lists.Shows { s with queues := (s.queues.set msgfreeSentinel free).fill a null 0 }
        { k with msgFree := free } := by
  have hq : ListHead.msgFree.Made s.known := trivial
  have hl : s.queues.list msgfreeSentinel = a :: free := (hs.list_eq hq).trans hf
  have hin := (Kernel.free_buffer hb (a := a) (by simp [hf])).2
  refine ⟨⟨hs.made hq, trivial⟩, ?_, ?_⟩
  · simp only [Lists.call, Queues.apply, sentinels, hl]
  · have hset : (s.set msgfreeSentinel free).Shows { k with msgFree := free } := by
      refine hs.set hq rfl (fun x hx => ?_) (fun q hq => ?_) hs.msg rfl (fun _ => rfl) fun _ h => h
      · refine hs.items .msgFree hq x (show x ∈ k.msgFree from ?_)
        rw [hf]
        exact List.mem_cons_of_mem _ hx
      · cases q <;> first | rfl | exact absurd rfl hq
    exact hset.fill _ _ fun p hp => hin p (hs.known p hp)

/-! `exceptions.c`. -/

/-- A buffer with its two fields goes to the tail of an inbox, from the clock to its head. -/
theorem putMessage {a id : Ptr} (hs : s.Shows k) (ht : t ∈ s.known) (ha : a ∈ msgArray)
    (hf : a ∉ k.msgFree) (hi : ∀ p ∈ s.known, a ∉ k.inboxBuffers p)
    (hm : s.queues.msg a = ⟨a, id, v⟩) :
    (Code.queue (if id = busIntervalTimer then .pushMessage (tInboxHead t) a
      else .insertMessage (tInboxHead t) a)).Does s null
      (k.setInbox t (Kernel.queued id (k.tcb t).tInbox ⟨a, id, v⟩)) := by
  have hmade := hs.made (q := .inbox t) ht
  have hloose := hs.loose_msg ha hf hi
  refine .set ?_ ?_ (hs.setInbox ht fun x hx => ?_)
  · split <;> exact ⟨⟨hmade, hloose⟩, ha⟩
  · unfold Kernel.queued
    split
    · simp only [Lists.call, Queues.apply, hs.inbox_eq ht, hm]
      rfl
    · simp only [Lists.call, Queues.apply, hs.inbox_eq ht, hm]
      rfl
  · rcases Kernel.mem_queued hx with rfl | hx
    · exact ⟨ha, hm⟩
    · exact ⟨hs.items (.inbox t) ht _ (List.mem_map_of_mem hx), hs.msg t ht x hx⟩

theorem enqueue {id : Ptr} (hs : s.Shows k) (hb : k.buffers.Perm msgArray) (ht : t ∈ s.known)
    (h : k.enqueue id t v = .ok k') : (Code.enqueue k.bare id t v).Does s k'.bare k' := by
  obtain ⟨a, free, hf, rfl⟩ := Kernel.enqueue_cases h
  obtain ⟨ha, hin⟩ := Kernel.free_buffer hb (a := a) (by simp [hf])
  have hfree : a ∉ free := by
    have hn := (List.nodup_append.mp (Kernel.buffers_nodup hb)).1
    rw [hf] at hn
    exact (List.nodup_cons.mp hn).1
  have hin : ∀ p ∈ s.known, a ∉ k.inboxBuffers p := fun p hp => hin p (hs.known p hp)
  obtain ⟨ho₁, hc₁, hs₁⟩ := hs.allocMsg hb hf
  have hs₂ := hs₁.fill id v hin
  refine .call ho₁ hc₁ (fun _ h => h) (.neg (msgArray_ne_null ha) ?_)
  refine .call ⟨trivial, trivial⟩ rfl (fun _ h => h) ?_
  refine .bind (hs₂.putMessage ht ha hfree hin ?_) fun s₃ hs₃ _ => .done ?_ hs₃
  · simp [Queues.msg, Queues.fill]
  · exact (Kernel.bare_setInbox (k := { k with msgFree := free }) _).symm

theorem live_known (hs : s.Shows k) (hk : Placed k) (hp : k.Live p) : p ∈ s.known :=
  hs.allocated p (hp.allocated hk)

theorem deliver {id : Ptr} (hs : s.Shows k) (hk : Placed k) (ht : t ∈ k.waitQueue)
    (h : k.deliver id t v = .ok k') : (Code.deliver k.bare id t v).Does s k'.bare k' := by
  obtain ⟨k₁, hstore, h⟩ := bind_eq_ok.mp h
  have hq := Quiet.storeWord hstore
  have hk₁ : Placed k₁ := hk.of_perm (SamePlaces.quiet hq)
  have ht₁ : t ∈ k₁.waitQueue := hq.waitQueue ▸ ht
  have hout := outThread_fst_of_mem ht₁
  obtain ⟨hready, hfree, -⟩ := hk₁.wait_notMem ht₁
  have hwait : t ∉ (outThread k₁.waitQueue t).2 := by
    rw [outThread_snd]
    exact (Reaped.queues_nodup hk₁).2.not_mem_erase
  have hthread := hk₁.sub t (Kernel.mem_places.mpr (.inr (.inl ht₁)))
  refine .bind (.lift (Kernel.bare_storeWord hstore) (hs.quiet hq)) fun s₁ hs₁ _ => ?_
  refine .bind (hs₁.outWait t) fun s₂ hs₂ _ => ?_
  rw [hout]
  refine .bind (hs₂.insertReady hthread hready hwait hfree) fun s₃ hs₃ _ => ?_
  generalize hk₃ : ((k₁.setWait (outThread k₁.waitQueue t).2).setReady _) = k₃ at hs₃
  have hbare : k₁.bare = k₃.bare := by
    rw [← hk₃]
    rfl
  have hk' : k' = ((k₃.setTcb t fun t =>
      { t with waitingFor := notWaiting, reply := notWaiting }).countIf (id = k₃.ssiTcb)).setTcb t
      fun t => { t with tState := t.tState.setV0 id } := by
    simp only [hout] at h
    rw [← hk₃]
    exact (Except.ok.inj h).symm
  rw [hbare, hk']
  refine .done ?_ ?_
  · change ((k₃.bare.setTcb t _).countIf (id = k₃.ssiTcb)).setTcb t _ = _
    rw [Kernel.bare_setTcb, Kernel.bare_countIf, Kernel.bare_setTcb]
    · exact fun _ => rfl
    · exact fun _ => rfl
  · refine ((hs₃.setTcb ?_).countIf _).setTcb ?_
    · exact fun _ => ⟨rfl, rfl⟩
    · exact fun _ => ⟨rfl, rfl⟩

theorem send {x r : U32} (hs : s.Shows k) (hk : k.Pooled) (ha : k.Aims x t)
    (h : k.send x t v = .ok (r, k')) : (Code.send k.bare x t v).Does s (r, k'.bare) k' := by
  rw [Kernel.send] at h
  refine .bind (hs.thereIsReady t) fun s₁ hs₁ _ => ?_
  split at h
  · next hc =>
    obtain ⟨k₁, he, h⟩ := bind_eq_ok.mp h
    cases h
    have ht : t ∈ s₁.known := by
      refine hs₁.live_known hk.placed ?_
      rcases hc with hc | hc
      · exact .inl (thereIsThread_ne_null.mp hc).1
      · exact hk.aimed_live ha hc
    exact .pos hc (.bind (hs₁.enqueue hk.perm ht he) fun s₂ hs₂ _ => .done rfl hs₂)
  · next hc =>
    refine .neg hc (.bind (hs₁.thereIsWait t) fun s₂ hs₂ _ => ?_)
    split at h
    · next hw =>
      have hwait := (thereIsThread_ne_null.mp hw).1
      refine .pos hw ?_
      split at h
      · obtain ⟨k₁, hd, h⟩ := bind_eq_ok.mp h
        cases h
        exact .pos ‹_› (.bind (hs₂.deliver hk.placed hwait hd) fun s₃ hs₃ _ => .done rfl hs₃)
      · obtain ⟨k₁, he, h⟩ := bind_eq_ok.mp h
        cases h
        have ht : t ∈ s₂.known := hs₂.live_known hk.placed (.inr (.inl hwait))
        exact .neg ‹_› (.bind (hs₂.enqueue hk.perm ht he) fun s₃ hs₃ _ => .done rfl hs₃)
    · cases h
      exact .neg ‹_› (.done rfl hs₂)

theorem block {w a : Ptr} (hs : s.Shows k) (hk : Placed k) (hc : k.currentThread ≠ null) :
    (Code.block k.bare k.currentThread w a).Does s (k.block k.currentThread w a).bare
      (k.block k.currentThread w a) := by
  obtain ⟨hready, hwait, hfree⟩ := hk.current_notMem hc
  have hthread := hk.sub _ (Kernel.mem_places.mpr (.inr (.inr (.inr ⟨rfl, hc⟩))))
  have hs₁ : s.Shows (k.setTcb k.currentThread fun t => { t with waitingFor := w, reply := a }) :=
    hs.setTcb fun _ => ⟨rfl, rfl⟩
  refine .bind (hs₁.insertWait hthread hready hwait hfree) fun s₂ hs₂ _ => ?_
  refine .done ?_ (hs₂.keep rfl rfl rfl rfl rfl rfl)
  have hbare : (k.bare.setTcb k.currentThread fun t => { t with waitingFor := w, reply := a }) =
      (k.setTcb k.currentThread fun t => { t with waitingFor := w, reply := a }).bare :=
    Kernel.bare_setTcb fun _ => rfl
  exact congrArg (fun k => { k with currentThread := null }) hbare

theorem pop {α : Type} {w : Ptr} {rest : List Msg} {f : U32 → Code α} {b : α} (hs : s.Shows k)
    (hb : k.buffers.Perm msgArray) (hp : p ∈ s.known)
    (hpop : popMessage (k.tcb p).tInbox w = some (m, rest))
    (hf : ∀ s', s'.Popped (k.setInbox p rest) m → (∀ p ∈ s.known, p ∈ s'.known) →
      (f m.addr).Does s' b k') :
    Code.Does (Code.queue (.popMessage (tInboxHead p) w) >>= f) s b k' := by
  obtain ⟨ho, hc, hs₁, hm⟩ := hs.popMessage_some hp hpop
  obtain ⟨pre, post, hq, rfl, -⟩ := AmiKaya.popMessage_some hpop
  obtain ⟨ha, hfree, hin⟩ := Kernel.setInbox_loose hb (hs.known p hp) hq
  refine .call ho hc (fun _ h => h) (hf _ ⟨hs₁, ha, hm, hfree, ?_⟩ fun _ h => h)
  exact fun p' hp' => hin p' (hs.known p' hp')

theorem recv {w a r : Ptr} (hs : s.Shows k) (hk : k.Pooled) (hc : k.currentThread ≠ null)
    (h : k.recv k.currentThread w a = .ok (r, k')) :
    (Code.recv k.bare k.currentThread w a).Does s (r, k'.bare) k' := by
  have hlive : k.Live k.currentThread := .inr (.inr (Kernel.mem_running.mpr ⟨rfl, hc⟩))
  have hp := hs.live_known hk.placed hlive
  have hbare : ∀ {m : Msg} {rest : List Msg} {k₂ : Kernel},
      (k.setInbox k.currentThread rest).storeWord a m.mMessage = .ok k₂ →
      k.bare.storeWord a m.mMessage = .ok k₂.bare := by
    intro m rest k₂ hstore
    rw [← Kernel.bare_setInbox (p := k.currentThread) rest]
    exact Kernel.bare_storeWord hstore
  rw [Kernel.recv] at h
  split at h
  · next hw =>
    refine .pos hw ?_
    split at h
    · next hpop =>
      cases h
      refine .bind (hs.popMessage_none hp hpop) fun s₁ hs₁ _ => .pos rfl ?_
      exact .bind (hs₁.block hk.placed hc) fun s₂ hs₂ _ => .done rfl hs₂
    · next m rest hpop =>
      obtain ⟨k₂, hstore, h⟩ := bind_eq_ok.mp h
      cases h
      refine hs.pop hk.perm hp hpop fun s₁ hs₁ _ => .neg (msgArray_ne_null hs₁.addr) ?_
      have hs₁ := hs₁.quiet (.storeWord hstore)
      refine .peek trivial (congrArg (fun m => (m.mMessage, s₁)) hs₁.msg) (.after (hbare hstore) ?_)
      refine .peek trivial (congrArg (fun m => (m.mSender, s₁)) hs₁.msg) ?_
      exact .bind hs₁.freeMsg fun s₂ hs₂ _ => .done rfl hs₂
  · next hw =>
    refine .neg hw ?_
    split at h
    · next hpop =>
      cases h
      refine .bind (hs.popMessage_none hp hpop) fun s₁ hs₁ _ => .pos rfl ?_
      exact .bind (hs₁.block hk.placed hc) fun s₂ hs₂ _ => .done rfl hs₂
    · next m rest hpop =>
      obtain ⟨k₂, hstore, h⟩ := bind_eq_ok.mp h
      have hk' : r = w ∧ k' = (k₂.freeMsg m).countIf (w = magicSsi) := by
        cases h
        refine ⟨rfl, ?_⟩
        unfold Kernel.countIf
        split <;> rfl
      obtain ⟨rfl, rfl⟩ := hk'
      refine hs.pop hk.perm hp hpop fun s₁ hs₁ _ => .neg (msgArray_ne_null hs₁.addr) ?_
      have hs₁ := hs₁.quiet (.storeWord hstore)
      refine .peek trivial (congrArg (fun m => (m.mMessage, s₁)) hs₁.msg) (.after (hbare hstore) ?_)
      refine .bind hs₁.freeMsg fun s₂ hs₂ _ => .done ?_ (hs₂.countIf _)
      exact congrArg (Prod.mk r) (Kernel.bare_countIf (r = magicSsi) (k₂.freeMsg m))

theorem cleanInbox {n : Nat} (hs : s.Shows k) (hb : k.buffers.Perm msgArray) (hp : p ∈ s.known)
    (hn : (k.tcb p).tInbox.length < n) :
    (Code.cleanInbox p n).Does s () (k.cleanInbox p (k.tcb p).tInbox) := by
  induction n generalizing k s with
  | zero => exact absurd hn (Nat.not_lt_zero _)
  | succ n ih =>
    cases hq : (k.tcb p).tInbox with
    | nil =>
      refine .bind (hs.popMessage_none hp (by rw [hq]; rfl)) fun s₁ hs₁ _ => .pos rfl (.done rfl ?_)
      rw [← Kernel.setInbox_self hq] at hs₁
      exact hs₁
    | cons m rest =>
      have hpop : popMessage (k.tcb p).tInbox null = some (m, rest) := by
        rw [hq]
        rfl
      have hbox : (((k.setInbox p rest).freeMsg m).tcb p).tInbox = rest := by
        simp [Kernel.setInbox, Kernel.freeMsg, Kernel.setTcb]
      refine hs.pop hb hp hpop fun s₁ hs₁ hn₁ => ?_
      refine .neg (msgArray_ne_null hs₁.addr) (.bind hs₁.freeMsg fun s₂ hs₂ hn₂ => ?_)
      have hcons : (k.tcb p).tInbox = [] ++ m :: rest := hq
      have hloop := ih hs₂ (Kernel.setInbox_buffers hb (hs.known p hp) hcons)
        (hn₂ p (hn₁ p hp)) (by rw [hbox]; simpa [hq] using hn)
      rw [hbox, Kernel.cleanInbox_cons] at hloop
      exact hloop

/-- The second half of a termination: the messages are freed, then the TCB. In between only
variables without lists change. -/
theorem reclaim {k₀ : Kernel} (hs : s.Shows k) (hb : k.buffers.Perm msgArray) (hp : p ∈ s.known)
    (hr : p ∉ k.readyQueue) (hw : p ∉ k.waitQueue) (hf : p ∉ k.tcbFree)
    (hkeep : ∀ s' : Lists, s'.Shows (k.cleanInbox p (k.tcb p).tInbox) → s'.Shows k')
    (hl : Kernel.SameQueues k k') (h₀ : k₀ = k'.bare) :
    Code.Does (Code.cleanInbox p (maxMessages + 1) >>= fun _ => Code.queue (.freeTcb p) >>=
      fun _ => .done { k₀ with threadCount := k₀.threadCount - 1 }) s (k'.reclaim p).bare
      (k'.reclaim p) := by
  obtain ⟨hready, hwait, hfree⟩ := hl
  have hthread := hs.known p hp
  refine .bind (hs.cleanInbox hb hp (Kernel.inbox_length hb hthread)) fun s₂ hs₂ _ => ?_
  refine .bind ((hkeep _ hs₂).freeTcb hthread ?_ ?_ ?_) fun s₃ hs₃ _ => ?_
  · exact hready ▸ hr
  · exact hwait ▸ hw
  · exact hfree ▸ hf
  · refine .done ?_ (hs₃.keep rfl rfl rfl rfl rfl rfl)
    rw [h₀]
    rfl

theorem reap (hs : s.Shows k) (hk : k.Pooled) (ht : t ≠ null) (h : k.reap t = .ok k') :
    (Code.reap k.bare t).Does s k'.bare k' := by
  have hlive := (Reaped.reap hk.placed ht h).live t List.mem_cons_self
  have hfree := hlive.notMem_free hk.placed
  obtain ⟨hready, hwait⟩ := Reaped.queues_nodup hk.placed
  refine .bind (hs.outReady t) fun s₁ hs₁ hn₁ => ?_
  have hknown := hn₁ t (hs.live_known hk.placed hlive)
  rcases Kernel.reap_steps h with ⟨hc, rfl⟩ | ⟨hc, hc', rfl⟩
  · have hr : t ∉ (outThread k.readyQueue t).2 := by
      rw [outThread_snd]
      exact hready.not_mem_erase
    have hw : t ∉ k.waitQueue := by
      rcases hc with hc | rfl
      · exact (hk.placed.ready_notMem (outThread_fst_ne_null.mp hc).1).1
      · exact (hk.placed.current_notMem ht).2.1
    refine .pos hc (hs₁.reclaim hk.perm hknown hr hw hfree ?_ (.leave (.discharge _ t) t) ?_)
    · exact fun _ h => (h.quiet (.deleteManager t)).leave
    · rw [← Kernel.bare_leave, Kernel.bare_discharge]
      rfl
  · have hr : t ∉ k.readyQueue := fun hr => hc (.inl (outThread_fst_ne_null.mpr ⟨hr, ht⟩))
    have hw : t ∉ (outThread k.waitQueue t).2 := by
      rw [outThread_snd]
      exact hwait.not_mem_erase
    have hsame : k.setReady (outThread k.readyQueue t).2 = k := by
      rw [outThread_snd, List.erase_of_not_mem hr]
      rfl
    rw [hsame] at hs₁
    refine .neg hc (.bind (hs₁.outWait t) fun s₂ hs₂ hn₂ => .pos hc' ?_)
    have hcount := hs₂.countIf ((k.tcb t).waitingFor = k.ssiTcb)
    have hlists := Kernel.countIf_lists ((k.tcb t).waitingFor = k.ssiTcb)
      (k.setWait (outThread k.waitQueue t).2)
    obtain ⟨⟨hr₁, hw₁, hf₁⟩, hb₁⟩ := hlists
    refine hcount.reclaim ?_ (hn₂ t hknown) ?_ ?_ ?_ ?_ (.discharge _ t) ?_
    · exact hb₁ ▸ hk.perm
    · exact hr₁ ▸ hr
    · exact hw₁ ▸ hw
    · exact hf₁ ▸ hfree
    · exact fun _ h => h.quiet (.deleteManager t)
    · rw [Kernel.bare_discharge, ← Kernel.bare_countIf]
      rfl

/-- By induction on the bound of the recursion. A child is known since its own termination comes to
an end. -/
theorem terminateFuel (n : Nat) :
    (∀ s k t k', Lists.Shows s k → k.Pooled → t ≠ null → Kernel.terminateFuel n k t = .ok k' →
      (Code.terminateFuel n k.bare t).Does s k'.bare k') ∧
    (∀ s k t k', Lists.Shows s k → k.Pooled → t ∈ s.known →
      Kernel.terminateChildren n k t = .ok k' →
      (Code.terminateChildren n k.bare t).Does s k'.bare k') := by
  induction n with
  | zero => constructor <;> intros <;> contradiction
  | succ n ih =>
    refine ⟨fun s k t k' hs hk ht h => ?_, fun s k t k' hs hk ht h => ?_⟩
    · have hlive := ((Kernel.terminateFuel_live (n + 1)).1 k t k' hk ht h).2.2
      have hknown := hs.live_known hk.placed hlive
      obtain ⟨k₁, h₁, h₂⟩ := bind_eq_ok.mp h
      have hk₀ := (Kernel.outChild_rewired k t).pooled hk
      have hk₁ := ((Kernel.terminateFuel_live n).2 _ _ _ hk₀ h₁).1
      refine .bind (hs.outChild hknown) fun s₁ hs₁ hn₁ => ?_
      exact .bind (ih.2 _ _ _ _ hs₁ hk₀ (hn₁ t hknown) h₁) fun s₂ hs₂ _ => hs₂.reap hk₁ ht h₂
    · have hremove := Kernel.removeChild_rewired k t
      simp only [Kernel.terminateChildren] at h
      split at h
      · next hnull =>
        cases h
        refine .bind (hs.removeChild ht fun hne => absurd hnull hne) fun s₁ hs₁ _ => ?_
        exact .pos hnull (.done rfl hs₁)
      · next hne =>
        obtain ⟨k₁, h₁, h₂⟩ := bind_eq_ok.mp h
        have hk₀ := hremove.pooled hk
        obtain ⟨hk₁, -, hlive⟩ := (Kernel.terminateFuel_live n).1 _ _ _ hk₀ hne h₁
        have hchild := hs.live_known hk.placed ((hremove.live _).mp hlive)
        refine .bind (hs.removeChild ht fun _ => hchild) fun s₁ hs₁ hn₁ => .neg hne ?_
        refine .bind (ih.1 _ _ _ _ hs₁ hk₀ hne h₁) fun s₂ hs₂ hn₂ => ?_
        exact ih.2 _ _ _ _ hs₂ hk₁ (hn₂ t (hn₁ t ht)) h₂

theorem terminate (hs : s.Shows k) (hk : k.Pooled) (ht : t ≠ null) (h : k.terminate t = .ok k') :
    (Code.terminate k.bare t).Does s k'.bare k' :=
  (terminateFuel _).1 _ _ _ _ hs hk ht h

end Shows

end Lists

end AmiKaya
