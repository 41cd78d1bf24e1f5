import AmiKaya.LinkedSsi

/-! From power on the code over the list nodes goes wherever the machine of the model goes, whatever
was in the nodes before. -/
namespace AmiKaya
open Client Links Lts

variable {s s' : Lists} {k k' : Kernel} {m m' : Machine} {e : Event} {es : List Event}

/-! Boot. -/

/-- No head has been initialised. -/
def Lists.blank (k : Kernel) (h : NodeHeap) : Lists where
  queues := { queue := fun _ => none, mSender := h.mSender, mMessage := h.mMessage }
  tree := k.links
  known := []

theorem NodeHeap.holds_blank (k : Kernel) (h : NodeHeap) : h.Holds (.blank k h) where
  queues := h.represents_none
  typed := by
    refine ⟨fun ha => ?_, fun p hp => ?_⟩
    · cases ha
    · cases hp
  same x hx := by
    obtain ⟨p, hp, -⟩ := hx
    cases hp
  closed x hx := by
    obtain ⟨p, hp, -⟩ := hx
    cases hp

namespace Code

/-- All the elements of an array come to a list: by induction on them. -/
theorem insertAll_follows {op : Ptr → QueueOp} {a : Ptr} {l acc : List Ptr}
    (hq : s.queues.queue a = some acc) (hn : l.Nodup) (hl : ∀ p ∈ l, Loose s.queues.queue p)
    (hop : ∀ s' : Lists, ∀ acc, ∀ p ∈ l, s'.queues.queue a = some acc → Loose s'.queues.queue p →
      s'.Allowed (.queue (op p)) ∧ s'.call (.queue (op p)) = (null, s'.set a (acc ++ [p]))) :
    (insertAll op l).Follows Lists.call Lists.Allowed (fun _ s' => s' = s.set a (acc ++ l)) s := by
  induction l generalizing s acc with
  | nil =>
    have hself : s.set a acc = s := by rw [Lists.set, Queues.set_self hq]
    rw [List.append_nil, hself]
    rfl
  | cons p l ih =>
    obtain ⟨hp, hn⟩ := List.nodup_cons.mp hn
    obtain ⟨ho, hc⟩ := hop s acc p List.mem_cons_self hq (hl p List.mem_cons_self)
    have hget : (s.set a (acc ++ [p])).queues.queue a = some (acc ++ [p]) :=
      Queues.set_queue_same _ _ _
    have hrest := ih hget hn ?_ fun s' acc q hq => hop s' acc q (List.mem_cons_of_mem _ hq)
    · refine Prog.Follows.call ho hc (Prog.Follows.mono hrest ?_)
      rintro - s' rfl
      rw [List.append_assoc]
      simp only [Lists.set, Queues.set, put_put]
      rfl
    · intro q hq'
      refine (hl q (List.mem_cons_of_mem _ hq')).put ?_
      have hloose := hl q (List.mem_cons_of_mem _ hq') a acc hq
      simp only [List.mem_cons, List.mem_append, List.not_mem_nil, or_false, not_or] at hloose ⊢
      exact ⟨hloose.1, hloose.2, fun he => hp (he ▸ hq')⟩

/-- A free list is made, and gets all the elements of its array. -/
theorem initList {make : QueueOp} {op : Ptr → QueueOp} {a : Ptr} {l : List Ptr}
    {R : Unit → Lists → Prop} (ho : s.Allowed (.queue make))
    (hc : s.call (.queue make) = (null, s.set a [])) (hn : l.Nodup)
    (hl : ∀ p ∈ l, p ≠ a ∧ Loose s.queues.queue p)
    (hop : ∀ s' : Lists, ∀ acc, ∀ p ∈ l, s'.queues.queue a = some acc → Loose s'.queues.queue p →
      s'.Allowed (.queue (op p)) ∧ s'.call (.queue (op p)) = (null, s'.set a (acc ++ [p])))
    (hr : R () (s.set a l)) :
    (queue make >>= fun _ => insertAll op l).Follows Lists.call Lists.Allowed R s := by
  have hget : (s.set a []).queues.queue a = some [] := Queues.set_queue_same _ _ _
  have hloose : ∀ p ∈ l, Loose (s.set a []).queues.queue p := fun p hp =>
    (hl p hp).2.put (by simpa using (hl p hp).1)
  refine Prog.Follows.call ho hc (Prog.Follows.mono (insertAll_follows hget hn hloose hop) ?_)
  rintro ⟨⟩ s' rfl
  simpa only [Lists.set, Queues.set, put_put, List.nil_append] using hr

theorem initTcbs_follows {R : Unit → Lists → Prop} (ht : s.Typed)
    (hl : ∀ p ∈ threadArray, Loose s.queues.queue p)
    (hr : R () (s.set tcbfreeSentinel threadArray)) :
    initTcbs.Follows Lists.call Lists.Allowed R s := by
  have hhead : IsHead tcbfreeSentinel := .inl (by simp)
  refine initList ⟨ht.unlinked hhead, hhead⟩ rfl threadArray_nodup (fun p hp => ?_) ?_ hr
  · exact ⟨(hhead.ne_item (.inl hp)).symm, hl p hp⟩
  · intro s' acc p hp hq hn
    have hmade : s'.queues.Made tcbfreeSentinel := by rw [Queues.Made, hq]; rfl
    refine ⟨⟨⟨hmade, hn⟩, hp⟩, ?_⟩
    simp only [Lists.call, Queues.apply, sentinels, Queues.list_eq hq]
    rfl

theorem initMsg_follows {R : Unit → Lists → Prop} (ht : s.Typed)
    (hl : ∀ m ∈ msgArray, Loose s.queues.queue m) (hr : R () (s.set msgfreeSentinel msgArray)) :
    initMsg.Follows Lists.call Lists.Allowed R s := by
  have hhead : IsHead msgfreeSentinel := .inl (by simp)
  refine initList ⟨ht.unlinked hhead, hhead⟩ rfl Kernel.msgArray_nodup (fun m hm => ?_) ?_ hr
  · exact ⟨(hhead.ne_item (.inr hm)).symm, hl m hm⟩
  · intro s' acc m hm hq hn
    have hmade : s'.queues.Made msgfreeSentinel := by rw [Queues.Made, hq]; rfl
    refine ⟨⟨⟨hmade, hn⟩, hm⟩, ?_⟩
    simp only [Lists.call, Queues.apply, sentinels, Queues.list_eq hq]
    rfl

end Code

/-- The lists after the first four calls of `main`. -/
def Lists.booted (s : Lists) : Lists :=
  (((s.set tcbfreeSentinel threadArray).set msgfreeSentinel msgArray).set readyQueueAddr []).set
    waitQueueAddr []

namespace Code

/-- The four calls that make the global heads. -/
theorem boot_lists {h : NodeHeap} {f : Code Kernel} {R : Kernel → Lists → Prop}
    (hf : f.Follows Lists.call Lists.Allowed R (Lists.blank k h).booted) :
    (initTcbs >>= fun _ => initMsg >>= fun _ => queue (.mkEmptyThreadQ readyQueueAddr) >>= fun _ =>
      queue (.mkEmptyThreadQ waitQueueAddr) >>= fun _ => f).Follows Lists.call Lists.Allowed R
      (.blank k h) := by
  have ht := (h.holds_blank k).typed
  have hloose : ∀ n, Loose (Lists.blank k h).queues.queue n := fun n a l ha => by cases ha
  have hthread : ∀ p ∈ threadArray, IsItem p := fun p hp => .inl hp
  have hmsg : ∀ m ∈ msgArray, IsItem m := fun m hm => .inr hm
  have ht₁ : ((Lists.blank k h).set tcbfreeSentinel threadArray).Typed :=
    ht.set (.inl (by simp)) hthread
  have ht₂ := ht₁.set (a := msgfreeSentinel) (.inl (by simp)) hmsg
  have ht₃ := ht₂.set (a := readyQueueAddr) (l := []) (.inl (by simp)) (by simp)
  have hready : IsHead readyQueueAddr := .inl (by simp)
  have hwait : IsHead waitQueueAddr := .inl (by simp)
  refine Prog.Follows.bind (initTcbs_follows ht (fun p _ => hloose p)
    (R := fun _ s => s = (Lists.blank k h).set tcbfreeSentinel threadArray) rfl) ?_
  rintro - s rfl
  refine Prog.Follows.bind (initMsg_follows ht₁ (fun m hm => (hloose m).put ?_)
    (R := fun _ s => s = ((Lists.blank k h).set tcbfreeSentinel threadArray).set msgfreeSentinel
      msgArray) rfl) ?_
  · have hne : m ≠ tcbfreeSentinel := (IsHead.ne_item (.inl (by simp)) (.inr hm)).symm
    exact List.not_mem_cons_of_ne_of_not_mem hne fun hp => thread_notMem_msgArray hp hm
  rintro - s rfl
  refine Prog.Follows.call ⟨ht₂.unlinked hready, hready⟩ rfl ?_
  exact Prog.Follows.call ⟨ht₃.unlinked hwait, hwait⟩ rfl hf

end Code

theorem Lists.booted_shows {h : NodeHeap} (hf : k'.tcbFree = threadArray)
    (hm : k'.msgFree = msgArray) (hr : k'.readyQueue = []) (hw : k'.waitQueue = [])
    (hl : k'.links = k.links) :
    (Lists.blank k h).booted.Shows k' := by
  have hne : [msgfreeSentinel, tcbfreeSentinel, waitQueueAddr, readyQueueAddr].Nodup := by decide
  simp only [List.nodup_cons, List.mem_cons, List.not_mem_nil, not_or, or_false, not_false_eq_true,
    List.nodup_nil, and_true] at hne
  obtain ⟨⟨hmt, hmw, hmr⟩, ⟨htw, htr⟩, hwr⟩ := hne
  constructor
  case lists =>
    intro q hq
    cases q with
    | inbox p => cases hq
    | ready =>
      simp [Lists.booted, Lists.set, Queues.set, ListHead.addr, Kernel.list, hr, Ne.symm hwr]
    | wait => simp [Lists.booted, Lists.set, Queues.set, ListHead.addr, Kernel.list, hw]
    | tcbFree =>
      simp [Lists.booted, Lists.set, Queues.set, ListHead.addr, Kernel.list, hf, htw, htr,
        Ne.symm hmt]
    | msgFree =>
      simp [Lists.booted, Lists.set, Queues.set, ListHead.addr, Kernel.list, hm, hmw, hmr]
  case only =>
    intro a l ha
    simp only [Lists.booted, Lists.set, Queues.set, put_apply] at ha
    split at ha
    · exact ⟨.wait, trivial, ‹_›⟩
    split at ha
    · exact ⟨.ready, trivial, ‹_›⟩
    split at ha
    · exact ⟨.msgFree, trivial, ‹_›⟩
    split at ha
    · exact ⟨.tcbFree, trivial, ‹_›⟩
    · cases ha
  case items =>
    intro q hq n hn
    cases q with
    | inbox p => cases hq
    | ready => simp [Kernel.list, hr] at hn
    | wait => simp [Kernel.list, hw] at hn
    | tcbFree => simpa [Kernel.list, hf, ListHead.items] using hn
    | msgFree => simpa [Kernel.list, hm, ListHead.items] using hn
  case tree => exact hl.symm
  case closed =>
    intro x hx
    obtain ⟨p, hp, -⟩ := hx
    cases hp
  case allocated =>
    intro p hp
    exact absurd (hf ▸ hp.1) hp.2
  case msg | known | parents =>
    intro p hp
    cases hp

theorem Lists.Shows.bootThread {p : Ptr} {free : List Ptr} (hs : s.Shows k) (sp entry : U32)
    (hf : k.tcbFree = p :: free) (hp : p ∈ threadArray) (hr : p ∉ k.readyQueue)
    (hw : p ∉ k.waitQueue) (hfree : p ∉ free) (h : k.bootThread sp entry = .ok (p, k')) :
    (Code.bootThread k.bare sp entry).Does s (p, k'.bare) k' := by
  have hne : p ≠ null := fun he => null_notMem_threadArray (he ▸ hp)
  have hal : k.allocTcb.1 = p := by simp only [Kernel.allocTcb, hf]
  have hlists : k.allocTcb.2.readyQueue = k.readyQueue ∧ k.allocTcb.2.waitQueue = k.waitQueue ∧
      k.allocTcb.2.tcbFree = free := by
    simp only [Kernel.allocTcb, hf]
    exact ⟨rfl, rfl, trivial⟩
  obtain ⟨hready, hwait, htcb⟩ := hlists
  unfold Kernel.bootThread at h
  simp only [hal, if_neg hne] at h
  refine .bind hs.allocTcb fun s₁ hs₁ _ => ?_
  simp only [hal]
  generalize k.allocTcb.2 = k₁ at h hs₁ hready hwait htcb
  have hs₂ : s₁.Shows
      (k₁.setTcb p fun t => { t with tState := Kernel.bootState t.tState sp entry }) :=
    hs₁.setTcb fun _ => ⟨rfl, rfl⟩
  refine .neg hne (.bind (hs₂.insertReady hp ?_ ?_ ?_) fun s₂ hs₂ _ => ?_)
  · exact hready ▸ hr
  · exact hwait ▸ hw
  · exact htcb ▸ hfree
  · have hbare :
        (k₁.bare.setTcb p fun t => { t with tState := Kernel.bootState t.tState sp entry }) =
        (k₁.setTcb p fun t => { t with tState := Kernel.bootState t.tState sp entry }).bare :=
      Kernel.bare_setTcb fun _ => rfl
    cases h
    refine .done ?_ (hs₂.keep rfl rfl rfl rfl rfl rfl)
    exact congrArg (fun k : Kernel => (p, { k with threadCount := k.threadCount + 1 })) hbare

/-- What `main` does on the lists of the model, it does on any nodes. -/
theorem Code.main_follows {h : NodeHeap} (hm : k.main = .ok k') :
    (Code.main k.bare).Follows Lists.call Lists.Allowed (fun x s' => x = k'.bare ∧ s'.Shows k')
      (.blank k h) := by
  have hne : threadArrayAddr ≠ null ∧ testThreadAddr ≠ null := by decide
  obtain ⟨k₅, hb, hsch⟩ := bind_eq_ok.mp hm
  obtain ⟨k₀, hk₀⟩ : ∃ k₀ : Kernel, k₀ = { k with
      tcbFree := threadArray, msgFree := msgArray, readyQueue := [], waitQueue := []
      threadCount := 0, softBlockCount := 0, currentThread := null, pseudoTick := 0
      startPseudoTick := 0, currentThreadTod := 0 } := ⟨_, rfl⟩
  have hb : (do
      let r ← k₀.bootThread (k₀.ramtop - frameSize) ssiThreadAddr
      let k := { r.2 with ssiTcb := r.1 }
      let r ← k.bootThread (k.ramtop - 2 * frameSize) testAddr
      let k := { r.2 with testTcb := r.1 }
      .ok { k.readTodlow with startPseudoTick := k.getTodlow }) = .ok k₅ := hk₀ ▸ hb
  obtain ⟨⟨p₁, k₁⟩, h₁, hb⟩ := bind_eq_ok.mp hb
  obtain ⟨⟨p₂, k₂⟩, h₂, hb⟩ := bind_eq_ok.mp hb
  have hk₅ := Except.ok.inj hb
  have hf₀ : k₀.tcbFree = threadArrayAddr :: testThreadAddr :: threadArray.drop 2 := by
    rw [hk₀]
    exact threadArray_eq
  have hs₀ : (Lists.blank k h).booted.Shows k₀ := by
    rw [hk₀]
    exact Lists.booted_shows rfl rfl rfl rfl rfl
  have hk₁ : p₁ = threadArrayAddr ∧ k₁.tcbFree = testThreadAddr :: threadArray.drop 2 ∧
      k₁.readyQueue = [threadArrayAddr] ∧ k₁.waitQueue = [] := by
    have h₁ := (Kernel.bootThread_eq _ _ hf₀ hne.1).symm.trans h₁
    cases h₁
    rw [hk₀]
    exact ⟨rfl, rfl, rfl, rfl⟩
  obtain ⟨rfl, hf₁, hr₁, hw₁⟩ := hk₁
  have hk₂ : p₂ = testThreadAddr ∧ k₂.readyQueue = [threadArrayAddr, testThreadAddr] := by
    have h₂ := (Kernel.bootThread_eq (k := { k₁ with ssiTcb := threadArrayAddr }) _ _ hf₁
      hne.2).symm.trans h₂
    cases h₂
    exact ⟨rfl, by rw [hr₁]; rfl⟩
  obtain ⟨rfl, hr₂⟩ := hk₂
  have hnull : null ∉ k₅.readyQueue := by
    rw [← hk₅]
    simp only [Kernel.readTodlow, hr₂]
    decide
  have hboot : (Code.boot k.bare).Follows Lists.call Lists.Allowed
      (fun x s' => x = k₅.bare ∧ s'.Shows k₅) (.blank k h) := by
    refine Code.boot_lists (Prog.Follows.mono (?_ : Code.Does _ _ k₅.bare k₅)
      fun _ _ h => ⟨h.1, h.2.1⟩)
    subst hk₀
    refine .bind (hs₀.bootThread _ _ hf₀ (by decide) List.not_mem_nil List.not_mem_nil (by decide)
      h₁) fun s₁ hs₁ _ => ?_
    have hs₁ : s₁.Shows { k₁ with ssiTcb := threadArrayAddr } := hs₁.keep rfl rfl rfl rfl rfl rfl
    refine .bind (hs₁.bootThread _ _ hf₁ (by decide) ?_ ?_ (by decide) h₂) fun s₂ hs₂ _ => ?_
    · exact hr₁ ▸ by decide
    · exact hw₁ ▸ by decide
    · subst hk₅
      exact .done rfl (hs₂.keep rfl rfl rfl rfl rfl rfl)
  refine Prog.Follows.bind hboot ?_
  rintro x s' ⟨rfl, hs'⟩
  exact Prog.Follows.mono (hs'.scheduler hnull hsch) fun _ _ h => ⟨h.1, h.2.1⟩

/-! Runs. -/

namespace Machine

/-- The TCBs that the SSI works on after a step have been allocated, now or before. -/
theorem serves_step (hs : s.Serves m) (hw : m.Wf) (h : m.Step e m') (hs' : s'.Shows m'.k)
    (hn : ∀ p ∈ s.known, p ∈ s'.known) : s'.Serves m' := by
  rcases step_cases h with ⟨hssi, -⟩ | ⟨old, r, -, -, -, hssi⟩
  · exact ⟨hs', fun hp => hssi ▸ hn _ (hs.requester (hssi ▸ hp)), fun hp hne =>
      hssi ▸ hn _ (hs.parent (hssi ▸ hp) (hssi ▸ hne))⟩
  · refine ⟨hs', fun hp => ?_, fun hp hne => ?_⟩
    · rw [hssi] at hp ⊢
      obtain ⟨hreq, hq⟩ := Ssi.next_serves hp
      rw [hreq]
      rcases hq with hq | hq | hq
      · exact hn _ (hs.requester hq)
      · exact hn _ (hs.shows.live_known hw.placed (.inl hq))
      · exact hn _ (hs.shows.live_known hw.placed (.inr (.inl hq)))
    · rw [hssi] at hp hne ⊢
      obtain ⟨hpc, -, hparent⟩ := Ssi.next_linkBrother hp
      rw [hparent] at hne ⊢
      have hreq := hs.requester (by rw [hpc]; rfl)
      exact hn _ ((hs.shows.parents _ hreq).resolve_left hne)

/-- By induction on the run. -/
theorem run_code (hs : s.Serves m) (hw : m.Wf) (hk : m.k.Pooled) (h : Run Step m es m') :
    (Code.steps m.bare es).Follows Lists.call Lists.Allowed
      (fun x s' => x = m'.bare ∧ s'.Shows m'.k) s := by
  induction h generalizing s with
  | refl => exact ⟨rfl, hs.shows⟩
  | stepL hstep _ ih =>
    refine Prog.Follows.bind (steps_code hs hw hk hstep) ?_
    rintro x s' ⟨rfl, hs', hn⟩
    exact ih (serves_step hs hw hstep hs' hn) (hw.step hstep) (Kernel.keeps_pooled.step hw hstep hk)

end Machine

/-- The nodes in memory are linked as the kernel says: four global queues, an inbox and two nodes of
the tree for each TCB that has been allocated. -/
structure NodeHeap.Linked (h : NodeHeap) (k : Kernel) : Prop where
  ready : h.links.Ring readyQueueAddr k.readyQueue
  wait : h.links.Ring waitQueueAddr k.waitQueue
  tcbFree : h.links.Ring tcbfreeSentinel k.tcbFree
  msgFree : h.links.Ring msgfreeSentinel k.msgFree
  inbox : ∀ p, k.Allocated p → h.links.Ring (tInboxHead p) (k.inboxBuffers p) ∧
    ∀ x ∈ (k.tcb p).tInbox, h.mSender x.addr = x.mSender ∧ h.mMessage x.addr = x.mMessage
  tree : ∀ p, k.Allocated p → ∀ n ∈ [tChild p, tSib p],
    h.links.next n = k.links.next n ∧ h.links.prev n = k.links.prev n

theorem NodeHeap.Holds.linked {h : NodeHeap} (hh : h.Holds s) (hs : s.Shows k) : h.Linked k where
  ready := hh.queues.rings.ring (hs.lists .ready trivial)
  wait := hh.queues.rings.ring (hs.lists .wait trivial)
  tcbFree := hh.queues.rings.ring (hs.lists .tcbFree trivial)
  msgFree := hh.queues.rings.ring (hs.lists .msgFree trivial)
  inbox p hp := by
    have hk := hs.allocated p hp
    refine ⟨hh.queues.rings.ring (hs.lists (.inbox p) hk), fun x hx => ?_⟩
    have hm := hs.msg p hk x hx
    rw [hh.queues.mSender, hh.queues.mMessage]
    exact ⟨congrArg Msg.mSender hm, congrArg Msg.mMessage hm⟩
  tree p hp n hn := by
    have hk := hs.allocated p hp
    have hnode : s.TreeNode n := by
      simp only [List.mem_cons, List.not_mem_nil, or_false] at hn
      exact ⟨p, hk, hn⟩
    rw [← hs.tree]
    exact hh.same n hnode

namespace Machine

/-- Whatever is in the list nodes at power on, the code that works on them goes through every run of
the machine, and leaves them linked as its lists are. -/
theorem code_refines {k : Kernel} (h : NodeHeap) (hm : k.main = .ok m.k) (hpower : k.PowerOn)
    (hpc : m.ssi.pc = .init) (hr : Run Step m es m') :
    ∃ n h', (∀ fuel, n ≤ fuel → (Code.machine k.bare m.ssi es).run
      (fun h op => h.call fuel op) h = some (.ok (m'.bare, h'))) ∧ h'.Linked m'.k := by
  have hinit : m.Initial := ⟨⟨k, hpower, hm⟩, hpc⟩
  have hpool := (Kernel.main_booted hpower hm).pooled
  have hfollows : (Code.machine k.bare m.ssi es).Follows Lists.call Lists.Allowed
      (fun x s' => x = m'.bare ∧ s'.Shows m'.k) (.blank k h) := by
    refine Prog.Follows.bind (Code.main_follows hm) ?_
    rintro x s ⟨rfl, hs⟩
    refine run_code ⟨hs, fun hp => ?_, fun hp => ?_⟩ (initial_wf hinit) hpool hr
    · simp [hpc, SsiPc.serves] at hp
    · simp [hpc] at hp
  obtain ⟨n, x, h', hrun, s', hh, rfl, hs⟩ := NodeHeap.simulates.run (h.holds_blank k) hfollows
  exact ⟨n, h', hrun, hh.linked hs⟩

/-- Nodes full of zeros. -/
def zeroedNodes : NodeHeap := ⟨⟨fun _ => null, fun _ => null⟩, fun _ => null, fun _ => 0⟩

/-- The test thread sends two requests; the SSI is given the first, the other one is queued. -/
def twoRequestsTrace : List Event :=
  Event.ssiCalls 2 ++ [Event.call sysSend magicSsi 0x20030000, Event.call sysSend magicSsi 0x20030000]

/-- The second of two requests is the one message in the inbox of the SSI, where its buffer is
linked both ways. Before, every link was null. -/
theorem code_refines_queued : ∃ m m' : Machine, ∃ n h',
    Run Step m twoRequestsTrace m' ∧
    (∀ fuel, n ≤ fuel → (Code.machine Kernel.zeroed.bare m.ssi twoRequestsTrace).run
      (fun h op => h.call fuel op) zeroedNodes = some (.ok (m'.bare, h'))) ∧
    h'.links.next (tInboxHead threadArrayAddr) = msgArrayAddr ∧
    h'.links.prev (tInboxHead threadArrayAddr) = msgArrayAddr ∧
    h'.mSender msgArrayAddr = testThreadAddr ∧ h'.mMessage msgArrayAddr = 0x20030000 := by
  have hrun : passes (fun m => passes (fun m =>
      (m.k.tcb threadArrayAddr).tInbox = [⟨msgArrayAddr, testThreadAddr, 0x20030000⟩] &&
        threadArrayAddr ∉ m.k.tcbFree) (exec fire m twoRequestsTrace)) (start .zeroed) = true := by
    decide +kernel
  obtain ⟨m, hm, hrun⟩ := exists_of_passes hrun
  obtain ⟨m', hs, hend⟩ := exists_of_passes hrun
  simp only [Bool.and_eq_true, decide_eq_true_eq] at hend
  obtain ⟨hbox, hfree⟩ := hend
  have hr : Run Step m twoRequestsTrace m' := (run_of_exec hs).mono fun _ _ _ => step_of_fire
  obtain ⟨k, hmain, he⟩ := bind_eq_ok.mp hm
  have hk : m.k = k ∧ m.ssi.pc = .init := by
    cases he
    exact ⟨rfl, rfl⟩
  obtain ⟨rfl, hpc⟩ := hk
  obtain ⟨n, h', hcode, hlinked⟩ := code_refines zeroedNodes hmain Kernel.zeroed_powerOn hpc hr
  obtain ⟨hring, hmsg⟩ := hlinked.inbox threadArrayAddr ⟨by decide, hfree⟩
  rw [Kernel.inboxBuffers, hbox] at hring
  obtain ⟨hsender, hmessage⟩ := hmsg ⟨msgArrayAddr, testThreadAddr, 0x20030000⟩ (by simp [hbox])
  exact ⟨m, m', n, h', hr, hcode, hring.next_head, hring.seg.2.2, hsender, hmessage⟩

end Machine

end AmiKaya
