import AmiKaya.Targets

/-! The process tree along a run: it stays well formed as long as no thread without a parent is
terminated while it has a brother, and the SSI links to threads that still exist. -/
namespace AmiKaya
open Lts

/-- The SSI has not linked the TCB it has allocated. -/
def SsiPc.unlinked : SsiPc → Bool
  | .noGood _ | .readParent | .link _ => true
  | _ => false

namespace Ssi

variable {s : Ssi} {k : Kernel} {r : U32}

theorem dispatch_unlinked (s : Ssi) (k : Kernel) : (s.dispatch k).pc.unlinked = false := by
  unfold dispatch
  dsimp only
  repeat' split
  all_goals rfl

theorem linkPc_unlinked (c : Create) : c.linkPc.unlinked = true := by cases c <;> rfl

/-- Between the allocation and the linking the SSI goes on with its new TCB. -/
theorem next_unlinked (ha : ∀ c, s.pc ≠ .alloc c) (hl : ∀ c, s.pc ≠ .link c) :
    (s.next k r).pc.unlinked = s.pc.unlinked ∧
      (s.pc.unlinked = true → (s.next k r).newThread = s.newThread) := by
  cases hpc : s.pc <;> simp only [next, hpc]
  case alloc c => exact absurd hpc (ha c)
  case link c => exact absurd hpc (hl c)
  case serve => exact ⟨dispatch_unlinked s k, by simp [SsiPc.unlinked]⟩
  case noGood c => exact ⟨linkPc_unlinked c, fun _ => trivial⟩
  case readParent => exact ⟨rfl, fun _ => trivial⟩
  all_goals
    repeat' split
    all_goals simp_all [SsiPc.unlinked]

/-- A brother is linked right after the parent of the requester has been read. -/
theorem next_linkBrother (h : (s.next k r).pc = .link .brother) :
    s.pc = .readParent ∧ (s.next k r).reqThread = s.reqThread ∧
      (s.next k r).parent = (k.tcb s.reqThread).tParent := by
  cases hpc : s.pc <;> simp only [next, hpc] at h ⊢
  case readParent => exact ⟨trivial, trivial, trivial⟩
  case serve =>
    have := dispatch_unlinked s k
    simp [h, SsiPc.unlinked] at this
  case alloc c | noGood c =>
    cases c <;> simp [Create.linkPc] at h <;> split at h <;> simp at h
  all_goals
    repeat' split at h
    all_goals simp_all

end Ssi

namespace Machine

variable {m m' : Machine} {e : Event} {k : Kernel} {t : Ptr}

/-- The TCB that the SSI has not linked yet, if there is one. -/
def fresh (m : Machine) : List Ptr :=
  if m.ssi.pc.unlinked = true ∧ m.ssi.newThread ≠ null then [m.ssi.newThread] else []

theorem mem_fresh {n : Ptr} :
    n ∈ m.fresh ↔ n = m.ssi.newThread ∧ m.ssi.pc.unlinked = true ∧ m.ssi.newThread ≠ null := by
  unfold fresh
  split <;> simp_all

theorem unlinked_creates {p : SsiPc} (h : p.unlinked = true) : p.creates = true := by
  cases p <;> simp_all [SsiPc.unlinked, SsiPc.creates]

/-- It is in no queue. -/
theorem Wf.fresh_notMem (hw : m.Wf) {n : Ptr} (hn : n ∈ m.fresh) :
    n ∈ threadArray ∧ n ∉ m.k.places := by
  obtain ⟨rfl, hu, hne⟩ := mem_fresh.mp hn
  exact hw.creating (unlinked_creates hu) hne

theorem fresh_step (h : m.Step e m') (hg : m.grows e = false) : m'.fresh = m.fresh := by
  rcases step_cases h with ⟨hs, -⟩ | ⟨old, r, rfl, -, -, hs⟩
  · simp only [fresh, hs]
  · have ha : ∀ c, m.ssi.pc ≠ .alloc c := by
      intro c hc
      simp [grows, Ssi.call, hc, Call.grows] at hg
    have hl : ∀ c, m.ssi.pc ≠ .link c := by
      intro c hc
      cases c with
      | brother =>
        simp only [grows, Ssi.call, hc] at hg
        split at hg <;> simp [Call.grows] at hg
      | son => simp [grows, Ssi.call, hc, Call.grows] at hg
    have hn := m.ssi.next_unlinked (k := m.k) (r := r) ha hl
    simp only [fresh, hs, hn.1]
    by_cases hu : m.ssi.pc.unlinked = true
    · rw [hn.2 hu]
    · simp [hu]

/-- Only threads are terminated. -/
theorem target_ne_null (hw : m.Wf) (hen : m.Enabled e) (ht : m.target e = some t) : t ≠ null := by
  have htrap : ∀ e, m.k.currentThread ≠ null → m.k.trapTarget e = some t → t ≠ null := by
    intro e hc ht
    unfold Kernel.trapTarget at ht
    split at ht <;> cases ht
    exact hc
  have hsys : ∀ old, m.k.currentThread ≠ null → m.k.sysbpTarget old = some t → t ≠ null := by
    intro old hc ht
    unfold Kernel.sysbpTarget at ht
    split at ht
    · split at ht
      · next hd =>
        cases ht
        simp only [Kernel.intercepts, Bool.and_eq_true, decide_eq_true_eq] at hd
        exact hd.2.1.1.2
      · cases ht
    · split at ht
      · cases ht
      · exact htrap _ hc ht
  cases e with
  | sysbp old => exact hsys old hen.1 ht
  | pgmtrap | tlb => exact htrap _ hen ht
  | ssi old =>
    have hc : m.k.currentThread ≠ null := by
      rw [show m.k.currentThread = m.k.ssiTcb from hen]
      exact hw.ssi_ne_null
    have hat := m.ssi.call_at m.k
    simp only [target] at ht
    cases hcall : m.ssi.call m.k <;> simp only [hcall] at ht hat
    case msgRecv | msgSend => exact hsys _ hc ht
    case terminate p =>
      cases ht
      obtain ⟨hpc, rfl⟩ := hat
      intro he
      exact null_notMem_threadArray (he ▸ hw.requester (by rw [hpc]; rfl))
    all_goals cases ht
  | interrupt | devices | store | edit => cases ht

/-- A call of `terminate` that comes back, between two kernels with the same tree. -/
theorem body_terminated (ht : m.target e = some t) (h : m.body e = .ok k) :
    ∃ k₁ k₂, Still m.k k₁ ∧ k₁.terminate t = .ok k₂ ∧ SameTree k₂ k := by
  obtain ⟨k₁, hs, hb | hb⟩ := body_terminates ht
  · exact ⟨k₁, k, hs, hb ▸ h, .refl k⟩
  · rw [hb] at h
    obtain ⟨k₂, h₁, h₂⟩ := bind_eq_ok.mp h
    cases h₂
    exact ⟨k₁, k₂, hs, h₁, rfl, rfl, fun _ => rfl⟩

end Machine

namespace Kernel

/-- The threads of `ns` have no parent and are alone on their rings. -/
def Alone (k : Kernel) (ns : List Ptr) : Prop :=
  ∀ n ∈ ns, n ∈ threadArray ∧ (k.tcb n).tParent = null ∧ k.SibRing n []

variable {k k' : Kernel} {ns ds : List Ptr} {t c : Ptr}

theorem Alone.same (h : k.Alone ns) (hs : SameTree k k') : k'.Alone ns := by
  intro n hn
  obtain ⟨hm, hp, hr⟩ := h n hn
  exact ⟨hm, (hs.tParent n).trans hp, hs.sibRing.mpr hr⟩

theorem Alone.detach (h : k.Alone ns) (hf : k.Family ds) (hc : k.Allocated c)
    (hpar : (k.tcb c).tParent ≠ null) : (k.detach c).Alone ns := by
  intro n hn
  obtain ⟨hm, hp, hr⟩ := h n hn
  have hpa := hf.parent c hc hpar
  obtain ⟨l, hl, hmem⟩ := hf.kids _ hpa
  refine ⟨hm, by rw [detach_tParent, hp, ite_self], ?_⟩
  have hdis : ∀ x ∈ tSib n :: ([] : List Ptr), x ∉ tChild (k.tcb c).tParent :: l.map tSib := by
    intro x hx hx'
    rw [List.mem_singleton] at hx
    subst hx
    rw [List.mem_cons, mem_map_tSib] at hx'
    rcases hx' with he | hx'
    · exact tChild_ne_tSib hpa.1 hm he.symm
    · exact hpar (((hmem n).mp hx').2.symm.trans hp)
  have hnode : tSib c ∈ tChild (k.tcb c).tParent :: l.map tSib :=
    List.mem_cons_of_mem _ (mem_map_tSib.mpr ((hmem c).mpr ⟨hc, rfl⟩))
  exact Links.Heap.Ring.del_other hr hl hdis hnode

/-- `terminate` keeps the tree and leaves the threads of `ns` alone. -/
theorem alone_prunes (ns : List Ptr) : Prunes fun k ds => k.Tree ds ∧ k.Alone ns where
  family h := h.1.toFamily
  detach h hc hn := ⟨h.1.detach hc hn, h.2.detach h.1.toFamily hc hn⟩
  reap {k k' ds t} hk h hd hkids hr := by
    refine ⟨h.1.reap hk hd hkids hr, fun n hn => ?_⟩
    obtain ⟨hl, hp⟩ := reap_links hr
    obtain ⟨hm, hpar, hring⟩ := h.2 n hn
    exact ⟨hm, (hp n).trans hpar, by simpa only [SibRing, hl] using hring⟩

theorem Alone.outChild (h : k.Alone ns) (hf : k.Family ds) (ht : k.Allocated t) :
    (k.outChild t).Alone ns := by
  rw [outChild_eq]
  split
  · exact h
  · exact h.detach hf ht ‹_›

/-- A thread whose `t_sib` points to itself is alone on its ring. -/
theorem Tree.alone (h : k.Tree ds) (ht : k.Allocated t) (hn : (k.tcb t).tParent = null)
    (hd : t ∉ ds)
    (hself : k.links.next (tSib t) = tSib t) : k.SibRing t [] := by
  obtain ⟨l, hl, -⟩ := h.roots t ht hn hd
  have hnil : l.map tSib = [] :=
    (Links.Heap.Ring.isEmpty_iff hl).mp (by simp [Links.Heap.isEmpty, hself])
  rw [List.map_eq_nil_iff] at hnil
  exact hnil ▸ hl

end Kernel

namespace Machine

variable {m m' : Machine} {e : Event} {k : Kernel} {t : Ptr}

/-- A thread without a parent that is terminated is alone on its sibling ring. -/
def EndsAlone (m : Machine) (e : Event) : Prop :=
  ∀ t ∈ m.target e, (m.k.tcb t).tParent = null → m.k.links.next (tSib t) = tSib t

/-- The thread the SSI links its new TCB to. -/
def relative (m : Machine) : Event → Option Ptr
  | .ssi _ => match m.ssi.call m.k with
    | .insertChild p _ | .insertSibling p _ => some p
    | _ => none
  | _ => none

/-- A new TCB is linked to a thread in a queue or on the processor. -/
def LinksLive (m : Machine) (e : Event) : Prop := ∀ p ∈ m.relative e, m.k.Live p

instance (m : Machine) (e : Event) : Decidable (m.EndsAlone e) :=
  Option.decidableForallMem (p := fun t =>
    (m.k.tcb t).tParent = null → m.k.links.next (tSib t) = tSib t) (m.target e)

instance (m : Machine) (e : Event) : Decidable (m.LinksLive e) :=
  Option.decidableForallMem (p := m.k.Live) (m.relative e)

/-- The tree is well formed, the TCB that is to be linked is alone, and the parent the SSI has read
is the one its requester has. -/
structure Kin (m : Machine) : Prop where
  tree : m.k.Tree []
  alone : m.k.Alone m.fresh
  parent : m.ssi.pc = .link .brother → m.k.Allocated m.ssi.reqThread →
    (m.k.tcb m.ssi.reqThread).tParent = m.ssi.parent

/-- Only the SSI moves on to the linking of a brother, and only by reading the parent. -/
theorem linkBrother_step (h : m.Step e m') (hpc : m'.ssi.pc = .link .brother) :
    m.ssi.pc = .link .brother ∧ m'.ssi = m.ssi ∨
      (∃ old, e = .ssi old ∧ m.ssi.call m.k = .local) ∧ m'.ssi.reqThread = m.ssi.reqThread ∧
        m'.ssi.parent = (m.k.tcb m.ssi.reqThread).tParent := by
  rcases step_cases h with ⟨hs, -⟩ | ⟨old, r, rfl, -, -, hs⟩
  · exact .inl ⟨hs ▸ hpc, hs⟩
  · rw [hs] at hpc ⊢
    obtain ⟨hr, hreq, hpar⟩ := Ssi.next_linkBrother hpc
    exact .inr ⟨⟨old, rfl, by simp [Ssi.call, hr]⟩, hreq, hpar⟩

/-- The scheduler does not touch the tree. -/
theorem step_sameTree (hw : m.Wf) (h : m.Step e m') (hb : m.body e = .ok k) : SameTree k m'.k := by
  obtain ⟨k', hb', hk⟩ := step_body h
  rw [hb] at hb'
  cases hb'
  rcases hk with ⟨-, hk⟩ | ⟨-, hk⟩
  · exact (Still.scheduler (hw.placed.ops (body_ops hw h.1 hb)) hk).sameTree
  · exact hk ▸ .refl _

theorem Kin.of_same (hk : m.Kin) (h : m.Step e m') (hs : SameTree m.k m'.k)
    (hg : m.grows e = false) : m'.Kin := by
  have hfresh := fresh_step h hg
  refine ⟨hs.tree hk.tree, hfresh ▸ hk.alone.same hs, fun hpc ha => ?_⟩
  rcases linkBrother_step h hpc with ⟨hpc, hssi⟩ | ⟨-, hreq, hpar⟩
  · rw [hssi] at ha ⊢
    rw [hs.tParent]
    exact hk.parent hpc (hs.allocated.mp ha)
  · rw [hreq, hpar, hs.tParent]

/-- A step that terminates `t` frees it and the threads below it, and keeps what `terminate` keeps
of the tree. -/
theorem terminated {F : Kernel → List Ptr → Prop} {ds : List Ptr} (hF : Kernel.Prunes F) (hw : m.Wf)
    (h : m.Step e m') (ht : m.target e = some t)
    (hf : ∀ k₁, Still m.k k₁ → k₁.Allocated t → F (k₁.outChild t) (t :: ds))
    (hd : m.k.Live t → t ∉ ds) : ∃ k₂, SameTree k₂ m'.k ∧ F k₂ ds ∧
      (∀ p, m'.k.Allocated p ↔ m.k.Allocated p ∧ ¬ m.k.Below t p) ∧
      ∀ p, m'.k.Allocated p → (m'.k.tcb p).tParent = (m.k.tcb p).tParent := by
  obtain ⟨k, hb, -⟩ := step_body h
  obtain ⟨k₁, k₂, hs₁, hterm, hs₂⟩ := body_terminated ht hb
  have hs₂' := hs₂.trans (step_sameTree hw h hb)
  have hne := target_ne_null hw h.1 ht
  have hpl₁ : Placed k₁ := hw.placed.of_perm hs₁.places
  have hlive : k₁.Live t := by
    obtain ⟨es, hte, hr⟩ := Reaped.terminate hpl₁ hne hterm
    exact hr.live t hte
  have ha := hlive.allocated hpl₁
  have hlive' : m.k.Live t := hlive.of_same hpl₁ hs₁.places.symm hs₁.tcbFree.symm
  have hspec := Kernel.terminate_spec hF hpl₁ (hf k₁ hs₁ ha) ha (hd hlive')
  rw [hterm] at hspec
  obtain ⟨-, hF₂, es, hte, hcut⟩ := hspec
  have hmem : ∀ p, p ∈ es ↔ m.k.Below t p := fun p =>
    (hcut.mem_iff (hF.family hF₂) hte hne).trans (hs₁.sameTree.below hne)
  refine ⟨k₂, hs₂', hF₂, fun p => ?_, fun p hp => ?_⟩
  · rw [hs₂'.allocated, hcut.toReaped.allocated, hs₁.sameTree.allocated, hmem]
  · have hpe := (hcut.toReaped.allocated.mp (hs₂'.allocated.mp hp)).2
    rw [hs₂'.tParent, hcut.tParent p hpe, hs₁.tParent]

theorem Kin.terminated (hw : m.Wf) (hk : m.Kin) (h : m.Step e m') (ht : m.target e = some t)
    (hend : m.EndsAlone e) : m'.k.Tree [] ∧ m'.k.Alone m.fresh ∧
      (∀ p, m'.k.Allocated p ↔ m.k.Allocated p ∧ ¬ m.k.Below t p) ∧
      ∀ p, m'.k.Allocated p → (m'.k.tcb p).tParent = (m.k.tcb p).tParent := by
  have hout : ∀ k₁, Still m.k k₁ → k₁.Allocated t →
      (k₁.outChild t).Tree [t] ∧ (k₁.outChild t).Alone m.fresh := by
    intro k₁ hs ha
    have htree := hs.sameTree.tree hk.tree
    refine ⟨htree.outChild ha fun hn => htree.alone ha hn (by simp) ?_,
      (hk.alone.same hs.sameTree).outChild htree.toFamily ha⟩
    rw [hs.links]
    exact hend t ht ((hs.tParent t).symm.trans hn)
  obtain ⟨k₂, hs, ⟨htree, halone⟩, hmem, hpar⟩ :=
    Machine.terminated (Kernel.alone_prunes m.fresh) hw h ht hout (by simp)
  exact ⟨hs.tree htree, halone.same hs, hmem, hpar⟩

theorem grows_of_target (ht : m.target e = some t) : m.grows e = false := by
  cases e with
  | ssi old =>
    simp only [target] at ht
    simp only [grows]
    cases hcall : m.ssi.call m.k <;> simp only [hcall] at ht ⊢ <;> first | rfl | cases ht
  | sysbp | pgmtrap | tlb | interrupt | devices | store | edit => rfl

theorem Kin.of_terminated (hw : m.Wf) (hk : m.Kin) (h : m.Step e m') (ht : m.target e = some t)
    (hend : m.EndsAlone e) : m'.Kin := by
  obtain ⟨htree, halone, hmem, hpar⟩ := hk.terminated hw h ht hend
  refine ⟨htree, fresh_step h (grows_of_target ht) ▸ halone, fun hpc ha => ?_⟩
  rcases linkBrother_step h hpc with ⟨hpc, hssi⟩ | ⟨⟨old, rfl, hcall⟩, -, -⟩
  · rw [hssi] at ha ⊢
    rw [hpar _ ha]
    exact hk.parent hpc ((hmem _).mp ha).1
  · simp only [target, hcall] at ht
    cases ht

/-- A new TCB is on no list and alone. -/
theorem Kin.of_alloc (hw : m.Wf) (hk : m.Kin) (h : m.Step e m') {c : Create}
    (hpc : m.ssi.pc = .alloc c)
    {old : State} (he : e = .ssi old) : m'.Kin := by
  obtain ⟨r, hperf, hs⟩ := ssi_step (he ▸ h)
  have hcall : m.ssi.call m.k = .allocTcb := by simp [Ssi.call, hpc]
  rw [hcall] at hperf
  have hal : m.k.allocTcb = (r, m'.k) := Except.ok.inj hperf
  have hpc' : m'.ssi.pc ≠ .link .brother := by
    rw [hs]
    intro hl
    have hread := (Ssi.next_linkBrother hl).1
    rw [hpc] at hread
    cases hread
  have hnew : m'.ssi.newThread = r := by
    rw [hs]
    simp only [Ssi.next, hpc]
    split <;> rfl
  by_cases hr : r = null
  · subst hr
    have hf : null ∉ m.k.tcbFree := fun hm =>
      hw.placed.ne_null (Kernel.mem_places.mpr (.inr (.inr (.inl hm)))) rfl
    obtain ⟨-, hk'⟩ := Kernel.allocTcb_null hf hal
    refine ⟨hk' ▸ hk.tree, fun n hn => ?_, fun hl => absurd hl hpc'⟩
    exact absurd hnew (mem_fresh.mp hn).2.2
  · have htree := hk.tree.alloc hw.placed hal hr
    have halone := Kernel.alloc_sibRing hal hr
    obtain ⟨hra, hrn⟩ := htree.detached r (by simp)
    refine ⟨⟨⟨by simp, htree.parent, htree.kids⟩, fun p hp hn _ => ?_⟩, fun n hn => ?_,
      fun hl => absurd hl hpc'⟩
    · by_cases hpr : p = r
      · exact ⟨[], hpr ▸ halone, by simp⟩
      · obtain ⟨l, hl, hmem⟩ := htree.roots p hp hn (by simpa using hpr)
        exact ⟨l, hl, fun c hc => ⟨(hmem c hc).1, (hmem c hc).2.1, by simp⟩⟩
    · rw [(mem_fresh.mp hn).1, hnew]
      exact ⟨hra.1, hrn, halone⟩

/-- The new TCB goes on one list. -/
theorem Kin.of_link (hw : m.Wf) (hk : m.Kin) (h : m.Step e m') (hlink : m.LinksLive e) {c : Create}
    (hpc : m.ssi.pc = .link c) {old : State} (he : e = .ssi old) : m'.Kin := by
  obtain ⟨r, hperf, hs⟩ := ssi_step (he ▸ h)
  have hnew := linked_ne_null hpc hperf
  have hmem : m.ssi.newThread ∈ m.fresh := mem_fresh.mpr ⟨rfl, by rw [hpc]; rfl, hnew⟩
  obtain ⟨hin, hout⟩ := hw.fresh_notMem hmem
  obtain ⟨-, hpar, hring⟩ := hk.alone _ hmem
  have hall : m.k.Allocated m.ssi.newThread :=
    ⟨hin, fun hf => hout (Kernel.mem_places.mpr (.inr (.inr (.inl hf))))⟩
  have hdoom := hk.tree.doom hall hpar hring
  have hpc' : m'.ssi.pc = .count c := by simp [hs, Ssi.next, hpc]
  have hfresh : m'.fresh = [] := by simp [fresh, hpc', SsiPc.unlinked]
  suffices ht : m'.k.Tree [] from
    ⟨ht, by simp [Kernel.Alone, hfresh], by simp [hpc']⟩
  have hchild : ∀ q, m.ssi.call m.k = .insertChild q m.ssi.newThread → m'.k.Tree [] := by
    intro q hcall
    rw [hcall] at hperf
    simp only [Kernel.perform, if_neg hnew, Except.ok.injEq, Prod.mk.injEq] at hperf
    have hq : m.k.Live q := hlink q (by simp [he, relative, hcall])
    rw [← hperf.2]
    exact hdoom.insertChild (hq.allocated hw.placed) fun heq => hout (heq ▸ hq.mem_places)
  have hsib : m.ssi.parent = null → m.ssi.call m.k = .insertSibling m.ssi.reqThread m.ssi.newThread →
      c = .brother → m'.k.Tree [] := by
    intro hn hcall hc
    rw [hcall] at hperf
    simp only [Kernel.perform, if_neg hnew, Except.ok.injEq, Prod.mk.injEq] at hperf
    have hq : m.k.Live m.ssi.reqThread := hlink _ (by simp [he, relative, hcall])
    have ha := hq.allocated hw.placed
    rw [← hperf.2]
    exact hdoom.insertSibling ha ((hk.parent (hc ▸ hpc) ha).trans hn)
      fun heq => hout (heq ▸ hq.mem_places)
  cases c with
  | brother =>
    by_cases hn : m.ssi.parent = null
    · exact hsib hn (by simp [Ssi.call, hpc, hn]) rfl
    · exact hchild m.ssi.parent (by simp [Ssi.call, hpc, hn])
  | son => exact hchild m.ssi.reqThread (by simp [Ssi.call, hpc])

/-- The SSI allocates and links at two program points. -/
theorem grows_cases (hg : m.grows e = true) :
    ∃ old, e = .ssi old ∧ ((∃ c, m.ssi.pc = .alloc c) ∨ ∃ c, m.ssi.pc = .link c) := by
  cases e with
  | ssi old =>
    have hat := m.ssi.call_at m.k
    simp only [grows] at hg
    refine ⟨old, rfl, ?_⟩
    cases hcall : m.ssi.call m.k <;> simp only [hcall, Call.grows] at hg hat
    case allocTcb => exact .inl hat
    case insertChild => exact .inr (hat.elim (fun h => ⟨_, h.1⟩) fun h => ⟨_, h.1⟩)
    case insertSibling => exact .inr ⟨_, hat.1⟩
    all_goals cases hg
  | sysbp | pgmtrap | tlb | interrupt | devices | store | edit => cases hg

theorem Kin.step (hw : m.Wf) (hk : m.Kin) (h : m.Step e m') (hend : m.EndsAlone e)
    (hlink : m.LinksLive e) : m'.Kin := by
  cases hg : m.grows e with
  | true =>
    obtain ⟨old, he, ⟨c, hpc⟩ | ⟨c, hpc⟩⟩ := grows_cases hg
    · exact hk.of_alloc hw h hpc he
    · exact hk.of_link hw h hlink hpc he
  | false =>
    cases ht : m.target e with
    | some t => exact hk.of_terminated hw h ht hend
    | none =>
      obtain ⟨k, hb, -⟩ := step_body h
      exact hk.of_same h ((body_sameTree hw h.1 ht hg hb).trans (step_sameTree hw h hb)) hg

end Machine

namespace Kernel

variable {k : Kernel}

/-- At boot there are two threads, each on its own. -/
theorem Booted.tree (hb : k.Booted) : k.Tree [] := by
  have hmem : ∀ p, k.Allocated p ↔ p = threadArrayAddr ∨ p = testThreadAddr := by
    intro p
    have hn : threadArrayAddr ∉ threadArray.drop 2 ∧ testThreadAddr ∉ threadArray.drop 2 := by decide
    simp only [Allocated, hb.tcbFree]
    constructor
    · rintro ⟨hm, hd⟩
      rw [threadArray_eq, List.mem_cons, List.mem_cons] at hm
      tauto
    · rintro (rfl | rfl)
      · exact ⟨by decide, hn.1⟩
      · exact ⟨by decide, hn.2⟩
  have hnull : ∀ p, k.Allocated p → (k.tcb p).tParent = null := by
    intro p hp
    rcases (hmem p).mp hp with rfl | rfl
    · exact hb.tParent.1
    · exact hb.tParent.2
  have hself : ∀ p, k.Allocated p → (k.links.next (tChild p) = tChild p ∧
      k.links.prev (tChild p) = tChild p) ∧ k.links.next (tSib p) = tSib p ∧
        k.links.prev (tSib p) = tSib p := by
    intro p hp
    have hl := hb.links
    simp only [List.mem_cons, List.not_mem_nil, or_false, forall_eq_or_imp, forall_eq] at hl
    rcases (hmem p).mp hp with rfl | rfl
    · exact ⟨hl.1, hl.2.1⟩
    · exact hl.2.2
  refine ⟨⟨by simp, fun c hc hn => absurd (hnull c hc) hn, fun p hp => ⟨[], ⟨by simp, (hself p hp).1⟩,
    fun c => ⟨by simp, fun hc => ?_⟩⟩⟩, fun p hp _ _ => ⟨[], ⟨by simp, (hself p hp).2⟩, by simp⟩⟩
  exact absurd (hc.2.symm.trans (hnull c hc.1)) hp.ne_null

/-- The process tree, as its links and its parent fields describe it. A TCB that is in use is one
that is not free: a thread, or the TCB the SSI is making a thread of. -/
structure WellFormedTree (k : Kernel) : Prop where
  inverse : ∀ p, k.Allocated p → k.links.prev (k.links.next (tSib p)) = tSib p ∧
    k.links.next (k.links.prev (tSib p)) = tSib p
  children : ∀ p, k.Allocated p → ∃ l, k.ChildList p l ∧
    ∀ c, c ∈ l ↔ k.Allocated c ∧ (k.tcb c).tParent = p
  parent : ∀ c, k.Allocated c → (k.tcb c).tParent ≠ null → k.Allocated (k.tcb c).tParent
  siblings : ∀ p, k.Allocated p → (k.tcb p).tParent = null → ∃ l, k.SibRing p l ∧
    ∀ c ∈ l, k.Allocated c ∧ (k.tcb c).tParent = null
  disjoint : ∀ p q l l', k.Allocated p → k.Allocated q → k.ChildList p l → k.ChildList q l' →
    ∀ c ∈ l, c ∈ l' → p = q

theorem ChildList.unique {p : Ptr} {l l' : List Ptr} (h : k.ChildList p l) (h' : k.ChildList p l') :
    l = l' :=
  List.map_injective_iff.mpr (fun _ _ he => tSib_inj.mp he) (Links.Heap.Ring.unique h h')

theorem Tree.wellFormed (h : k.Tree []) : k.WellFormedTree := by
  constructor
  case children => exact h.kids
  case parent => exact h.parent
  case siblings =>
    intro p hp hn
    obtain ⟨l, hl, hmem⟩ := h.roots p hp hn (by simp)
    exact ⟨l, hl, fun c hc => ⟨(hmem c hc).1, (hmem c hc).2.1⟩⟩
  case inverse =>
    intro p hp
    by_cases hn : (k.tcb p).tParent = null
    · obtain ⟨l, hl, -⟩ := h.roots p hp hn (by simp)
      exact (Links.Heap.Ring.links hl List.mem_cons_self).2.2
    · obtain ⟨l, hl, hmem⟩ := h.kids _ (h.parent p hp hn)
      have hnode : tSib p ∈ tChild (k.tcb p).tParent :: l.map tSib :=
        List.mem_cons_of_mem _ (mem_map_tSib.mpr ((hmem p).mpr ⟨hp, rfl⟩))
      exact (Links.Heap.Ring.links hl hnode).2.2
  case disjoint =>
    intro p q l l' hp hq hl hl' c hc hc'
    obtain ⟨r, hr, hmem⟩ := h.kids p hp
    obtain ⟨r', hr', hmem'⟩ := h.kids q hq
    have hcp := ((hmem c).mp (hl.unique hr ▸ hc)).2
    have hcq := ((hmem' c).mp (hl'.unique hr' ▸ hc')).2
    exact hcp.symm.trans hcq

end Kernel

namespace Machine

variable {m m' : Machine} {es : List Event}

/-- A step that leaves no sibling behind on the ring of a dead thread, and links to the living. -/
def TreeStep (m : Machine) (e : Event) (m' : Machine) : Prop :=
  m.Step e m' ∧ m.EndsAlone e ∧ m.LinksLive e

theorem kin_of_run (h : m.Initial) (hr : Run TreeStep m es m') : m'.Wf ∧ m'.Kin := by
  refine hr.inv (I := fun m => m.Wf ∧ m.Kin) ?_ ⟨initial_wf h, ?_⟩
  · intro m e m' hs hi
    exact ⟨hi.1.step hs.1, hi.2.step hi.1 hs.1 hs.2.1 hs.2.2⟩
  · obtain ⟨k, hp, hm⟩ := h.boot
    have hfresh : m.fresh = [] := by simp [fresh, h.pc, SsiPc.unlinked]
    exact ⟨(Kernel.main_booted hp hm).tree, by simp [Kernel.Alone, hfresh], by simp [h.pc]⟩

/-- The test thread creates a child, and the child ends in a trap. -/
def childTrace : List Event :=
  Event.ssiCalls 2 ++ Event.ssiRequest createSon 0 ++ Event.ssiCalls 12 ++ [.pgmtrap initTState]

/-- The test thread creates a brother, and the brother ends in a trap. -/
def brotherTrace : List Event :=
  Event.ssiCalls 2 ++ Event.ssiRequest createBrother 0 ++ Event.ssiCalls 12 ++ [.pgmtrap initTState]

/-- The TCB the SSI creates the first thread in. -/
def thirdThreadAddr : Ptr := threadArrayAddr + BitVec.ofNat 32 (2 * sizeofTcb)

end Machine

end AmiKaya
