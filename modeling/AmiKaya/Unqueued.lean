import AmiKaya.Kinship

/-! The last branch of `terminate`: which TCBs in use are in no queue, and when `terminate` never
gets to one of them. -/
namespace AmiKaya
open Lts

namespace Ssi

variable {s : Ssi} {k : Kernel} {r : U32}

/-- Between the allocation and the insertion in the ready queue the SSI goes on with its new TCB. -/
theorem next_creates_eq (ha : ∀ c, s.pc ≠ .alloc c) (hp : s.pc ≠ .publish) :
    (s.next k r).pc.creates = s.pc.creates ∧
      (s.pc.creates = true → (s.next k r).newThread = s.newThread) := by
  cases hpc : s.pc <;> simp only [next, hpc]
  case alloc c => exact absurd hpc (ha c)
  case publish => exact absurd hpc hp
  case serve => exact ⟨dispatch_creates s k, by simp [SsiPc.creates]⟩
  case noGood c => cases c <;> exact ⟨rfl, fun _ => trivial⟩
  case readParent | link | count | inherit => exact ⟨rfl, fun _ => trivial⟩
  case copyState c => cases c <;> exact ⟨rfl, fun _ => rfl⟩
  all_goals
    repeat' split
    all_goals simp_all [SsiPc.creates]

end Ssi

namespace Machine

variable {m m' : Machine} {e : Event} {k : Kernel} {t p : Ptr}

/-- The TCB that the SSI has allocated and not put in a queue, if there is one. -/
def unqueued (m : Machine) : List Ptr :=
  if m.ssi.pc.creates = true ∧ m.ssi.newThread ≠ null then [m.ssi.newThread] else []

theorem mem_unqueued {n : Ptr} :
    n ∈ m.unqueued ↔ n = m.ssi.newThread ∧ m.ssi.pc.creates = true ∧ m.ssi.newThread ≠ null := by
  unfold unqueued
  split <;> simp_all

theorem unqueued_step (h : m.Step e m') (ha : ∀ c, m.ssi.pc ≠ .alloc c ∨ ∀ old, e ≠ .ssi old)
    (hp : m.ssi.pc ≠ .publish ∨ ∀ old, e ≠ .ssi old) : m'.unqueued = m.unqueued := by
  rcases step_cases h with ⟨hs, -⟩ | ⟨old, r, rfl, -, -, hs⟩
  · simp only [unqueued, hs]
  · have ha' : ∀ c, m.ssi.pc ≠ .alloc c := fun c => (ha c).resolve_right fun hn => hn old rfl
    have hp' : m.ssi.pc ≠ .publish := hp.resolve_right fun hn => hn old rfl
    have hn := m.ssi.next_creates_eq (k := m.k) (r := r) ha' hp'
    simp only [unqueued, hs, hn.1]
    by_cases hc : m.ssi.pc.creates = true
    · rw [hn.2 hc]
    · simp [hc]

/-- Every TCB is in one of the places, or is the one that the SSI is making a thread of. -/
def Covered (m : Machine) : Prop := ∀ p ∈ threadArray, p ∈ m.k.places ∨ p ∈ m.unqueued

/-- The TCBs in use are the threads and the one under construction. -/
theorem Covered.live (hc : m.Covered) (ha : m.k.Allocated p) : m.k.Live p ∨ p ∈ m.unqueued := by
  rcases hc p ha.1 with hp | hp
  · left
    rcases Kernel.mem_places.mp hp with hq | hq | hq | hq
    · exact .inl hq
    · exact .inr (.inl hq)
    · exact absurd hq ha.2
    · exact .inr (.inr (Kernel.mem_running.mpr hq))
  · exact .inr hp

/-- Who is alive stays so until it is freed. -/
theorem live_step (hw : m.Wf) (h : m.Step e m') (hp : m.k.Live p) (hf : p ∉ m'.k.tcbFree) :
    m'.k.Live p := by
  have hlive : p ∈ m'.k.places → m'.k.Live p := by
    intro hm
    rcases Kernel.mem_places.mp hm with hq | hq | hq | hq
    · exact .inl hq
    · exact .inr (.inl hq)
    · exact absurd hq hf
    · exact .inr (.inr (Kernel.mem_running.mpr hq))
  rcases step_cases h with ⟨-, hne⟩ | ⟨old, r, rfl, -, hperf, -⟩
  · have hentry := entry_of_not_ssi (m := m) hne
    exact hlive ((samePlaces_of_step hw h hentry.1 hentry.2).mem_iff.mpr hp.mem_places)
  · by_cases hal : m.entry (.ssi old) = .alloc
    · obtain ⟨c, hpc⟩ := entry_alloc hal
      have hcall : m.ssi.call m.k = .allocTcb := by simp [Ssi.call, hpc]
      rw [hcall] at hperf
      have hal : m.k.allocTcb = (r, m'.k) := Except.ok.inj hperf
      have hq : m'.k.readyQueue = m.k.readyQueue ∧ m'.k.waitQueue = m.k.waitQueue ∧
          m'.k.currentThread = m.k.currentThread := by
        have hk' : m'.k = m.k.allocTcb.2 := by rw [hal]
        rw [hk', Kernel.allocTcb]
        split <;> exact ⟨rfl, rfl, rfl⟩
      simpa only [Kernel.Live, hq.1, hq.2.1, Kernel.running_eq hq.2.2] using hp
    · by_cases hpub : ∃ q, m.entry (.ssi old) = .publish q
      · obtain ⟨q, hpub⟩ := hpub
        have hpc := entry_publish hpub
        have hcall : m.ssi.call m.k = .insertReady m.ssi.newThread := by simp [Ssi.call, hpc]
        rw [hcall] at hperf
        simp only [Kernel.perform, Except.ok.injEq, Prod.mk.injEq] at hperf
        rw [← hperf.2]
        rcases hp with hq | hq | hq
        · exact .inl (List.mem_append_left _ hq)
        · exact .inr (.inl hq)
        · exact .inr (.inr hq)
      · rw [not_exists] at hpub
        exact hlive ((samePlaces_of_step hw h hal hpub).mem_iff.mpr hp.mem_places)

theorem Covered.of_same (hc : m.Covered) (hp : SamePlaces m.k m'.k)
    (hu : m'.unqueued = m.unqueued) :
    m'.Covered := by
  intro p hm
  rw [hu]
  exact (hc p hm).imp_left hp.mem_iff.mpr

theorem Covered.step (hw : m.Wf) (hc : m.Covered) (h : m.Step e m') : m'.Covered := by
  rcases step_cases h with ⟨-, hne⟩ | ⟨old, r, rfl, -, hperf, hs⟩
  · have hentry := entry_of_not_ssi (m := m) hne
    exact hc.of_same (samePlaces_of_step hw h hentry.1 hentry.2)
      (unqueued_step h (fun _ => .inr hne) (.inr hne))
  · by_cases hal : ∃ c, m.ssi.pc = .alloc c
    · obtain ⟨c, hpc⟩ := hal
      have hcall : m.ssi.call m.k = .allocTcb := by simp [Ssi.call, hpc]
      have hold : m.unqueued = [] := by simp [unqueued, hpc, SsiPc.creates]
      have hnew : m'.ssi.newThread = r ∧ m'.ssi.pc.creates = true := by
        rw [hs]
        simp only [Ssi.next, hpc]
        split
        · exact ⟨rfl, rfl⟩
        · exact ⟨rfl, by cases c <;> rfl⟩
      rw [hcall] at hperf
      have hal : m.k.allocTcb = (r, m'.k) := Except.ok.inj hperf
      by_cases hr : r = null
      · subst hr
        have hf : null ∉ m.k.tcbFree := fun hm =>
          hw.placed.ne_null (Kernel.mem_places.mpr (.inr (.inr (.inl hm)))) rfl
        obtain ⟨-, hk⟩ := Kernel.allocTcb_null hf hal
        intro p hp
        rw [hk]
        rcases hc p hp with hm | hm
        · exact .inl hm
        · simp [hold] at hm
      · obtain ⟨free, hf, hk⟩ := Kernel.allocTcb_cases hal hr
        intro p hp
        by_cases hpr : p = r
        · exact .inr (mem_unqueued.mpr ⟨hpr.trans hnew.1.symm, hnew.2, hnew.1 ▸ hr⟩)
        · have hm : p ∈ m.k.places := (hc p hp).resolve_right (by simp [hold])
          rw [Kernel.mem_places, hf] at hm
          rw [Kernel.mem_places, hk]
          simpa [hpr] using Or.inl hm
    · by_cases hpub : m.ssi.pc = .publish
      · have hcall : m.ssi.call m.k = .insertReady m.ssi.newThread := by simp [Ssi.call, hpub]
        rw [hcall] at hperf
        simp only [Kernel.perform, Except.ok.injEq, Prod.mk.injEq] at hperf
        intro p hp
        left
        rw [Kernel.mem_places, ← hperf.2]
        rcases hc p hp with hm | hm
        · have hm := Kernel.mem_places.mp hm
          simp only [insertThread, List.mem_append]
          tauto
        · rw [(mem_unqueued.mp hm).1]
          simp [insertThread]
      · have hentry : m.entry (.ssi old) ≠ .alloc ∧ ∀ p, m.entry (.ssi old) ≠ .publish p :=
          ⟨fun he => hal (entry_alloc he), fun p he => hpub (entry_publish he)⟩
        exact hc.of_same (samePlaces_of_step hw h hentry.1 hentry.2)
          (unqueued_step h (fun c => .inl fun hpc => hal ⟨c, hpc⟩) (.inl hpub))

end Machine

namespace Kernel

/-- The node belongs to the list of children of a thread. -/
def OnChildList (k : Kernel) (n : Ptr) : Prop :=
  ∃ d, k.Allocated d ∧ (n = tChild d ∨ n = tSib d ∧ (k.tcb d).tParent ≠ null)

end Kernel

namespace Machine

variable {m m' : Machine} {e : Event} {k : Kernel} {t p : Ptr}

/-- The SSI links its new TCB under a thread that exists, or next to one whose ring does not lead
into the children of a thread. -/
def LinksClean (m : Machine) (e : Event) : Prop :=
  ∀ old, e = .ssi old → (∀ p c, m.ssi.call m.k = .insertChild p c → m.k.Live p) ∧
    ∀ s c, m.ssi.call m.k = .insertSibling s c → ¬ m.k.OnChildList (m.k.links.prev (tSib s))

/-- The lists of children are right, the TCB that is to be linked is on none of them, and every TCB
has its place. -/
structure Lineage (m : Machine) : Prop where
  family : m.k.Family m.fresh
  parent : m.ssi.pc = .link .brother → m.k.Allocated m.ssi.reqThread →
    (m.k.tcb m.ssi.reqThread).tParent = m.ssi.parent
  covered : m.Covered

theorem Lineage.of_same (hl : m.Lineage) (hw : m.Wf) (h : m.Step e m') (hs : SameTree m.k m'.k)
    (hg : m.grows e = false) : m'.Lineage := by
  refine ⟨fresh_step h hg ▸ hs.family hl.family, fun hpc ha => ?_, hl.covered.step hw h⟩
  rcases linkBrother_step h hpc with ⟨hpc, hssi⟩ | ⟨-, hreq, hpar⟩
  · rw [hssi] at ha ⊢
    rw [hs.tParent]
    exact hl.parent hpc (hs.allocated.mp ha)
  · rw [hreq, hpar, hs.tParent]

/-- The kernel in which a handler calls `terminate` is ready for it. -/
theorem Lineage.terminate_spec (hl : m.Lineage) (hw : m.Wf) {k₁ : Kernel} (hs : Still m.k k₁)
    (ha : m.k.Allocated t) (hf : t ∉ m.fresh) :
    Kernel.TerminateOutcome Kernel.Family k₁ t m.fresh (k₁.terminate t) := by
  have ha₁ := hs.sameTree.allocated.mpr ha
  have hfam := (hs.sameTree.family hl.family).outChild ha₁
  exact Kernel.terminate_spec Kernel.family_prunes (hw.placed.of_perm hs.places) hfam ha₁ hf

theorem Lineage.terminated (hl : m.Lineage) (hw : m.Wf) (h : m.Step e m')
    (ht : m.target e = some t) :
    m'.k.Family m.fresh ∧ (∀ p, m'.k.Allocated p ↔ m.k.Allocated p ∧ ¬ m.k.Below t p) ∧
      ∀ p, m'.k.Allocated p → (m'.k.tcb p).tParent = (m.k.tcb p).tParent := by
  obtain ⟨k₂, hs, hfam, hmem, hpar⟩ := Machine.terminated Kernel.family_prunes hw h ht
    (fun k₁ hs ha => (hs.sameTree.family hl.family).outChild ha)
    fun hlive hm => (hw.fresh_notMem hm).2 hlive.mem_places
  exact ⟨hs.family hfam, hmem, hpar⟩

theorem Lineage.of_terminated (hl : m.Lineage) (hw : m.Wf) (h : m.Step e m')
    (ht : m.target e = some t) : m'.Lineage := by
  obtain ⟨hfam, hmem, hpar⟩ := hl.terminated hw h ht
  refine ⟨?_, fun hpc ha => ?_, hl.covered.step hw h⟩
  · rw [fresh_step h (grows_of_target ht)]
    exact hfam
  · rcases linkBrother_step h hpc with ⟨hpc, hssi⟩ | ⟨⟨old, rfl, hcall⟩, -, -⟩
    · rw [hssi] at ha ⊢
      rw [hpar _ ha]
      exact hl.parent hpc ((hmem _).mp ha).1
    · simp only [target, hcall] at ht
      cases ht

theorem Lineage.of_alloc (hl : m.Lineage) (hw : m.Wf) (h : m.Step e m') {c : Create}
    (hpc : m.ssi.pc = .alloc c) {old : State} (he : e = .ssi old) : m'.Lineage := by
  obtain ⟨r, hperf, hs⟩ := ssi_step (he ▸ h)
  have hcall : m.ssi.call m.k = .allocTcb := by simp [Ssi.call, hpc]
  have hold : m.fresh = [] := by simp [fresh, hpc, SsiPc.unlinked]
  have hfam : m.k.Family [] := hold ▸ hl.family
  rw [hcall] at hperf
  have hal : m.k.allocTcb = (r, m'.k) := Except.ok.inj hperf
  have hpc' : m'.ssi.pc ≠ .link .brother := by
    rw [hs]
    intro hlink
    have hread := (Ssi.next_linkBrother hlink).1
    rw [hpc] at hread
    cases hread
  have hnew : m'.ssi.newThread = r ∧ m'.ssi.pc.unlinked = true := by
    rw [hs]
    simp only [Ssi.next, hpc]
    split
    · exact ⟨rfl, rfl⟩
    · exact ⟨rfl, Ssi.linkPc_unlinked c⟩
  refine ⟨?_, fun hlink => absurd hlink hpc', hl.covered.step hw h⟩
  by_cases hr : r = null
  · have hfresh : m'.fresh = [] := by simp [fresh, hnew.1, hr]
    subst hr
    have hf : null ∉ m.k.tcbFree := fun hm =>
      hw.placed.ne_null (Kernel.mem_places.mpr (.inr (.inr (.inl hm)))) rfl
    obtain ⟨-, hk'⟩ := Kernel.allocTcb_null hf hal
    rw [hfresh, hk']
    exact hfam
  · have hfresh : m'.fresh = [r] := by simp [fresh, hnew, hr]
    rw [hfresh]
    exact hfam.alloc hw.placed hal hr

theorem Lineage.of_link (hl : m.Lineage) (hw : m.Wf) (h : m.Step e m') (hclean : m.LinksClean e)
    {c : Create} (hpc : m.ssi.pc = .link c) {old : State} (he : e = .ssi old) : m'.Lineage := by
  obtain ⟨r, hperf, hs⟩ := ssi_step (he ▸ h)
  have hnew := linked_ne_null hpc hperf
  have hold : m.fresh = [m.ssi.newThread] := by simp [fresh, hpc, SsiPc.unlinked, hnew]
  have hfam : m.k.Family [m.ssi.newThread] := hold ▸ hl.family
  have hout := (hw.fresh_notMem (hold ▸ List.mem_cons_self)).2
  have hpc' : m'.ssi.pc = .count c := by simp [hs, Ssi.next, hpc]
  have hfresh : m'.fresh = [] := by simp [fresh, hpc', SsiPc.unlinked]
  obtain ⟨hchild, hsib⟩ := hclean old he
  suffices ht : m'.k.Family [] from ⟨hfresh ▸ ht, by simp [hpc'], hl.covered.step hw h⟩
  have hinsert : ∀ q, m.ssi.call m.k = .insertChild q m.ssi.newThread → m'.k.Family [] := by
    intro q hcall
    have hq := hchild q _ hcall
    rw [hcall] at hperf
    simp only [Kernel.perform, if_neg hnew, Except.ok.injEq, Prod.mk.injEq] at hperf
    rw [← hperf.2]
    exact hfam.insertChild (hq.allocated hw.placed) fun heq => hout (heq ▸ hq.mem_places)
  cases c with
  | brother =>
    by_cases hn : m.ssi.parent = null
    · have hcall : m.ssi.call m.k = .insertSibling m.ssi.reqThread m.ssi.newThread := by
        simp [Ssi.call, hpc, hn]
      have hring := hsib _ _ hcall
      rw [hcall] at hperf
      simp only [Kernel.perform, if_neg hnew, Except.ok.injEq, Prod.mk.injEq] at hperf
      rw [← hperf.2]
      refine hfam.insertSibling ?_ (hw.requester (by rw [hpc]; rfl)) (fun d ha hd he => ?_)
        fun d ha he => ?_
      · by_cases ha : m.k.Allocated m.ssi.reqThread
        · exact .inl ((hl.parent hpc ha).trans hn)
        · exact .inr ha
      · exact hring ⟨d, ha, .inr ⟨he, hd⟩⟩
      · exact hring ⟨d, ha, .inl he⟩
    · exact hinsert m.ssi.parent (by simp [Ssi.call, hpc, hn])
  | son => exact hinsert m.ssi.reqThread (by simp [Ssi.call, hpc])

theorem Lineage.step (hl : m.Lineage) (hw : m.Wf) (h : m.Step e m') (hclean : m.LinksClean e) :
    m'.Lineage := by
  cases hg : m.grows e with
  | true =>
    obtain ⟨old, he, ⟨c, hpc⟩ | ⟨c, hpc⟩⟩ := grows_cases hg
    · exact hl.of_alloc hw h hpc he
    · exact hl.of_link hw h hclean hpc he
  | false =>
    cases ht : m.target e with
    | some t => exact hl.of_terminated hw h ht
    | none =>
      obtain ⟨k, hb, -⟩ := step_body h
      exact hl.of_same hw h ((body_sameTree hw h.1 ht hg hb).trans (step_sameTree hw h hb)) hg

/-- `terminate` is called for a TCB that is in use, and the TCB that the SSI is making a thread of
is neither that one nor below it. -/
def EndsThreads (m : Machine) (e : Event) : Prop :=
  ∀ t ∈ m.target e, m.k.Allocated t ∧ ∀ n ∈ m.unqueued, ¬ m.k.Below t n

theorem Lineage.below_live (hl : m.Lineage) (he : m.EndsThreads e) (ht : m.target e = some t)
    (hb : m.k.Below t p) : m.k.Live p := by
  obtain ⟨ha, hn⟩ := he t ht
  refine (hl.covered.live (hb.allocated ha)).resolve_right fun hu => ?_
  exact hn p hu hb

theorem mem_unqueued_of_fresh {n : Ptr} (hn : n ∈ m.fresh) : n ∈ m.unqueued := by
  obtain ⟨he, hu, hne⟩ := mem_fresh.mp hn
  exact mem_unqueued.mpr ⟨he, unlinked_creates hu, hne⟩

theorem not_terminate_tame : Stop.Tame (· ≠ .panic .terminate) :=
  ⟨by simp, fun c hc he => hc (by simpa using he)⟩

/-- The recursion only comes to threads in a queue or on the processor. -/
theorem Lineage.no_panic (hl : m.Lineage) (hw : m.Wf) (he : m.EndsThreads e) :
    m.step e ≠ .error (.panic .terminate) := by
  intro herr
  cases ht : m.target e with
  | none => exact step_settled not_terminate_tame (by simp) ht _ herr rfl
  | some t =>
    obtain ⟨ha, hn⟩ := he t ht
    obtain ⟨k₁, hs, hb⟩ := body_terminates ht
    have hf : t ∉ m.fresh := fun hm => hn t (mem_unqueued_of_fresh hm) .refl
    have hout := hl.terminate_spec hw hs ha hf
    have hlive : ∀ p, k₁.Below t p → k₁.Live p := by
      intro p hp
      have hp' := (hs.sameTree.below ha.ne_null).mp hp
      exact (hl.below_live he ht hp').of_same hw.placed hs.places hs.tcbFree
    obtain ⟨k₂, hk₂⟩ := hout.ok hlive
    rcases step_error herr with (hx | ⟨k, -, hx⟩) | ⟨-, hx⟩
    · rcases hb with hb | hb <;> rw [hb, hk₂] at hx <;> cases hx
    · exact Kernel.scheduler_settled not_terminate_tame _ hx rfl
    · cases hx

/-- A step that links its new TCB cleanly. -/
def CleanStep (m : Machine) (e : Event) (m' : Machine) : Prop := m.Step e m' ∧ m.LinksClean e

theorem lineage_of_run {es : List Event} (h : m.Initial) (hr : Run CleanStep m es m') :
    m'.Wf ∧ m'.Lineage := by
  refine hr.inv (I := fun m => m.Wf ∧ m.Lineage) ?_ ⟨initial_wf h, ?_⟩
  · intro m e m' hs hi
    exact ⟨hi.1.step hs.1, hi.2.step hi.1 hs.1 hs.2⟩
  · obtain ⟨k, hp, hm⟩ := h.boot
    have hb := Kernel.main_booted hp hm
    have hfresh : m.fresh = [] := by simp [fresh, h.pc, SsiPc.unlinked]
    refine ⟨hfresh ▸ hb.tree.toFamily, by simp [h.pc], fun p hp => .inl ?_⟩
    rw [threadArray_eq, List.mem_cons, List.mem_cons] at hp
    rw [Kernel.mem_places, hb.readyQueue, hb.waitQueue, hb.tcbFree, hb.currentThread]
    have hne : threadArrayAddr ≠ null := by decide
    simp only [List.mem_singleton]
    tauto

/-- Links to children only. -/
theorem linksClean_of_live (hl : m.LinksLive e) (hpc : m.ssi.pc ≠ .link .brother) :
    m.LinksClean e := by
  rintro old rfl
  have hat := m.ssi.call_at m.k
  refine ⟨fun p c hcall => hl p (by simp [relative, hcall]), fun s c hcall => ?_⟩
  rw [hcall] at hat
  exact absurd hat.1 hpc

/-- The slice of the test thread ends after its SEND, and the slice of the SSI between the linking
and the insertion in the ready queue. -/
def preemptedTrace : List Event :=
  let tick := Event.interrupt { initTState with cause := 1 <<< (intTimer + 8) }
  Event.ssiCalls 2 ++ (Event.ssiRequest createSon 0).take 3 ++ [tick] ++ Event.ssiCalls 6 ++
    [tick, tick]

end Machine

end AmiKaya
