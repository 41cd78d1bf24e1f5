import AmiKaya.Orderly
import AmiKaya.Pool

/-! What `terminate` leaves behind, to the last field: who is freed and in which order, and that
nobody else notices. -/
namespace AmiKaya
open Links

/-- The threads of `ds` have been freed with their messages, and of the others nothing but the
parent may have changed. -/
structure Drained (k : Kernel) (ds : List Ptr) (k' : Kernel) : Prop extends Reaped k ds k' where
  msgFree : k'.msgFree = k.msgFree ++ ds.flatMap k.inboxBuffers
  tcb : ∀ p, p ∉ ds → k'.tcb p = { k.tcb p with tParent := (k'.tcb p).tParent }

namespace Drained

variable {k k' k'' : Kernel} {ds es : List Ptr} {p t : Ptr}

theorem refl (k : Kernel) : Drained k [] k := ⟨.refl k, by simp, fun _ _ => rfl⟩

theorem inboxBuffers (h : Drained k ds k') (hp : p ∉ ds) :
    k'.inboxBuffers p = k.inboxBuffers p := by
  unfold Kernel.inboxBuffers
  rw [h.tcb p hp]

theorem trans (h : Drained k ds k') (h' : Drained k' es k'') : Drained k (ds ++ es) k'' := by
  refine ⟨h.toReaped.trans h'.toReaped, ?_, ?_⟩
  · have hes : es.flatMap k'.inboxBuffers = es.flatMap k.inboxBuffers := by
      apply List.flatMap_congr
      intro p hp
      exact h.inboxBuffers (h.live_of_live (h'.live p hp)).2
    rw [h'.msgFree, h.msgFree, hes, List.flatMap_append, List.append_assoc]
  · intro p hp
    rw [List.mem_append, not_or] at hp
    rw [h'.tcb p hp.2, h.tcb p hp.1]

/-- Unlinking from the tree. -/
theorem detach (k : Kernel) (t : Ptr) : Drained k [] (k.detach t) := by
  refine ⟨.unlink fun _ => rfl, by simp [Kernel.detach, Kernel.setTcb], ?_⟩
  intro p _
  by_cases hp : p = t
  · subst hp
    simp [Kernel.detach, Kernel.setTcb]
  · simp [Kernel.detach, Kernel.setTcb, hp]

theorem reap (hk : Placed k) (ht : t ≠ null) (h : k.reap t = .ok k') : Drained k [t] k' := by
  have hothers : ∀ p, p ∉ [t] → (k.freed t).tcb p =
      { k.tcb p with tParent := ((k.freed t).tcb p).tParent } := by
    intro p hp
    rw [List.mem_singleton] at hp
    have hput : (k.freed t).tcb p = k.tcb p := put_ne hp
    rw [hput]
  have hreaped := Reaped.reap hk ht h
  have hmsg : (k.freed t).msgFree = k.msgFree ++ [t].flatMap k.inboxBuffers := by
    simp [Kernel.freed, Kernel.inboxBuffers]
  rcases Kernel.reap_cases h with ⟨-, rfl⟩ | ⟨-, -, -, -, rfl⟩
  · exact ⟨hreaped, hmsg, hothers⟩
  · exact ⟨hreaped, hmsg, hothers⟩

theorem terminate (hk : Placed k) (ht : t ≠ null) (h : k.terminate t = .ok k') :
    ∃ ds, Drained k ds k' := by
  obtain ⟨k₁, h₁, h₂⟩ := Kernel.terminate_cases
    (R := fun k k' => Placed k → ∃ ds, Placed k' ∧ Drained k ds k')
    (fun k hk => ⟨[], hk, refl k⟩)
    (fun _ _ _ h h' hk => by
      obtain ⟨ds, hk', hd⟩ := h hk
      obtain ⟨es, hk'', he⟩ := h' hk'
      exact ⟨ds ++ es, hk'', hd.trans he⟩)
    (fun k t hk => ⟨[], Kernel.detach_placed hk, detach k t⟩)
    (fun _ _ _ ht hr hk => ⟨_, hk.of_perm (SamePlaces.reap hk ht hr), reap hk ht hr⟩) h
  obtain ⟨ds, hk₁, hd⟩ := h₁ hk
  exact ⟨ds ++ [t], hd.trans (reap hk₁ ht h₂)⟩

end Drained

namespace Kernel

variable {k k' k₀ k₁ : Kernel} {ds es l : List Ptr} {p c t : Ptr}

/-! The lists of children: who is detached leaves a gap that is closed. -/

theorem detach_children (h : k.Family ds) (hc : k.Allocated c) (hpar : (k.tcb c).tParent ≠ null)
    (hp : k.Allocated p) (hl : k.ChildList p l) : (k.detach c).ChildList p (l.filter (· ≠ c)) := by
  obtain ⟨l', hl', hmem⟩ := h.kids p hp
  obtain rfl : l = l' := List.map_injective_iff.mpr (fun _ _ he => tSib_inj.mp he)
    (Heap.Ring.unique hl hl')
  by_cases hpc : p = (k.tcb c).tParent
  · subst hpc
    obtain ⟨pre, post, rfl⟩ := List.append_of_mem ((hmem c).mpr ⟨hc, rfl⟩)
    have hnodup : (pre ++ c :: post).Nodup := List.Nodup.of_map _ (List.nodup_cons.mp hl.nodup).2
    have hgap : (pre ++ c :: post).filter (· ≠ c) = pre ++ post := by
      have hpre : ∀ d ∈ pre, d ≠ c := by
        rintro d hd rfl
        exact List.disjoint_of_nodup_append hnodup hd List.mem_cons_self
      have hpost : ∀ d ∈ post, d ≠ c := by
        rintro d hd rfl
        exact (List.nodup_cons.mp (List.nodup_append.mp hnodup).2.1).1 hd
      rw [List.filter_append, List.filter_cons_of_neg (by simp), List.filter_eq_self.mpr (by simpa),
        List.filter_eq_self.mpr (by simpa)]
    have hring : k.links.Ring (tChild (k.tcb c).tParent)
        (pre.map tSib ++ tSib c :: post.map tSib) := by simpa [ChildList] using hl
    rw [hgap]
    simpa [ChildList, detach] using hring.del
  · have hpar' := h.parent c hc hpar
    obtain ⟨lq, hlq, hmemq⟩ := h.kids _ hpar'
    have hnode : tSib c ∈ tChild (k.tcb c).tParent :: lq.map tSib :=
      List.mem_cons_of_mem _ (mem_map_tSib.mpr ((hmemq c).mpr ⟨hc, rfl⟩))
    have hsame : l.filter (· ≠ c) = l := by
      rw [List.filter_eq_self]
      intro d hd
      rw [decide_eq_true_eq]
      rintro rfl
      exact hpc ((hmem d).mp hd).2.symm
    rw [hsame]
    exact hl.del_other hlq (kids_disjoint hp hpar' hpc hmem hmemq) hnode

/-- During a termination the lists of children are those of the beginning, without the threads that
have been detached since. -/
def Thinned (k₀ k : Kernel) (ds : List Ptr) : Prop :=
  k.Family ds ∧ (∀ p, k.Allocated p → k₀.Allocated p) ∧ ∀ p l, k.Allocated p → k₀.ChildList p l →
    k.ChildList p (l.filter fun c => c ∉ ds ∧ c ∉ k.tcbFree)

theorem thinned_prunes (k₀ : Kernel) : Prunes (Thinned k₀) where
  family h := h.1
  detach {k ds c} h hc hpar := by
    refine ⟨h.1.detach hc hpar, h.2.1, ?_⟩
    intro p l hp hl
    have hdetach := detach_children h.1 hc hpar hp (h.2.2 p l hp hl)
    rw [List.filter_filter] at hdetach
    have hfilter : l.filter (fun d => decide (d ∉ c :: ds ∧ d ∉ (k.detach c).tcbFree)) =
        l.filter fun d => decide (d ≠ c) && decide (d ∉ ds ∧ d ∉ k.tcbFree) := by
      apply List.filter_congr
      intro d _
      simp [detach, setTcb, and_assoc]
    rw [hfilter]
    exact hdetach
  reap {k k' ds t} hk h hd hkids hr := by
    have hreaped := Reaped.reap hk (h.1.detached t List.mem_cons_self).1.ne_null hr
    refine ⟨h.1.reap hk hd hkids hr, fun p hp => h.2.1 p (hreaped.allocated.mp hp).1, ?_⟩
    intro p l hp hl
    have hlist := h.2.2 p l (hreaped.allocated.mp hp).1 hl
    have hfilter : l.filter (fun d => decide (d ∉ ds ∧ d ∉ k'.tcbFree)) =
        l.filter fun d => decide (d ∉ t :: ds ∧ d ∉ k.tcbFree) := by
      apply List.filter_congr
      intro d _
      simp only [hreaped.tcbFree, List.mem_append, List.mem_cons, List.not_mem_nil, or_false, not_or]
      congr 1
      apply propext
      tauto
    rw [hfilter]
    simpa only [ChildList, (reap_links hr).1] using hlist

/-! The order in which the threads are freed. -/

/-- Every thread of the list comes after its children. -/
def ChildrenFirst (k : Kernel) (es : List Ptr) : Prop :=
  ∀ pre c post, es = pre ++ c :: post → ∀ d, k.Allocated d → (k.tcb d).tParent = c → d ∈ pre

theorem ChildrenFirst.nil : k.ChildrenFirst [] := by
  intro pre c post he
  simp at he

theorem ChildrenFirst.append (h : k.ChildrenFirst es)
    (h' : ∀ pre c post, ds = pre ++ c :: post → ∀ d, k.Allocated d → (k.tcb d).tParent = c →
      d ∈ es ++ pre) : k.ChildrenFirst (es ++ ds) := by
  intro pre c post he d hd hpar
  rcases List.append_eq_append_iff.mp he with ⟨mid, rfl, hds⟩ | ⟨mid, rfl, hds⟩
  · exact h' mid c post hds d hd hpar
  · cases mid with
    | nil =>
      have hmem := h' [] c post (by simpa using hds.symm) d hd hpar
      simpa using hmem
    | cons x mid =>
      rw [List.cons_append, List.cons.injEq] at hds
      obtain ⟨rfl, -⟩ := hds
      exact h pre c mid rfl d hd hpar

theorem Acyclic.mono (h : k.Acyclic) (he : ∀ c, k₁.Allocated c → (k₁.tcb c).tParent ≠ null →
    k.Allocated c ∧ (k.tcb c).tParent = (k₁.tcb c).tParent) : k₁.Acyclic := by
  obtain ⟨rank, hr⟩ := h
  refine ⟨rank, ?_⟩
  intro c hc hn
  obtain ⟨ha, hpar⟩ := he c hc hn
  rw [← hpar] at hn ⊢
  exact hr c ha hn

theorem Acyclic.detach (h : k.Acyclic) : (k.detach c).Acyclic :=
  h.mono fun p hp hn => ⟨hp, detach_edge p hn⟩

theorem Acyclic.cut (h : k.Acyclic) (hc : Cut k c es k₁) : k₁.Acyclic := by
  apply h.mono
  intro p hp _
  obtain ⟨ha, he⟩ := hc.toReaped.allocated.mp hp
  exact ⟨ha, (hc.tParent p he).symm⟩

/-- The parent of a thread is not below it. -/
theorem Acyclic.parent_not_below (h : k.Acyclic) (ht : k.Allocated t) (hc : k.Below t c) :
    (k.tcb t).tParent ≠ c := by
  obtain ⟨rank, hr⟩ := h
  have hle : rank t ≤ rank c := by
    induction hc with
    | refl => exact Nat.le_refl _
    | child ha hb ih =>
      have hlt := hr _ ha (hb.ne_null ht.ne_null)
      omega
  rintro rfl
  have hlt := hr t ht (hc.ne_null ht.ne_null)
  omega

/-- Detaching a thread hides one child, but from nobody below it. -/
theorem ChildrenFirst.of_detach (h : (k.detach c).ChildrenFirst es) (ha : k.Acyclic)
    (hc : k.Allocated c) (hb : ∀ p ∈ es, k.Below c p) : k.ChildrenFirst es := by
  intro pre p post he d hd hpar
  have hdc : d ≠ c := by
    rintro rfl
    exact ha.parent_not_below hc (hb p (by simp [he])) hpar
  refine h pre p post he d hd ?_
  rw [detach_tParent, if_neg hdc, hpar]

/-- One level of the recursion. What it frees is known from `terminate_outcome`; here it is put in
order. -/
theorem childrenFirst_fuel (n : Nat) :
    (∀ k ds t k', Placed k → (k.outChild t).Family (t :: ds) → k.Acyclic → k.Allocated t → t ∉ ds →
      2 * (k.outChild t).remaining (t :: ds) + 2 ≤ n → terminateFuel n k t = .ok k' →
      ∃ es, t ∈ es ∧ Cut k t es k' ∧ k.ChildrenFirst es) ∧
    ∀ k ds t k', Placed k → k.Family ds → k.Acyclic → t ∈ ds → 2 * k.remaining ds + 1 ≤ n →
      terminateChildren n k t = .ok k' → ∃ es, Cut k t es k' ∧ k.ChildrenFirst es := by
  induction n with
  | zero =>
    constructor
    · intro k ds t k' _ _ _ _ _ hn
      omega
    · intro k ds t k' _ _ _ _ hn
      omega
  | succ n ih =>
    constructor
    · intro k ds t k' hk hf hac ha hd hn h
      obtain ⟨k₁, h₁, hreap⟩ := bind_eq_ok.mp h
      have hk₀ := outChild_placed hk t
      have hac₀ : (k.outChild t).Acyclic := by
        rw [outChild_eq]
        split
        · exact hac
        · exact hac.detach
      have hloop := (terminate_outcome family_prunes n).2 (k.outChild t) (t :: ds) t hk₀ hf
        List.mem_cons_self (by omega)
      rw [h₁] at hloop
      obtain ⟨hk₁, -, hkids, -⟩ := hloop
      obtain ⟨es, hcut, hfirst⟩ :=
        ih.2 _ (t :: ds) t k₁ hk₀ hf hac₀ List.mem_cons_self (by omega) h₁
      refine ⟨es ++ [t], by simp, hcut.finish hk₁ ha.ne_null hreap, ?_⟩
      have hfirst' : k.ChildrenFirst es := by
        have hbelow : ∀ p ∈ es, k.Below t p := fun p hp =>
          below_outChild ha.ne_null (hcut.below p hp)
        rw [outChild_eq] at hfirst
        split at hfirst
        · exact hfirst
        · exact hfirst.of_detach hac ha hbelow
      apply hfirst'.append
      intro pre c post hlast d hda hpar
      obtain ⟨rfl, rfl⟩ : pre = [] ∧ c = t := by
        cases pre with
        | nil =>
          rw [List.nil_append, List.cons.injEq] at hlast
          exact ⟨rfl, hlast.1.symm⟩
        | cons x pre => simp at hlast
      have hdt : d ≠ c := by
        rintro rfl
        exact hac.parent_not_below hda .refl hpar
      rw [List.append_nil]
      -- a child that has not been freed would still be on the list of `c`
      by_contra hde
      have hda₁ : k₁.Allocated d :=
        hcut.toReaped.allocated.mpr ⟨(outChild_reaped k c).allocated.mpr ⟨hda, by simp⟩, hde⟩
      have hpar₁ : (k₁.tcb d).tParent = c := by
        rw [hcut.tParent d hde, outChild_eq]
        split
        · exact hpar
        · rw [detach_tParent, if_neg hdt, hpar]
      exact hkids d hda₁ hpar₁
    · intro k ds t k' hk hf hac hd hn h
      have ht := hf.detached t hd
      simp only [terminateChildren] at h
      rcases hf.removeChild ht.1 with ⟨hr, hkids⟩ | ⟨c, hc, hpar, hr⟩
      · rw [hr, if_pos rfl] at h
        cases h
        exact ⟨[], ⟨.refl k, by simp, fun _ _ => rfl⟩, .nil⟩
      · have hpn : (k.tcb c).tParent ≠ null := hpar ▸ ht.1.ne_null
        have hcd : c ∉ ds := fun hm => hpn (hf.detached c hm).2
        have hout : (k.detach c).outChild c = k.detach c := by
          rw [outChild_eq, detach_tParent, if_pos rfl, if_pos rfl]
        have hrem := remaining_detach hc hcd
        have hf₀ : ((k.detach c).outChild c).Family (c :: ds) := by
          rw [hout]
          exact hf.detach hc hpn
        have hn₀ : 2 * ((k.detach c).outChild c).remaining (c :: ds) + 2 ≤ n := by
          rw [hout]
          omega
        rw [hr, if_neg hc.ne_null] at h
        obtain ⟨k₁, h₁, h₂⟩ := bind_eq_ok.mp h
        have hchild := (terminate_outcome family_prunes n).1 (k.detach c) ds c (detach_placed hk) hf₀ hc
          hcd hn₀
        rw [h₁] at hchild
        obtain ⟨hk₁, hf₁, -⟩ := hchild
        obtain ⟨es, hce, hcut, hfirst⟩ :=
          ih.1 _ ds c k₁ (detach_placed hk) hf₀ hac.detach hc hcd hn₀ h₁
        have hrem₁ := remaining_reaped hc hcd ((detach_reaped k c).trans hcut.toReaped) hce
        obtain ⟨es', hcut', hfirst'⟩ :=
          ih.2 k₁ ds t k' hk₁ hf₁ (hac.detach.cut hcut) hd (by omega) h₂
        refine ⟨es ++ es', hcut.loop ht.1.ne_null hc hpar hce hcut', ?_⟩
        have hbelow : ∀ p ∈ es, k.Below c p := fun p hp =>
          below_detach hc.ne_null (hcut.below p hp)
        apply (hfirst.of_detach hac hc hbelow).append
        intro pre x post he d hda hdx
        by_cases hde : d ∈ es
        · exact List.mem_append_left _ hde
        · have hdc : d ≠ c := fun h => hde (h ▸ hce)
          have hda₁ : k₁.Allocated d := hcut.toReaped.allocated.mpr ⟨hda, hde⟩
          have hpar₁ : (k₁.tcb d).tParent = x := by
            rw [hcut.tParent d hde, detach_tParent, if_neg hdc, hdx]
          exact List.mem_append_right _ (hfirst' pre x post he d hda₁ hpar₁)

/-- Every TCB is in one place, and the lists of children form a finite tree that agrees with the
parents. -/
structure Arranged (k : Kernel) : Prop where
  places : k.places.Perm threadArray
  family : k.Family []
  acyclic : k.Acyclic

/-- `t` and everybody below it are gone, and nothing else has changed for the others. -/
structure Uprooted (k : Kernel) (t : Ptr) (es : List Ptr) (k' : Kernel) : Prop where
  mem : ∀ p, p ∈ es ↔ k.Below t p
  nodup : es.Nodup
  childrenFirst : k.ChildrenFirst es
  tcbFree : k'.tcbFree = k.tcbFree ++ es
  msgFree : k'.msgFree = k.msgFree ++ es.flatMap k.inboxBuffers
  threadCount : k'.threadCount + BitVec.ofNat 32 es.length = k.threadCount
  readyQueue : k'.readyQueue = k.readyQueue.filter (· ∉ es)
  waitQueue : k'.waitQueue = k.waitQueue.filter (· ∉ es)
  currentThread : k'.currentThread = if k.currentThread ∈ es then null else k.currentThread
  tcb : ∀ p, p ∉ es → k'.tcb p = k.tcb p
  children : ∀ p l, k.Allocated p → p ∉ es → k.ChildList p l →
    k'.ChildList p (if p = (k.tcb t).tParent then l.filter (· ≠ t) else l)

theorem Arranged.live_iff (h : k.Arranged) : k.Live p ↔ k.Allocated p := by
  have hk : Placed k :=
    ⟨h.places.nodup_iff.mpr threadArray_nodup, fun _ hp => h.places.mem_iff.mp hp⟩
  refine ⟨fun hp => hp.allocated hk, ?_⟩
  intro hp
  rcases mem_places.mp (h.places.mem_iff.mpr hp.1) with hq | hq | hq | hq
  · exact .inl hq
  · exact .inr (.inl hq)
  · exact absurd hq hp.2
  · exact .inr (.inr (mem_running.mpr hq))

/-- The list of children of `p` when the termination of `t` begins. -/
theorem thinned_outChild (h : k.Family []) (ht : k.Allocated t) : Thinned k (k.outChild t) [t] := by
  have hout := outChild_reaped k t
  refine ⟨h.outChild ht, fun p hp => (hout.allocated.mp hp).1, ?_⟩
  intro p l hp hl
  have hpa := (hout.allocated.mp hp).1
  obtain ⟨l', hl', hmem⟩ := h.kids p hpa
  obtain rfl : l = l' := List.map_injective_iff.mpr (fun _ _ he => tSib_inj.mp he)
    (Heap.Ring.unique hl hl')
  have hfilter : l.filter (fun d => decide (d ∉ [t] ∧ d ∉ (k.outChild t).tcbFree)) =
      l.filter (· ≠ t) := by
    apply List.filter_congr
    intro d hd
    have hdf := ((hmem d).mp hd).1.2
    simp [hout.tcbFree, hdf]
  rw [hfilter, outChild_eq]
  split
  · next hn =>
    have hsame : l.filter (· ≠ t) = l := by
      rw [List.filter_eq_self]
      intro d hd
      rw [decide_eq_true_eq]
      rintro rfl
      exact hpa.ne_null (((hmem d).mp hd).2.symm.trans hn)
    rwa [hsame]
  · exact detach_children h ht ‹_› hpa hl

/-- Who is freed on the list of a thread that stays. -/
theorem Cut.on_list (hp : p ∉ es) (ht : t ∈ es)
    (hmem : ∀ q, q ∈ es ↔ k.Below t q) (hpar : (k.tcb c).tParent = p) :
    c ∉ es ↔ ¬ (p = (k.tcb t).tParent ∧ c = t) := by
  rw [not_iff_not]
  constructor
  · intro hce
    cases (hmem c).mp hce with
    | refl => exact ⟨hpar.symm, rfl⟩
    | child _ hb => exact absurd ((hmem p).mpr (hpar ▸ hb)) hp
  · rintro ⟨-, rfl⟩
    exact ht

/-- A call of `terminate` for a live thread ends, uproots it and does nothing else. -/
theorem terminate_uproots (h : k.Arranged) (ht : k.Live t) :
    ∃ es k', k.terminate t = .ok k' ∧ k.Uprooted t es k' := by
  have hk : Placed k :=
    ⟨h.places.nodup_iff.mpr threadArray_nodup, fun _ hp => h.places.mem_iff.mp hp⟩
  have ha := h.live_iff.mp ht
  have hthin := thinned_outChild h.family ha
  have hspec := terminate_spec (thinned_prunes k) hk hthin ha (by simp)
  obtain ⟨k', hok⟩ := hspec.ok fun p hb => h.live_iff.mpr (hb.allocated ha)
  rw [hok] at hspec
  obtain ⟨hk', ⟨hf', -, hlists⟩, -⟩ := hspec
  have hlt := remaining_lt (k := k.outChild t) [] ha.1
  obtain ⟨es, hte, hcut, hfirst⟩ := (childrenFirst_fuel (2 * maxThreads)).1 k [] t k' hk hthin.1
    h.acyclic ha (by simp) (by omega) hok
  obtain ⟨ds, hdrained⟩ := Drained.terminate hk ha.ne_null hok
  obtain rfl : es = ds := List.append_cancel_left (hcut.tcbFree.symm.trans hdrained.tcbFree)
  have hmem : ∀ p, p ∈ es ↔ k.Below t p := fun p => hcut.mem_iff hf' hte ha.ne_null
  refine ⟨es, k', hok, hmem, hcut.nodup hk', hfirst, hcut.tcbFree, hdrained.msgFree, hcut.threadCount,
    hcut.readyQueue, hcut.waitQueue, hcut.currentThread, ?_, ?_⟩
  · intro p hp
    rw [hdrained.tcb p hp, hcut.tParent p hp]
  · intro p l hp hpe hl
    obtain ⟨l', hl', hkids⟩ := h.family.kids p hp
    obtain rfl : l = l' := List.map_injective_iff.mpr (fun _ _ he => tSib_inj.mp he)
      (Heap.Ring.unique hl hl')
    have hthinned := hlists p l (hcut.toReaped.allocated.mpr ⟨hp, hpe⟩) hl
    have hfilter : l.filter (fun c => decide (c ∉ [] ∧ c ∉ k'.tcbFree)) =
        if p = (k.tcb t).tParent then l.filter (· ≠ t) else l := by
      have hleft : l.filter (fun c => decide (c ∉ [] ∧ c ∉ k'.tcbFree)) =
          l.filter fun c => decide (¬ (p = (k.tcb t).tParent ∧ c = t)) := by
        apply List.filter_congr
        intro c hc
        obtain ⟨hca, hcp⟩ := (hkids c).mp hc
        have hon := Cut.on_list hpe hte hmem hcp
        have hfree : c ∉ k'.tcbFree ↔ c ∉ es := by simp [hcut.tcbFree, hca.2]
        simp only [List.not_mem_nil, not_false_eq_true, true_and, hfree, hon]
      rw [hleft]
      split
      · next hpt => simp [← hpt]
      · next hpt => simp [hpt]
    rwa [hfilter] at hthinned

/-- The running thread has one child, which is ready. -/
def twoThreadsKin : Kernel := twoThreads.insertChild threadArrayAddr testThreadAddr

theorem twoThreadsKin_allocated :
    twoThreadsKin.Allocated p ↔ p = threadArrayAddr ∨ p = testThreadAddr := by
  constructor
  · intro h
    have hm := h.1
    have hn : p ∉ threadArray.drop 2 := h.2
    rw [threadArray_eq] at hm
    simp only [List.mem_cons] at hm
    tauto
  · rintro (rfl | rfl) <;> exact ⟨by decide, by decide⟩

theorem twoThreadsKin_arranged : twoThreadsKin.Arranged := by
  have hroot : (twoThreadsKin.tcb threadArrayAddr).tParent = null := by decide
  have hchild : (twoThreadsKin.tcb testThreadAddr).tParent = threadArrayAddr := by decide
  have hne : threadArrayAddr ≠ null ∧ testThreadAddr ≠ null ∧ threadArrayAddr ≠ testThreadAddr := by
    decide
  refine ⟨by decide, ⟨by simp, ?_, ?_⟩, fun p => if p = testThreadAddr then 1 else 0, ?_⟩
  · intro p hp hn
    rcases twoThreadsKin_allocated.mp hp with rfl | rfl
    · exact absurd hroot hn
    · rw [hchild]
      exact twoThreadsKin_allocated.mpr (.inl rfl)
  · intro p hp
    rcases twoThreadsKin_allocated.mp hp with rfl | rfl
    · refine ⟨[testThreadAddr], ⟨by decide, ⟨by decide, by decide⟩, by decide, by decide⟩, ?_⟩
      intro c
      rw [List.mem_singleton, twoThreadsKin_allocated]
      constructor
      · rintro rfl
        exact ⟨.inr rfl, hchild⟩
      · rintro ⟨rfl | rfl, hc⟩
        · exact absurd (hroot.symm.trans hc).symm hne.1
        · rfl
    · refine ⟨[], ⟨by decide, by decide, by decide⟩, ?_⟩
      intro c
      rw [twoThreadsKin_allocated]
      simp only [List.not_mem_nil, false_iff, not_and]
      rintro (rfl | rfl) hc
      · exact hne.2.1 (hroot.symm.trans hc).symm
      · exact hne.2.2 (hchild.symm.trans hc)
  · intro c hc hn
    rcases twoThreadsKin_allocated.mp hc with rfl | rfl
    · exact absurd hroot hn
    · rw [hchild]
      simp [hne.2.2]

/-- The child is freed before the running thread. -/
theorem terminate_uproots_kin : ∃ es k', twoThreadsKin.terminate threadArrayAddr = .ok k' ∧
    twoThreadsKin.Uprooted threadArrayAddr es k' :=
  terminate_uproots twoThreadsKin_arranged (.inr (.inr (mem_running.mpr ⟨rfl, by decide⟩)))

end Kernel

end AmiKaya
