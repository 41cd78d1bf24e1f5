import AmiKaya.Orderly

/-! How the process tree grows: the allocation of a TCB and the two ways to link it. -/
namespace AmiKaya
open Links

/-- The process tree and the free list are the same. -/
structure SameTree (k k' : Kernel) : Prop where
  tcbFree : k'.tcbFree = k.tcbFree
  links : k'.links = k.links
  tParent : ∀ p, (k'.tcb p).tParent = (k.tcb p).tParent

theorem Still.sameTree {k k' : Kernel} (h : Still k k') : SameTree k k' :=
  ⟨h.tcbFree, h.links, h.tParent⟩

namespace SameTree

variable {k k' k'' : Kernel} {ds : List Ptr} {p t : Ptr} {l : List Ptr}

theorem refl (k : Kernel) : SameTree k k := ⟨rfl, rfl, fun _ => rfl⟩

theorem trans (h : SameTree k k') (h' : SameTree k' k'') : SameTree k k'' :=
  ⟨h'.tcbFree.trans h.tcbFree, h'.links.trans h.links, fun p => (h'.tParent p).trans (h.tParent p)⟩

theorem allocated (h : SameTree k k') : k'.Allocated p ↔ k.Allocated p := by
  simp only [Kernel.Allocated, h.tcbFree]

theorem family (h : SameTree k k') (hf : k.Family ds) : k'.Family ds :=
  hf.congr h.links h.tParent fun p => by rw [h.tcbFree]

theorem tree (h : SameTree k k') (ht : k.Tree ds) : k'.Tree ds :=
  ht.congr h.links h.tParent fun p => by rw [h.tcbFree]

theorem sibRing (h : SameTree k k') : k'.SibRing p l ↔ k.SibRing p l := by
  simp only [Kernel.SibRing, h.links]

theorem below (h : SameTree k k') (ht : t ≠ null) : k'.Below t p ↔ k.Below t p := by
  constructor
  · refine Kernel.Below.mono ht fun c hc _ => ⟨h.allocated.mp hc, (h.tParent c).symm⟩
  · refine Kernel.Below.mono ht fun c hc _ => ⟨h.allocated.mpr hc, h.tParent c⟩

end SameTree

namespace Kernel

variable {k k' : Kernel} {ds : List Ptr} {p q c s : Ptr}

/-! Allocation: the new TCB has no parent, no children, and is alone on its ring. -/

theorem alloc_allocated (hk : Placed k) (h : k.allocTcb = (p, k')) (hp : p ≠ null) :
    k'.Allocated q ↔ q = p ∨ k.Allocated q := by
  obtain ⟨free, hf, rfl⟩ := allocTcb_cases h hp
  have hpf : p ∈ k.tcbFree := by simp [hf]
  have hpa : p ∈ threadArray := hk.sub p (mem_places.mpr (.inr (.inr (.inl hpf))))
  have hcount := hk.count_le p
  rw [hf, List.count_cons_self] at hcount
  have hnot : p ∉ free := fun hm => by
    have := List.count_pos_iff.mpr hm
    omega
  by_cases hq : q = p
  · subst hq
    exact ⟨fun _ => .inl rfl, fun _ => ⟨hpa, hnot⟩⟩
  · simp [Allocated, hf, hq]

theorem alloc_not_allocated (h : k.allocTcb = (p, k')) (hp : p ≠ null) : ¬ k.Allocated p := by
  obtain ⟨free, hf, -⟩ := allocTcb_cases h hp
  exact fun ha => ha.2 (by simp [hf])

theorem alloc_tParent (h : k.allocTcb = (p, k')) (hp : p ≠ null) :
    (k'.tcb q).tParent = if q = p then null else (k.tcb q).tParent := by
  obtain ⟨free, -, rfl⟩ := allocTcb_cases h hp
  by_cases hq : q = p
  · subst hq
    simp [freshTcb]
  · simp [hq]

theorem alloc_links (h : k.allocTcb = (p, k')) (hp : p ≠ null) :
    k'.links = (k.links.init (tChild p)).init (tSib p) := by
  obtain ⟨free, -, rfl⟩ := allocTcb_cases h hp
  rfl

theorem alloc_sibRing (h : k.allocTcb = (p, k')) (hp : p ≠ null) : k'.SibRing p [] := by
  rw [SibRing, alloc_links h hp]
  exact Heap.Ring.init _ _

/-- The lists of the other threads do not go through the new TCB. -/
theorem alloc_ring {n : Ptr} {l : List Ptr} (h : k.allocTcb = (p, k')) (hp : p ≠ null)
    (hr : k.links.Ring n (l.map tSib)) (hn : n ≠ tChild p ∧ n ≠ tSib p)
    (hl : ∀ c ∈ l, c ∈ threadArray ∧ c ≠ p) (hpa : p ∈ threadArray) :
    k'.links.Ring n (l.map tSib) := by
  rw [alloc_links h hp]
  refine (hr.init_other ?_).init_other ?_
  · simp only [List.mem_cons, List.mem_map, not_or, not_exists, not_and]
    exact ⟨hn.1.symm, fun c hc => (tChild_ne_tSib hpa (hl c hc).1).symm⟩
  · rw [List.mem_cons, mem_map_tSib, not_or]
    exact ⟨hn.2.symm, fun hm => (hl p hm).2 rfl⟩

theorem Family.alloc (hk : Placed k) (hf : k.Family []) (h : k.allocTcb = (p, k')) (hp : p ≠ null) :
    k'.Family [p] := by
  have ha := fun q => alloc_allocated (q := q) hk h hp
  have hpar := fun q => alloc_tParent (q := q) h hp
  have hpa : p ∈ threadArray := ((ha p).mpr (.inl rfl)).1
  have hno := alloc_not_allocated h hp
  refine ⟨?_, fun c hc hn => ?_, fun q hq => ?_⟩
  · intro q hq
    rw [List.mem_singleton] at hq
    subst hq
    exact ⟨(ha q).mpr (.inl rfl), by rw [hpar, if_pos rfl]⟩
  · rw [hpar] at hn ⊢
    split at hn
    · exact absurd rfl hn
    · next hcp =>
      rw [if_neg hcp]
      exact (ha _).mpr (.inr (hf.parent c (((ha c).mp hc).resolve_left hcp) hn))
  · by_cases hqp : q = p
    · subst hqp
      refine ⟨[], ?_, fun c => ⟨by simp, fun hc => ?_⟩⟩
      · have hne : tSib q ∉ tChild q :: ([] : List Ptr) := by
          simpa using (tChild_ne_tSib hpa hpa).symm
        rw [ChildList, alloc_links h hp]
        exact (Heap.Ring.init k.links (tChild q)).init_other hne
      · have hpc := hc.2
        rw [hpar] at hpc
        split at hpc
        · exact absurd hpc.symm hp
        · next hcp =>
          have hca := ((ha c).mp hc.1).resolve_left hcp
          exact absurd (hpc ▸ hf.parent c hca (hpc ▸ hp)) hno
    · have hqa := ((ha q).mp hq).resolve_left hqp
      obtain ⟨l, hl, hmem⟩ := hf.kids q hqa
      have hlp : ∀ c ∈ l, c ∈ threadArray ∧ c ≠ p := by
        intro c hc
        have hca := ((hmem c).mp hc).1
        exact ⟨hca.1, fun he => hno (he ▸ hca)⟩
      refine ⟨l, alloc_ring h hp hl ⟨?_, tChild_ne_tSib hqa.1 hpa⟩ hlp hpa, fun c => ?_⟩
      · exact fun he => hqp (tChild_inj.mp he)
      · rw [hmem, ha, hpar]
        by_cases hcp : c = p
        · subst hcp
          simp [hno, Ne.symm hqa.ne_null]
        · simp [hcp]

theorem Tree.alloc (hk : Placed k) (ht : k.Tree []) (h : k.allocTcb = (p, k')) (hp : p ≠ null) :
    k'.Tree [p] := by
  have ha := fun q => alloc_allocated (q := q) hk h hp
  have hpar := fun q => alloc_tParent (q := q) h hp
  have hpa : p ∈ threadArray := ((ha p).mpr (.inl rfl)).1
  have hno := alloc_not_allocated h hp
  refine ⟨ht.toFamily.alloc hk h hp, fun q hq hn hd => ?_⟩
  have hqp : q ≠ p := by simpa using hd
  have hqa := ((ha q).mp hq).resolve_left hqp
  rw [hpar, if_neg hqp] at hn
  obtain ⟨l, hl, hmem⟩ := ht.roots q hqa hn (by simp)
  have hlp : ∀ c ∈ l, c ≠ p := fun c hc he => hno (he ▸ (hmem c hc).1)
  refine ⟨l, alloc_ring h hp hl ⟨(tChild_ne_tSib hpa hqa.1).symm, fun he => hqp (tSib_inj.mp he)⟩
    (fun c hc => ⟨(hmem c hc).1.1, hlp c hc⟩) hpa, fun c hc => ?_⟩
  obtain ⟨hca, hcn, -⟩ := hmem c hc
  refine ⟨(ha c).mpr (.inr hca), ?_, by simpa using hlp c hc⟩
  rw [hpar, if_neg (hlp c hc)]
  exact hcn

/-! Linking the new TCB `c`, which is on no list yet. -/

theorem insertChild_allocated : (k.insertChild q c).Allocated p ↔ k.Allocated p := Iff.rfl

theorem insertChild_tParent :
    ((k.insertChild q c).tcb p).tParent = if p = c then q else (k.tcb p).tParent := by
  by_cases hp : p = c
  · subst hp
    simp [insertChild, setTcb]
  · simp [insertChild, setTcb, hp]

theorem Family.insertChild (h : k.Family [c]) (hq : k.Allocated q) (hqc : q ≠ c) :
    (k.insertChild q c).Family [] := by
  obtain ⟨hc, hcn⟩ := h.detached c (by simp)
  obtain ⟨lq, hlq, hmemq⟩ := h.kids q hq
  refine ⟨by simp, fun d hd hn => ?_, fun r hr => ?_⟩
  · rw [insertChild_tParent] at hn ⊢
    split
    · exact hq
    · next hdc =>
      rw [if_neg hdc] at hn
      exact h.parent d hd hn
  · have hra : k.Allocated r := hr
    by_cases hrq : r = q
    · subst hrq
      refine ⟨lq ++ [c], ?_, fun d => ?_⟩
      · have hnot : tSib c ∉ tChild r :: lq.map tSib := by
          rw [List.mem_cons, mem_map_tSib, not_or]
          refine ⟨(tChild_ne_tSib hra.1 hc.1).symm, fun hm => ?_⟩
          exact hra.ne_null (((hmemq c).mp hm).2.symm.trans hcn)
        rw [ChildList, List.map_append]
        exact Heap.Ring.addTail hlq hnot
      · rw [insertChild_allocated, insertChild_tParent, List.mem_append, List.mem_singleton, hmemq]
        by_cases hdc : d = c
        · subst hdc
          simp [hc]
        · simp [hdc]
    · obtain ⟨l, hl, hmem⟩ := h.kids r hra
      have hnot : tSib c ∉ tChild r :: l.map tSib := by
        rw [List.mem_cons, mem_map_tSib, not_or]
        refine ⟨(tChild_ne_tSib hra.1 hc.1).symm, fun hm => ?_⟩
        exact hra.ne_null (((hmem c).mp hm).2.symm.trans hcn)
      refine ⟨l, hl.addTail_other hlq (kids_disjoint hra hq hrq hmem hmemq) hnot, fun d => ?_⟩
      rw [insertChild_allocated, insertChild_tParent, hmem]
      by_cases hdc : d = c
      · subst hdc
        simp [hcn, Ne.symm hra.ne_null, Ne.symm hrq]
      · simp [hdc]

theorem Tree.insertChild (h : k.Tree [c]) (hq : k.Allocated q) (hqc : q ≠ c) :
    (k.insertChild q c).Tree [] := by
  obtain ⟨hc, hcn⟩ := h.detached c (by simp)
  obtain ⟨lq, hlq, hmemq⟩ := h.kids q hq
  refine ⟨h.toFamily.insertChild hq hqc, fun p hp hn _ => ?_⟩
  have hpa : k.Allocated p := hp
  have hpc : p ≠ c := by
    rintro rfl
    rw [insertChild_tParent, if_pos rfl] at hn
    exact hq.ne_null hn
  rw [insertChild_tParent, if_neg hpc] at hn
  obtain ⟨l, hl, hmem⟩ := h.roots p hpa hn (by simpa using hpc)
  have hroots : ∀ d ∈ p :: l, k.Allocated d ∧ (k.tcb d).tParent = null := by
    intro d hd
    rcases List.mem_cons.mp hd with rfl | hd
    · exact ⟨hpa, hn⟩
    · exact ⟨(hmem d hd).1, (hmem d hd).2.1⟩
  have hlc : ∀ d ∈ l, d ≠ c := fun d hd => by simpa using (hmem d hd).2.2
  have hnot : tSib c ∉ tSib p :: l.map tSib := by
    rw [List.mem_cons, mem_map_tSib, tSib_inj, not_or]
    exact ⟨hpc.symm, fun hm => hlc c hm rfl⟩
  refine ⟨l, hl.addTail_other hlq (roots_disjoint hq hmemq hroots) hnot, fun d hd => ?_⟩
  refine ⟨(hmem d hd).1, ?_, by simp⟩
  rw [insertChild_tParent, if_neg (hlc d hd)]
  exact (hmem d hd).2.1

/-- Two rings that share a thread are the same ring. -/
theorem SibRing.disjoint {l l' : List Ptr} (hl : k.SibRing p l) (hl' : k.SibRing s l')
    (hp : p ∉ s :: l') : ∀ x ∈ tSib p :: l.map tSib, x ∉ tSib s :: l'.map tSib := by
  intro x hx hx'
  change x ∈ (p :: l).map tSib at hx
  change x ∈ (s :: l').map tSib at hx'
  obtain ⟨d, hd, rfl⟩ := List.mem_map.mp hx
  obtain ⟨r, hr, hmem⟩ := hl.exists_rotate hd
  obtain ⟨r', hr', hmem'⟩ := hl'.exists_rotate (mem_map_tSib.mp hx')
  have he : r = r' := hr.unique hr'
  subst he
  exact hp ((hmem' p).mp ((hmem p).mpr List.mem_cons_self))

theorem Tree.insertSibling (h : k.Tree [c]) (hs : k.Allocated s) (hsn : (k.tcb s).tParent = null)
    (hsc : s ≠ c) : (k.insertSibling s c).Tree [] := by
  obtain ⟨hc, hcn⟩ := h.detached c (by simp)
  obtain ⟨ls, hls, hmems⟩ := h.roots s hs hsn (by simpa using hsc)
  have hroots : ∀ d ∈ s :: ls, k.Allocated d ∧ (k.tcb d).tParent = null := by
    intro d hd
    rcases List.mem_cons.mp hd with rfl | hd
    · exact ⟨hs, hsn⟩
    · exact ⟨(hmems d hd).1, (hmems d hd).2.1⟩
  have hring : (k.insertSibling s c).SibRing s (ls ++ [c]) := by
    have hnot : tSib c ∉ tSib s :: ls.map tSib := by
      rw [List.mem_cons, mem_map_tSib, tSib_inj, not_or]
      exact ⟨hsc.symm, fun hm => by simpa using (hmems c hm).2.2⟩
    rw [SibRing, List.map_append]
    exact Heap.Ring.addTail hls hnot
  have hnew : ∀ d ∈ s :: (ls ++ [c]), k.Allocated d ∧ (k.tcb d).tParent = null := by
    intro d hd
    rw [← List.cons_append, List.mem_append, List.mem_singleton] at hd
    rcases hd with hd | rfl
    · exact hroots d hd
    · exact ⟨hc, hcn⟩
  refine ⟨⟨by simp, h.parent, fun r hr => ?_⟩, fun p hp hn _ => ?_⟩
  · have hra : k.Allocated r := hr
    obtain ⟨l, hl, hmem⟩ := h.kids r hra
    have hnot : tSib c ∉ tChild r :: l.map tSib := by
      rw [List.mem_cons, mem_map_tSib, not_or]
      refine ⟨(tChild_ne_tSib hra.1 hc.1).symm, fun hm => ?_⟩
      exact hra.ne_null (((hmem c).mp hm).2.symm.trans hcn)
    have hdis := roots_disjoint hra hmem hroots
    exact ⟨l, hl.addTail_other hls (fun x hx hx' => hdis x hx' hx) hnot, hmem⟩
  · have hpa : k.Allocated p := hp
    by_cases hps : p ∈ s :: (ls ++ [c])
    · obtain ⟨l, hl, hmem⟩ := hring.exists_rotate hps
      refine ⟨l, hl, fun d hd => ?_⟩
      obtain ⟨hda, hdn⟩ := hnew d ((hmem d).mp (List.mem_cons_of_mem _ hd))
      exact ⟨hda, hdn, by simp⟩
    · rw [← List.cons_append, List.mem_append, List.mem_singleton, not_or] at hps
      obtain ⟨l, hl, hmem⟩ := h.roots p hpa hn (by simpa using hps.2)
      have hnot : tSib c ∉ tSib p :: l.map tSib := by
        rw [List.mem_cons, mem_map_tSib, tSib_inj, not_or]
        exact ⟨Ne.symm hps.2, fun hm => by simpa using (hmem c hm).2.2⟩
      refine ⟨l, hl.addTail_other hls (hl.disjoint hls hps.1) hnot, fun d hd => ?_⟩
      exact ⟨(hmem d hd).1, (hmem d hd).2.1, by simp⟩

/-- For the lists of children alone it is enough that the node in front of the sibling, and the
sibling, are on none of them. -/
theorem Family.insertSibling (h : k.Family [c]) (hs : (k.tcb s).tParent = null ∨ ¬ k.Allocated s)
    (hsa : s ∈ threadArray) (hprev : ∀ d, k.Allocated d → (k.tcb d).tParent ≠ null →
      k.links.prev (tSib s) ≠ tSib d)
    (hhead : ∀ d, k.Allocated d → k.links.prev (tSib s) ≠ tChild d) :
    (k.insertSibling s c).Family [] := by
  obtain ⟨hc, hcn⟩ := h.detached c (by simp)
  refine ⟨by simp, h.parent, fun r hr => ?_⟩
  have hra : k.Allocated r := hr
  obtain ⟨l, hl, hmem⟩ := h.kids r hra
  have hnode : ∀ d, (k.tcb d).tParent = null ∨ ¬ k.Allocated d → d ∉ l := by
    intro d hd hm
    obtain ⟨hda, hdr⟩ := (hmem d).mp hm
    rcases hd with hd | hd
    · exact hra.ne_null (hdr.symm.trans hd)
    · exact hd hda
  have hout : ∀ x ∈ tChild r :: l.map tSib,
      x ≠ k.links.prev (tSib s) ∧ x ≠ tSib c ∧ x ≠ tSib s := by
    intro x hx
    rcases List.mem_cons.mp hx with rfl | hx
    · exact ⟨(hhead r hra).symm, tChild_ne_tSib hra.1 hc.1, tChild_ne_tSib hra.1 hsa⟩
    · obtain ⟨d, hd, rfl⟩ := List.mem_map.mp hx
      obtain ⟨hda, hdr⟩ := (hmem d).mp hd
      refine ⟨(hprev d hda (hdr ▸ hra.ne_null)).symm, fun he => ?_, fun he => ?_⟩
      · exact hnode c (.inl hcn) (tSib_inj.mp he ▸ hd)
      · exact hnode s hs (tSib_inj.mp he ▸ hd)
  refine ⟨l, ?_, hmem⟩
  refine Heap.Ring.congr (fun x hx => ?_) (fun x hx => ?_) hl
  · obtain ⟨hxp, hxc, -⟩ := hout x hx
    simp only [Kernel.insertSibling, Heap.addTail, Heap.addBetween_next, if_neg hxp, if_neg hxc]
  · obtain ⟨-, hxc, hxs⟩ := hout x hx
    simp only [Kernel.insertSibling, Heap.addTail, Heap.addBetween_prev, if_neg hxc, if_neg hxs]

end Kernel

end AmiKaya
