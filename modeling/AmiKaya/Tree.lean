import AmiKaya.Termination
import AmiKaya.Rings
import Mathlib.Data.List.Nodup

/-! The process tree: the lists threads are linked in through `t_child` and `t_sib`, against their
`t_parent` fields. -/
namespace AmiKaya
open Links

/-! The list heads of two TCBs never coincide. -/

theorem tSib_inj {p q : Ptr} : tSib p = tSib q ↔ p = q := BitVec.add_left_inj _

theorem tChild_inj {p q : Ptr} : tChild p = tChild q ↔ p = q := BitVec.add_left_inj _

theorem sibContainer_tSib (p : Ptr) : sibContainer (tSib p) = p := BitVec.add_sub_cancel _ _

theorem threadArray_mod {p : Ptr} (h : p ∈ threadArray) : p.toNat % 204 = 144 := by
  have hall : threadArray.all (fun p => p.toNat % 204 == 144) = true := by decide
  simpa using List.all_eq_true.mp hall p h

theorem tChild_ne_tSib {p q : Ptr} (hp : p ∈ threadArray) (hq : q ∈ threadArray) :
    tChild p ≠ tSib q := by
  intro he
  have hbp := threadArray_toNat hp
  have hbq := threadArray_toNat hq
  have hmp := threadArray_mod hp
  have hmq := threadArray_mod hq
  have hv := congrArg BitVec.toNat he
  simp only [tChild, tSib, BitVec.toNat_add] at hv
  have h12 : (12 : U32).toNat = 12 := rfl
  have h20 : (20 : U32).toNat = 20 := rfl
  omega

theorem Reaped.allocated {k k' : Kernel} {es : List Ptr} {p : Ptr} (h : Reaped k es k') :
    k'.Allocated p ↔ k.Allocated p ∧ p ∉ es := by
  simp [Kernel.Allocated, h.tcbFree, and_assoc]

namespace Kernel

/-- The `t_child` list of `p` holds the threads `l`, in this order. -/
def ChildList (k : Kernel) (p : Ptr) (l : List Ptr) : Prop := k.links.Ring (tChild p) (l.map tSib)

/-- Starting from `p`, its `t_sib` ring goes through the threads `l`. -/
def SibRing (k : Kernel) (p : Ptr) (l : List Ptr) : Prop := k.links.Ring (tSib p) (l.map tSib)

/-- The lists of children agree with the parents. The threads of `ds`, whose termination is under
way, are still there but have no parent any more. -/
structure Family (k : Kernel) (ds : List Ptr) : Prop where
  detached : ∀ p ∈ ds, k.Allocated p ∧ (k.tcb p).tParent = null
  parent : ∀ p, k.Allocated p → (k.tcb p).tParent ≠ null → k.Allocated (k.tcb p).tParent
  kids : ∀ p, k.Allocated p → ∃ l, k.ChildList p l ∧
    ∀ c, c ∈ l ↔ k.Allocated c ∧ (k.tcb c).tParent = p

/-- The threads without a parent are on rings of their own. -/
structure Tree (k : Kernel) (ds : List Ptr) : Prop extends Family k ds where
  roots : ∀ p, k.Allocated p → (k.tcb p).tParent = null → p ∉ ds → ∃ l, k.SibRing p l ∧
    ∀ c ∈ l, k.Allocated c ∧ (k.tcb c).tParent = null ∧ c ∉ ds

variable {k k' : Kernel} {ds : List Ptr} {p q c t : Ptr} {l l' : List Ptr}

theorem mem_map_tSib : tSib c ∈ l.map tSib ↔ c ∈ l := by
  simp [tSib_inj]

theorem Allocated.ne_null (h : k.Allocated p) : p ≠ null := fun he =>
  null_notMem_threadArray (he ▸ h.1)

/-- The nodes of two different lists of children are different. -/
theorem kids_disjoint (hp : k.Allocated p) (hq : k.Allocated q) (hne : p ≠ q)
    (hl : ∀ c, c ∈ l ↔ k.Allocated c ∧ (k.tcb c).tParent = p)
    (hl' : ∀ c, c ∈ l' ↔ k.Allocated c ∧ (k.tcb c).tParent = q) :
    ∀ x ∈ tChild p :: l.map tSib, x ∉ tChild q :: l'.map tSib := by
  intro x hx hx'
  simp only [List.mem_cons, List.mem_map] at hx hx'
  rcases hx with rfl | ⟨c, hc, rfl⟩
  · rcases hx' with he | ⟨d, hd, he⟩
    · exact hne (tChild_inj.mp he)
    · exact tChild_ne_tSib hp.1 ((hl' d).mp hd).1.1 he.symm
  · have hcp := (hl c).mp hc
    rcases hx' with he | ⟨d, hd, he⟩
    · exact tChild_ne_tSib hq.1 hcp.1.1 he.symm
    · rw [tSib_inj.mp he] at hd
      exact hne (hcp.2.symm.trans ((hl' c).mp hd).2)

/-- A list of children and a ring of threads without parent have no node in common. -/
theorem roots_disjoint (hp : k.Allocated p)
    (hl : ∀ c, c ∈ l ↔ k.Allocated c ∧ (k.tcb c).tParent = p)
    (hl' : ∀ c ∈ q :: l', k.Allocated c ∧ (k.tcb c).tParent = null) :
    ∀ x ∈ tSib q :: l'.map tSib, x ∉ tChild p :: l.map tSib := by
  intro x hx hx'
  have hx : x ∈ (q :: l').map tSib := hx
  obtain ⟨c, hc, rfl⟩ := List.mem_map.mp hx
  have hcn := hl' c hc
  simp only [List.mem_cons, List.mem_map] at hx'
  rcases hx' with he | ⟨d, hd, he⟩
  · exact tChild_ne_tSib hp.1 hcn.1.1 he.symm
  · rw [tSib_inj.mp he] at hd
    exact hp.ne_null (((hl c).mp hd).2.symm.trans hcn.2)

/-- The ring of a thread can be started from any thread on it. -/
theorem SibRing.exists_rotate (h : k.SibRing p l) (hq : q ∈ p :: l) :
    ∃ l', k.SibRing q l' ∧ ∀ x, x ∈ q :: l' ↔ x ∈ p :: l := by
  rcases List.mem_cons.mp hq with rfl | hq
  · exact ⟨l, h, fun _ => Iff.rfl⟩
  · obtain ⟨pre, post, rfl⟩ := List.append_of_mem hq
    refine ⟨post ++ p :: pre, ?_, fun x => ?_⟩
    · have hring : k.links.Ring (tSib p) (pre.map tSib ++ tSib q :: post.map tSib) := by
        simpa [SibRing] using h
      simpa [SibRing] using hring.rotate
    · simp only [List.mem_cons, List.mem_append]
      tauto

theorem SibRing.unique (h : k.SibRing p l) (h' : k.SibRing p l') : l = l' :=
  List.map_injective_iff.mpr (fun _ _ he => tSib_inj.mp he) (Links.Heap.Ring.unique h h')

theorem detach_tParent : ((k.detach c).tcb p).tParent =
    if p = c then null else (k.tcb p).tParent := by
  by_cases hp : p = c
  · subst hp
    simp [detach, setTcb]
  · simp [detach, setTcb, hp]

namespace Family

/-- Nothing the lists are made of has changed. -/
theorem congr (hl : k'.links = k.links) (hp : ∀ p, (k'.tcb p).tParent = (k.tcb p).tParent)
    (hf : ∀ p, p ∈ k'.tcbFree ↔ p ∈ k.tcbFree) (h : k.Family ds) : k'.Family ds := by
  have ha : ∀ p, k'.Allocated p ↔ k.Allocated p := by
    intro p
    simp only [Allocated, hf]
  constructor
  · simpa only [ha, hp] using h.detached
  · simpa only [ha, hp] using h.parent
  · simpa only [ha, hp, ChildList, hl] using h.kids

/-- Taking a child out of its list. -/
theorem detach (h : k.Family ds) (hc : k.Allocated c) (hpar : (k.tcb c).tParent ≠ null) :
    (k.detach c).Family (c :: ds) := by
  have hpar' := h.parent c hc hpar
  obtain ⟨l, hl, hmem⟩ := h.kids _ hpar'
  have hcl : c ∈ l := (hmem c).mpr ⟨hc, rfl⟩
  have hnode : tSib c ∈ tChild (k.tcb c).tParent :: l.map tSib :=
    List.mem_cons_of_mem _ (mem_map_tSib.mpr hcl)
  constructor
  · intro p hp
    rw [detach_tParent]
    rcases List.mem_cons.mp hp with rfl | hp
    · exact ⟨hc, if_pos rfl⟩
    · obtain ⟨ha, hn⟩ := h.detached p hp
      exact ⟨ha, by rw [hn, ite_self]⟩
  · intro p hp hn
    rw [detach_tParent] at hn ⊢
    split at hn
    · exact absurd rfl hn
    · rw [if_neg ‹_›]
      exact h.parent p hp hn
  · intro p hp
    by_cases hpc : p = (k.tcb c).tParent
    · subst hpc
      obtain ⟨pre, post, rfl⟩ := List.append_of_mem hcl
      refine ⟨pre ++ post, ?_, fun d => ?_⟩
      · have hring : k.links.Ring (tChild (k.tcb c).tParent)
            (pre.map tSib ++ tSib c :: post.map tSib) := by simpa [ChildList] using hl
        simpa [ChildList, Kernel.detach] using hring.del
      · have hnodup : (pre ++ c :: post).Nodup := by
          have hmap := (List.nodup_cons.mp hl.nodup).2
          exact List.Nodup.of_map _ hmap
        have hnotin : c ∉ pre ++ post := by
          intro hm
          have hperm : (pre ++ c :: post).Perm (c :: (pre ++ post)) := List.perm_middle
          exact (List.nodup_cons.mp (hperm.nodup_iff.mp hnodup)).1 hm
        rw [detach_tParent]
        by_cases hdc : d = c
        · subst hdc
          simp [hnotin, hpar.symm]
        · rw [if_neg hdc]
          have := hmem d
          simp only [List.mem_append, List.mem_cons, hdc, false_or] at this
          rw [List.mem_append]
          exact this
    · have hpk : k.Allocated p := hp
      obtain ⟨l', hl', hmem'⟩ := h.kids p hpk
      refine ⟨l', hl'.del_other hl (kids_disjoint hpk hpar' hpc hmem' hmem) hnode, fun d => ?_⟩
      rw [hmem', detach_tParent]
      by_cases hdc : d = c
      · subst hdc
        have hpn : null ≠ p := fun he => null_notMem_threadArray (he ▸ hp.1)
        simp [hpn, Ne.symm hpc]
      · rw [if_neg hdc]
        exact Iff.rfl

/-- A parentless thread starts to be terminated. -/
theorem doom (h : k.Family ds) (ht : k.Allocated t) (hn : (k.tcb t).tParent = null) :
    k.Family (t :: ds) where
  detached p hp := by
    rcases List.mem_cons.mp hp with rfl | hp
    · exact ⟨ht, hn⟩
    · exact h.detached p hp
  parent := h.parent
  kids := h.kids

end Family

theorem Family.outChild (h : k.Family ds) (ht : k.Allocated t) :
    (k.outChild t).Family (t :: ds) := by
  rw [outChild_eq]
  split
  · exact h.doom ht ‹_›
  · exact h.detach ht ‹_›

/-- `removeChild` detaches the first child, if there is one. -/
theorem Family.removeChild (h : k.Family ds) (ht : k.Allocated t) :
    (k.removeChild t = (null, k) ∧ ∀ c, k.Allocated c → (k.tcb c).tParent ≠ t) ∨
      ∃ c, k.Allocated c ∧ (k.tcb c).tParent = t ∧ k.removeChild t = (c, k.detach c) := by
  obtain ⟨l, hl, hmem⟩ := h.kids t ht
  have hempty := Links.Heap.Ring.isEmpty_iff hl
  rw [removeChild_eq]
  cases l with
  | nil =>
    rw [if_pos (hempty.mpr rfl)]
    refine .inl ⟨rfl, fun c hc hp => ?_⟩
    have hm := (hmem c).mpr ⟨hc, hp⟩
    cases hm
  | cons c l =>
    have hc := (hmem c).mp List.mem_cons_self
    have hnext : k.links.next (tChild t) = tSib c := Links.Heap.Ring.next_head hl
    refine .inr ⟨c, hc.1, hc.2, ?_⟩
    rw [if_neg (by simp [hempty]), hnext, sibContainer_tSib]

namespace Tree

/-- Nothing the tree is made of has changed. -/
theorem congr (hl : k'.links = k.links) (hp : ∀ p, (k'.tcb p).tParent = (k.tcb p).tParent)
    (hf : ∀ p, p ∈ k'.tcbFree ↔ p ∈ k.tcbFree) (h : k.Tree ds) : k'.Tree ds := by
  have ha : ∀ p, k'.Allocated p ↔ k.Allocated p := by
    intro p
    simp only [Allocated, hf]
  refine ⟨h.toFamily.congr hl hp hf, ?_⟩
  simpa only [ha, hp, SibRing, hl] using h.roots

/-- Taking a child out of its list leaves the rings alone. -/
theorem detach (h : k.Tree ds) (hc : k.Allocated c) (hpar : (k.tcb c).tParent ≠ null) :
    (k.detach c).Tree (c :: ds) := by
  have hpar' := h.parent c hc hpar
  obtain ⟨l, hl, hmem⟩ := h.kids _ hpar'
  have hcl : c ∈ l := (hmem c).mpr ⟨hc, rfl⟩
  have hnode : tSib c ∈ tChild (k.tcb c).tParent :: l.map tSib :=
    List.mem_cons_of_mem _ (mem_map_tSib.mpr hcl)
  refine ⟨h.toFamily.detach hc hpar, ?_⟩
  intro p hp hn hd
  simp only [List.mem_cons, not_or] at hd
  rw [detach_tParent, if_neg hd.1] at hn
  obtain ⟨l', hl', hmem'⟩ := h.roots p hp hn hd.2
  have hroots : ∀ d ∈ p :: l', k.Allocated d ∧ (k.tcb d).tParent = null := by
    intro d hd'
    rcases List.mem_cons.mp hd' with rfl | hd'
    · exact ⟨hp, hn⟩
    · exact ⟨(hmem' d hd').1, (hmem' d hd').2.1⟩
  refine ⟨l', hl'.del_other hl (roots_disjoint hpar' hmem hroots) hnode, fun d hd' => ?_⟩
  obtain ⟨hda, hdn, hdd⟩ := hmem' d hd'
  have hdc : d ≠ c := by
    rintro rfl
    exact hpar hdn
  rw [detach_tParent, if_neg hdc]
  exact ⟨hda, hdn, by simp [hdc, hdd]⟩

/-- A thread without parent can be terminated when it is alone on its ring. -/
theorem doom (h : k.Tree ds) (ht : k.Allocated t) (hn : (k.tcb t).tParent = null)
    (halone : k.SibRing t []) : k.Tree (t :: ds) := by
  refine ⟨h.toFamily.doom ht hn, fun p hp hpn hd => ?_⟩
  simp only [List.mem_cons, not_or] at hd
  obtain ⟨l, hl, hmem⟩ := h.roots p hp hpn hd.2
  refine ⟨l, hl, fun c hc => ?_⟩
  have hct : c ≠ t := by
    rintro rfl
    obtain ⟨l', hl', hmem'⟩ := hl.exists_rotate (List.mem_cons_of_mem _ hc)
    have hnil : l' = [] := hl'.unique halone
    subst hnil
    have hpc := (hmem' p).mpr List.mem_cons_self
    exact hd.1 (List.mem_singleton.mp hpc)
  obtain ⟨ha, hcn, hcd⟩ := hmem c hc
  exact ⟨ha, hcn, by simp [hct, hcd]⟩

theorem outChild (h : k.Tree ds) (ht : k.Allocated t)
    (halone : (k.tcb t).tParent = null → k.SibRing t []) : (k.outChild t).Tree (t :: ds) := by
  rw [outChild_eq]
  split
  · next hn => exact h.doom ht hn (halone hn)
  · exact h.detach ht ‹_›

end Tree

/-! Freeing a thread that has no children left. -/

theorem reap_links (h : k.reap t = .ok k') : k'.links = k.links ∧
    ∀ p, (k'.tcb p).tParent = (k.tcb p).tParent := by
  have hput : ∀ p, (put k.tcb t { k.tcb t with tInbox := [] } p).tParent = (k.tcb p).tParent := by
    intro p
    by_cases hp : p = t
    · subst hp
      simp
    · simp [hp]
  rcases reap_cases h with ⟨-, rfl⟩ | ⟨-, -, -, -, rfl⟩ <;> exact ⟨rfl, hput⟩

theorem Family.reap (hk : Placed k) (h : k.Family (t :: ds)) (ht : t ∉ ds)
    (hkids : ∀ c, k.Allocated c → (k.tcb c).tParent ≠ t) (hr : k.reap t = .ok k') :
    k'.Family ds := by
  obtain ⟨hta, htn⟩ := h.detached t List.mem_cons_self
  obtain ⟨hl, hpar⟩ := reap_links hr
  have ha : ∀ p, k'.Allocated p ↔ k.Allocated p ∧ p ≠ t := fun p => by
    simpa using (Reaped.reap hk hta.ne_null hr).allocated (p := p)
  constructor
  · intro p hp
    obtain ⟨hpa, hpn⟩ := h.detached p (List.mem_cons_of_mem _ hp)
    rw [ha, hpar]
    exact ⟨⟨hpa, fun he => ht (he ▸ hp)⟩, hpn⟩
  · intro p hp hn
    rw [ha] at hp ⊢
    rw [hpar] at hn ⊢
    exact ⟨h.parent p hp.1 hn, hkids p hp.1⟩
  · intro p hp
    rw [ha] at hp
    obtain ⟨l, hl', hmem⟩ := h.kids p hp.1
    refine ⟨l, by simpa only [ChildList, hl] using hl', fun c => ?_⟩
    rw [hmem, ha, hpar]
    constructor
    · rintro ⟨hc, hcp⟩
      refine ⟨⟨hc, ?_⟩, hcp⟩
      rintro rfl
      exact hp.1.ne_null (hcp.symm.trans htn)
    · rintro ⟨⟨hc, -⟩, hcp⟩
      exact ⟨hc, hcp⟩

theorem Tree.reap (hk : Placed k) (h : k.Tree (t :: ds)) (ht : t ∉ ds)
    (hkids : ∀ c, k.Allocated c → (k.tcb c).tParent ≠ t) (hr : k.reap t = .ok k') :
    k'.Tree ds := by
  obtain ⟨hta, htn⟩ := h.detached t List.mem_cons_self
  obtain ⟨hl, hpar⟩ := reap_links hr
  have ha : ∀ p, k'.Allocated p ↔ k.Allocated p ∧ p ≠ t := fun p => by
    simpa using (Reaped.reap hk hta.ne_null hr).allocated (p := p)
  refine ⟨h.toFamily.reap hk ht hkids hr, fun p hp hn hd => ?_⟩
  rw [ha] at hp
  rw [hpar] at hn
  obtain ⟨l, hl', hmem⟩ := h.roots p hp.1 hn (by simp [hp.2, hd])
  refine ⟨l, by simpa only [SibRing, hl] using hl', fun c hc => ?_⟩
  obtain ⟨hca, hcn, hcd⟩ := hmem c hc
  simp only [List.mem_cons, not_or] at hcd
  rw [ha, hpar]
  exact ⟨⟨hca, hcd.1⟩, hcn, hcd.2⟩

end Kernel

end AmiKaya
