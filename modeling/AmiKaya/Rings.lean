import AmiKaya.Links

/-! Circular doubly linked lists as lists of nodes: what insertion and removal do to the one they
are about, and that they leave the others alone. -/
namespace Links

variable {ν : Type}

namespace Heap

/-- From `a` the links lead through the nodes `l` to `b`, and back. -/
def Seg (h : Heap ν) : ν → List ν → ν → Prop
  | a, [], b => h.next a = b ∧ h.prev b = a
  | a, c :: l, b => (h.next a = c ∧ h.prev c = a) ∧ h.Seg c l b

/-- The circular list with head `a` holds the other nodes `l`, in this order. -/
structure Ring (h : Heap ν) (a : ν) (l : List ν) : Prop where
  nodup : (a :: l).Nodup
  seg : h.Seg a l a

variable {h h' : Heap ν} {a b c n x : ν} {l l' : List ν}

theorem seg_append : h.Seg a (l ++ c :: l') b ↔ h.Seg a l c ∧ h.Seg c l' b := by
  induction l generalizing a with
  | nil => exact Iff.rfl
  | cons d l ih =>
    rw [List.cons_append]
    simp only [Seg, ih]
    exact and_assoc.symm

/-- Only the next fields of `a` and `l` and the prev fields of `l` and `b` are part of a segment. -/
theorem Seg.congr (hn : ∀ x ∈ a :: l, h'.next x = h.next x)
    (hp : ∀ x ∈ l ++ [b], h'.prev x = h.prev x) (hs : h.Seg a l b) : h'.Seg a l b := by
  induction l generalizing a with
  | nil =>
    obtain ⟨hab, hba⟩ := hs
    exact ⟨(hn a (by simp)).trans hab, (hp b (by simp)).trans hba⟩
  | cons c l ih =>
    obtain ⟨⟨hac, hca⟩, hs⟩ := hs
    refine ⟨⟨(hn a (by simp)).trans hac, (hp c (by simp)).trans hca⟩, ih ?_ ?_ hs⟩
    · intro x hx
      exact hn x (List.mem_cons_of_mem _ hx)
    · intro x hx
      exact hp x (List.mem_cons_of_mem _ hx)

/-- The last node before `b`. -/
theorem Seg.prev_eq (hs : h.Seg a l b) : h.prev b = (a :: l).getLast (by simp) := by
  induction l generalizing a with
  | nil => exact hs.2
  | cons c l ih =>
    rw [List.getLast_cons (by simp)]
    exact ih hs.2

namespace Ring

theorem congr (hn : ∀ x ∈ a :: l, h'.next x = h.next x) (hp : ∀ x ∈ a :: l, h'.prev x = h.prev x)
    (hr : h.Ring a l) : h'.Ring a l := by
  refine ⟨hr.nodup, hr.seg.congr hn ?_⟩
  intro x hx
  apply hp
  rw [List.mem_append, List.mem_singleton] at hx
  rcases hx with hx | hx
  · exact List.mem_cons_of_mem _ hx
  · exact hx ▸ List.mem_cons_self

/-- Any node of a circular list can be taken for its head. -/
theorem rotate (hr : h.Ring a (l ++ b :: l')) : h.Ring b (l' ++ a :: l) := by
  obtain ⟨hs, hs'⟩ := seg_append.mp hr.seg
  refine ⟨?_, seg_append.mpr ⟨hs', hs⟩⟩
  have hperm : (b :: (l' ++ a :: l)).Perm (a :: (l ++ b :: l')) := by
    have hleft : (b :: (l' ++ a :: l)).Perm ((b :: l') ++ (a :: l)) := List.Perm.refl _
    exact hleft.trans List.perm_append_comm
  exact hperm.nodup_iff.mpr hr.nodup

/-- The head can be any node `b` of the circular list, with the same nodes in it. -/
theorem exists_rotate (hr : h.Ring a l) (hb : b ∈ a :: l) :
    ∃ l', h.Ring b l' ∧ ∀ x, x ∈ b :: l' ↔ x ∈ a :: l := by
  rcases List.mem_cons.mp hb with rfl | hb
  · exact ⟨l, hr, fun x => Iff.rfl⟩
  · obtain ⟨pre, post, rfl⟩ := List.append_of_mem hb
    refine ⟨_, hr.rotate, fun x => ?_⟩
    simp only [List.mem_cons, List.mem_append]
    tauto

/-- The links of a node of a circular list lead to nodes of it, and back. -/
theorem links (hr : h.Ring a l) (hx : x ∈ a :: l) :
    h.next x ∈ a :: l ∧ h.prev x ∈ a :: l ∧ h.prev (h.next x) = x ∧ h.next (h.prev x) = x := by
  obtain ⟨l', hr', hmem⟩ := hr.exists_rotate hx
  have hnext : h.next x ∈ x :: l' ∧ h.prev (h.next x) = x := by
    cases l' with
    | nil =>
      obtain ⟨hn, hp⟩ := hr'.seg
      rw [hn]
      exact ⟨List.mem_cons_self, hp⟩
    | cons c l' =>
      obtain ⟨⟨hn, hp⟩, -⟩ := hr'.seg
      rw [hn]
      exact ⟨by simp, hp⟩
  have hprev : h.prev x ∈ x :: l' ∧ h.next (h.prev x) = x := by
    rcases List.eq_nil_or_concat l' with rfl | ⟨init, z, rfl⟩
    · obtain ⟨hn, hp⟩ := hr'.seg
      rw [hp]
      exact ⟨List.mem_cons_self, hn⟩
    · rw [List.concat_eq_append] at hr'
      obtain ⟨hn, hp⟩ := (seg_append.mp hr'.seg).2
      rw [hp]
      exact ⟨by simp, hn⟩
  rw [← hmem, ← hmem]
  exact ⟨hnext.1, hprev.1, hnext.2, hprev.2⟩

/-- The first node after the head. -/
theorem next_head (hr : h.Ring a (c :: l)) : h.next a = c := hr.seg.1.1

/-- Two circular lists with the same head are the same. -/
theorem unique (hr : h.Ring a l) (hr' : h.Ring a l') : l = l' := by
  have hseg : ∀ (x : ν) (l l' : List ν), h.Seg x l a → h.Seg x l' a → a ∉ l → a ∉ l' → l = l' := by
    intro x l
    induction l generalizing x with
    | nil =>
      intro l' hs hs' _ ha'
      cases l' with
      | nil => rfl
      | cons c l' =>
        have hc : c = a := hs'.1.1.symm.trans hs.1
        simp [hc] at ha'
    | cons c l ih =>
      intro l' hs hs' ha ha'
      cases l' with
      | nil =>
        have hc : c = a := hs.1.1.symm.trans hs'.1
        simp [hc] at ha
      | cons c' l' =>
        have hc : c = c' := hs.1.1.symm.trans hs'.1.1
        subst hc
        rw [ih c l' hs.2 hs'.2 (fun hm => ha (List.mem_cons_of_mem _ hm))
          fun hm => ha' (List.mem_cons_of_mem _ hm)]
  exact hseg a l l' hr.seg hr'.seg (List.nodup_cons.mp hr.nodup).1 (List.nodup_cons.mp hr'.nodup).1

end Ring

/-! Insertion and removal. -/

variable [DecidableEq ν]

theorem Ring.isEmpty_iff (hr : h.Ring a l) : h.isEmpty a = true ↔ l = [] := by
  simp only [isEmpty, decide_eq_true_eq]
  cases l with
  | nil => simpa using hr.seg.1
  | cons c l =>
    have hne : c ≠ a := by
      rintro rfl
      have hnodup := hr.nodup
      simp at hnodup
    simp [hr.next_head, hne]

theorem addBetween_next (h : Heap ν) (n p q x : ν) :
    (h.addBetween n p q).next x = if x = p then n else if x = n then q else h.next x := rfl

theorem addBetween_prev (h : Heap ν) (n p q x : ν) :
    (h.addBetween n p q).prev x = if x = n then p else if x = q then n else h.prev x := rfl

theorem del_next (h : Heap ν) (n x : ν) :
    (h.del n).next x = if x = h.prev n then h.next n else h.next x := rfl

theorem del_prev (h : Heap ν) (n x : ν) :
    (h.del n).prev x = if x = h.next n then h.prev n else h.prev x := rfl

namespace Ring

/-- `list_add_tail` puts the new node at the end. -/
theorem addTail (hr : h.Ring a l) (hn : n ∉ a :: l) : (h.addTail n a).Ring a (l ++ [n]) := by
  have hlast := hr.seg.prev_eq
  have hnodup : (a :: (l ++ [n])).Nodup := by
    have hcons : a :: (l ++ [n]) = (a :: l) ++ [n] := rfl
    rw [hcons, List.nodup_append]
    refine ⟨hr.nodup, List.pairwise_singleton _ _, ?_⟩
    rintro x hx y hy rfl
    exact hn (List.mem_singleton.mp hy ▸ hx)
  refine ⟨hnodup, seg_append.mpr ⟨?_, ?_⟩⟩
  · rcases List.eq_nil_or_concat l with rfl | ⟨init, z, rfl⟩
    · have hp : h.prev a = a := hlast
      constructor
      · simp [Heap.addTail, addBetween_next, hp]
      · simp [Heap.addTail, addBetween_prev, hp]
    · rw [List.concat_eq_append] at hr hn hlast hnodup ⊢
      have hp : h.prev a = z := by
        rw [hlast]
        simp
      obtain ⟨hs, -⟩ := seg_append.mp hr.seg
      refine seg_append.mpr ⟨hs.congr ?_ ?_, ?_, ?_⟩
      · intro x hx
        have hxz : x ≠ z := by
          rintro rfl
          have hd := hr.nodup
          rw [← List.cons_append, List.nodup_append] at hd
          exact hd.2.2 x hx x (by simp) rfl
        have hxn : x ≠ n := by
          rintro rfl
          apply hn
          rw [← List.cons_append]
          exact List.mem_append_left _ hx
        rw [Heap.addTail, addBetween_next, hp, if_neg hxz, if_neg hxn]
      · intro x hx
        have hxn : x ≠ n := by
          rintro rfl
          exact hn (List.mem_cons_of_mem _ hx)
        have hxa : x ≠ a := by
          rintro rfl
          exact (List.nodup_cons.mp hr.nodup).1 hx
        rw [Heap.addTail, addBetween_prev, if_neg hxn, if_neg hxa]
      · simp [Heap.addTail, addBetween_next, hp]
      · simp [Heap.addTail, addBetween_prev, hp]
  · have hna : n ≠ a := by
      rintro rfl
      exact hn List.mem_cons_self
    have hnp : n ≠ h.prev a := by
      rw [hlast]
      intro he
      exact hn (he ▸ List.getLast_mem _)
    constructor
    · rw [Heap.addTail, addBetween_next, if_neg hnp, if_pos rfl]
    · rw [Heap.addTail, addBetween_prev, if_neg hna.symm, if_pos rfl]

/-- Insertion in one circular list leaves a disjoint one alone. -/
theorem addTail_other (hr : h.Ring a l) (hb : h.Ring b l') (hd : ∀ x ∈ a :: l, x ∉ b :: l')
    (hn : n ∉ a :: l) : (h.addTail n b).Ring a l := by
  have hp := (hb.links List.mem_cons_self).2.1
  apply hr.congr
  · intro x hx
    have hxp : x ≠ h.prev b := by
      rintro rfl
      exact hd _ hx hp
    have hxn : x ≠ n := by
      rintro rfl
      exact hn hx
    rw [Heap.addTail, addBetween_next, if_neg hxp, if_neg hxn]
  · intro x hx
    have hxb : x ≠ b := by
      rintro rfl
      exact hd _ hx List.mem_cons_self
    have hxn : x ≠ n := by
      rintro rfl
      exact hn hx
    rw [Heap.addTail, addBetween_prev, if_neg hxn, if_neg hxb]

/-- A segment without one of its nodes. -/
theorem seg_del (hs : h.Seg a l n) (hs' : h.Seg n l' b) (hd : (a :: (l ++ n :: l')).Nodup)
    (hb : b ∉ l ++ n :: l') : (h.del n).Seg a (l ++ l') b := by
  induction l generalizing a with
  | nil =>
    have hp : h.prev n = a := hs.2
    obtain ⟨ha, hd⟩ := List.nodup_cons.mp hd
    cases l' with
    | nil =>
      have hq : h.next n = b := hs'.1
      constructor
      · rw [del_next, if_pos hp.symm, hq]
      · rw [del_prev, if_pos hq.symm, hp]
    | cons c l' =>
      have hq : h.next n = c := hs'.1.1
      refine ⟨⟨by rw [del_next, if_pos hp.symm, hq], by rw [del_prev, if_pos hq.symm, hp]⟩, ?_⟩
      refine hs'.2.congr ?_ ?_
      · intro x hx
        have hxa : x ≠ h.prev n := by
          rintro rfl
          exact ha (by rw [← hp]; exact List.mem_cons_of_mem _ hx)
        rw [del_next, if_neg hxa]
      · intro x hx
        have hxc : x ≠ h.next n := by
          rintro rfl
          rw [hq, List.mem_append, List.mem_singleton] at hx
          rcases hx with hx | hx
          · exact (List.nodup_cons.mp (List.nodup_cons.mp hd).2).1 hx
          · exact hb (by simp [← hx])
        rw [del_prev, if_neg hxc]
  | cons d l ih =>
    obtain ⟨⟨hn, hp⟩, hs⟩ := hs
    obtain ⟨ha, hd⟩ := List.nodup_cons.mp hd
    have hap : a ≠ h.prev n := by
      rw [hs.prev_eq]
      intro he
      have hm : a ∈ d :: l := he ▸ List.getLast_mem _
      exact ha (by rw [List.cons_append] at *; exact (List.mem_append_left (n :: l') hm))
    have hdq : d ≠ h.next n := by
      have hq : h.next n ∈ l' ++ [b] := by
        cases l' with
        | nil => exact hs'.1 ▸ List.mem_singleton_self _
        | cons c l' => exact hs'.1.1 ▸ List.mem_cons_self
      rintro rfl
      rw [List.mem_append, List.mem_singleton] at hq
      rcases hq with hq | hq
      · exact (List.nodup_cons.mp hd).1 (List.mem_append_right _ (List.mem_cons_of_mem _ hq))
      · exact hb (by simp [← hq])
    refine ⟨⟨by rw [del_next, if_neg hap, hn], by rw [del_prev, if_neg hdq, hp]⟩, ih hs hd ?_⟩
    intro hm
    exact hb (List.mem_cons_of_mem _ hm)

/-- `list_del` takes the node out and keeps the order of the others. -/
theorem del (hr : h.Ring a (l ++ n :: l')) : (h.del n).Ring a (l ++ l') := by
  obtain ⟨hs, hs'⟩ := seg_append.mp hr.seg
  refine ⟨?_, seg_del hs hs' hr.nodup (List.nodup_cons.mp hr.nodup).1⟩
  have hsub : List.Sublist (a :: (l ++ l')) (a :: (l ++ n :: l')) :=
    ((List.Sublist.refl l).append (List.sublist_cons_self n l')).cons_cons a
  exact hr.nodup.sublist hsub

theorem del_other (hr : h.Ring a l) (hb : h.Ring b l') (hd : ∀ x ∈ a :: l, x ∉ b :: l')
    (hn : n ∈ b :: l') : (h.del n).Ring a l := by
  obtain ⟨hnext, hprev, -⟩ := hb.links hn
  apply hr.congr
  · intro x hx
    have hxp : x ≠ h.prev n := by
      rintro rfl
      exact hd _ hx hprev
    rw [del_next, if_neg hxp]
  · intro x hx
    have hxn : x ≠ h.next n := by
      rintro rfl
      exact hd _ hx hnext
    rw [del_prev, if_neg hxn]

/-- `INIT_LIST_HEAD` makes an empty circular list. -/
theorem init (h : Heap ν) (n : ν) : (h.init n).Ring n [] :=
  ⟨List.pairwise_singleton _ _, by simp [Heap.Seg, init_next, init_prev]⟩

theorem init_other (hr : h.Ring a l) (hn : n ∉ a :: l) : (h.init n).Ring a l := by
  apply hr.congr
  all_goals
    intro x hx
    have hxn : x ≠ n := by
      rintro rfl
      exact hn hx
    simp [init_next, init_prev, hxn]

end Ring

end Heap

end Links
