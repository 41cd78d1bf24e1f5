import AmiKaya.RingFamily

/-! Which links an operation on lists does not touch: those outside the list it is about, or outside
a set of nodes that its links do not lead out of. -/
namespace Links

variable {ν : Type}

namespace Heap

/-- The links of the node are the same in both heaps. -/
def SameAt (h h' : Heap ν) (x : ν) : Prop := h'.next x = h.next x ∧ h'.prev x = h.prev x

/-- The links of the nodes of `T` lead to nodes of `T`. -/
def Closed (h : Heap ν) (T : ν → Prop) : Prop := ∀ x, T x → T (h.next x) ∧ T (h.prev x)

variable {h h' h'' l l' : Heap ν} {a n x : ν} {T T' : ν → Prop} {q : List ν}

theorem SameAt.refl (h : Heap ν) (x : ν) : h.SameAt h x := ⟨rfl, rfl⟩

theorem SameAt.trans (hs : h.SameAt h' x) (hs' : h'.SameAt h'' x) : h.SameAt h'' x :=
  ⟨hs'.1.trans hs.1, hs'.2.trans hs.2⟩

/-- A circular list whose nodes keep their links is still there. -/
theorem Ring.same_at (hr : h.Ring a q) (hs : ∀ x ∈ a :: q, h.SameAt h' x) : h'.Ring a q :=
  hr.congr (fun x hx => (hs x hx).1) fun x hx => (hs x hx).2

theorem Closed.congr (hc : h.Closed T) (ht : ∀ x, T' x ↔ T x) : h.Closed T' := by
  intro x hx
  rw [ht, ht]
  exact hc x ((ht x).mp hx)

variable [DecidableEq ν]

/-! Outside the circular list that it changes. -/

theorem init_same (hx : x ≠ n) : h.SameAt (h.init n) x := by
  constructor <;> simp [init_next, init_prev, hx]

theorem Ring.addTail_same (hr : h.Ring a q) (hx : x ∉ a :: q) (hn : x ≠ n) :
    h.SameAt (h.addTail n a) x := by
  have hp := (hr.links List.mem_cons_self).2.1
  have hxa : x ≠ a := fun he => hx (he ▸ List.mem_cons_self)
  have hxp : x ≠ h.prev a := fun he => hx (he ▸ hp)
  constructor
  · rw [Heap.addTail, addBetween_next, if_neg hxp, if_neg hn]
  · rw [Heap.addTail, addBetween_prev, if_neg hn, if_neg hxa]

theorem Ring.add_same (hr : h.Ring a q) (hx : x ∉ a :: q) (hn : x ≠ n) :
    h.SameAt (h.add n a) x := by
  have hp := (hr.links List.mem_cons_self).1
  have hxa : x ≠ a := fun he => hx (he ▸ List.mem_cons_self)
  have hxp : x ≠ h.next a := fun he => hx (he ▸ hp)
  constructor
  · rw [Heap.add, addBetween_next, if_neg hxa, if_neg hn]
  · rw [Heap.add, addBetween_prev, if_neg hn, if_neg hxp]

theorem Ring.del_same (hr : h.Ring a q) (hn : n ∈ a :: q) (hx : x ∉ a :: q) :
    h.SameAt (h.del n) x := by
  obtain ⟨hnext, hprev, -⟩ := hr.links hn
  have hxn : x ≠ h.next n := fun he => hx (he ▸ hnext)
  have hxp : x ≠ h.prev n := fun he => hx (he ▸ hprev)
  constructor
  · rw [del_next, if_neg hxp]
  · rw [del_prev, if_neg hxn]

/-! Outside a closed set of nodes, and inside it. -/

theorem Closed.init (hc : h.Closed T) : (h.init n).Closed fun x => T x ∨ x = n := by
  intro x hx
  simp only [init_next, init_prev]
  by_cases he : x = n
  · simp [he]
  · simp only [he, or_false] at hx
    simp [he, hc x hx]

theorem Closed.addTail (hc : h.Closed T) (hn : T n) (ha : T a) : (h.addTail n a).Closed T := by
  intro x hx
  rw [Heap.addTail, addBetween_next, addBetween_prev]
  constructor
  · split
    · exact hn
    · split
      · exact ha
      · exact (hc x hx).1
  · split
    · exact (hc a ha).2
    · split
      · exact hn
      · exact (hc x hx).2

theorem Closed.del (hc : h.Closed T) (hn : T n) : (h.del n).Closed T := by
  intro x hx
  rw [del_next, del_prev]
  constructor
  · split
    · exact (hc n hn).1
    · exact (hc x hx).1
  · split
    · exact (hc n hn).2
    · exact (hc x hx).2

theorem Closed.addTail_same (hc : h.Closed T) (hn : T n) (ha : T a) (hx : ¬ T x) :
    h.SameAt (h.addTail n a) x := by
  have hxn : x ≠ n := fun he => hx (he ▸ hn)
  have hxa : x ≠ a := fun he => hx (he ▸ ha)
  have hxp : x ≠ h.prev a := fun he => hx (he ▸ (hc a ha).2)
  constructor
  · rw [Heap.addTail, addBetween_next, if_neg hxp, if_neg hxn]
  · rw [Heap.addTail, addBetween_prev, if_neg hxn, if_neg hxa]

theorem Closed.del_same (hc : h.Closed T) (hn : T n) (hx : ¬ T x) : h.SameAt (h.del n) x := by
  have hxn : x ≠ h.next n := fun he => hx (he ▸ (hc n hn).1)
  have hxp : x ≠ h.prev n := fun he => hx (he ▸ (hc n hn).2)
  constructor
  · rw [del_next, if_neg hxp]
  · rw [del_prev, if_neg hxn]

/-! Heaps that agree on the nodes of a set agree on them after the same operation. -/

theorem init_self : (h.init n).SameAt (l.init n) n := by
  constructor <;> simp [init_next, init_prev]

theorem SameAt.init (hs : h.SameAt l x) : (h.init n).SameAt (l.init n) x := by
  constructor <;> simp only [init_next, init_prev, hs.1, hs.2]

theorem SameAt.addTail (ha : h.SameAt l a) (hs : h.SameAt l x) :
    (h.addTail n a).SameAt (l.addTail n a) x := by
  constructor
  · simp only [Heap.addTail, addBetween_next, ha.2, hs.1]
  · simp only [Heap.addTail, addBetween_prev, ha.2, hs.2]

theorem SameAt.del (hn : h.SameAt l n) (hs : h.SameAt l x) : (h.del n).SameAt (l.del n) x := by
  constructor
  · simp only [del_next, hn.1, hn.2, hs.1]
  · simp only [del_prev, hn.1, hn.2, hs.2]

end Heap

/-- Fewer lists of the same heap. -/
theorem Rings.sub {h : Heap ν} {q q' : ν → Option (List ν)} (hq : Rings h q)
    (hs : ∀ a l, q' a = some l → q a = some l) : Rings h q' :=
  ⟨fun ha => hq.ring (hs _ _ ha), fun ha hb => hq.apart (hs _ _ ha) (hs _ _ hb)⟩

end Links
