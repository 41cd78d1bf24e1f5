import AmiKaya.Rings

/-! Several circular lists in one heap, and the search through one of them. -/
namespace Links

variable {ν : Type}

/-- Where the links of two heaps form the same segment, they are the same. -/
theorem Heap.Seg.same {h h' : Heap ν} {a b : ν} {l : List ν} (hs : h.Seg a l b)
    (hs' : h'.Seg a l b) :
    (∀ x ∈ a :: l, h'.next x = h.next x) ∧ ∀ x ∈ l ++ [b], h'.prev x = h.prev x := by
  induction l generalizing a with
  | nil => simp [hs.1, hs.2, hs'.1, hs'.2]
  | cons c l ih =>
    obtain ⟨⟨hn, hp⟩, hs⟩ := hs
    obtain ⟨⟨hn', hp'⟩, hs'⟩ := hs'
    obtain ⟨hnext, hprev⟩ := ih hs hs'
    constructor
    · rintro x hx
      rcases List.mem_cons.mp hx with rfl | hx
      · rw [hn, hn']
      · exact hnext x hx
    · rintro x hx
      rcases List.mem_cons.mp hx with rfl | hx
      · rw [hp, hp']
      · exact hprev x hx

/-- The links of a circular list are those its nodes demand. -/
theorem Heap.Ring.same {h h' : Heap ν} {a x : ν} {l : List ν} (hr : h.Ring a l) (hr' : h'.Ring a l)
    (hx : x ∈ a :: l) : h'.next x = h.next x ∧ h'.prev x = h.prev x := by
  obtain ⟨hnext, hprev⟩ := hr.seg.same hr'.seg
  refine ⟨hnext x hx, hprev x ?_⟩
  rcases List.mem_cons.mp hx with rfl | hx
  · simp
  · exact List.mem_append_left _ hx

/-- The circular lists of a heap: for each of their heads the nodes after it. No two lists share a
node. -/
structure Rings (h : Heap ν) (q : ν → Option (List ν)) : Prop where
  ring : ∀ {a l}, q a = some l → h.Ring a l
  apart : ∀ {a l b l'}, q a = some l → q b = some l' → a ≠ b → ∀ x ∈ a :: l, x ∉ b :: l'

/-- The node is in no list. -/
def Loose (q : ν → Option (List ν)) (n : ν) : Prop := ∀ a l, q a = some l → n ∉ a :: l

/-- A heap in which no head is known. -/
theorem Rings.none (h : Heap ν) : Rings h fun _ => none :=
  ⟨fun ha => (Option.some_ne_none _ ha.symm).elim, fun ha => (Option.some_ne_none _ ha.symm).elim⟩

variable [DecidableEq ν]

/-- `list_for_each_entry`, up to the first node that passes the test. -/
def Heap.forEach (h : Heap ν) (head : ν) (stop : ν → Bool) : Nat → ν → Option (Option ν)
  | 0, _ => none
  | n + 1, pos =>
    if pos = head then some none
    else if stop pos then some (some pos)
    else h.forEach head stop n (h.next pos)

namespace Heap

variable {h h' : Heap ν} {a b c n x : ν} {l l' : List ν} {stop : ν → Bool} {fuel : Nat}

/-- A search that starts behind `a` goes through the segment and stops at its end. -/
theorem Seg.forEach (hs : h.Seg a l b) (hb : b ∉ l) (hf : l.length < fuel) :
    h.forEach b stop fuel (h.next a) = some (l.find? stop) := by
  induction l generalizing a fuel with
  | nil =>
    obtain ⟨fuel, rfl⟩ := Nat.exists_eq_succ_of_ne_zero (Nat.ne_of_gt hf)
    rw [hs.1]
    simp [Heap.forEach]
  | cons c l ih =>
    obtain ⟨fuel, rfl⟩ := Nat.exists_eq_succ_of_ne_zero (Nat.ne_zero_of_lt hf)
    obtain ⟨⟨hn, -⟩, hs⟩ := hs
    have hcb : c ≠ b := fun he => hb (he ▸ List.mem_cons_self)
    have hrest := ih hs (fun hm => hb (List.mem_cons_of_mem _ hm)) (Nat.lt_of_succ_lt_succ hf)
    rw [hn]
    cases hc : stop c with
    | true => simp [Heap.forEach, hcb, hc]
    | false => simp [Heap.forEach, hcb, hc, hrest]

namespace Ring

theorem forEach (hr : h.Ring a l) (hf : l.length < fuel) :
    h.forEach a stop fuel (h.next a) = some (l.find? stop) :=
  hr.seg.forEach (List.nodup_cons.mp hr.nodup).1 hf

/-- To insert behind the head is to insert before its successor. -/
theorem add_eq (hr : h.Ring a l) : h.add n a = h.addTail n (h.next a) := by
  rw [Heap.add, Heap.addTail, (hr.links List.mem_cons_self).2.2.1]

/-- `list_add` puts the new node first. -/
theorem add (hr : h.Ring a l) (hn : n ∉ a :: l) : (h.add n a).Ring a (n :: l) := by
  rw [hr.add_eq]
  cases l with
  | nil =>
    have ha : h.next a = a := hr.seg.1
    rw [ha]
    exact hr.addTail hn
  | cons c l =>
    rw [hr.next_head]
    have hc : h.Ring c (l ++ [a]) := Ring.rotate (l := []) hr
    have hnc : n ∉ c :: (l ++ [a]) := by
      intro hm
      apply hn
      simp only [List.mem_cons, List.mem_append, List.not_mem_nil, or_false] at hm ⊢
      tauto
    have hback := hc.addTail hnc
    rw [List.append_assoc] at hback
    exact hback.rotate

theorem add_other (hr : h.Ring a l) (hb : h.Ring b l') (hd : ∀ x ∈ a :: l, x ∉ b :: l')
    (hn : n ∉ a :: l) : (h.add n b).Ring a l := by
  rw [hb.add_eq]
  obtain ⟨l'', hc, hmem⟩ := hb.exists_rotate (hb.links List.mem_cons_self).1
  refine hr.addTail_other hc ?_ hn
  intro x hx hm
  exact hd x hx ((hmem x).mp hm)

end Ring

end Heap

theorem Loose.put {q : ν → Option (List ν)} {a n : ν} {l : List ν} (hn : Loose q n)
    (hl : n ∉ a :: l) : Loose (put q a (some l)) n := by
  intro b m hb
  by_cases hba : b = a
  · rw [hba, put_same] at hb
    cases hb
    exact hba ▸ hl
  · rw [put_ne hba] at hb
    exact hn b m hb

namespace Rings

variable {h : Heap ν} {q : ν → Option (List ν)} {a b n : ν} {l l' : List ν}

/-- One list has changed and kept away from the others, which are as they were. -/
theorem set {h' : Heap ν} (hq : Rings h q) (hr : h'.Ring a l')
    (ho : ∀ b m, b ≠ a → q b = some m → h'.Ring b m)
    (hd : ∀ b m, b ≠ a → q b = some m → ∀ x ∈ a :: l', x ∉ b :: m) :
    Rings h' (put q a (some l')) := by
  constructor
  case ring =>
    intro b m hb
    by_cases hba : b = a
    · subst hba
      rw [put_same] at hb
      cases hb
      exact hr
    · rw [put_ne hba] at hb
      exact ho b m hba hb
  case apart =>
    intro b m c m' hb hc hne x hx hx'
    by_cases hba : b = a
    · subst hba
      rw [put_same] at hb
      rw [put_ne hne.symm] at hc
      cases hb
      exact hd c m' hne.symm hc x hx hx'
    · rw [put_ne hba] at hb
      by_cases hca : c = a
      · subst hca
        rw [put_same] at hc
        cases hc
        exact hd b m hba hb x hx' hx
      · rw [put_ne hca] at hc
        exact hq.apart hb hc hne x hx hx'

theorem addTail (hq : Rings h q) (ha : q a = some l) (hn : Loose q n) :
    Rings (h.addTail n a) (put q a (some (l ++ [n]))) := by
  refine hq.set ((hq.ring ha).addTail (hn a l ha)) ?_ ?_
  · intro b m hba hb
    exact (hq.ring hb).addTail_other (hq.ring ha) (hq.apart hb ha hba) (hn b m hb)
  · intro b m hba hb x hx
    rw [← List.cons_append, List.mem_append, List.mem_singleton] at hx
    rcases hx with hx | rfl
    · exact hq.apart ha hb hba.symm x hx
    · exact hn b m hb

theorem add (hq : Rings h q) (ha : q a = some l) (hn : Loose q n) :
    Rings (h.add n a) (put q a (some (n :: l))) := by
  refine hq.set ((hq.ring ha).add (hn a l ha)) ?_ ?_
  · intro b m hba hb
    exact (hq.ring hb).add_other (hq.ring ha) (hq.apart hb ha hba) (hn b m hb)
  · intro b m hba hb x hx
    rcases List.mem_cons.mp hx with rfl | hx
    · exact hq.apart ha hb hba.symm x List.mem_cons_self
    · rcases List.mem_cons.mp hx with rfl | hx
      · exact hn b m hb
      · exact hq.apart ha hb hba.symm x (List.mem_cons_of_mem _ hx)

theorem del (hq : Rings h q) (ha : q a = some (l ++ n :: l')) :
    Rings (h.del n) (put q a (some (l ++ l'))) := by
  have hmem : n ∈ a :: (l ++ n :: l') := by simp
  refine hq.set (hq.ring ha).del ?_ ?_
  · intro b m hba hb
    exact (hq.ring hb).del_other (hq.ring ha) (hq.apart hb ha hba) hmem
  · intro b m hba hb x hx
    refine hq.apart ha hb hba.symm x ?_
    simp only [List.mem_cons, List.mem_append] at hx ⊢
    tauto

/-- A head can be initialised at any time, a node that is linked in a list cannot. -/
theorem init (hq : Rings h q) (hn : ∀ b m, q b = some m → n ∉ m) :
    Rings (h.init n) (put q n (some [])) := by
  have hout : ∀ b m, b ≠ n → q b = some m → n ∉ b :: m := by
    intro b m hbn hb hx
    rcases List.mem_cons.mp hx with rfl | hx
    · exact hbn rfl
    · exact hn b m hb hx
  refine hq.set (Heap.Ring.init h n) ?_ ?_
  · intro b m hbn hb
    exact (hq.ring hb).init_other (hout b m hbn hb)
  · intro b m hbn hb x hx
    rw [List.mem_singleton] at hx
    exact hx ▸ hout b m hbn hb

end Rings

end Links
