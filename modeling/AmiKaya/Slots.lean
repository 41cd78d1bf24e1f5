import AmiKaya.Links
import Mathlib.Data.List.Nodup
import Mathlib.Data.List.GetD

/-! Arrays of slots, where one value stands for an empty slot: which values they hold. -/
namespace Slots
open Links

variable {α : Type} {n i : Nat} {z x y : α} {a : Nat → α}

/-- One of the first `n` slots holds `x`. -/
def Holds (n : Nat) (a : Nat → α) (x : α) : Prop := ∃ i < n, a i = x

/-- No value is in two of the first `n` slots, the empty one apart. -/
def Distinct (n : Nat) (z : α) (a : Nat → α) : Prop :=
  ∀ i < n, ∀ j < n, a i = a j → a i ≠ z → i = j

theorem Distinct.empty (h : ∀ i < n, a i = z) : Distinct n z a := by
  intro i hi j _ _ hne
  exact absurd (h i hi) hne

/-- A value that was in no slot goes in one of them. -/
theorem Distinct.put (h : Distinct n z a) (hx : x ≠ z → ¬ Holds n a x) :
    Distinct n z (put a i x) := by
  intro j hj k hk he hne
  by_cases hji : j = i
  · by_cases hki : k = i
    · rw [hji, hki]
    · subst hji
      rw [put_same] at hne he
      rw [put_ne hki] at he
      exact absurd ⟨k, hk, he.symm⟩ (hx hne)
  · rw [put_ne hji] at he hne
    by_cases hki : k = i
    · subst hki
      rw [put_same] at he
      exact absurd ⟨j, hj, he⟩ (hx (he ▸ hne))
    · rw [put_ne hki] at he
      exact h j hj k hk he hne

/-- Filling an empty slot adds its value. -/
theorem holds_fill (hi : i < n) (hz : a i = z) (hy : y ≠ z) :
    Holds n (put a i x) y ↔ y = x ∨ Holds n a y := by
  constructor
  · rintro ⟨j, hj, he⟩
    by_cases hji : j = i
    · subst hji
      rw [put_same] at he
      exact .inl he.symm
    · rw [put_ne hji] at he
      exact .inr ⟨j, hj, he⟩
  · rintro (rfl | ⟨j, hj, he⟩)
    · exact ⟨i, hi, put_same⟩
    · have hji : j ≠ i := by
        rintro rfl
        exact hy (he.symm.trans hz)
      exact ⟨j, hj, by rw [put_ne hji, he]⟩

/-- Emptying the only slot of a value removes it. -/
theorem holds_clear (h : Distinct n z a) (hi : i < n) (hx : a i = x) (hxz : x ≠ z) (hy : y ≠ z) :
    Holds n (put a i z) y ↔ y ≠ x ∧ Holds n a y := by
  constructor
  · rintro ⟨j, hj, he⟩
    have hji : j ≠ i := by
      rintro rfl
      rw [put_same] at he
      exact hy he.symm
    rw [put_ne hji] at he
    refine ⟨fun hyx => hji ?_, j, hj, he⟩
    exact (h i hi j hj (by rw [hx, he, hyx]) (hx ▸ hxz)).symm
  · rintro ⟨hyx, j, hj, he⟩
    have hji : j ≠ i := by
      rintro rfl
      exact hyx (he.symm.trans hx)
    exact ⟨j, hj, by rw [put_ne hji, he]⟩

/-- When no slot is empty, the array holds as many values as it has slots. -/
theorem Distinct.nodup (h : Distinct n z a) (hfull : ∀ i < n, a i ≠ z) :
    ((List.range n).map a).Nodup := by
  refine List.Nodup.map_on ?_ List.nodup_range
  intro i hi j hj he
  exact h i (List.mem_range.mp hi) j (List.mem_range.mp hj) he (hfull i (List.mem_range.mp hi))

/-! A queue kept in the slots: first in at the first empty slot, first out at the front. -/

/-- From slot `i` on the array holds the values `w`, then empty slots only; all of `w` is among the
first `n` slots. -/
structure Queue (n : Nat) (z : α) (a : Nat → α) (i : Nat) (w : List α) : Prop where
  before : ∀ j < i, a j = z
  after : ∀ j, a (i + j) = w.getD j z
  full : z ∉ w
  fits : i + w.length ≤ n

namespace Queue

variable {w : List α}

theorem empty (h : ∀ j, a j = z) : Queue n z a 0 [] :=
  ⟨by simp, by simp [h], by simp, by simp⟩

theorem head (h : Queue n z a i (x :: w)) : a i = x ∧ x ≠ z ∧ i < n := by
  have ha := h.after 0
  have hn := h.full
  have hf := h.fits
  simp only [List.mem_cons, not_or, List.length_cons] at hn hf
  exact ⟨by simpa using ha, fun he => hn.1 he.symm, by omega⟩

/-- The scan has come to the end of the queue. -/
theorem eq_nil (h : Queue n z a i w) (hs : ¬ (i < n ∧ a i ≠ z)) : w = [] := by
  cases w with
  | nil => rfl
  | cons x w =>
    obtain ⟨hx, hz, hi⟩ := h.head
    exact absurd ⟨hi, hx ▸ hz⟩ hs

theorem pop (h : Queue n z a i (x :: w)) : Queue n z (put a i z) (i + 1) w := by
  constructor
  · intro j hj
    by_cases hji : j = i
    · subst hji
      simp
    · rw [put_ne hji]
      exact h.before j (by omega)
  · intro j
    have hne : i + 1 + j ≠ i := by omega
    have ha := h.after (j + 1)
    rw [put_ne hne, Nat.add_assoc, Nat.add_comm 1 j, ha, List.getD_cons_succ]
  · intro hm
    exact h.full (List.mem_cons_of_mem _ hm)
  · have hf := h.fits
    rw [List.length_cons] at hf
    omega

/-- An empty queue can start again from the first slot. -/
theorem reset (h : Queue n z a i []) : ∀ j, a j = z := by
  intro j
  by_cases hj : j < i
  · exact h.before j hj
  · have ha := h.after (j - i)
    rwa [show i + (j - i) = j by omega, List.getD_nil] at ha

theorem getD_ne (h : Queue n z a 0 w) (hi : i < w.length) : a i ≠ z := by
  have ha := h.after i
  rw [Nat.zero_add, List.getD_eq_getElem _ _ hi] at ha
  intro hz
  exact h.full (hz ▸ ha ▸ List.getElem_mem hi)

theorem push [DecidableEq α] (h : Queue n z a 0 w) (hx : x ≠ z) (hlen : w.length < n) :
    (List.range n).find? (fun j => a j = z) = some w.length ∧
      Queue n z (put a w.length x) 0 (w ++ [x]) := by
  have hend : a w.length = z := by
    have ha := h.after w.length
    rwa [Nat.zero_add, List.getD_eq_default _ _ (Nat.le_refl _)] at ha
  constructor
  · rw [List.find?_range_eq_some]
    refine ⟨by simp [hend], List.mem_range.mpr hlen, fun j hj => ?_⟩
    simp [h.getD_ne hj]
  · constructor
    · simp
    · intro j
      rw [Nat.zero_add]
      have ha := h.after j
      rw [Nat.zero_add] at ha
      rcases Nat.lt_trichotomy j w.length with hj | rfl | hj
      · rw [put_ne (by omega), ha, List.getD_append _ _ _ _ hj]
      · simp
      · rw [put_ne (by omega), ha, List.getD_eq_default _ _ (by omega),
          List.getD_eq_default _ _ (by simp; omega)]
    · simp [h.full, Ne.symm hx]
    · simp only [List.length_append, List.length_singleton]
      omega

/-- A free slot among the first `n` is one past the end of the queue. -/
theorem length_lt (h : Queue n z a 0 w) (hz : ∃ j < n, a j = z) : w.length < n := by
  obtain ⟨j, hj, he⟩ := hz
  by_contra hn
  exact h.getD_ne (i := j) (by omega) he

end Queue

end Slots
