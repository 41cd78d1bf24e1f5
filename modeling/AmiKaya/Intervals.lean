import Mathlib.Algebra.Ring.Nat
import Mathlib.Algebra.BigOperators.Group.List.Basic
import Mathlib.Tactic.Common

/-! Intervals of time with an owner, packed one after the other between two moments. A list of them
has the latest first. -/
namespace Intervals

/-- From `start` to `stop` something belonged to `owner`. -/
structure Stretch (α : Type) where
  owner : α
  start : Nat
  stop : Nat

variable {α : Type}

def Stretch.length (i : Stretch α) : Nat := i.stop - i.start

/-- The intervals follow each other between `b` and `e`. -/
inductive Packed (b : Nat) : List (Stretch α) → Nat → Prop
  | nil {e} : b ≤ e → Packed b [] e
  | cons {i l e} : Packed b l i.start → i.start ≤ i.stop → i.stop ≤ e → Packed b (i :: l) e

variable {i : Stretch α} {l l' : List (Stretch α)} {b e e' : Nat} {a : α}

def total (l : List (Stretch α)) : Nat := (l.map Stretch.length).sum

/-- Where the latest of them stops. -/
def last (b : Nat) : List (Stretch α) → Nat
  | [] => b
  | i :: _ => i.stop

theorem total_cons : total (i :: l) = i.length + total l := by simp [total]

namespace Packed

theorem mono (h : Packed b l e) (he : e ≤ e') : Packed b l e' := by
  cases h with
  | nil hb => exact .nil (Nat.le_trans hb he)
  | cons hl hi hs => exact .cons hl hi (Nat.le_trans hs he)

theorem le (h : Packed b l e) : b ≤ e := by
  induction h with
  | nil hb => exact hb
  | cons _ hi hs ih => omega

/-- They take no more time than there is. -/
theorem total_le (h : Packed b l e) : total l + b ≤ e := by
  induction h with
  | nil hb => simpa [total] using hb
  | cons _ hi hs ih =>
    rw [total_cons, Stretch.length]
    omega

theorem last_le (h : Packed b l e) : Packed b l (last b l) ∧ last b l ≤ e := by
  cases h with
  | nil hb => exact ⟨.nil (Nat.le_refl b), hb⟩
  | @cons i _ _ hl hi hs => exact ⟨.cons hl hi (Nat.le_refl i.stop), hs⟩

theorem stop_le (h : Packed b l e) : ∀ i ∈ l, i.stop ≤ e := by
  induction h with
  | nil => simp
  | cons _ hi hs ih =>
    intro j hj
    rcases List.mem_cons.mp hj with rfl | hj
    · exact hs
    · have hstop := ih j hj
      omega

/-- Two of them never overlap. -/
theorem pairwise (h : Packed b l e) : l.Pairwise fun i j => j.stop ≤ i.start := by
  induction h with
  | nil => exact .nil
  | cons hl _ _ ih => exact .cons hl.stop_le ih

end Packed

section

variable [DecidableEq α]

/-- What belonged to `a`, added up. -/
def spent (a : α) (l : List (Stretch α)) : Nat := total (l.filter fun i => i.owner = a)

theorem spent_nil : spent a ([] : List (Stretch α)) = 0 := rfl

theorem spent_cons : spent a (i :: l) = (if i.owner = a then i.length else 0) + spent a l := by
  by_cases h : i.owner = a
  · simp [spent, h, total_cons]
  · simp [spent, h]

/-- Somebody who owns none of the intervals has spent nothing. -/
theorem spent_eq_zero (h : ∀ i ∈ l, i.owner ≠ a) : spent a l = 0 := by
  have hnone : (l.filter fun i => i.owner = a) = [] := by
    apply List.filter_eq_nil_iff.mpr
    intro i hi
    simpa using h i hi
  rw [spent, hnone]
  rfl

theorem spent_append : spent a (l ++ l') = spent a l + spent a l' := by
  simp [spent, total]

/-- Later intervals only add to it. -/
theorem spent_suffix (h : l <:+ l') : spent a l ≤ spent a l' := by
  obtain ⟨l₀, rfl⟩ := h
  rw [spent_append]
  omega

/-- An interval counts for at most one of several owners. -/
theorem sum_owner_le {as : List α} (hn : as.Nodup) (o : α) (n : Nat) :
    (as.map fun a => if o = a then n else 0).sum ≤ n := by
  induction as with
  | nil => simp
  | cons a as ih =>
    obtain ⟨ha, hn⟩ := List.nodup_cons.mp hn
    have hle := ih hn
    by_cases h : o = a
    · subst h
      have hzero : (as.map fun a => if o = a then n else 0).sum = 0 := by
        apply List.sum_eq_zero
        intro x hx
        obtain ⟨c, hc, rfl⟩ := List.mem_map.mp hx
        have hne : o ≠ c := fun he => ha (he ▸ hc)
        simp [hne]
      simp [hzero]
    · simpa [h] using hle

/-- Different owners together have spent no more than the total. -/
theorem sum_spent_le {as : List α} (hn : as.Nodup) : (as.map fun a => spent a l).sum ≤ total l := by
  induction l with
  | nil => simp [spent_nil, total]
  | cons i l ih =>
    have hhead := sum_owner_le hn i.owner i.length
    simp only [spent_cons, List.sum_map_add, total_cons]
    omega

/-- Different owners together have spent no more than the time between the two moments. -/
theorem Packed.sum_spent_le {as : List α} (h : Packed b l e) (hn : as.Nodup) :
    (as.map fun a => spent a l).sum + b ≤ e := by
  have hsum := Intervals.sum_spent_le (l := l) hn
  have htotal := h.total_le
  omega

end

end Intervals
