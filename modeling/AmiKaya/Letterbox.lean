import Mathlib.Data.List.Basic
import Mathlib.Tactic.Common

/-! Letterboxes with selective receipt. An urgent letter goes in front of the others, any other
behind them, and a reader takes the first letter it accepts, or waits for one. -/
namespace Letterbox

/-- What lies in the box, what its owner waits for, all that was ever posted, and what was taken. -/
structure Box (ρ α : Type) where
  letters : List α
  wanted : Option ρ
  posted : List α
  taken : List α

namespace Box

variable {ρ α : Type}

def empty : Box ρ α := ⟨[], none, [], []⟩

section
variable (accepts : ρ → α → Bool) (urgent : α → Bool)

/-- A reader that waits takes the first letter it accepts. -/
def settle (b : Box ρ α) : Box ρ α :=
  match b.wanted with
  | none => b
  | some w =>
    match b.letters.find? (accepts w) with
    | none => b
    | some x => { b with letters := b.letters.eraseP (accepts w), wanted := none, taken := b.taken ++ [x] }

/-- The letter lies in the box. -/
def put (x : α) (b : Box ρ α) : Box ρ α :=
  { b with letters := if urgent x then x :: b.letters else b.letters ++ [x], posted := b.posted ++ [x] }

/-- Every letter goes through the box, also one that the reader has been waiting for. -/
def post (x : α) (b : Box ρ α) : Box ρ α := (b.put urgent x).settle accepts

def read (w : ρ) (b : Box ρ α) : Box ρ α := { b with wanted := some w }.settle accepts

/-- The reader gives up. -/
def cancel (b : Box ρ α) : Box ρ α := { b with wanted := none }

/-- Nobody waits for a letter that is there. -/
def Settled (b : Box ρ α) : Prop := ∀ w ∈ b.wanted, ∀ x ∈ b.letters, accepts w x = false

end

variable {accepts : ρ → α → Bool} {urgent : α → Bool} {b : Box ρ α} {w : ρ} {x : α}

theorem settle_of_none (h : b.wanted = none) : b.settle accepts = b := by
  simp [settle, h]

theorem settle_of_find (hw : b.wanted = some w) (hx : b.letters.find? (accepts w) = some x) :
    b.settle accepts =
      { b with letters := b.letters.eraseP (accepts w), wanted := none, taken := b.taken ++ [x] } := by
  simp [settle, hw, hx]

theorem settle_of_settled (h : b.Settled accepts) : b.settle accepts = b := by
  cases hw : b.wanted with
  | none => exact settle_of_none hw
  | some w =>
    have hnone : b.letters.find? (accepts w) = none :=
      List.find?_eq_none.mpr fun x hx => by simp [h w hw x hx]
    simp [settle, hw, hnone]

theorem settled_of_none (h : b.wanted = none) : b.Settled accepts := by
  intro w hw
  rw [h] at hw
  cases hw

theorem settle_settled (b : Box ρ α) : (b.settle accepts).Settled accepts := by
  cases hw : b.wanted with
  | none =>
    rw [settle_of_none hw]
    exact settled_of_none hw
  | some w =>
    cases hx : b.letters.find? (accepts w) with
    | none =>
      have hs : b.Settled accepts := by
        intro w' hw' x hm
        rw [hw] at hw'
        cases hw'
        simpa using List.find?_eq_none.mp hx x hm
      rwa [settle_of_settled hs]
    | some x =>
      rw [settle_of_find hw hx]
      exact settled_of_none rfl

theorem post_settled (x : α) (b : Box ρ α) : (b.post accepts urgent x).Settled accepts :=
  settle_settled _

theorem read_settled (w : ρ) (b : Box ρ α) : (b.read accepts w).Settled accepts := settle_settled _

/-- A letter that the reader has been waiting for may be handed over past the box. -/
theorem post_of_wanted (h : b.Settled accepts) (hw : b.wanted = some w) (hx : accepts w x = true) :
    b.post accepts urgent x =
      { b with wanted := none, posted := b.posted ++ [x], taken := b.taken ++ [x] } := by
  have hrest : ∀ y ∈ b.letters, ¬ accepts w y = true := fun y hy => by simp [h w hw y hy]
  have hput : (b.put urgent x).wanted = some w := hw
  by_cases hu : urgent x = true
  · have hletters : (b.put urgent x).letters = x :: b.letters := if_pos hu
    rw [post, settle_of_find hput (x := x) (by simp [hletters, hx]), hletters,
      List.eraseP_cons_of_pos hx]
    rfl
  · have hletters : (b.put urgent x).letters = b.letters ++ [x] := if_neg hu
    have hfind : b.letters.find? (accepts w) = none := List.find?_eq_none.mpr hrest
    rw [post, settle_of_find hput (x := x) (by simp [hletters, hx, hfind]), hletters,
      List.eraseP_append_right _ hrest, List.eraseP_cons_of_pos hx, List.append_nil]
    rfl

/-- Any other letter stays in the box. -/
theorem post_of_unwanted (h : b.Settled accepts) (hx : ∀ w ∈ b.wanted, accepts w x = false) :
    b.post accepts urgent x = b.put urgent x := by
  refine settle_of_settled ?_
  intro w hw y hy
  have hy' : y ∈ b.letters ∨ y = x := by
    simp only [put] at hy
    split at hy
    · exact (List.mem_cons.mp hy).symm
    · simpa using hy
  rcases hy' with hy' | rfl
  · exact h w hw y hy'
  · exact hx w hw

theorem read_of_none (hx : b.letters.find? (accepts w) = none) :
    b.read accepts w = { b with wanted := some w } := by
  simp [read, settle, hx]

theorem read_of_some (hx : b.letters.find? (accepts w) = some x) : b.read accepts w =
    { b with letters := b.letters.eraseP (accepts w), wanted := none, taken := b.taken ++ [x] } := by
  simp [read, settle, hx]

theorem settle_wanted (h : w ∈ (b.settle accepts).wanted) : w ∈ b.wanted := by
  cases hw : b.wanted with
  | none =>
    rw [settle_of_none hw, hw] at h
    cases h
  | some w' =>
    cases hx : b.letters.find? (accepts w') with
    | none =>
      have hs : b.settle accepts = b := by simp [settle, hw, hx]
      rwa [hs, hw] at h
    | some x =>
      rw [settle_of_find hw hx] at h
      cases h

theorem read_wanted {w' : ρ} (h : w' ∈ (b.read accepts w).wanted) : w' = w :=
  (Option.some.inj (settle_wanted h)).symm

/-! The letters of one kind keep their order, if none of them is urgent and no reader prefers one of
them to another. -/

/-- What was taken, then what is still there, is what was posted. -/
def InOrder (c : α → Bool) (b : Box ρ α) : Prop :=
  (b.taken ++ b.letters).filter c = b.posted.filter c

variable {c : α → Bool}

theorem InOrder.empty : (empty : Box ρ α).InOrder c := rfl

theorem InOrder.put (h : b.InOrder c) (hu : urgent x = true → c x = false) :
    (b.put urgent x).InOrder c := by
  unfold InOrder Box.put at *
  by_cases hux : urgent x = true
  · simp only [hux, if_true, List.filter_append, List.filter_cons, hu hux, List.filter_nil] at h ⊢
    simpa using h
  · have hux' : urgent x = false := by simpa using hux
    simp only [hux', Bool.false_eq_true, if_false, ← List.append_assoc]
    rw [List.filter_append, h, List.filter_append]

theorem InOrder.settle (h : b.InOrder c)
    (hc : ∀ w ∈ b.wanted, ∀ x y, c x = true → c y = true → accepts w x = accepts w y) :
    (b.settle accepts).InOrder c := by
  cases hw : b.wanted with
  | none => rwa [settle_of_none hw]
  | some w =>
    cases hx : b.letters.find? (accepts w) with
    | none =>
      have hs : b.settle accepts = b := by simp [Box.settle, hw, hx]
      rwa [hs]
    | some x =>
      obtain ⟨hacc, pre, post, hl, hpre⟩ := List.find?_eq_some_iff_append.mp hx
      have hpre' : ∀ y ∈ pre, ¬ accepts w y = true := fun y hy => by simpa using hpre y hy
      have herase : b.letters.eraseP (accepts w) = pre ++ post := by
        rw [hl, List.eraseP_append_right _ hpre', List.eraseP_cons_of_pos hacc]
      rw [settle_of_find hw hx, InOrder, herase, ← h, hl]
      by_cases hcx : c x = true
      · -- nothing of the kind lies before it
        have hnone : pre.filter c = [] := by
          rw [List.filter_eq_nil_iff]
          intro y hy hcy
          exact hpre' y hy ((hc w hw x y hcx hcy).symm.trans hacc)
        simp [List.filter_append, hnone, hcx]
      · simp [List.filter_append, hcx]

theorem InOrder.post (h : b.InOrder c) (hu : urgent x = true → c x = false)
    (hc : ∀ w ∈ b.wanted, ∀ x y, c x = true → c y = true → accepts w x = accepts w y) :
    (b.post accepts urgent x).InOrder c :=
  (h.put hu).settle hc

theorem InOrder.read (h : b.InOrder c)
    (hc : ∀ x y, c x = true → c y = true → accepts w x = accepts w y) :
    (b.read accepts w).InOrder c := by
  refine InOrder.settle (b := { b with wanted := some w }) h ?_
  rintro w' hw
  cases hw
  exact hc

end Box

end Letterbox
