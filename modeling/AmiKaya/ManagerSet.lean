import AmiKaya.Runs
import AmiKaya.Slots

/-! The array of trap managers against the set it stands for. -/
namespace AmiKaya
open Lts Slots

/-- `thereIsManager` scans the slots. -/
theorem Kernel.thereIsManager_ne_null {k : Kernel} {m : Ptr} :
    k.thereIsManager m ≠ null ↔ m ≠ null ∧ Holds maxThreads k.trapManagers m := by
  unfold Kernel.thereIsManager
  split
  · next hany =>
    have hholds : Holds maxThreads k.trapManagers m := by simpa [Holds] using hany
    exact ⟨fun hm => ⟨hm, hholds⟩, And.left⟩
  · next hany =>
    have hnot : ¬ Holds maxThreads k.trapManagers m := by simpa [Holds] using hany
    exact ⟨fun hn => absurd rfl hn, fun hh => absurd hh.2 hnot⟩

/-- A call on the array of trap managers that changes it. -/
inductive ManagerCall
  | add (manager : Ptr)
  | delete (manager : Ptr)
deriving DecidableEq

namespace ManagerCall

def run (k : Kernel) : ManagerCall → Kernel
  | add m => k.addManager m
  | delete m => k.deleteManager m

/-- The abstract set: `m` has been added and not been deleted since. -/
def Registered (m : Ptr) (cs : List ManagerCall) : Prop :=
  ∃ pre post, cs = pre ++ add m :: post ∧ delete m ∉ post

theorem registered_nil {m : Ptr} : ¬ Registered m [] := by
  rintro ⟨pre, post, h, -⟩
  simp at h

theorem registered_concat {m : Ptr} {cs : List ManagerCall} {c : ManagerCall} :
    Registered m (cs ++ [c]) ↔ c = add m ∨ c ≠ delete m ∧ Registered m cs := by
  constructor
  · rintro ⟨pre, post, h, hd⟩
    rcases List.eq_nil_or_concat post with rfl | ⟨init, c', rfl⟩
    · exact .inl (List.singleton_inj.mp (List.append_inj' h rfl).2)
    · rw [List.concat_eq_append] at h hd
      have hc : cs ++ [c] = (pre ++ add m :: init) ++ [c'] := by simpa using h
      obtain ⟨hcs, hcc⟩ := List.append_inj' hc rfl
      cases hcc
      refine .inr ⟨?_, pre, init, hcs, fun hm => hd (List.mem_append_left _ hm)⟩
      rintro rfl
      exact hd (by simp)
  · rintro (rfl | ⟨hne, pre, post, rfl, hd⟩)
    · exact ⟨cs, [], rfl, by simp⟩
    · exact ⟨pre, post ++ [c], by simp, by simp [hd, Ne.symm hne]⟩

/-- At most MAXTHREADS managers are present at once. -/
def Fits (cs : List ManagerCall) : Prop :=
  ∀ l : List Ptr, l.Nodup → (∀ m ∈ l, m ≠ null ∧ Registered m cs) → l.length ≤ maxThreads

/-- A manager that is present is not added while a slot before its own is free. -/
def Tidy (k : Kernel) : ManagerCall → Prop
  | add m => m ≠ null → ∀ j < maxThreads, k.trapManagers j = m → ∀ i < j, k.trapManagers i ≠ null
  | delete _ => True

/-- The array holds each registered manager once, and nothing else. -/
structure Represents (k : Kernel) (cs : List ManagerCall) : Prop where
  distinct : Distinct maxThreads null k.trapManagers
  holds : ∀ m ≠ null, Holds maxThreads k.trapManagers m ↔ Registered m cs

variable {k : Kernel} {cs : List ManagerCall} {m : Ptr}

theorem Represents.after_add (h : Represents k cs) (hm : m ≠ null) (ht : Tidy k (add m))
    (hf : Fits (cs ++ [add m])) : Represents (k.addManager m) (cs ++ [add m]) := by
  have hreg : ∀ p, Registered p (cs ++ [add m]) ↔ p = m ∨ Registered p cs := by
    intro p
    rw [registered_concat]
    simp [eq_comm]
  unfold Kernel.addManager insertManager
  split
  · next hnone =>
    -- a full array without `m` would make one manager too many
    have hfull : ∀ i < maxThreads, k.trapManagers i ≠ m ∧ k.trapManagers i ≠ null := by
      simpa [List.find?_range_eq_none] using hnone
    have hn : m ∉ (List.range maxThreads).map k.trapManagers := by
      intro hmem
      obtain ⟨i, hi, he⟩ := List.mem_map.mp hmem
      exact (hfull i (List.mem_range.mp hi)).1 he
    have hlen := hf (m :: (List.range maxThreads).map k.trapManagers)
      (List.nodup_cons.mpr ⟨hn, h.distinct.nodup fun i hi => (hfull i hi).2⟩) ?_
    · rw [List.length_cons, List.length_map, List.length_range] at hlen
      omega
    · intro p hp
      rw [hreg]
      rcases List.mem_cons.mp hp with rfl | hp
      · exact ⟨hm, .inl rfl⟩
      · obtain ⟨i, hi, rfl⟩ := List.mem_map.mp hp
        have hi := List.mem_range.mp hi
        have hne := (hfull i hi).2
        exact ⟨hne, .inr ((h.holds _ hne).mp ⟨i, hi, rfl⟩)⟩
  · next i hsome =>
    simp only [List.find?_range_eq_some, Bool.or_eq_true, decide_eq_true_eq, List.mem_range] at hsome
    obtain ⟨hslot, hi, hbefore⟩ := hsome
    rcases hslot with hslot | hslot
    · -- present already
      have hput : put k.trapManagers i m = k.trapManagers := by
        funext j
        simp only [Links.put_apply]
        split
        · simp_all
        · rfl
      rw [hput]
      refine ⟨h.distinct, fun p hp => ?_⟩
      rw [hreg, h.holds p hp]
      constructor
      · exact .inr
      · rintro (rfl | hr)
        · exact (h.holds _ hp).mp ⟨i, hi, hslot⟩
        · exact hr
    · have hnot : ¬ Holds maxThreads k.trapManagers m := by
        rintro ⟨j, hj, he⟩
        rcases Nat.lt_trichotomy i j with hij | rfl | hji
        · exact ht hm j hj he i hij hslot
        · exact hm (he.symm.trans hslot)
        · have := hbefore j hji
          simp [he] at this
      refine ⟨h.distinct.put fun _ => hnot, fun p hp => ?_⟩
      rw [hreg, ← h.holds p hp]
      exact holds_fill hi hslot hp

theorem Represents.after_delete (h : Represents k cs) (hm : m ≠ null) :
    Represents (k.deleteManager m) (cs ++ [delete m]) := by
  have hreg : ∀ p, Registered p (cs ++ [delete m]) ↔ p ≠ m ∧ Registered p cs := by
    intro p
    rw [registered_concat]
    simp [eq_comm]
  unfold Kernel.deleteManager eraseManager
  split
  · next hnone =>
    have hnot : ∀ i < maxThreads, k.trapManagers i ≠ m := by
      simpa [List.find?_range_eq_none] using hnone
    refine ⟨h.distinct, fun p hp => ?_⟩
    rw [hreg, h.holds p hp]
    constructor
    · intro hr
      obtain ⟨i, hi, he⟩ := (h.holds p hp).mpr hr
      exact ⟨fun hpm => hnot i hi (he.trans hpm), hr⟩
    · exact And.right
  · next i hsome =>
    simp only [List.find?_range_eq_some, decide_eq_true_eq, List.mem_range] at hsome
    obtain ⟨hslot, hi, -⟩ := hsome
    refine ⟨h.distinct.put fun hne => absurd rfl hne, fun p hp => ?_⟩
    rw [hreg, ← h.holds p hp]
    exact holds_clear h.distinct hi hslot hm hp

/-- NULL is never registered, and a call about it changes nothing. -/
theorem run_null (c : ManagerCall) (hc : c = add null ∨ c = delete null) : c.run k = k := by
  have hput : ∀ i, k.trapManagers i = null → put k.trapManagers i null = k.trapManagers := by
    intro i hi
    funext j
    simp only [Links.put_apply]
    split
    · simp_all
    · rfl
  have herase : ∀ i, k.trapManagers i = null →
      { k with trapManagers := put k.trapManagers i null } = k := by
    intro i hi
    rw [hput i hi]
  rcases hc with rfl | rfl
  all_goals
    simp only [run, Kernel.addManager, Kernel.deleteManager, insertManager, eraseManager]
    split
    · rfl
    · next i hsome =>
      simp only [Bool.or_self, List.find?_range_eq_some, decide_eq_true_eq] at hsome
      exact herase i hsome.1

theorem Represents.step {c : ManagerCall} (h : Represents k cs) (ht : Tidy k c)
    (hf : Fits (cs ++ [c])) : Represents (c.run k) (cs ++ [c]) := by
  have hnull : c = add null ∨ c = delete null → Represents (c.run k) (cs ++ [c]) := by
    intro hc
    rw [run_null c hc]
    refine ⟨h.distinct, fun p hp => ?_⟩
    rw [h.holds p hp, registered_concat]
    rcases hc with rfl | rfl <;> simp [Ne.symm hp]
  cases c with
  | add m =>
    by_cases hm : m = null
    · exact hnull (.inl (by rw [hm]))
    · exact h.after_add hm ht hf
  | delete m =>
    by_cases hm : m = null
    · exact hnull (.inr (by rw [hm]))
    · exact h.after_delete hm

/-- A call, made while no free slot precedes the one of the manager it is about. -/
def TidyStep (k : Kernel) (c : ManagerCall) (k' : Kernel) : Prop := k' = c.run k ∧ Tidy k c

theorem represents_of_run {k₀ k : Kernel} {pre : List ManagerCall} (h : Represents k₀ pre)
    (hr : Run TidyStep k₀ cs k) (hf : ∀ p, p <+: cs → Fits (pre ++ p)) :
    Represents k (pre ++ cs) := by
  induction hr generalizing pre with
  | refl => simpa using h
  | @stepL k₀ c k₁ cs k hs _ ih =>
    obtain ⟨rfl, ht⟩ := hs
    have h₁ := h.step ht (hf [c] (by simp))
    have := ih h₁ fun p hp => by
      simpa using hf (c :: p) (by simpa using hp)
    simpa using this

/-- After tidy calls the array recognises exactly the managers added and not deleted since. -/
theorem thereIsManager_iff {k₀ k : Kernel} (h : ∀ i, k₀.trapManagers i = null)
    (hr : Run TidyStep k₀ cs k) (hf : ∀ pre, pre <+: cs → Fits pre) (m : Ptr) :
    k.thereIsManager m ≠ null ↔ m ≠ null ∧ Registered m cs := by
  have h₀ : Represents k₀ [] := by
    refine ⟨.empty fun i _ => h i, fun p hp => ⟨?_, fun hr => absurd hr registered_nil⟩⟩
    rintro ⟨i, -, he⟩
    exact absurd (he.symm.trans (h i)) hp
  have hrep : Represents k cs := represents_of_run h₀ hr (by simpa using hf)
  rw [Kernel.thereIsManager_ne_null]
  exact and_congr_right fun hm => hrep.holds m hm

/-- A manager is added, added again and deleted; another one stays. -/
def tidyCalls : List ManagerCall :=
  [add threadArrayAddr, add testThreadAddr, add threadArrayAddr, delete threadArrayAddr]

instance (k : Kernel) : (c : ManagerCall) → Decidable (Tidy k c)
  | add m => inferInstanceAs (Decidable (m ≠ null → ∀ j < maxThreads, k.trapManagers j = m →
      ∀ i < j, k.trapManagers i ≠ null))
  | delete _ => inferInstanceAs (Decidable True)

theorem fits_of_length {cs : List ManagerCall} (h : cs.length ≤ maxThreads) : Fits cs := by
  intro l hl hreg
  have hsub : l.map add ⊆ cs := by
    intro c hc
    obtain ⟨m, hm, rfl⟩ := List.mem_map.mp hc
    obtain ⟨pre, post, rfl, -⟩ := (hreg m hm).2
    simp
  have hnodup : (l.map add).Nodup := hl.map fun a b hab => by cases hab; rfl
  have hlen := hnodup.length_le_of_subset hsub
  rw [List.length_map] at hlen
  omega

theorem thereIsManager_iff_tidy : ∃ k, Run TidyStep Kernel.zeroed tidyCalls k ∧
    (k.thereIsManager testThreadAddr ≠ null ↔
      testThreadAddr ≠ null ∧ Registered testThreadAddr tidyCalls) := by
  have hr : Run TidyStep Kernel.zeroed tidyCalls (tidyCalls.foldl run Kernel.zeroed) := by
    refine .stepL ⟨rfl, ?_⟩ (.stepL ⟨rfl, ?_⟩ (.stepL ⟨rfl, ?_⟩ (.stepL ⟨rfl, ?_⟩ .refl)))
    all_goals decide
  refine ⟨_, hr, thereIsManager_iff (fun _ => rfl) hr (fun pre hpre => fits_of_length ?_) _⟩
  have hlen := hpre.length_le
  have htidy : tidyCalls.length = 4 := rfl
  simp only [maxThreads]
  omega

/-- The second addition of the test thread finds the hole the SSI left and fills it, so one
deletion is not enough. -/
def duplicateCalls : List ManagerCall :=
  [add threadArrayAddr, add testThreadAddr, delete threadArrayAddr, add testThreadAddr,
    delete testThreadAddr]

theorem thereIsManager_duplicate : ¬ ∀ (k₀ : Kernel) (cs : List ManagerCall) (m : Ptr),
    (∀ i, k₀.trapManagers i = null) → (∀ pre, pre <+: cs → Fits pre) →
    ((cs.foldl run k₀).thereIsManager m ≠ null ↔ m ≠ null ∧ Registered m cs) := by
  intro hall
  have hiff := hall Kernel.zeroed duplicateCalls testThreadAddr (fun _ => rfl) ?_
  · have hthere : (duplicateCalls.foldl run Kernel.zeroed).thereIsManager testThreadAddr ≠ null := by
      decide
    obtain ⟨-, hreg⟩ := hiff.mp hthere
    have hsplit : duplicateCalls = duplicateCalls.dropLast ++ [delete testThreadAddr] := rfl
    rw [hsplit, registered_concat] at hreg
    simp at hreg
  · intro pre hpre
    have hlen := hpre.length_le
    have hdup : duplicateCalls.length = 5 := rfl
    apply fits_of_length
    simp only [maxThreads]
    omega

end ManagerCall

end AmiKaya
