import AmiKaya.Tree

/-! What `terminate` does to the process tree: it ends, and it frees the thread it is called for
together with the threads below it. -/
namespace AmiKaya

namespace Kernel

/-- The thread `t` and those created below it. -/
inductive Below (k : Kernel) (t : Ptr) : Ptr → Prop
  | refl : k.Below t t
  | child {c} : k.Allocated c → k.Below t (k.tcb c).tParent → k.Below t c

variable {k k' k₁ : Kernel} {ds es : List Ptr} {p c t : Ptr}

theorem Below.ne_null (h : k.Below t p) (ht : t ≠ null) : p ≠ null := by
  cases h with
  | refl => exact ht
  | child hc => exact hc.ne_null

theorem Below.allocated (h : k.Below t p) (ht : k.Allocated t) : k.Allocated p := by
  cases h with
  | refl => exact ht
  | child hc => exact hc

theorem Below.trans (hp : k.Below c p) (hc : k.Below t c) : k.Below t p := by
  induction hp with
  | refl => exact hc
  | child ha _ ih => exact .child ha ih

/-- Removing edges puts nobody below. -/
theorem Below.mono (ht : t ≠ null) (he : ∀ c, k₁.Allocated c → (k₁.tcb c).tParent ≠ null →
    k.Allocated c ∧ (k.tcb c).tParent = (k₁.tcb c).tParent) (h : k₁.Below t p) : k.Below t p := by
  induction h with
  | refl => exact .refl
  | child hc hb ih =>
    obtain ⟨ha, hpar⟩ := he _ hc (hb.ne_null ht)
    exact .child ha (hpar ▸ ih)

end Kernel

/-- Who is alive and has not been freed is still alive. -/
theorem Reaped.live_keep {k k' : Kernel} {es : List Ptr} {p : Ptr} (h : Reaped k es k')
    (hp : k.Live p) (hd : p ∉ es) : k'.Live p := by
  rcases hp with hp | hp | hp
  · exact .inl (by simp [h.readyQueue, hp, hd])
  · exact .inr (.inl (h.mem_wait.mpr ⟨hp, hd⟩))
  · obtain ⟨rfl, hc⟩ := Kernel.mem_running.mp hp
    refine .inr (.inr (Kernel.mem_running.mpr ?_))
    simp [h.currentThread, hd, hc]

namespace Kernel

variable {k k' k₁ : Kernel} {ds es : List Ptr} {p c t : Ptr} {F : Kernel → List Ptr → Prop}

/-- What is needed of an invariant for `terminate` to keep it. -/
structure Prunes (F : Kernel → List Ptr → Prop) : Prop where
  family : ∀ {k ds}, F k ds → k.Family ds
  detach : ∀ {k ds c}, F k ds → k.Allocated c → (k.tcb c).tParent ≠ null →
    F (k.detach c) (c :: ds)
  reap : ∀ {k k' ds t}, Placed k → F k (t :: ds) → t ∉ ds →
    (∀ c, k.Allocated c → (k.tcb c).tParent ≠ t) → k.reap t = .ok k' → F k' ds

theorem family_prunes : Prunes Family := ⟨fun h => h, .detach, .reap⟩

/-- The threads `es`, all of them below `t`, have been freed, and the others keep their parents. -/
structure Cut (k : Kernel) (t : Ptr) (es : List Ptr) (k' : Kernel) : Prop extends
    Reaped k es k' where
  below : ∀ p ∈ es, k.Below t p
  tParent : ∀ p, p ∉ es → (k'.tcb p).tParent = (k.tcb p).tParent

/-- How a call of `terminate` comes to its end. -/
def TerminateOutcome (F : Kernel → List Ptr → Prop) (k : Kernel) (t : Ptr) (ds : List Ptr) :
    Except Stop Kernel → Prop
  | .ok k' => Placed k' ∧ F k' ds ∧ ∃ es, t ∈ es ∧ Cut k t es k'
  | .error e => e = .panic .terminate ∧ ∃ p, k.Below t p ∧ ¬ k.Live p

/-- How the loop over the children comes to its end. -/
def LoopOutcome (F : Kernel → List Ptr → Prop) (k : Kernel) (t : Ptr) (ds : List Ptr) :
    Except Stop Kernel → Prop
  | .ok k' => Placed k' ∧ F k' ds ∧ (∀ c, k'.Allocated c → (k'.tcb c).tParent ≠ t) ∧
      ∃ es, Cut k t es k'
  | .error e => e = .panic .terminate ∧ ∃ p, k.Below t p ∧ ¬ k.Live p

theorem detach_reaped (k : Kernel) (c : Ptr) : Reaped k [] (k.detach c) :=
  .unlink fun _ => rfl

theorem outChild_reaped (k : Kernel) (t : Ptr) : Reaped k [] (k.outChild t) := by
  rw [outChild_eq]
  split
  · exact .refl k
  · exact detach_reaped k t

theorem detach_placed (hk : Placed k) : Placed (k.detach c) := hk.of_perm (List.Perm.refl _)

theorem outChild_placed (hk : Placed k) (t : Ptr) : Placed (k.outChild t) := by
  rw [outChild_eq]
  split
  · exact hk
  · exact detach_placed hk

/-- The edges that are left after a child has been detached. -/
theorem detach_edge (p : Ptr) (hn : ((k.detach c).tcb p).tParent ≠ null) :
    (k.tcb p).tParent = ((k.detach c).tcb p).tParent := by
  rw [detach_tParent] at hn ⊢
  split at hn
  · exact absurd rfl hn
  · rw [if_neg ‹_›]

theorem below_detach (ht : t ≠ null) (h : (k.detach c).Below t p) : k.Below t p := by
  refine Below.mono ht ?_ h
  intro q hq hn
  exact ⟨hq, detach_edge q hn⟩

/-- The edges that are left after some threads have been freed. -/
theorem Cut.below_left (h : Cut k c es k') (ht : t ≠ null) (hb : k'.Below t p) : k.Below t p := by
  refine hb.mono ht fun q hq _ => ?_
  obtain ⟨ha, he⟩ := h.toReaped.allocated.mp hq
  exact ⟨ha, (h.tParent q he).symm⟩

theorem Cut.notMem (h : Cut k c es k') (ht : t ∉ es) (hb : k'.Below t p) : p ∉ es := by
  cases hb with
  | refl => exact ht
  | child hc => exact (h.toReaped.allocated.mp hc).2

/-- A child has been taken out and terminated, then the loop goes on. -/
theorem Cut.loop {k₂ : Kernel} (htn : t ≠ null) (hc : k.Allocated c) (hpar : (k.tcb c).tParent = t)
    (h : Cut (k.detach c) c es k₁) (hce : c ∈ es) (h' : Cut k₁ t ds k₂) : Cut k t (es ++ ds) k₂ := by
  have hct : k.Below t c := .child hc (hpar ▸ .refl)
  refine ⟨(detach_reaped k c).trans (h.toReaped.trans h'.toReaped), fun p hp => ?_, fun p hp => ?_⟩
  · rcases List.mem_append.mp hp with hp | hp
    · exact (below_detach hc.ne_null (h.below p hp)).trans hct
    · exact below_detach htn (h.below_left htn (h'.below p hp))
  · rw [List.mem_append, not_or] at hp
    have hpc : p ≠ c := fun he => hp.1 (he ▸ hce)
    rw [h'.tParent p hp.2, h.tParent p hp.1, detach_tParent, if_neg hpc]

theorem below_outChild (ht : t ≠ null) (h : (k.outChild t).Below t p) : k.Below t p := by
  rw [outChild_eq] at h
  split at h
  · exact h
  · exact below_detach ht h

/-- The thread itself comes last. -/
theorem Cut.finish {k₂ : Kernel} (hk : Placed k₁) (ht : t ≠ null) (h : Cut (k.outChild t) t es k₁)
    (hr : k₁.reap t = .ok k₂) : Cut k t (es ++ [t]) k₂ := by
  have hout := outChild_reaped k t
  refine ⟨hout.trans (h.toReaped.trans (.reap hk ht hr)), fun p hp => ?_, fun p hp => ?_⟩
  · rcases List.mem_append.mp hp with hp | hp
    · exact below_outChild ht (h.below p hp)
    · rw [List.mem_singleton.mp hp]
      exact .refl
  · rw [List.mem_append, List.mem_singleton, not_or] at hp
    rw [(reap_links hr).2, h.tParent p hp.1, outChild_eq]
    split
    · rfl
    · rw [detach_tParent, if_neg hp.2]

/-- A thread in a queue or on the processor can be freed, another one cannot. -/
theorem reap_ok_iff (ht : t ≠ null) : (∃ k', k.reap t = .ok k') ↔ k.Live t := by
  constructor
  · rintro ⟨k', h⟩
    rcases reap_cases h with ⟨⟨hr, -⟩ | hc, -⟩ | ⟨-, -, -, hw, -⟩
    · exact .inl hr
    · exact .inr (.inr (mem_running.mpr ⟨hc.symm, hc ▸ ht⟩))
    · exact .inr (.inl hw)
  · intro h
    simp only [reap, outThread_fst_ne_null]
    split
    · exact ⟨_, rfl⟩
    · next hn =>
      simp only [not_or] at hn
      have hw : t ∈ k.waitQueue := by
        rcases h with hr | hw | hc
        · exact absurd ⟨hr, ht⟩ hn.1
        · exact hw
        · exact absurd (mem_running.mp hc).1.symm hn.2
      rw [if_pos ⟨hw, ht⟩]
      exact ⟨_, rfl⟩

theorem reap_error {e : Stop} (ht : t ≠ null) (h : k.reap t = .error e) :
    e = .panic .terminate ∧ ¬ k.Live t := by
  constructor
  · simp only [reap] at h
    split at h
    · cases h
    · split at h <;> cases h
      rfl
  · intro hl
    obtain ⟨k', hk'⟩ := (reap_ok_iff ht).mpr hl
    rw [hk'] at h
    cases h

/-- The threads that are still in the tree. -/
def remaining (k : Kernel) (ds : List Ptr) : Nat :=
  threadArray.countP fun p => p ∉ k.tcbFree ∧ p ∉ ds

theorem countP_lt {l : List Ptr} {f g : Ptr → Bool} (hle : ∀ x ∈ l, g x = true → f x = true)
    (ha : c ∈ l) (hf : f c = true) (hg : g c = false) : l.countP g < l.countP f := by
  obtain ⟨pre, post, rfl⟩ := List.append_of_mem ha
  have hpre : pre.countP g ≤ pre.countP f :=
    List.countP_mono_left fun x hx => hle x (List.mem_append_left _ hx)
  have hpost : post.countP g ≤ post.countP f :=
    List.countP_mono_left fun x hx => hle x (List.mem_append_right _ (List.mem_cons_of_mem _ hx))
  simp only [List.countP_append, List.countP_cons, hf, hg, if_true, Bool.false_eq_true, if_false]
  omega

theorem remaining_detach (hc : k.Allocated c) (hd : c ∉ ds) :
    (k.detach c).remaining (c :: ds) < k.remaining ds := by
  refine countP_lt (fun x _ h => ?_) hc.1 (by simp [hc.2, hd]) (by simp)
  simp only [List.mem_cons, not_or, decide_eq_true_eq] at h ⊢
  exact ⟨h.1, h.2.2⟩

theorem remaining_reaped (hc : k.Allocated c) (hd : c ∉ ds) (h : Reaped k es k') (he : c ∈ es) :
    k'.remaining ds < k.remaining ds := by
  refine countP_lt (fun x _ h' => ?_) hc.1 (by simp [hc.2, hd]) (by simp [h.tcbFree, he])
  simp only [h.tcbFree, List.mem_append, not_or, decide_eq_true_eq] at h' ⊢
  exact ⟨h'.1.1, h'.2⟩

/-- One call of the recursion: the induction is on the fuel, of which every level takes two, and
every level takes a thread out of the tree. -/
theorem terminate_outcome (hF : Prunes F) (n : Nat) :
    (∀ k ds t, Placed k → F (k.outChild t) (t :: ds) → k.Allocated t → t ∉ ds →
      2 * (k.outChild t).remaining (t :: ds) + 2 ≤ n → TerminateOutcome F k t ds (terminateFuel n k t)) ∧
    ∀ k ds t, Placed k → F k ds → t ∈ ds → 2 * k.remaining ds + 1 ≤ n →
      LoopOutcome F k t ds (terminateChildren n k t) := by
  induction n with
  | zero =>
    constructor
    · intro k ds t _ _ _ _ hn
      omega
    · intro k ds t _ _ _ hn
      omega
  | succ n ih =>
    refine ⟨fun k ds t hk hf ha hd hn => ?_, fun k ds t hk hf hd hn => ?_⟩
    · have hout := outChild_reaped k t
      have hk₀ := outChild_placed hk t
      have hloop := ih.2 (k.outChild t) (t :: ds) t hk₀ hf List.mem_cons_self (by omega)
      simp only [terminateFuel]
      cases hres : terminateChildren n (k.outChild t) t with
      | error e =>
        rw [hres] at hloop
        obtain ⟨he, p, hb, hl⟩ := hloop
        exact ⟨he, p, below_outChild ha.ne_null hb, fun hp => hl (hout.live_keep hp (by simp))⟩
      | ok k₁ =>
        rw [hres] at hloop
        obtain ⟨hk₁, hf₁, hkids, es, hcut⟩ := hloop
        change TerminateOutcome F k t ds (k₁.reap t)
        cases hreap : k₁.reap t with
        | error e =>
          obtain ⟨he, hl⟩ := reap_error ha.ne_null hreap
          have hte : t ∉ es :=
            (hcut.toReaped.allocated.mp ((hF.family hf₁).detached t List.mem_cons_self).1).2
          refine ⟨he, t, .refl, fun hp => hl ?_⟩
          exact hcut.toReaped.live_keep (hout.live_keep hp (by simp)) hte
        | ok k₂ =>
          exact ⟨hk₁.of_perm (SamePlaces.reap hk₁ ha.ne_null hreap), hF.reap hk₁ hf₁ hd hkids hreap,
            es ++ [t], by simp, hcut.finish hk₁ ha.ne_null hreap⟩
    · have ht := (hF.family hf).detached t hd
      simp only [terminateChildren]
      rcases (hF.family hf).removeChild ht.1 with ⟨hr, hkids⟩ | ⟨c, hc, hpar, hr⟩
      · rw [hr, if_pos rfl]
        exact ⟨hk, hf, hkids, [], ⟨.refl k, by simp, fun _ _ => rfl⟩⟩
      · have hpn : (k.tcb c).tParent ≠ null := hpar ▸ ht.1.ne_null
        have hcd : c ∉ ds := fun hm => hpn ((hF.family hf).detached c hm).2
        have hout : (k.detach c).outChild c = k.detach c := by
          rw [outChild_eq, detach_tParent, if_pos rfl, if_pos rfl]
        have hrem := remaining_detach hc hcd
        have hchild := ih.1 (k.detach c) ds c (detach_placed hk)
          (by rw [hout]; exact hF.detach hf hc hpn) hc hcd (by rw [hout]; omega)
        have hct : k.Below t c := .child hc (hpar ▸ .refl)
        rw [hr, if_neg hc.ne_null]
        dsimp only
        cases hres : terminateFuel n (k.detach c) c with
        | error e =>
          rw [hres] at hchild
          obtain ⟨he, p, hb, hl⟩ := hchild
          exact ⟨he, p, (below_detach hc.ne_null hb).trans hct, hl⟩
        | ok k₁ =>
          rw [hres] at hchild
          obtain ⟨hk₁, hf₁, es, hce, hcut⟩ := hchild
          have hreaped := (detach_reaped k c).trans hcut.toReaped
          have hrem₁ := remaining_reaped hc hcd hreaped hce
          have hloop := ih.2 k₁ ds t hk₁ hf₁ hd (by omega)
          change LoopOutcome F k t ds (terminateChildren n k₁ t)
          cases hres' : terminateChildren n k₁ t with
          | error e =>
            rw [hres'] at hloop
            obtain ⟨he, p, hb, hl⟩ := hloop
            have hte : t ∉ es := (hcut.toReaped.allocated.mp ((hF.family hf₁).detached t hd).1).2
            refine ⟨he, p, below_detach ht.1.ne_null (hcut.below_left ht.1.ne_null hb), fun hp => ?_⟩
            exact hl (hcut.toReaped.live_keep hp (hcut.notMem hte hb))
          | ok k₂ =>
            rw [hres'] at hloop
            obtain ⟨hk₂, hf₂, hkids, es', hcut'⟩ := hloop
            exact ⟨hk₂, hf₂, hkids, _, hcut.loop ht.1.ne_null hc hpar hce hcut'⟩

theorem remaining_lt (ds : List Ptr) (ht : t ∈ threadArray) :
    k.remaining (t :: ds) < maxThreads := by
  have hlt : k.remaining (t :: ds) < threadArray.countP fun _ => true :=
    countP_lt (fun _ _ _ => rfl) ht rfl (by simp)
  have hlen : threadArray.length = maxThreads := by decide
  rw [List.countP_true, hlen] at hlt
  exact hlt

/-- A call of `terminate` for a thread of the tree ends: it cuts the thread off, or it comes to a
thread below it that is in no queue. -/
theorem terminate_spec (hF : Prunes F) (hk : Placed k) (hf : F (k.outChild t) (t :: ds))
    (ha : k.Allocated t) (hd : t ∉ ds) : TerminateOutcome F k t ds (k.terminate t) := by
  have hlt := remaining_lt (k := k.outChild t) ds ha.1
  exact (terminate_outcome hF (2 * maxThreads)).1 k ds t hk hf ha hd (by omega)

/-- Exactly the threads below the target have been freed. -/
theorem Cut.mem_iff (h : Cut k t es k') (hf : k'.Family ds) (ht : t ∈ es) (htn : t ≠ null) :
    p ∈ es ↔ k.Below t p := by
  refine ⟨h.below p, fun hb => ?_⟩
  induction hb with
  | refl => exact ht
  | @child c hc hb ih =>
    by_contra he
    have hpar := h.tParent c he
    have hc' : k'.Allocated c := h.toReaped.allocated.mpr ⟨hc, he⟩
    have hq := hf.parent c hc' (hpar ▸ hb.ne_null htn)
    rw [hpar] at hq
    exact (h.toReaped.allocated.mp hq).2 ih

/-- If all the threads below it are in a queue or on the processor, the target is cut off. -/
theorem TerminateOutcome.ok {r : Except Stop Kernel} (h : TerminateOutcome F k t ds r)
    (hl : ∀ p, k.Below t p → k.Live p) : ∃ k', r = .ok k' := by
  cases r with
  | ok k' => exact ⟨k', rfl⟩
  | error e =>
    obtain ⟨-, p, hb, hn⟩ := h
    exact absurd (hl p hb) hn

end Kernel

end AmiKaya
