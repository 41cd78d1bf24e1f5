import AmiKaya.Termination

/-! The order of the ready queue: nobody is dispatched before a thread that was ahead of it. -/
namespace AmiKaya
open Lts

/-- The threads that a sequence of operations gives the processor, in their order. -/
def dispatched (os : List Op) : List Ptr := os.filterMap fun
  | .dispatch p => some p
  | _ => none

theorem dispatched_append (os os' : List Op) :
    dispatched (os ++ os') = dispatched os ++ dispatched os' :=
  List.filterMap_append

theorem dispatched_cons (o : Op) (os : List Op) :
    dispatched (o :: os) = dispatched [o] ++ dispatched os :=
  dispatched_append [o] os

namespace Kernel

variable {k k' : Kernel} {o : Op} {os : List Op} {a : Ptr} {ahead : List Ptr}

/-- `a` is in the ready queue, and these threads are ahead of it. -/
def Behind (k : Kernel) (a : Ptr) (ahead : List Ptr) : Prop :=
  ∃ rest, k.readyQueue = ahead ++ a :: rest

/-- Whoever joins the queue is behind everybody who was in it. -/
theorem Behind.join (h : k.Behind a ahead) (xs : List Ptr)
    (hq : k'.readyQueue = k.readyQueue ++ xs) :
    k'.Behind a ahead := by
  obtain ⟨rest, hr⟩ := h
  exact ⟨rest ++ xs, by simp [hq, hr]⟩

theorem Behind.same (h : k.Behind a ahead) (hq : k'.readyQueue = k.readyQueue) :
    k'.Behind a ahead :=
  h.join [] (by simp [hq])

/-- Threads that are freed leave a gap that is closed. -/
theorem Behind.leave (h : k.Behind a ahead) {ds : List Ptr} (ha : a ∉ ds)
    (hq : k'.readyQueue = k.readyQueue.filter (· ∉ ds)) :
    k'.Behind a (ahead.filter (· ∉ ds)) := by
  obtain ⟨rest, hr⟩ := h
  exact ⟨rest.filter (· ∉ ds), by simp [hq, hr, ha]⟩

/-- An operation dispatches `a`, or frees it, or dispatches at most the first of the threads ahead
of it. -/
theorem behind_step (hk : Placed k) (h : OpStep k o k') (hb : k.Behind a ahead) :
    o = .dispatch a ∨ a ∈ k'.tcbFree ∧ dispatched [o] = [] ∨
      ∃ ahead', k'.Behind a ahead' ∧ (dispatched [o] ++ ahead').Sublist ahead := by
  have hsame : dispatched [o] = [] → k'.readyQueue = k.readyQueue →
      ∃ ahead', k'.Behind a ahead' ∧ (dispatched [o] ++ ahead').Sublist ahead := by
    intro hd hq
    exact ⟨ahead, hb.same hq, by simp [hd]⟩
  have hjoin : dispatched [o] = [] → ∀ p, k'.readyQueue = k.readyQueue ++ [p] →
      ∃ ahead', k'.Behind a ahead' ∧ (dispatched [o] ++ ahead').Sublist ahead := by
    intro hd p hq
    exact ⟨ahead, hb.join _ hq, by simp [hd]⟩
  cases h with
  | quiet hq => exact .inr (.inr (hsame rfl hq.readyQueue))
  | send hs =>
    right; right
    rcases send_cases hs with ⟨-, -, he⟩ | ⟨-, -, -, -, -, -, -, rfl⟩ | ⟨-, -, -, -, -, -, he⟩ |
      ⟨-, -, -, rfl⟩
    · obtain ⟨b, free, -, rfl⟩ := enqueue_cases he
      exact hsame rfl rfl
    · exact hjoin rfl _ rfl
    · obtain ⟨b, free, -, rfl⟩ := enqueue_cases he
      exact hsame rfl rfl
    · exact hsame rfl rfl
  | recv hc hr =>
    right; right
    rcases recv_cases hr with ⟨-, -, rfl⟩ | ⟨m, rest, -, -, -, rfl⟩
    · exact hsame rfl rfl
    · exact hsame rfl rfl
  | terminate ht h =>
    obtain ⟨ds, -, hreap⟩ := Reaped.terminate hk ht h
    right
    by_cases ha : a ∈ ds
    · left
      refine ⟨?_, rfl⟩
      rw [hreap.tcbFree]
      exact List.mem_append_right _ ha
    · exact .inr ⟨_, hb.leave ha hreap.readyQueue, List.filter_sublist⟩
  | resume hr =>
    obtain ⟨-, -, rfl⟩ := continueTrapped_cases hr
    exact .inr (.inr (hjoin rfl _ rfl))
  | @dispatch p rest hc hr =>
    obtain ⟨behind, hq⟩ := hb
    rw [hr] at hq
    cases ahead with
    | nil =>
      left
      rw [List.nil_append, List.cons.injEq] at hq
      rw [hq.1]
    | cons q ahead =>
      rw [List.cons_append, List.cons.injEq] at hq
      obtain ⟨rfl, hq⟩ := hq
      exact .inr (.inr ⟨ahead, ⟨behind, hq⟩, List.Sublist.refl _⟩)
  | alloc ha hp =>
    obtain ⟨free, -, rfl⟩ := allocTcb_cases ha hp
    exact .inr (.inr (hsame rfl rfl))
  | preempt | publish => exact .inr (.inr (hjoin rfl _ rfl))
  | request | freeze | insertChild | insertSibling | countThread =>
    exact .inr (.inr (hsame rfl rfl))

/-- What becomes of a thread behind these: only they are dispatched, in their order and each at most
once, until it is dispatched itself or freed; or it is still behind some of them. -/
def InTurn (k : Kernel) (a : Ptr) (ahead : List Ptr) (os : List Op) (k' : Kernel) : Prop :=
  (∃ pre post k₁, os = pre ++ post ∧ Run OpStep k pre k₁ ∧ Run OpStep k₁ post k' ∧
    (dispatched pre).Sublist ahead ∧ (post.head? = some (.dispatch a) ∨ a ∈ k₁.tcbFree)) ∨
  ∃ ahead', k'.Behind a ahead' ∧ (dispatched os ++ ahead').Sublist ahead

theorem behind_run (hk : Placed k) (h : Run OpStep k os k') (hb : k.Behind a ahead) :
    k.InTurn a ahead os k' := by
  induction h generalizing ahead with
  | refl => exact .inr ⟨ahead, hb, List.Sublist.refl _⟩
  | @stepL k o k₁ os k' hs hrest ih =>
    rcases behind_step hk hs hb with rfl | ⟨hf, hd⟩ | ⟨ahead₁, hb₁, hsub₁⟩
    · exact .inl ⟨[], _, k, rfl, .refl, .stepL hs hrest, List.nil_sublist _, .inl rfl⟩
    · refine .inl ⟨[o], os, k₁, rfl, .single hs, hrest, ?_, .inr hf⟩
      simp [hd]
    · rcases ih (hk.step hs) hb₁ with ⟨pre, post, k₂, rfl, hpre, hpost, hsub, hend⟩ |
        ⟨ahead₂, hb₂, hsub₂⟩
      · refine .inl ⟨o :: pre, post, k₂, rfl, .stepL hs hpre, hpost, ?_, hend⟩
        rw [dispatched_cons]
        exact (hsub.append_left _).trans hsub₁
      · refine .inr ⟨ahead₂, hb₂, ?_⟩
        rw [dispatched_cons, List.append_assoc]
        exact (hsub₂.append_left _).trans hsub₁

/-- Whenever `b` has been dispatched, `a` has been dispatched too, or had been freed. -/
def NotOvertaken (k : Kernel) (a b : Ptr) (os : List Op) : Prop :=
  ∀ pre post k₁, os = pre ++ post → Run OpStep k pre k₁ → b ∈ dispatched pre →
    a ∈ dispatched pre ∨
      ∃ pre₁ pre₂ k₂, pre = pre₁ ++ pre₂ ∧ Run OpStep k pre₁ k₂ ∧ a ∈ k₂.tcbFree

/-- Who joins the ready queue is behind everybody in it, and is not there already. -/
theorem behind_of_insert {b : Ptr} (hk' : Placed k') (ha : a ∈ k.readyQueue)
    (hq : k'.readyQueue = insertThread k.readyQueue b) :
    ∃ ahead, k'.Behind a ahead ∧ b ∉ ahead ∧ b ≠ a := by
  obtain ⟨ahead, rest, hr⟩ := List.append_of_mem ha
  have hn := (Reaped.queues_nodup hk').1
  rw [hq, hr, insertThread, List.append_assoc, List.nodup_append] at hn
  refine ⟨ahead, ⟨rest ++ [b], by simp [hq, hr, insertThread]⟩, ?_, ?_⟩
  · intro hb
    exact hn.2.2 b hb b (by simp) rfl
  · rintro rfl
    have hcons := hn.2.1
    simp at hcons

theorem notOvertaken_of_insert {b : Ptr} (hk' : Placed k') (ha : a ∈ k.readyQueue)
    (hq : k'.readyQueue = insertThread k.readyQueue b) : k'.NotOvertaken a b os := by
  obtain ⟨ahead, hbehind, hb, -⟩ := behind_of_insert hk' ha hq
  intro pre post k₁ _ hpre hmem
  rcases behind_run hk' hpre hbehind with ⟨pre₁, pre₂, k₂, rfl, hpre₁, -, hsub, hend⟩ |
    ⟨ahead', -, hsub⟩
  · rcases hend with hend | hfree
    · left
      obtain ⟨rest, rfl⟩ := List.head?_eq_some_iff.mp hend
      rw [dispatched_append, dispatched_cons]
      simp [dispatched]
    · exact .inr ⟨pre₁, pre₂, k₂, rfl, hpre₁, hfree⟩
  · have hall : b ∈ ahead := hsub.subset (List.mem_append_left _ hmem)
    exact absurd hall hb

end Kernel

namespace Machine

variable {m m' : Machine} {es : List Event}

/-- A step with the operations on the kernel that it consists of. -/
def OpsOf (m : Machine) (p : Event × List Op) (m' : Machine) : Prop :=
  m.Step p.1 m' ∧ Run OpStep m.k p.2 m'.k

theorem exists_opsOf (hw : m.Wf) (hr : Run Step m es m') :
    ∃ ps : List (Event × List Op), ps.map Prod.fst = es ∧ Run OpsOf m ps m' := by
  induction hr with
  | refl => exact ⟨[], rfl, .refl⟩
  | @stepL m e m₁ es m' hs _ ih =>
    obtain ⟨ps, hps, hrun⟩ := ih (hw.step hs)
    obtain ⟨os, hos⟩ := ops_of_step hw hs
    exact ⟨(e, os) :: ps, by simp [hps], .stepL ⟨hs, hos.mono fun _ _ _ ho => ho.1⟩ hrun⟩

/-- The operations of a run, one step after the other. -/
theorem ops_of_opsOf {ps : List (Event × List Op)} (h : Run OpsOf m ps m') :
    Run OpStep m.k (ps.flatMap Prod.snd) m'.k := by
  induction h with
  | refl => exact .refl
  | stepL hs _ ih => exact hs.2.append ih

/-- The ready queue is fair: a thread in it is dispatched after some of those ahead of it and
nobody else, and a thread that joins it is not dispatched before those it found there. -/
theorem dispatch_in_order (h : m.Initial) (hr : Run Step m es m') :
    (∃ ps, ps.map Prod.fst = es ∧ Run OpsOf m ps m') ∧
    ∀ ps, Run OpsOf m ps m' → Run OpStep m.k (ps.flatMap Prod.snd) m'.k ∧
      ∀ os k os', ps.flatMap Prod.snd = os ++ os' → Run OpStep m.k os k → Run OpStep k os' m'.k →
        (∀ a ahead, k.Behind a ahead → k.InTurn a ahead os' m'.k) ∧
        (∀ a b o os'' k', os' = o :: os'' → OpStep k o k' → a ∈ k.readyQueue →
          k'.readyQueue = insertThread k.readyQueue b → k'.NotOvertaken a b os'') := by
  refine ⟨exists_opsOf (initial_wf h) hr, ?_⟩
  intro ps hps
  refine ⟨ops_of_opsOf hps, ?_⟩
  intro os k os' _ hos hos'
  have hplaced : Placed k := hos.inv (fun _ _ _ hs hk => hk.step hs) (initial_wf h).placed
  refine ⟨fun a ahead hb => Kernel.behind_run hplaced hos' hb, ?_⟩
  intro a b o os'' k' _ hs ha hq
  exact Kernel.notOvertaken_of_insert (hplaced.step hs) ha hq

/-- The test thread is the first in the queue and is dispatched when the SSI waits. -/
theorem dispatch_in_order_boot : ∃ m m' : Machine, ∃ ps, m.Initial ∧ Run OpsOf m ps m' ∧
    m'.k.currentThread = testThreadAddr ∧
    m.k.InTurn testThreadAddr [] (ps.flatMap Prod.snd) m'.k := by
  have hrun : passes (fun m => m.k.readyQueue = [testThreadAddr] &&
      passes (fun s => s.k.currentThread = testThreadAddr) (exec fire m (Event.ssiCalls 2)))
      (start .zeroed) = true := by
    decide +kernel
  obtain ⟨m, hm, hrun⟩ := exists_of_passes hrun
  simp only [Bool.and_eq_true, decide_eq_true_eq] at hrun
  obtain ⟨m', hs, hend⟩ := exists_of_passes hrun.2
  have hi := initial_of_start Kernel.zeroed_powerOn hm
  have hr : Run Step m (Event.ssiCalls 2) m' :=
    (run_of_exec hs).mono fun _ _ _ => step_of_fire
  obtain ⟨⟨ps, -, hps⟩, hall⟩ := dispatch_in_order hi hr
  obtain ⟨hos, hfair⟩ := hall ps hps
  have hserved := (hfair [] m.k _ rfl .refl hos).1 testThreadAddr [] ⟨[], hrun.1⟩
  exact ⟨m, m', ps, hi, hps, by simpa using hend, hserved⟩

end Machine

end AmiKaya
