import AmiKaya.NamedManagers

/-! The managers of a thread are written once, although the SSI looks at the field and writes it in
two steps: whoever was specified or inherited stays for as long as the thread lives. -/
namespace AmiKaya
open Lts

/-- A thread has been allocated and has inherited nothing yet. -/
def SsiPc.orphan : SsiPc → Bool
  | .noGood _ | .readParent | .link _ | .count _ | .copyState _ | .inherit => true
  | _ => false

theorem Ssi.next_orphan {s : Ssi} {k : Kernel} {r : U32} (h : (s.next k r).pc.orphan = true) :
    (s.next k r).newThread = s.newThread ∧ s.pc.orphan = true ∧ s.pc ≠ .inherit ∨
      (s.next k r).newThread = r ∧ ∃ c, s.pc = .alloc c := by
  cases hpc : s.pc <;> simp only [next, hpc] at h ⊢
  case alloc c =>
    refine .inr ⟨?_, c, rfl⟩
    split <;> rfl
  case serve =>
    exfalso
    unfold dispatch recordClock at h
    dsimp only at h
    repeat' split at h
    all_goals simp [SsiPc.orphan] at h
  case copyState c => cases c <;> simp_all [SsiPc.orphan]
  all_goals
    repeat' split at h
    all_goals simp_all [SsiPc.orphan]

namespace Machine

variable {m m' m₀ : Machine} {e : Event} {es es₀ : List Event} {p : Ptr} {x : Trap}

/-- What the SSI is about to write is still empty. -/
structure Unset (m : Machine) : Prop where
  requester : ∀ x, m.ssi.pc.sets x = true → (m.k.tcb m.ssi.reqThread).manager x = null
  child : m.ssi.pc.orphan = true → m.ssi.newThread ≠ null →
    ∀ x, (m.k.tcb m.ssi.newThread).manager x = null

/-- Only two calls of the SSI fill an empty field. -/
theorem unset_kept (h : m.Step e m')
    (hc : ∀ old, e = .ssi old → m.ssi.pc ≠ .inherit ∧ m.ssi.pc ≠ .setManager x)
    (hn : (m.k.tcb p).manager x = null) : (m'.k.tcb p).manager x = null := by
  have hat := m.ssi.call_at m.k
  rcases manager_cases h p x with ⟨hman, -⟩ |
    ⟨old, he, ⟨-, -, hman⟩ | ⟨q, hcall, -⟩ | ⟨q, hcall, -⟩⟩
  · rw [hman, hn]
  · exact hman
  · rw [hcall] at hat
    exact absurd hat.1 (hc old he).1
  · rw [hcall] at hat
    exact absurd hat.1 (hc old he).2

theorem Unset.step (hu : m.Unset) (h : m.Step e m') : m'.Unset := by
  rcases step_cases h with ⟨hssi, hne⟩ | ⟨old, r, rfl, -, hperf, hssi⟩
  · constructor
    · rw [hssi]
      exact fun x hs => unset_kept h (fun old he => absurd he (hne old)) (hu.requester x hs)
    · rw [hssi]
      exact fun hs hn x => unset_kept h (fun old he => absurd he (hne old)) (hu.child hs hn x)
  · constructor
    · intro x hs
      rw [hssi] at hs ⊢
      obtain ⟨hreq, hpc⟩ := Ssi.next_sets hs
      rw [hreq]
      refine unset_kept h (fun _ _ => ?_) ?_
      · rcases hpc with ⟨hsets, hother⟩ | ⟨hspec, -⟩
        · refine ⟨fun hi => ?_, hother x⟩
          simp [hi, SsiPc.sets] at hsets
        · simp [hspec]
      · rcases hpc with ⟨hsets, -⟩ | ⟨-, hnull⟩
        · exact hu.requester x hsets
        · exact hnull
    · intro hs hn x
      rw [hssi] at hs hn ⊢
      rcases Ssi.next_orphan hs with ⟨hnew, horphan, hpc⟩ | ⟨hnew, c, hpc⟩
      · rw [hnew] at hn ⊢
        refine unset_kept h (fun _ _ => ⟨hpc, fun hi => ?_⟩) (hu.child horphan hn x)
        simp [hi, SsiPc.orphan] at horphan
      · -- what has just been allocated has no managers
        rw [hnew] at hn ⊢
        have hcall : m.ssi.call m.k = .allocTcb := by simp [Ssi.call, hpc]
        rw [hcall] at hperf
        obtain ⟨free, -, hk⟩ := Kernel.allocTcb_cases (Except.ok.inj hperf) hn
        rw [hk]
        cases x <;> simp [Kernel.freshTcb, Tcb.manager]

theorem initial_unset (h : m.Initial) : m.Unset :=
  ⟨by simp [h.pc, SsiPc.sets], by simp [h.pc, SsiPc.orphan]⟩

/-- While the thread lives, a field that names a manager is not written. -/
theorem manager_kept (hu : m.Unset) (ha : m.k.Allocated p) (h : m.Step e m')
    (hx : (m.k.tcb p).manager x ≠ null) : (m'.k.tcb p).manager x = (m.k.tcb p).manager x := by
  have hat := m.ssi.call_at m.k
  have hp : p ≠ null := fun hp => null_notMem_threadArray (hp ▸ ha.1)
  rcases manager_cases h p x with ⟨hman, -⟩ | ⟨old, -, ⟨-, hal, -⟩ | ⟨q, hcall, -⟩ | ⟨q, hcall, -⟩⟩
  · exact hman
  · obtain ⟨free, hf, -⟩ := Kernel.allocTcb_cases (Prod.ext hal rfl) hp
    exact absurd (hf ▸ List.mem_cons_self) ha.2
  · rw [hcall] at hat
    obtain ⟨hpc, -, rfl⟩ := hat
    exact absurd (hu.child (by rw [hpc]; rfl) hp x) hx
  · rw [hcall] at hat
    obtain ⟨hpc, rfl⟩ := hat
    exact absurd (hu.requester x (by simp [hpc, SsiPc.sets])) hx

/-- A step that does not end the thread. -/
def Outlives (p : Ptr) (m : Machine) (e : Event) (m' : Machine) : Prop :=
  m.Step e m' ∧ p ∉ m'.k.tcbFree

/-- In every run, as long as a thread lives, the manager that has been specified for it or that it
has inherited is its manager, whatever it or anybody else asks of the SSI. -/
theorem managers_fixed (hm : m₀.Initial) (hr₀ : Run Step m₀ es₀ m) (hr : Run (Outlives p) m es m')
    (hp : m.k.Allocated p) (hx : (m.k.tcb p).manager x ≠ null) :
    (m'.k.tcb p).manager x = (m.k.tcb p).manager x := by
  have hu := hr₀.inv (fun _ _ _ hs hu => Unset.step hu hs) (initial_unset hm)
  have hinv := hr.inv (I := fun s => s.Unset ∧ s.k.Allocated p ∧
    (s.k.tcb p).manager x = (m.k.tcb p).manager x) ?_ ⟨hu, hp, rfl⟩
  · exact hinv.2.2
  · rintro s e t ⟨hs, hf⟩ ⟨hu, ha, he⟩
    exact ⟨hu.step hs, ⟨ha.1, hf⟩, (manager_kept hu ha hs (he ▸ hx)).trans he⟩

/-- The test thread has specified a manager and asks for another one: it is terminated instead. The
manager it had named all the time is the first. -/
theorem managers_fixed_again : ∃ m₀ m m' : Machine, ∃ es, m₀.Initial ∧
    Run Step m₀ managerTrace m ∧ Run (Outlives testThreadAddr) m es m' ∧
    m'.ssi.pc = .terminate ∧ m'.ssi.reqThread = testThreadAddr ∧
    (m'.k.tcb testThreadAddr).manager .sysbp = managerAddr := by
  have hrun : passes (fun m₀ => passes (fun m =>
      passes (fun m' => m'.ssi.pc = .terminate && m'.ssi.reqThread = testThreadAddr)
        (exec (guarded (fun _ _ m' => testThreadAddr ∉ m'.k.tcbFree) Stop.fault fire) m
          (Event.ssiRequest specSysMgr threadArrayAddr ++ Event.ssiCalls 5)) &&
        (testThreadAddr ∉ m.k.tcbFree && (m.k.tcb testThreadAddr).manager .sysbp = managerAddr))
      (exec fire m₀ managerTrace)) (start .zeroed) = true := by
    decide +kernel
  obtain ⟨m₀, hm, hrun⟩ := exists_of_passes hrun
  obtain ⟨m, hs, hrun⟩ := exists_of_passes hrun
  simp only [Bool.and_eq_true, decide_eq_true_eq] at hrun
  obtain ⟨hrun, hfree, hman⟩ := hrun
  obtain ⟨m', hs', hend⟩ := exists_of_passes hrun
  simp only [Bool.and_eq_true, decide_eq_true_eq] at hend
  have hi := initial_of_start Kernel.zeroed_powerOn hm
  have hr₀ : Run Step m₀ managerTrace m := (run_of_exec hs).mono fun _ _ _ => step_of_fire
  have hr : Run (Outlives testThreadAddr) m _ m' := (run_of_exec hs').mono fun _ _ _ hst =>
    ⟨step_of_fire (of_guarded hst).1, (of_guarded hst).2⟩
  have hne : (m.k.tcb testThreadAddr).manager .sysbp ≠ null := by
    rw [hman]
    decide
  have hfixed := managers_fixed hi hr₀ hr ⟨by decide, hfree⟩ hne
  exact ⟨m₀, m, m', _, hi, hr₀, hr, hend.1, hend.2, hfixed.trans hman⟩

end Machine

end AmiKaya
