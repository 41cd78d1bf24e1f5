import AmiKaya.Frames
import AmiKaya.ManagerSet
import AmiKaya.Unqueued

/-! The managers that threads name, along a run: each of them is alive, registered, and the thread
that was specified, as long as nobody who is named is terminated. -/
namespace AmiKaya
open Lts Slots

/-- History: how often each TCB has been allocated, which allocation of its manager each field of a
TCB stands for, and the last kernel entry of each thread. -/
structure Names where
  gen : Ptr → Nat
  spec : Ptr → Trap → Nat
  last : Ptr → Entry

def Names.start : Names := ⟨fun _ => 0, fun _ _ => 0, fun _ => .program⟩

/-- What a call of the SSI adds to the history. -/
def Names.noteCall (k : Kernel) (h : Names) : Call → Names
  | .allocTcb => { h with gen := put h.gen k.allocTcb.1 (h.gen k.allocTcb.1 + 1) }
  | .inherit q p => { h with spec := put h.spec p (h.spec q) }
  | .setManager x p q => { h with spec := put h.spec p (put (h.spec p) x (h.gen q)) }
  | _ => h

def Names.note (m : Machine) (e : Event) (m' : Machine) (h : Names) : Names :=
  let h := { h with last := m.note e m' h.last }
  match e with
  | .ssi _ => h.noteCall m.k (m.ssi.call m.k)
  | _ => h

namespace Kernel

/-- A field of a TCB that names a manager names a thread that is alive, registered, and the one that
was specified. -/
def Names (k : Kernel) (h : Names) (p : Ptr) (x : Trap) : Prop :=
  (k.tcb p).manager x ≠ null → k.Live ((k.tcb p).manager x) ∧
    k.thereIsManager ((k.tcb p).manager x) ≠ null ∧ h.spec p x = h.gen ((k.tcb p).manager x)

/-- The thread is in the wait queue since a trap, until its manager answers. -/
def FrozenFor (k : Kernel) (h : AmiKaya.Names) (p q : Ptr) : Prop :=
  p ∈ k.waitQueue ∧ h.last p = .trap q ∧ q ≠ null

instance (k : Kernel) (h : AmiKaya.Names) (p q : Ptr) : Decidable (k.FrozenFor h p q) :=
  inferInstanceAs (Decidable (_ ∧ _ ∧ _))

end Kernel

theorem holds_erase {a : Nat → Ptr} {d q : Ptr} (h : Holds maxThreads a q) (hd : q ≠ d) :
    Holds maxThreads (eraseManager a d) q := by
  obtain ⟨i, hi, rfl⟩ := h
  unfold eraseManager
  split
  · exact ⟨i, hi, rfl⟩
  · next j hj =>
    simp only [List.find?_range_eq_some, decide_eq_true_eq] at hj
    have hij : i ≠ j := by
      rintro rfl
      exact hd hj.1
    exact ⟨i, hi, Links.put_ne hij⟩

theorem holds_foldl_erase {a : Nat → Ptr} {ds : List Ptr} {q : Ptr} (h : Holds maxThreads a q)
    (hd : q ∉ ds) : Holds maxThreads (ds.foldl eraseManager a) q := by
  induction ds generalizing a with
  | nil => exact h
  | cons d ds ih =>
    simp only [List.mem_cons, not_or] at hd
    exact ih (holds_erase h hd.1) hd.2

theorem holds_insert {a : Nat → Ptr} {d q : Ptr} (h : Holds maxThreads a q) (hq : q ≠ null) :
    Holds maxThreads (insertManager a d) q := by
  obtain ⟨i, hi, rfl⟩ := h
  unfold insertManager
  split
  · exact ⟨i, hi, rfl⟩
  · next j hj =>
    simp only [List.find?_range_eq_some, Bool.or_eq_true, decide_eq_true_eq] at hj
    by_cases hij : i = j
    · subst hij
      rcases hj.1 with hd | hn
      · exact ⟨i, hi, by rw [Links.put_same, hd]⟩
      · exact absurd hn hq
    · exact ⟨i, hi, Links.put_ne hij⟩

/-- The SSI is about to give its requester a manager for the exception. -/
def SsiPc.sets : SsiPc → Trap → Bool
  | .specWait e, x | .addManager e, x | .setManager e, x => e = x
  | _, _ => false

theorem Ssi.next_sets {s : Ssi} {k : Kernel} {r : U32} {x : Trap}
    (h : (s.next k r).pc.sets x = true) :
    (s.next k r).reqThread = s.reqThread ∧
      (s.pc.sets x = true ∧ (∀ e, s.pc ≠ .setManager e) ∨
        s.pc = .spec x ∧ (k.tcb s.reqThread).manager x = null) := by
  cases hpc : s.pc <;> simp only [next, hpc] at h ⊢
  case serve =>
    exfalso
    unfold dispatch recordClock at h
    dsimp only at h
    repeat' split at h
    all_goals simp [SsiPc.sets] at h
  case spec e =>
    split at h
    · simp [SsiPc.sets] at h
    · next hman =>
      have he : e = x := by
        split at h <;> simpa [SsiPc.sets] using h
      subst he
      have hreq : ∀ (a b : SsiPc) (c : Prop) [Decidable c],
          (if c then { s with pc := a } else { s with pc := b } : Ssi).reqThread = s.reqThread := by
        intro a b c _
        split <;> rfl
      rw [if_neg hman]
      exact ⟨hreq _ _ _, .inr ⟨rfl, by simpa using hman⟩⟩
  case alloc c | noGood c =>
    exfalso
    cases c <;> repeat' split at h
    all_goals simp [SsiPc.sets, Create.linkPc] at h
  all_goals
    repeat' split at h
    all_goals simp_all [SsiPc.sets]

namespace Machine

variable {m m' : Machine} {e : Event} {p q : Ptr} {x : Trap} {hist : Names}

@[simp] theorem note_last : (hist.note m e m').last = m.note e m' hist.last := by
  cases e with
  | ssi old =>
    simp only [Names.note]
    cases m.ssi.call m.k <;> rfl
  | sysbp | pgmtrap | tlb | interrupt | devices | store | edit => rfl

/-- The TCBs in use were so before, or the SSI has just allocated them. -/
theorem allocated_step (hw : m.Wf) (h : m.Step e m') (ha : m'.k.Allocated p) :
    m.k.Allocated p ∨ ∃ old, e = .ssi old ∧ m.ssi.call m.k = .allocTcb ∧
      m.k.allocTcb = (p, m'.k) ∧ p ≠ null := by
  by_cases hs : m.isSteady e = true
  · obtain ⟨ds, hds⟩ := step_steady hs h
    refine .inl ⟨ha.1, fun hf => ha.2 ?_⟩
    rw [hds.tcbFree]
    exact List.mem_append_left _ hf
  · cases e with
    | interrupt old => exact .inl ⟨ha.1, (interrupt_managers h).2.2 ▸ ha.2⟩
    | ssi old =>
      obtain ⟨r, hperf, -⟩ := ssi_step h
      simp only [isSteady] at hs
      cases hcall : m.ssi.call m.k <;> rw [hcall] at hs hperf <;>
        simp only [Call.isSteady, not_true_eq_false] at hs
      case allocTcb =>
        have hal : m.k.allocTcb = (r, m'.k) := Except.ok.inj hperf
        by_cases hr : r = null
        · subst hr
          have hn : null ∉ m.k.tcbFree := fun hm =>
            hw.placed.ne_null (Kernel.mem_places.mpr (.inr (.inr (.inl hm)))) rfl
          obtain ⟨-, hk⟩ := Kernel.allocTcb_null hn hal
          exact .inl (hk ▸ ha)
        · rcases (Kernel.alloc_allocated hw.placed hal hr).mp ha with rfl | ha
          · exact .inr ⟨old, rfl, rfl, hal, hr⟩
          · exact .inl ha
      all_goals
        simp only [Kernel.perform, Except.ok.injEq, Prod.mk.injEq] at hperf
        rw [← hperf.2] at ha
        exact .inl ha
    | sysbp | pgmtrap | tlb | devices | store | edit => simp [isSteady] at hs

/-- A TCB in use that a step frees is below the thread the step terminates. -/
theorem Lineage.freed (hl : m.Lineage) (hw : m.Wf) (h : m.Step e m') (ha : m.k.Allocated q)
    (hf : q ∈ m'.k.tcbFree) : ∃ t, m.target e = some t ∧ m.k.Below t q := by
  cases ht : m.target e with
  | some t =>
    obtain ⟨-, hmem, -⟩ := hl.terminated hw h ht
    refine ⟨t, rfl, ?_⟩
    by_contra hb
    exact ((hmem q).mpr ⟨ha, hb⟩).2 hf
  | none =>
    exfalso
    cases hg : m.grows e with
    | false =>
      obtain ⟨k, hb, -⟩ := step_body h
      have hs := (body_sameTree hw h.1 ht hg hb).trans (step_sameTree hw h hb)
      exact ha.2 (hs.tcbFree ▸ hf)
    | true =>
      obtain ⟨old, rfl, hpc⟩ := grows_cases hg
      obtain ⟨r, hperf, -⟩ := ssi_step h
      cases hcall : m.ssi.call m.k <;> simp only [grows, hcall, Call.grows] at hg <;>
        rw [hcall] at hperf
      case allocTcb =>
        have hk : m'.k = m.k.allocTcb.2 := by
          simp only [Kernel.perform, Except.ok.injEq] at hperf
          rw [hperf]
        have hsub : m.k.allocTcb.2.tcbFree ⊆ m.k.tcbFree := by
          unfold Kernel.allocTcb
          split
          · exact fun _ hm => hm
          · next p free hfree =>
            rw [hfree]
            exact List.subset_cons_self _ _
        exact ha.2 (hsub (hk ▸ hf))
      case insertChild | insertSibling =>
        simp only [Kernel.perform] at hperf
        split at hperf
        · cases hperf
        · simp only [Except.ok.injEq, Prod.mk.injEq] at hperf
          rw [← hperf.2] at hf
          exact ha.2 hf
      all_goals cases hg

/-- What is registered stays so unless it is freed. -/
theorem holds_step (h : m.Step e m') (hh : Holds maxThreads m.k.trapManagers q) (hq : q ≠ null)
    (hf : q ∉ m'.k.tcbFree) : Holds maxThreads m'.k.trapManagers q := by
  by_cases hs : m.isSteady e = true
  · obtain ⟨ds, hds⟩ := step_steady hs h
    rw [hds.trapManagers]
    rw [hds.tcbFree, List.mem_append, not_or] at hf
    exact holds_foldl_erase hh hf.2
  · cases e with
    | interrupt old =>
      rw [(interrupt_managers h).2.1]
      exact hh
    | ssi old =>
      obtain ⟨r, hperf, -⟩ := ssi_step h
      simp only [isSteady] at hs
      cases hcall : m.ssi.call m.k <;> rw [hcall] at hs hperf <;>
        simp only [Call.isSteady, not_true_eq_false] at hs
      case allocTcb =>
        have hk : m'.k = m.k.allocTcb.2 := by
          simp only [Kernel.perform, Except.ok.injEq] at hperf
          rw [hperf]
        rw [hk, Kernel.allocTcb]
        split <;> exact hh
      case addManager =>
        simp only [Kernel.perform, Except.ok.injEq, Prod.mk.injEq] at hperf
        rw [← hperf.2]
        exact holds_insert hh hq
      all_goals
        simp only [Kernel.perform, Except.ok.injEq, Prod.mk.injEq] at hperf
        rw [← hperf.2]
        exact hh
    | sysbp | pgmtrap | tlb | devices | store | edit => simp [isSteady] at hs

theorem setManager_manager (t : Tcb) (x y : Trap) (q : Ptr) :
    (t.setManager x q).manager y = if y = x then q else t.manager y := by
  cases x <;> cases y <;> rfl

/-- Where the content of a manager field comes from. -/
theorem manager_cases (h : m.Step e m') (p : Ptr) (x : Trap) :
    ((m'.k.tcb p).manager x = (m.k.tcb p).manager x ∧
      ∀ hist, (Names.note m e m' hist).spec p x = hist.spec p x) ∨
    ∃ old, e = .ssi old ∧
      ((m.ssi.call m.k = .allocTcb ∧ m.k.allocTcb.1 = p ∧ (m'.k.tcb p).manager x = null) ∨
      (∃ q, m.ssi.call m.k = .inherit q p ∧ (m'.k.tcb p).manager x = (m.k.tcb q).manager x) ∨
      ∃ q, m.ssi.call m.k = .setManager x p q ∧ (m'.k.tcb p).manager x = q) := by
  by_cases hs : m.isSteady e = true
  · obtain ⟨ds, hds⟩ := step_steady hs h
    refine .inl ⟨hds.manager p x, fun hist => ?_⟩
    cases e with
    | ssi old =>
      simp only [isSteady] at hs
      simp only [Names.note]
      cases hcall : m.ssi.call m.k <;> simp only [hcall, Call.isSteady, Bool.false_eq_true] at hs <;> rfl
    | sysbp | pgmtrap | tlb | interrupt | devices | store | edit => rfl
  · cases e with
    | interrupt old => exact .inl ⟨(interrupt_managers h).1 p x, fun _ => rfl⟩
    | ssi old =>
      obtain ⟨r, hperf, -⟩ := ssi_step h
      simp only [isSteady] at hs
      simp only [Names.note]
      cases hcall : m.ssi.call m.k <;> rw [hcall] at hs hperf <;>
        simp only [Call.isSteady, not_true_eq_false] at hs
      case allocTcb =>
        have hk : m'.k = m.k.allocTcb.2 := by
          simp only [Kernel.perform, Except.ok.injEq] at hperf
          rw [hperf]
        rw [hk]
        by_cases hp : m.k.allocTcb.1 = p
        · unfold Kernel.allocTcb at hp ⊢
          split at hp
          · exact .inl ⟨rfl, fun _ => rfl⟩
          · next q free hf =>
            subst hp
            refine .inr ⟨old, rfl, .inl ⟨rfl, rfl, ?_⟩⟩
            cases x <;> simp [Kernel.setTcb, Kernel.freshTcb, Tcb.manager]
        · refine .inl ⟨?_, fun _ => rfl⟩
          unfold Kernel.allocTcb at hp ⊢
          split at hp
          · rfl
          · simp [Kernel.setTcb, Ne.symm hp]
      case addManager =>
        simp only [Kernel.perform, Except.ok.injEq, Prod.mk.injEq] at hperf
        rw [← hperf.2]
        exact .inl ⟨rfl, fun _ => rfl⟩
      case inherit source dest =>
        simp only [Kernel.perform, Except.ok.injEq, Prod.mk.injEq] at hperf
        rw [← hperf.2]
        by_cases hp : p = dest
        · subst hp
          refine .inr ⟨old, rfl, .inr (.inl ⟨source, rfl, ?_⟩)⟩
          cases x <;> simp [Kernel.setTcb, Tcb.manager]
        · exact .inl ⟨by simp [Kernel.setTcb, hp], fun _ => by simp [Names.noteCall, hp]⟩
      case setManager y dest q =>
        simp only [Kernel.perform, Except.ok.injEq, Prod.mk.injEq] at hperf
        rw [← hperf.2]
        by_cases hp : p = dest
        · subst hp
          by_cases hx : x = y
          · subst hx
            exact .inr ⟨old, rfl, .inr (.inr ⟨q, rfl, by simp [Kernel.setTcb, setManager_manager]⟩)⟩
          · exact .inl ⟨by simp [Kernel.setTcb, setManager_manager, hx],
              fun _ => by simp [Names.noteCall, hx]⟩
        · exact .inl ⟨by simp [Kernel.setTcb, hp], fun _ => by simp [Names.noteCall, hp]⟩
    | sysbp | pgmtrap | tlb | devices | store | edit => simp [isSteady] at hs

/-- A thread that a step frees is named by nobody that the step leaves in use. -/
def NamesKept (m : Machine) (e : Event) : Prop :=
  ∀ t ∈ m.target e, ∀ p x, m.k.Allocated p → ¬ m.k.Below t p → (m.k.tcb p).manager x ≠ null →
    ¬ m.k.Below t ((m.k.tcb p).manager x)

/-- What the SSI writes in the manager fields is right: a specified manager is alive and registered,
and so is one inherited from a requester that has been terminated. -/
def NamesLive (m : Machine) (h : Names) (e : Event) : Prop :=
  ∀ old, e = .ssi old →
    (∀ q p, m.ssi.call m.k = .inherit q p → ¬ m.k.Allocated q → ∀ x, m.k.Names h q x) ∧
    ∀ x p q, m.ssi.call m.k = .setManager x p q → m.k.Allocated p → q ≠ null →
      m.k.Live q ∧ m.k.thereIsManager q ≠ null

/-- A step that keeps the manager fields right, together with its history. -/
def NamesStep (s : Machine × Names) (e : Event) (t : Machine × Names) : Prop :=
  withHistory CleanStep Names.note s e t ∧ s.1.NamesKept e ∧ s.1.NamesLive s.2 e

/-- A field names somebody only if it is right to, the field the SSI is about to set is empty, and
a frozen thread still names the manager it waits for. -/
structure Naming (m : Machine) (h : Names) : Prop where
  names : ∀ p x, m.k.Allocated p → m.k.Names h p x
  unset : ∀ x, m.ssi.pc.sets x = true → (m.k.tcb m.ssi.reqThread).manager x = null
  frozen : ∀ p q, m.k.FrozenFor h p q → ∃ x, (m.k.tcb p).manager x = q

/-- Nobody in use is the TCB that an allocation takes. -/
theorem gen_step (hw : m.Wf) (hq : m.k.Live q) : (hist.note m e m').gen q = hist.gen q := by
  cases e with
  | ssi old =>
    simp only [Names.note]
    cases hcall : m.ssi.call m.k <;> try rfl
    have hne : q ≠ m.k.allocTcb.1 := by
      rintro rfl
      have hn := hw.placed.ne_null hq.mem_places
      have hal : m.k.allocTcb = (m.k.allocTcb.1, m.k.allocTcb.2) := rfl
      exact Kernel.alloc_not_allocated hal hn (hq.allocated hw.placed)
    simp [Names.noteCall, hne]
  | sysbp | pgmtrap | tlb | interrupt | devices | store | edit => rfl

/-- A registered thread that is not freed is as good a manager after the step. -/
theorem named_step (hist : Names) (hw : m.Wf) (h : m.Step e m') (hq : m.k.Live q)
    (hr : m.k.thereIsManager q ≠ null)
    (hf : q ∉ m'.k.tcbFree) : m'.k.Live q ∧ m'.k.thereIsManager q ≠ null ∧
      (hist.note m e m').gen q = hist.gen q := by
  obtain ⟨hn, hh⟩ := Kernel.thereIsManager_ne_null.mp hr
  exact ⟨live_step hw h hq hf, Kernel.thereIsManager_ne_null.mpr ⟨hn, holds_step h hh hn hf⟩,
    gen_step hw hq⟩

/-- Only a step that terminates frees somebody. -/
theorem Lineage.not_freed (hl : m.Lineage) (hw : m.Wf) (h : m.Step e m') (ht : m.target e = none)
    (hq : m.k.Live q) : q ∉ m'.k.tcbFree := by
  intro hf
  obtain ⟨t, ht', -⟩ := hl.freed hw h (hq.allocated hw.placed) hf
  rw [ht] at ht'
  cases ht'

theorem Naming.names_step (hn : m.Naming hist) (hw : m.Wf) (hl : m.Lineage) (h : m.Step e m')
    (hkept : m.NamesKept e) (hlive : m.NamesLive hist e) (ha : m'.k.Allocated p) :
    m'.k.Names (hist.note m e m') p x := by
  intro hne
  rcases manager_cases h p x with ⟨hman, hspec⟩ | ⟨old, rfl, hcases⟩
  · rcases allocated_step hw h ha with ha' | ⟨old, rfl, hcall, hal, hp⟩
    · rw [hman] at hne ⊢
      obtain ⟨hq, hr, hs⟩ := hn.names p x ha' hne
      have hf : (m.k.tcb p).manager x ∉ m'.k.tcbFree := by
        intro hf
        obtain ⟨t, ht, hb⟩ := hl.freed hw h (hq.allocated hw.placed) hf
        obtain ⟨-, hmem, -⟩ := hl.terminated hw h ht
        exact hkept t ht p x ha' ((hmem p).mp ha).2 hne hb
      obtain ⟨hq', hr', hg⟩ := named_step hist hw h hq hr hf
      exact ⟨hq', hr', by rw [hspec, hg, hs]⟩
    · obtain ⟨free, -, hk⟩ := Kernel.allocTcb_cases hal hp
      rw [hk] at hne
      exact absurd (by cases x <;> simp [Kernel.freshTcb, Tcb.manager]) hne
  · rcases hcases with ⟨-, -, hman⟩ | ⟨q, hcall, hman⟩ | ⟨q, hcall, hman⟩
    · exact absurd hman hne
    · have hq : m.k.Names hist q x := by
        by_cases hqa : m.k.Allocated q
        · exact hn.names q x hqa
        · exact (hlive old rfl).1 q p hcall hqa x
      rw [hman] at hne ⊢
      obtain ⟨hq, hr, hs⟩ := hq hne
      have hf := hl.not_freed hw h (by simp [target, hcall]) hq
      obtain ⟨hq', hr', hg⟩ := named_step hist hw h hq hr hf
      refine ⟨hq', hr', ?_⟩
      rw [hg, ← hs]
      simp [Names.note, hcall, Names.noteCall]
    · have ha' : m.k.Allocated p := by
        rcases allocated_step hw h ha with ha' | ⟨-, -, hcall', -⟩
        · exact ha'
        · rw [hcall] at hcall'
          cases hcall'
      rw [hman] at hne ⊢
      obtain ⟨hq, hr⟩ := (hlive old rfl).2 x p q hcall ha' hne
      have hf := hl.not_freed hw h (by simp [target, hcall]) hq
      obtain ⟨hq', hr', hg⟩ := named_step hist hw h hq hr hf
      refine ⟨hq', hr', ?_⟩
      rw [hg]
      simp [Names.note, hcall, Names.noteCall]

theorem Naming.unset_step (hn : m.Naming hist) (h : m.Step e m') (hs : m'.ssi.pc.sets x = true) :
    (m'.k.tcb m'.ssi.reqThread).manager x = null := by
  have hkeep : ∀ p, (∀ old, e = .ssi old → (∀ q, m.ssi.call m.k ≠ .inherit q p) ∧
      ∀ q, m.ssi.call m.k ≠ .setManager x p q) → (m.k.tcb p).manager x = null →
      (m'.k.tcb p).manager x = null := by
    intro p hne hnull
    rcases manager_cases h p x with ⟨hman, -⟩ | ⟨old, he, ⟨-, -, hman⟩ | ⟨q, hc, -⟩ | ⟨q, hc, -⟩⟩
    · rw [hman, hnull]
    · exact hman
    · exact absurd hc ((hne old he).1 q)
    · exact absurd hc ((hne old he).2 q)
  rcases step_cases h with ⟨hssi, hne⟩ | ⟨old, r, rfl, -, -, hssi⟩
  · rw [hssi] at hs ⊢
    exact hkeep _ (fun old he => absurd he (hne old)) (hn.unset x hs)
  · rw [hssi] at hs ⊢
    obtain ⟨hreq, hpc⟩ := Ssi.next_sets hs
    have hat := m.ssi.call_at m.k
    rw [hreq]
    refine hkeep _ (fun _ _ => ⟨fun q hc => ?_, fun q hc => ?_⟩) ?_
    · rw [hc] at hat
      rcases hpc with ⟨hpc, -⟩ | ⟨hpc, -⟩
      · simp [hat.1, SsiPc.sets] at hpc
      · simp [hat.1] at hpc
    · rw [hc] at hat
      rcases hpc with ⟨-, hpc⟩ | ⟨hpc, -⟩
      · exact hpc x hat.1
      · simp [hat.1] at hpc
    · rcases hpc with ⟨hpc, -⟩ | ⟨-, hnull⟩
      · exact hn.unset x hpc
      · exact hnull

/-- A trap goes to the manager the current thread names. -/
theorem manager_of_entry (h : m.entry e = .trap q) :
    ∃ x, (m.k.tcb m.k.currentThread).manager x = q := by
  cases e with
  | sysbp old =>
    refine ⟨.sysbp, ?_⟩
    simp only [entry, Kernel.sysbpEntry] at h
    split at h
    · cases h
    · split at h
      · cases h
      · exact Entry.trap.inj h
  | pgmtrap old => exact ⟨.pgmtrap, Entry.trap.inj h⟩
  | tlb old => exact ⟨.tlbtrap, Entry.trap.inj h⟩
  | ssi old =>
    simp only [entry] at h
    split at h <;> cases h
  | interrupt | devices | store | edit => cases h

/-- A thread keeps the managers it has. -/
theorem Naming.manager_step (hn : m.Naming hist) (hw : m.Wf) (h : m.Step e m') (hp : m.k.Live p)
    (hq : q ≠ null) (hman : (m.k.tcb p).manager x = q) : (m'.k.tcb p).manager x = q := by
  have hat := m.ssi.call_at m.k
  rcases manager_cases h p x with ⟨hsame, -⟩ | ⟨old, rfl, ⟨-, hal, -⟩ | ⟨s, hc, -⟩ | ⟨s, hc, -⟩⟩
  · rw [hsame, hman]
  · exfalso
    have hnull := hw.placed.ne_null hp.mem_places
    have hpair : m.k.allocTcb = (p, m.k.allocTcb.2) := by rw [← hal]
    exact Kernel.alloc_not_allocated hpair hnull (hp.allocated hw.placed)
  · exfalso
    rw [hc] at hat
    obtain ⟨hpc, -, rfl⟩ := hat
    have hl := hw.linked (by rw [hpc]; rfl)
    exact (hw.creating (by rw [hpc]; rfl) hl).2 hp.mem_places
  · exfalso
    rw [hc] at hat
    obtain ⟨hpc, rfl⟩ := hat
    have hnull := hn.unset x (by simp [hpc, SsiPc.sets])
    exact hq (hman.symm.trans hnull)

theorem Naming.frozen_step (hn : m.Naming hist) (hw : m.Wf) (h : m.Step e m')
    (hf : m'.k.FrozenFor (hist.note m e m') p q) : ∃ x, (m'.k.tcb p).manager x = q := by
  obtain ⟨hwait, hlast, hq⟩ := hf
  rw [note_last, note] at hlast
  rcases Ops.wait hw.placed (ops_of_step hw h) hwait with hpre | ⟨rfl, hx⟩
  · have hne : p ≠ m.k.currentThread := fun he => (hw.placed.wait_notMem hpre).2.2 he.symm
    have hlast' : hist.last p = .trap q := by
      split at hlast
      · rwa [Links.put_ne hne] at hlast
      · exact hlast
    obtain ⟨x, hman⟩ := hn.frozen p q ⟨hpre, hlast', hq⟩
    exact ⟨x, hn.manager_step hw h (.inr (.inl hpre)) hq hman⟩
  · have hcall : (m.entry e).isCall = true := by
      rcases hx with ⟨w, hx⟩ | ⟨t, hx⟩ <;> rw [hx] <;> rfl
    rw [if_pos hcall, Links.put_same] at hlast
    obtain ⟨x, hman⟩ := manager_of_entry hlast
    have hcur : m.k.currentThread ≠ null :=
      (hw.step h).placed.ne_null (Kernel.mem_places.mpr (.inr (.inl hwait)))
    exact ⟨x, hn.manager_step hw h (.inr (.inr (Kernel.mem_running.mpr ⟨rfl, hcur⟩))) hq hman⟩

theorem Naming.step (hn : m.Naming hist) (hw : m.Wf) (hl : m.Lineage) (h : m.Step e m')
    (hkept : m.NamesKept e) (hlive : m.NamesLive hist e) : m'.Naming (hist.note m e m') where
  names _ _ ha := hn.names_step hw hl h hkept hlive ha
  unset _ hs := hn.unset_step h hs
  frozen _ _ hf := hn.frozen_step hw h hf

end Machine

/-- The two boot threads have no managers. -/
theorem Kernel.main_managers {k k' : Kernel} (hm : k.main = .ok k') (x : Trap) :
    (k'.tcb threadArrayAddr).manager x = null ∧ (k'.tcb testThreadAddr).manager x = null := by
  have hne : threadArrayAddr ≠ null ∧ testThreadAddr ≠ null := by decide
  have hne' : threadArrayAddr ≠ testThreadAddr := by decide
  obtain ⟨k₁, hb, hs⟩ := bind_eq_ok.mp hm
  unfold boot at hb
  dsimp only at hb
  rw [bootThread_eq _ _ threadArray_eq hne.1] at hb
  dsimp only [bind, Except.bind] at hb
  rw [bootThread_eq _ _ rfl hne.2] at hb
  have hk := Except.ok.inj hb
  subst hk
  have hst := Steady.scheduler hs
  rw [hst.manager, hst.manager]
  cases x <;> simp [readTodlow, hne', freshTcb, Tcb.manager]

namespace Machine

variable {m m' : Machine} {hist : Names} {es : List Event}

theorem initial_naming (h : m.Initial) : m.Naming .start := by
  obtain ⟨k, hp, hm⟩ := h.boot
  have hb := Kernel.main_booted hp hm
  refine ⟨fun p x ha hne => ?_, by simp [h.pc, SsiPc.sets], fun p q hf => ?_⟩
  · have hmem := ha.1
    rw [threadArray_eq, List.mem_cons, List.mem_cons] at hmem
    have hnull := Kernel.main_managers hm x
    rcases hmem with rfl | rfl | hfree
    · exact absurd hnull.1 hne
    · exact absurd hnull.2 hne
    · exact absurd (hb.tcbFree ▸ hfree) ha.2
  · have hw := hf.1
    rw [hb.waitQueue] at hw
    cases hw

theorem naming_of_run (h : m.Initial) (hr : Run NamesStep (m, .start) es (m', hist)) :
    m'.Wf ∧ m'.Lineage ∧ m'.Naming hist := by
  refine hr.inv (I := fun s => s.1.Wf ∧ s.1.Lineage ∧ s.1.Naming s.2) ?_ ?_
  · rintro s e t ⟨⟨hs, hh⟩, hkept, hlive⟩ ⟨hw, hl, hn⟩
    rw [hh]
    exact ⟨hw.step hs.1, hl.step hw hs.1 hs.2, hn.step hw hl hs.1 hkept hlive⟩
  · have hnil : Run CleanStep m [] m := .refl
    have hl := (lineage_of_run h hnil).2
    exact ⟨initial_wf h, hl, initial_naming h⟩

/-- In every state reached, each manager that a live thread names is alive, registered and the
thread that was specified, and so is the one for which a thread is frozen. -/
theorem managers_of_run (h : m.Initial) (hr : Run NamesStep (m, .start) es (m', hist)) :
    (∀ p x, m'.k.Live p → m'.k.Names hist p x) ∧
      ∀ p q, m'.k.FrozenFor hist p q → m'.k.Live q ∧ m'.k.thereIsManager q ≠ null ∧
        ∃ x, (m'.k.tcb p).manager x = q ∧ hist.spec p x = hist.gen q := by
  obtain ⟨hw, -, hn⟩ := naming_of_run h hr
  refine ⟨fun p x hp => hn.names p x (hp.allocated hw.placed), fun p q hf => ?_⟩
  obtain ⟨x, rfl⟩ := hn.frozen p q hf
  have hp : m'.k.Live p := .inr (.inl hf.1)
  obtain ⟨hl, hr, hs⟩ := hn.names p x (hp.allocated hw.placed) hf.2.2
  exact ⟨hl, hr, x, rfl, hs⟩

/-- The SSI copies managers from a TCB in use, and sets one that is alive and registered. -/
def setsLive (m : Machine) : Event → Bool
  | .ssi _ => match m.ssi.call m.k with
    | .inherit q _ => q ∈ threadArray && q ∉ m.k.tcbFree
    | .setManager _ _ q => m.k.Live q && m.k.thereIsManager q ≠ null
    | _ => true
  | _ => true

theorem namesLive_of_setsLive {e : Event} (h : m.setsLive e = true) : m.NamesLive hist e := by
  rintro old rfl
  simp only [setsLive] at h
  refine ⟨fun q p hc hq => ?_, fun x p q hc _ _ => ?_⟩
  · simp only [hc, Bool.and_eq_true, decide_eq_true_eq] at h
    exact absurd h hq
  · simpa only [hc, Bool.and_eq_true, decide_eq_true_eq] using h

/-- The test thread creates a child, which waits for a message, and specifies it as the manager of
its program traps. -/
def specTrace : List Event :=
  Event.ssiCalls 2 ++ Event.ssiRequest createSon 0 ++ Event.ssiCalls 12 ++
    [Event.call sysRecv anyMessage 0x20030200] ++ Event.ssiRequest specPrgMgr thirdThreadAddr ++
    Event.ssiCalls 10

/-- The test thread traps. -/
theorem managers_of_run_trap : ∃ (m m' : Machine) (hist : Names),
    Run NamesStep (m, .start) (specTrace ++ [.pgmtrap initTState]) (m', hist) ∧
      m'.k.FrozenFor hist testThreadAddr thirdThreadAddr ∧ m'.k.Live thirdThreadAddr := by
  have hrun : passes (fun m => passes (fun s => decide (s.1.k.FrozenFor s.2 testThreadAddr thirdThreadAddr))
      (exec (guarded (fun s e _ => s.1.target e = none ∧ s.1.LinksLive e ∧
        s.1.ssi.pc ≠ .link .brother ∧ s.1.setsLive e = true) Stop.fault (execWith fire Names.note))
        (m, .start) (specTrace ++ [.pgmtrap initTState]))) (start .zeroed) = true := by
    decide +kernel
  obtain ⟨m, hm, hrun⟩ := exists_of_passes hrun
  obtain ⟨⟨m', hist⟩, hs, hend⟩ := exists_of_passes hrun
  have hf : m'.k.FrozenFor hist testThreadAddr thirdThreadAddr := of_decide_eq_true hend
  have hr : Run NamesStep (m, .start) (specTrace ++ [.pgmtrap initTState]) (m', hist) := by
    refine (run_of_guarded (fun _ _ _ => step_of_fire) hs).mono fun s e t hst => ?_
    obtain ⟨⟨hst, hh⟩, ht, hl, hpc, hset⟩ := hst
    refine ⟨⟨⟨hst, linksClean_of_live hl hpc⟩, hh⟩, ?_, namesLive_of_setsLive hset⟩
    rintro t' ht'
    rw [ht] at ht'
    cases ht'
  have hall := managers_of_run (initial_of_start Kernel.zeroed_powerOn hm) hr
  exact ⟨m, m', hist, hr, hf, (hall.2 _ _ hf).1⟩

/-- The manager dies of a trap of its own, then the test thread traps. -/
def deadManagerTrace : List Event :=
  specTrace ++ [Event.call sysSend thirdThreadAddr 0] ++ Event.ssiRequest getCpuTime 0 ++
    [.pgmtrap initTState] ++ Event.ssiCalls 6 ++ [.pgmtrap initTState]

/-- The test thread still names the dead thread, and is frozen for it. -/
theorem managers_dangling : ¬ ∀ (m m' : Machine) (hist : Names) (es : List Event), m.Initial →
    Run (withHistory Step Names.note) (m, .start) es (m', hist) →
      (∀ p x, m'.k.Live p → m'.k.Names hist p x) ∧
        ∀ p q, m'.k.FrozenFor hist p q → m'.k.Live q := by
  intro hall
  have hrun : passes (fun m => passes (fun s =>
      decide (s.1.k.FrozenFor s.2 testThreadAddr thirdThreadAddr) &&
        decide (¬ s.1.k.Live thirdThreadAddr))
      (exec (execWith fire Names.note) (m, .start) deadManagerTrace)) (start .zeroed) = true := by
    decide +kernel
  obtain ⟨m, hm, hrun⟩ := exists_of_passes hrun
  obtain ⟨⟨m', hist⟩, hs, hbad⟩ := exists_of_passes hrun
  simp only [Bool.and_eq_true, decide_eq_true_eq] at hbad
  have hr : Run (withHistory Step Names.note) (m, .start) deadManagerTrace (m', hist) :=
    run_of_execWith (fun _ _ _ => step_of_fire) hs
  have hclaim := hall m m' hist _ (initial_of_start Kernel.zeroed_powerOn hm) hr
  exact hbad.2 (hclaim.2 _ _ hbad.1)

end Machine

end AmiKaya
