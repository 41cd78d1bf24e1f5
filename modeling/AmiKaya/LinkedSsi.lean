import AmiKaya.Kinship
import AmiKaya.LinkedHandlers

/-! The calls of the SSI over the list nodes. Every TCB that it names has been allocated once, so
its list heads have been initialised. -/
namespace AmiKaya
open Client Links

/-- The lists are those of the kernel, and the TCBs the SSI works on are known. -/
structure Lists.Serves (s : Lists) (m : Machine) : Prop where
  shows : s.Shows m.k
  requester : m.ssi.pc.serves = true → m.ssi.reqThread ∈ s.known
  parent : m.ssi.pc = .link .brother → m.ssi.parent ≠ null → m.ssi.parent ∈ s.known

namespace Lists.Shows

variable {s : Lists} {k k' : Kernel} {old : State}

theorem allocTcb (hs : s.Shows k) : (Code.allocTcb k.bare).Does s
    (k.allocTcb.1, k.allocTcb.2.bare) k.allocTcb.2 := by
  have hmade := hs.made (q := .tcbFree) trivial
  have hlist : s.queues.list tcbfreeSentinel = k.tcbFree := hs.list_eq (q := .tcbFree) trivial
  cases hf : k.tcbFree with
  | nil =>
    rw [hf] at hlist
    have hcall : s.call (.queue .allocTcb) = (null, s) := by
      simp only [Lists.call, Lists.allocTcb, hlist]
    have hal : k.allocTcb = (null, k) := by simp only [Kernel.allocTcb, hf]
    rw [hal]
    refine .peek ⟨hmade, ?_⟩ hcall (.pos rfl (.done rfl hs))
    simp [hlist]
  | cons p free =>
    rw [hf] at hlist
    have hp : p ∈ threadArray := by
      refine hs.items .tcbFree trivial p (show p ∈ k.tcbFree from ?_)
      simp [hf]
    have hne : p ≠ null := fun he => null_notMem_threadArray (he ▸ hp)
    obtain ⟨hresult, -, hknown, -⟩ := Lists.allocTcb_fields hlist
    have hal : k.allocTcb.1 = p := by simp only [Kernel.allocTcb, hf]
    have hcall := congrArg (fun r => (r, s.allocTcb.2)) hresult
    refine .call ⟨hmade, ?_⟩ hcall ?_ (.neg hne (.done ?_ ?_))
    · simp [hlist, hp]
    · intro q hq
      rw [hknown]
      exact List.mem_cons_of_mem _ hq
    · rw [hal]
      refine congrArg (Prod.mk p) ?_
      simp only [Kernel.allocTcb, hf]
      exact Kernel.bare_setTcb fun _ => rfl
    · exact hs.alloc (Prod.ext hal rfl) hne

end Lists.Shows

namespace Machine

variable {m m' : Machine} {s : Lists} {old : State} {r : U32} {k' : Kernel}

theorem Wf.newThread_known (hw : m.Wf) (hs : s.Shows m.k) (hc : m.ssi.pc.creates = true)
    (hn : m.ssi.newThread ≠ null) : m.ssi.newThread ∈ s.known := by
  obtain ⟨hthread, hout⟩ := hw.creating hc hn
  exact hs.allocated _ ⟨hthread, fun hf => hout (Kernel.mem_places.mpr (.inr (.inr (.inl hf))))⟩

/-- By cases on the call: a handler, an operation of the tree, or work on no list. -/
theorem performs (hs : s.Serves m) (hw : m.Wf) (hk : m.k.Pooled)
    (hc : m.k.currentThread = m.k.ssiTcb)
    (h : m.k.perform old (m.ssi.call m.k) = .ok (r, k')) :
    (Code.perform m.k.bare old (m.ssi.call m.k)).Does s (r, k'.bare) k' := by
  have hat := m.ssi.call_at m.k
  have hne : m.k.currentThread ≠ null := by rw [hc]; exact hw.ssi_ne_null
  have hshows := hs.shows
  cases hcall : m.ssi.call m.k <;> simp only [hcall, Kernel.perform] at h hat
  case msgRecv a | msgSend a v =>
    obtain ⟨k₁, h₁, h₂⟩ := bind_eq_ok.mp h
    cases h₂
    obtain ⟨k₂, hb, hsch⟩ := bind_eq_ok.mp h₁
    have hk₂ := Kernel.keeps_pooled.sysbpBody hk.placed hne hb hk
    have hnull : null ∉ k₂.readyQueue := fun hm =>
      hk₂.placed.ne_null (Kernel.mem_places.mpr (.inl hm)) rfl
    refine .bind (hshows.sysbpBody hk hne hb) fun s₁ hs₁ _ => ?_
    exact .bind (hs₁.scheduler hnull hsch) fun s₂ hs₂ _ => .done rfl hs₂
  case allocTcb =>
    have halloc := hshows.allocTcb
    rw [Except.ok.inj h] at halloc
    exact halloc
  case insertChild p c =>
    split at h
    · cases h
    · next hn =>
      cases h
      have hpc : m.ssi.pc.creates = true := by
        rcases hat with ⟨hpc, -⟩ | ⟨hpc, -⟩ <;> rw [hpc] <;> rfl
      have hchild : c ∈ s.known := by
        rcases hat with ⟨-, -, -, rfl⟩ | ⟨-, -, rfl⟩ <;> exact hw.newThread_known hshows hpc hn
      have hparent : p ∈ s.known := by
        rcases hat with ⟨hpc, rfl, hp, -⟩ | ⟨hpc, rfl, -⟩
        · exact hs.parent hpc hp
        · exact hs.requester (by rw [hpc]; rfl)
      exact .neg hn (.bind (hshows.insertChild hparent hchild) fun s₁ hs₁ _ => .done rfl hs₁)
  case insertSibling p c =>
    split at h
    · cases h
    · next hn =>
      cases h
      obtain ⟨hpc, -, rfl, rfl⟩ := hat
      have hnew := hw.newThread_known hshows (by rw [hpc]; rfl) hn
      have hreq := hs.requester (by rw [hpc]; rfl)
      exact .neg hn (.bind (hshows.insertSibling hreq hnew) fun s₁ hs₁ _ => .done rfl hs₁)
  case insertReady p =>
    cases h
    obtain ⟨hpc, rfl⟩ := hat
    have hn := hw.linked (by rw [hpc]; rfl)
    obtain ⟨hthread, hout⟩ := hw.creating (by rw [hpc]; rfl) hn
    simp only [Kernel.mem_places, not_or] at hout
    obtain ⟨hready, hwait, hfree, -⟩ := hout
    exact .bind (hshows.insertReady hthread hready hwait hfree) fun s₁ hs₁ _ => .done rfl hs₁
  case terminate p =>
    obtain ⟨k₁, h₁, h₂⟩ := bind_eq_ok.mp h
    cases h₂
    obtain ⟨hpc, rfl⟩ := hat
    have hn : m.ssi.reqThread ≠ null := fun he =>
      null_notMem_threadArray (he ▸ hw.requester (by rw [hpc]; rfl))
    exact .bind (hshows.terminate hk hn h₁) fun s₁ hs₁ _ => .done rfl hs₁
  case panic | fault => cases h
  case «local» =>
    cases h
    exact .lift rfl hshows
  case countThread | addManager =>
    cases h
    exact .lift rfl (hshows.keep rfl rfl rfl rfl rfl rfl)
  case copyState source dest =>
    unfold Code.perform
    simp only [Kernel.perform] at h ⊢
    split at h
    · next ha =>
      cases h
      rw [if_pos ha]
      refine .lift ?_ (hshows.quiet (.setState _ _))
      exact congrArg (fun k : Kernel => Except.ok (0, k)) (Kernel.bare_setState _)
    · cases h
  case inherit source dest =>
    cases h
    unfold Code.perform
    refine .lift ?_ (hshows.setTcb ?_)
    · exact congrArg (fun k : Kernel => Except.ok (0, k)) (Kernel.bare_setTcb fun _ => by rfl)
    · exact fun _ => ⟨rfl, rfl⟩
  case setManager e p x =>
    cases h
    unfold Code.perform
    refine .lift ?_ (hshows.quiet (.setManager e p x))
    refine congrArg (fun k : Kernel => Except.ok (0, k)) (Kernel.bare_setTcb fun t => ?_)
    cases e <;> rfl

/-- The SSI searches the queues only at program points where its call has changed none of them. -/
theorem nexts {k' : Kernel} {v : U32} (hs : s.Shows k')
    (hsame : m.ssi.pc = .checkReady ∨ m.ssi.pc = .checkWait ∨ (∃ e, m.ssi.pc = .spec e) ∨
      (∃ e, m.ssi.pc = .specWait e) → k' = m.k) :
    (Code.next m.ssi m.k.bare v).Does s (m.ssi.next m.k v) k' := by
  cases hpc : m.ssi.pc <;> simp only [Code.next, Ssi.next, hpc]
  case checkReady =>
    have hk := hsame (.inl hpc)
    subst hk
    refine .bind (hs.thereIsReady _) fun s₁ hs₁ _ => .done rfl hs₁
  case checkWait =>
    have hk := hsame (.inr (.inl hpc))
    subst hk
    refine .bind (hs.thereIsWait _) fun s₁ hs₁ _ => .done rfl hs₁
  case spec e =>
    have hk := hsame (.inr (.inr (.inl ⟨e, hpc⟩)))
    subst hk
    have hman : (m.k.bare.tcb m.ssi.reqThread).manager e = (m.k.tcb m.ssi.reqThread).manager e := by
      cases e <;> rfl
    rw [hman]
    by_cases hm : (m.k.tcb m.ssi.reqThread).manager e ≠ null
    · exact .pos hm (.done (if_pos hm).symm hs)
    · exact .neg hm (.bind (hs.thereIsReady _) fun s₁ hs₁ _ => .done (if_neg hm).symm hs₁)
  case specWait e =>
    have hk := hsame (.inr (.inr (.inr ⟨e, hpc⟩)))
    subst hk
    refine .bind (hs.thereIsWait _) fun s₁ hs₁ _ => .done rfl hs₁
  case copyState c => cases c <;> exact .done rfl hs
  all_goals exact .done rfl hs

variable {e : Event} {k₁ : Kernel}

theorem handles {body : Code Kernel} (hb : body.Does s k₁.bare k₁) (hk : k₁.Pooled)
    (h : k₁.scheduler = .ok k') :
    (Code.handler m.bare body).Does s ({ m with k := k' } : Machine).bare k' := by
  have hnull : null ∉ k₁.readyQueue := fun hm =>
    hk.placed.ne_null (Kernel.mem_places.mpr (.inl hm)) rfl
  refine .bind hb fun s₁ hs₁ _ => ?_
  exact .bind (hs₁.scheduler hnull h) fun s₂ hs₂ _ => .done rfl hs₂

/-- What the machine of the model does in a step, the code over the list nodes does. -/
theorem steps_code (hs : s.Serves m) (hw : m.Wf) (hk : m.k.Pooled) (h : m.Step e m') :
    (Code.step m.bare e).Does s m'.bare m'.k := by
  obtain ⟨hen, hstep⟩ := h
  have hshows := hs.shows
  cases e with
  | sysbp old =>
    obtain ⟨k', h₁, h₂⟩ := bind_eq_ok.mp hstep
    cases h₂
    obtain ⟨k₁, hb, hsch⟩ := bind_eq_ok.mp h₁
    exact handles (hshows.sysbpBody hk hen.1 hb)
      (Kernel.keeps_pooled.sysbpBody hw.placed hen.1 hb hk) hsch
  | pgmtrap old =>
    obtain ⟨k', h₁, h₂⟩ := bind_eq_ok.mp hstep
    cases h₂
    obtain ⟨k₁, hb, hsch⟩ := bind_eq_ok.mp h₁
    exact handles (hshows.pgmtrapBody hk hen hb)
      (Kernel.keeps_pooled.enterPassUp hw.placed hen hb hk) hsch
  | tlb old =>
    obtain ⟨k', h₁, h₂⟩ := bind_eq_ok.mp hstep
    cases h₂
    obtain ⟨k₁, hb, hsch⟩ := bind_eq_ok.mp h₁
    exact handles (hshows.tlbBody hk hen hb)
      (Kernel.keeps_pooled.enterPassUp hw.placed hen hb hk) hsch
  | interrupt old =>
    obtain ⟨k', h₁, h₂⟩ := bind_eq_ok.mp hstep
    cases h₂
    obtain ⟨k₁, hb, hsch⟩ := bind_eq_ok.mp h₁
    exact handles (hshows.intBody hk hb) (Kernel.keeps_pooled.intBody hb hk) hsch
  | ssi old =>
    obtain ⟨⟨r, k'⟩, h₁, h₂⟩ := bind_eq_ok.mp hstep
    cases h₂
    obtain ⟨hread, h₁⟩ := Ssi.perform_ok h₁
    have hbare : ¬ m.ssi.misreads m.k.bare = true := Bool.eq_false_iff.mp hread
    have hserve : (Code.serve m.ssi m.k.bare old).Does s (r, k'.bare) k' :=
      .neg hbare (performs hs hw hk hen h₁)
    refine .bind hserve fun s₁ hs₁ _ => ?_
    have hnext : (Code.next m.ssi m.k.bare r).Does s₁ (m.ssi.next m.k r) k' := by
      refine nexts hs₁ fun hpc => ?_
      have hlocal : m.ssi.call m.k = .local := by
        rcases hpc with hpc | hpc | ⟨e, hpc⟩ | ⟨e, hpc⟩ <;> simp [Ssi.call, hpc]
      rw [hlocal] at h₁
      cases h₁
      rfl
    exact .bind hnext fun s₂ hs₂ _ => .done rfl hs₂
  | devices bus =>
    cases hstep
    exact .done rfl (hshows.keep rfl rfl rfl rfl rfl rfl)
  | store a v =>
    obtain ⟨k', h₁, h₂⟩ := bind_eq_ok.mp hstep
    cases h₂
    exact .after (Kernel.bare_storeWord h₁) (.done rfl (hshows.quiet (.storeWord h₁)))
  | edit p st =>
    cases hstep
    refine .done ?_ (hshows.quiet (.setState p st))
    exact congrArg (fun k => { m with k := k }) (Kernel.bare_setState st)

end Machine

end AmiKaya
