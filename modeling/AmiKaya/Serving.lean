import AmiKaya.Identity
import AmiKaya.Letters

/-! The SSI takes the requests in the order in which they were sent, by whatever threads. -/
namespace AmiKaya
open Lts Letterbox

namespace Kernel

variable {k k' : Kernel} {h : Letters} {p s t : Ptr} {v r : U32}

theorem freeze_manager {q : Ptr} (h : OpStep k (.freeze p q) k') : q ≠ null := by
  cases h with
  | freeze _ hq => exact hq

/-- If the TCB is in the wait queue, it is there to read. -/
def Reads (k : Kernel) (h : Letters) (p : Ptr) : Prop := p ∈ k.waitQueue → (h.box p).wanted ≠ none

theorem Reads.send (hr : k.Reads h p) (hl : k.Lettered h p) (hs : k.send s t v = .ok (r, k')) :
    k'.Reads (h.note k (.send s t v r) k') p := by
  intro hw'
  have hw : p ∈ k.waitQueue := by
    rcases send_waitQueue hs with he | ⟨he, -, -⟩
    · exact he ▸ hw'
    · rw [he] at hw'
      exact List.mem_of_mem_erase hw'
  have hat := hl.letters (Live.allocated hl.placed (.inr (.inl hw)))
  have hpost : ∀ x, (t = p → ∀ w ∈ (h.box p).wanted, accepts w x = false) →
      (put h.box t ((h.box t).post accepts urgent x) p).wanted ≠ none := by
    intro x hx
    by_cases hpt : p = t
    · subst hpt
      rw [Links.put_same, Box.post_of_unwanted hat.settled (hx rfl)]
      exact hr hw
    · rw [Links.put_ne hpt]
      exact hr hw
  have hpt : t = p → k.awaits p (k.senderId s) = false := by
    rintro rfl
    rcases send_cases hs with ⟨ht, -, -⟩ | ⟨-, -, -, -, -, -, -, rfl⟩ | ⟨-, -, -, -, -, ha, -⟩ |
      ⟨-, ht, -, -⟩
    · have hn := hl.placed.wait_notMem hw
      rcases ht with ⟨ht, -⟩ | ht
      · exact absurd ht hn.1
      · exact absurd ht hn.2.2
    · exact absurd hw' hl.placed.wait_erase
    · exact ha
    · exact absurd hw (ht (hl.placed.ne_null (mem_places.mpr (.inr (.inl hw))))).2
  simp only [Letters.note]
  split
  · split <;> exact hpost _ fun ht => hat.refuses (.inr (hpt ht))
  · exact hr hw

theorem Reads.step {o : Op} (hr : k.Reads h p) (hl : k.Lettered h p) (hs : OpStep k o k')
    (hf : ∀ m, o ≠ .freeze p m) : k'.Reads (h.note k o k') p := by
  cases hs with
  | quiet hq =>
    intro hw
    exact hr (hq.waitQueue ▸ hw)
  | send hs => exact hr.send hl hs
  | @recv _ w a r hc hrecv =>
    intro hw'
    have hother : p ≠ k.currentThread → (h.box p).wanted ≠ none := by
      intro hpc
      apply hr
      rcases recv_cases hrecv with ⟨-, -, rfl⟩ | ⟨x, rest, -, -, -, rfl⟩
      · exact (List.mem_append.mp hw').resolve_right fun hm => hpc (List.mem_singleton.mp hm)
      · exact hw'
    have hbox : (h.note k (.recv k.currentThread w a r) k').box =
        put h.box k.currentThread ((h.box k.currentThread).read accepts w) := by
      simp only [Letters.note]
      split <;> rfl
    rw [hbox]
    by_cases hpc : p = k.currentThread
    · subst hpc
      have hnot := (hl.placed.current_notMem hc).2.1
      rcases recv_cases hrecv with ⟨hpop, -, rfl⟩ | ⟨x, rest, -, -, -, rfl⟩
      · have hat := hl.letters (Live.allocated hl.placed (.inr (.inr (mem_running.mpr ⟨rfl, hc⟩))))
        have hfind := popMessage_letters_none hpop
        rw [← hat.letters] at hfind
        rw [Links.put_same, Box.read_of_none hfind]
        simp
      · exact absurd hw' hnot
    · rw [Links.put_ne hpc]
      exact hother hpc
  | @freeze m hc hm =>
    intro hw
    refine hr ((List.mem_append.mp hw).resolve_right fun hp => hf m ?_)
    rw [List.mem_singleton.mp hp]
  | terminate ht hterm =>
    intro hw
    obtain ⟨ds, -, hd⟩ := Reaped.terminate hl.placed ht hterm
    exact hr (hd.mem_wait.mp hw).1
  | @resume _ t hres =>
    intro hw
    obtain ⟨-, -, rfl⟩ := continueTrapped_cases hres
    simp only [Letters.note]
    by_cases hpt : p = t
    · subst hpt
      exact absurd hw hl.placed.wait_erase
    · rw [Links.put_ne hpt]
      exact hr (List.mem_of_mem_erase hw)
  | @alloc q _ ha hq =>
    obtain ⟨free, hfree, rfl⟩ := allocTcb_cases ha hq
    intro hw
    simp only [Letters.note]
    by_cases hpq : p = q
    · subst hpq
      exact absurd (hfree ▸ List.mem_cons_self) (hl.placed.wait_notMem hw).2.1
    · rw [Links.put_ne hpq]
      exact hr hw
  | request | insertChild _ | insertSibling _ | countThread | dispatch _ _ | preempt _
    | publish _ _ => exact hr

end Kernel

namespace Machine

variable {m m' : Machine} {e : Event} {h h' : Letters}

/-- A step of the machine, the operations it is made of, and the letters they carry. -/
def LetterStep (s : Machine × Letters) (x : Event × List Op) (t : Machine × Letters) : Prop :=
  s.1.Step x.1 t.1 ∧
    Run (fun a o b => withHistory OpStep Letters.note a o b ∧
      (s.1.entry x.1).Allows s.1.k.currentThread o) (s.1.k, s.2) x.2 (t.1.k, t.2)

/-- The letters restrict nothing. -/
theorem exists_letters {es : List Event} (hw : m.Wf) (hr : Run Step m es m') (h : Letters) :
    ∃ xs h', xs.map Prod.fst = es ∧ Run LetterStep (m, h) xs (m', h') := by
  induction hr generalizing h with
  | refl => exact ⟨[], h, rfl, .refl⟩
  | @stepL m e m₁ es m' hs _ ih =>
    obtain ⟨os, hos⟩ := ops_of_step hw hs
    obtain ⟨h₁, hos⟩ := hos.exists_history Letters.note h
    obtain ⟨xs, h', rfl, hr⟩ := ih (hw.step hs) h₁
    refine ⟨(e, os) :: xs, h', rfl, .stepL ⟨hs, hos.mono ?_⟩ hr⟩
    rintro s o t ⟨⟨ho, ha⟩, hn⟩
    exact ⟨⟨ho, hn⟩, ha⟩

/-- Nobody but the SSI itself makes a RECV for it, and it takes any message. -/
theorem ssi_recv (h : m.Step e m') {w a : Ptr} {r : U32}
    (ha : (m.entry e).Allows m.k.currentThread (.recv m.k.ssiTcb w a r)) : w = anyMessage := by
  obtain ⟨hcur, hentry⟩ := ha
  cases e with
  | ssi old =>
    simp only [entry] at hentry
    split at hentry <;> cases hentry
    rfl
  | sysbp old => exact absurd hcur.symm h.1.2
  | pgmtrap | tlb | interrupt | devices | store | edit => cases hentry

/-- A request, or anything else that is no message of the timer. -/
def ordinary (x : Letter) : Bool := !urgent x

/-- The SSI is in the wait queue to read only, and its letters are in order. -/
structure Serving (m : Machine) (h : Letters) : Prop where
  lettered : m.k.Lettered h m.k.ssiTcb
  reads : m.k.Reads h m.k.ssiTcb
  inOrder : h.InOrder ordinary m.k.ssiTcb

theorem Serving.step {x : Event × List Op} (hi : m.Apart) (hs : m.Serving h)
    (hstep : LetterStep (m, h) x (m', h')) : m'.Serving h' := by
  obtain ⟨hst, hops⟩ := hstep
  have hinv := hops.inv (I := fun s => s.1.ssiTcb = m.k.ssiTcb ∧ s.1.Lettered s.2 m.k.ssiTcb ∧
    s.1.Reads s.2 m.k.ssiTcb ∧ s.2.InOrder ordinary m.k.ssiTcb) ?_
    ⟨rfl, hs.lettered, hs.reads, hs.inOrder⟩
  · obtain ⟨hssi, hl, hr, ho⟩ := hinv
    have hssi : m'.k.ssiTcb = m.k.ssiTcb := hssi
    rw [← hssi] at hl hr ho
    exact ⟨hl, hr, ho⟩
  · rintro s o t ⟨⟨ho, hn⟩, ha⟩ ⟨hssi, hl, hr, hord⟩
    have hheard : Heard m.k.ssiTcb s.1 o s.2 := by
      cases o with
      | send => exact fun _ hwait _ => hr hwait
      | quiet | request | recv | freeze | terminate | resume | dispatch | preempt | alloc
        | insertChild | insertSibling | countThread | publish => trivial
    have hfreeze : ∀ q, o ≠ .freeze m.k.ssiTcb q := by
      rintro q rfl
      obtain ⟨hcur, htrap⟩ := ha
      obtain ⟨x, hx⟩ := manager_of_entry htrap
      rw [← hcur, hi.unmanaged x] at hx
      exact Kernel.freeze_manager ho hx.symm
    have himp : Impartial ordinary m.k.ssiTcb o := by
      rintro w a r rfl x y - -
      rw [ssi_recv hst ha]
      rfl
    rw [hn]
    refine ⟨(Kernel.ssiTcb_step ho).trans hssi, hl.step ho hheard, hr.step hl ho hfreeze,
      hord.step ?_ himp⟩
    intro x hx
    simp [ordinary, hx]

/-- In every run, whatever is no message of the timer has been received by the SSI in the order in
which it was sent, and the rest waits in its inbox in that order. -/
theorem serves_in_order {m m' : Machine} {xs : List (Event × List Op)} {h : Letters}
    (hm : m.Initial)
    (hr : Run LetterStep (m, .empty) xs (m', h)) (hl : m'.k.Live m'.k.ssiTcb) :
    (h.got m'.k.ssiTcb ++ (m'.k.tcb m'.k.ssiTcb).tInbox.map Msg.letter).filter ordinary =
      (h.box m'.k.ssiTcb).posted.filter ordinary := by
  obtain ⟨k, hp, hmain⟩ := hm.boot
  have hb := Kernel.main_booted hp hmain
  have hstart : m.Serving .empty := by
    refine ⟨hb.lettered, ?_, .empty, ?_⟩
    · intro hq
      rw [hb.waitQueue] at hq
      cases hq
    · rintro w hw
      cases hw
  have hinv : m'.Wf ∧ m'.Apart ∧ m'.Serving h := by
    refine hr.inv (I := fun s => s.1.Wf ∧ s.1.Apart ∧ s.1.Serving s.2) ?_
      ⟨initial_wf hm, initial_apart hm, hstart⟩
    rintro s x t hs ⟨hw, hi, hserv⟩
    exact ⟨hw.step hs.1, hi.step hw hs.1, hserv.step hi hs⟩
  obtain ⟨-, -, hserv⟩ := hinv
  have hat := hserv.lettered.letters (hl.allocated hserv.lettered.placed)
  rw [hat.got, ← hat.letters]
  exact hserv.inOrder.1

theorem serves_in_order_request : ∃ m m' : Machine, ∃ xs h,
    xs.map Prod.fst = requestTrace ∧ Run LetterStep (m, .empty) xs (m', h) ∧
    m'.k.Live m'.k.ssiTcb ∧
    (h.got m'.k.ssiTcb ++ (m'.k.tcb m'.k.ssiTcb).tInbox.map Msg.letter).filter ordinary =
      (h.box m'.k.ssiTcb).posted.filter ordinary := by
  have hrun : passes (fun m => passes (fun m' => decide (m'.k.Live m'.k.ssiTcb))
      (exec fire m requestTrace)) (start .zeroed) = true := by
    decide +kernel
  obtain ⟨m, hm, hrun⟩ := exists_of_passes hrun
  obtain ⟨m', hs, hl⟩ := exists_of_passes hrun
  have hinit := initial_of_start Kernel.zeroed_powerOn hm
  have hr := (run_of_exec hs).mono fun _ _ _ => step_of_fire
  obtain ⟨xs, h, hxs, hr⟩ := exists_letters (initial_wf hinit) hr .empty
  have hl := of_decide_eq_true hl
  exact ⟨m, m', xs, h, hxs, hr, hl, serves_in_order hinit hr hl⟩

end Machine

end AmiKaya
