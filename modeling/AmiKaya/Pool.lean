import AmiKaya.Invariants
import Mathlib.Data.List.Nodup
import Mathlib.Data.List.Pairwise

/-! The message buffers: each one is on the free list or in the inbox of one live thread. -/
namespace AmiKaya
open Lts

/-- When only one of the lists put together changes, so does its part of the count. -/
theorem count_flatMap_of_ne {α β : Type} [DecidableEq β] {l : List α} {f g : α → List β} {t : α}
    (hl : l.Nodup) (ht : t ∈ l) (h : ∀ p ∈ l, p ≠ t → f p = g p) (b : β) :
    (l.flatMap f).count b + (g t).count b = (l.flatMap g).count b + (f t).count b := by
  have hrest : ∀ l : List α, t ∉ l → (∀ p ∈ l, p ≠ t → f p = g p) → l.flatMap f = l.flatMap g := by
    intro l hn h
    apply List.flatMap_congr
    intro p hp
    exact h p hp fun he => hn (he ▸ hp)
  induction l with
  | nil => cases ht
  | cons a l ih =>
    obtain ⟨ha, hl⟩ := List.nodup_cons.mp hl
    have htail : ∀ p ∈ l, p ≠ t → f p = g p := fun p hp => h p (List.mem_cons_of_mem _ hp)
    simp only [List.flatMap_cons, List.count_append]
    by_cases he : t = a
    · subst he
      rw [hrest l ha htail]
      omega
    · have hm : t ∈ l := (List.mem_cons.mp ht).resolve_left he
      have := ih hl hm htail
      rw [h a List.mem_cons_self (Ne.symm he)]
      omega

namespace Kernel

variable {k k' : Kernel} {p t : Ptr}

/-- The buffers linked in the inbox of a thread. -/
def inboxBuffers (k : Kernel) (p : Ptr) : List Ptr := (k.tcb p).tInbox.map Msg.addr

/-- All the buffers that are linked somewhere. -/
def buffers (k : Kernel) : List Ptr := k.msgFree ++ threadArray.flatMap k.inboxBuffers

theorem buffers_count (ht : t ∈ threadArray) (h : ∀ p ≠ t, k'.inboxBuffers p = k.inboxBuffers p)
    (hc : ∀ a, k'.msgFree.count a + (k'.inboxBuffers t).count a =
      k.msgFree.count a + (k.inboxBuffers t).count a) : k'.buffers.Perm k.buffers := by
  rw [List.perm_iff_count]
  intro a
  have hflat := count_flatMap_of_ne threadArray_nodup ht (fun p _ hp => h p hp) a
  have := hc a
  simp only [buffers, List.count_append]
  omega

theorem buffers_eq (hf : k'.msgFree = k.msgFree) (h : ∀ p, (k'.tcb p).tInbox = (k.tcb p).tInbox) :
    k'.buffers = k.buffers := by
  have hin : k'.inboxBuffers = k.inboxBuffers := by
    funext p
    simp [inboxBuffers, h]
  rw [buffers, hf, hin, buffers]

/-- No buffer is lost or linked twice, and only live threads have messages. -/
structure Pooled (k : Kernel) : Prop where
  placed : Placed k
  ssi : k.ssiTcb ∈ threadArray
  perm : k.buffers.Perm msgArray
  idle : ∀ p ∈ threadArray, ¬ k.Live p → (k.tcb p).tInbox = []

namespace Pooled

/-- Threads have moved, but no message has. -/
theorem moved (h : k.Pooled) (hp : Placed k') (hs : k'.ssiTcb = k.ssiTcb)
    (hf : k'.msgFree = k.msgFree) (hin : ∀ p, (k'.tcb p).tInbox = (k.tcb p).tInbox)
    (hl : ∀ p, k.Live p → k'.Live p) : k'.Pooled where
  placed := hp
  ssi := hs ▸ h.ssi
  perm := buffers_eq hf hin ▸ h.perm
  idle p hm hn := by
    rw [hin]
    exact h.idle p hm fun hlive => hn (hl p hlive)

theorem enqueue {id : Ptr} {v : U32} (h : k.Pooled) (ht : k.Live t)
    (he : k.enqueue id t v = .ok k') : k'.Pooled := by
  have hm := h.placed.sub t ht.mem_places
  obtain ⟨a, free, hfree, rfl⟩ := enqueue_cases he
  have hne : ∀ p ≠ t, put k.tcb t { k.tcb t with
      tInbox := queued id (k.tcb t).tInbox ⟨a, id, v⟩ } p = k.tcb p := fun p hp => by simp [hp]
  constructor
  case placed => exact h.placed.of_perm (List.Perm.refl _)
  case ssi => exact h.ssi
  case perm =>
    refine (buffers_count hm (fun p hp => ?_) fun b => ?_).trans h.perm
    · simp only [inboxBuffers, hne p hp]
    · simp only [inboxBuffers, Links.put_same, hfree, queued]
      split
      · simp only [List.map_cons, List.count_cons]
        omega
      · simp only [List.map_append, List.map_cons, List.map_nil, List.count_append, List.count_cons,
          List.count_nil]
        omega
  case idle =>
    intro p hp hn
    have hpt : p ≠ t := fun he => hn (he ▸ ht)
    exact (congrArg Tcb.tInbox (hne p hpt)).trans (h.idle p hp hn)

theorem send {s : Ptr} {v r : U32} (h : k.Pooled) (ha : k.Aims s t)
    (hs : k.send s t v = .ok (r, k')) : k'.Pooled := by
  have hcur : k.currentThread = t → k.Live t := by
    rintro rfl
    refine .inr (.inr (mem_running.mpr ⟨rfl, ?_⟩))
    rcases ha with ⟨hc, -⟩ | ⟨-, ht⟩
    · exact hc
    · intro hn
      exact null_notMem_threadArray (hn ▸ ht ▸ h.ssi)
  rcases send_cases hs with ⟨hc, -, he⟩ | ⟨-, -, -, hw, -, -, -, rfl⟩ | ⟨-, -, -, hw, -, -, he⟩ |
    ⟨-, -, -, rfl⟩
  · rcases hc with ⟨hr, -⟩ | hc
    · exact h.enqueue (.inl hr) he
    · exact h.enqueue (hcur hc) he
  · have hsame := SamePlaces.send hs
    refine h.moved (h.placed.of_perm hsame) rfl rfl (fun p => ?_)
      fun p hp => hp.of_same h.placed hsame rfl
    by_cases hp : p = t
    · subst hp
      simp [delivered]
    · simp [delivered, hp]
  · exact h.enqueue (.inr (.inl hw)) he
  · exact h

theorem recv {w a r : Ptr} (h : k.Pooled) (hc : k.currentThread ≠ null)
    (hr : k.recv k.currentThread w a = .ok (r, k')) : k'.Pooled := by
  have hsame := SamePlaces.recv hc hr
  have hlive : k.Live k.currentThread := .inr (.inr (mem_running.mpr ⟨rfl, hc⟩))
  have hm := h.placed.sub _ hlive.mem_places
  rcases recv_cases hr with ⟨-, -, rfl⟩ | ⟨m, rest, hpop, -, -, rfl⟩
  · refine h.moved (h.placed.of_perm hsame) rfl rfl (fun p => ?_)
      fun p hp => hp.of_same h.placed hsame rfl
    by_cases hp : p = k.currentThread
    · subst hp
      simp [block, setTcb]
    · simp [block, setTcb, hp]
  · obtain ⟨pre, post, hq, rfl, -⟩ := popMessage_some hpop
    have hne : ∀ p ≠ k.currentThread, put k.tcb k.currentThread { k.tcb k.currentThread with
        tInbox := pre ++ post } p = k.tcb p := fun p hp => by simp [hp]
    constructor
    case placed => exact h.placed.of_perm hsame
    case ssi => exact h.ssi
    case perm =>
      refine (buffers_count hm (fun p hp => ?_) fun b => ?_).trans h.perm
      · simp only [inboxBuffers, received, hne p hp]
      · simp only [inboxBuffers, received, Links.put_same, hq, List.map_append, List.map_cons,
          List.count_append, List.count_cons, List.count_nil]
        omega
    case idle =>
      intro p hp hn
      have hpc : p ≠ k.currentThread := by
        rintro rfl
        exact hn (hlive.of_same h.placed hsame rfl)
      exact (congrArg Tcb.tInbox (hne p hpc)).trans
        (h.idle p hp fun hl => hn (hl.of_same h.placed hsame rfl))

theorem reap (h : k.Pooled) (ht : t ≠ null) (hr : k.reap t = .ok k') : k'.Pooled := by
  have hd := Reaped.reap h.placed ht hr
  have hm := h.placed.sub t (hd.live t (by simp)).mem_places
  have hfreed : k'.msgFree = k.msgFree ++ k.inboxBuffers t ∧
      k'.tcb = put k.tcb t { k.tcb t with tInbox := [] } := by
    rcases reap_cases hr with ⟨-, rfl⟩ | ⟨-, -, -, -, rfl⟩ <;> exact ⟨rfl, rfl⟩
  have hother : ∀ p ≠ t, (k'.tcb p).tInbox = (k.tcb p).tInbox := fun p hp => by
    simp [hfreed.2, hp]
  have hself : (k'.tcb t).tInbox = [] := by simp [hfreed.2]
  constructor
  case placed => exact h.placed.of_perm (SamePlaces.reap h.placed ht hr)
  case ssi => exact hd.ssiTcb ▸ h.ssi
  case perm =>
    refine (buffers_count hm (fun p hp => ?_) fun b => ?_).trans h.perm
    · simp only [inboxBuffers, hother p hp]
    · have hempty : k'.inboxBuffers t = [] := by simp [inboxBuffers, hself]
      rw [hfreed.1, hempty, List.count_append, List.count_nil]
      omega
  case idle =>
    intro p hp hn
    by_cases hpt : p = t
    · exact hpt ▸ hself
    · rw [hother p hpt]
      refine h.idle p hp fun hl => hn ?_
      rcases mem_places.mp ((SamePlaces.reap h.placed ht hr).mem_iff.mpr hl.mem_places) with
        hq | hq | hq | hq
      · exact .inl hq
      · exact .inr (.inl hq)
      · rw [hd.tcbFree, List.mem_append, List.mem_singleton] at hq
        rcases hq with hq | hq
        · exact absurd hq (hl.notMem_free h.placed)
        · exact absurd hq hpt
      · exact .inr (.inr (mem_running.mpr hq))

theorem unlink {f : Tcb → Tcb} {l : Links.Heap Ptr} (hf : ∀ x : Tcb, (f x).tInbox = x.tInbox)
    (h : k.Pooled) : Pooled { k.setTcb t f with links := l } := by
  refine h.moved (h.placed.of_perm (List.Perm.refl _)) rfl rfl (fun p => ?_) fun _ hp => hp
  by_cases hp : p = t
  · subst hp
    simp [setTcb, hf]
  · simp [setTcb, hp]

theorem terminate (h : k.Pooled) (ht : t ≠ null) (hr : k.terminate t = .ok k') : k'.Pooled := by
  exact terminate_inv (fun _ _ h => h.unlink fun _ => rfl) (fun _ _ _ ht hr h => h.reap ht hr) ht hr h

theorem alloc (h : k.Pooled) (ha : k.allocTcb = (p, k')) (hp : p ≠ null) : k'.Pooled := by
  have hplaced := h.placed.step (.alloc ha hp)
  obtain ⟨free, hf, rfl⟩ := allocTcb_cases ha hp
  have hn : ¬ k.Live p := fun hl => hl.notMem_free h.placed (by simp [hf])
  have hm : p ∈ threadArray := h.placed.sub p (mem_places.mpr (.inr (.inr (.inl (by simp [hf])))))
  refine h.moved hplaced rfl rfl (fun q => ?_) fun q hq => hq
  by_cases hq : q = p
  · subst hq
    rw [h.idle q hm hn]
    simp [freshTcb]
  · simp [hq]

end Pooled

/-- No operation loses a buffer. -/
theorem keeps_pooled : Keeps Pooled where
  send _ _ _ _ _ _ ha hs h := h.send ha hs
  op k o k' hs hne h := by
    have hplaced := h.placed.step hs
    cases hs with
    | send => exact absurd rfl (hne _ _ _ _)
    | quiet hq => exact h.moved hplaced hq.ssiTcb hq.msgFree hq.tInbox fun p hp =>
        hp.of_same h.placed (.quiet hq) hq.tcbFree
    | recv hc hr => exact h.recv hc hr
    | terminate ht hr => exact h.terminate ht hr
    | alloc ha hp => exact h.alloc ha hp
    | freeze hc hm =>
      refine h.moved hplaced rfl rfl (fun p => ?_) fun p hp =>
        hp.of_same h.placed (SamePlaces.step (.freeze hc hm) h.placed (by simp) (by simp)) rfl
      by_cases hp : p = k.currentThread
      · subst hp
        simp [freeze, setTcb]
      · simp [freeze, setTcb, hp]
    | resume hr =>
      have hsame := SamePlaces.step (.resume hr) h.placed (by simp) (by simp)
      obtain ⟨-, -, rfl⟩ := continueTrapped_cases hr
      exact h.moved hplaced rfl rfl (fun _ => rfl) fun p hp => hp.of_same h.placed hsame rfl
    | dispatch hc hr =>
      exact h.moved hplaced rfl rfl (fun _ => rfl) fun p hp =>
        hp.of_same h.placed (SamePlaces.dispatch h.placed hc hr) rfl
    | preempt hc =>
      exact h.moved hplaced rfl rfl (fun _ => rfl) fun p hp =>
        hp.of_same h.placed (SamePlaces.suspend hc (.inl ⟨rfl, rfl⟩) rfl rfl) rfl
    | insertChild hc =>
      exact h.unlink fun _ => rfl
    | insertSibling | request | countThread =>
      exact h.moved hplaced rfl rfl (fun _ => rfl) fun _ hp => hp
    | publish =>
      refine h.moved hplaced rfl rfl (fun _ => rfl) fun p hp => ?_
      rcases hp with hp | hp
      · exact .inl (List.mem_append_left _ hp)
      · exact .inr hp

theorem Booted.pooled (h : k.Booted) : k.Pooled where
  placed := h.placed
  ssi := by
    rw [h.ssiTcb]
    decide
  perm := by
    have hempty : threadArray.flatMap k.inboxBuffers = [] := by
      rw [List.flatMap_eq_nil_iff]
      intro p hp
      simp [inboxBuffers, h.tInbox p hp]
    rw [buffers, hempty, h.msgFree, List.append_nil]
  idle p hp _ := h.tInbox p hp

theorem msgArray_nodup : msgArray.Nodup := by decide

namespace Pooled

variable {a q : Ptr}

theorem nodup (h : k.Pooled) : k.buffers.Nodup := h.perm.nodup_iff.mpr msgArray_nodup

theorem live (h : k.Pooled) (hp : p ∈ threadArray) (ha : a ∈ k.inboxBuffers p) : k.Live p := by
  by_contra hn
  simp [inboxBuffers, h.idle p hp hn] at ha

theorem inbox_nodup (h : k.Pooled) (hp : p ∈ threadArray) :
    ((k.tcb p).tInbox.map Msg.addr).Nodup :=
  (List.nodup_flatMap.mp (List.nodup_append.mp h.nodup).2.1).1 p hp

/-- No buffer is in two inboxes. -/
theorem unique (h : k.Pooled) (hp : p ∈ threadArray) (hq : q ∈ threadArray)
    (ha : a ∈ k.inboxBuffers p) (ha' : a ∈ k.inboxBuffers q) : q = p := by
  by_contra hne
  have hn := (List.nodup_append.mp h.nodup).2.1
  have hd := (List.nodup_flatMap.mp hn).2
  have : Std.Symm (Function.onFun List.Disjoint k.inboxBuffers) := ⟨fun _ _ h _ ha ha' => h ha' ha⟩
  exact hd.forall hp hq (Ne.symm hne) ha ha'

theorem length (h : k.Pooled) :
    k.msgFree.length + (threadArray.map fun p => (k.tcb p).tInbox.length).sum = maxMessages := by
  have hlen := h.perm.length_eq
  have harr : msgArray.length = maxMessages := by decide
  rw [harr, buffers, List.length_append, List.length_flatMap] at hlen
  simpa [inboxBuffers] using hlen

end Pooled

end Kernel

/-- Each buffer is in exactly one place: the free list or the inbox of one live thread. -/
structure Kernel.MessagesConserved (k : Kernel) : Prop where
  nodup : k.buffers.Nodup
  all : ∀ a, a ∈ msgArray ↔ a ∈ k.msgFree ∨ ∃ p ∈ threadArray, a ∈ k.inboxBuffers p
  free : ∀ a ∈ k.msgFree, ∀ p ∈ threadArray, a ∉ k.inboxBuffers p
  inbox : ∀ p ∈ threadArray, ∀ a ∈ k.inboxBuffers p, k.Live p ∧
    ∀ q ∈ threadArray, a ∈ k.inboxBuffers q → q = p
  freeTcb : ∀ p ∈ k.tcbFree, (k.tcb p).tInbox = []
  total : k.msgFree.length + (threadArray.map fun p => (k.tcb p).tInbox.length).sum = maxMessages

theorem Kernel.Pooled.conserved {k : Kernel} (h : k.Pooled) : k.MessagesConserved := by
  constructor
  case nodup => exact h.nodup
  case all =>
    intro a
    rw [← h.perm.mem_iff]
    simp [buffers]
  case free =>
    intro a ha p hp ha'
    have hd := (List.nodup_append.mp h.nodup).2.2
    exact hd a ha a (List.mem_flatMap.mpr ⟨p, hp, ha'⟩) rfl
  case inbox =>
    intro p hp a ha
    exact ⟨h.live hp ha, fun q hq ha' => h.unique hp hq ha ha'⟩
  case freeTcb =>
    intro p hp
    have hm := h.placed.sub p (mem_places.mpr (.inr (.inr (.inl hp))))
    exact h.idle p hm fun hl => hl.notMem_free h.placed hp
  case total => exact h.length

theorem Machine.pooled_of_run {m m' : Machine} {es : List Event} (h : m.Initial)
    (hr : Run Step m es m') : m'.k.Pooled := by
  obtain ⟨k, hp, hm⟩ := h.boot
  exact Kernel.keeps_pooled.of_run h hr (Kernel.main_booted hp hm).pooled

end AmiKaya
