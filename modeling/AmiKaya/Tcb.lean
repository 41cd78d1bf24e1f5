import AmiKaya.Types

/-! Thread control blocks, thread queues and the process tree (`tcb.c`). -/
namespace AmiKaya

/-- `init_t_state`. -/
def initTState : State :=
  { entryHi := 0, cause := 0, status := 0, pcEpc := 0, gpr := fun _ => 0, hi := 0, lo := 0 }

/-! Thread queues, linked through `t_next`. -/

def insertThread (q : List Ptr) (p : Ptr) : List Ptr := q ++ [p]

def removeThread : List Ptr → Ptr × List Ptr
  | [] => (null, [])
  | p :: q => (p, q)

def outThread (q : List Ptr) (p : Ptr) : Ptr × List Ptr :=
  if p ∈ q then (p, q.erase p) else (null, q)

def thereIsThread (q : List Ptr) (p : Ptr) : Ptr := if p ∈ q then p else null

def emptyThreadQ (q : List Ptr) : Bool := q.isEmpty

namespace Kernel

def initTcbs (k : Kernel) : Kernel := { k with tcbFree := threadArray }

def freeTcb (k : Kernel) (p : Ptr) : Kernel := { k with tcbFree := k.tcbFree ++ [p] }

/-- The fields `allocTcb` gives to the TCB it returns. -/
def freshTcb : Tcb :=
  { tParent := null, tState := initTState, tInbox := []
    waitingFor := notWaiting, reply := notWaiting
    sysbpManagerThread := null, pgmtrapManagerThread := null, tlbtrapManagerThread := null
    cpuTime := 0, cpuSlice := 0 }

def allocTcb (k : Kernel) : Ptr × Kernel :=
  match k.tcbFree with
  | [] => (null, k)
  | p :: free =>
    (p, { k.setTcb p (fun _ => freshTcb) with
          tcbFree := free, links := (k.links.init (tChild p)).init (tSib p) })

/-! The tree, linked through `t_child` and `t_sib`. -/

def insertChild (k : Kernel) (parent child : Ptr) : Kernel :=
  { k.setTcb child (fun t => { t with tParent := parent }) with
    links := k.links.addTail (tSib child) (tChild parent) }

def removeChild (k : Kernel) (parent : Ptr) : Ptr × Kernel :=
  if k.links.isEmpty (tChild parent) then (null, k)
  else
    let pos := sibContainer (k.links.next (tChild parent))
    (pos, { k.setTcb pos (fun t => { t with tParent := null }) with
            links := k.links.del (tSib pos) })

def outChild (k : Kernel) (child : Ptr) : Kernel :=
  if (k.tcb child).tParent = null then k
  else { k.setTcb child (fun t => { t with tParent := null }) with
         links := k.links.del (tSib child) }

def insertSibling (k : Kernel) (sibling new : Ptr) : Kernel :=
  { k with links := k.links.addTail (tSib new) (tSib sibling) }

end Kernel

end AmiKaya
