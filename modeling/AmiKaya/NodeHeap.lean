import AmiKaya.Msg
import AmiKaya.RingFamily

/-! The queue operations of `tcb.c` and `msg.c` on the nodes of `listx.h`. Elsewhere a queue is a
list. -/
namespace AmiKaya

/-- `&p->t_inbox`. -/
def tInboxHead (p : Ptr) : Ptr := p + 168

/-- The links of all list nodes, and the fields of the messages. The link fields `t_next` and
`m_next` come first in their structures, so a node stands for its TCB or message. -/
structure NodeHeap where
  links : Links.Heap Ptr
  mSender : Ptr → Ptr
  mMessage : Ptr → U32

/-- The two heads that are global variables. -/
structure Sentinels where
  tcbfree : Ptr
  msgfree : Ptr

namespace NodeHeap

def setLinks (h : NodeHeap) (l : Links.Heap Ptr) : NodeHeap := { h with links := l }

/-! What the functions of the two files have in common. -/

/-- The first node, or NULL. -/
def first (h : NodeHeap) (head : Ptr) : Ptr :=
  if h.links.isEmpty head then null else h.links.next head

/-- The first node is unlinked. -/
def takeFirst (h : NodeHeap) (head : Ptr) : Ptr × NodeHeap :=
  if h.links.isEmpty head then (null, h)
  else (h.links.next head, h.setLinks (h.links.del (h.links.next head)))

/-- The loop of a search. It runs for ever on a damaged list, so it has a bound. -/
def search (h : NodeHeap) (fuel : Nat) (head : Ptr) (stop : Ptr → Bool) : Option (Option Ptr) :=
  if h.links.isEmpty head then some none else h.links.forEach head stop fuel (h.links.next head)

/-- The node at which the search stops, or NULL. -/
def find (h : NodeHeap) (fuel : Nat) (head : Ptr) (stop : Ptr → Bool) : Option Ptr :=
  (h.search fuel head stop).map fun r => r.getD null

/-- The node at which the search stops is unlinked. -/
def takeOut (h : NodeHeap) (fuel : Nat) (head : Ptr) (stop : Ptr → Bool) :
    Option (Ptr × NodeHeap) :=
  (h.search fuel head stop).map fun
    | some pos => (pos, h.setLinks (h.links.del pos))
    | none => (null, h)

/-! `tcb.c`. -/

def mkEmptyThreadQ (h : NodeHeap) (emptylist : Ptr) : NodeHeap :=
  h.setLinks (h.links.init emptylist)

def emptyThreadQ (h : NodeHeap) (head : Ptr) : Bool := h.links.isEmpty head

def insertThread (h : NodeHeap) (head p : Ptr) : NodeHeap := h.setLinks (h.links.addTail p head)

def removeThread (h : NodeHeap) (head : Ptr) : Ptr × NodeHeap := h.takeFirst head

def outThread (h : NodeHeap) (fuel : Nat) (head p : Ptr) : Option (Ptr × NodeHeap) :=
  h.takeOut fuel head fun pos => pos = p

def headThread (h : NodeHeap) (head : Ptr) : Ptr := h.first head

def thereIsThread (h : NodeHeap) (fuel : Nat) (head p : Ptr) : Option Ptr :=
  h.find fuel head fun pos => pos = p

def freeTcb (h : NodeHeap) (g : Sentinels) (p : Ptr) : NodeHeap :=
  h.setLinks (h.links.addTail p g.tcbfree)

/-- The first free TCB, with its three list heads initialised. -/
def allocTcb (h : NodeHeap) (g : Sentinels) : Ptr × NodeHeap :=
  if h.links.isEmpty g.tcbfree then (null, h)
  else
    let removed := h.links.next g.tcbfree
    let links := h.links.del removed
    (removed, h.setLinks (((links.init (tChild removed)).init (tSib removed)).init
      (tInboxHead removed)))

/-! `msg.c`. -/

def mkEmptyMessageQ (h : NodeHeap) (emptylist : Ptr) : NodeHeap :=
  h.setLinks (h.links.init emptylist)

def emptyMessageQ (h : NodeHeap) (head : Ptr) : Bool := h.links.isEmpty head

def insertMessage (h : NodeHeap) (head mp : Ptr) : NodeHeap := h.setLinks (h.links.addTail mp head)

def pushMessage (h : NodeHeap) (head mp : Ptr) : NodeHeap := h.setLinks (h.links.add mp head)

/-- With NULL the first message goes, otherwise the first one sent by `mp`. -/
def popMessage (h : NodeHeap) (fuel : Nat) (head mp : Ptr) : Option (Ptr × NodeHeap) :=
  if mp = null then some (h.takeFirst head)
  else h.takeOut fuel head fun pos => h.mSender pos = mp

def headMessage (h : NodeHeap) (head : Ptr) : Ptr := h.first head

def thereIsMessage (h : NodeHeap) (fuel : Nat) (head mp : Ptr) : Option Ptr :=
  h.find fuel head fun pos => h.mSender pos = mp

def freeMsg (h : NodeHeap) (g : Sentinels) (m : Ptr) : NodeHeap :=
  h.setLinks (h.links.addTail m g.msgfree)

def fill (h : NodeHeap) (m sender : Ptr) (message : U32) : NodeHeap :=
  { h with mSender := put h.mSender m sender, mMessage := put h.mMessage m message }

/-- The first free message, with both its fields cleared. -/
def allocMsg (h : NodeHeap) (g : Sentinels) : Ptr × NodeHeap :=
  if h.links.isEmpty g.msgfree then (null, h)
  else
    let removed := h.links.next g.msgfree
    (removed, (h.setLinks (h.links.del removed)).fill removed null 0)

end NodeHeap

/-- A call of a queue operation. `fill` is what a sender stores in its message. -/
inductive QueueOp
  | mkEmptyThreadQ (emptylist : Ptr)
  | emptyThreadQ (head : Ptr)
  | insertThread (head p : Ptr)
  | removeThread (head : Ptr)
  | outThread (head p : Ptr)
  | headThread (head : Ptr)
  | thereIsThread (head p : Ptr)
  | freeTcb (p : Ptr)
  | allocTcb
  | mkEmptyMessageQ (emptylist : Ptr)
  | emptyMessageQ (head : Ptr)
  | insertMessage (head mp : Ptr)
  | pushMessage (head mp : Ptr)
  | popMessage (head mp : Ptr)
  | headMessage (head : Ptr)
  | thereIsMessage (head mp : Ptr)
  | freeMsg (m : Ptr)
  | allocMsg
  | fill (m sender : Ptr) (message : U32)

namespace NodeHeap

/-- The result of a call, NULL for a function without one, and the heap after it. There is none
when a loop has not ended within the bound. -/
def exec (h : NodeHeap) (g : Sentinels) (fuel : Nat) : QueueOp → Option (U32 × NodeHeap)
  | .mkEmptyThreadQ emptylist => some (null, h.mkEmptyThreadQ emptylist)
  | .emptyThreadQ head => some (if h.emptyThreadQ head then 1 else 0, h)
  | .insertThread head p => some (null, h.insertThread head p)
  | .removeThread head => some (h.removeThread head)
  | .outThread head p => h.outThread fuel head p
  | .headThread head => some (h.headThread head, h)
  | .thereIsThread head p => (h.thereIsThread fuel head p).map fun r => (r, h)
  | .freeTcb p => some (null, h.freeTcb g p)
  | .allocTcb => some (h.allocTcb g)
  | .mkEmptyMessageQ emptylist => some (null, h.mkEmptyMessageQ emptylist)
  | .emptyMessageQ head => some (if h.emptyMessageQ head then 1 else 0, h)
  | .insertMessage head mp => some (null, h.insertMessage head mp)
  | .pushMessage head mp => some (null, h.pushMessage head mp)
  | .popMessage head mp => h.popMessage fuel head mp
  | .headMessage head => some (h.headMessage head, h)
  | .thereIsMessage head mp => (h.thereIsMessage fuel head mp).map fun r => (r, h)
  | .freeMsg m => some (null, h.freeMsg g m)
  | .allocMsg => some (h.allocMsg g)
  | .fill m sender message => some (null, h.fill m sender message)

/-- The results of the calls, one after the other, and the heap after the last. -/
def run (h : NodeHeap) (g : Sentinels) (fuel : Nat) : List QueueOp → Option (List U32 × NodeHeap)
  | [] => some ([], h)
  | op :: ops => do
    let (r, h) ← h.exec g fuel op
    let (rs, h) ← h.run g fuel ops
    return (r :: rs, h)

end NodeHeap

end AmiKaya
