import AmiKaya.Tcb

/-! Message buffers and inboxes (`msg.c`). An inbox is the list of the messages linked in it. -/
namespace AmiKaya

def insertMessage (q : List Msg) (m : Msg) : List Msg := q ++ [m]

def pushMessage (q : List Msg) (m : Msg) : List Msg := m :: q

/-- With NULL the first message goes, otherwise the first one sent by `mp`. -/
def popMessage (q : List Msg) (mp : Ptr) : Option (Msg × List Msg) :=
  match q with
  | [] => none
  | m :: rest =>
    if mp = null then some (m, rest)
    else if m.mSender = mp then some (m, rest)
    else (popMessage rest mp).map fun r => (r.1, m :: r.2)

namespace Kernel

def initMsg (k : Kernel) : Kernel := { k with msgFree := msgArray }

def freeMsg (k : Kernel) (m : Msg) : Kernel := { k with msgFree := k.msgFree ++ [m.addr] }

/-- The first free buffer, with both its fields cleared; none is left when the list is empty. -/
def allocMsg (k : Kernel) : Option (Msg × Kernel) :=
  match k.msgFree with
  | [] => none
  | a :: free => some ({ addr := a, mSender := null, mMessage := 0 }, { k with msgFree := free })

/-- The loop of `terminate` that pops every message of an inbox and frees it. -/
def cleanInbox (k : Kernel) (p : Ptr) : List Msg → Kernel
  | [] => k.setTcb p fun t => { t with tInbox := [] }
  | m :: rest => (k.freeMsg m).cleanInbox p rest

end Kernel

end AmiKaya
