import AmiKaya.Msg

/-! The array of trap managers (`manager.c`). -/
namespace AmiKaya

/-- The scan stops at the manager itself or at the first free slot, whichever comes first. -/
def insertManager (a : Nat → Ptr) (manager : Ptr) : Nat → Ptr :=
  match (List.range maxThreads).find? fun i => a i = manager || a i = null with
  | none => a
  | some i => put a i manager

/-- Only the first occurrence goes, and it leaves a hole. -/
def eraseManager (a : Nat → Ptr) (manager : Ptr) : Nat → Ptr :=
  match (List.range maxThreads).find? fun i => a i = manager with
  | none => a
  | some i => put a i null

namespace Kernel

def addManager (k : Kernel) (manager : Ptr) : Kernel :=
  { k with trapManagers := insertManager k.trapManagers manager }

def deleteManager (k : Kernel) (manager : Ptr) : Kernel :=
  { k with trapManagers := eraseManager k.trapManagers manager }

def thereIsManager (k : Kernel) (manager : Ptr) : Ptr :=
  if (List.range maxThreads).any fun i => k.trapManagers i = manager then manager else null

end Kernel

end AmiKaya
