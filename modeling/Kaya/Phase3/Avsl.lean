import Kaya.Phase3.Adl

open Links

namespace Kaya

/-- The list of processes blocked on semaphores in user memory: the fields of its
nodes and its two list heads. -/
structure Avsl (ι : Type) where
  v_next : ι → Ptr ι
  v_prev : ι → Ptr ι
  v_sem : ι → Word
  v_asid : ι → Word
  vSem_h : Ptr ι
  vSemFree_h : Ptr ι

abbrev AvslM (ι : Type) : Type → Type := EStateM Stop (Avsl ι)

variable {ι : Type} [DecidableEq ι]

namespace Avsl

def putNext (x : ι) (v : Ptr ι) (s : Avsl ι) : Avsl ι :=
  { s with v_next := Function.update s.v_next x v }

def putPrev (x : ι) (v : Ptr ι) (s : Avsl ι) : Avsl ι :=
  { s with v_prev := Function.update s.v_prev x v }

end Avsl

def freevSem (vSem : ι) : AvslM ι Unit := do
  if (← get).vSemFree_h = .null then
    modify fun s => { s with vSemFree_h := .to vSem }
    modify fun s => s.putNext vSem .null
  else
    modify fun s => s.putNext vSem s.vSemFree_h
    modify fun s => { s with vSemFree_h := .to vSem }

/-- `allocVSem`; the node that it answers is cleared. -/
def allocVSem : AvslM ι (Ptr ι) := do
  if (← get).vSemFree_h = .null then
    return .null
  else
    let x ← derefNode (← get).vSemFree_h
    modify fun s => { s with vSemFree_h := s.v_next x }
    modify fun s => s.putNext x .null
    modify fun s => s.putPrev x .null
    modify fun s => { s with
      v_sem := Function.update s.v_sem x NULL
      v_asid := Function.update s.v_asid x NULL }
    return .to x

/-- `initAVSL`, which frees the nodes of its table one after the other. -/
def initAVSL (vSemTable : List ι) : AvslM ι Unit := do
  modify fun s => { s with vSem_h := .null }
  modify fun s => { s with vSemFree_h := .null }
  vSemTable.forM freevSem

/-- `vInsertBlocked`: whether there was a free node. -/
def vInsertBlocked (vSemAdd ID : Word) : AvslM ι Bool := do
  match ← allocVSem with
  | .to newSem =>
    modify fun s => { s with
      v_sem := Function.update s.v_sem newSem vSemAdd
      v_asid := Function.update s.v_asid newSem ID }
    if (← get).vSem_h = .null then
      modify fun s => { s with vSem_h := .to newSem }
      modify fun s => s.putNext newSem (.to newSem)
      modify fun s => s.putPrev newSem (.to newSem)
      return true
    else
      let head ← derefNode (← get).vSem_h
      modify fun s => s.putNext newSem (.to head)
      let last ← derefNode ((← get).v_prev head)
      modify fun s => s.putNext last (.to newSem)
      modify fun s => s.putPrev newSem (s.v_prev head)
      modify fun s => s.putPrev head (.to newSem)
      return true
  | _ => return false

/-- The loop of `vRemoveBlocked`: the first node from `currentSem` on with the
semaphore, or the head if there is none. -/
def findVSem (vSemAdd : Word) (head : ι) : Nat → ι → AvslM ι (Bool × ι)
  | 0, _ => throw .spin
  | n + 1, currentSem => do
    if currentSem ≠ head then
      if (← get).v_sem currentSem = vSemAdd then return (true, currentSem)
      else findVSem vSemAdd head n (← derefNode ((← get).v_next currentSem))
    else return (false, currentSem)

/-- Takes a node out of the ring and answers its process. -/
def unlinkVSem (currentSem : ι) : AvslM ι Word := do
  let returnMe := (← get).v_asid currentSem
  let before ← derefNode ((← get).v_prev currentSem)
  modify fun s => s.putNext before (s.v_next currentSem)
  let after ← derefNode ((← get).v_next currentSem)
  modify fun s => s.putPrev after (s.v_prev currentSem)
  freevSem currentSem
  return returnMe

/-- `vRemoveBlocked`. Where the head has the semaphore and there are other nodes,
the node behind the head is taken out; without a node for the semaphore the
answer is `FALSE`. -/
def vRemoveBlocked (n : Nat) (vSemAdd : Word) : AvslM ι Word := do
  if (← get).vSem_h = .null then
    return 0
  else
    let head ← derefNode (← get).vSem_h
    let next ← derefNode ((← get).v_next head)
    if next = head then
      if (← get).v_sem head = vSemAdd then
        let returnMe := (← get).v_asid head
        modify fun s => s.putNext head .null
        modify fun s => s.putPrev head .null
        freevSem head
        modify fun s => { s with vSem_h := .null }
        return returnMe
      else
        return 0
    else if (← get).v_sem head = vSemAdd then
      unlinkVSem next
    else
      let (f, currentSem) ← findVSem vSemAdd head n next
      if f then unlinkVSem currentSem else return 0

end Kaya
