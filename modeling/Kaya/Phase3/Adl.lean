import Kaya.Exec.Run
import Kaya.Types

open Links

namespace Kaya

/-- The delay list of phase 3: the fields of its nodes and its two list heads. -/
structure Adl (ι : Type) where
  d_next : ι → Ptr ι
  d_wakeTime : ι → Word
  d_asid : ι → Word
  delaydFree_h : Ptr ι
  activeDelayd_h : Ptr ι

abbrev AdlM (ι : Type) : Type → Type := EStateM Stop (Adl ι)

/-- The node that a pointer of a list of phase 3 is dereferenced to. -/
def derefNode {σ ι : Type} (p : Ptr ι) : EStateM Stop σ ι :=
  match p with
  | .to x => pure x
  | .null => throw .trap
  | .zero => throw .undefined

theorem run_bind_derefNode {σ ι α : Type} {x : ι} {f : ι → EStateM Stop σ α} {s : σ} :
    (derefNode (.to x) >>= f).run s = (f x).run s := rfl

variable {ι : Type} [DecidableEq ι]

def Adl.putNext (x : ι) (v : Ptr ι) (s : Adl ι) : Adl ι :=
  { s with d_next := Function.update s.d_next x v }

/-- The loop of `searchDelayd`. -/
def searchDelaydFrom (wake : Word) : Nat → Ptr ι → AdlM ι (Ptr ι)
  | 0, _ => throw .spin
  | n + 1, searching => do
    let next := (← get).d_next (← derefNode searching)
    if next ≠ .null then
      let time := (← get).d_wakeTime (← derefNode next)
      if time.toInt < wake.toInt then searchDelaydFrom wake n next
      else return searching
    else return searching

/-- The node behind which a new wake time goes. The head itself is not compared. -/
def searchDelayd (n : Nat) (wake : Word) : AdlM ι (Ptr ι) := do
  searchDelaydFrom wake n (← get).activeDelayd_h

def headDelayTime : AdlM ι Word := do
  if (← get).activeDelayd_h = .null then
    return FAILURE
  else
    return (← get).d_wakeTime (← derefNode (← get).activeDelayd_h)

/-- Gives a node back. The node that an empty free list receives is forgotten at
once. -/
def freeDelayd (delay : Ptr ι) : AdlM ι Unit := do
  if (← get).delaydFree_h = .null then
    modify fun s => { s with delaydFree_h := delay }
    modify fun s => { s with delaydFree_h := .null }
  else
    let x ← derefNode delay
    modify fun s => s.putNext x s.delaydFree_h
    modify fun s => { s with delaydFree_h := delay }

def allocDelayd : AdlM ι (Ptr ι) := do
  if (← get).delaydFree_h = .null then
    return .null
  else
    let x ← derefNode (← get).delaydFree_h
    modify fun s => { s with delaydFree_h := s.d_next x }
    modify fun s => s.putNext x .null
    return .to x

/-- `insertDelay`: whether the request was accepted. -/
def insertDelay (n : Nat) (wakeTime ID : Word) : AdlM ι Bool := do
  match ← allocDelayd with
  | .to new =>
    modify fun s => { s with
      d_wakeTime := Function.update s.d_wakeTime new wakeTime
      d_asid := Function.update s.d_asid new ID }
    if (← get).activeDelayd_h = .null then
      modify fun s => { s with activeDelayd_h := .to new }
      modify fun s => s.putNext new .null
      return true
    else
      let delay ← derefNode (← searchDelayd n wakeTime)
      modify fun s => s.putNext new (s.d_next delay)
      modify fun s => s.putNext delay (.to new)
      return true
  | _ => return false

def removeDelay : AdlM ι Word := do
  let temp := (← get).activeDelayd_h
  if temp ≠ .null then
    let x ← derefNode temp
    modify fun s => { s with activeDelayd_h := s.d_next x }
    let returnMe := (← get).d_asid x
    modify fun s => s.putNext x .null
    freeDelayd temp
    return returnMe
  else
    return FAILURE

/-- The inner loop of `delayDaemon`, which it runs each time it has been woken by
the clock: the processes whose private semaphores it V's, in order. -/
def wakeSleepers (theClock : Word) : Nat → AdlM ι (List Word)
  | 0 => throw .spin
  | n + 1 => do
    if (← headDelayTime).toInt ≤ theClock.toInt ∧ (← headDelayTime) ≠ FAILURE then
      let ID ← removeDelay
      if ID = FAILURE then
        throw .PANIC
      else
        return ID :: (← wakeSleepers theClock n)
    else
      return []

/-- `initADL`, which frees the nodes of its table one after the other. -/
def initADL (delayTable : List ι) : AdlM ι Unit := do
  modify fun s => { s with delaydFree_h := .null }
  modify fun s => { s with activeDelayd_h := .null }
  delayTable.forM fun x => freeDelayd (.to x)

end Kaya
