import Kaya.Phase1.Pcb

open Links

namespace Kaya

/-! `asl.c`. The last two descriptors of the table are the dummy nodes. -/

def semdZero : Sid := ⟨MAXPROC, by decide⟩

def semdMax : Sid := ⟨MAXPROC + 1, by decide⟩

def allocSemd : HeapM SemdPtr := do
  if (← get).semdFree_h = .null then
    return .null
  else
    let returnMe := (← get).semdFree_h
    let rest ← load Heap.s_next returnMe
    modify fun h => { h with semdFree_h := rest }
    store Heap.putSNext returnMe .null
    store Heap.putSSemAdd returnMe NULL
    store Heap.putSProcQ returnMe mkEmptyProcQ
    return returnMe

def freeSemd (removing : SemdPtr) : HeapM Unit := do
  store Heap.putSNext removing (← get).semdFree_h
  modify fun h => { h with semdFree_h := removing }

/-- The search loop of `searchASL`, bounded like that of `outProcQ`. -/
def searchASLLoop (semAdd : Word) : Nat → SemdPtr → HeapM SemdPtr
  | 0, _ => throw .spin
  | fuel + 1, searching => do
    let next ← load Heap.s_next searching
    if (← load Heap.s_semAdd next) < semAdd then
      searchASLLoop semAdd fuel next
    else
      return searching

/-- The active node before the place of `semAdd`. -/
def searchASL (semAdd : Word) : HeapM SemdPtr := do
  let semAdd := if semAdd = NULL then MAXINT else semAdd
  searchASLLoop semAdd (MAXPROC + 3) (← get).semdActive_h

/-- Returns `TRUE` when a descriptor is needed and none is free. -/
def insertBlocked (semAdd : Word) (p : PcbPtr) : HeapM Bool := do
  let q ← searchASL semAdd
  let found ← load Heap.s_next q
  if (← load Heap.s_semAdd found) = semAdd then
    store Heap.putSemAdd p semAdd
    store Heap.putSProcQ found (← insertProcQ (← load Heap.s_procQ found) p)
    return false
  else
    let new ← allocSemd
    if new = .null then
      return true
    else
      store Heap.putSNext new (← load Heap.s_next q)
      store Heap.putSNext q new
      store Heap.putSProcQ new mkEmptyProcQ
      store Heap.putSProcQ new (← insertProcQ (← load Heap.s_procQ new) p)
      store Heap.putSSemAdd new semAdd
      store Heap.putSemAdd p semAdd
      return false

/-- Takes the descriptor behind `prev` off the active list when its process
queue is empty. -/
def dropEmptySemd (prev : SemdPtr) : HeapM Unit := do
  let removing ← load Heap.s_next prev
  if emptyProcQ (← load Heap.s_procQ removing) then
    store Heap.putSNext prev (← load Heap.s_next removing)
    freeSemd removing
    store Heap.putSSemAdd removing NULL

def removeBlocked (semAdd : Word) : HeapM PcbPtr := do
  let prev ← searchASL semAdd
  let found ← load Heap.s_next prev
  if (← load Heap.s_semAdd found) ≠ semAdd then
    return .null
  else
    let (p, tp) ← removeProcQ (← load Heap.s_procQ found)
    store Heap.putSProcQ found tp
    dropEmptySemd prev
    if p ≠ .null then
      store Heap.putSemAdd p NULL
    return p

def outBlocked (p : PcbPtr) : HeapM PcbPtr := do
  let prev ← searchASL (← load Heap.pcb_semAdd p)
  let found ← load Heap.s_next prev
  if (← load Heap.s_semAdd found) ≠ (← load Heap.pcb_semAdd p) then
    return .null
  else
    let (pcb, tp) ← outProcQ (← load Heap.s_procQ found) p
    store Heap.putSProcQ found tp
    dropEmptySemd prev
    store Heap.putSemAdd pcb NULL
    return pcb

/-- The head of the queue behind the search position, whether or not its
descriptor is that of `semAdd`. -/
def headBlocked (semAdd : Word) : HeapM PcbPtr := do
  let prev ← searchASL semAdd
  headProcQ (← load Heap.s_procQ (← load Heap.s_next prev))

/-- The entries of `semdTable` that are not dummy nodes. -/
def semdTable : List Sid := (List.finRange MAXPROC).map fun i => i.castSucc.castSucc

def initASL : HeapM Unit := do
  modify fun h => { h with semdFree_h := .null, semdActive_h := .null }
  semdTable.forM fun i => freeSemd (.to i)
  store Heap.putSSemAdd (.to semdZero) 0
  store Heap.putSSemAdd (.to semdMax) MAXINT
  store Heap.putSProcQ (.to semdZero) mkEmptyProcQ
  store Heap.putSProcQ (.to semdMax) mkEmptyProcQ
  store Heap.putSNext (.to semdZero) (.to semdMax)
  modify fun h => { h with semdActive_h := .to semdZero }

end Kaya
