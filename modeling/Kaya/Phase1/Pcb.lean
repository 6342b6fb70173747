import Kaya.Phase1.Heap
import Mathlib.Data.Fintype.Basic

open Links

namespace Kaya

/-! `pcb.c`. A function that receives the address of a tail pointer receives
the pointer itself here and returns its new value. -/

def mkEmptyProcQ : PcbPtr := .null

def emptyProcQ (tp : PcbPtr) : Bool := decide (tp = .null)

/-- Pushes a pcb onto the free list. -/
def freePcb (p : PcbPtr) : HeapM Unit := do
  store Heap.putNext p (← get).pcb_FREE_h
  modify fun h => { h with pcb_FREE_h := p }

def initPcbs : HeapM Unit := do
  modify fun h => { h with pcb_FREE_h := .null }
  (List.finRange MAXPROC).forM fun it => freePcb (.to it)

/-- Pops a pcb off the free list. `pcb_parent` keeps its old value. -/
def allocPcb : HeapM PcbPtr := do
  if (← get).pcb_FREE_h = .null then
    return .null
  else
    let newPcb := (← get).pcb_FREE_h
    let rest ← load Heap.pcb_next newPcb
    modify fun h => { h with pcb_FREE_h := rest }
    store Heap.putNext newPcb .null
    store Heap.putPrev newPcb .null
    store Heap.putChild newPcb .null
    store Heap.putPrevSib newPcb .null
    store Heap.putNextSib newPcb .null
    store Heap.putSemAdd newPcb NULL
    store Heap.putStates newPcb fun _ _ => NULL
    return newPcb

def insertProcQ (tp p : PcbPtr) : HeapM PcbPtr := do
  if emptyProcQ tp then
    store Heap.putPrev p p
    store Heap.putNext p p
  else
    store Heap.putPrev p tp
    store Heap.putNext p (← load Heap.pcb_next tp)
    store Heap.putNext tp p
    store Heap.putPrev (← load Heap.pcb_next p) p
  return p

def headProcQ (tp : PcbPtr) : HeapM PcbPtr :=
  if emptyProcQ tp then
    return .null
  else
    load Heap.pcb_next tp

/-- The search loop of `outProcQ`. A walk through the `MAXPROC` entries of the
table that has not ended after as many steps never ends. -/
def searchProcQ (tp p : PcbPtr) : Nat → PcbPtr → HeapM PcbPtr
  | 0, _ => throw .spin
  | fuel + 1, searching => do
    if searching ≠ tp ∧ searching ≠ p then
      searchProcQ tp p fuel (← load Heap.pcb_next searching)
    else
      return searching

/-- Unlinks `p` from its neighbours. -/
def unlinkProcQ (p : PcbPtr) : HeapM Unit := do
  store Heap.putNext (← load Heap.pcb_prev p) (← load Heap.pcb_next p)
  store Heap.putPrev (← load Heap.pcb_next p) (← load Heap.pcb_prev p)

/-- Returns the removed pcb, or `NULL`, and the new tail pointer. -/
def outProcQ (tp p : PcbPtr) : HeapM (PcbPtr × PcbPtr) := do
  if emptyProcQ tp then
    return (.null, tp)
  else if tp = p then
    if (← load Heap.pcb_next tp) = tp then
      return (p, mkEmptyProcQ)
    else
      unlinkProcQ tp
      return (p, ← load Heap.pcb_prev tp)
  else
    let searching ← searchProcQ tp p (MAXPROC + 1) (← headProcQ tp)
    if searching = tp then
      return (.null, tp)
    else
      unlinkProcQ p
      return (p, tp)

def removeProcQ (tp : PcbPtr) : HeapM (PcbPtr × PcbPtr) := do
  outProcQ tp (← headProcQ tp)

def emptyChild (p : PcbPtr) : HeapM Bool := do
  return decide ((← loadChild p) = .null)

def insertChild (prnt p : PcbPtr) : HeapM Unit := do
  if ← emptyChild prnt then
    store Heap.putChild prnt p
    store Heap.putParent p prnt
    store Heap.putNextSib p .null
    store Heap.putPrevSib p .null
  else
    store Heap.putPrevSib (← loadChild prnt) p
    store Heap.putNextSib p (← loadChild prnt)
    store Heap.putParent p prnt
    store Heap.putChild prnt p
    store Heap.putPrevSib p .null

/-- The cases of `outChild` for a pcb that has a parent. -/
def unlinkChild (child : PcbPtr) : HeapM PcbPtr := do
  if (← load Heap.pcb_nextSib child) = .null ∧ (← load Heap.pcb_prevSib child) = .null ∧
      child = (← loadChild (← load Heap.pcb_parent child)) then
    -- only child
    store Heap.putChild (← load Heap.pcb_parent child) .null
    store Heap.putParent child .null
    return child
  else if child = (← loadChild (← load Heap.pcb_parent child)) then
    -- first child
    store Heap.putPrevSib (← load Heap.pcb_nextSib child) .null
    store Heap.putChild (← load Heap.pcb_parent child) (← load Heap.pcb_nextSib child)
    store Heap.putParent child .null
    return child
  else if (← load Heap.pcb_nextSib child) ≠ .null ∧ (← load Heap.pcb_prevSib child) ≠ .null then
    -- middle child
    store Heap.putNextSib (← load Heap.pcb_prevSib child) (← load Heap.pcb_nextSib child)
    store Heap.putPrevSib (← load Heap.pcb_nextSib child) (← load Heap.pcb_prevSib child)
    store Heap.putParent child .null
    return child
  else if (← load Heap.pcb_nextSib child) = .null ∧ (← load Heap.pcb_prevSib child) ≠ .null then
    -- last child
    store Heap.putNextSib (← load Heap.pcb_prevSib child) .null
    store Heap.putParent child .null
    return child
  else
    return .null

def outChild (child : PcbPtr) : HeapM PcbPtr := do
  if child = .null then
    return .null
  else if (← load Heap.pcb_parent child) = .null then
    return .null
  else
    unlinkChild child

def removeChild (parent : PcbPtr) : HeapM PcbPtr := do
  outChild (← loadChild parent)

end Kaya
