import Kaya.Types
import Mathlib.Logic.Function.Basic

open Links

namespace Kaya

/-- The tables and list heads of phase 1, one map from table entries for each
field of `pcb_t` and `semd_t` that phase 1 maintains, and the tail pointer of
the ready queue. `rom` is what a load of `pcb_child` through the zero pointer
finds: a word of the ROM that is mapped at address 0. -/
structure Heap where
  pcb_next : Pid → PcbPtr
  pcb_prev : Pid → PcbPtr
  pcb_child : Pid → PcbPtr
  pcb_parent : Pid → PcbPtr
  pcb_prevSib : Pid → PcbPtr
  pcb_nextSib : Pid → PcbPtr
  pcb_semAdd : Pid → Word
  pcb_states : Pid → TrapType → Section → Word
  pcb_FREE_h : PcbPtr
  readyQueue : PcbPtr
  s_next : Sid → SemdPtr
  s_semAdd : Sid → Word
  s_procQ : Sid → PcbPtr
  semdFree_h : SemdPtr
  semdActive_h : SemdPtr
  rom : PcbPtr

abbrev HeapM : Type → Type := EStateM Stop Heap

/-- The entry a pointer is dereferenced to by a load. A field of `NULL` lies at
an address that is not a multiple of four; what lies behind the zero pointer is
not part of the tables. -/
def deref {ι : Type} (p : Ptr ι) : HeapM ι :=
  match p with
  | .to i => pure i
  | .null => throw .trap
  | .zero => throw .undefined

/-- The entry a pointer is dereferenced to by a store; a store to ROM is a bus
error. -/
def derefStore {ι : Type} (p : Ptr ι) : HeapM ι :=
  match p with
  | .to i => pure i
  | .null => throw .trap
  | .zero => throw .trap

/-- Loads a field of a pcb or of a descriptor. -/
def load {ι β : Type} (field : Heap → ι → β) (p : Ptr ι) : HeapM β := do
  let i ← deref p
  return field (← get) i

/-- Loads `p -> pcb_child`. -/
def loadChild (p : PcbPtr) : HeapM PcbPtr :=
  match p with
  | .zero => return (← get).rom
  | p => load Heap.pcb_child p

/-- Stores to a field of a pcb or of a descriptor. -/
def store {ι β : Type} (put : (ι → β → Heap → Heap)) (p : Ptr ι) (v : β) : HeapM Unit := do
  let i ← derefStore p
  modify (put i v)

namespace Heap

def putNext (i : Pid) (v : PcbPtr) (h : Heap) : Heap :=
  { h with pcb_next := Function.update h.pcb_next i v }

def putPrev (i : Pid) (v : PcbPtr) (h : Heap) : Heap :=
  { h with pcb_prev := Function.update h.pcb_prev i v }

def putChild (i : Pid) (v : PcbPtr) (h : Heap) : Heap :=
  { h with pcb_child := Function.update h.pcb_child i v }

def putParent (i : Pid) (v : PcbPtr) (h : Heap) : Heap :=
  { h with pcb_parent := Function.update h.pcb_parent i v }

def putPrevSib (i : Pid) (v : PcbPtr) (h : Heap) : Heap :=
  { h with pcb_prevSib := Function.update h.pcb_prevSib i v }

def putNextSib (i : Pid) (v : PcbPtr) (h : Heap) : Heap :=
  { h with pcb_nextSib := Function.update h.pcb_nextSib i v }

def putSemAdd (i : Pid) (v : Word) (h : Heap) : Heap :=
  { h with pcb_semAdd := Function.update h.pcb_semAdd i v }

def putStates (i : Pid) (v : TrapType → Section → Word) (h : Heap) : Heap :=
  { h with pcb_states := Function.update h.pcb_states i v }

def putSNext (i : Sid) (v : SemdPtr) (h : Heap) : Heap :=
  { h with s_next := Function.update h.s_next i v }

def putSSemAdd (i : Sid) (v : Word) (h : Heap) : Heap :=
  { h with s_semAdd := Function.update h.s_semAdd i v }

def putSProcQ (i : Sid) (v : PcbPtr) (h : Heap) : Heap :=
  { h with s_procQ := Function.update h.s_procQ i v }

end Heap

@[simp] theorem run_deref_to {ι : Type} (i : ι) (h : Heap) :
    (deref (.to i)).run h = .ok i h := rfl

@[simp] theorem run_load_to {ι β : Type} (field : Heap → ι → β) (i : ι) (h : Heap) :
    (load field (.to i)).run h = .ok (field h i) h := rfl

@[simp] theorem run_loadChild_to (i : Pid) (h : Heap) :
    (loadChild (.to i)).run h = .ok (h.pcb_child i) h := rfl

@[simp] theorem run_loadChild_zero (h : Heap) : (loadChild .zero).run h = .ok h.rom h := rfl

@[simp] theorem run_loadChild_null (h : Heap) : (loadChild .null).run h = .error .trap h := rfl

@[simp] theorem run_store_to {ι β : Type} (put : ι → β → Heap → Heap) (i : ι) (v : β) (h : Heap) :
    (store put (.to i) v).run h = .ok () (put i v h) := rfl

@[simp] theorem run_load_null {ι β : Type} (field : Heap → ι → β) (h : Heap) :
    (load field .null).run h = .error .trap h := rfl

@[simp] theorem run_load_zero {ι β : Type} (field : Heap → ι → β) (h : Heap) :
    (load field .zero).run h = .error .undefined h := rfl

@[simp] theorem run_store_zero {ι β : Type} (put : ι → β → Heap → Heap) (v : β) (h : Heap) :
    (store put .zero v).run h = .error .trap h := rfl

@[simp] theorem run_store_null {ι β : Type} (put : ι → β → Heap → Heap) (v : β) (h : Heap) :
    (store put .null v).run h = .error .trap h := rfl

end Kaya
