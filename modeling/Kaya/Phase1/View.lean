import Kaya.Phase1.Entries

open Links

namespace Kaya

namespace Heap

/-! The lists that the heap holds, found by following its links. -/

def freeList (h : Heap) : List Pid := walk h.pcb_next .null (MAXPROC + 1) h.pcb_FREE_h

/-- The process queue with tail pointer `tp`. -/
def procQ (h : Heap) (tp : PcbPtr) : List Pid := ringList h.pcb_next (MAXPROC + 1) tp

def readyList (h : Heap) : List Pid := h.procQ h.readyQueue

/-- The active descriptors between the dummy nodes. -/
def activeList (h : Heap) : List Sid :=
  walk h.s_next (.to semdMax) (MAXPROC + 1) (h.s_next semdZero)

/-- The active semaphores with their queues. -/
def asl (h : Heap) : FifoMap Word Pid := h.activeList.map fun i => (h.s_semAdd i, h.procQ (h.s_procQ i))

/-- The processes blocked on a semaphore, longest waiting first. -/
def blockedOn (h : Heap) (a : Word) : List Pid := FifoMap.queue a h.asl

def childList (h : Heap) (p : Pid) : List Pid := walk h.pcb_nextSib .null (MAXPROC + 1) (h.pcb_child p)

end Heap

variable {h : Heap} {q : Queues}

theorem Represents.freeList_eq (hrep : Represents h q) (hfree : q.free.Nodup) :
    h.freeList = q.free :=
  hrep.free.walk_eq (by simp) ((nodup_length_le hfree).trans (by decide))

theorem Represents.readyList_eq (hrep : Represents h q) : h.readyList = q.ready :=
  hrep.ready.ringList_eq ((nodup_length_le hrep.ready.nodup).trans (by decide))

theorem AslRep.activeList_eq {ids fr : List Sid} {m : FifoMap Word Pid} (hasl : AslRep h ids fr m) :
    h.activeList = ids := by
  have hlen := hasl.length_eq
  refine hasl.active.2.walk_eq ?_ (by omega)
  rintro i hi heq
  obtain rfl : semdMax = i := by simpa using heq
  exact (hasl.ne_dummy (List.mem_append_left _ hi)).2 rfl

theorem AslRep.asl_eq {ids fr : List Sid} {m : FifoMap Word Pid} (hasl : AslRep h ids fr m) :
    h.asl = m := by
  have hmap : ∀ {ids : List Sid} {m : FifoMap Word Pid}, List.Forall₂ h.Entry ids m →
      (ids.map fun i => (h.s_semAdd i, h.procQ (h.s_procQ i))) = m := by
    intro ids m hent
    induction hent with
    | nil => rfl
    | cons hie _ ih =>
      rw [List.map_cons, ih, hie.1]
      have hprocQ := hie.2.ringList_eq
        (show _ ≤ MAXPROC + 1 from (nodup_length_le hie.2.nodup).trans (by decide))
      unfold Heap.procQ
      rw [hprocQ]
  unfold Heap.asl
  rw [hasl.activeList_eq, hmap hasl.entries]

theorem Represents.asl_eq (hrep : Represents h q) : h.asl = q.asl := by
  obtain ⟨ids, fr, hasl⟩ := hrep.asl
  exact hasl.asl_eq

theorem Represents.blockedOn_eq (hrep : Represents h q) (a : Word) :
    h.blockedOn a = q.waiting a := by
  unfold Heap.blockedOn Queues.waiting
  rw [hrep.asl_eq]

theorem Represents.childList_eq (hrep : Represents h q) {p : Pid} (hp : p ∉ q.free) :
    h.childList p = q.children p :=
  (hrep.children p hp).walk_eq ((nodup_length_le (hrep.children p hp).nodup).trans (by decide))

end Kaya
