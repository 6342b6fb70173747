import Kaya.Forest
import Kaya.Queues.FifoMap.Restrict
import Kaya.Types

open Links

namespace Kaya

/-- What the tables of phase 1 stand for: the free list and the ready queue as
lists, the active semaphores as a map from addresses to queues, and the process
tree as a forest. -/
structure Queues where
  free : List Pid
  ready : List Pid
  asl : FifoMap Word Pid
  children : Forest Pid
  parent : Pid → PcbPtr
  semAdd : Pid → Word
  states : Pid → TrapType → Section → Word

namespace Queues

/-- Every place a pcb can be in other than being current. -/
def placed (q : Queues) : List Pid := q.free ++ q.ready ++ FifoMap.values q.asl

/-- The queue of blocked processes of a semaphore, longest waiting first. -/
def waiting (q : Queues) (a : Word) : List Pid := FifoMap.queue a q.asl

structure WF (q : Queues) : Prop where
  asl : FifoMap.WF q.asl
  bounded : ∀ e ∈ q.asl, e.1 < MAXINT
  nodup : q.placed.Nodup
  blocked : ∀ a p, p ∈ q.waiting a → q.semAdd p = a
  idle : ∀ p, p ∉ q.free → p ∉ FifoMap.values q.asl → q.semAdd p = NULL
  child : ∀ p c, c ∈ q.children p ↔ q.parent c = .to p
  siblings : ∀ p, (q.children p).Nodup
  unborn : ∀ p ∈ q.free, q.children p = [] ∧ ∀ r, q.parent p ≠ .to r
  acyclic : q.children.Acyclic

/-- The first free pcb is taken. -/
def alloc (p : Pid) (q : Queues) : Queues :=
  { q with
    free := q.free.tail
    semAdd := Function.update q.semAdd p NULL
    states := Function.update q.states p fun _ _ => NULL }

/-- A pcb goes back to the free list. -/
def discard (p : Pid) (q : Queues) : Queues := { q with free := p :: q.free }

def adopt (prnt p : Pid) (q : Queues) : Queues :=
  { q with
    children := q.children.adopt prnt p
    parent := Function.update q.parent p (.to prnt) }

/-- A child leaves its parent; a pcb that is nobody's child stays as it is. -/
def orphan (p : Pid) (q : Queues) : Queues :=
  match q.parent p with
  | .to prnt =>
    { q with
      children := q.children.detach prnt p
      parent := Function.update q.parent p .null }
  | _ => q

def makeReady (p : Pid) (q : Queues) : Queues := { q with ready := q.ready ++ [p] }

def unready (p : Pid) (q : Queues) : Queues := { q with ready := q.ready.erase p }

def block (a : Word) (p : Pid) (q : Queues) : Queues :=
  { q with
    asl := FifoMap.enqueue a p q.asl
    semAdd := Function.update q.semAdd p a }

def unblock (p : Pid) (q : Queues) : Queues :=
  { q with
    asl := FifoMap.restrict (· ≠ p) q.asl
    semAdd := Function.update q.semAdd p NULL }

def setStates (p : Pid) (v : TrapType → Section → Word) (q : Queues) : Queues :=
  { q with states := Function.update q.states p v }

variable {q : Queues} {p c prnt : Pid} {a : Word}

theorem mem_placed : p ∈ q.placed ↔ p ∈ q.free ∨ p ∈ q.ready ∨ p ∈ FifoMap.values q.asl := by
  simp [placed]

theorem mem_values_of_mem_waiting (h : p ∈ q.waiting a) : p ∈ FifoMap.values q.asl :=
  FifoMap.mem_values_of_mem_queue h

theorem placed_makeReady : (q.makeReady p).placed.Perm (p :: q.placed) := by
  unfold placed makeReady
  rw [List.append_assoc, List.append_assoc, List.append_assoc, List.singleton_append]
  exact (List.perm_middle.append_left _).trans List.perm_middle

theorem placed_block : (q.block a p).placed.Perm (p :: q.placed) := by
  unfold placed block
  exact (FifoMap.values_enqueue.append_left _).trans List.perm_middle

theorem WF.ready_nodup (hq : q.WF) : q.ready.Nodup :=
  (List.nodup_append.mp (List.nodup_append.mp hq.nodup).1).2.1

theorem WF.free_nodup (hq : q.WF) : q.free.Nodup :=
  (List.nodup_append.mp (List.nodup_append.mp hq.nodup).1).1

theorem WF.values_nodup (hq : q.WF) : (FifoMap.values q.asl).Nodup :=
  (List.nodup_append.mp hq.nodup).2.1

theorem WF.not_ready_of_free (hq : q.WF) (h : p ∈ q.free) : p ∉ q.ready :=
  fun hr => (List.nodup_append.mp (List.nodup_append.mp hq.nodup).1).2.2 p h p hr rfl

theorem WF.not_blocked_of_free (hq : q.WF) (h : p ∈ q.free) : p ∉ FifoMap.values q.asl :=
  fun hb => (List.nodup_append.mp hq.nodup).2.2 p (List.mem_append_left _ h) p hb rfl

theorem WF.not_blocked_of_ready (hq : q.WF) (h : p ∈ q.ready) : p ∉ FifoMap.values q.asl :=
  fun hb => (List.nodup_append.mp hq.nodup).2.2 p (List.mem_append_right _ h) p hb rfl

theorem WF.waiting_nodup (hq : q.WF) (a : Word) : (q.waiting a).Nodup := by
  by_cases ha : q.waiting a = []
  · simp [ha]
  · exact (List.nodup_flatMap.mp hq.values_nodup).1 _ (FifoMap.mem_of_queue_ne_nil ha)

/-- A pcb waits exactly where its `pcb_semAdd` says. -/
theorem WF.mem_waiting_semAdd (hq : q.WF) (h : p ∈ FifoMap.values q.asl) :
    p ∈ q.waiting (q.semAdd p) := by
  obtain ⟨a, ha⟩ := (FifoMap.mem_values hq.asl).mp h
  rwa [hq.blocked a p ha]

theorem WF.waiting_lt (hq : q.WF) (h : p ∈ q.waiting a) : a < MAXINT :=
  hq.bounded _ (FifoMap.mem_of_queue_ne_nil (List.ne_nil_of_mem h))

/-- The address of an active semaphore is not `NULL`. -/
theorem WF.ne_NULL (hq : q.WF) (h : p ∈ q.waiting a) : a ≠ NULL := by
  rintro rfl
  exact absurd (hq.waiting_lt h) (by decide)

theorem WF.semAdd_eq_NULL_iff (hq : q.WF) (h : p ∉ q.free) :
    q.semAdd p = NULL ↔ p ∉ FifoMap.values q.asl := by
  constructor
  · intro hnull hb
    exact hq.ne_NULL (hq.mem_waiting_semAdd hb) hnull
  · exact hq.idle p h

end Queues

end Kaya
