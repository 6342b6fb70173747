import Kaya.Phase1.Represents

open Links

namespace Kaya

/-! The process queue functions on the ready queue. -/

/-- `insertProcQ(&readyQueue, p)` -/
def insertReady (p : PcbPtr) : HeapM Unit := do
  let tp ← insertProcQ (← get).readyQueue p
  modify fun h => { h with readyQueue := tp }

/-- `removeProcQ(&readyQueue)` -/
def removeReady : HeapM PcbPtr := do
  let (p, tp) ← removeProcQ (← get).readyQueue
  modify fun h => { h with readyQueue := tp }
  return p

/-- `outProcQ(&readyQueue, p)` -/
def outReady (p : PcbPtr) : HeapM PcbPtr := do
  let (out, tp) ← outProcQ (← get).readyQueue p
  modify fun h => { h with readyQueue := tp }
  return out

variable {h : Heap} {q : Queues} {p : Pid}

/-- Relinking the ready queue, and possibly pcbs that are in no place, leaves
everything else as it was. -/
theorem Represents.relink_ready {next prev : Pid → PcbPtr} {l l' : List Pid} {tp : PcbPtr}
    (hrep : Represents h q) (hring : Ring next prev tp l') (hoff : h.LinksOff next prev l)
    (hfree : ∀ x ∈ q.free, x ∉ l) (hblocked : ∀ x ∈ FifoMap.values q.asl, x ∉ l) :
    Represents { h.withLinks next prev with readyQueue := tp } { q with ready := l' } where
  free := hrep.free.congr fun x hx => (hoff x (hfree x hx)).1
  ready := hring
  asl := hrep.asl_congr rfl rfl rfl rfl rfl fun x hx => hoff x (hblocked x hx)
  children := hrep.children
  parent := hrep.parent
  roots := hrep.roots
  semAdd := hrep.semAdd
  states := hrep.states
  rom := hrep.rom

theorem insertReady_spec (hrep : Represents h q) (hp : p ∉ q.placed) (hq : q.WF) :
    ∃ h', (insertReady (.to p)).run h = .ok () h' ∧ Represents h' (q.makeReady p) := by
  rw [Queues.mem_placed, not_or, not_or] at hp
  obtain ⟨next, prev, hrun, hring, hoff⟩ := insertProcQ_spec hrep.ready hp.2.1
  refine ⟨_, ?_, hrep.relink_ready hring hoff ?_ ?_⟩
  · simp only [insertReady, EStateM.run_bind, EStateM.run_get, hrun, EStateM.run_modify]
  · intro x hx hmem
    rcases List.mem_cons.mp hmem with rfl | hmem
    · exact hp.1 hx
    · exact hq.not_ready_of_free hx hmem
  · intro x hx hmem
    rcases List.mem_cons.mp hmem with rfl | hmem
    · exact hp.2.2 hx
    · exact hq.not_blocked_of_ready hmem hx

theorem removeReady_nil (hrep : Represents h q) (hready : q.ready = []) :
    removeReady.run h = .ok .null h := by
  have htp : h.readyQueue = .null := by simpa [hready] using hrep.ready.tail
  simp only [removeReady, EStateM.run_bind, EStateM.run_get, htp, removeProcQ_nil,
    EStateM.run_modify, EStateM.run_pure]
  rw [← htp]

theorem removeReady_cons {rest : List Pid} (hrep : Represents h q) (hq : q.WF)
    (hready : q.ready = p :: rest) :
    ∃ h', removeReady.run h = .ok (.to p) h' ∧ Represents h' (q.unready p) := by
  have hring := hrep.ready
  rw [hready] at hring
  obtain ⟨next, prev, hrun, hring', hoff⟩ := removeProcQ_cons hring
  have hrest : ∀ x ∈ rest, x ∈ q.ready := fun x hx => by simp [hready, hx]
  have hout : q.unready p = { q with ready := rest } := by simp [Queues.unready, hready]
  rw [hout]
  refine ⟨{ h.withLinks next prev with readyQueue := tailPtr rest }, ?_,
    hrep.relink_ready hring' hoff ?_ ?_⟩
  · simp only [removeReady, EStateM.run_bind, EStateM.run_get, hrun, EStateM.run_modify,
      EStateM.run_pure]
  · exact fun x hx hmem => hq.not_ready_of_free hx (hrest x hmem)
  · exact fun x hx hmem => hq.not_blocked_of_ready (hrest x hmem) hx

/-- `outProcQ` takes `p` out of the ready queue, or leaves the queue alone when
`p` is not on it. -/
theorem outReady_spec (hrep : Represents h q) (hq : q.WF) :
    ∃ r h', (outReady (.to p)).run h = .ok r h' ∧ Represents h' (q.unready p) := by
  by_cases hp : p ∈ q.ready
  · obtain ⟨a, b, hab⟩ := List.append_of_mem hp
    have hring := hrep.ready
    have hnodup := hq.ready_nodup
    rw [hab] at hring hnodup
    obtain ⟨next, prev, hrun, hring', hoff⟩ := outProcQ_spec hring
    have hpa : p ∉ a := fun hpa => (List.nodup_append.mp hnodup).2.2 p hpa p (by simp) rfl
    have hout : q.unready p = { q with ready := a ++ b } := by
      rw [Queues.unready, hab, List.erase_append_right _ hpa, List.erase_cons_head]
    have hrest : ∀ x ∈ a ++ b, x ∈ q.ready := by
      intro x hx
      simp only [hab, List.mem_append, List.mem_cons] at hx ⊢
      exact hx.imp_right Or.inr
    rw [hout]
    refine ⟨.to p, { h.withLinks next prev with readyQueue := tailPtr (a ++ b) }, ?_,
      hrep.relink_ready hring' hoff ?_ ?_⟩
    · simp only [outReady, EStateM.run_bind, EStateM.run_get, hrun, EStateM.run_modify,
        EStateM.run_pure]
    · exact fun x hx hmem => hq.not_ready_of_free hx (hrest x hmem)
    · exact fun x hx hmem => hq.not_blocked_of_ready (hrest x hmem) hx
  · refine ⟨.null, h, ?_, ?_⟩
    · simp only [outReady, EStateM.run_bind, EStateM.run_get, outProcQ_not_mem hrep.ready hp,
        EStateM.run_modify, EStateM.run_pure]
    · unfold Queues.unready
      rwa [List.erase_of_not_mem hp]

end Kaya
