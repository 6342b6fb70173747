import Kaya.Exec.System
import Kaya.Phase1.Init
import Kaya.Phase1.ProcQ

open Links Exec

namespace Kaya

/-! Process queues as lists, over every sequence of calls. -/

variable {κ : Type} [DecidableEq κ]

/-- Process queues that share the table of pcbs: the tail pointer of each. -/
structure ProcQs (κ : Type) where
  heap : Heap
  tp : κ → PcbPtr

inductive ProcQCall (κ : Type) where
  | insertProcQ (k : κ) (p : Pid)
  | removeProcQ (k : κ)
  | outProcQ (k : κ) (p : PcbPtr)
  | headProcQ (k : κ)

/-- Runs a function of `pcb.c`. -/
def ProcQs.call {α : Type} : HeapM α → EStateM Stop (ProcQs κ) α :=
  zoom ProcQs.heap fun h s => { s with heap := h }

/-- Stores the tail pointer that a function leaves. -/
def ProcQs.setTp (k : κ) (tp : PcbPtr) : EStateM Stop (ProcQs κ) Unit :=
  modify fun s => { s with tp := Function.update s.tp k tp }

namespace ProcQCall

/-- The function of the source, on the tail pointer of its queue. Only `insertProcQ`
returns nothing. -/
def perform : ProcQCall κ → EStateM Stop (ProcQs κ) (Option PcbPtr)
  | insertProcQ k p => do
    let tp ← ProcQs.call (Kaya.insertProcQ ((← get).tp k) (.to p))
    ProcQs.setTp k tp
    return none
  | removeProcQ k => do
    let (r, tp) ← ProcQs.call (Kaya.removeProcQ ((← get).tp k))
    ProcQs.setTp k tp
    return some r
  | outProcQ k p => do
    let (r, tp) ← ProcQs.call (Kaya.outProcQ ((← get).tp k) p)
    ProcQs.setTp k tp
    return some r
  | headProcQ k => do
    return some (← ProcQs.call (Kaya.headProcQ ((← get).tp k)))

/-- What the function is for: the queues list their pcbs in the order of insertion. -/
def spec (q : κ → List Pid) : ProcQCall κ → Option PcbPtr × (κ → List Pid)
  | insertProcQ k p => (none, Function.update q k (q k ++ [p]))
  | removeProcQ k => (some (headPtr (q k)), Function.update q k (q k).tail)
  | outProcQ k (.to p) =>
    if p ∈ q k then (some (.to p), Function.update q k ((q k).erase p)) else (some .null, q)
  | outProcQ _ _ => (some .null, q)
  | headProcQ k => (some (headPtr (q k)), q)

/-- A pcb is inserted only while it is on no queue. -/
def Allowed (q : κ → List Pid) : ProcQCall κ → Prop
  | insertProcQ _ p => ∀ j, p ∉ q j
  | _ => True

end ProcQCall

/-- Calls on process queues one after the other, all queues empty at first, next to
what the queues are to hold. -/
def procQSystem (κ : Type) [DecidableEq κ] : System (ProcQs κ × (κ → List Pid)) (ProcQCall κ) where
  init s := (∀ k, s.1.tp k = mkEmptyProcQ) ∧ s.2 = fun _ => []
  step s call s' := call.Allowed s.2 ∧ (∃ r, call.perform.run s.1 = .ok r s'.1) ∧
    s'.2 = (call.spec s.2).2

/-- Each queue is the ring behind its tail pointer, and no pcb is on two queues. -/
structure ProcQs.Holds (s : ProcQs κ) (q : κ → List Pid) : Prop where
  ring : ∀ k, Ring s.heap.pcb_next s.heap.pcb_prev (s.tp k) (q k)
  apart : ∀ p j k, p ∈ q j → p ∈ q k → j = k

variable {s s' : ProcQs κ} {q : κ → List Pid} {k : κ} {p : Pid} {next prev : Pid → PcbPtr}
  {call : ProcQCall κ}

/-- The queues after a call on one of them. -/
def ProcQs.relink (s : ProcQs κ) (next prev : Pid → PcbPtr) (k : κ) (tp : PcbPtr) : ProcQs κ :=
  { heap := s.heap.withLinks next prev, tp := Function.update s.tp k tp }

@[simp] theorem ProcQs.relink_self : s.relink s.heap.pcb_next s.heap.pcb_prev k (s.tp k) = s := by
  simp [ProcQs.relink, Heap.withLinks]

/-- A call that changes one queue and the links of its pcbs leaves the others alone. -/
theorem ProcQs.Holds.relink {tp : PcbPtr} {l l' : List Pid} (h : s.Holds q)
    (hring : Ring next prev tp l) (hoff : s.heap.LinksOff next prev l')
    (hl : ∀ x ∈ l, ∀ j, x ∈ q j → j = k) (hl' : ∀ x ∈ l', ∀ j, x ∈ q j → j = k) :
    (s.relink next prev k tp).Holds (Function.update q k l) := by
  constructor
  · intro j
    by_cases hj : j = k
    · subst hj
      simpa [ProcQs.relink, Heap.withLinks] using hring
    · have hmem : ∀ x ∈ q j, x ∉ l' := fun x hx hx' => hj (hl' x hx' j hx)
      simpa [ProcQs.relink, Heap.withLinks, hj] using (h.ring j).congr
        (fun x hx => (hoff x (hmem x hx)).1) (fun x hx => (hoff x (hmem x hx)).2)
  · intro x i j hi hj
    by_cases hik : i = k <;> by_cases hjk : j = k
    · rw [hik, hjk]
    · subst hik
      exact (hl x (by simpa using hi) j (by simpa [hjk] using hj)).symm
    · subst hjk
      exact hl x (by simpa using hj) i (by simpa [hik] using hi)
    · exact h.apart x i j (by simpa [hik] using hi) (by simpa [hjk] using hj)

theorem ProcQs.Holds.insertProcQ (h : s.Holds q) (hp : ∀ j, p ∉ q j) :
    ∃ next prev tp, (ProcQCall.insertProcQ k p).perform.run s =
        .ok none (s.relink next prev k tp) ∧
      (s.relink next prev k tp).Holds (Function.update q k (q k ++ [p])) := by
  obtain ⟨next, prev, hrun, hring, hoff⟩ := insertProcQ_spec (h.ring k) (hp k)
  refine ⟨next, prev, .to p, ?_, ?_⟩
  · simp [ProcQCall.perform, ProcQs.call, ProcQs.setTp, ProcQs.relink, hrun]
  · refine h.relink hring hoff ?_ ?_
    · intro x hx j hj
      rcases List.mem_append.mp hx with hx | hx
      · exact h.apart x j k hj hx
      · exact absurd hj (List.mem_singleton.mp hx ▸ hp j)
    · intro x hx j hj
      rcases List.mem_cons.mp hx with rfl | hx
      · exact absurd hj (hp j)
      · exact h.apart x j k hj hx

/-- The pcb leaves the queue it is on, from any position. -/
theorem ProcQs.Holds.outProcQ (h : s.Holds q) (hp : p ∈ q k) :
    ∃ next prev tp, (ProcQCall.outProcQ k (.to p)).perform.run s =
        .ok (some (.to p)) (s.relink next prev k tp) ∧
      (s.relink next prev k tp).Holds (Function.update q k ((q k).erase p)) := by
  obtain ⟨a, b, hab⟩ := List.append_of_mem hp
  have hring := h.ring k
  rw [hab] at hring
  have herase : (q k).erase p = a ++ b := by
    have hpa : p ∉ a := fun hmem =>
      (List.nodup_append.mp hring.nodup).2.2 p hmem p List.mem_cons_self rfl
    rw [hab, List.erase_append_right _ hpa, List.erase_cons_head]
  have hsub : ∀ x ∈ a ++ b, ∀ j, x ∈ q j → j = k := by
    intro x hx j hj
    exact h.apart x j k hj (List.mem_of_mem_erase (herase ▸ hx))
  obtain ⟨next, prev, hrun, hring', hoff⟩ := outProcQ_spec hring
  refine ⟨next, prev, tailPtr (a ++ b), ?_, ?_⟩
  · simp [ProcQCall.perform, ProcQs.call, ProcQs.setTp, ProcQs.relink, hrun]
  · rw [herase]
    exact h.relink hring' hoff hsub hsub

/-- A pointer to no pcb of the queue is not found, and nothing changes. -/
theorem ProcQs.Holds.outProcQ_absent {p : PcbPtr} (h : s.Holds q) (hp : ∀ x ∈ q k, p ≠ .to x) :
    (ProcQCall.outProcQ k p).perform.run s = .ok (some .null) s := by
  simp [ProcQCall.perform, ProcQs.call, ProcQs.setTp, Kaya.outProcQ_absent (h.ring k) hp]

theorem ProcQs.Holds.removeProcQ (h : s.Holds q) :
    ∃ next prev tp, (ProcQCall.removeProcQ k).perform.run s =
        .ok (some (headPtr (q k))) (s.relink next prev k tp) ∧
      (s.relink next prev k tp).Holds (Function.update q k (q k).tail) := by
  have hring := h.ring k
  cases hl : q k with
  | nil =>
    have htp : s.tp k = .null := by simpa [hl] using hring.tail
    refine ⟨s.heap.pcb_next, s.heap.pcb_prev, s.tp k, ?_, ?_⟩
    · rw [ProcQs.relink_self]
      simp [ProcQCall.perform, ProcQs.call, ProcQs.setTp, htp, removeProcQ_nil]
      simp [← htp]
    · have hq : Function.update q k [] = q := by simp [← hl]
      simpa [hq] using h
  | cons x l =>
    rw [hl] at hring
    have hmem : ∀ y ∈ l, ∀ j, y ∈ q j → j = k := by
      intro y hy j hj
      exact h.apart y j k hj (hl ▸ List.mem_cons_of_mem x hy)
    obtain ⟨next, prev, hrun, hring', hoff⟩ := removeProcQ_cons hring
    refine ⟨next, prev, tailPtr l, ?_, ?_⟩
    · simp [ProcQCall.perform, ProcQs.call, ProcQs.setTp, ProcQs.relink, hrun]
    · exact h.relink hring' hoff hmem hmem

theorem ProcQs.Holds.headProcQ (h : s.Holds q) :
    (ProcQCall.headProcQ k).perform.run s = .ok (some (headPtr (q k))) s := by
  simp [ProcQCall.perform, ProcQs.call, headProcQ_spec (h.ring k)]

theorem ProcQCall.spec_absent {p : PcbPtr} (hp : ∀ x ∈ q k, p ≠ .to x) :
    (ProcQCall.outProcQ k p).spec q = (some .null, q) :=
  match p, hp with
  | .to x, hp => if_neg fun hx => hp x hx rfl
  | .null, _ => rfl
  | .zero, _ => rfl

/-- Every call that is allowed returns what it is to return and leaves the queues as
they are to be. -/
theorem ProcQs.Holds.perform (h : s.Holds q) (hcall : call.Allowed q) :
    ∃ next prev k tp, call.perform.run s = .ok (call.spec q).1 (s.relink next prev k tp) ∧
      (s.relink next prev k tp).Holds (call.spec q).2 := by
  cases call with
  | insertProcQ k p =>
    obtain ⟨next, prev, tp, hrun, hholds⟩ := h.insertProcQ (k := k) hcall
    exact ⟨next, prev, k, tp, hrun, hholds⟩
  | removeProcQ k =>
    obtain ⟨next, prev, tp, hrun, hholds⟩ := h.removeProcQ (k := k)
    exact ⟨next, prev, k, tp, hrun, hholds⟩
  | outProcQ k p =>
    by_cases hp : ∀ x ∈ q k, p ≠ .to x
    · have hspec := ProcQCall.spec_absent hp
      refine ⟨s.heap.pcb_next, s.heap.pcb_prev, k, s.tp k, ?_, ?_⟩
      · rw [hspec, ProcQs.relink_self]
        exact h.outProcQ_absent hp
      · rw [hspec, ProcQs.relink_self]
        exact h
    · push Not at hp
      obtain ⟨x, hx, rfl⟩ := hp
      have hspec : (ProcQCall.outProcQ k (.to x)).spec q =
          (some (.to x), Function.update q k ((q k).erase x)) := if_pos hx
      obtain ⟨next, prev, tp, hrun, hholds⟩ := h.outProcQ hx
      exact ⟨next, prev, k, tp, by rw [hspec]; exact hrun, by rw [hspec]; exact hholds⟩
  | headProcQ k =>
    refine ⟨s.heap.pcb_next, s.heap.pcb_prev, k, s.tp k, ?_, ?_⟩
    · rw [ProcQs.relink_self]
      exact h.headProcQ
    · rw [ProcQs.relink_self]
      exact h

omit [DecidableEq κ] in
theorem ProcQs.Holds.empty (h : ∀ k, s.tp k = .null) : s.Holds fun _ => [] :=
  ⟨fun k => by rw [h k]; exact Ring.nil, by simp⟩

/-- In every state that calls lead to, each queue is the ring behind its tail pointer. -/
theorem procQ_holds {s : ProcQs κ × (κ → List Pid)} (h : (procQSystem κ).Reachable s) :
    s.1.Holds s.2 := by
  refine h.invariant (I := fun s => s.1.Holds s.2) ?_ ?_
  · rintro ⟨s, q⟩ ⟨htp, rfl⟩
    exact .empty htp
  · rintro s call s' hs ⟨hcall, ⟨r, hrun⟩, hspec⟩
    obtain ⟨next, prev, k, tp, hrun', hholds⟩ := hs.perform hcall
    obtain ⟨-, hs'⟩ : (call.spec s.2).1 = r ∧ s.1.relink next prev k tp = s'.1 := by
      simpa [hrun'] using hrun
    rw [hspec, ← hs']
    exact hholds

/-- Process queues are lists in the order of insertion, over every sequence of calls:
each is a ring reached from its tail pointer, every call returns, with the answer and
the queues that the lists give and with only queue links changed, and a search that
fails changes nothing. -/
theorem procQ_refines {s : ProcQs κ × (κ → List Pid)} (h : (procQSystem κ).Reachable s) :
    (∀ k, Ring s.1.heap.pcb_next s.1.heap.pcb_prev (s.1.tp k) (s.2 k)) ∧
      (∀ call : ProcQCall κ, call.Allowed s.2 → ∃ next prev k tp,
        call.perform.run s.1 = .ok (call.spec s.2).1 (s.1.relink next prev k tp) ∧
        (s.1.relink next prev k tp).Holds (call.spec s.2).2) ∧
      ∀ k p, (∀ x ∈ s.2 k, p ≠ .to x) →
        (ProcQCall.outProcQ k p).perform.run s.1 = .ok (some .null) s.1 :=
  have hholds := procQ_holds h
  ⟨hholds.ring, fun _ hcall => hholds.perform hcall, fun _ _ hp => hholds.outProcQ_absent hp⟩

/-- Two process queues before the first call. -/
def twoQueues : ProcQs Bool := { heap := Heap.bss .null, tp := fun _ => mkEmptyProcQ }

/-- A pcb inserted in one queue is not found in the other and comes out of its own. -/
theorem procQ_refines_twoQueues : ∃ s s' : ProcQs Bool,
    (ProcQCall.insertProcQ true firstPid).perform.run twoQueues = .ok none s ∧
      (ProcQCall.outProcQ false (.to firstPid)).perform.run s = .ok (some .null) s ∧
      (ProcQCall.removeProcQ true).perform.run s = .ok (some (.to firstPid)) s' := by
  have hinit : (procQSystem Bool).Reachable (twoQueues, fun _ => []) := .init ⟨fun _ => rfl, rfl⟩
  have hallowed : (ProcQCall.insertProcQ true firstPid).Allowed fun _ => [] := fun _ => by simp
  obtain ⟨next, prev, k, tp, hrun, -⟩ := (procQ_refines hinit).2.1 _ hallowed
  have hreach : (procQSystem Bool).Reachable (twoQueues.relink next prev k tp, _) :=
    hinit.step ⟨hallowed, ⟨_, hrun⟩, rfl⟩
  obtain ⟨-, hcalls, habsent⟩ := procQ_refines hreach
  obtain ⟨next', prev', k', tp', hrun', -⟩ := hcalls (.removeProcQ true) trivial
  exact ⟨_, _, hrun, habsent false (.to firstPid) (by simp [ProcQCall.spec]), hrun'⟩

end Kaya
