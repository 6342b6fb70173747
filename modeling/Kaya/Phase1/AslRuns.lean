import Kaya.Exec.Script
import Kaya.Phase1.OutBlocked
import Kaya.Phase1.View

open Links Exec

namespace Kaya

/-! The active semaphore list as a map from addresses to queues. -/

/-- Who waits for what: the queue of each semaphore, longest waiting first, and
the semaphore of each pcb. -/
structure Waiters where
  queue : Word → List Pid
  on : Pid → Option Word

namespace Waiters

def none : Waiters := ⟨fun _ => [], fun _ => .none⟩

/-- `p` joins the queue of `a`. -/
def block (a : Word) (p : Pid) (w : Waiters) : Waiters where
  queue := Function.update w.queue a (w.queue a ++ [p])
  on := Function.update w.on p (some a)

/-- The pcb that has waited longest leaves the queue of `a`. -/
def wake (a : Word) (w : Waiters) : Waiters :=
  match w.queue a with
  | [] => w
  | p :: rest => ⟨Function.update w.queue a rest, Function.update w.on p .none⟩

/-- `p` leaves the queue it is in. -/
def leave (p : Pid) (w : Waiters) : Waiters :=
  match w.on p with
  | .none => w
  | some a => ⟨Function.update w.queue a ((w.queue a).erase p), Function.update w.on p .none⟩

end Waiters

inductive AslCall where
  | insertBlocked (semAdd : Word) (p : Pid)
  | removeBlocked (semAdd : Word)
  | outBlocked (p : Pid)

/-- What a function of the list returns. -/
inductive AslAnswer where
  | full (b : Bool)
  | pcb (p : PcbPtr)
  deriving DecidableEq

namespace AslCall

/-- The function of the source. -/
def perform : AslCall → HeapM AslAnswer
  | insertBlocked semAdd p => return .full (← Kaya.insertBlocked semAdd (.to p))
  | removeBlocked semAdd => return .pcb (← Kaya.removeBlocked semAdd)
  | outBlocked p => return .pcb (← Kaya.outBlocked (.to p))

/-- What the function is for, with `inUse` descriptors in use. -/
def spec (inUse : Nat) (w : Waiters) : AslCall → AslAnswer × Waiters
  | insertBlocked semAdd p =>
    if w.queue semAdd = [] ∧ inUse = MAXPROC then (.full true, w)
    else (.full false, w.block semAdd p)
  | removeBlocked semAdd => (.pcb (headPtr (w.queue semAdd)), w.wake semAdd)
  | outBlocked p => (.pcb (if (w.on p).isSome then .to p else .null), w.leave p)

/-- An address between those of the dummy nodes, and an allocated pcb, for
`insertBlocked` one that is in no queue. -/
def Allowed (h : Heap) : AslCall → Prop
  | insertBlocked semAdd p => 0 < semAdd ∧ semAdd < MAXINT ∧ p ∉ h.freeList ∧
      p ∉ h.readyList ∧ ∀ a, p ∉ h.blockedOn a
  | removeBlocked semAdd => 0 < semAdd ∧ semAdd < MAXINT
  | outBlocked p => p ∉ h.freeList

end AslCall

/-- The tables of phase 1 are in order and no semaphore is active, as `initASL`
leaves it. -/
def AslInitial (h : Heap) : Prop := ∃ q, Represents h q ∧ q.WF ∧ q.asl = []

/-- Calls of the functions of the list one after the other, next to what they
are for. -/
def aslSystem : System (Heap × Waiters) AslCall where
  init s := AslInitial s.1 ∧ s.2 = .none
  step s call s' := call.Allowed s.1 ∧ (∃ r, call.perform.run s.1 = .ok r s'.1) ∧
    s'.2 = (call.spec s.1.activeList.length s.2).2

/-- The list holds the queues of `w`: strictly sorted between the dummy nodes, with
the semaphore of each pcb in `pcb_semAdd`. -/
structure Heap.Holds (h : Heap) (w : Waiters) : Prop where
  head : h.semdActive_h = .to semdZero
  linked : Segment h.s_next (.to semdZero) (semdZero :: h.activeList) (.to semdMax)
  sorted : ((semdZero :: h.activeList ++ [semdMax]).map h.s_semAdd).Pairwise (· < ·)
  active : ∀ a, (∃ i ∈ h.activeList, h.s_semAdd i = a) ↔ w.queue a ≠ []
  queue : ∀ i ∈ h.activeList, Ring h.pcb_next h.pcb_prev (h.s_procQ i) (w.queue (h.s_semAdd i))
  semAdd : ∀ p ∉ h.freeList, h.pcb_semAdd p = (w.on p).getD NULL
  on : ∀ p a, w.on p = some a ↔ p ∈ w.queue a

variable {h h' : Heap} {q : Queues} {w : Waiters} {p : Pid} {a : Word} {call : AslCall}
  {s : Heap × Waiters}

/-- The abstract queues are those that the tables stand for. -/
structure Waiters.Reads (w : Waiters) (q : Queues) : Prop where
  queue : ∀ a, w.queue a = q.waiting a
  on : ∀ p a, w.on p = some a ↔ p ∈ q.waiting a

/-- The tables hold `q` and the abstract queues are those of `q`. -/
structure AslState (h : Heap) (w : Waiters) (q : Queues) : Prop where
  represents : Represents h q
  wf : q.WF
  positive : ∀ e ∈ q.asl, 0 < e.1
  reads : w.Reads q

theorem Waiters.Reads.mem_values (hw : w.Reads q) (hq : q.WF) :
    p ∈ FifoMap.values q.asl ↔ (w.on p).isSome := by
  rw [FifoMap.mem_values hq.asl, Option.isSome_iff_exists]
  exact exists_congr fun a => (hw.on p a).symm

theorem Waiters.Reads.block (hw : w.Reads q) (hq : q.WF) (hp : p ∉ FifoMap.values q.asl) :
    (w.block a p).Reads (q.block a p) := by
  have hwaiting : ∀ b, (q.block a p).waiting b = if b = a then q.waiting a ++ [p] else q.waiting b :=
    fun b => FifoMap.queue_enqueue hq.asl
  constructor
  · intro b
    rw [hwaiting]
    by_cases hb : b = a
    · subst hb
      simp [Waiters.block, hw.queue]
    · simp [Waiters.block, hb, hw.queue]
  · intro x b
    rw [hwaiting]
    by_cases hx : x = p
    · subst hx
      have hnone : ∀ c, x ∉ q.waiting c := fun c hc => hp (Queues.mem_values_of_mem_waiting hc)
      by_cases hb : b = a
      · simp [Waiters.block, hb]
      · simp [Waiters.block, hb, hnone, Ne.symm hb]
    · have hon := hw.on x b
      by_cases hb : b = a
      · subst hb
        simpa [Waiters.block, hx] using hon
      · simpa [Waiters.block, hx, hb] using hon

/-- `p` leaves the queue of `a` in the map and in the tables. -/
theorem Waiters.Reads.unblock (hw : w.Reads q) (hq : q.WF) (hp : p ∈ q.waiting a) :
    Waiters.Reads ⟨Function.update w.queue a ((w.queue a).erase p), Function.update w.on p .none⟩
      (q.unblock p) := by
  have hwaiting : ∀ b, (q.unblock p).waiting b = (q.waiting b).filter (· ≠ p) :=
    fun b => FifoMap.queue_restrict hq.asl
  constructor
  · intro b
    rw [hwaiting]
    by_cases hb : b = a
    · subst hb
      have herase := (hq.waiting_nodup b).erase_eq_filter p
      simp only [Function.update_self, hw.queue, herase]
      exact List.filter_congr fun x _ => by simp [bne, BEq.beq]
    · have hself : (q.waiting b).filter (· ≠ p) = q.waiting b := by
        rw [List.filter_eq_self]
        intro x hx
        have hne : x ≠ p := by
          rintro rfl
          exact hb (FifoMap.eq_of_mem_queue hq.asl hq.values_nodup hx hp)
        simpa using hne
      rw [hself]
      simp [hb, hw.queue]
  · intro x b
    rw [hwaiting, List.mem_filter]
    by_cases hx : x = p
    · simp [hx]
    · simpa [hx] using hw.on x b

theorem Waiters.Reads.wake (hw : w.Reads q) (hq : q.WF) {rest : List Pid}
    (hwait : q.waiting a = p :: rest) : (w.wake a).Reads (q.unblock p) := by
  have hqueue := (hw.queue a).trans hwait
  have hleft := hw.unblock hq (a := a) (p := p) (by simp [hwait])
  rw [hqueue, List.erase_cons_head] at hleft
  unfold Waiters.wake
  rw [hqueue]
  exact hleft

theorem Waiters.Reads.leave (hw : w.Reads q) (hq : q.WF) (hp : p ∈ FifoMap.values q.asl) :
    (w.leave p).Reads (q.unblock p) := by
  obtain ⟨a, hpa⟩ := (FifoMap.mem_values hq.asl).mp hp
  have hon : w.on p = some a := (hw.on p a).mpr hpa
  unfold Waiters.leave
  rw [hon]
  exact hw.unblock hq hpa

/-- `outBlocked` finds nothing for a pcb that is not blocked. -/
theorem outBlocked_idle (hrep : Represents h q) (hq : q.WF) (hp : p ∉ q.free)
    (hidle : p ∉ FifoMap.values q.asl) : (outBlocked (.to p)).run h = .ok .null h := by
  have hnull : h.pcb_semAdd p = NULL := by
    rw [hrep.semAdd]
    exact hq.idle p hp hidle
  obtain ⟨ids, fr, hasl⟩ := hrep.asl
  exact hasl.outBlocked_null hq.asl hq.bounded hnull

theorem Waiters.Reads.leave_idle (hw : w.Reads q) (hq : q.WF) (hp : p ∉ FifoMap.values q.asl) :
    w.leave p = w := by
  have hnone : w.on p = .none := by
    rw [← Option.not_isSome_iff_eq_none, ← hw.mem_values hq]
    exact hp
  unfold Waiters.leave
  rw [hnone]

/-- The descriptors between the dummy nodes, their addresses and their queues. -/
theorem Represents.activeList_spec (hrep : Represents h q) :
    Segment h.s_next (.to semdZero) (semdZero :: h.activeList) (.to semdMax) ∧
      List.Forall₂ h.Entry h.activeList q.asl ∧ h.activeList.map h.s_semAdd = q.asl.map (·.1) ∧
      h.semdActive_h = .to semdZero ∧ h.s_semAdd semdZero = 0 ∧ h.s_semAdd semdMax = MAXINT := by
  obtain ⟨ids, fr, hasl⟩ := hrep.asl
  rw [hasl.activeList_eq]
  refine ⟨hasl.active, hasl.entries, ?_, hasl.head, hasl.keys.1, hasl.keys.2⟩
  have hkeys : ∀ {ids : List Sid} {m : FifoMap Word Pid}, List.Forall₂ h.Entry ids m →
      ids.map h.s_semAdd = m.map (·.1) := by
    intro ids m hent
    induction hent with
    | nil => rfl
    | cons hie _ ih => rw [List.map_cons, List.map_cons, ih, hie.1]
  exact hkeys hasl.entries

theorem AslState.holds (hstate : AslState h w q) : h.Holds w := by
  obtain ⟨hrep, hq, hpositive, hw⟩ := hstate
  obtain ⟨hlinked, hent, hkeys, hhead, hzero, hmax⟩ := hrep.activeList_spec
  have hfree : ∀ x, x ∉ h.freeList ↔ x ∉ q.free := by
    intro x
    rw [hrep.freeList_eq hq.free_nodup]
  have hmem : ∀ a, (∃ i ∈ h.activeList, h.s_semAdd i = a) ↔ ∃ e ∈ q.asl, e.1 = a := by
    intro a
    rw [← List.mem_map, hkeys, List.mem_map]
  refine ⟨hhead, hlinked, ?_, fun a => ?_, fun i hi => ?_, fun p hp => ?_, fun p a => ?_⟩
  · rw [List.map_append, List.map_cons, List.map_singleton, hkeys, hzero, hmax]
    rw [List.cons_append, List.pairwise_cons, List.pairwise_append]
    have hsorted : (q.asl.map (·.1)).Pairwise (· < ·) := List.pairwise_map.mpr hq.asl.sorted
    refine ⟨?_, hsorted, List.pairwise_singleton _ _, ?_⟩
    · intro b hb
      rcases List.mem_append.mp hb with hb | hb
      · obtain ⟨e, he, rfl⟩ := List.mem_map.mp hb
        exact hpositive e he
      · rw [List.mem_singleton.mp hb]
        decide
    · intro b hb x hx
      obtain ⟨e, he, rfl⟩ := List.mem_map.mp hb
      rw [List.mem_singleton.mp hx]
      exact hq.bounded e he
  · rw [hmem, hw.queue]
    exact (FifoMap.queue_ne_nil_iff hq.asl).symm
  · obtain ⟨⟨b, l⟩, he, hkey, hring⟩ := List.Forall₂.of_mem_left hent hi
    have hqueue : w.queue (h.s_semAdd i) = l := by
      rw [hw.queue, hkey]
      exact FifoMap.queue_of_mem hq.asl he
    rw [hqueue]
    exact hring
  · have hp' := (hfree p).mp hp
    rw [hrep.semAdd]
    cases hon : w.on p with
    | none =>
      have hidle : p ∉ FifoMap.values q.asl := by
        rw [hw.mem_values hq]
        simp [hon]
      exact hq.idle p hp' hidle
    | some a => exact hq.blocked a p ((hw.on p a).mp hon)
  · rw [hw.on, hw.queue]

/-- `initASL` leaves no semaphore active. -/
theorem initASL_initial (hready : h.readyQueue = .null) (hbss : h.pcb_parent = fun _ => .zero)
    (hsemAdd : h.pcb_semAdd = fun _ => 0) (hstates : h.pcb_states = fun _ _ _ => 0)
    (hrom : ∀ p, h.rom ≠ .to p) :
    ∃ h1 h2, initPcbs.run h = .ok () h1 ∧ initASL.run h1 = .ok () h2 ∧ AslInitial h2 := by
  obtain ⟨h1, h2, hrun1, hrun2, hrep⟩ := represents_initial hready hbss hsemAdd hstates hrom
  exact ⟨h1, h2, hrun1, hrun2, _, hrep, Queues.initial_wf, rfl⟩

/-- Pcbs can be allocated before any is blocked. -/
theorem AslInitial.alloc (hinit : AslInitial h) :
    ∃ p h', allocPcb.run h = .ok p h' ∧ AslInitial h' := by
  obtain ⟨q, hrep, hq, hasl⟩ := hinit
  cases hfree : q.free with
  | nil => exact ⟨.null, h, allocPcb_nil hrep hfree, q, hrep, hq, hasl⟩
  | cons p rest =>
    obtain ⟨h', hrun, hrep'⟩ := allocPcb_cons hrep hq hfree
    exact ⟨.to p, h', hrun, _, hrep', hq.alloc hfree, hasl⟩

theorem AslCall.spec_insertBlocked {inUse : Nat} (hroom : inUse ≠ MAXPROC) :
    (AslCall.insertBlocked a p).spec inUse w = (.full false, w.block a p) :=
  if_neg fun hfull => hroom hfull.2

/-- Each function does what it is for. -/
theorem AslState.step (hstate : AslState h w q) (hallowed : call.Allowed h) :
    ∃ h' q', call.perform.run h = .ok (call.spec h.activeList.length w).1 h' ∧
      AslState h' (call.spec h.activeList.length w).2 q' ∧
      ((call.spec h.activeList.length w).1 = .full true ∨
        (call.spec h.activeList.length w).1 = .pcb .null → h' = h) := by
  obtain ⟨hrep, hq, hpositive, hw⟩ := hstate
  cases call with
  | insertBlocked a p =>
    obtain ⟨hlo, hhi, hfree, hready, hblocked⟩ := hallowed
    rw [hrep.freeList_eq hq.free_nodup] at hfree
    rw [hrep.readyList_eq] at hready
    have hidle : p ∉ FifoMap.values q.asl := by
      intro hp
      obtain ⟨b, hb⟩ := (FifoMap.mem_values hq.asl).mp hp
      exact hblocked b (hrep.blockedOn_eq b ▸ hb)
    have hplaced : p ∉ q.placed := by
      rw [Queues.mem_placed]
      exact fun hp => hp.elim hfree fun hp => hp.elim hready hidle
    obtain ⟨h', hrun, hrep'⟩ := insertBlocked_spec hrep hq hplaced hhi
    -- a pcb in no queue leaves a descriptor over
    have hroom : h.activeList.length ≠ MAXPROC := by
      obtain ⟨ids, fr, hasl⟩ := hrep.asl
      obtain ⟨i, rest, hfr⟩ := hasl.exists_free hq.asl hq.values_nodup hidle
      have hlen := hasl.length_eq
      have hactive := hrep.activeList_spec.2.1.length_eq.trans hasl.entries.length_eq.symm
      rw [hfr, List.length_cons] at hlen
      omega
    rw [AslCall.spec_insertBlocked hroom]
    refine ⟨h', q.block a p, ?_, ⟨hrep', hq.block hplaced hhi, ?_, hw.block hq hidle⟩, by simp⟩
    · exact Exec.run_bind_ok hrun
    · intro e he
      rcases FifoMap.mem_enqueue_key he with rfl | ⟨e', he', heq⟩
      · exact hlo
      · exact heq ▸ hpositive e' he'
  | removeBlocked a =>
    obtain ⟨hlo, hhi⟩ := hallowed
    cases hwait : q.waiting a with
    | nil =>
      have hrun := removeBlocked_nil hrep hq hhi hwait
      have hspec : AslCall.spec h.activeList.length w (.removeBlocked a) = (.pcb .null, w) := by
        simp [AslCall.spec, Waiters.wake, hw.queue, hwait]
      rw [hspec]
      exact ⟨h, q, Exec.run_bind_ok hrun, ⟨hrep, hq, hpositive, hw⟩, fun _ => rfl⟩
    | cons p rest =>
      obtain ⟨h', hrun, hrep'⟩ := removeBlocked_cons hrep hq hwait
      have hspec : AslCall.spec h.activeList.length w (.removeBlocked a) =
          (.pcb (.to p), w.wake a) := by
        simp [AslCall.spec, hw.queue, hwait]
      rw [hspec]
      refine ⟨h', q.unblock p, Exec.run_bind_ok hrun, ⟨hrep', hq.unblock, ?_, hw.wake hq hwait⟩,
        by simp⟩
      intro e he
      obtain ⟨-, e', he', heq⟩ := FifoMap.mem_restrict.mp he
      exact heq ▸ hpositive e' he'
  | outBlocked p =>
    have hfree : p ∉ q.free := by
      have hp : p ∉ h.freeList := hallowed
      rwa [hrep.freeList_eq hq.free_nodup] at hp
    by_cases hp : p ∈ FifoMap.values q.asl
    · obtain ⟨h', hrun, hrep'⟩ := outBlocked_spec hrep hq hp
      have hspec : AslCall.spec h.activeList.length w (.outBlocked p) =
          (.pcb (.to p), w.leave p) := by
        simp [AslCall.spec, (hw.mem_values hq).mp hp]
      rw [hspec]
      refine ⟨h', q.unblock p, Exec.run_bind_ok hrun, ⟨hrep', hq.unblock, ?_, hw.leave hq hp⟩,
        by simp⟩
      intro e he
      obtain ⟨-, e', he', heq⟩ := FifoMap.mem_restrict.mp he
      exact heq ▸ hpositive e' he'
    · have hnone : (w.on p).isSome = false := by
        simpa using fun hsome => hp ((hw.mem_values hq).mpr hsome)
      have hspec : AslCall.spec h.activeList.length w (.outBlocked p) = (.pcb .null, w) := by
        simp [AslCall.spec, hnone, hw.leave_idle hq hp]
      rw [hspec]
      exact ⟨h, q, Exec.run_bind_ok (outBlocked_idle hrep hq hfree hp),
        ⟨hrep, hq, hpositive, hw⟩, fun _ => rfl⟩

theorem reachable_aslState (hs : aslSystem.Reachable s) : ∃ q, AslState s.1 s.2 q := by
  refine hs.invariant (I := fun s => ∃ q, AslState s.1 s.2 q) (fun s hinit => ?_)
    fun s call s' hinv hstep => ?_
  · obtain ⟨⟨q, hrep, hq, hasl⟩, hnone⟩ := hinit
    refine ⟨q, hrep, hq, by simp [hasl], ?_⟩
    rw [hnone]
    exact ⟨fun a => by simp [Waiters.none, Queues.waiting, hasl],
      fun p a => by simp [Waiters.none, Queues.waiting, hasl]⟩
  · obtain ⟨q, hstate⟩ := hinv
    obtain ⟨hallowed, ⟨r, hrun⟩, hspec⟩ := hstep
    obtain ⟨h', q', hrun', hstate', -⟩ := hstate.step hallowed
    obtain ⟨-, rfl⟩ : r = _ ∧ s'.1 = h' := by simpa using hrun.symm.trans hrun'
    exact ⟨q', hspec ▸ hstate'⟩

/-- In every run the list holds the queues of the map, and each call answers as
the map does and goes on to the next state of the map. -/
theorem asl_refines (hs : aslSystem.Reachable s) :
    s.1.Holds s.2 ∧ ∀ call : AslCall, call.Allowed s.1 →
      ∃ h', call.perform.run s.1 = .ok (call.spec s.1.activeList.length s.2).1 h' ∧
        h'.Holds (call.spec s.1.activeList.length s.2).2 ∧
        ((call.spec s.1.activeList.length s.2).1 = .full true ∨
          (call.spec s.1.activeList.length s.2).1 = .pcb .null → h' = s.1) := by
  obtain ⟨q, hstate⟩ := reachable_aslState hs
  refine ⟨hstate.holds, fun call hallowed => ?_⟩
  obtain ⟨h', q', hrun, hstate', hsilent⟩ := hstate.step hallowed
  exact ⟨h', hrun, hstate'.holds, hsilent⟩

/-- The heap that a run of phase 1 code ends in. -/
def Heap.after {α : Type} (x : HeapM α) (h : Heap) : Heap :=
  match x.run h with
  | .ok _ h' => h'
  | .error _ h' => h'

/-- Phase 1 with four pcbs allocated. -/
@[irreducible]
def aslStart : Heap :=
  Heap.after (do
    initPcbs
    initASL
    let _ ← allocPcb
    let _ ← allocPcb
    let _ ← allocPcb
    allocPcb) { Heap.bss .null with readyQueue := .null }

theorem aslStart_initial : AslInitial aslStart := by
  obtain ⟨h1, h2, hrun1, hrun2, hinit⟩ := initASL_initial
    (h := { Heap.bss .null with readyQueue := .null }) rfl rfl rfl rfl (fun _ => nofun)
  obtain ⟨_, h3, hrun3, hinit3⟩ := hinit.alloc
  obtain ⟨_, h4, hrun4, hinit4⟩ := hinit3.alloc
  obtain ⟨_, h5, hrun5, hinit5⟩ := hinit4.alloc
  obtain ⟨_, h6, hrun6, hinit6⟩ := hinit5.alloc
  have hstart : aslStart = h6 := by
    unfold aslStart Heap.after
    rw [Exec.run_bind_ok hrun1, Exec.run_bind_ok hrun2, Exec.run_bind_ok hrun3,
      Exec.run_bind_ok hrun4, Exec.run_bind_ok hrun5, hrun6]
  exact hstart ▸ hinit6

/-- Whether a call is allowed, without a look at all addresses. -/
def AslCall.fits (h : Heap) : AslCall → Bool
  | insertBlocked semAdd p => decide (0 < semAdd ∧ semAdd < MAXINT ∧ p ∉ h.freeList ∧
      p ∉ h.readyList ∧ p ∉ FifoMap.values h.asl)
  | removeBlocked semAdd => decide (0 < semAdd ∧ semAdd < MAXINT)
  | outBlocked p => decide (p ∉ h.freeList)

theorem AslCall.allowed_of_fits (hfits : call.fits h = true) : call.Allowed h := by
  cases call with
  | insertBlocked semAdd p =>
    obtain ⟨hlo, hhi, hfree, hready, hvalues⟩ := of_decide_eq_true hfits
    exact ⟨hlo, hhi, hfree, hready, fun _ hp => hvalues (FifoMap.mem_values_of_mem_queue hp)⟩
  | removeBlocked semAdd => exact of_decide_eq_true (p := 0 < semAdd ∧ semAdd < MAXINT) hfits
  | outBlocked p => exact of_decide_eq_true (p := p ∉ h.freeList) hfits

/-- Runs of the functions of the list. -/
def aslScript : Script (Heap × Waiters) AslCall AslCall where
  event _ call := call
  next s call := (Heap.after call.perform s.1, (call.spec s.1.activeList.length s.2).2)
  fits s call := call.fits s.1 && (match call.perform.run s.1 with
    | .ok _ _ => true
    | .error _ _ => false)

theorem aslScript_follows : aslScript.Follows aslSystem := by
  intro s call h
  obtain ⟨hfits, hok⟩ := Bool.and_eq_true_iff.mp h
  refine ⟨call.allowed_of_fits hfits, ?_, rfl⟩
  simp only [aslScript, Heap.after]
  cases hrun : call.perform.run s.1 with
  | ok r h' => exact ⟨r, rfl⟩
  | error x h' => simp [hrun] at hok

/-- Two pcbs wait on one semaphore, one behind it and one in front of it. A third one has been
woken and waits again. -/
def aslShort : Heap × Waiters := aslScript.play (aslStart, .none)
  [.insertBlocked 0x20002000 17, .insertBlocked 0x20002000 19, .insertBlocked 0x20004000 16,
    .insertBlocked 0x20002000 18, .removeBlocked 0x20002000, .insertBlocked 0x20001000 17]

theorem aslShort_reachable : aslSystem.Reachable aslShort :=
  aslScript_follows.reachable (.init ⟨aslStart_initial, rfl⟩) (by decide +kernel)

/-- The first of the two is taken out from between the others. -/
theorem asl_refines_small :
    aslShort.1.asl = [(0x20001000, [17]), (0x20002000, [19, 18]), (0x20004000, [16])] ∧
    aslShort.1.Holds aslShort.2 ∧ ∃ h',
      (AslCall.outBlocked 19).perform.run aslShort.1 = .ok (.pcb (.to 19)) h' ∧
      h'.Holds (aslShort.2.leave 19) := by
  have hasl : aslShort.1.asl =
      [(0x20001000, [17]), (0x20002000, [19, 18]), (0x20004000, [16])] := by
    decide +kernel
  have hanswer : ((AslCall.outBlocked 19).spec aslShort.1.activeList.length aslShort.2).1 =
      .pcb (.to 19) := by
    decide +kernel
  obtain ⟨hholds, hcalls⟩ := asl_refines aslShort_reachable
  obtain ⟨h', hrun, hholds', -⟩ := hcalls (.outBlocked 19) (AslCall.allowed_of_fits (by decide +kernel))
  rw [hanswer] at hrun
  exact ⟨hasl, hholds, h', hrun, hholds'⟩

/-- `a` has a descriptor, or no semaphore with a larger address has one. -/
def Heap.HeadFound (h : Heap) (a : Word) : Prop :=
  (∃ i ∈ h.activeList, h.s_semAdd i = a) ∨ ∀ i ∈ h.activeList, h.s_semAdd i < a

instance (h : Heap) (a : Word) : Decidable (h.HeadFound a) := inferInstanceAs (Decidable (_ ∨ _))

/-- `headBlocked` returns what `removeBlocked` would return, and `NULL` exactly for
an address without a descriptor. -/
def Heap.HeadAgrees (h : Heap) (a : Word) : Prop :=
  ∃ r h', (headBlocked a).run h = .ok r h ∧ (removeBlocked a).run h = .ok r h' ∧
    (r = .null ↔ ∀ i ∈ h.activeList, h.s_semAdd i ≠ a)

theorem AslState.headAgrees_iff (hstate : AslState h w q) (hhi : a < MAXINT) :
    h.HeadAgrees a ↔ h.HeadFound a := by
  obtain ⟨hrep, hq, -, -⟩ := hstate
  have hkeys := hrep.activeList_spec.2.2.1
  have hmem : ∀ b, (∃ i ∈ h.activeList, h.s_semAdd i = b) ↔ q.waiting b ≠ [] := by
    intro b
    rw [← List.mem_map, hkeys, List.mem_map]
    exact (FifoMap.queue_ne_nil_iff hq.asl).symm
  have hactive : (∀ i ∈ h.activeList, h.s_semAdd i ≠ a) ↔ q.waiting a = [] := by
    rw [← not_iff_not, ← Ne, ← hmem a]
    simp
  have hlast : (∀ i ∈ h.activeList, h.s_semAdd i < a) ↔ ∀ b, a ≤ b → q.waiting b = [] := by
    constructor
    · intro hlt b hb
      by_contra hne
      obtain ⟨i, hi, rfl⟩ := (hmem b).mpr hne
      exact absurd (hlt i hi) (not_lt.mpr hb)
    · intro hnone i hi
      by_contra hle
      exact (hmem _).mp ⟨i, hi, rfl⟩ (hnone _ (not_lt.mp hle))
  have hhead := headBlocked_spec hrep hq hhi
  have hnil : FifoMap.queueFrom a q.asl = [] ↔ ∀ b, a ≤ b → q.waiting b = [] :=
    FifoMap.queueFrom_eq_nil_iff hq.asl
  unfold Heap.HeadAgrees Heap.HeadFound
  rw [hmem, hactive, hlast, ← hnil]
  cases hwait : q.waiting a with
  | cons p rest =>
    obtain ⟨h', hremove, -⟩ := removeBlocked_cons hrep hq hwait
    have hfrom : FifoMap.queueFrom a q.asl = q.waiting a :=
      FifoMap.queueFrom_eq_queue hq.asl (by rw [← Queues.waiting, hwait]; simp)
    rw [hfrom, hwait] at hhead
    exact iff_of_true ⟨_, h', hhead, hremove, by simp⟩ (Or.inl (by simp))
  | nil =>
    have hremove := removeBlocked_nil hrep hq hhi hwait
    constructor
    · rintro ⟨r, h', hhead', hremove', -⟩
      right
      obtain ⟨hr, -⟩ : .null = r ∧ h = h' := by simpa using hremove.symm.trans hremove'
      obtain ⟨hr', -⟩ : headPtr (FifoMap.queueFrom a q.asl) = r ∧ h = h := by
        simpa using hhead.symm.trans hhead'
      exact headPtr_eq_null.mp (hr'.trans hr.symm)
    · rintro (hne | hnone)
      · exact absurd rfl hne
      · rw [hnone] at hhead
        exact ⟨.null, h, hhead, hremove, by simp⟩

/-- `headBlocked` agrees with `removeBlocked` unless the address has no descriptor
and a larger one has. -/
theorem headBlocked_iff (hs : aslSystem.Reachable s) (hhi : a < MAXINT) :
    s.1.HeadAgrees a ↔ s.1.HeadFound a := by
  obtain ⟨q, hstate⟩ := reachable_aslState hs
  exact hstate.headAgrees_iff hhi

/-- `headBlocked` finds the queue of a semaphore between others, and takes the queue of the
next one for that of an address between them. -/
theorem headBlocked_iff_small :
    aslShort.1.HeadAgrees 0x20002000 ∧ ¬ aslShort.1.HeadAgrees 0x20003000 := by
  constructor
  · exact (headBlocked_iff aslShort_reachable (by decide)).mpr (by decide +kernel)
  · exact fun hagrees => absurd ((headBlocked_iff aslShort_reachable (by decide)).mp hagrees)
      (by decide +kernel)

/-- One pcb is blocked, and `headBlocked` finds it at a smaller address. -/
theorem not_always_headBlocked : ¬ ∀ (s : Heap × Waiters) (a : Word), aslSystem.Reachable s →
    0 < a → a < MAXINT → s.1.HeadAgrees a := by
  intro hall
  have hblocked : aslSystem.Reachable
      (aslScript.play (aslStart, .none) [.insertBlocked 0x20002000 firstPid]) :=
    aslScript_follows.reachable (.init ⟨aslStart_initial, rfl⟩) (by decide +kernel)
  obtain ⟨q, hstate⟩ := reachable_aslState hblocked
  have hagrees := hall _ 0x20001000 hblocked (by decide) (by decide)
  exact absurd ((hstate.headAgrees_iff (by decide)).mp hagrees) (by decide +kernel)

end Kaya
