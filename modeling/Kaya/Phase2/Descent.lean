import Kaya.Phase2.Idle
import Kaya.Phase2.Placement
import Kaya.Phase2.Subtree

open Links Exec

namespace Kaya

variable {M : Machine} {q q' : Queues} {d : Data} {n : Nucleus} {next : Next} {c c' : Config}
  {e : Entry} {cur : PcbPtr}

/-- The first process is alive, and all others descend from it. -/
structure Queues.Ruled (q : Queues) : Prop where
  alive : firstPid ∉ q.free
  descends : ∀ p ∉ q.free, q.children.Descends firstPid p

theorem Queues.booted_ruled : Queues.booted.Ruled := by
  have hfirst : ∀ p ∉ Queues.booted.free, p = firstPid := by decide
  refine ⟨by decide, fun p hp => ?_⟩
  rw [hfirst p hp]
  exact .refl

/-- A new process descends from the first one; so does what is left after a kill, unless
that begins at the first process and frees all. -/
theorem Lineage.ruled (hlineage : Lineage q cur q') (hq : q.WF) (hruled : q.Ruled)
    (hcur : ∀ p, cur = .to p → p ∉ q.free) : q'.Ruled ∨ ∀ p, p ∈ q'.free := by
  cases hlineage with
  | same hfree hchildren _ =>
    refine .inl ⟨hfree ▸ hruled.alive, fun p hp => ?_⟩
    rw [hchildren]
    exact hruled.descends p (hfree ▸ hp)
  | @create p b rest heq hfree =>
    have hlive : ∀ x, x ∉ (q.create p b).free → x = b ∨ x ∉ q.free := by
      intro x hx
      by_contra hnot
      rw [not_or, not_not, hfree, List.mem_cons] at hnot
      apply hx
      simp only [Queues.create, Queues.makeReady, Queues.adopt, Queues.alloc, hfree, List.tail_cons]
      exact hnot.2.resolve_left hnot.1
    have hkept : ∀ x, q.children.Descends firstPid x →
        (q.create p b).children.Descends firstPid x := fun x hx => hx.mono Forest.subset_adopt
    refine .inl ⟨?_, fun x hx => ?_⟩
    · intro hmem
      apply hruled.alive
      simp only [Queues.create, Queues.makeReady, Queues.adopt, Queues.alloc] at hmem
      exact List.mem_of_mem_tail hmem
    · rcases hlive x hx with rfl | hx'
      · have hp := hkept p (hruled.descends p (hcur p heq))
        refine Relation.ReflTransGen.tail hp ?_
        simp [Queues.create, Queues.makeReady, Queues.adopt, Queues.alloc, Forest.adopt]
      · exact hkept x (hruled.descends x hx')
  | @erase p l heq hl =>
    have hmem := hl.mem_iff hq.acyclic
    have hlive : ∀ x, x ∉ (q.erase l).free ↔ x ∉ l ∧ x ∉ q.free := by simp [Queues.erase]
    by_cases hfirst : firstPid ∈ l
    · -- the first process descends from `p`, so that `p` is the first process
      refine .inr fun x => ?_
      by_contra hx
      obtain ⟨hxl, hxfree⟩ := (hlive x).mp hx
      have hdown := (hmem firstPid).mp hfirst
      exact hxl ((hmem x).mpr (hdown.trans (hruled.descends x hxfree)))
    · refine .inl ⟨(hlive _).mpr ⟨hfirst, hruled.alive⟩, fun x hx => ?_⟩
      obtain ⟨hxl, hxfree⟩ := (hlive x).mp hx
      have hdown := hruled.descends x hxfree
      induction hdown with
      | refl => exact .refl
      | @tail y z hy hz ih =>
        -- an ancestor of a process that stays is not killed
        have hyl : y ∉ l := fun hyl =>
          hxl ((hmem z).mpr (Relation.ReflTransGen.tail ((hmem y).mp hyl) hz))
        have hyfree : y ∉ q.free := fun hfree => by simp [(hq.unborn y hfree).1] at hz
        refine Relation.ReflTransGen.tail (ih ((hlive y).mpr ⟨hyl, hyfree⟩) hyl hyfree) ?_
        exact Forest.mem_without.mpr ⟨hz, hxl⟩

/-- The first process stays alive, or the current process ends. -/
theorem Lineage.alive (hlineage : Lineage q cur q') (hq : q.WF) (hfirst : firstPid ∉ q.free) :
    firstPid ∉ q'.free ∨ ∃ p, cur = .to p ∧ p ∈ q'.free := by
  cases hlineage with
  | same hfree _ _ => exact .inl (hfree ▸ hfirst)
  | create _ hfree =>
    refine .inl fun hmem => hfirst ?_
    simp only [Queues.create, Queues.makeReady, Queues.adopt, Queues.alloc] at hmem
    exact List.mem_of_mem_tail hmem
  | @erase p l heq hl =>
    have hp : p ∈ l := (hl.mem_iff hq.acyclic p).mpr .refl
    exact .inr ⟨p, heq, by simp [Queues.erase, hp]⟩

/-- It does not stop like that before the scheduler is called, or after. -/
def Next.Avoids (x : Stop) : Next → Prop
  | .stop y => y ≠ x
  | .sched resume => ∀ d, resume d ≠ x

/-- No handler halts the machine but through the scheduler, and none ends in a loop. -/
theorem Handles.avoids {ex : Exception} {x : Stop} (hact : Handles M q d ex n next)
    (hx : x = .HALT ∨ x = .spin) : next.Avoids x := by
  have hpull : ∀ {d' : Data} {type : TrapType}, PullUp M q d' type n next → next.Avoids x := by
    intro d' type hact
    obtain rfl | rfl := hx <;> cases hact <;> simp [Next.Avoids]
  cases hact with
  | service _ _ hact =>
    generalize callNumber d = call at hact
    obtain rfl | rfl := hx <;> cases hact <;> simp [Next.Avoids, resumeCaller]
  | privileged _ _ hact => exact hpull hact
  | unknown _ hact => exact hpull hact
  | pgmTrap hact => exact hpull hact
  | tlbTrap hact => exact hpull hact
  | interrupt hact => obtain rfl | rfl := hx <;> cases hact <;> simp [Next.Avoids]

/-- The counter of processes is zero when all pcbs are free. -/
theorem Nucleus.Valid.processCount_eq_zero_iff (hn : n.Valid M) :
    n.data.processCount = 0 ↔ ∀ p, p ∈ n.queues.free := by
  have hcount := hn.count
  have hsplit := countP_not_mem hn.wf.free_nodup
  have hzero : (List.finRange MAXPROC).countP (· ∉ n.queues.free) = 0 ↔
      ∀ p, p ∈ n.queues.free := by simp [List.countP_eq_zero]
  rw [← hzero]
  omega

theorem Nucleus.Valid.finish_halts (hn : n.Valid M) (hgoes : next.Avoids .HALT)
    (hsched : (∀ p, p ∈ n.queues.free) → ∃ resume, next = .sched resume) :
    (next.finish n).1 = .HALT ↔ ∀ p, p ∈ n.queues.free := by
  cases next with
  | stop x =>
    refine iff_of_false hgoes fun hall => ?_
    obtain ⟨resume, heq⟩ := hsched hall
    exact absurd heq (by simp)
  | sched resume =>
    rw [← hn.processCount_eq_zero_iff]
    simp only [Next.finish, Nucleus.schedule]
    cases hready : n.queues.ready with
    | nil =>
      simp only [Data.verdict]
      split
      · simp_all
      · split_ifs <;> simp_all [hgoes _]
    | cons p rest =>
      have hp : p ∉ n.queues.free := fun hfree =>
        hn.wf.not_ready_of_free hfree (by simp [hready])
      refine iff_of_false (by simp) fun hzero => hp ?_
      exact hn.processCount_eq_zero_iff.mp hzero p

/-- The nucleus and who is alive in it. -/
def Config.Ruled (M : Machine) (c : Config) : Prop :=
  ∃ q, c.Live M q ∧ ((c.stop ≠ .HALT ∧ q.Ruled) ∨ (c.stop = .HALT ∧ ∀ p, p ∈ q.free))

theorem Config.Ruled.step (hc : c.Ruled M) (hstep : (nucleus M).step c e c') :
    c'.Ruled M ∨ c'.Dead := by
  obtain ⟨q, ⟨hrep, hn⟩, hruled⟩ := hc
  have halive : q.Ruled := by
    rcases hruled with ⟨-, hruled⟩ | ⟨hhalt, -⟩
    · exact hruled
    · have hresumes := hstep.1.resumes
      rw [hhalt] at hresumes
      cases hresumes
  rcases step_spec hstep hrep hn with ⟨n, next, hfollows⟩ | ⟨-, -, -, hstop, hderails⟩
  · have hn' : Nucleus.Settled M ⟨q, e.enter c.kernel.data⟩ := hn.congr rfl rfl
    have hact := hfollows.handles
    have hsound := hact.sound hrep hn'
    have hcur : ∀ p, (e.enter c.kernel.data).currentProcess = .to p → p ∉ q.free :=
      fun p hp hfree => hn'.unplaced p hp (Queues.mem_placed.mpr (.inl hfree))
    have hvalid : n.Valid M := by
      cases next with
      | stop x => exact Nucleus.Settled.toValid hsound
      | sched resume => exact hsound
    have hafter := hact.lineage.ruled hn.wf halive hcur
    have hsched : (∀ p, p ∈ n.queues.free) → ∃ resume, next = .sched resume := by
      intro hall
      cases next with
      | sched resume => exact ⟨resume, rfl⟩
      | stop x =>
        -- a handler that stops has not killed the current process
        exfalso
        have hsettled : n.Settled M := hsound
        rcases hact.lineage.alive hn.wf halive.alive with hfirst | ⟨p, hp, hfree⟩
        · exact hfirst (hall firstPid)
        · exact hsettled.unplaced p (hact.current.1.trans hp) (Queues.mem_placed.mpr (.inl hfree))
    have hhalts := hvalid.finish_halts (hact.avoids (.inl rfl)) hsched
    obtain ⟨hfree, hchildren, -⟩ := @Nucleus.family_finish n next
    refine .inl ⟨_, hfollows.live hrep hn', ?_⟩
    rw [hfollows.stop]
    by_cases hall : ∀ p, p ∈ n.queues.free
    · exact .inr ⟨hhalts.mpr hall, hfree ▸ hall⟩
    · refine .inl ⟨fun heq => hall (hhalts.mp heq), ?_⟩
      obtain ⟨hfirst, hdown⟩ := hafter.resolve_right hall
      refine ⟨hfree ▸ hfirst, fun p hp => ?_⟩
      rw [hchildren]
      exact hdown p (hfree ▸ hp)
  · exact .inr (.of_derails hstop hderails)

theorem reachable_ruled (hc : (nucleus M).Reachable c) : c.Ruled M ∨ c.Dead := by
  refine hc.invariant (I := fun c => c.Ruled M ∨ c.Dead) (fun c hinit => ?_)
    fun c e c' hruled hstep => ?_
  · obtain ⟨hstop, hrep, hbooted⟩ := nucleus_init hinit
    refine .inl ⟨_, ⟨hrep, hbooted.settled⟩, .inl ⟨?_, Queues.booted_ruled⟩⟩
    rw [hstop]
    simp
  · rcases hruled with hruled | hdead
    · exact hruled.step hstep
    · exact .inr (hdead.step hstep).1

/-- In every run the processes that are alive are the first process and its descendants,
and the machine halts exactly when the first process ends: all others end with it. A
nucleus that has lost its current process and died is the exception. -/
theorem halts_with_first (hc : (nucleus M).Reachable c) (hlive : ¬ c.Dead) :
    (c.stop = .HALT ↔ firstPid ∈ c.kernel.heap.freeList) ∧
      (firstPid ∈ c.kernel.heap.freeList → ∀ p, p ∈ c.kernel.heap.freeList) ∧
      ∀ p ∉ c.kernel.heap.freeList, Forest.Descends c.kernel.heap.childList firstPid p := by
  obtain ⟨q, ⟨hrep, hn⟩, hruled⟩ := (reachable_ruled hc).resolve_right hlive
  rw [hrep.freeList_eq hn.wf.free_nodup]
  rcases hruled with ⟨hstop, hfirst, hdown⟩ | ⟨hstop, hall⟩
  · refine ⟨iff_of_false hstop hfirst, fun hmem => absurd hmem hfirst, fun p hp => ?_⟩
    exact (hrep.descends_iff hn.wf hfirst).mpr (hdown p hp)
  · exact ⟨iff_of_true hstop (hall _), fun _ => hall, fun p hp => absurd (hall p) hp⟩

def Stop.isHALT : Stop → Bool
  | .HALT => true
  | _ => false

/-- The first process has two children, one of which is blocked and has a child that is ready.
It ends. -/
def smallEnd : Config := smallPlay [.call 1 0x20001000 0 0, .call 1 0x20001000 0 0, .slice,
  .call 1 0x20001000 0 0, .call 4 0x20003000 0 0, .slice, .call 2 0 0 0]

theorem halts_with_first_small :
    smallEnd.stop = .HALT ∧ ∀ p, p ∈ smallEnd.kernel.heap.freeList := by
  have hreach : (nucleus smallMachine).Reachable smallEnd := smallPlay_reachable (by decide +kernel)
  have hstop : smallEnd.stop = .HALT := by
    have hhalt : smallEnd.stop.isHALT = true := by decide +kernel
    generalize smallEnd.stop = x at hhalt
    cases x <;> simp [Stop.isHALT] at hhalt ⊢
  obtain ⟨hhalts, hall, -⟩ := halts_with_first hreach fun hdead => by
    have htrap := hdead.stop
    rw [hstop] at htrap
    exact absurd htrap (by simp)
  exact ⟨hstop, hall (hhalts.mp hstop)⟩

end Kaya
