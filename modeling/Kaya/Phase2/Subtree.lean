import Kaya.Phase2.Causes
import Kaya.Phase2.Script

open Links Exec

namespace Kaya

variable {M : Machine} {h : Heap} {q q' : Queues} {p : Pid} {c : Config} {l : List Pid}

/-- The free descriptors. -/
def Heap.freeSemds (h : Heap) : List Sid := walk h.s_next .null (MAXPROC + 1) h.semdFree_h

/-- What is left after `p` and its descendants, the pcbs of `l`, have been
killed. -/
structure Kernel.Killed (p : Pid) (l : List Pid) (k k' : Kernel) : Prop where
  subtree : ∀ x, x ∈ l ↔ Forest.Descends k.heap.childList p x
  once : l.Nodup
  freed : k'.heap.freeList = l.reverse ++ k.heap.freeList
  freedOnce : k'.heap.freeList.Nodup
  processCount : k'.data.processCount = k.data.processCount - l.length
  ready : k'.heap.readyList = k.heap.readyList.filter (· ∉ l)
  blocked : ∀ a, k'.heap.blockedOn a = (k.heap.blockedOn a).filter (· ∉ l)
  children : ∀ x ∉ k'.heap.freeList, k'.heap.childList x = (k.heap.childList x).filter (· ∉ l)
  apart : ∀ x ∉ k'.heap.freeList, ∀ y ∈ l, k'.heap.pcb_parent x ≠ .to y ∧
    k'.heap.pcb_child x ≠ .to y ∧ k'.heap.pcb_nextSib x ≠ .to y ∧ k'.heap.pcb_prevSib x ≠ .to y
  active : ∀ i ∈ k'.heap.activeList, k'.heap.procQ (k'.heap.s_procQ i) ≠ []
  descriptors : (k'.heap.activeList ++ k'.heap.freeSemds).Perm semdTable

/-- A live pcb that is nobody's child has never been one. -/
def Queues.Rooted (q : Queues) : Prop := ∀ p ∉ q.free, q.parent p ≠ .null

theorem Lineage.rooted {cur : PcbPtr} (hlineage : Lineage q cur q') (hq : q.Rooted) :
    q'.Rooted := by
  cases hlineage with
  | same hfree _ hparent =>
    intro p hp
    rw [hparent]
    exact hq p (hfree ▸ hp)
  | @create p c rest _ hfree =>
    intro x hx
    by_cases hxc : x = c
    · simp [Queues.create, Queues.makeReady, Queues.adopt, hxc]
    · have hx' : x ∉ q.free := by
        simp only [Queues.create, Queues.makeReady, Queues.adopt, Queues.alloc, hfree,
          List.tail_cons] at hx
        simpa [hfree, hxc] using hx
      simpa [Queues.create, Queues.makeReady, Queues.adopt, Queues.alloc, hxc] using hq x hx'
  | @erase p l _ _ =>
    intro x hx
    have hx' : x ∉ l ∧ x ∉ q.free := by simpa [Queues.erase] using hx
    simpa [Queues.erase, hx'.1] using hq x hx'.2

theorem reachable_rooted (hc : (nucleus M).Reachable c) :
    (∃ q, c.Live M q ∧ q.Rooted) ∨ c.Dead := by
  refine hc.invariant (I := fun c => (∃ q, c.Live M q ∧ q.Rooted) ∨ c.Dead) (fun c hinit => ?_)
    fun c e c' hlive hstep => ?_
  · obtain ⟨-, hrep, hbooted⟩ := nucleus_init hinit
    refine Or.inl ⟨_, ⟨hrep, hbooted.settled⟩, fun p _ => ?_⟩
    simp [Queues.booted, Queues.alloc, Queues.initial]
  · rcases hlive with ⟨q, ⟨hrep, hn⟩, hrooted⟩ | hdead
    · rcases step_spec hstep hrep hn with ⟨n, next, hfollows⟩ | ⟨-, -, -, hstop, hderails⟩
      · refine Or.inl ⟨_, hfollows.live hrep (hn.congr rfl rfl), ?_⟩
        have hlineage := hfollows.handles.lineage.rooted hrooted
        obtain ⟨hfree, -, hparent⟩ := @Nucleus.family_finish n next
        intro p hp
        rw [hparent]
        exact hlineage p (hfree ▸ hp)
      · exact Or.inr (.of_derails hstop hderails)
    · exact Or.inr (hdead.step hstep).1

/-- No live pcb has a link to a free one. -/
theorem Represents.live_links (hrep : Represents h q) (hq : q.WF) (hrooted : q.Rooted) {x y : Pid}
    (hx : x ∉ q.free) (hy : y ∈ q.free) : h.pcb_parent x ≠ .to y ∧ h.pcb_child x ≠ .to y ∧
      h.pcb_nextSib x ≠ .to y ∧ h.pcb_prevSib x ≠ .to y := by
  have hchild : ∀ r, y ∉ q.children r := fun r hr =>
    (hq.unborn y hy).2 r ((hq.child r y).mp hr)
  have hsiblings : ¬ (h.pcb_nextSib x = .to y ∨ h.pcb_prevSib x = .to y) := by
    intro hlink
    rcases hparent : q.parent x with - | - | r
    · exact hrooted x hx hparent
    · obtain ⟨hnext, hprev⟩ := hrep.roots x hx hparent
      simp [hnext, hprev] at hlink
    · have hxr := (hq.child r x).mpr hparent
      have hr : r ∉ q.free := fun hr => by simp [(hq.unborn r hr).1] at hxr
      exact hchild r ((hrep.children r hr).mem_of_link hxr hlink)
  rw [not_or] at hsiblings
  refine ⟨fun hparent => ?_, fun hhead => ?_, hsiblings.1, hsiblings.2⟩
  · rw [hrep.parent] at hparent
    have hxy := (hq.child y x).mpr hparent
    simp [(hq.unborn y hy).1] at hxy
  · have hsib := hrep.children x hx
    rw [hsib.head] at hhead
    exact hchild x (mem_of_headPtr hhead)

/-- The active descriptors have waiting processes, and all others are free. -/
theorem Represents.descriptors (hrep : Represents h q) (hq : q.WF) :
    (∀ i ∈ h.activeList, h.procQ (h.s_procQ i) ≠ []) ∧
      (h.activeList ++ h.freeSemds).Perm semdTable := by
  constructor
  · intro i hi
    have hmem : (h.s_semAdd i, h.procQ (h.s_procQ i)) ∈ q.asl := by
      rw [← hrep.asl_eq]
      exact List.mem_map_of_mem hi
    exact hq.asl.nonempty _ hmem
  · obtain ⟨ids, fr, hasl⟩ := hrep.asl
    have hlen := hasl.length_eq
    have hfree : h.freeSemds = fr := hasl.free.walk_eq (by simp) (by omega)
    rw [hasl.activeList_eq, hfree]
    refine (List.perm_ext_iff_of_nodup hasl.nodup (by decide)).mpr fun i => ?_
    rw [hasl.cover, mem_semdTable]

/-- The data of a settled nucleus may change before its current process is killed. -/
theorem executeOrderSixtySix_killed {d d' : Data} (hrep : Represents h q)
    (hn : Nucleus.Settled M ⟨q, d'⟩) (hrooted : q.Rooted) (hcur' : d'.currentProcess = .to p)
    (hcur : d.currentProcess = .to p) :
    ∃ need l k', (∀ n ≥ need, (executeOrderSixtySix M n (.to p)).run ⟨h, d⟩ = .ok () k') ∧
      Kernel.Killed p l ⟨h, d⟩ k' := by
  have hp : p ∉ q.free := fun hf => hn.unplaced p hcur' (Queues.mem_placed.mpr (Or.inl hf))
  obtain ⟨l, hl⟩ := hn.wf.acyclic.exists_postorder p
  obtain ⟨need, hkill⟩ := executeOrderSixtySix_spec (M := M) hl
  obtain ⟨-, h', hrun, hrep', hq'⟩ := hkill (d := d) hrep hn.wf hp (Or.inl hcur) hn.keys
  have hrooted' : (q.erase l).Rooted := (Lineage.erase hcur hl).rooted hrooted
  have hfree : h.freeList = q.free := hrep.freeList_eq hn.wf.free_nodup
  have hfree' : h'.freeList = l.reverse ++ q.free := hrep'.freeList_eq hq'.free_nodup
  obtain ⟨hactive, hdescriptors⟩ := hrep'.descriptors hq'
  refine ⟨need, l, _, hrun, fun x => ?_, hl.nodup hn.wf.acyclic, ?_, ?_, rfl, ?_, fun a => ?_,
    fun x hx => ?_, fun x hx y hy => ?_, hactive, hdescriptors⟩
  · rw [hl.mem_iff hn.wf.acyclic]
    exact (hrep.descends_iff hn.wf hp).symm
  · rw [hfree', hfree]
  · rw [hfree']
    exact hq'.free_nodup
  · rw [hrep'.readyList_eq, hrep.readyList_eq]
    rfl
  · rw [hrep'.blockedOn_eq, hrep.blockedOn_eq]
    exact FifoMap.queue_restrict hn.wf.asl
  · rw [hfree'] at hx
    have hx' : x ∉ q.free := fun hf => hx (List.mem_append_right _ hf)
    rw [hrep'.childList_eq hx, hrep.childList_eq hx']
    rfl
  · rw [hfree'] at hx
    have hy' : y ∈ (q.erase l).free := List.mem_append_left _ (List.mem_reverse.mpr hy)
    exact hrep'.live_links hq' hrooted' hx hy'

/-- Killing the current process ends, frees it and its descendants, and leaves
everybody else where he was. -/
theorem executeOrderSixtySix_kills {d : Data} (hc : (nucleus M).Reachable c)
    (hcur : c.kernel.data.currentProcess = .to p) (hd : d.currentProcess = .to p) :
    ∃ need l k', (∀ n ≥ need, (executeOrderSixtySix M n (.to p)).run ⟨c.kernel.heap, d⟩ = .ok () k') ∧
      Kernel.Killed p l ⟨c.kernel.heap, d⟩ k' := by
  obtain ⟨q, ⟨hrep, hn⟩, hrooted⟩ : ∃ q, c.Live M q ∧ q.Rooted := by
    refine (reachable_rooted hc).resolve_right fun hdead => ?_
    rw [hdead.current] at hcur
    exact absurd hcur (by simp)
  exact executeOrderSixtySix_killed hrep hn hrooted hcur hd

/-- The child 18 of the first process has itself two children: 16 waits on a semaphore and 15
is ready, between the other processes. -/
def smallFamily : Config := smallPlay [.call 1 0x20001000 0 0, .call 1 0x20001000 0 0,
  .slice, .call 1 0x20001000 0 0, .call 1 0x20001000 0 0, .slice, .slice, .slice,
  .call 4 0x20003000 0 0, .slice]

/-- The child is killed with its two children, and the others stay. -/
theorem executeOrderSixtySix_kills_small :
    smallFamily.kernel.heap.readyList = [17, 19, 15] ∧
    smallFamily.kernel.heap.blockedOn 0x20003000 = [16] ∧ ∃ need l k',
    (∀ n ≥ need, (executeOrderSixtySix smallMachine n (.to 18)).run
      ⟨smallFamily.kernel.heap, smallFamily.kernel.data⟩ = .ok () k') ∧
    Kernel.Killed 18 l ⟨smallFamily.kernel.heap, smallFamily.kernel.data⟩ k' :=
  ⟨by decide +kernel, by decide +kernel, executeOrderSixtySix_kills
    (smallPlay_reachable (by decide +kernel)) (by decide +kernel) (by decide +kernel)⟩

/-- The first process waits on a semaphore whose address its child puts into its own
`pcb_semAdd`, by a SYS5 for the row in front of the table. -/
def smallStray : Config := smallPlay
  [.call 1 0x20001000 0 0, .call 4 0x20003000 0 0, .call 5 (-1) 0 0x20003000]

theorem smallStray_reachable : (unchecked smallMachine).Reachable smallStray :=
  anyScript_follows.reachable (Reachable.unchecked smallBoot_reachable) (by decide +kernel)

/-- The child is not in the queue that it is taken from, and the kill runs into a `NULL`. -/
theorem run_killProcess_stray : ∃ k,
    (killProcess smallMachine (.to 18)).run smallStray.kernel = .error .trap k := by
  have htrap : (Config.of ((killProcess smallMachine (.to 18)).run smallStray.kernel)).stop.isTrap =
      true := by
    decide +kernel
  cases hrun : (killProcess smallMachine (.to 18)).run smallStray.kernel with
  | ok _ k => simp [hrun, Config.of, Stop.isTrap] at htrap
  | error x k =>
    rw [hrun] at htrap
    cases x with
    | trap => exact ⟨k, rfl⟩
    | _ => simp [Config.of, Stop.isTrap] at htrap

/-- With any type of SYS5 a kill may not come to its end. -/
theorem not_always_killed :
    ¬ ∀ (M : Machine) (c : Config) (p : Pid), (unchecked M).Reachable c →
      c.kernel.data.currentProcess = .to p →
      ∃ need l k', (∀ n ≥ need, (executeOrderSixtySix M n (.to p)).run c.kernel = .ok () k') ∧
        Kernel.Killed p l c.kernel k' := by
  intro hall
  obtain ⟨need, l, k', hdone, -⟩ :=
    hall smallMachine smallStray 18 smallStray_reachable (by decide +kernel)
  obtain ⟨k, htrap⟩ := run_killProcess_stray
  have hleaf : smallStray.kernel.heap.pcb_child 18 = .null := by decide +kernel
  have hrun := hdone (need + 1) (by omega)
  rw [run_executeOrderSixtySix_leaf hleaf, htrap] at hrun
  exact absurd hrun (by simp)

end Kaya
