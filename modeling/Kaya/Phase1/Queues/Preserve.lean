import Kaya.Phase1.Kin
import Kaya.Phase1.Queues

open Links

namespace Kaya.Queues

variable {q : Queues} {p c prnt : Pid} {a : Word} {rest : List Pid}

theorem WF.placed_alloc (h : q.free = p :: rest) : q.placed = p :: (q.alloc p).placed := by
  simp [placed, alloc, h]

theorem WF.alloc (hq : q.WF) (h : q.free = p :: rest) : (q.alloc p).WF := by
  have hmem : p ∈ q.free := by simp [h]
  have hnodup := hq.nodup
  rw [placed_alloc h, List.nodup_cons] at hnodup
  refine { hq with nodup := hnodup.2, blocked := ?_, idle := ?_, unborn := ?_ }
  · intro a x hx
    have hne : x ≠ p := by
      rintro rfl
      exact hq.not_blocked_of_free hmem (mem_values_of_mem_waiting hx)
    simpa [Queues.alloc, hne] using hq.blocked a x hx
  · intro x hx hb
    by_cases hxp : x = p
    · simp [Queues.alloc, hxp]
    · have hfree : x ∉ q.free := by simpa [Queues.alloc, h, hxp] using hx
      simpa [Queues.alloc, hxp] using hq.idle x hfree hb
  · intro x hx
    exact hq.unborn x (List.mem_of_mem_tail hx)

/-- A childless pcb that is nobody's child and in no queue may be freed. -/
theorem WF.discard (hq : q.WF) (hp : p ∉ q.placed) (hchildren : q.children p = [])
    (hparent : ∀ r, q.parent p ≠ .to r) : (q.discard p).WF := by
  refine { hq with nodup := List.nodup_cons.mpr ⟨hp, hq.nodup⟩, idle := ?_, unborn := ?_ }
  · intro x hx hb
    exact hq.idle x (fun hf => hx (List.mem_cons_of_mem _ hf)) hb
  · intro x hx
    rcases List.mem_cons.mp hx with rfl | hx
    · exact ⟨hchildren, hparent⟩
    · exact hq.unborn x hx

theorem WF.kin (hq : q.WF) : Kin q.children q.parent q.free :=
  ⟨hq.child, hq.siblings, hq.unborn⟩

theorem WF.adopt (hq : q.WF) (hprnt : prnt ∉ q.free) (hp : p ∉ q.free)
    (hchildren : q.children p = []) (hparent : ∀ r, q.parent p ≠ .to r) (hne : p ≠ prnt) :
    (q.adopt prnt p).WF := by
  have hkin := hq.kin.adopt hprnt hp hparent
  refine { hq with
    child := hkin.child, siblings := hkin.siblings, unborn := hkin.unborn, acyclic := ?_ }
  refine hq.acyclic.adopt fun hd => hne ?_
  exact ((Forest.descends_of_childless hchildren).mp hd).symm

theorem WF.orphan (hq : q.WF) : (q.orphan p).WF := by
  unfold Queues.orphan
  split
  · rename_i prnt hprnt
    have hkin := hq.kin.orphan hprnt
    exact { hq with
      child := hkin.child, siblings := hkin.siblings, unborn := hkin.unborn,
      acyclic := hq.acyclic.mono Forest.detach_subset }
  · exact hq

theorem WF.makeReady (hq : q.WF) (hp : p ∉ q.placed) : (q.makeReady p).WF :=
  { hq with nodup := placed_makeReady.nodup_iff.mpr (List.nodup_cons.mpr ⟨hp, hq.nodup⟩) }

theorem placed_unready (hp : p ∈ q.ready) : q.placed.Perm (p :: (q.unready p).placed) := by
  unfold placed unready
  have hready : q.ready.Perm (p :: q.ready.erase p) := List.perm_cons_erase hp
  exact ((hready.append_left _).trans List.perm_middle).append_right _

theorem WF.unready (hq : q.WF) : (q.unready p).WF := by
  refine { hq with nodup := hq.nodup.sublist ?_ }
  exact (List.Sublist.append_left List.erase_sublist _).append_right _

theorem WF.block (hq : q.WF) (hp : p ∉ q.placed) (ha : a < MAXINT) : (q.block a p).WF := by
  have hvalues : ∀ x, x ∈ FifoMap.values (FifoMap.enqueue a p q.asl) ↔
      x = p ∨ x ∈ FifoMap.values q.asl := fun x => by
    rw [FifoMap.values_enqueue.mem_iff, List.mem_cons]
  refine { hq with asl := hq.asl.enqueue, bounded := ?_, nodup := ?_, blocked := ?_, idle := ?_ }
  · intro e he
    rcases FifoMap.mem_enqueue_key he with hk | ⟨e', he', hk⟩
    · rwa [hk]
    · exact hk ▸ hq.bounded e' he'
  · exact placed_block.nodup_iff.mpr (List.nodup_cons.mpr ⟨hp, hq.nodup⟩)
  · intro b x hx
    have hx' : x ∈ FifoMap.queue b (FifoMap.enqueue a p q.asl) := hx
    rw [FifoMap.queue_enqueue hq.asl] at hx'
    have hpx : ∀ c, p ∉ q.waiting c := fun c hc =>
      hp (mem_placed.mpr (Or.inr (Or.inr (mem_values_of_mem_waiting hc))))
    split at hx'
    · rename_i hba
      rcases List.mem_append.mp hx' with hx' | hx'
      · have hne : x ≠ p := fun heq => hpx a (heq ▸ hx')
        simpa [Queues.block, hne, hba] using hq.blocked a x hx'
      · simp [Queues.block, List.mem_singleton.mp hx', hba]
    · have hne : x ≠ p := fun heq => hpx b (heq ▸ hx')
      simpa [Queues.block, hne] using hq.blocked b x hx'
  · intro x hx hb
    have hb' := (not_congr (hvalues x)).mp hb
    rw [not_or] at hb'
    simpa [Queues.block, hb'.1] using hq.idle x hx hb'.2

theorem values_unblock : FifoMap.values (q.unblock p).asl = (FifoMap.values q.asl).filter (· ≠ p) :=
  FifoMap.values_restrict

theorem placed_unblock (hq : q.WF) (hp : p ∈ FifoMap.values q.asl) :
    q.placed.Perm (p :: (q.unblock p).placed) := by
  have hvalues : (FifoMap.values q.asl).Perm (p :: FifoMap.values (q.unblock p).asl) := by
    have herase := List.perm_cons_erase hp
    rw [hq.values_nodup.erase_eq_filter] at herase
    rw [values_unblock]
    simpa [bne, BEq.beq] using herase
  unfold placed
  exact (hvalues.append_left _).trans List.perm_middle

theorem WF.unblock (hq : q.WF) : (q.unblock p).WF := by
  refine { hq with asl := hq.asl.restrict, bounded := ?_, nodup := ?_, blocked := ?_, idle := ?_ }
  · intro e he
    obtain ⟨-, e', he', rfl⟩ := FifoMap.mem_restrict.mp he
    exact hq.bounded e' he'
  · refine hq.nodup.sublist ?_
    unfold placed
    rw [values_unblock]
    exact List.Sublist.append_left List.filter_sublist _
  · intro b x hx
    have hx' : x ∈ FifoMap.queue b (FifoMap.restrict (· ≠ p) q.asl) := hx
    rw [FifoMap.queue_restrict hq.asl] at hx'
    obtain ⟨hxb, hne⟩ := List.mem_filter.mp hx'
    have hne' : x ≠ p := by simpa using hne
    simpa [Queues.unblock, hne'] using hq.blocked b x hxb
  · intro x hx hb
    rw [values_unblock] at hb
    by_cases hxp : x = p
    · simp [Queues.unblock, hxp]
    · have hb' : x ∉ FifoMap.values q.asl := by simpa [hxp] using hb
      simpa [Queues.unblock, hxp] using hq.idle x hx hb'

theorem WF.setStates (hq : q.WF) {v : TrapType → Section → Word} : (q.setStates p v).WF :=
  { hq with }

end Kaya.Queues
