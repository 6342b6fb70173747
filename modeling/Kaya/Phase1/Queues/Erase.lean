import Kaya.Forest.Postorder
import Kaya.Phase1.Queues.Preserve

open Links

namespace Kaya.Queues

/-- The pcbs of `d` go back to the free list, the last one first, and leave every
queue and every child list. The parent of a root is left as it is. -/
def erase (d : List Pid) (q : Queues) : Queues where
  free := d.reverse ++ q.free
  ready := q.ready.filter (· ∉ d)
  asl := FifoMap.restrict (· ∉ d) q.asl
  children := q.children.without d
  parent p := if p ∈ d ∧ q.parent p ≠ .zero then .null else q.parent p
  semAdd p := if p ∈ d then NULL else q.semAdd p
  states := q.states

variable {q : Queues} {p c : Pid} {d d' : List Pid}

theorem orphan_of_not_child (h : ∀ r, q.parent p ≠ .to r) : q.orphan p = q := by
  unfold orphan
  split
  · rename_i r hr
    exact absurd hr (h r)
  · rfl

theorem orphan_child (h : q.parent c = .to p) : q.orphan c =
    { q with
      children := q.children.detach p c
      parent := Function.update q.parent c .null } := by
  simp [orphan, h]

/-- Killing a child with its descendants and then what is left. -/
theorem erase_orphan_erase (hq : q.WF) (hc : q.parent c = .to p) (hd : c ∈ d) :
    ((q.orphan c).erase d).erase d' = q.erase (d ++ d') := by
  rw [orphan_child hc]
  unfold erase
  congr 1
  · simp
  · simp only [List.filter_filter, List.mem_append, not_or]
    congr 1
    funext x
    simp [Bool.and_comm]
  · simp only
    rw [FifoMap.restrict_restrict hq.asl]
    congr 1
    funext x
    simp only [List.mem_append, not_or, Bool.decide_and, decide_not]
    exact Bool.and_comm _ _
  · simp only
    rw [Forest.detach_without hd, Forest.without_without]
  · funext x
    by_cases hxc : x = c
    · subst hxc
      simp [hc, hd]
    · simp only [Function.update_of_ne hxc, List.mem_append]
      by_cases hxd : x ∈ d <;> by_cases hxd' : x ∈ d' <;>
        by_cases hzero : q.parent x = .zero <;> simp [hxd, hxd', hzero]
  · funext x
    by_cases hxd : x ∈ d <;> by_cases hxd' : x ∈ d' <;> simp [hxd, hxd']

theorem without_single (hq : q.WF) (hp : ∀ r, q.parent p ≠ .to r) :
    q.children.without [p] = q.children := by
  funext r
  refine List.filter_eq_self.mpr ?_
  intro y hy
  have hne : y ≠ p := by
    rintro rfl
    exact hp r ((hq.child r y).mp hy)
  simpa using hne

theorem orphan_eq (hq : q.WF) : q.orphan p =
    { q with
      children := q.children.without [p]
      parent := fun x => if x ∈ [p] ∧ q.parent x ≠ .zero then .null else q.parent x } := by
  by_cases hnot : ∀ r, q.parent p ≠ .to r
  · have hsame : (fun x => if x ∈ [p] ∧ q.parent x ≠ .zero then .null else q.parent x) =
        q.parent := by
      funext x
      by_cases hx : x = p
      · subst hx
        rcases hparent : q.parent x with - | - | r
        · simp
        · simp
        · exact absurd hparent (hnot r)
      · simp [hx]
    rw [orphan_of_not_child hnot, without_single hq hnot, hsame]
  · obtain ⟨r, hparent⟩ := not_forall_not.mp hnot
    rw [orphan_child hparent]
    congr 1
    · funext x
      by_cases hx : x = r
      · subst hx
        rw [Forest.detach, Function.update_self, (hq.siblings x).erase_eq_filter]
        unfold Forest.without
        congr 1
        funext y
        simp [bne, BEq.beq]
      · rw [Forest.detach, Function.update_of_ne hx]
        symm
        refine List.filter_eq_self.mpr ?_
        intro y hy
        have hne : y ≠ p := by
          rintro rfl
          rw [hq.child, hparent, Ptr.to.injEq] at hy
          exact hx hy.symm
        simpa using hne
    · funext x
      by_cases hx : x = p
      · subst hx
        simp [hparent]
      · simp [hx]

/-- Killing a process without children that is not blocked. -/
theorem erase_single_unready (hq : q.WF) (hfree : p ∉ q.free)
    (hp : p ∉ FifoMap.values q.asl) : ((q.orphan p).unready p).discard p = q.erase [p] := by
  rw [orphan_eq hq]
  unfold discard unready erase
  have hready : q.ready.erase p = q.ready.filter (· ∉ [p]) := by
    rw [hq.ready_nodup.erase_eq_filter]
    congr 1
    funext y
    simp [bne, BEq.beq]
  congr 1
  · refine (FifoMap.restrict_eq_self hq.asl ?_).symm
    intro x hx
    have hne : x ≠ p := fun heq => hp (heq ▸ hx)
    simpa using hne
  · funext x
    by_cases hx : x = p
    · subst hx
      simp [hq.idle x hfree hp]
    · simp [hx]

/-- Killing a process without children that is blocked. -/
theorem erase_single_unblock (hq : q.WF) (hp : p ∈ FifoMap.values q.asl) :
    ((q.orphan p).unblock p).discard p = q.erase [p] := by
  rw [orphan_eq hq]
  unfold discard unblock erase
  congr 1
  · symm
    refine List.filter_eq_self.mpr ?_
    intro x hx
    have hne : x ≠ p := fun heq => hq.not_blocked_of_ready hx (heq ▸ hp)
    simpa using hne
  · simp
  · funext x
    by_cases hx : x = p
    · simp [hx]
    · simp [hx]

theorem mem_placed_erase {x : Pid} : x ∈ (q.erase d).placed ↔ x ∈ d ∨ x ∈ q.placed := by
  have hvalues : x ∈ FifoMap.values (q.erase d).asl ↔ x ∉ d ∧ x ∈ FifoMap.values q.asl := by
    show x ∈ FifoMap.values (FifoMap.restrict _ q.asl) ↔ _
    rw [FifoMap.values_restrict]
    simp [and_comm]
  rw [mem_placed, mem_placed, hvalues]
  simp only [erase, List.mem_append, List.mem_reverse, List.mem_filter, decide_eq_true_eq]
  tauto

end Kaya.Queues
