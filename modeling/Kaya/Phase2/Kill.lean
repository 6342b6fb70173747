import Kaya.Phase1.Alloc
import Kaya.Phase1.Family
import Kaya.Phase1.Queues.Erase
import Kaya.Phase1.Unblock
import Kaya.Phase2.Exceptions
import Kaya.Phase2.Nucleus

open Links

namespace Kaya

variable {M : Machine} {h : Heap} {q : Queues} {d : Data} {p c : Pid} {l l' : List Pid}

/-- `p` is blocked at an address that the range test takes for a device. -/
def softBlocked (M : Machine) (q : Queues) (p : Pid) : Prop :=
  q.semAdd p ≠ NULL ∧ deviceRange M (q.semAdd p)

instance : Decidable (softBlocked M q p) := inferInstanceAs (Decidable (_ ∧ _))

/-- How many of the killed processes are made up for by a V on the word `w`. -/
def compensation (M : Machine) (q : Queues) (l : List Pid) (w : Word) : Nat :=
  if deviceRange M w ∨ w = NULL then 0 else l.countP (q.semAdd · = w)

/-- The counters and semaphores after the processes of `l` have been killed. -/
def Data.killed (M : Machine) (q : Queues) (l : List Pid) (d : Data) : Data :=
  { d with
    processCount := d.processCount - l.length
    softBlockCount := d.softBlockCount - l.countP (softBlocked M q ·)
    mem := fun w => d.mem w + BitVec.ofNat 32 (compensation M q l w) }

theorem killed_killed {q' : Queues} (hsame : ∀ x ∈ l', q'.semAdd x = q.semAdd x) :
    (d.killed M q l).killed M q' l' = d.killed M q (l ++ l') := by
  have hsoft : l'.countP (softBlocked M q' ·) = l'.countP (softBlocked M q ·) := by
    refine List.countP_congr fun x hx => ?_
    have hiff : softBlocked M q' x ↔ softBlocked M q x := by
      unfold softBlocked
      rw [hsame x hx]
    simp [hiff]
  have hcomp : ∀ w, compensation M q' l' w = compensation M q l' w := by
    intro w
    unfold compensation
    split
    · rfl
    · refine List.countP_congr fun x hx => ?_
      simp [hsame x hx]
  unfold Data.killed
  congr 1
  · dsimp only
    rw [List.length_append]
    omega
  · dsimp only
    rw [hsoft, List.countP_append]
    omega
  · funext w
    simp only [hcomp, BitVec.add_assoc, ← BitVec.ofNat_add]
    congr 2
    unfold compensation
    split
    · rfl
    · rw [List.countP_append]

/-- Killing a process that is not blocked compensates nothing. -/
theorem killed_idle (hp : q.semAdd p = NULL) :
    { d with processCount := d.processCount - 1 } = d.killed M q [p] := by
  unfold Data.killed
  congr 1
  · simp [softBlocked, hp]
  · funext w
    have hzero : compensation M q [p] w = 0 := by
      unfold compensation
      split
      · rfl
      · rename_i hw
        rw [not_or] at hw
        simp [hp, Ne.symm hw.2]
    simp [hzero]

theorem killed_soft (hp : q.semAdd p ≠ NULL) (hrange : deviceRange M (q.semAdd p)) :
    { d with
      processCount := d.processCount - 1
      softBlockCount := d.softBlockCount - 1 } = d.killed M q [p] := by
  unfold Data.killed
  congr 1
  · simp [softBlocked, hp, hrange]
  · funext w
    have hzero : compensation M q [p] w = 0 := by
      unfold compensation
      split
      · rfl
      · rename_i hw
        have hne : q.semAdd p ≠ w := fun heq => hw (Or.inl (heq ▸ hrange))
        simp [hne]
    simp [hzero]

theorem killed_blocked (hp : q.semAdd p ≠ NULL) (hrange : ¬ deviceRange M (q.semAdd p)) :
    { d with
      processCount := d.processCount - 1
      mem := Function.update d.mem (q.semAdd p) (d.mem (q.semAdd p) + 1) } =
      d.killed M q [p] := by
  unfold Data.killed
  congr 1
  · simp [softBlocked, hrange]
  · funext w
    by_cases hw : w = q.semAdd p
    · subst hw
      simp [compensation, hrange, hp]
    · have hzero : compensation M q [p] w = 0 := by
        unfold compensation
        split
        · rfl
        · simp [Ne.symm hw]
      simp [hw, hzero]

theorem run_leaveParent (hrep : Represents h q) (hq : q.WF) (hp : p ∉ q.free)
    (hcur : d.currentProcess = .to p ∨ q.parent p = .null) :
    ∃ h', (leaveParent (.to p)).run ⟨h, d⟩ = .ok () ⟨h', d⟩ ∧ Represents h' (q.orphan p) := by
  unfold leaveParent
  rw [bind_get]
  by_cases hself : d.currentProcess = .to p
  · obtain ⟨r, h', hrun, hrep'⟩ := outChild_spec hrep hq hp
    refine ⟨h', ?_, hrep'⟩
    rw [if_pos hself, bind_heap hrun]
    rfl
  · have hnull := hcur.resolve_left hself
    refine ⟨h, ?_, ?_⟩
    · rw [if_neg hself]
      rfl
    · rwa [Queues.orphan_of_not_child (by simp [hnull])]

/-- A process without children is killed. -/
theorem killProcess_spec (hrep : Represents h q) (hq : q.WF) (hp : p ∉ q.free)
    (hchildren : q.children p = []) (hcur : d.currentProcess = .to p ∨ q.parent p = .null)
    (hmem : ∀ e ∈ q.asl, M.writable e.1) :
    ∃ h', (killProcess M (.to p)).run ⟨h, d⟩ = .ok () ⟨h', d.killed M q [p]⟩ ∧
      Represents h' (q.erase [p]) ∧ (q.erase [p]).WF := by
  obtain ⟨h1, hrun1, hrep1⟩ := run_leaveParent hrep hq hp hcur
  have hq1 : (q.orphan p).WF := hq.orphan
  have horphan : (q.orphan p).children p = [] ∧ ∀ r, (q.orphan p).parent p ≠ .to r := by
    rw [Queues.orphan_eq hq]
    refine ⟨by simp [Forest.without, hchildren], ?_⟩
    intro r
    rcases hparent : q.parent p with - | - | s <;> simp [hparent]
  have hfields : (q.orphan p).semAdd = q.semAdd ∧ (q.orphan p).asl = q.asl ∧
      (q.orphan p).ready = q.ready ∧ (q.orphan p).free = q.free := by
    rw [Queues.orphan_eq hq]
    exact ⟨rfl, rfl, rfl, rfl⟩
  obtain ⟨hsemAdd, hasl, hready, hfree⟩ := hfields
  have hload : (load Heap.pcb_semAdd (.to p)).run h1 = .ok (q.semAdd p) h1 := by
    rw [run_load_to, hrep1.semAdd, hsemAdd]
  have hfinish : ∀ {h2 : Heap} {q2 : Queues} {d2 : Data}, Represents h2 q2 → q2.WF →
      p ∉ q2.placed → q2.children p = [] → (∀ r, q2.parent p ≠ .to r) →
      q2.discard p = q.erase [p] →
      { d2 with processCount := d2.processCount - 1 } = d.killed M q [p] →
      (leaveQueue M (.to p)).run ⟨h1, d⟩ = .ok () ⟨h2, d2⟩ →
      ∃ h', (killProcess M (.to p)).run ⟨h, d⟩ = .ok () ⟨h', d.killed M q [p]⟩ ∧
        Represents h' (q.erase [p]) ∧ (q.erase [p]).WF := by
    intro h2 q2 d2 hrep2 hq2 hp2 hc2 hr2 hdiscard hdata hrun2
    obtain ⟨h3, hrun3, hrep3⟩ := freePcb_spec hrep2 hp2
    rw [hdiscard] at hrep3
    refine ⟨h3, ?_, hrep3, hdiscard ▸ hq2.discard hp2 hc2 hr2⟩
    unfold killProcess
    rw [Exec.run_bind_ok hrun1, Exec.run_bind_ok hrun2, bind_heap hrun3, run_modifyData_lift, hdata]
  by_cases hblocked : p ∈ FifoMap.values q.asl
  · have hwait := hq.mem_waiting_semAdd hblocked
    have hne : q.semAdd p ≠ NULL := hq.ne_NULL hwait
    obtain ⟨h2, hrun2, hrep2⟩ := outBlocked_spec hrep1 hq1 (p := p) (by rwa [hasl])
    have hleave : (leaveQueue M (.to p)).run ⟨h1, d⟩ = .ok () ⟨h2,
        if deviceRange M (q.semAdd p) then { d with softBlockCount := d.softBlockCount - 1 }
        else { d with mem := Function.update d.mem (q.semAdd p) (d.mem (q.semAdd p) + 1) }⟩ := by
      unfold leaveQueue
      rw [bind_heap hload, if_neg hne, bind_heap hload, bind_heap hrun2]
      have hw : M.writable (q.semAdd p) = true :=
        hmem _ (FifoMap.mem_of_queue_ne_nil (List.ne_nil_of_mem hwait))
      split
      · rw [run_modifyData_lift]
      · rw [bind_data (run_loadWord_ok (M.readable_of_writable _ hw)),
          run_data_ok (run_storeWord_ok hw)]
    refine hfinish hrep2 hq1.unblock ?_ horphan.1 horphan.2
      (Queues.erase_single_unblock hq hblocked) ?_ hleave
    · rw [Queues.mem_placed, Queues.values_unblock]
      simp only [Queues.unblock, hfree, hready, List.mem_filter, not_or]
      exact ⟨hp, fun hr => hq.not_blocked_of_ready hr hblocked, by simp⟩
    · split
      · rename_i hrange
        exact killed_soft (d := d) hne hrange
      · rename_i hrange
        exact killed_blocked (d := d) hne hrange
  · have hnull : q.semAdd p = NULL := hq.idle p hp hblocked
    obtain ⟨r, h2, hrun2, hrep2⟩ := outReady_spec (p := p) hrep1 hq1
    have hleave : (leaveQueue M (.to p)).run ⟨h1, d⟩ = .ok () ⟨h2, d⟩ := by
      unfold leaveQueue
      rw [bind_heap hload, if_pos hnull, bind_heap hrun2]
      rfl
    refine hfinish hrep2 hq1.unready ?_ horphan.1 horphan.2
      (Queues.erase_single_unready hq hp hblocked) (killed_idle hnull) hleave
    rw [Queues.mem_placed]
    simp only [Queues.unready, hfree, hready, hasl, not_or]
    exact ⟨hp, fun hr => (List.Nodup.mem_erase_iff hq.ready_nodup).mp hr |>.1 rfl, hblocked⟩

/-- Without children there is no loop, whatever the tables look like. -/
theorem run_executeOrderSixtySix_leaf {n : Nat} {k : Kernel} (hleaf : k.heap.pcb_child p = .null) :
    (executeOrderSixtySix M (n + 1) (.to p)).run k = (killProcess M (.to p)).run k := by
  unfold executeOrderSixtySix
  rw [bind_heap (run_emptyChild k.heap p), if_neg (by simp [hleaf])]

/-- Killing a process with all its descendants: the listing `l` of them is
freed, and everybody else stays where he was. Fewer than `need` nested calls
are not enough. -/
theorem executeOrderSixtySix_spec (hl : q.children.Postorder p l) :
    ∃ need, ∀ {h d}, Represents h q → q.WF → p ∉ q.free →
      (d.currentProcess = .to p ∨ q.parent p = .null) → (∀ e ∈ q.asl, M.writable e.1) →
      (∀ n < need, ∃ k, (executeOrderSixtySix M n (.to p)).run ⟨h, d⟩ = .error .spin k) ∧
      (∃ h', (∀ n ≥ need, (executeOrderSixtySix M n (.to p)).run ⟨h, d⟩ =
          .ok () ⟨h', d.killed M q l⟩) ∧
        Represents h' (q.erase l) ∧ (q.erase l).WF) := by
  generalize hf : q.children = f at hl
  induction hl generalizing q with
  | @leaf f p hleaf =>
    refine ⟨1, ?_⟩
    intro h d hrep hq hp hcur hmem
    subst hf
    obtain ⟨h', hrun, hrep', hq'⟩ := killProcess_spec hrep hq hp hleaf hcur hmem
    refine ⟨?_, h', ?_, hrep', hq'⟩
    · intro n hn
      obtain rfl : n = 0 := by omega
      exact ⟨_, rfl⟩
    · intro n hn
      obtain ⟨n, rfl⟩ : ∃ m, n = m + 1 := ⟨n - 1, by omega⟩
      have hchild := (hrep.children p hp).head
      rw [run_executeOrderSixtySix_leaf (by simp [hchild, hleaf]), hrun]
  | @node f p c rest l l' hc hl hl' ih ih' =>
    subst hf
    by_cases hwf : q.WF
    swap
    · exact ⟨0, fun _ hq => absurd hq hwf⟩
    have hparent : q.parent c = .to p := (hwf.child p c).mp (by simp [hc])
    have horphan : (q.orphan c).children = q.children.detach p c := by
      rw [Queues.orphan_child hparent]
    have hmemc : c ∈ q.children p := by simp [hc]
    have hmeml : ∀ x, x ∈ l ↔ q.children.Descends c x := by
      intro x
      rw [hl.mem_iff (hwf.acyclic.mono Forest.detach_subset),
        Forest.descends_detach_iff hwf.acyclic hmemc]
    have hcl : c ∈ l := (hmeml c).mpr Forest.Descends.refl
    have hpl : p ∉ l := fun hpl => hwf.acyclic.not_descends hmemc ((hmeml p).mp hpl)
    have herased : ((q.orphan c).erase l).children = (q.children.detach p c).without l := by
      unfold Queues.erase
      rw [← horphan]
    obtain ⟨need, hkill⟩ := ih horphan
    obtain ⟨need', hkill'⟩ := ih' herased
    refine ⟨1 + max need need', ?_⟩
    intro h d hrep hq hp hcur hmem
    obtain ⟨h1, hrun1, hrep1⟩ := removeChild_spec hrep hq hp hc
    have hfree1 : (q.orphan c).free = q.free := by rw [Queues.orphan_child hparent]
    have hasl1 : (q.orphan c).asl = q.asl := by rw [Queues.orphan_child hparent]
    have hcfree : c ∉ (q.orphan c).free := by
      rw [hfree1]
      exact fun hcf => (hq.unborn c hcf).2 p hparent
    have hcnull : (q.orphan c).parent c = .null := by
      rw [Queues.orphan_child hparent]
      simp
    obtain ⟨hspin, h2, hrun2, hrep2, hq2⟩ :=
      hkill (d := d) hrep1 hq.orphan hcfree (Or.inr hcnull) (by rwa [hasl1])
    have hpfree : p ∉ ((q.orphan c).erase l).free := by
      simp [Queues.erase, hpl, hfree1, hp]
    have hcur2 : (d.killed M (q.orphan c) l).currentProcess = .to p ∨
        ((q.orphan c).erase l).parent p = .null := by
      refine hcur.imp id fun hnull => ?_
      have hpc : p ≠ c := fun heq => hpl (heq ▸ hcl)
      simp [Queues.erase, hpl, Queues.orphan_child hparent, hpc, hnull]
    have hmem2 : ∀ e ∈ ((q.orphan c).erase l).asl, M.writable e.1 = true := by
      intro e he
      obtain ⟨-, e', he', rfl⟩ := FifoMap.mem_restrict.mp he
      exact hmem e' (hasl1 ▸ he')
    obtain ⟨hspin', h3, hrun3, hrep3, hq3⟩ := hkill' hrep2 hq2 hpfree hcur2 hmem2
    have hdone : ((q.orphan c).erase l).erase l' = q.erase (l ++ l') :=
      Queues.erase_orphan_erase hq hparent hcl
    have hdata : (d.killed M (q.orphan c) l).killed M ((q.orphan c).erase l) l' =
        d.killed M q (l ++ l') := by
      have hfirst : d.killed M (q.orphan c) l = d.killed M q l := by
        rw [Queues.orphan_child hparent]
        rfl
      rw [hfirst]
      refine killed_killed fun x hx => ?_
      have hxl : x ∉ l := by
        intro hxl
        have hnd := (Forest.Postorder.node hc hl hl').nodup hq.acyclic
        exact (List.nodup_append.mp hnd).2.2 x hxl x hx rfl
      simp [Queues.erase, hxl, Queues.orphan_child hparent]
    rw [hdone] at hrep3 hq3
    rw [hdata] at hrun3
    have hempty := emptyChild_spec hrep hp
    rw [hc, show decide (c :: rest = []) = false from by simp] at hempty
    have hunfold : ∀ n, (executeOrderSixtySix M (n + 1) (.to p)).run ⟨h, d⟩ =
        (do executeOrderSixtySix M n (.to c); executeOrderSixtySix M n (.to p)).run ⟨h1, d⟩ := by
      intro n
      conv_lhs => unfold executeOrderSixtySix
      rw [bind_heap hempty, if_pos (show (!false) = true from rfl), bind_heap hrun1]
    refine ⟨?_, h3, ?_, hrep3, hq3⟩
    · intro n hn
      cases n with
      | zero => exact ⟨_, rfl⟩
      | succ n =>
        rw [hunfold]
        by_cases hn1 : n < need
        · obtain ⟨k, hk⟩ := hspin n hn1
          exact ⟨k, Exec.run_bind_error hk⟩
        · rw [Exec.run_bind_ok (hrun2 n (by omega))]
          exact hspin' n (by omega)
    · intro n hn
      obtain ⟨n, rfl⟩ : ∃ m, n = m + 1 := ⟨n - 1, by omega⟩
      rw [hunfold, Exec.run_bind_ok (hrun2 n (by omega)), hrun3 n (by omega)]

end Kaya
