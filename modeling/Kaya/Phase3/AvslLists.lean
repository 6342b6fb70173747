import Kaya.Links.Ring
import Kaya.Links.Stack
import Kaya.Phase3.Avsl

open Links Exec

namespace Kaya

variable {ι : Type}

/-- Semaphore and process of a node. -/
def Avsl.entry (s : Avsl ι) (x : ι) : Word × Word := (s.v_sem x, s.v_asid x)

/-- The nodes in use form a ring that starts at the head, all others are free. -/
structure Avsl.Lists (s : Avsl ι) (l avail : List ι) : Prop where
  head : s.vSem_h = headPtr l
  ring : Ring s.v_next s.v_prev (tailPtr l) l
  free : Segment s.v_next s.vSemFree_h avail .null
  nodup : (l ++ avail).Nodup

variable [DecidableEq ι] {s s' : Avsl ι} {l a b avail : List ι} {x y t new : ι} {vSemAdd ID : Word}
  {n : Nat}

/-- The state after `freevSem`. -/
def Avsl.freed (x : ι) (s : Avsl ι) : Avsl ι :=
  { s.putNext x s.vSemFree_h with vSemFree_h := .to x }

theorem run_freevSem (x : ι) (s : Avsl ι) : (freevSem x).run s = .ok () (s.freed x) := by
  by_cases hfree : s.vSemFree_h = .null
  · simp [freevSem, hfree, Avsl.putNext, Avsl.freed]
  · simp [freevSem, hfree, Avsl.putNext, Avsl.freed]

/-- The free nodes of the list. -/
def Avsl.freeStack (ι : Type) [DecidableEq ι] : StackIn (Avsl ι) ι where
  next s := s.v_next
  top s := s.vSemFree_h
  put n t s := { s with v_next := n, vSemFree_h := t }
  next_put _ _ _ := rfl
  top_put _ _ _ := rfl
  put_put _ _ _ _ _ := rfl
  put_self _ := rfl

/-- At first all nodes are free. -/
theorem initAVSL_spec {vSemTable : List ι} (s : Avsl ι) (hnodup : vSemTable.Nodup) :
    ∃ s', (initAVSL vSemTable).run s = .ok () s' ∧ s'.Lists [] vSemTable.reverse := by
  obtain ⟨next, top, hrun, hseg, -⟩ := (Avsl.freeStack ι).run_forM freevSem
    (fun x s => run_freevSem x s) (s := { s with vSem_h := .null, vSemFree_h := .null }) (f := [])
    hnodup (fun _ _ => List.not_mem_nil) rfl
  rw [List.append_nil] at hseg
  exact ⟨_, hrun, rfl, Ring.nil, hseg, List.nodup_reverse.mpr hnodup⟩

/-- The state after `allocVSem` has taken `new` and its fields have been set. -/
def Avsl.filled (s : Avsl ι) (new : ι) (vSemAdd ID : Word) : Avsl ι where
  v_next := Function.update s.v_next new .null
  v_prev := Function.update s.v_prev new .null
  v_sem := Function.update s.v_sem new vSemAdd
  v_asid := Function.update s.v_asid new ID
  vSem_h := s.vSem_h
  vSemFree_h := s.v_next new

theorem entry_filled (s : Avsl ι) (new : ι) (vSemAdd ID : Word) :
    (s.filled new vSemAdd ID).entry new = (vSemAdd, ID) ∧
      ∀ x ≠ new, (s.filled new vSemAdd ID).entry x = s.entry x := by
  refine ⟨by simp [Avsl.entry, Avsl.filled], fun x hx => ?_⟩
  simp [Avsl.entry, Avsl.filled, Function.update_of_ne hx]

/-- Without a free node nothing is inserted. -/
theorem run_vInsertBlocked_full (h : s.Lists l []) :
    (vInsertBlocked vSemAdd ID).run s = .ok false s := by
  have hfree : s.vSemFree_h = .null := h.free
  simp [vInsertBlocked, allocVSem, hfree]

/-- A node goes to the end of the ring. -/
theorem vInsertBlocked_spec (vSemAdd ID : Word) (h : s.Lists l (new :: avail)) :
    ∃ s', (vInsertBlocked vSemAdd ID).run s = .ok true s' ∧ s'.Lists (l ++ [new]) avail ∧
      s'.entry new = (vSemAdd, ID) ∧ ∀ x ≠ new, s'.entry x = s.entry x := by
  obtain ⟨hhead, hring, ⟨htop, hfree⟩, hnodup⟩ := h
  have hparts := List.nodup_append.mp hnodup
  have hnewl : new ∉ l := fun hmem => hparts.2.2 new hmem new List.mem_cons_self rfl
  have hnewavail : new ∉ avail := (List.nodup_cons.mp hparts.2.1).1
  have hnodup' : ((l ++ [new]) ++ avail).Nodup := by
    rwa [List.append_assoc, List.singleton_append]
  obtain ⟨hentry, hothers⟩ := entry_filled s new vSemAdd ID
  have hfree' : ∀ {next : ι → Ptr ι}, (∀ y ∈ avail, next y = s.v_next y) →
      Segment next (s.v_next new) avail .null := fun hsame => hfree.congr hsame
  cases l with
  | nil =>
    have hempty : s.vSem_h = .null := hhead
    refine ⟨{ ((s.filled new vSemAdd ID).putNext new (.to new)).putPrev new (.to new) with
        vSem_h := .to new }, ?_, ⟨rfl, ?_, hfree' fun y hy => ?_, hnodup'⟩, hentry, hothers⟩
    · simp [vInsertBlocked, allocVSem, htop, derefNode, hempty, Avsl.putNext, Avsl.putPrev,
        Avsl.filled]
    · exact Ring.singleton (Function.update_self _ _ _) (Function.update_self _ _ _)
    · have hy' := ne_of_mem_of_not_mem hy hnewavail
      simp [Avsl.putNext, Avsl.putPrev, Avsl.filled, Function.update_of_ne hy']
  | cons x l =>
    obtain ⟨m, t, hm⟩ := List.eq_nil_or_concat (x :: l) |>.resolve_left (by simp)
    have ht : tailPtr (x :: l) = .to t := by simp [hm]
    have htmem : t ∈ x :: l := by simp [hm]
    have hhead' : s.vSem_h = .to x := hhead
    obtain ⟨-, hxt⟩ := hring.tail_head ht
    have hxnew : x ≠ new := ne_of_mem_of_not_mem List.mem_cons_self hnewl
    have htnew : t ≠ new := ne_of_mem_of_not_mem htmem hnewl
    refine ⟨((((s.filled new vSemAdd ID).putNext new (.to x)).putNext t (.to new)).putPrev new
        (.to t)).putPrev x (.to new), ?_, ⟨hhead, ?_, hfree' fun y hy => ?_, hnodup'⟩, hentry, hothers⟩
    · simp [vInsertBlocked, allocVSem, htop, derefNode, hhead', Avsl.putNext, Avsl.putPrev,
        Avsl.filled, Function.update_of_ne hxnew, hxt]
    · rw [tailPtr_concat]
      refine hring.push ht hnewl (fun y hy hyt => ?_) (fun y hy hyx => ?_) ⟨?_, ?_⟩ ⟨?_, ?_⟩
      · have hy' := ne_of_mem_of_not_mem hy hnewl
        simp [Avsl.putNext, Avsl.putPrev, Avsl.filled, hyt, hy']
      · have hy' := ne_of_mem_of_not_mem hy hnewl
        simp [Avsl.putNext, Avsl.putPrev, Avsl.filled, hyx, hy']
      · simp [Avsl.putNext, Avsl.putPrev]
      · simp [Avsl.putNext, Avsl.putPrev, hxnew.symm]
      · simp [Avsl.putNext, Avsl.putPrev, htnew.symm]
      · simp [Avsl.putNext, Avsl.putPrev]
    · have hy' := ne_of_mem_of_not_mem hy hnewavail
      have hyt : y ≠ t := fun heq => hparts.2.2 t htmem y (List.mem_cons_of_mem new hy) heq.symm
      simp [Avsl.putNext, Avsl.putPrev, Avsl.filled, hyt, hy']

/-- From a node on the loop goes to the next one with the semaphore, or to the head. -/
theorem findVSem_spec (vSemAdd : Word) (hseg : Segment s.v_next (.to x) l (.to t)) (ht : t ∉ l) :
    Returns (fun n => findVSem vSemAdd t n x) s
      (match l.find? (s.v_sem · = vSemAdd) with
        | some y => (true, y)
        | none => (false, t)) s := by
  induction l generalizing x with
  | nil =>
    obtain rfl : x = t := by simpa using hseg
    refine ⟨1, fun n hn => ?_⟩
    obtain ⟨n, rfl⟩ := Nat.exists_eq_succ_of_ne_zero (Nat.ne_zero_of_lt hn)
    simp [findVSem]
  | cons y l ih =>
    obtain ⟨hxy, hseg⟩ := hseg
    obtain rfl : x = y := by simpa using hxy
    have hxt : x ≠ t := fun heq => ht (heq ▸ List.mem_cons_self)
    by_cases hsem : s.v_sem x = vSemAdd
    · rw [List.find?_cons_of_pos (by simpa using hsem)]
      refine ⟨1, fun n hn => ?_⟩
      obtain ⟨n, rfl⟩ := Nat.exists_eq_succ_of_ne_zero (Nat.ne_zero_of_lt hn)
      simp [findVSem, hxt, hsem]
    · rw [List.find?_cons_of_neg (by simpa using hsem)]
      have hnext : ∃ z, s.v_next x = .to z := by
        cases l with
        | nil => exact ⟨t, hseg⟩
        | cons z l => exact ⟨z, hseg.1⟩
      obtain ⟨z, hz⟩ := hnext
      rw [hz] at hseg
      obtain ⟨need, hrun⟩ := ih hseg fun hmem => ht (List.mem_cons_of_mem _ hmem)
      refine ⟨need + 1, fun n hn => ?_⟩
      obtain ⟨n, rfl⟩ := Nat.exists_eq_succ_of_ne_zero (Nat.ne_zero_of_lt hn)
      refine Eq.trans ?_ (hrun n (Nat.le_of_succ_le_succ hn))
      simp [findVSem, hxt, hsem, hz, derefNode]

/-- A node behind the head leaves the ring. -/
theorem unlinkVSem_spec (h : s.Lists (t :: a ++ x :: b) avail) :
    ∃ s', (unlinkVSem x).run s = .ok (s.v_asid x) s' ∧ s'.Lists (t :: a ++ b) (x :: avail) ∧
      s'.entry = s.entry := by
  obtain ⟨hhead, hring, hfree, hnodup⟩ := h
  have hparts := List.nodup_append.mp hnodup
  have hxl : x ∉ t :: a ++ b := by
    have hmid := List.perm_middle.nodup_iff.mp hparts.1
    exact (List.nodup_cons.mp hmid).1
  obtain ⟨m, y, hy⟩ := List.eq_nil_or_concat (b ++ t :: a) |>.resolve_left (by simp)
  have hlast : tailPtr (b ++ t :: a) = .to y := by simp [hy]
  obtain ⟨z, hz⟩ : ∃ z, headPtr (b ++ t :: a) = .to z := by cases b <;> simp
  obtain ⟨hnext, hprev⟩ := hring.neighbours hz hlast
  have hymem : y ∈ t :: a ++ b := by
    have hmem : y ∈ b ++ t :: a := by rw [hy]; simp
    exact (List.mem_append.mp hmem).elim (List.mem_append_right _) (List.mem_append_left _)
  have hxy : x ≠ y := fun heq => hxl (heq ▸ hymem)
  have hnodup' : ((t :: a ++ b) ++ x :: avail).Nodup := by
    have hmiddle : (t :: a ++ x :: b).Perm (x :: (t :: a ++ b)) := List.perm_middle
    refine (List.Perm.nodup_iff ?_).mp hnodup
    exact (hmiddle.append_right avail).trans List.perm_middle.symm
  refine ⟨((s.putNext y (.to z)).putPrev z (.to y)).freed x, ?_, ⟨hhead, ?_, ⟨rfl, ?_⟩, hnodup'⟩, rfl⟩
  · have hrun : (unlinkVSem x).run s = (do
        freevSem x
        return s.v_asid x : AvslM ι Word).run ((s.putNext y (.to z)).putPrev z (.to y)) := by
      simp [unlinkVSem, derefNode, hprev, hnext, Avsl.putNext, Avsl.putPrev,
        Function.update_of_ne hxy]
    rw [hrun, run_bind_ok (run_freevSem x _)]
    rfl
  · refine hring.remove hz hlast (fun w hw hwy => ?_) (fun w hw hwz => ?_) ⟨?_, ?_⟩
    · have hwx : w ≠ x := ne_of_mem_of_not_mem hw hxl
      simp [Avsl.freed, Avsl.putNext, Avsl.putPrev, hwy, hwx]
    · simp [Avsl.freed, Avsl.putNext, Avsl.putPrev, hwz]
    · simp [Avsl.freed, Avsl.putNext, Avsl.putPrev, hxy.symm]
    · simp [Avsl.freed, Avsl.putNext, Avsl.putPrev]
  · have hx : (((s.putNext y (.to z)).putPrev z (.to y)).freed x).v_next x = s.vSemFree_h := by
      simp [Avsl.freed, Avsl.putNext, Avsl.putPrev]
    rw [hx]
    refine hfree.congr fun w hw => ?_
    have hwx : w ≠ x := fun heq => hparts.2.2 x (by simp) w hw heq.symm
    have hwy : w ≠ y := by
      rintro rfl
      refine hparts.2.2 w ?_ w hw rfl
      exact (List.mem_append.mp hymem).elim (List.mem_append_left _)
        fun hb => List.mem_append_right _ (List.mem_cons_of_mem _ hb)
    simp [Avsl.freed, Avsl.putNext, Avsl.putPrev, hwx, hwy]

/-- Without a node for the semaphore nothing is removed. -/
theorem vRemoveBlocked_none (h : s.Lists l avail) (hnone : ∀ x ∈ l, s.v_sem x ≠ vSemAdd) :
    Returns (fun n => vRemoveBlocked n vSemAdd) s 0 s := by
  obtain ⟨hhead, hring, -, -⟩ := h
  cases l with
  | nil =>
    have hempty : s.vSem_h = .null := hhead
    exact ⟨0, fun n _ => by simp [vRemoveBlocked, hempty]⟩
  | cons t l =>
    have hhead' : s.vSem_h = .to t := hhead
    obtain ⟨hsem, hnone⟩ := List.forall_mem_cons.mp hnone
    have hseg := hring.segment
    cases l with
    | nil =>
      have hnext : s.v_next t = .to t := hseg
      exact ⟨0, fun n _ => by simp [vRemoveBlocked, hhead', derefNode, hnext, hsem]⟩
    | cons y l =>
      have hnext : s.v_next t = .to y := hseg.1
      have ht := (List.nodup_cons.mp hring.nodup).1
      have hyt : y ≠ t := fun heq => ht (heq ▸ List.mem_cons_self)
      rw [hnext] at hseg
      obtain ⟨need, hrun⟩ := findVSem_spec vSemAdd hseg ht
      rw [List.find?_eq_none.mpr (by simpa using hnone)] at hrun
      refine ⟨need, fun n hn => ?_⟩
      have hsearch := hrun n hn
      simp only [vRemoveBlocked, run_bind_get, hhead', hnext, derefNode, pure_bind, hyt, hsem,
        reduceCtorEq, if_false]
      rw [run_bind_ok hsearch]
      rfl

/-- The only node. -/
theorem vRemoveBlocked_single (h : s.Lists [t] avail) (hsem : s.v_sem t = vSemAdd) :
    ∃ s', Returns (fun n => vRemoveBlocked n vSemAdd) s (s.v_asid t) s' ∧
      s'.Lists [] (t :: avail) ∧ s'.entry = s.entry := by
  obtain ⟨hhead, hring, hfree, hnodup⟩ := h
  have hhead' : s.vSem_h = .to t := hhead
  have hnext : s.v_next t = .to t := hring.segment
  have ht : t ∉ avail := (List.nodup_cons.mp hnodup).1
  refine ⟨{ ((s.putNext t .null).putPrev t .null).freed t with vSem_h := .null },
    ⟨0, fun n _ => ?_⟩, ⟨rfl, Ring.nil, ⟨rfl, ?_⟩, hnodup⟩, rfl⟩
  · simp only [vRemoveBlocked, run_bind_get, hhead', hnext, derefNode, pure_bind, hsem,
      reduceCtorEq, if_false, if_true, run_bind_modify]
    rw [run_bind_ok (run_freevSem t _), run_bind_modify]
    rfl
  · have hx : (((s.putNext t .null).putPrev t .null).freed t).v_next t = s.vSemFree_h := by
      simp [Avsl.freed, Avsl.putNext, Avsl.putPrev]
    dsimp only
    rw [hx]
    refine hfree.congr fun y hy => ?_
    have hyt := ne_of_mem_of_not_mem hy ht
    simp [Avsl.freed, Avsl.putNext, Avsl.putPrev, hyt]

/-- Where the head has the semaphore, the node behind it is removed. -/
theorem vRemoveBlocked_head (h : s.Lists (t :: x :: l) avail) (hsem : s.v_sem t = vSemAdd) :
    ∃ s', Returns (fun n => vRemoveBlocked n vSemAdd) s (s.v_asid x) s' ∧
      s'.Lists (t :: l) (x :: avail) ∧ s'.entry = s.entry := by
  have hhead : s.vSem_h = .to t := h.head
  have hnext : s.v_next t = .to x := h.ring.segment.1
  have hxt : x ≠ t := fun heq =>
    (List.nodup_cons.mp h.ring.nodup).1 (heq ▸ List.mem_cons_self)
  obtain ⟨s', hrun, hlists, hentry⟩ := unlinkVSem_spec (a := []) h
  refine ⟨s', ⟨0, fun n _ => ?_⟩, hlists, hentry⟩
  simp only [vRemoveBlocked, run_bind_get, hhead, hnext, derefNode, pure_bind, hsem, hxt,
    reduceCtorEq, if_false, if_true]
  exact hrun

/-- Otherwise the first node with the semaphore is removed. -/
theorem vRemoveBlocked_behind (h : s.Lists (t :: a ++ x :: b) avail) (hhead : s.v_sem t ≠ vSemAdd)
    (hbefore : ∀ y ∈ a, s.v_sem y ≠ vSemAdd) (hsem : s.v_sem x = vSemAdd) :
    ∃ s', Returns (fun n => vRemoveBlocked n vSemAdd) s (s.v_asid x) s' ∧
      s'.Lists (t :: a ++ b) (x :: avail) ∧ s'.entry = s.entry := by
  have hhead' : s.vSem_h = .to t := h.head
  have hseg : Segment s.v_next (s.v_next t) (a ++ x :: b) (.to t) := h.ring.segment
  have ht : t ∉ a ++ x :: b := (List.nodup_cons.mp h.ring.nodup).1
  obtain ⟨y, hnext, hmem⟩ : ∃ y, s.v_next t = .to y ∧ y ∈ a ++ x :: b := by
    cases a with
    | nil => exact ⟨x, hseg.1, by simp⟩
    | cons y a => exact ⟨y, hseg.1, by simp⟩
  have hyt : y ≠ t := fun heq => ht (heq ▸ hmem)
  rw [hnext] at hseg
  obtain ⟨need, hsearch⟩ := findVSem_spec vSemAdd hseg ht
  have hfind : (a ++ x :: b).find? (s.v_sem · = vSemAdd) = some x := by
    rw [List.find?_append, List.find?_eq_none.mpr (by simpa using hbefore),
      List.find?_cons_of_pos (by simpa using hsem)]
    rfl
  rw [hfind] at hsearch
  obtain ⟨s', hrun, hlists, hentry⟩ := unlinkVSem_spec h
  refine ⟨s', ⟨need, fun n hn => ?_⟩, hlists, hentry⟩
  simp only [vRemoveBlocked, run_bind_get, hhead', hnext, derefNode, pure_bind, hyt, hhead,
    reduceCtorEq, if_false]
  rw [run_bind_ok (hsearch n hn)]
  exact hrun

end Kaya
