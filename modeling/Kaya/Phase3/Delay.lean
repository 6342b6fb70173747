import Kaya.Exec.System
import Kaya.Phase3.Adl
import Kaya.Queues.Timers

open Links Exec

namespace Kaya

variable {ι : Type} [DecidableEq ι] {s s' : Adl ι} {l avail : List ι} {x y new : ι}
  {wake ID theClock : Word} {n : Nat}

/-- The delay list holds the nodes of `l` and the free list those of `avail`. -/
structure Adl.Lists (s : Adl ι) (l avail : List ι) : Prop where
  active : Segment s.d_next s.activeDelayd_h l .null
  free : Segment s.d_next s.delaydFree_h avail .null
  nodup : (l ++ avail).Nodup

/-- The request that a node of the delay list stands for. -/
def Adl.request (s : Adl ι) (x : ι) : Int × Word := ((s.d_wakeTime x).toInt, s.d_asid x)

theorem run_searchDelaydFrom_to (hnext : s.d_next x = .to y) :
    (searchDelaydFrom wake (n + 1) (.to x)).run s =
      if (s.d_wakeTime y).toInt < wake.toInt then (searchDelaydFrom wake n (.to y)).run s
      else .ok (.to x) s := by
  rw [searchDelaydFrom, run_bind_get, run_bind_derefNode, hnext]
  dsimp only
  rw [if_pos (by simp), run_bind_get, run_bind_derefNode]
  exact run_ite _ _ _ _

theorem run_searchDelaydFrom_null (hnext : s.d_next x = .null) :
    (searchDelaydFrom wake (n + 1) (.to x)).run s = .ok (.to x) s := by
  rw [searchDelaydFrom, run_bind_get, run_bind_derefNode, hnext]
  rfl

/-- The search stops at the last node with an earlier time, or at the first node. -/
theorem run_searchDelaydFrom (wake : Word) (h : Segment s.d_next (.to x) (x :: l) .null) :
    ∃ c w, x :: l.takeWhile (fun y => (s.request y).1 < wake.toInt) = c ++ [w] ∧
      Returns (fun n => searchDelaydFrom wake n (.to x)) s (.to w) s := by
  induction l generalizing x with
  | nil =>
    refine ⟨[], x, rfl, 1, fun n hn => ?_⟩
    obtain ⟨n, rfl⟩ := Nat.exists_eq_succ_of_ne_zero (Nat.ne_zero_of_lt hn)
    exact run_searchDelaydFrom_null h.2
  | cons y l ih =>
    by_cases hlt : (s.request y).1 < wake.toInt
    · rw [List.takeWhile_cons_of_pos (by simpa using hlt)]
      obtain ⟨c, w, hcw, need, hrun⟩ := ih (x := y) ⟨rfl, h.2.2⟩
      refine ⟨x :: c, w, by rw [hcw, List.cons_append], need + 1, fun n hn => ?_⟩
      obtain ⟨n, rfl⟩ := Nat.exists_eq_succ_of_ne_zero (Nat.ne_zero_of_lt hn)
      exact (run_searchDelaydFrom_to h.2.1).trans
        ((if_pos hlt).trans (hrun n (Nat.le_of_succ_le_succ hn)))
    · rw [List.takeWhile_cons_of_neg (by simpa using hlt)]
      refine ⟨[], x, rfl, 1, fun n hn => ?_⟩
      obtain ⟨n, rfl⟩ := Nat.exists_eq_succ_of_ne_zero (Nat.ne_zero_of_lt hn)
      exact (run_searchDelaydFrom_to h.2.1).trans (if_neg hlt)

/-- Without a free node nothing is inserted. -/
theorem run_insertDelay_full (h : s.Lists l []) :
    (insertDelay n wake ID).run s = .ok false s := by
  have hfree : s.delaydFree_h = .null := h.free
  simp [insertDelay, allocDelayd, hfree]

/-- The node `new` has been taken from the free list and filled in. -/
def Adl.filled (s : Adl ι) (new : ι) (wake ID : Word) : Adl ι where
  d_next := Function.update s.d_next new .null
  d_wakeTime := Function.update s.d_wakeTime new wake
  d_asid := Function.update s.d_asid new ID
  delaydFree_h := s.d_next new
  activeDelayd_h := s.activeDelayd_h

theorem request_filled (s : Adl ι) (new : ι) (wake ID : Word) :
    (s.filled new wake ID).request new = (wake.toInt, ID) ∧
    ∀ x ≠ new, (s.filled new wake ID).request x = s.request x := by
  refine ⟨by simp [Adl.request, Adl.filled], fun x hx => ?_⟩
  simp [Adl.request, Adl.filled, Function.update_of_ne hx]

/-- A first node. -/
theorem run_insertDelay_empty (hfree : s.delaydFree_h = .to new) (hactive : s.activeDelayd_h = .null) :
    (insertDelay n wake ID).run s =
      .ok true { s.filled new wake ID with activeDelayd_h := .to new } := by
  simp [insertDelay, allocDelayd, hfree, derefNode, hactive, Adl.putNext, Adl.filled]

/-- A node behind the one that the search finds. -/
theorem run_insertDelay_behind {w : ι} (hfree : s.delaydFree_h = .to new)
    (hactive : s.activeDelayd_h = .to x)
    (hsearch : (searchDelaydFrom wake n (.to x)).run (s.filled new wake ID) =
      .ok (.to w) (s.filled new wake ID)) :
    (insertDelay n wake ID).run s = .ok true
      (((s.filled new wake ID).putNext new ((s.filled new wake ID).d_next w)).putNext w (.to new)) := by
  have halloc : allocDelayd.run s = .ok (.to new)
      { s with delaydFree_h := s.d_next new, d_next := Function.update s.d_next new .null } := by
    simp [allocDelayd, hfree, derefNode, Adl.putNext]
  have hfind : (searchDelayd n wake).run (s.filled new wake ID) =
      .ok (.to w) (s.filled new wake ID) := by
    rw [searchDelayd, run_bind_get]
    rw [show (s.filled new wake ID).activeDelayd_h = .to x from hactive]
    exact hsearch
  rw [insertDelay, run_bind_ok halloc]
  dsimp only
  rw [run_bind_modify, run_bind_get]
  dsimp only
  rw [if_neg (by simp [hactive])]
  exact (run_bind_ok hfind).trans run_bind_derefNode

/-- Where `insertDelay` puts a node: behind the head even if its time is earlier. -/
def Adl.insertNode (s : Adl ι) (wake : Word) (new : ι) : List ι → List ι
  | [] => [new]
  | x :: l => x :: (l.takeWhile fun y => (s.request y).1 < wake.toInt) ++
      new :: l.dropWhile fun y => (s.request y).1 < wake.toInt

omit [DecidableEq ι] in
theorem insertNode_perm (s : Adl ι) (wake : Word) (new : ι) (l : List ι) :
    (s.insertNode wake new l).Perm (new :: l) := by
  cases l with
  | nil => exact List.Perm.refl _
  | cons x l =>
    have hsplit := List.takeWhile_append_dropWhile (p := fun y => (s.request y).1 < wake.toInt)
      (l := l)
    unfold Adl.insertNode
    conv_rhs => rw [← hsplit, ← List.cons_append]
    exact List.perm_middle

omit [DecidableEq ι] in
theorem takeWhile_congr {p q : ι → Bool} (h : ∀ x ∈ l, p x = q x) :
    l.takeWhile p = l.takeWhile q := by
  induction l with
  | nil => rfl
  | cons x l ih =>
    rw [List.takeWhile_cons, List.takeWhile_cons, h x List.mem_cons_self,
      ih fun y hy => h y (List.mem_cons_of_mem x hy)]

/-- The first free node is filled in and linked into the list. -/
theorem insertDelay_spec (wake ID : Word) (h : s.Lists l (new :: avail)) :
    ∃ s', Returns (fun n => insertDelay n wake ID) s true s' ∧
      s'.Lists (s.insertNode wake new l) avail ∧
      s'.request new = (wake.toInt, ID) ∧ ∀ x ≠ new, s'.request x = s.request x := by
  obtain ⟨hactive, ⟨hhead, hfree⟩, hnodup⟩ := h
  have hparts := List.nodup_append.mp hnodup
  have hnewl : new ∉ l := fun hmem => hparts.2.2 new hmem new List.mem_cons_self rfl
  have hnewavail : new ∉ avail := (List.nodup_cons.mp hparts.2.1).1
  have hnodup' : (s.insertNode wake new l ++ avail).Nodup := by
    refine (List.Perm.nodup_iff ?_).mp hnodup
    exact List.perm_middle.trans ((insertNode_perm s wake new l).symm.append_right avail)
  obtain ⟨hreq, hothers⟩ := request_filled s new wake ID
  have hfree' : Segment (s.filled new wake ID).d_next (s.d_next new) avail .null := by
    refine hfree.congr fun y hy => Function.update_of_ne (ne_of_mem_of_not_mem hy hnewavail) _ _
  cases l with
  | nil =>
    refine ⟨_, ⟨0, fun n _ => run_insertDelay_empty hhead hactive⟩, ⟨?_, hfree', hnodup'⟩,
      hreq, hothers⟩
    exact ⟨rfl, Function.update_self _ _ _⟩
  | cons x l =>
    have hx : s.activeDelayd_h = .to x := hactive.1
    have hseg : Segment (s.filled new wake ID).d_next (.to x) (x :: l) .null := by
      have hcopy : Segment (s.filled new wake ID).d_next _ (x :: l) .null := hactive.congr
        fun y hy => Function.update_of_ne (ne_of_mem_of_not_mem hy hnewl) _ _
      rwa [hx] at hcopy
    have hsame : ∀ y ∈ l, (s.filled new wake ID).request y = s.request y :=
      fun y hy => hothers y (ne_of_mem_of_not_mem (List.mem_cons_of_mem x hy) hnewl)
    have htake := takeWhile_congr (l := l)
      (p := fun y => ((s.filled new wake ID).request y).1 < wake.toInt)
      (q := fun y => (s.request y).1 < wake.toInt) fun y hy => by rw [hsame y hy]
    obtain ⟨c, w, hcw, need, hsearch⟩ := run_searchDelaydFrom wake hseg
    rw [htake] at hcw
    refine ⟨_, ⟨need, fun n hn => run_insertDelay_behind hhead hx (hsearch n hn)⟩,
      ⟨?_, ?_, hnodup'⟩, hreq, hothers⟩
    · have hsplit : x :: l = c ++ w :: l.dropWhile fun y => (s.request y).1 < wake.toInt := by
        rw [List.append_cons c w, ← hcw, List.cons_append, List.takeWhile_append_dropWhile]
      have hinsert : s.insertNode wake new (x :: l) =
          c ++ w :: new :: l.dropWhile fun y => (s.request y).1 < wake.toInt := by
        show (x :: l.takeWhile fun y => (s.request y).1 < wake.toInt) ++ _ = _
        rw [hcw, List.append_assoc]
        rfl
      rw [hinsert]
      rw [hsplit] at hseg hparts hnewl
      have hlinked := hseg.insert hparts.1 hnewl
      rw [← hx] at hlinked
      exact hlinked
    · have hw : w ∈ x :: l := by
        have hmem : w ∈ c ++ [w] := by simp
        rw [← hcw] at hmem
        rcases List.mem_cons.mp hmem with rfl | hmem
        · exact List.mem_cons_self
        · exact List.mem_cons_of_mem x (List.takeWhile_subset _ hmem)
      refine hfree'.congr fun y hy => ?_
      have hyw : y ≠ w := fun heq => hparts.2.2 w hw y (List.mem_cons_of_mem new hy) heq.symm
      have hynew : y ≠ new := ne_of_mem_of_not_mem hy hnewavail
      simp only [Adl.putNext]
      rw [Function.update_of_ne hyw, Function.update_of_ne hynew]

/-- The first node is taken off the list. It becomes free unless nothing is free. -/
theorem removeDelay_spec (h : s.Lists (x :: l) avail) :
    ∃ s' avail', removeDelay.run s = .ok (s.d_asid x) s' ∧ s'.Lists l avail' ∧
      s'.request = s.request := by
  obtain ⟨⟨hhead, hactive⟩, hfree, hnodup⟩ := h
  have hparts := List.nodup_cons.mp hnodup
  have hsame : ∀ (v : Ptr ι), ∀ y ∈ l ++ avail,
      Function.update (Function.update s.d_next x .null) x v y = s.d_next y := by
    intro v y hy
    have hyx : y ≠ x := ne_of_mem_of_not_mem hy hparts.1
    rw [Function.update_of_ne hyx, Function.update_of_ne hyx]
  cases avail with
  | nil =>
    have hempty : s.delaydFree_h = .null := hfree
    refine ⟨{ s with activeDelayd_h := s.d_next x, d_next := Function.update s.d_next x .null }, [],
      ?_, ⟨?_, hfree, hparts.2⟩, rfl⟩
    · simp [removeDelay, hhead, derefNode, freeDelayd, Adl.putNext, hempty]
    · refine hactive.congr fun y hy => Function.update_of_ne ?_ _ _
      exact ne_of_mem_of_not_mem (List.mem_append_left _ hy) hparts.1
  | cons z avail =>
    have hz : s.delaydFree_h = .to z := hfree.1
    refine ⟨{ s with
        activeDelayd_h := s.d_next x
        d_next := Function.update (Function.update s.d_next x .null) x (.to z)
        delaydFree_h := .to x }, x :: z :: avail, ?_, ⟨?_, ⟨rfl, ?_⟩, ?_⟩, rfl⟩
    · simp [removeDelay, hhead, derefNode, freeDelayd, Adl.putNext, hz]
    · exact hactive.congr fun y hy => hsame _ y (List.mem_append_left _ hy)
    · dsimp only
      rw [Function.update_self, ← hz]
      exact hfree.congr fun y hy => hsame _ y (List.mem_append_right _ hy)
    · exact List.perm_middle.nodup_iff.mpr hnodup

/-- Wake times and processes are never the mark of an empty list. -/
def Adl.Marked (s : Adl ι) (l : List ι) : Prop :=
  ∀ x ∈ l, 0 ≤ (s.request x).1 ∧ 0 < (s.request x).2.toInt

/-- The daemon wakes the processes at the front of the list whose time has come. -/
theorem wakeSleepers_spec (theClock : Word) (h : s.Lists l avail) (hmarked : s.Marked l) :
    ∃ s' avail', Returns (wakeSleepers theClock) s
        ((l.takeWhile fun x => (s.request x).1 ≤ theClock.toInt).map s.d_asid) s' ∧
      s'.Lists (l.dropWhile fun x => (s.request x).1 ≤ theClock.toInt) avail' ∧
      s'.request = s.request := by
  induction l generalizing s avail with
  | nil =>
    refine ⟨s, avail, ⟨1, fun n hn => ?_⟩, h, rfl⟩
    obtain ⟨n, rfl⟩ := Nat.exists_eq_succ_of_ne_zero (Nat.ne_zero_of_lt hn)
    have hempty : s.activeDelayd_h = .null := h.active
    have hhead : headDelayTime.run s = .ok FAILURE s := by simp [headDelayTime, hempty]
    rw [wakeSleepers, run_bind_ok hhead, run_bind_ok hhead, if_neg (by simp)]
    rfl
  | cons x l ih =>
    have hhead : headDelayTime.run s = .ok (s.d_wakeTime x) s := by
      simp [headDelayTime, h.active.1, derefNode]
    obtain ⟨htime, hid⟩ := hmarked x List.mem_cons_self
    by_cases hdue : (s.request x).1 ≤ theClock.toInt
    · have hne : s.d_wakeTime x ≠ FAILURE := by
        intro heq
        simp only [Adl.request, heq] at htime
        exact absurd htime (by decide)
      have hne' : s.d_asid x ≠ FAILURE := by
        intro heq
        simp only [Adl.request, heq] at hid
        exact absurd hid (by decide)
      obtain ⟨s₁, avail₁, hrun₁, hlists₁, hreq₁⟩ := removeDelay_spec h
      have hasid : s₁.d_asid = s.d_asid := by
        funext y
        exact congrArg Prod.snd (congrFun hreq₁ y)
      rw [List.takeWhile_cons_of_pos (by simpa using hdue),
        List.dropWhile_cons_of_pos (by simpa using hdue)]
      obtain ⟨s', avail', ⟨need, hrun⟩, hlists, hreq⟩ := ih (s := s₁) hlists₁
        fun y hy => by rw [hreq₁]; exact hmarked y (List.mem_cons_of_mem x hy)
      rw [hreq₁, hasid] at hrun
      rw [hreq₁] at hlists
      refine ⟨s', avail', ⟨need + 1, fun n hn => ?_⟩, hlists, hreq.trans hreq₁⟩
      obtain ⟨n, rfl⟩ := Nat.exists_eq_succ_of_ne_zero (Nat.ne_zero_of_lt hn)
      rw [wakeSleepers, run_bind_ok hhead, run_bind_ok hhead, if_pos ⟨hdue, hne⟩,
        run_bind_ok hrun₁, if_neg hne', run_bind_ok (hrun n (Nat.le_of_succ_le_succ hn))]
      rfl
    · rw [List.takeWhile_cons_of_neg (by simpa using hdue),
        List.dropWhile_cons_of_neg (by simpa using hdue)]
      refine ⟨s, avail, ⟨1, fun n hn => ?_⟩, h, rfl⟩
      obtain ⟨n, rfl⟩ := Nat.exists_eq_succ_of_ne_zero (Nat.ne_zero_of_lt hn)
      rw [wakeSleepers, run_bind_ok hhead, run_bind_ok hhead, if_neg fun hboth => hdue hboth.1]
      rfl

theorem searchDelaydFrom_within {n : Nat} {wake : Word} {p : Ptr ι} :
    Within (searchDelaydFrom wake n p) (searchDelaydFrom (ι := ι) wake (n + 1) p) := by
  induction n generalizing p with
  | zero => exact .throw
  | succ n ih =>
    refine .bind .refl fun s => .bind .refl fun x => .ite ?_ .refl
    exact .bind .refl fun s => .bind .refl fun y => .ite ih .refl

/-- An insertion that has an answer has it with any larger bound on the steps. -/
theorem returns_insertDelay {n : Nat} {wakeTime ID : Word} {accepted : Bool}
    (h : (insertDelay n wakeTime ID).run s = .ok accepted s') :
    Returns (fun n => insertDelay n wakeTime ID) s accepted s' := by
  refine .of_within (fun n => ?_) h
  refine .bind .refl fun new => ?_
  rcases new with - | - | new
  · exact .refl
  · exact .refl
  · refine .bind .refl fun _ => .bind .refl fun s => .ite .refl ?_
    exact .bind (.bind .refl fun s => searchDelaydFrom_within) fun p => .refl

end Kaya
