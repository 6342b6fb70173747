import Kaya.Exec.Script
import Kaya.Phase3.AvslLists
import Mathlib.Data.Fintype.Card

open Links Exec

namespace Kaya

/-- The nodes of `vSemTable`. -/
abbrev Vid : Type := Fin (MAXPROC + 1)

/-- The nodes in use, head first, found by following the links. -/
def Avsl.nodes (s : Avsl Vid) : List Vid :=
  match s.vSem_h with
  | .to x => ringList s.v_next (MAXPROC + 1) (s.v_prev x)
  | _ => []

/-- The semaphores and processes that wait, in the order of the list. -/
def Avsl.waiters (s : Avsl Vid) : List (Word × Word) := s.nodes.map s.entry

/-- A call with what it has answered. -/
inductive AvslEvent where
  | vInsertBlocked (vSemAdd ID : Word) (accepted : Bool)
  | vRemoveBlocked (vSemAdd answer : Word)

/-- `initAVSL`, and then one call after the other. -/
def avslSystem : System (Avsl Vid) AvslEvent where
  init s := ∃ s₀, (initAVSL (List.finRange (MAXPROC + 1))).run s₀ = .ok () s
  step s e s' := match e with
    | .vInsertBlocked vSemAdd ID accepted => (vInsertBlocked vSemAdd ID).run s = .ok accepted s'
    | .vRemoveBlocked vSemAdd answer => Returns (fun n => vRemoveBlocked n vSemAdd) s answer s'

/-- The insertions of a run that still wait if each removal has ended the earliest
one for its semaphore. -/
def stillWaiting : List (Avsl Vid × AvslEvent) → List (Word × Word)
  | [] => []
  | (_, .vInsertBlocked vSemAdd ID accepted) :: l =>
    if accepted then stillWaiting l ++ [(vSemAdd, ID)] else stillWaiting l
  | (_, .vRemoveBlocked vSemAdd _) :: l => (stillWaiting l).eraseP (·.1 = vSemAdd)

/-- `vRemoveBlocked` removes the earliest entry for the semaphore, and answers its
process; without one it answers `FALSE` and changes nothing. -/
def Avsl.RemovesEarliest (s : Avsl Vid) (vSemAdd : Word) : Prop :=
  match s.waiters.find? (·.1 = vSemAdd) with
  | some e => ∃ s', Returns (fun n => vRemoveBlocked n vSemAdd) s e.2 s' ∧
      s'.waiters = s.waiters.eraseP (·.1 = vSemAdd)
  | none => Returns (fun n => vRemoveBlocked n vSemAdd) s 0 s

/-- The first entry is for the semaphore, and another one comes behind it. -/
def Avsl.MissesHead (s : Avsl Vid) (vSemAdd : Word) : Prop :=
  ∃ x y rest, s.waiters = x :: y :: rest ∧ x.1 = vSemAdd ∧ y ≠ x

instance (s : Avsl Vid) (vSemAdd : Word) : Decidable (s.MissesHead vSemAdd) :=
  match h : s.waiters with
  | x :: y :: rest => decidable_of_iff (x.1 = vSemAdd ∧ y ≠ x)
      ⟨fun hxy => ⟨x, y, rest, h, hxy⟩, fun ⟨x', y', rest', h', hxy⟩ => by
        obtain ⟨rfl, rfl, -⟩ : x = x' ∧ y = y' ∧ rest = rest' := by simpa using h.symm.trans h'
        exact hxy⟩
  | [] => isFalse fun ⟨_, _, _, h', _⟩ => absurd (h.symm.trans h') (by simp)
  | [_] => isFalse fun ⟨_, _, _, h', _⟩ => absurd (h.symm.trans h') (by simp)

/-- No removal is for the semaphore of a head that it misses. -/
def FindsHead (s : Avsl Vid) (e : AvslEvent) (_ : Avsl Vid) : Prop :=
  match e with
  | .vInsertBlocked _ _ _ => True
  | .vRemoveBlocked vSemAdd _ => ¬ s.MissesHead vSemAdd

instance (s : Avsl Vid) (e : AvslEvent) (s' : Avsl Vid) : Decidable (FindsHead s e s') :=
  match e with
  | .vInsertBlocked _ _ _ => .isTrue trivial
  | .vRemoveBlocked _ _ => inferInstanceAs (Decidable (¬ _))

variable {s s' : Avsl Vid} {l avail : List Vid} {vSemAdd ID : Word}

theorem Avsl.Lists.nodes_eq (h : s.Lists l avail) : s.nodes = l := by
  unfold Avsl.nodes
  rw [h.head]
  cases l with
  | nil => rfl
  | cons t l =>
    obtain ⟨m, y, hm⟩ := List.eq_nil_or_concat (t :: l) |>.resolve_left (by simp)
    have hlast : tailPtr (t :: l) = .to y := by simp [hm]
    obtain ⟨-, hprev⟩ := h.ring.tail_head hlast
    rw [headPtr_cons]
    dsimp only
    rw [hprev, ← hlast]
    exact h.ring.ringList_eq (by simpa using h.ring.nodup.length_le_card)

theorem Avsl.Lists.waiters_eq (h : s.Lists l avail) : s.waiters = l.map s.entry := by
  rw [Avsl.waiters, h.nodes_eq]

/-- All nodes are in one of the two lists. -/
structure Avsl.Inv (s : Avsl Vid) (l avail : List Vid) : Prop where
  lists : s.Lists l avail
  length : l.length + avail.length = MAXPROC + 1

theorem Avsl.Inv.full_iff (h : s.Inv l avail) :
    avail = [] ↔ ¬ s.waiters.length < MAXPROC + 1 := by
  have hlength := h.length
  rw [h.lists.waiters_eq, List.length_map, ← List.length_eq_zero_iff]
  omega

/-- An insertion goes to the end, unless all nodes are in use. -/
theorem Avsl.Inv.insert (vSemAdd ID : Word) (h : s.Inv l avail) : ∃ s' l' avail',
    (vInsertBlocked vSemAdd ID).run s = .ok (decide (s.waiters.length < MAXPROC + 1)) s' ∧
      s'.Inv l' avail' ∧ s'.waiters =
        if s.waiters.length < MAXPROC + 1 then s.waiters ++ [(vSemAdd, ID)] else s.waiters := by
  cases avail with
  | nil =>
    have hfull := h.full_iff.mp rfl
    rw [if_neg hfull, decide_eq_false hfull]
    exact ⟨s, l, [], run_vInsertBlocked_full h.lists, h, rfl⟩
  | cons new avail =>
    have hroom : s.waiters.length < MAXPROC + 1 := by
      by_contra hfull
      exact absurd (h.full_iff.mpr hfull) (by simp)
    obtain ⟨s', hrun, hlists, hentry, hothers⟩ := vInsertBlocked_spec vSemAdd ID h.lists
    have hlength := h.length
    rw [if_pos hroom, decide_eq_true hroom]
    refine ⟨s', l ++ [new], avail, hrun, ⟨hlists, ?_⟩, ?_⟩
    · rw [List.length_append, List.length_singleton]
      rw [List.length_cons] at hlength
      omega
    · have hnew : new ∉ l := fun hmem =>
        (List.nodup_append.mp h.lists.nodup).2.2 new hmem new List.mem_cons_self rfl
      have hsame : l.map s'.entry = l.map s.entry :=
        List.map_congr_left fun x hx => hothers x (ne_of_mem_of_not_mem hx hnew)
      rw [hlists.waiters_eq, h.lists.waiters_eq, List.map_append, List.map_singleton, hentry, hsame]

/-- Where the head is for the semaphore and not alone, the entry behind it goes. -/
theorem Avsl.Inv.remove_head {x y : Word × Word} {rest : List (Word × Word)} (h : s.Inv l avail)
    (hwait : s.waiters = x :: y :: rest) : ∃ s' l' avail',
    Returns (fun n => vRemoveBlocked n x.1) s y.2 s' ∧ s'.Inv l' avail' ∧
      s'.waiters = x :: rest := by
  obtain ⟨hlists, hlength⟩ := h
  rw [hlists.waiters_eq] at hwait
  obtain ⟨t, l, rfl, rfl, hl⟩ := List.map_eq_cons_iff.mp hwait
  obtain ⟨z, l, rfl, rfl, rfl⟩ := List.map_eq_cons_iff.mp hl
  obtain ⟨s', hret, hlists', hentry⟩ := vRemoveBlocked_head hlists rfl
  refine ⟨s', _, _, hret, ⟨hlists', ?_⟩, ?_⟩
  · simp only [List.length_cons] at hlength ⊢
    omega
  · rw [hlists'.waiters_eq, hentry, List.map_cons]

/-- Otherwise the earliest entry for the semaphore goes. -/
theorem Avsl.Inv.remove (h : s.Inv l avail)
    (hhead : ∀ x y rest, s.waiters = x :: y :: rest → x.1 ≠ vSemAdd) : ∃ answer s' l' avail',
    Returns (fun n => vRemoveBlocked n vSemAdd) s answer s' ∧ s'.Inv l' avail' ∧
      s'.waiters = s.waiters.eraseP (·.1 = vSemAdd) ∧
      match s.waiters.find? (·.1 = vSemAdd) with
      | some e => answer = e.2
      | none => answer = 0 ∧ s' = s := by
  obtain ⟨hlists, hlength⟩ := h
  rw [hlists.waiters_eq] at hhead ⊢
  have hfind : (l.map s.entry).find? (·.1 = vSemAdd) =
      (l.find? (s.v_sem · = vSemAdd)).map s.entry := List.find?_map
  rw [hfind]
  cases hl : l.find? (s.v_sem · = vSemAdd) with
  | none =>
    have hnone : ∀ x ∈ l, s.v_sem x ≠ vSemAdd := by simpa using List.find?_eq_none.mp hl
    refine ⟨0, s, l, avail, vRemoveBlocked_none hlists hnone, ⟨hlists, hlength⟩, ?_, rfl, rfl⟩
    rw [hlists.waiters_eq, List.eraseP_of_forall_not]
    simpa [Avsl.entry] using hnone
  | some x =>
    obtain ⟨hsem, a, b, rfl, hbefore⟩ := List.find?_eq_some_iff_append.mp hl
    replace hsem : s.v_sem x = vSemAdd := by simpa using hsem
    replace hbefore : ∀ y ∈ a, s.v_sem y ≠ vSemAdd := by simpa using hbefore
    have herase : ((a ++ x :: b).map s.entry).eraseP (·.1 = vSemAdd) = (a ++ b).map s.entry := by
      rw [List.map_append, List.map_cons, List.eraseP_append_right _ (by simpa [Avsl.entry] using hbefore),
        List.eraseP_cons_of_pos (by simp [Avsl.entry, hsem]), List.map_append]
    rw [herase]
    have hremoved : ∃ s', Returns (fun n => vRemoveBlocked n vSemAdd) s (s.v_asid x) s' ∧
        s'.Lists (a ++ b) (x :: avail) ∧ s'.entry = s.entry := by
      cases a with
      | nil =>
        cases b with
        | nil => exact vRemoveBlocked_single hlists hsem
        | cons y b => exact absurd hsem (hhead _ _ _ rfl)
      | cons t a =>
        obtain ⟨ht, ha⟩ := List.forall_mem_cons.mp hbefore
        exact vRemoveBlocked_behind hlists ht ha hsem
    obtain ⟨s', hret, hlists', hentry⟩ := hremoved
    refine ⟨_, s', _, _, hret, ⟨hlists', ?_⟩, ?_, rfl⟩
    · simp only [List.length_append, List.length_cons] at hlength ⊢
      omega
    · rw [hlists'.waiters_eq, hentry]

/-- Whichever entry goes, the answer is its process. -/
theorem Avsl.Inv.removes (vSemAdd : Word) (h : s.Inv l avail) : ∃ answer s' l' avail',
    Returns (fun n => vRemoveBlocked n vSemAdd) s answer s' ∧ s'.Inv l' avail' ∧
      ((∃ e, e.2 = answer ∧ (e :: s'.waiters).Perm s.waiters) ∨ answer = 0 ∧ s' = s) := by
  by_cases hhead : ∀ x y rest, s.waiters = x :: y :: rest → x.1 ≠ vSemAdd
  · obtain ⟨answer, s', l', avail', hret, hinv, hwaiters, hanswer⟩ := h.remove hhead
    refine ⟨answer, s', l', avail', hret, hinv, ?_⟩
    cases hfind : s.waiters.find? (·.1 = vSemAdd) with
    | none =>
      rw [hfind] at hanswer
      exact .inr hanswer
    | some e =>
      rw [hfind] at hanswer
      refine .inl ⟨e, hanswer.symm, ?_⟩
      obtain ⟨hsem, a, b, hsplit, hbefore⟩ := List.find?_eq_some_iff_append.mp hfind
      rw [hwaiters, hsplit, List.eraseP_append_right _ (by simpa using hbefore),
        List.eraseP_cons_of_pos (by simpa using hsem)]
      exact List.perm_middle.symm
  · push Not at hhead
    obtain ⟨x, y, rest, hwait, rfl⟩ := hhead
    obtain ⟨s', l', avail', hret, hinv, hwaiters⟩ := h.remove_head hwait
    refine ⟨y.2, s', l', avail', hret, hinv, .inl ⟨y, rfl, ?_⟩⟩
    rw [hwaiters, hwait]
    exact List.Perm.swap x y rest

theorem Avsl.Inv.removesEarliest_iff (h : s.Inv l avail) :
    s.RemovesEarliest vSemAdd ↔ ¬ s.MissesHead vSemAdd := by
  by_cases hhead : ∀ x y rest, s.waiters = x :: y :: rest → x.1 ≠ vSemAdd
  · refine iff_of_true ?_ ?_
    · obtain ⟨answer, s', l', avail', hret, -, hwaiters, hanswer⟩ := h.remove hhead
      unfold Avsl.RemovesEarliest
      cases hfind : s.waiters.find? (·.1 = vSemAdd) with
      | none =>
        rw [hfind] at hanswer
        obtain ⟨rfl, rfl⟩ := hanswer
        exact hret
      | some e =>
        rw [hfind] at hanswer
        obtain rfl := hanswer
        exact ⟨s', hret, hwaiters⟩
    · rintro ⟨x, y, rest, hwait, hx, -⟩
      exact hhead x y rest hwait hx
  · push Not at hhead
    obtain ⟨x, y, rest, hwait, rfl⟩ := hhead
    obtain ⟨s', l', avail', hret, -, hwaiters⟩ := h.remove_head hwait
    have hmisses : s.MissesHead x.1 ↔ y ≠ x := by
      constructor
      · rintro ⟨x', y', rest', hwait', -, hne⟩
        rw [hwait] at hwait'
        obtain ⟨rfl, rfl, -⟩ : x = x' ∧ y = y' ∧ rest = rest' := by simpa using hwait'
        exact hne
      · exact fun hne => ⟨x, y, rest, hwait, rfl, hne⟩
    have hspec : s.RemovesEarliest x.1 ↔ ∃ s', Returns (fun n => vRemoveBlocked n x.1) s x.2 s' ∧
        s'.waiters = y :: rest := by
      unfold Avsl.RemovesEarliest
      rw [hwait, List.find?_cons_of_pos (by simp), List.eraseP_cons_of_pos (by simp)]
    rw [hmisses, hspec, not_not]
    constructor
    · rintro ⟨s'', hret', hwaiters'⟩
      obtain ⟨-, rfl⟩ := hret.unique hret'
      exact (List.cons.inj (hwaiters'.symm.trans hwaiters)).1
    · rintro rfl
      exact ⟨s', hret, hwaiters⟩

/-- A removal that removes the earliest entry leaves the others in their order. -/
theorem Avsl.RemovesEarliest.waiters {answer : Word} (h : s.RemovesEarliest vSemAdd)
    (hret : Returns (fun n => vRemoveBlocked n vSemAdd) s answer s') :
    s'.waiters = s.waiters.eraseP (·.1 = vSemAdd) := by
  unfold Avsl.RemovesEarliest at h
  cases hfind : s.waiters.find? (·.1 = vSemAdd) with
  | none =>
    rw [hfind] at h
    obtain ⟨-, rfl⟩ := hret.unique h
    rw [List.eraseP_of_forall_not]
    exact List.find?_eq_none.mp hfind
  | some e =>
    rw [hfind] at h
    obtain ⟨s'', hret', hwaiters⟩ := h
    obtain ⟨-, rfl⟩ := hret.unique hret'
    exact hwaiters

theorem avslSystem_init (hinit : avslSystem.init s) :
    s.Inv [] (List.finRange (MAXPROC + 1)).reverse := by
  obtain ⟨s₀, hrun⟩ := hinit
  obtain ⟨s', hrun', hlists⟩ := initAVSL_spec s₀ (List.nodup_finRange (MAXPROC + 1))
  obtain ⟨-, rfl⟩ : () = () ∧ s = s' := by simpa using hrun.symm.trans hrun'
  exact ⟨hlists, by simp⟩

theorem Avsl.Inv.step {e : AvslEvent} (h : s.Inv l avail) (hstep : avslSystem.step s e s') :
    ∃ l' avail', s'.Inv l' avail' := by
  cases e with
  | vInsertBlocked vSemAdd ID accepted =>
    obtain ⟨s'', l', avail', hrun, hinv, -⟩ := h.insert vSemAdd ID
    obtain ⟨-, rfl⟩ : accepted = _ ∧ s' = s'' := by simpa using hstep.symm.trans hrun
    exact ⟨l', avail', hinv⟩
  | vRemoveBlocked vSemAdd answer =>
    by_cases hhead : ∀ x y rest, s.waiters = x :: y :: rest → x.1 ≠ vSemAdd
    · obtain ⟨_, s'', l', avail', hret, hinv, -⟩ := h.remove hhead
      obtain ⟨-, rfl⟩ := Returns.unique hstep hret
      exact ⟨l', avail', hinv⟩
    · push Not at hhead
      obtain ⟨x, y, rest, hwait, rfl⟩ := hhead
      obtain ⟨s'', l', avail', hret, hinv, -⟩ := h.remove_head hwait
      obtain ⟨-, rfl⟩ := Returns.unique hstep hret
      exact ⟨l', avail', hinv⟩

theorem reachable_avsl (hs : avslSystem.Reachable s) : ∃ l avail, s.Inv l avail :=
  hs.invariant (I := fun s => ∃ l avail, s.Inv l avail)
    (fun _ hinit => ⟨_, _, avslSystem_init hinit⟩) fun _ _ _ ⟨_, _, h⟩ hstep => h.step hstep

theorem Avsl.Inv.perm (h : s.Inv l avail) :
    (l ++ avail).Perm (List.finRange (MAXPROC + 1)) := by
  have hsub : (l ++ avail).Subperm (List.finRange (MAXPROC + 1)) :=
    List.subperm_of_subset h.lists.nodup fun x _ => List.mem_finRange x
  refine hsub.perm_of_length_le ?_
  rw [List.length_finRange, List.length_append, h.length]

/-- Without a free descriptor an insertion answers `FALSE` and changes nothing. -/
theorem Avsl.Inv.run_full (h : s.Inv l avail) (hfree : s.vSemFree_h = .null) :
    (vInsertBlocked vSemAdd ID).run s = .ok false s := by
  have hnil : avail = [] := by
    cases avail with
    | nil => rfl
    | cons x avail => exact absurd (hfree.symm.trans h.lists.free.1) nofun
  subst hnil
  exact run_vInsertBlocked_full h.lists

/-- Every descriptor is either on the free list or once in the ring behind `vSem_h`,
every call comes back, and an insertion fails exactly without a free descriptor. -/
theorem avsl_partition (hs : avslSystem.Reachable s) :
    (∃ l avail, s.vSem_h = headPtr l ∧ Ring s.v_next s.v_prev (tailPtr l) l ∧
      Segment s.v_next s.vSemFree_h avail .null ∧
      (l ++ avail).Perm (List.finRange (MAXPROC + 1)) ∧ (l = [] ↔ s.vSem_h = .null)) ∧
    (∀ vSemAdd, ∃ answer s', Returns (fun n => vRemoveBlocked n vSemAdd) s answer s') ∧
    ∀ vSemAdd ID, ∃ s', (vInsertBlocked vSemAdd ID).run s = .ok (s.vSemFree_h ≠ .null) s' ∧
      (s.vSemFree_h = .null → s' = s) := by
  obtain ⟨l, avail, h⟩ := reachable_avsl hs
  refine ⟨⟨l, avail, h.lists.head, h.lists.ring, h.lists.free, h.perm, ?_⟩, ?_, ?_⟩
  · rw [h.lists.head]
    cases l <;> simp
  · intro vSemAdd
    obtain ⟨answer, s', -, -, hret, -⟩ := h.removes vSemAdd
    exact ⟨answer, s', hret⟩
  · intro vSemAdd ID
    by_cases hfree : s.vSemFree_h = .null
    · exact ⟨s, by simpa [hfree] using h.run_full hfree, fun _ => rfl⟩
    · obtain ⟨x, avail, rfl⟩ : ∃ x rest, avail = x :: rest := by
        cases avail with
        | nil => exact absurd h.lists.free hfree
        | cons x avail => exact ⟨x, avail, rfl⟩
      obtain ⟨s', hrun, -⟩ := vInsertBlocked_spec vSemAdd ID h.lists
      exact ⟨s', by simpa [hfree] using hrun, fun heq => absurd heq hfree⟩

/-- As long as no head is missed, the list holds the insertions that still wait. -/
theorem waiters_of_trace {l : List (Avsl Vid × AvslEvent)}
    (htrace : (avslSystem.restrict FindsHead).Trace l s) : s.waiters = stillWaiting l := by
  induction htrace with
  | init hinit => exact (avslSystem_init hinit).lists.waiters_eq
  | @step l s s' e htrace hstep ih =>
    obtain ⟨hstep, hfinds⟩ := hstep
    obtain ⟨nodes, avail, h⟩ := reachable_avsl (System.Reachable.of_restrict ⟨l, htrace⟩)
    cases e with
    | vInsertBlocked vSemAdd ID accepted =>
      obtain ⟨s'', -, -, hrun, -, hwaiters⟩ := h.insert vSemAdd ID
      obtain ⟨rfl, rfl⟩ := EStateM.Result.ok.inj (hstep.symm.trans hrun)
      rw [stillWaiting, hwaiters, ih]
      simp only [decide_eq_true_eq]
    | vRemoveBlocked vSemAdd answer =>
      rw [stillWaiting, (h.removesEarliest_iff.mpr hfinds).waiters hstep, ih]

/-- A removal is in order unless it misses the head; as long as none does, the list
holds the insertions that still wait, and takes another one if a node is free. -/
theorem avsl_fifo {l : List (Avsl Vid × AvslEvent)} {s : Avsl Vid} (vSemAdd : Word)
    (htrace : avslSystem.Trace l s) :
    (s.RemovesEarliest vSemAdd ↔ ¬ s.MissesHead vSemAdd) ∧
    ((avslSystem.restrict FindsHead).Trace l s → s.waiters = stillWaiting l ∧
      ∀ vSemAdd ID, ∃ s', (vInsertBlocked vSemAdd ID).run s =
        .ok (decide (s.waiters.length < MAXPROC + 1)) s') := by
  obtain ⟨nodes, avail, h⟩ := reachable_avsl ⟨l, htrace⟩
  refine ⟨h.removesEarliest_iff, fun hfinds => ⟨waiters_of_trace hfinds, fun vSemAdd ID => ?_⟩⟩
  obtain ⟨s', -, -, hrun, -⟩ := h.insert vSemAdd ID
  exact ⟨s', hrun⟩

theorem findVSem_within {head x : Vid} {n : Nat} :
    Within (findVSem vSemAdd head n x) (findVSem vSemAdd head (n + 1) x) := by
  induction n generalizing x with
  | zero => exact .throw
  | succ n ih =>
    exact .ite (.bind .refl fun s => .ite .refl (.bind .refl fun s => .bind .refl fun next => ih)) .refl

/-- A removal that has an answer has it with any larger bound on the steps. -/
theorem returns_vRemoveBlocked {n : Nat} {answer : Word}
    (h : (vRemoveBlocked n vSemAdd).run s = .ok answer s') :
    Returns (fun n => vRemoveBlocked n vSemAdd) s answer s' := by
  refine .of_within (fun n => ?_) h
  refine .bind .refl fun s => .ite .refl (.bind .refl fun s => .bind .refl fun head => ?_)
  refine .bind .refl fun s => .bind .refl fun next => .ite .refl (.bind .refl fun s => ?_)
  exact .ite .refl (.bind findVSem_within fun _ => .refl)

/-- The list as `initAVSL` leaves it. -/
def avslStart : Avsl Vid :=
  match (initAVSL (List.finRange (MAXPROC + 1))).run
    ⟨fun _ => .zero, fun _ => .zero, fun _ => 0, fun _ => 0, .zero, .zero⟩ with
  | .ok _ s => s
  | .error _ s => s

theorem avslStart_init : avslSystem.init avslStart := by
  obtain ⟨s, hrun, -⟩ := initAVSL_spec
    (⟨fun _ => .zero, fun _ => .zero, fun _ => 0, fun _ => 0, .zero, .zero⟩ : Avsl Vid)
    (List.nodup_finRange (MAXPROC + 1))
  refine ⟨_, hrun.trans ?_⟩
  rw [avslStart, hrun]

/-- What a call does, if it answers so. -/
def AvslEvent.next (s : Avsl Vid) : AvslEvent → Option (Avsl Vid)
  | .vInsertBlocked vSemAdd ID accepted =>
    match (Kaya.vInsertBlocked vSemAdd ID).run s with
    | .ok r s' => if r = accepted then some s' else none
    | .error _ _ => none
  | .vRemoveBlocked vSemAdd answer =>
    match (Kaya.vRemoveBlocked MAXPROC vSemAdd).run s with
    | .ok r s' => if r = answer then some s' else none
    | .error _ _ => none

theorem AvslEvent.step_of_next {e : AvslEvent} (h : e.next s = some s') :
    avslSystem.step s e s' := by
  cases e with
  | vInsertBlocked vSemAdd ID accepted =>
    simp only [AvslEvent.next] at h
    split at h
    · rename_i r s₁ hrun
      obtain ⟨rfl, heq⟩ := Option.ite_none_right_eq_some.mp h
      obtain rfl := Option.some.inj heq
      exact hrun
    · exact absurd h nofun
  | vRemoveBlocked vSemAdd answer =>
    simp only [AvslEvent.next] at h
    split at h
    · rename_i r s₁ hrun
      obtain ⟨rfl, heq⟩ := Option.ite_none_right_eq_some.mp h
      obtain rfl := Option.some.inj heq
      exact returns_vRemoveBlocked hrun
    · exact absurd h nofun

/-- Runs of the two calls. -/
def avslScript : Script (Avsl Vid) AvslEvent AvslEvent := .ofNext (fun _ e => e) fun s e => e.next s

theorem avslScript_follows : avslScript.Follows avslSystem :=
  Script.follows_ofNext fun _ _ _ => AvslEvent.step_of_next

/-- Four processes wait on three semaphores, and the two on the second one are woken. -/
def avslWakes : List AvslEvent :=
  [.vInsertBlocked 0x80000000 1 true, .vInsertBlocked 0x80000004 2 true,
    .vInsertBlocked 0x80000008 3 true, .vInsertBlocked 0x80000004 4 true,
    .vRemoveBlocked 0x80000004 2, .vRemoveBlocked 0x80000004 4]

def avslWoken : Avsl Vid := avslScript.play avslStart avslWakes

theorem avslWoken_trace : (avslSystem.restrict FindsHead).Trace
    ((avslScript.restrict FindsHead).history avslStart avslWakes []) avslWoken :=
  avslScript_follows.restrict.trace (.init avslStart_init) (by decide +kernel)

/-- Two nodes are in use. -/
theorem avsl_partition_small : avslWoken.waiters = [(0x80000000, 1), (0x80000008, 3)] ∧
    ∃ l avail, avslWoken.vSem_h = headPtr l ∧
      Ring avslWoken.v_next avslWoken.v_prev (tailPtr l) l ∧
      (l ++ avail).Perm (List.finRange (MAXPROC + 1)) := by
  have hreach : avslSystem.Reachable avslWoken := ⟨_, avslWoken_trace.of_restrict⟩
  obtain ⟨⟨l, avail, hhead, hring, -, hperm, -⟩, -⟩ := avsl_partition hreach
  exact ⟨by decide +kernel, l, avail, hhead, hring, hperm⟩

/-- The first process waits at the head of the list, and its semaphore is the only one whose
earliest entry would not be found. -/
theorem avsl_fifo_small : avslWoken.waiters = [(0x80000000, 1), (0x80000008, 3)] ∧
    ¬ avslWoken.RemovesEarliest 0x80000000 ∧ avslWoken.RemovesEarliest 0x80000008 ∧
    avslWoken.waiters =
      stillWaiting ((avslScript.restrict FindsHead).history avslStart avslWakes []) := by
  have htrace := avslWoken_trace
  have hfirst := (avsl_fifo 0x80000000 htrace.of_restrict).1
  obtain ⟨hthird, hwaiters⟩ := avsl_fifo 0x80000008 htrace.of_restrict
  refine ⟨by decide +kernel, fun hearliest => ?_, hthird.mpr (by decide +kernel), (hwaiters htrace).1⟩
  exact absurd (hfirst.mp hearliest) (by decide +kernel)

/-- Process 1 waits on one semaphore, process 2 on another: a removal for the first
answers 2. -/
theorem not_always_removesEarliest : ¬ ∀ (s : Avsl Vid) (vSemAdd : Word),
    avslSystem.Reachable s → s.RemovesEarliest vSemAdd := by
  intro hall
  have hreach : avslSystem.Reachable (avslScript.play avslStart
      [.vInsertBlocked 0x80000000 1 true, .vInsertBlocked 0x80000004 2 true]) :=
    avslScript_follows.reachable (.init avslStart_init) (by decide +kernel)
  obtain ⟨l, avail, h⟩ := reachable_avsl hreach
  exact h.removesEarliest_iff.mp (hall _ 0x80000000 hreach) (by decide +kernel)

end Kaya
