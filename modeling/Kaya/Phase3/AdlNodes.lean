import Kaya.Phase3.Delay

open Links Exec

namespace Kaya

/-- The nodes of `delayTable`. -/
abbrev Did : Type := Fin (MAXPROC + 1)

/-- A call on the delay list with what it has answered. -/
inductive AdlEvent where
  | insertDelay (wakeTime ID : Word) (accepted : Bool)
  | removeDelay (answer : Word)

/-- `initADL`, and then one call after the other. -/
def adlSystem : System (Adl Did) AdlEvent where
  init s := ∃ s₀, (initADL (List.finRange (MAXPROC + 1))).run s₀ = .ok () s
  step s e s' := match e with
    | .insertDelay wakeTime ID accepted => Returns (fun n => insertDelay n wakeTime ID) s accepted s'
    | .removeDelay answer => removeDelay.run s = .ok answer s'

/-- Every node of the table is on exactly one of the two lists, and a request is
accepted exactly when fewer than all nodes are in use; otherwise nothing changes. -/
structure Adl.Conserves (s : Adl Did) (nodes avail : List Did) : Prop where
  lists : s.Lists nodes avail
  all : (nodes ++ avail).Perm (List.finRange (MAXPROC + 1))
  inserts : ∀ wakeTime ID, ∃ s', Returns (fun n => insertDelay n wakeTime ID) s
    (decide (nodes.length < MAXPROC + 1)) s' ∧ (¬ nodes.length < MAXPROC + 1 → s' = s)

variable {ι : Type} [DecidableEq ι] {s : Adl ι} {t : Adl Did}

omit [DecidableEq ι] in
/-- Both lists are empty. -/
theorem lists_nil_iff : s.Lists [] [] ↔ s.activeDelayd_h = .null ∧ s.delaydFree_h = .null :=
  ⟨fun h => ⟨h.active, h.free⟩, fun h => ⟨h.1, h.2, List.nodup_nil⟩⟩

/-- An empty free list stays empty when a node is freed. -/
theorem run_freeDelayd_empty {delay : Ptr ι} (h : s.delaydFree_h = .null) :
    (freeDelayd delay).run s = .ok () s := by
  have hsame : { s with delaydFree_h := .null } = s := by rw [← h]
  simp [freeDelayd, h, hsame]

/-- `initADL` forgets all nodes. -/
theorem initADL_spec (delayTable : List ι) (s : Adl ι) :
    ∃ s', (initADL delayTable).run s = .ok () s' ∧ s'.Lists [] [] := by
  have hloop : ∀ {s : Adl ι}, s.delaydFree_h = .null →
      (delayTable.forM fun x => freeDelayd (.to x)).run s = .ok () s := by
    induction delayTable with
    | nil => exact fun _ => rfl
    | cons x l ih =>
      intro s h
      exact (run_bind_ok (run_freeDelayd_empty h)).trans (ih h)
  refine ⟨{ s with delaydFree_h := .null, activeDelayd_h := .null }, ?_, lists_nil_iff.mpr ⟨rfl, rfl⟩⟩
  exact hloop rfl

theorem run_removeDelay_empty (h : s.Lists [] []) : removeDelay.run s = .ok FAILURE s := by
  have hactive := (lists_nil_iff.mp h).1
  simp [removeDelay, hactive]

theorem run_headDelayTime_empty (h : s.Lists [] []) : headDelayTime.run s = .ok FAILURE s := by
  have hactive := (lists_nil_iff.mp h).1
  simp [headDelayTime, hactive]

theorem adlSystem_init (hinit : adlSystem.init t) : t.Lists [] [] := by
  obtain ⟨s₀, hrun⟩ := hinit
  obtain ⟨s', hrun', hlists⟩ := initADL_spec (List.finRange (MAXPROC + 1)) s₀
  obtain ⟨-, rfl⟩ : () = () ∧ t = s' := by simpa using hrun.symm.trans hrun'
  exact hlists

/-- No call finds a node. -/
theorem reachable_adl (ht : adlSystem.Reachable t) : t.Lists [] [] := by
  refine ht.invariant (I := fun t => t.Lists [] []) (fun _ => adlSystem_init) fun s e s' h hstep => ?_
  cases e with
  | insertDelay wakeTime ID accepted =>
    obtain ⟨-, rfl⟩ := Returns.unique hstep ⟨0, fun _ _ => run_insertDelay_full h⟩
    exact h
  | removeDelay answer =>
    obtain ⟨-, rfl⟩ : answer = FAILURE ∧ s' = s := by
      simpa using hstep.symm.trans (run_removeDelay_empty h)
    exact h

/-- Where both lists are empty all nodes are lost. -/
theorem Adl.Lists.not_conserves (hempty : t.Lists [] []) :
    ¬ ∃ nodes avail, t.Conserves nodes avail := by
  rintro ⟨nodes, avail, hlists, hall, -⟩
  have hnodes : nodes = [] := hlists.active.unique hempty.active
  have havail : avail = [] := hlists.free.unique hempty.free
  subst hnodes havail
  exact absurd hall.length_eq (by simp [MAXPROC])

/-- In no reachable state are all nodes on the lists: there are none, and no request
is ever accepted. -/
theorem adl_loses_nodes (ht : adlSystem.Reachable t) :
    (¬ ∃ nodes avail, t.Conserves nodes avail) ∧ t.Lists [] [] ∧
      ∀ wakeTime ID, Returns (fun n => insertDelay n wakeTime ID) t false t := by
  have hempty := reachable_adl ht
  exact ⟨hempty.not_conserves, hempty, fun wakeTime ID =>
    ⟨0, fun _ _ => run_insertDelay_full hempty⟩⟩

/-- The list as `initADL` leaves it. -/
def adlStart : Adl Did :=
  match (initADL (List.finRange (MAXPROC + 1))).run
    ⟨fun _ => .zero, fun _ => 0, fun _ => 0, .zero, .zero⟩ with
  | .ok _ t => t
  | .error _ t => t

theorem adlStart_init : adlSystem.init adlStart := by
  obtain ⟨t, hrun, -⟩ := initADL_spec (List.finRange (MAXPROC + 1))
    (⟨fun _ => .zero, fun _ => 0, fun _ => 0, .zero, .zero⟩ : Adl Did)
  refine ⟨_, hrun.trans ?_⟩
  rw [adlStart, hrun]

theorem adl_loses_nodes_start : ∃ t, adlSystem.init t ∧
    (¬ ∃ nodes avail, t.Conserves nodes avail) ∧
      Returns (fun n => insertDelay n 1000000 1) t false t := by
  obtain ⟨hlost, -, hfails⟩ := adl_loses_nodes (.init adlStart_init)
  exact ⟨adlStart, adlStart_init, hlost, hfails 1000000 1⟩

/-- After `initADL` both lists are empty. -/
theorem not_always_conserves : ¬ ∀ t : Adl Did, adlSystem.Reachable t →
    ∃ nodes avail, t.Conserves nodes avail := by
  intro hall
  exact (adlSystem_init adlStart_init).not_conserves (hall adlStart (.init adlStart_init))

end Kaya
