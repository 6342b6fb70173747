import Kaya.Exec.Script
import Kaya.Phase3.Delay

open Links Exec Timers

namespace Kaya

/-- A call of `insertDelay` with its result, or a round of `delayDaemon` with
the processes whose private semaphores it V's. -/
inductive DelayEvent where
  | insertDelay (wakeTime ID : Word) (accepted : Bool)
  | tick (theClock : Word) (woken : List Word)
  deriving DecidableEq

variable {ι : Type} [DecidableEq ι]

/-- The delay facility, with any free list. Wake times are not negative. -/
def delayFacility (ι : Type) [DecidableEq ι] : System (Adl ι) DelayEvent where
  init s := ∃ avail, s.Lists [] avail
  step s e s' := match e with
    | .insertDelay wakeTime ID accepted => 0 ≤ wakeTime.toInt ∧ 0 < ID.toInt ∧
        Returns (fun n => insertDelay n wakeTime ID) s accepted s'
    | .tick theClock woken => Returns (wakeSleepers theClock) s woken s'

/-- The accepted requests and the ticks of a run. -/
def DelayEvent.timerEvent : DelayEvent → Option (Timers.Event Int Word)
  | .insertDelay wakeTime ID true => some (.request wakeTime.toInt ID)
  | .insertDelay _ _ false => none
  | .tick theClock woken => some (.tick theClock.toInt woken)

def history (l : List (Adl ι × DelayEvent)) : List (Timers.Event Int Word) :=
  l.filterMap fun p => p.2.timerEvent

/-- Every tick of the run V's exactly the processes whose requests it is the
first tick late enough for; the list is sorted and holds the requests that wait;
and every further call returns. -/
structure DelaysKept (l : List (Adl ι × DelayEvent)) (s : Adl ι) : Prop where
  timely : Timely (history l)
  sorted : ∃ nodes, Segment s.d_next s.activeDelayd_h nodes .null ∧
    Sorted (nodes.map s.request) ∧ (nodes.map s.request).Perm (waiting (history l))
  inserts : ∀ wakeTime ID, ∃ accepted s', Returns (fun n => insertDelay n wakeTime ID) s accepted s'
  ticks : ∀ theClock, ∃ woken s', Returns (wakeSleepers theClock) s woken s'

/-- No request that is accepted has an earlier wake time than the first of the list. -/
def InOrder (s : Adl ι) (e : DelayEvent) (_ : Adl ι) : Prop :=
  match e with
  | .insertDelay wakeTime _ true =>
    ∀ x, s.activeDelayd_h = .to x → (s.d_wakeTime x).toInt ≤ wakeTime.toInt
  | _ => True

variable {s s' : Adl ι} {l : List (Adl ι × DelayEvent)} {nodes avail : List ι}
  {wakeTime ID theClock : Word}

/-- What a run of requests in order keeps. -/
structure DelayInv (l : List (Adl ι × DelayEvent)) (s : Adl ι) (nodes avail : List ι) : Prop where
  lists : s.Lists nodes avail
  marked : s.Marked nodes
  sorted : Sorted (nodes.map s.request)
  waits : (nodes.map s.request).Perm (waiting (history l))
  timely : Timely (history l)

omit [DecidableEq ι] in
/-- Putting a node in at a time that is not before the first keeps the order. -/
theorem sorted_insertNode {new : ι} (hsorted : Sorted (nodes.map s.request)) (hnew : new ∉ nodes)
    (hfirst : ∀ x l, nodes = x :: l → (s.request x).1 ≤ wakeTime.toInt)
    (hreq : s'.request new = (wakeTime.toInt, ID)) (hothers : ∀ x ≠ new, s'.request x = s.request x) :
    Sorted ((s.insertNode wakeTime new nodes).map s'.request) := by
  cases nodes with
  | nil => simp [Adl.insertNode, Sorted]
  | cons x l =>
    have hsame : ∀ m ⊆ l, m.map s'.request = m.map s.request := fun m hm =>
      List.map_congr_left fun y hy =>
        hothers y (ne_of_mem_of_not_mem (List.mem_cons_of_mem x (hm hy)) hnew)
    obtain ⟨hx, hl⟩ := List.pairwise_cons.mp hsorted
    have hlater : ∀ y ∈ (l.map s.request).takeWhile (·.1 < wakeTime.toInt) ++
        (wakeTime.toInt, ID) :: (l.map s.request).dropWhile (·.1 < wakeTime.toInt),
        (s.request x).1 ≤ y.1 := by
      intro y hy
      rcases List.mem_append.mp hy with hy | hy
      · exact hx y (List.takeWhile_subset _ hy)
      · rcases List.mem_cons.mp hy with rfl | hy
        · exact hfirst x l rfl
        · exact hx y (List.dropWhile_subset _ hy)
    have hinsert := Sorted.insert (r := (wakeTime.toInt, ID)) hl
    have hmap : (s.insertNode wakeTime new (x :: l)).map s'.request = s.request x ::
        ((l.map s.request).takeWhile (·.1 < wakeTime.toInt) ++
          (wakeTime.toInt, ID) :: (l.map s.request).dropWhile (·.1 < wakeTime.toInt)) := by
      rw [List.takeWhile_map, List.dropWhile_map]
      simp only [Adl.insertNode, List.map_append, List.map_cons, hreq]
      rw [hothers x (ne_of_mem_of_not_mem List.mem_cons_self hnew),
        hsame _ (List.takeWhile_subset _), hsame _ (List.dropWhile_subset _)]
      rfl
    rw [hmap]
    exact List.pairwise_cons.mpr ⟨hlater, hinsert⟩

theorem DelayInv.insert {new : ι} (ID : Word) (h : DelayInv l s nodes (new :: avail))
    (hwake : 0 ≤ wakeTime.toInt) (hID : 0 < ID.toInt)
    (hfirst : ∀ x, s.activeDelayd_h = .to x → (s.d_wakeTime x).toInt ≤ wakeTime.toInt) :
    ∃ s', Returns (fun n => insertDelay n wakeTime ID) s true s' ∧
      DelayInv ((s, .insertDelay wakeTime ID true) :: l) s' (s.insertNode wakeTime new nodes)
        avail := by
  obtain ⟨s', hret, hlists, hreq, hothers⟩ := insertDelay_spec wakeTime ID h.lists
  have hnew : new ∉ nodes := fun hmem =>
    (List.nodup_append.mp h.lists.nodup).2.2 new hmem new List.mem_cons_self rfl
  have hperm := insertNode_perm s wakeTime new nodes
  have hsame : nodes.map s'.request = nodes.map s.request :=
    List.map_congr_left fun x hx => hothers x (ne_of_mem_of_not_mem hx hnew)
  refine ⟨s', hret, hlists, ?_, ?_, ?_, h.timely⟩
  · intro x hx
    rcases List.mem_cons.mp (hperm.subset hx) with rfl | hx
    · rw [hreq]
      exact ⟨hwake, hID⟩
    · rw [hothers x (ne_of_mem_of_not_mem hx hnew)]
      exact h.marked x hx
  · refine sorted_insertNode h.sorted hnew ?_ hreq hothers
    rintro x l rfl
    exact hfirst x h.lists.active.1
  · refine (hperm.map s'.request).trans ?_
    rw [List.map_cons, hreq, hsame]
    exact h.waits.cons _

theorem DelayInv.tick (theClock : Word) (h : DelayInv l s nodes avail) :
    ∃ woken s' nodes' avail', Returns (wakeSleepers theClock) s woken s' ∧
      DelayInv ((s, .tick theClock woken) :: l) s' nodes' avail' := by
  obtain ⟨s', avail', hret, hlists, hreq⟩ := wakeSleepers_spec theClock h.lists h.marked
  obtain ⟨hwaits, htimely⟩ := h.sorted.tick theClock.toInt h.waits h.timely
  have hdrop : (nodes.map s.request).dropWhile (·.1 ≤ theClock.toInt) =
      (nodes.dropWhile fun x => (s.request x).1 ≤ theClock.toInt).map s.request := by
    rw [List.dropWhile_map]
    rfl
  have hwoken : ((nodes.map s.request).takeWhile (·.1 ≤ theClock.toInt)).map (·.2) =
      (nodes.takeWhile fun x => (s.request x).1 ≤ theClock.toInt).map s.d_asid := by
    rw [List.takeWhile_map, List.map_map]
    rfl
  rw [hwoken] at hwaits htimely
  refine ⟨_, s', _, avail', hret, hlists, ?_, ?_, ?_, htimely⟩
  · intro x hx
    rw [hreq]
    exact h.marked x (List.dropWhile_subset _ hx)
  · rw [hreq, ← hdrop]
    exact h.sorted.drop
  · rw [hreq, ← hdrop]
    exact hwaits

theorem delayInv_of_run (h : ((delayFacility ι).restrict InOrder).Trace l s) :
    ∃ nodes avail, DelayInv l s nodes avail := by
  induction h with
  | init h =>
    obtain ⟨avail, hlists⟩ := h
    exact ⟨[], avail, hlists, fun x hx => absurd hx (by simp), Sorted.nil, List.Perm.refl _, trivial⟩
  | @step l s s' e _ hstep ih =>
    obtain ⟨nodes, avail, hinv⟩ := ih
    obtain ⟨hstep, horder⟩ := hstep
    cases e with
    | insertDelay wakeTime ID accepted =>
      obtain ⟨hwake, hID, hret⟩ := hstep
      cases avail with
      | nil =>
        obtain ⟨rfl, rfl⟩ := hret.unique ⟨0, fun _ _ => run_insertDelay_full hinv.lists⟩
        exact ⟨nodes, [], hinv.lists, hinv.marked, hinv.sorted, hinv.waits, hinv.timely⟩
      | cons new avail =>
        obtain ⟨_, haccepted, -⟩ := insertDelay_spec wakeTime ID hinv.lists
        obtain ⟨rfl, -⟩ := hret.unique haccepted
        obtain ⟨s'', hret', hinv'⟩ := hinv.insert ID hwake hID horder
        obtain ⟨-, rfl⟩ := hret.unique hret'
        exact ⟨_, avail, hinv'⟩
    | tick theClock woken =>
      obtain ⟨woken', s'', nodes', avail', hret, hinv'⟩ := hinv.tick theClock
      obtain ⟨rfl, rfl⟩ := Returns.unique hstep hret
      exact ⟨nodes', avail', hinv'⟩

/-- The delay facility keeps its promises as long as no wake time is inserted
before the first one. -/
theorem delays_of_run (h : ((delayFacility ι).restrict InOrder).Trace l s) : DelaysKept l s := by
  obtain ⟨nodes, avail, hinv⟩ := delayInv_of_run h
  refine ⟨hinv.timely, ⟨nodes, hinv.lists.active, hinv.sorted, hinv.waits⟩, fun wakeTime ID => ?_,
    fun theClock => ?_⟩
  · cases avail with
    | nil => exact ⟨false, s, 0, fun _ _ => run_insertDelay_full hinv.lists⟩
    | cons new avail =>
      obtain ⟨s', hret, -⟩ := insertDelay_spec wakeTime ID hinv.lists
      exact ⟨true, s', hret⟩
  · obtain ⟨woken, s', -, -, hret, -⟩ := hinv.tick theClock
    exact ⟨woken, s', hret⟩

theorem wakeSleepers_within {n : Nat} :
    Within (wakeSleepers theClock n) (wakeSleepers (ι := ι) theClock (n + 1)) := by
  induction n with
  | zero => exact .throw
  | succ n ih =>
    refine .bind .refl fun time => .bind .refl fun time' => .ite ?_ .refl
    exact .bind .refl fun ID => .ite .refl (.bind ih fun _ => .refl)
instance (s : Adl ι) (e : DelayEvent) (s' : Adl ι) : Decidable (InOrder s e s') :=
  match e with
  | .insertDelay wakeTime _ true =>
    match h : s.activeDelayd_h with
    | .to x => decidable_of_iff ((s.d_wakeTime x).toInt ≤ wakeTime.toInt)
        ⟨fun hle y hy => by obtain rfl : x = y := by simpa using h.symm.trans hy
                            exact hle, fun hall => hall x h⟩
    | .null => .isTrue fun _ hy => absurd (h.symm.trans hy) nofun
    | .zero => .isTrue fun _ hy => absurd (h.symm.trans hy) nofun
  | .insertDelay _ _ false => .isTrue trivial
  | .tick _ _ => .isTrue trivial

/-- What a call or a tick does, if it answers so. -/
def DelayEvent.next (s : Adl ι) : DelayEvent → Option (Adl ι)
  | .insertDelay wakeTime ID accepted =>
    match (Kaya.insertDelay MAXPROC wakeTime ID).run s with
    | .ok r s' =>
      if r = accepted ∧ 0 ≤ wakeTime.toInt ∧ 0 < ID.toInt then some s' else none
    | .error _ _ => none
  | .tick theClock woken =>
    match (wakeSleepers theClock MAXPROC).run s with
    | .ok r s' => if r = woken then some s' else none
    | .error _ _ => none

theorem DelayEvent.step_of_next {e : DelayEvent} (h : e.next s = some s') :
    (delayFacility ι).step s e s' := by
  cases e with
  | insertDelay wakeTime ID accepted =>
    simp only [DelayEvent.next] at h
    split at h
    · rename_i r s₁ hrun
      obtain ⟨⟨rfl, hwake, hID⟩, heq⟩ := Option.ite_none_right_eq_some.mp h
      obtain rfl := Option.some.inj heq
      exact ⟨hwake, hID, returns_insertDelay hrun⟩
    · exact absurd h nofun
  | tick theClock woken =>
    simp only [DelayEvent.next] at h
    split at h
    · rename_i r s₁ hrun
      obtain ⟨rfl, heq⟩ := Option.ite_none_right_eq_some.mp h
      obtain rfl := Option.some.inj heq
      exact .of_within (fun _ => wakeSleepers_within) hrun
    · exact absurd h nofun

/-- Runs of the delay facility. -/
def delayScript (ι : Type) [DecidableEq ι] : Script (Adl ι) DelayEvent DelayEvent :=
  .ofNext (fun _ e => e) fun s e => e.next s

theorem delayScript_follows : (delayScript ι).Follows (delayFacility ι) :=
  Script.follows_ofNext fun _ _ _ => DelayEvent.step_of_next

/-- A delay facility with two nodes, both free. -/
def smallDelay : Adl (Fin 2) where
  d_next x := if x = 0 then .to 1 else .null
  d_wakeTime _ := 0
  d_asid _ := 0
  delaydFree_h := .to 0
  activeDelayd_h := .null

theorem smallDelay_lists : smallDelay.Lists [] [0, 1] := by
  refine ⟨rfl, ⟨rfl, rfl, rfl⟩, by decide⟩

/-- A delay facility with three nodes, all free. -/
def freeDelay : Adl (Fin 3) where
  d_next x := if x = 0 then .to 1 else if x = 1 then .to 2 else .null
  d_wakeTime _ := 0
  d_asid _ := 0
  delaydFree_h := .to 0
  activeDelayd_h := .null

theorem freeDelay_lists : freeDelay.Lists [] [0, 1, 2] := by
  refine ⟨rfl, ⟨rfl, rfl, rfl, rfl⟩, by decide⟩

/-- Requests in the order of their times and between others, one of them for a node that has
been given back, and one without a node; nobody is woken early. -/
def delayTicks : List DelayEvent :=
  [.insertDelay 10 1 true, .insertDelay 30 2 true, .tick 9 [], .tick 10 [1],
    .insertDelay 40 3 true, .insertDelay 35 4 true, .insertDelay 50 5 false, .tick 36 [2, 4],
    .tick 60 [3]]

theorem delays_of_run_small :
    DelaysKept (((delayScript (Fin 3)).restrict InOrder).history freeDelay delayTicks [])
      ((delayScript (Fin 3)).play freeDelay delayTicks) :=
  delays_of_run (delayScript_follows.restrict.trace (.init ⟨_, freeDelay_lists⟩) (by decide +kernel))

/-- A delay of 20 before one of 10: at time 10 nobody is woken. -/
theorem not_always_delays : ¬ ∀ (ι : Type) [DecidableEq ι] (l : List (Adl ι × DelayEvent)) (s : Adl ι),
    (delayFacility ι).Trace l s → DelaysKept l s := by
  intro hall
  obtain ⟨s₁, hret₁, hlists₁, hreq₁, -⟩ :=
    insertDelay_spec 20 1 smallDelay_lists
  obtain ⟨s₂, hret₂, hlists₂, hreq₂, hothers⟩ := insertDelay_spec 10 2 hlists₁
  have hfirst : s₂.request 0 = (20, 1) := (hothers 0 (by decide)).trans hreq₁
  have hlist : s₁.insertNode 10 1 (smallDelay.insertNode 20 0 []) = [0, 1] := rfl
  rw [hlist] at hlists₂
  have hmarked : s₂.Marked [0, 1] := by
    intro x hx
    obtain rfl | rfl : x = 0 ∨ x = 1 := by simpa using hx
    · rw [hfirst]
      decide
    · rw [hreq₂]
      decide
  obtain ⟨s₃, -, hret₃, -⟩ := wakeSleepers_spec 10 hlists₂ hmarked
  rw [List.takeWhile_cons_of_neg (by simp [hfirst])] at hret₃
  have hinit : (delayFacility (Fin 2)).init smallDelay := ⟨_, smallDelay_lists⟩
  have hrun : (delayFacility (Fin 2)).Trace
      [(s₂, .tick 10 []), (s₁, .insertDelay 10 2 true), (smallDelay, .insertDelay 20 1 true)] s₃ := by
    refine (((System.Trace.init hinit).step ?_).step ?_).step hret₃
    · exact ⟨by decide, by decide, hret₁⟩
    · exact ⟨by decide, by decide, hret₂⟩
  have hperm := (hall (Fin 2) _ s₃ hrun).timely.1
  have hlen : 0 = 1 := hperm.length_eq
  exact absurd hlen (by decide)

end Kaya
