import Kaya.Phase1.AslRuns

open Links Exec

namespace Kaya

/-! The dummy nodes of the active semaphore list, for every address. -/

/-- No process is queued on a dummy node, and both are on the active list and not on
the free list. -/
structure Heap.SentinelsKept (h : Heap) : Prop where
  noProcs : h.s_procQ semdZero = .null ∧ h.s_procQ semdMax = .null
  head : h.semdActive_h = .to semdZero
  linked : ∃ ids, Segment h.s_next (.to semdZero) (semdZero :: ids) (.to semdMax)
  free : ∃ fr, Segment h.s_next h.semdFree_h fr .null ∧ semdZero ∉ fr ∧ semdMax ∉ fr

/-- The search for `a` ends on an active node whose successor is active too, whatever
the links of the last dummy node and of the descriptors that are not active hold. -/
def Heap.SearchStays (h : Heap) (a : Word) : Prop :=
  ∃ w ∈ semdZero :: h.activeList, ∃ next ∈ h.activeList ++ [semdMax], h.s_next w = .to next ∧
    ∀ links : Sid → SemdPtr, (∀ i ∈ semdZero :: h.activeList, links i = h.s_next i) →
      (searchASL a).run { h with s_next := links } = .ok (.to w) { h with s_next := links }

/-- The search for `a` stays on the list, and no function of the list that is called
for `a` queues a process on a dummy node, unlinks it or frees it. -/
structure Heap.Guards (h : Heap) (a : Word) : Prop where
  search : h.SearchStays a
  insertBlocked : ∀ p, (∀ b, p ∉ h.blockedOn b) →
    (Heap.after (insertBlocked a (.to p)) h).SentinelsKept
  removeBlocked : (Heap.after (removeBlocked a) h).SentinelsKept
  outBlocked : ∀ p, h.pcb_semAdd p = a → (Heap.after (outBlocked (.to p)) h).SentinelsKept

/-- A pcb is blocked only while it is on no queue of the list, and `NULL` is no
semaphore. -/
def AslCall.Permitted (h : Heap) : AslCall → Prop
  | insertBlocked semAdd p => semAdd ≠ NULL ∧ ∀ b, p ∉ h.blockedOn b
  | removeBlocked semAdd => semAdd ≠ NULL
  | outBlocked _ => True

/-- `initASL` in static storage, and then one call after the other, with any address. -/
def aslCalls : System Heap AslCall where
  init h := ∃ h₀, h₀.s_next semdMax = .zero ∧ initASL.run h₀ = .ok () h
  step h call h' := call.Permitted h ∧ ∃ r, call.perform.run h = .ok r h'

/-- The call is for an address below that of the last dummy node; a pcb can also name
none. -/
def BelowSentinel (h : Heap) (call : AslCall) (_ : Heap) : Prop :=
  match call with
  | .insertBlocked semAdd _ => semAdd < MAXINT
  | .removeBlocked semAdd => semAdd < MAXINT
  | .outBlocked p => h.pcb_semAdd p = NULL ∨ h.pcb_semAdd p < MAXINT

variable {h h' : Heap} {m : FifoMap Word Pid} {p : Pid} {a : Word} {ids fr : List Sid} {z : Sid}
  {call : AslCall}

theorem Heap.AslWF.sentinelsKept (hasl : h.AslWF m) : h.SentinelsKept := by
  obtain ⟨ids, fr, hrep⟩ := hasl.asl
  refine ⟨hrep.noProcs, hrep.head, ⟨ids, hrep.active⟩, fr, hrep.free, ?_, ?_⟩
  · exact fun hmem => (hrep.ne_dummy (List.mem_append_right _ hmem)).1 rfl
  · exact fun hmem => (hrep.ne_dummy (List.mem_append_right _ hmem)).2 rfl

theorem Heap.after_ok {α : Type} {x : HeapM α} {r : α} (hrun : x.run h = .ok r h') :
    Heap.after x h = h' := by
  unfold Heap.after
  rw [hrun]

theorem Heap.after_error {α : Type} {x : HeapM α} {e : Stop} (hrun : x.run h = .error e h') :
    Heap.after x h = h' := by
  unfold Heap.after
  rw [hrun]

theorem Heap.AslWF.blockedOn (hasl : h.AslWF m) (b : Word) :
    h.blockedOn b = FifoMap.queue b m := by
  obtain ⟨ids, fr, hrep⟩ := hasl.asl
  unfold Heap.blockedOn
  rw [hrep.asl_eq]

theorem Heap.AslWF.not_mem_values (hasl : h.AslWF m) (hp : ∀ b, p ∉ h.blockedOn b) :
    p ∉ FifoMap.values m := by
  intro hmem
  obtain ⟨b, hb⟩ := (FifoMap.mem_values hasl.sorted).mp hmem
  exact hp b (hasl.blockedOn b ▸ hb)

/-! What the functions do for an address below that of the last dummy node. -/

theorem Heap.AslWF.removeBlocked (hasl : h.AslWF m) (ha : a < MAXINT) :
    ∃ r h' m', (removeBlocked a).run h = .ok r h' ∧ h'.AslWF m' := by
  obtain ⟨ids, fr, hrep⟩ := hasl.asl
  cases hwait : FifoMap.queue a m with
  | nil => exact ⟨.null, h, m, hrep.removeBlocked_nil hasl.sorted ha hwait, hasl⟩
  | cons p rest =>
    obtain ⟨h', hrun, hbecomes⟩ := hrep.removeBlocked_cons hasl.sorted hasl.nodup ha hwait
    exact ⟨.to p, h', _, hrun, hasl.restrict hbecomes⟩

/-- `outBlocked` takes the pcb out, finds nothing, or traps where it is. -/
theorem Heap.AslWF.outBlocked (hasl : h.AslWF m)
    (ha : h.pcb_semAdd p = NULL ∨ h.pcb_semAdd p < MAXINT) :
    (∃ r h' m', (outBlocked (.to p)).run h = .ok r h' ∧ h'.AslWF m') ∨
      (outBlocked (.to p)).run h = .error .trap h := by
  obtain ⟨ids, fr, hrep⟩ := hasl.asl
  rcases ha with hnull | ha
  · exact .inl ⟨_, _, _, hrep.outBlocked_null hasl.sorted hasl.bounded hnull, hasl⟩
  by_cases hwait : FifoMap.queue (h.pcb_semAdd p) m = []
  · exact .inl ⟨_, _, _, hrep.outBlocked_inactive hasl.sorted ha hwait, hasl⟩
  by_cases hmem : p ∈ FifoMap.queue (h.pcb_semAdd p) m
  · obtain ⟨h', hrun, hbecomes⟩ := hrep.outBlocked_mem hasl.sorted hasl.nodup ha hmem
    exact .inl ⟨_, h', _, hrun, hasl.restrict hbecomes⟩
  · exact .inr (hrep.outBlocked_elsewhere hasl.sorted ha hwait hmem)

theorem Heap.AslWF.step (hasl : h.AslWF m) (hstep : aslCalls.step h call h')
    (hbelow : BelowSentinel h call h') : ∃ m', h'.AslWF m' := by
  obtain ⟨hpermitted, r, hrun⟩ := hstep
  cases call with
  | insertBlocked a p =>
    obtain ⟨h'', hrun', hasl', -⟩ := hasl.insertBlocked (hasl.not_mem_values hpermitted.2) hbelow
    have hperform : (AslCall.insertBlocked a p).perform.run h = .ok (.full false) h'' :=
      Exec.run_bind_ok hrun'
    obtain ⟨-, rfl⟩ := EStateM.Result.ok.inj (hperform.symm.trans hrun)
    exact ⟨_, hasl'⟩
  | removeBlocked a =>
    obtain ⟨r', h'', m', hrun', hasl'⟩ := hasl.removeBlocked hbelow
    have hperform : (AslCall.removeBlocked a).perform.run h = .ok (.pcb r') h'' :=
      Exec.run_bind_ok hrun'
    obtain ⟨-, rfl⟩ := EStateM.Result.ok.inj (hperform.symm.trans hrun)
    exact ⟨m', hasl'⟩
  | outBlocked p =>
    rcases hasl.outBlocked hbelow with ⟨r', h'', m', hrun', hasl'⟩ | htrap
    · have hperform : (AslCall.outBlocked p).perform.run h = .ok (.pcb r') h'' :=
        Exec.run_bind_ok hrun'
      obtain ⟨-, rfl⟩ := EStateM.Result.ok.inj (hperform.symm.trans hrun)
      exact ⟨m', hasl'⟩
    · have hperform : (AslCall.outBlocked p).perform.run h = .error .trap h :=
        Exec.run_bind_error htrap
      exact absurd (hperform.symm.trans hrun) nofun

theorem reachable_aslWF (hs : (aslCalls.restrict BelowSentinel).Reachable h) :
    ∃ m, h.AslWF m := by
  refine hs.invariant (I := fun h => ∃ m, h.AslWF m) ?_ ?_
  · rintro h ⟨h₀, htail, hrun⟩
    obtain ⟨h', hrun', hasl, -⟩ := initASL_aslWF htail
    obtain ⟨-, rfl⟩ := EStateM.Result.ok.inj (hrun'.symm.trans hrun)
    exact ⟨[], hasl⟩
  · rintro h call h' ⟨m, hasl⟩ ⟨hstep, hbelow⟩
    exact hasl.step hstep hbelow

/-- As far as the last dummy node the search reads links of active nodes only. -/
theorem searchASLLoop_links {links : Sid → SemdPtr} {fuel : Nat} {r : SemdPtr}
    (hactive : Segment h.s_next (.to z) (z :: ids) (.to semdMax))
    (hlinks : ∀ i ∈ z :: ids, links i = h.s_next i) (hmax : h.s_semAdd semdMax = MAXINT)
    (ha : a ≤ MAXINT) (hrun : (searchASLLoop a fuel (.to z)).run h = .ok r h) :
    (searchASLLoop a fuel (.to z)).run { h with s_next := links } =
      .ok r { h with s_next := links } := by
  have hlink : links z = h.s_next z := hlinks z List.mem_cons_self
  induction ids generalizing z fuel with
  | nil =>
    cases fuel with
    | zero => exact absurd hrun nofun
    | succ fuel =>
      have hnext : h.s_next z = .to semdMax := hactive.2
      have hkey : ¬ MAXINT < a := not_lt.mpr ha
      simp only [searchASLLoop, EStateM.run_bind, run_load_to, hlink, hnext, hmax, hkey, if_false,
        EStateM.run_pure] at hrun ⊢
      obtain ⟨rfl, -⟩ := EStateM.Result.ok.inj hrun
      rfl
  | cons i ids ih =>
    cases fuel with
    | zero => exact absurd hrun nofun
    | succ fuel =>
      have hnext : h.s_next z = .to i := hactive.2.1
      simp only [searchASLLoop, EStateM.run_bind, run_load_to, hlink, hnext] at hrun ⊢
      by_cases hkey : h.s_semAdd i < a
      · rw [if_pos hkey] at hrun ⊢
        exact ih ⟨rfl, hactive.2.2⟩ (fun j hj => hlinks j (List.mem_cons_of_mem z hj)) hrun
          (hlinks i (by simp))
      · rw [if_neg hkey] at hrun ⊢
        obtain ⟨rfl, -⟩ := EStateM.Result.ok.inj hrun
        rfl

theorem Heap.AslWF.searchStays (hasl : h.AslWF m) (ha : a < MAXINT) : h.SearchStays a := by
  obtain ⟨ids, fr, hrep⟩ := hasl.asl
  obtain ⟨c, w, behind, lo, hi, hcut, hsearch⟩ := searchASL_spec hrep hasl.sorted ha
  unfold Heap.SearchStays
  rw [hrep.activeList_eq]
  have hne : a ≠ NULL := by
    rintro rfl
    exact absurd ha (by decide)
  have hnext : ∃ next ∈ ids ++ [semdMax], h.s_next w = .to next := by
    cases behind with
    | nil => exact ⟨semdMax, by simp, hcut.next⟩
    | cons i behind => exact ⟨i, by simp [hcut.ids_split], hcut.next⟩
  obtain ⟨next, hmem, hnext⟩ := hnext
  refine ⟨w, by simp [hcut.ids_eq], next, hmem, hnext, fun links hlinks => ?_⟩
  unfold searchASL at hsearch ⊢
  rw [if_neg hne] at hsearch ⊢
  have hstart : searchASLLoop a (MAXPROC + 3) h.semdActive_h =
      searchASLLoop a (MAXPROC + 3) (.to semdZero) := by rw [hrep.head]
  rw [Exec.run_bind_ok (EStateM.run_get _)] at hsearch ⊢
  rw [hstart] at hsearch
  have hrun := searchASLLoop_links hrep.active hlinks hrep.keys.2 ha.le hsearch
  exact (congrArg (·.run { h with s_next := links }) hstart).trans hrun

/-- For its own address the last dummy node is taken for a semaphore whose queue has
become empty: it is freed. -/
theorem Heap.AslWF.removeBlocked_max (hasl : h.AslWF m) :
    ¬ (Heap.after (Kaya.removeBlocked MAXINT) h).SentinelsKept := by
  obtain ⟨ids, fr, hrep⟩ := hasl.asl
  obtain ⟨w, -, hsearch, hnext⟩ := hrep.searchASL_last hasl.sorted hasl.bounded (.inr rfl)
  have hfreed : ∃ h', (Kaya.removeBlocked MAXINT).run h = .ok .null h' ∧
      h'.semdFree_h = .to semdMax := by
    rw [Kaya.removeBlocked, Exec.run_bind_ok hsearch]
    simp [hnext, hrep.keys.2, hrep.noProcs.2, removeProcQ_nil, dropEmptySemd, emptyProcQ, freeSemd,
      Heap.putSProcQ, Heap.putSNext, Heap.putSSemAdd]
  obtain ⟨h', hrun, hfree⟩ := hfreed
  rw [Heap.after_ok hrun]
  rintro ⟨-, -, -, fr', hseg, -, hmax⟩
  rw [hfree] at hseg
  cases fr' with
  | nil => exact absurd hseg (by simp)
  | cons i fr' =>
    obtain rfl : semdMax = i := by simpa using hseg.1
    exact hmax List.mem_cons_self

theorem Heap.AslWF.guards (hasl : h.AslWF m) (ha : a < MAXINT) : h.Guards a := by
  refine ⟨hasl.searchStays ha, fun p hp => ?_, ?_, fun p hsem => ?_⟩
  · obtain ⟨h', hrun, hasl', -⟩ := hasl.insertBlocked (hasl.not_mem_values hp) ha
    rw [Heap.after_ok hrun]
    exact hasl'.sentinelsKept
  · obtain ⟨r, h', m', hrun, hasl'⟩ := hasl.removeBlocked ha
    rw [Heap.after_ok hrun]
    exact hasl'.sentinelsKept
  · rcases hasl.outBlocked (p := p) (.inr (hsem ▸ ha)) with ⟨r, h', m', hrun, hasl'⟩ | htrap
    · rw [Heap.after_ok hrun]
      exact hasl'.sentinelsKept
    · rw [Heap.after_error htrap]
      exact hasl.sentinelsKept

theorem Heap.AslWF.lt_of_guards (hasl : h.AslWF m) (ha : a ≠ NULL) (hguards : h.Guards a) :
    a < MAXINT := by
  by_contra hle
  rcases (not_lt.mp hle).eq_or_lt with rfl | hbeyond
  · exact hasl.removeBlocked_max hguards.removeBlocked
  · obtain ⟨w, -, next, -, -, hsearch⟩ := hguards.search
    have hrun := (hsearch h.s_next fun _ _ => rfl).symm.trans (hasl.searchASL_beyond hbeyond ha)
    exact absurd hrun nofun

/-- In a run whose calls are for addresses below that of the last dummy node no call
has touched a dummy node, and the next call, for any address, searches and leaves the
dummy nodes alone exactly if its address is below it too. -/
theorem sentinels_of_run (hs : (aslCalls.restrict BelowSentinel).Reachable h) :
    h.SentinelsKept ∧ ∀ a ≠ NULL, h.Guards a ↔ a < MAXINT := by
  obtain ⟨m, hasl⟩ := reachable_aslWF hs
  exact ⟨hasl.sentinelsKept, fun a ha => ⟨hasl.lt_of_guards ha, hasl.guards⟩⟩

/-- One pcb is blocked on address 0. -/
theorem sentinels_of_run_zero : ∃ h h', (insertBlocked 0 (.to firstPid)).run h = .ok false h' ∧
    h'.SentinelsKept ∧ h'.Guards 0x20002000 := by
  obtain ⟨h, hrun, hasl, -⟩ := initASL_aslWF (h := Heap.bss .null) rfl
  have hinit : (aslCalls.restrict BelowSentinel).Reachable h := .init ⟨_, rfl, hrun⟩
  have hnone : ∀ b, firstPid ∉ h.blockedOn b := by
    intro b
    simp [hasl.blockedOn]
  obtain ⟨h', hrun', -⟩ := hasl.insertBlocked (a := 0) (hasl.not_mem_values hnone) (by decide)
  have hstep : (aslCalls.restrict BelowSentinel).step h (.insertBlocked 0 firstPid) h' :=
    ⟨⟨⟨by decide, hnone⟩, .full false, Exec.run_bind_ok hrun'⟩, (by decide : (0 : Word) < MAXINT)⟩
  obtain ⟨hkept, hguards⟩ := sentinels_of_run (hinit.step hstep)
  exact ⟨h, h', hrun', hkept, (hguards 0x20002000 (by decide)).mpr (by decide)⟩

/-- Right after `initASL`, a search for 0xF0000000 goes on behind the last dummy node. -/
theorem not_always_guards : ¬ ∀ (h : Heap) (a : Word), aslCalls.Reachable h → a ≠ NULL →
    h.Guards a := by
  intro hall
  obtain ⟨h, hrun, hasl, -⟩ := initASL_aslWF (h := Heap.bss .null) rfl
  have hinit : aslCalls.Reachable h := .init ⟨_, rfl, hrun⟩
  have hlt := hasl.lt_of_guards (by decide) (hall h 0xF0000000 hinit (by decide))
  exact absurd hlt (by decide)

end Kaya
