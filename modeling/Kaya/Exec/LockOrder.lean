import Kaya.Exec.Locks

/-! Threads that take their mutexes in the order of a rank do not block each other. -/

namespace Exec

variable {T A E O σ : Type} {R : O → Type} [DecidableEq A]

namespace Threads

/-- What an activation may do while `outer` are taken by the ones around it: wait for a
mutex above all that the thread has taken, or for another semaphore if it has taken none,
give back what it has taken, and end the thread if nothing is taken. Which mutexes may or
have to be taken for other operations is left to `ok`. -/
def orderContract (S : Threads T A E O R σ) (rank : A → Nat) (ok : List A → O → Prop) (outer : List A) :
    Prog.Contract O R (List A) where
  pre held o := match S.kind o with
    | .passeren a => if S.mutex a then ∀ b ∈ held ++ outer, rank b < rank a else held ++ outer = []
    | .verhogen a => S.mutex a = true → a ∈ held
    | .exit => held ++ outer = []
    | .halt => True
    | .other => ok (held ++ outer) o
  post held o _ held' := held' = match S.kind o with
    | .passeren a => S.take a held
    | .verhogen a => S.give a held
    | _ => held

section

variable {S : Threads T A E O R σ} {rank : A → Nat} {ok : List A → O → Prop} {outer held : List A}
  {α : Type} {a : A} {o : O}
  {k : R o → Prog O R α} {Q : List A → α → Prop}

theorem meets_other (hkind : S.kind o = .other) (hok : ok (held ++ outer) o)
    (h : ∀ r, (k r).Meets (S.orderContract rank ok outer) held Q) :
    (Prog.call o k).Meets (S.orderContract rank ok outer) held Q := by
  refine ⟨by simpa only [orderContract, hkind] using hok, fun r held' hpost => ?_⟩
  simp only [orderContract, hkind] at hpost
  exact hpost ▸ h r

theorem meets_passeren (hkind : S.kind o = .passeren a)
    (hbelow : if S.mutex a then ∀ b ∈ held ++ outer, rank b < rank a else held ++ outer = [])
    (h : ∀ r, (k r).Meets (S.orderContract rank ok outer) (S.take a held) Q) :
    (Prog.call o k).Meets (S.orderContract rank ok outer) held Q := by
  refine ⟨by simpa only [orderContract, hkind] using hbelow, fun r held' hpost => ?_⟩
  simp only [orderContract, hkind] at hpost
  exact hpost ▸ h r

theorem meets_verhogen (hkind : S.kind o = .verhogen a) (hheld : S.mutex a = true → a ∈ held)
    (h : ∀ r, (k r).Meets (S.orderContract rank ok outer) (S.give a held) Q) :
    (Prog.call o k).Meets (S.orderContract rank ok outer) held Q := by
  refine ⟨by simpa only [orderContract, hkind] using hheld, fun r held' hpost => ?_⟩
  simp only [orderContract, hkind] at hpost
  exact hpost ▸ h r

/-- What takes its mutexes in order takes none twice. -/
theorem locks_of_orders {p : Prog O R α} (h : p.Meets (S.orderContract rank ok outer) held Q) :
    p.Meets (S.lockContract ok outer) held Q := by
  refine Prog.Meets.weaken h (fun held o hpre => ?_) fun _ _ _ _ hpost => hpost
  cases hkind : S.kind o with
  | passeren a =>
    simp only [orderContract, lockContract, hkind] at hpre ⊢
    intro hmutex hmem
    rw [if_pos hmutex] at hpre
    exact absurd (hpre a hmem) (Nat.lt_irrefl _)
  | halt => simp only [lockContract, hkind]
  | _ => simpa only [orderContract, lockContract, hkind] using hpre

end

/-- The rest of an activation takes its mutexes in order. -/
def OrderlyFrame (S : Threads T A E O R σ) (rank : A → Nat) (ok : List A → O → Prop)
    (outer : List A) (f : Frame A O R) : Prop :=
  f.prog.Meets (S.orderContract rank ok outer) f.held fun _ _ => True

/-- All activations of a thread take their mutexes in order. -/
def StackOrderly (S : Threads T A E O R σ) (rank : A → Nat) (ok : List A → O → Prop) :
    List (Frame A O R) → Prop
  | [] => True
  | f :: fs => S.OrderlyFrame rank ok (taken fs) f ∧ StackOrderly S rank ok fs

/-- What a thread waits for: the mutex that it has asked for last, which is above all
others, or a semaphore for which it has given all mutexes back. -/
structure Ordered (S : Threads T A E O R σ) (rank : A → Nat) (ok : List A → O → Prop)
    (c : Pool T A O R σ) : Prop where
  frames : ∀ t, S.StackOrderly rank ok (c.stack t)
  sorted : ∀ t, (taken (c.stack t)).Pairwise fun a b => rank b < rank a
  mutexes : ∀ t a, t ∈ c.queue a → S.mutex a = true → ∃ rest, taken (c.stack t) = a :: rest
  others : ∀ t a, t ∈ c.queue a → S.mutex a = false → taken (c.stack t) = []

end Threads

variable {S : Threads T A E O R σ} {rank : A → Nat} {c c' : Pool T A O R σ} {t u : T} {a b : A}
  {held outer : List A} {f : Frame A O R} {fs : List (Frame A O R)} {o : O}
  {k : R o → Prog O R Unit} {ok ok' : List A → O → Prop}

namespace Threads

/-- The rest of an activation after one more operation. -/
theorem OrderlyFrame.next (h : S.OrderlyFrame rank ok outer ⟨.call o k, held⟩) (r : R o)
    {held' : List A}
    (hpost : (S.orderContract rank ok outer).post held o r held') :
    S.OrderlyFrame rank ok outer ⟨k r, held'⟩ :=
  h.2 r held' hpost

variable [DecidableEq T]

/-- The stack of a running thread changes; it has taken no more than before. -/
theorem Ordered.setStack {q : List (Frame A O R)} (h : S.Ordered rank ok c) (hrun : c.Running t)
    (hstacks : S.StackOrderly rank ok q)
    (hsub : (taken q).Sublist (taken (c.stack t))) : S.Ordered rank ok (c.setStack t q) := by
  have hother : ∀ {u a}, u ∈ c.queue a → (c.setStack t q).stack u = c.stack u := by
    intro u a hu
    refine Function.update_of_ne ?_ _ _
    rintro rfl
    exact hrun.ready ⟨a, hu⟩
  refine ⟨fun u => ?_, fun u => ?_, fun u a hu hmutex => ?_, fun u a hu hmutex => ?_⟩
  · by_cases hut : u = t
    · subst hut
      simpa [Pool.setStack] using hstacks
    · simpa [Pool.setStack, hut] using h.frames u
  · by_cases hut : u = t
    · subst hut
      simpa [Pool.setStack] using (h.sorted u).sublist hsub
    · simpa [Pool.setStack, hut] using h.sorted u
  · rw [hother hu]
    exact h.mutexes u a hu hmutex
  · rw [hother hu]
    exact h.others u a hu hmutex

omit [DecidableEq T] in
/-- Fewer threads wait. -/
theorem Ordered.congr (h : S.Ordered rank ok c) (hstack : c'.stack = c.stack)
    (hqueue : ∀ a, c'.queue a ⊆ c.queue a) : S.Ordered rank ok c' := by
  refine ⟨?_, ?_, ?_, ?_⟩
  all_goals rw [hstack]
  · exact h.frames
  · exact h.sorted
  · exact fun u a hu => h.mutexes u a (hqueue a hu)
  · exact fun u a hu => h.others u a (hqueue a hu)

/-- A P. -/
theorem Ordered.passeren (h : S.Ordered rank ok c) (hrun : c.Running t)
    (hstack : c.stack t = ⟨.call o k, held⟩ :: fs) (hkind : S.kind o = .passeren a) (r : R o) :
    S.Ordered rank ok ((c.passeren t a).setStack t (⟨k r, S.take a held⟩ :: fs)) := by
  have hstacks := h.frames t
  have hsorted := h.sorted t
  rw [hstack] at hstacks hsorted
  obtain ⟨hframe, hfs⟩ := hstacks
  have hpre : (S.orderContract rank ok (taken fs)).pre held o := hframe.1
  simp only [orderContract, hkind] at hpre
  have hnext : S.OrderlyFrame rank ok (taken fs) ⟨k r, S.take a held⟩ :=
    hframe.next r (by simp only [orderContract, hkind])
  have htaken : ∀ u, taken (((c.passeren t a).setStack t (⟨k r, S.take a held⟩ :: fs)).stack u) =
      if u = t then S.take a held ++ taken fs else taken (c.stack u) := by
    intro u
    by_cases hut : u = t
    · subst hut
      simp [Pool.setStack]
    · simp [Pool.setStack, Pool.passeren, hut]
  have hwaits : ∀ {u b}, u ∈ ((c.passeren t a).setStack t (⟨k r, S.take a held⟩ :: fs)).queue b →
      (u ≠ t ∧ u ∈ c.queue b) ∨ (u = t ∧ b = a) := by
    intro u b hu
    refine (Pool.mem_queue_of_passeren hu).imp_left fun hmem => ⟨?_, hmem⟩
    rintro rfl
    exact hrun.ready ⟨b, hmem⟩
  refine ⟨fun u => ?_, fun u => ?_, fun u b hu hmutex => ?_, fun u b hu hmutex => ?_⟩
  · by_cases hut : u = t
    · subst hut
      simpa [Pool.setStack] using (show S.StackOrderly rank ok (_ :: _) from ⟨hnext, hfs⟩)
    · simpa [Pool.setStack, Pool.passeren, hut] using h.frames u
  · rw [htaken]
    split
    · unfold take
      split
      · rename_i hmutex
        rw [if_pos hmutex] at hpre
        exact List.pairwise_cons.mpr ⟨hpre, hsorted⟩
      · exact hsorted
    · exact h.sorted u
  · rw [htaken]
    obtain ⟨hut, hmem⟩ | ⟨rfl, rfl⟩ := hwaits hu
    · rw [if_neg hut]
      exact h.mutexes u b hmem hmutex
    · rw [if_pos rfl, take, if_pos hmutex]
      exact ⟨_, rfl⟩
  · rw [htaken]
    obtain ⟨hut, hmem⟩ | ⟨rfl, rfl⟩ := hwaits hu
    · rw [if_neg hut]
      exact h.others u b hmem hmutex
    · rw [if_neg (by simp [hmutex])] at hpre
      rw [if_pos rfl, take, if_neg (by simp [hmutex])]
      exact hpre

/-- What a step begins takes its mutexes in order. -/
def Begins (S : Threads T A E O R σ) (rank : A → Nat) (ok : List A → O → Prop)
    (c : Pool T A O R σ) (e : Happening T E O) : Prop :=
  ∀ t entry, e = .enter t entry → S.OrderlyFrame rank ok (taken (c.stack t)) ⟨S.program t entry, []⟩

/-- One step of a thread keeps the order. -/
theorem Ordered.step {e : Happening T E O} (h : S.Ordered rank ok c) (hstep : S.Step c e c')
    (hbegins : S.Begins rank ok c e) : S.Ordered rank ok c' := by
  cases hstep with
  | @enter t entry s' hrun _ =>
    have hbegun := h.setStack hrun (q := ⟨S.program t entry, []⟩ :: c.stack t)
      ⟨hbegins t entry rfl, h.frames t⟩ (List.Sublist.refl _)
    exact hbegun.congr rfl fun _ => List.Subset.refl _
  | @leave t held fs hrun hstack =>
    have hstacks := h.frames t
    rw [hstack] at hstacks
    refine h.setStack hrun hstacks.2 ?_
    rw [hstack]
    exact List.sublist_append_right _ _
  | passeren hrun hstack hkind => exact h.passeren hrun hstack hkind _
  | @verhogen t o k held fs a r hrun hstack hkind =>
    have hstacks := h.frames t
    rw [hstack] at hstacks
    have hgiven := h.setStack hrun (q := ⟨k r, S.give a held⟩ :: fs)
      ⟨hstacks.1.next r (by simp only [orderContract, hkind]), hstacks.2⟩ (by
        rw [hstack]
        refine List.Sublist.append ?_ (List.Sublist.refl _)
        simp only [give]
        split
        · exact List.erase_sublist
        · exact List.Sublist.refl _)
    exact hgiven.congr rfl fun b u hu => Pool.mem_queue_of_verhogen hu
  | exit hrun hstack _ =>
    have hended := h.setStack hrun (q := []) trivial (List.nil_sublist _)
    exact hended.congr rfl fun _ => List.Subset.refl _
  | halt _ _ _ => exact h.congr rfl fun _ => List.Subset.refl _
  | @other t o k held fs r v' s' hrun hstack hkind _ =>
    have hstacks := h.frames t
    rw [hstack] at hstacks
    have hnext := h.setStack hrun (q := ⟨k r, held⟩ :: fs)
      ⟨hstacks.1.next r (by simp only [orderContract, hkind]), hstacks.2⟩ (by
        rw [hstack]
        exact List.Sublist.refl _)
    exact hnext.congr rfl fun _ => List.Subset.refl _

omit [DecidableEq T] in
/-- While a thread waits for a mutex, a thread that has one can go on: the one that has
the mutex, or the one that has the mutex which that one waits for, and so on. -/
theorem Ordered.exists_running {N : Nat} (h : S.Ordered rank ok c) (hlocked : S.Locked ok' c)
    (hhalted : c.halted = false) (hbound : ∀ a, rank a ≤ N) (hmutex : S.mutex a = true)
    (hwaits : t ∈ c.queue a) :
    ∃ b u, S.mutex b = true ∧ rank a ≤ rank b ∧ c.Holds u b ∧ c.Running u := by
  induction hdist : N - rank a using Nat.strongRecOn generalizing a t with
  | ind n ih =>
    cases hlocked.exclusive a hmutex with
    | free _ hempty _ =>
      rw [hempty] at hwaits
      exact absurd hwaits List.not_mem_nil
    | owned u _ hnodup howner =>
      have hnot : u ∉ c.queue a := (List.nodup_cons.mp hnodup).1
      have htaken : a ∈ taken (c.stack u) := (howner u).mpr List.mem_cons_self
      have hholds : c.Holds u a := by
        obtain ⟨f, hf, hheld⟩ := List.mem_flatMap.mp htaken
        exact ⟨⟨f, hf, hheld⟩, hnot⟩
      by_cases hwait : c.Waits u
      · obtain ⟨b, hb⟩ := hwait
        have hbmutex : S.mutex b = true := by
          by_contra hother
          rw [h.others u b hb (by simpa using hother)] at htaken
          exact absurd htaken List.not_mem_nil
        obtain ⟨rest, hrest⟩ := h.mutexes u b hb hbmutex
        have hsorted := h.sorted u
        rw [hrest] at htaken hsorted
        have hne : a ≠ b := by
          rintro rfl
          exact hnot hb
        have hrank : rank a < rank b :=
          (List.pairwise_cons.mp hsorted).1 a ((List.mem_cons.mp htaken).resolve_left hne)
        have hb_le := hbound b
        obtain ⟨b', u', hb', hle, hholds', hrun⟩ := ih (N - rank b) (by omega) hbmutex hb rfl
        exact ⟨b', u', hb', by omega, hholds', hrun⟩
      · refine ⟨a, u, hmutex, Nat.le_refl _, hholds, hhalted, ?_, hwait⟩
        by_contra hdead
        rw [hlocked.dead u (by simpa using hdead)] at htaken
        exact absurd htaken List.not_mem_nil

end Threads

end Exec
