import Mathlib.Data.List.Nodup
import Mathlib.Logic.Function.Basic

/-! Threads that sleep on semaphores of their own, and a register of the sleepers
from which others take them to wake them up. -/

namespace Sleepers

variable {T : Type}

/-- What a thread is about to do. -/
inductive Phase (T : Type) where
  | awake
  /-- It is registered, and will do a P on its own semaphore. -/
  | registered
  /-- It has taken `k` out of the register, and will do a V on the semaphore of `k`. -/
  | waking (k : T)

/-- The register, the semaphores, one for each thread, and the threads. -/
structure Beds (T : Type) where
  listed : List T
  value : T → Int
  queue : T → List T
  phase : T → Phase T

namespace Beds

variable {b b' : Beds T} {t k : T}

/-- The thread is about to sleep, or sleeps. -/
inductive Abed (b : Beds T) (k : T) : Prop where
  | about : b.phase k = .registered → b.value k = 0 → b.queue k = [] → Abed b k
  | asleep : b.phase k = .awake → b.value k = -1 → b.queue k = [k] → Abed b k

/-- How it can be with a thread, its semaphore and its entry in the register. -/
inductive Bed (b : Beds T) (k : T) : Prop where
  | up : k ∉ b.listed → b.phase k ≠ .registered → b.value k = 0 → b.queue k = [] →
      (∀ t, b.phase t ≠ .waking k) → Bed b k
  | listed : k ∈ b.listed → b.Abed k → (∀ t, b.phase t ≠ .waking k) → Bed b k
  /-- `t` is about to wake it. -/
  | called (t : T) : k ∉ b.listed → b.Abed k → (∀ u, b.phase u = .waking k ↔ u = t) → Bed b k
  /-- It has been woken before it went to sleep. -/
  | released : k ∉ b.listed → b.phase k = .registered → b.value k = 1 → b.queue k = [] →
      (∀ t, b.phase t ≠ .waking k) → Bed b k

/-- Each thread that is about to sleep or sleeps has one entry in the register or
somebody about to wake it, and nobody else has an entry. -/
structure Made (b : Beds T) : Prop where
  nodup : b.listed.Nodup
  bed : ∀ k, b.Bed k

theorem Abed.congr (h : b.Abed k) (hphase : b'.phase k = b.phase k) (hvalue : b'.value k = b.value k)
    (hqueue : b'.queue k = b.queue k) : b'.Abed k := by
  cases h with
  | about hp hv hq => exact .about (hphase.trans hp) (hvalue.trans hv) (hqueue.trans hq)
  | asleep hp hv hq => exact .asleep (hphase.trans hp) (hvalue.trans hv) (hqueue.trans hq)

theorem Bed.congr (h : b.Bed k) (hlisted : k ∈ b'.listed ↔ k ∈ b.listed)
    (hphase : b'.phase k = b.phase k) (hvalue : b'.value k = b.value k)
    (hqueue : b'.queue k = b.queue k)
    (hwaking : ∀ t, b'.phase t = .waking k ↔ b.phase t = .waking k) : b'.Bed k := by
  cases h with
  | up hk hp hv hq hnone =>
    exact .up (fun h => hk (hlisted.mp h)) (hphase ▸ hp) (hvalue.trans hv) (hqueue.trans hq)
      fun t h => hnone t ((hwaking t).mp h)
  | listed hk habed hnone =>
    exact .listed (hlisted.mpr hk) (habed.congr hphase hvalue hqueue)
      fun t h => hnone t ((hwaking t).mp h)
  | called t hk habed ht =>
    exact .called t (fun h => hk (hlisted.mp h)) (habed.congr hphase hvalue hqueue)
      fun u => (hwaking u).trans (ht u)
  | released hk hp hv hq hnone =>
    exact .released (fun h => hk (hlisted.mp h)) (hphase.trans hp) (hvalue.trans hv) (hqueue.trans hq)
      fun t h => hnone t ((hwaking t).mp h)

/-- A thread that is awake and in no queue has no bed. -/
theorem Bed.up_of_awake (h : b.Bed k) (hphase : b.phase k ≠ .registered) (hfree : k ∉ b.queue k) :
    k ∉ b.listed ∧ b.value k = 0 ∧ b.queue k = [] ∧ ∀ t, b.phase t ≠ .waking k := by
  have hnot : ¬ b.Abed k := by
    intro habed
    cases habed with
    | about hp _ _ => exact hphase hp
    | asleep _ _ hq => exact hfree (by simp [hq])
  cases h with
  | up hk _ hv hq hnone => exact ⟨hk, hv, hq, hnone⟩
  | listed _ habed _ => exact absurd habed hnot
  | called t _ habed _ => exact absurd habed hnot
  | released _ hp _ _ _ => exact absurd hp hphase

/-- The register holds who is about to sleep or sleeps, and no one is about to wake. -/
theorem Made.mem_listed (h : b.Made) : k ∈ b.listed ↔ b.Abed k ∧ ∀ t, b.phase t ≠ .waking k := by
  cases h.bed k with
  | up hk hp _ hq _ =>
    refine ⟨fun hin => absurd hin hk, fun ⟨habed, _⟩ => ?_⟩
    cases habed with
    | about hreg _ _ => exact absurd hreg hp
    | asleep _ _ hin => exact absurd (hq.symm.trans hin) nofun
  | listed hk habed hnone => exact ⟨fun _ => ⟨habed, hnone⟩, fun _ => hk⟩
  | called t hk _ ht =>
    exact ⟨fun hin => absurd hin hk, fun ⟨_, hnone⟩ => absurd ((ht t).mpr rfl) (hnone t)⟩
  | released hk _ hv _ _ =>
    refine ⟨fun hin => absurd hin hk, fun ⟨habed, _⟩ => ?_⟩
    cases habed with
    | about _ hzero _ => exact absurd (hv.symm.trans hzero) (by decide)
    | asleep _ hneg _ => exact absurd (hv.symm.trans hneg) (by decide)

/-- Who sleeps has an entry or somebody about to wake it. -/
theorem Made.queued {x : T} (h : b.Made) (hx : x ∈ b.queue k) :
    x = k ∧ (k ∈ b.listed ∨ ∃ t, b.phase t = .waking k) := by
  have hself : b.Abed k → x = k := by
    intro habed
    cases habed with
    | about _ _ hq => exact absurd hx (by simp [hq])
    | asleep _ _ hq => simpa [hq] using hx
  cases h.bed k with
  | up _ _ _ hq _ => exact absurd hx (by simp [hq])
  | listed hk habed _ => exact ⟨hself habed, .inl hk⟩
  | called t _ habed ht => exact ⟨hself habed, .inr ⟨t, (ht t).mpr rfl⟩⟩
  | released _ _ _ hq _ => exact absurd hx (by simp [hq])

/-- At first nobody sleeps. -/
theorem made_of_empty (hlisted : b.listed = []) (hphase : ∀ t, b.phase t = .awake)
    (hvalue : ∀ t, b.value t = 0) (hqueue : ∀ t, b.queue t = []) : b.Made := by
  refine ⟨by simp [hlisted], fun k => .up (by simp [hlisted]) ?_ (hvalue k) (hqueue k) fun t => ?_⟩
  · simp [hphase]
  · simp [hphase]

variable [DecidableEq T]

def passeren (b : Beds T) (t : T) : Beds T :=
  { b with
    value := Function.update b.value t (b.value t - 1)
    queue := if b.value t - 1 < 0 then Function.update b.queue t (b.queue t ++ [t]) else b.queue }

def verhogen (b : Beds T) (k : T) : Beds T :=
  { b with
    value := Function.update b.value k (b.value k + 1)
    queue := if b.value k + 1 ≤ 0 then Function.update b.queue k (b.queue k).tail else b.queue }

def setPhase (b : Beds T) (t : T) (p : Phase T) : Beds T :=
  { b with phase := Function.update b.phase t p }

theorem setPhase_self (b : Beds T) (t : T) : b.setPhase t (b.phase t) = b := by
  simp [setPhase]

/-- A step of the thread `t`, which is not in a queue. -/
inductive Step (b : Beds T) (t : T) : Beds T → Prop where
  | register : b.phase t = .awake →
      Step b t { b.setPhase t .registered with listed := b.listed ++ [t] }
  | sleep : b.phase t = .registered → Step b t ((b.passeren t).setPhase t .awake)
  | take {k : T} {listed : List T} : b.phase t = .awake → (k :: listed).Perm b.listed →
      Step b t { b.setPhase t (.waking k) with listed := listed }
  | wake {k : T} : b.phase t = .waking k → Step b t ((b.verhogen k).setPhase t .awake)

/-- The change of one thread is none for the wakers of `k` if it neither was nor is
one of them. -/
theorem waking_setPhase {p : Phase T} (hp : p ≠ .waking k) (hbefore : b.phase t ≠ .waking k) (u : T) :
    (b.setPhase t p).phase u = .waking k ↔ b.phase u = .waking k := by
  by_cases hu : u = t
  · subst hu
    simp [setPhase, hp, hbefore]
  · simp [setPhase, hu]

section step

variable (h : b.Made) (hfree : ∀ k, t ∉ b.queue k)

include h hfree

theorem Made.register (hphase : b.phase t = .awake) :
    Made { b.setPhase t .registered with listed := b.listed ++ [t] } := by
  obtain ⟨hk, hv, hq, hnone⟩ := (h.bed t).up_of_awake (by simp [hphase]) (hfree t)
  refine ⟨List.nodup_append.mpr ⟨h.nodup, List.nodup_singleton t, ?_⟩, fun k => ?_⟩
  · rintro x hx y hy rfl
    exact hk (List.mem_singleton.mp hy ▸ hx)
  have hwaking := waking_setPhase (b := b) (t := t) (k := k) (p := .registered) nofun (by simp [hphase])
  by_cases hkt : k = t
  · subst hkt
    refine .listed (by simp) (.about (by simp [setPhase]) hv hq) fun u hu => ?_
    exact hnone u ((hwaking u).mp hu)
  · exact (h.bed k).congr (by simp [hkt]) (by simp [setPhase, hkt]) rfl rfl hwaking

theorem Made.sleep (hphase : b.phase t = .registered) :
    Made ((b.passeren t).setPhase t .awake) := by
  refine ⟨h.nodup, fun k => ?_⟩
  have hwaking : ∀ u, ((b.passeren t).setPhase t .awake).phase u = .waking k ↔ b.phase u = .waking k :=
    waking_setPhase (b := b.passeren t) nofun (by simp [passeren, hphase])
  by_cases hkt : k = t
  · subst hkt
    -- a semaphore that is 0 makes the thread sleep, one that is 1 does not
    have hasleep : b.Abed k → ((b.passeren k).setPhase k .awake).Abed k := by
      intro habed
      cases habed with
      | about _ hv hq =>
        exact .asleep (by simp [setPhase]) (by simp [setPhase, passeren, hv])
          (by simp [setPhase, passeren, hv, hq])
      | asleep hp _ _ => exact absurd (hphase.symm.trans hp) nofun
    cases h.bed k with
    | up _ hp _ _ _ => exact absurd hphase hp
    | listed hk habed hnone =>
      exact .listed hk (hasleep habed) fun u hu => hnone u ((hwaking u).mp hu)
    | called t hk habed ht => exact .called t hk (hasleep habed) fun u => (hwaking u).trans (ht u)
    | released hk _ hv hq hnone =>
      refine .up hk (by simp [setPhase]) (by simp [setPhase, passeren, hv])
        (by simp [setPhase, passeren, hv, hq]) fun u hu => hnone u ((hwaking u).mp hu)
  · refine (h.bed k).congr Iff.rfl (by simp [setPhase, passeren, hkt])
      (by simp [setPhase, passeren, hkt]) ?_ hwaking
    simp only [setPhase, passeren]
    split <;> simp [hkt]

theorem Made.take {listed : List T} (hphase : b.phase t = .awake)
    (hperm : (k :: listed).Perm b.listed) :
    Made { b.setPhase t (.waking k) with listed := listed } := by
  have hnodup : (k :: listed).Nodup := hperm.nodup_iff.mpr h.nodup
  have hmem : ∀ x, x ∈ b.listed ↔ x = k ∨ x ∈ listed := fun x => by
    rw [← hperm.mem_iff, List.mem_cons]
  have hup := (h.bed t).up_of_awake (by simp [hphase]) (hfree t)
  have hkt : k ≠ t := by
    rintro rfl
    exact hup.1 ((hmem k).mpr (.inl rfl))
  refine ⟨(List.nodup_cons.mp hnodup).2, fun x => ?_⟩
  by_cases hxk : x = k
  · subst hxk
    have hx := (List.nodup_cons.mp hnodup).1
    have hin := (hmem x).mpr (.inl rfl)
    cases h.bed x with
    | up hk _ _ _ _ => exact absurd hin hk
    | called _ hk _ _ => exact absurd hin hk
    | released hk _ _ _ _ => exact absurd hin hk
    | listed _ habed hnone =>
      refine .called t hx (habed.congr (by simp [setPhase, hkt]) rfl rfl) fun u => ?_
      by_cases hu : u = t
      · simp [setPhase, hu]
      · simp [setPhase, hu, hnone u]
  · have hwaking := waking_setPhase (b := b) (t := t) (k := x) (p := .waking k)
      (fun heq => hxk (by simpa using heq.symm)) (by simp [hphase])
    by_cases hxt : x = t
    · subst hxt
      obtain ⟨hk, hv, hq, hnone⟩ := hup
      exact .up (fun hin => hk ((hmem x).mpr (.inr hin))) (by simp [setPhase]) hv hq
        fun u hu => hnone u ((hwaking u).mp hu)
    · exact (h.bed x).congr (by simp [hmem, hxk]) (by simp [setPhase, hxt]) rfl rfl hwaking

theorem Made.wake (hphase : b.phase t = .waking k) :
    Made ((b.verhogen k).setPhase t .awake) := by
  have hup := (h.bed t).up_of_awake (by simp [hphase]) (hfree t)
  obtain ⟨hk, habed, ht⟩ : k ∉ b.listed ∧ b.Abed k ∧ ∀ u, b.phase u = .waking k ↔ u = t := by
    cases h.bed k with
    | up _ _ _ _ hnone => exact absurd hphase (hnone t)
    | listed _ _ hnone => exact absurd hphase (hnone t)
    | released _ _ _ _ hnone => exact absurd hphase (hnone t)
    | called t' hk habed ht' =>
      obtain rfl := (ht' t).mp hphase
      exact ⟨hk, habed, ht'⟩
  have hkt : k ≠ t := by
    rintro rfl
    exact hup.2.2.2 k hphase
  refine ⟨h.nodup, fun x => ?_⟩
  by_cases hxk : x = k
  · subst hxk
    have hnone : ∀ u, ((b.verhogen x).setPhase t .awake).phase u ≠ .waking x := by
      intro u
      by_cases hu : u = t
      · simp [setPhase, hu]
      · simpa [setPhase, verhogen, hu] using fun hw => hu ((ht u).mp hw)
    cases habed with
    | about hp hv hq =>
      exact .released hk (by simp [setPhase, verhogen, hkt, hp]) (by simp [setPhase, verhogen, hv])
        (by simp [setPhase, verhogen, hv, hq]) hnone
    | asleep hp hv hq =>
      exact .up hk (by simp [setPhase, verhogen, hkt, hp]) (by simp [setPhase, verhogen, hv])
        (by simp [setPhase, verhogen, hv, hq]) hnone
  · have hwaking : ∀ u, ((b.verhogen k).setPhase t .awake).phase u = .waking x ↔
        b.phase u = .waking x := by
      refine waking_setPhase (b := b.verhogen k) nofun fun heq => hxk ?_
      simpa using heq.symm.trans hphase
    have hvalue : ((b.verhogen k).setPhase t .awake).value x = b.value x := by
      simp [setPhase, verhogen, hxk]
    have hqueue : ((b.verhogen k).setPhase t .awake).queue x = b.queue x := by
      simp only [setPhase, verhogen]
      split <;> simp [hxk]
    by_cases hxt : x = t
    · subst hxt
      obtain ⟨hx, hv, hq, hnone⟩ := hup
      exact .up hx (by simp [setPhase]) (hvalue.trans hv) (hqueue.trans hq)
        fun u hu => hnone u ((hwaking u).mp hu)
    · exact (h.bed x).congr Iff.rfl (by simp [setPhase, verhogen, hxt]) hvalue hqueue hwaking

theorem Made.step (hstep : b.Step t b') : b'.Made := by
  cases hstep with
  | register hphase => exact h.register hfree hphase
  | sleep hphase => exact h.sleep hfree hphase
  | take hphase hperm => exact h.take hfree hphase hperm
  | wake hphase => exact h.wake hfree hphase

end step

end Beds

end Sleepers
