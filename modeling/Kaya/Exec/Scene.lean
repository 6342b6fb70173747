import Kaya.Exec.Script
import Kaya.Exec.Threads

/-! Runs of threads that are computed. -/

namespace Exec

/-- A state of the threads that knows who waits, and for which semaphore. -/
structure Scene (T A O : Type) (R : O → Type) (σ : Type) where
  pool : Pool T A O R σ
  waiting : List (T × A)
  covers : ∀ a, ∀ t ∈ pool.queue a, (t, a) ∈ waiting

namespace Scene

/-- What a thread does next; `w` tells what its operation answers. -/
inductive Cue (T E W : Type) where
  | enter (t : T) (e : E)
  | leave (t : T)
  | perform (t : T) (w : W)

/-- What computes the steps of the threads. -/
structure Cast {T A E O σ : Type} {R : O → Type} (S : Threads T A E O R σ) (W : Type) where
  enters : T → E → List (Frame A O R) → σ → Option σ
  act : T → W → (o : O) → σ → Option (R o × σ)
  answer : (o : O) → Option (R o)
  enters_spec : ∀ t e fs s s', enters t e fs s = some s' → S.enters t e fs s s'
  act_spec : ∀ t w o v s r s', act t w o s = some (r, s') → S.act t o (v, s) r (v, s')

variable {T A E O σ W : Type} {R : O → Type} [DecidableEq T] [DecidableEq A]

/-- Nobody has run yet. -/
def start (c : Pool T A O R σ) (h : ∀ a, c.queue a = []) : Scene T A O R σ :=
  ⟨c, [], fun a t ht => by simp [h a] at ht⟩

/-- The thread can go on. -/
def running (c : Scene T A O R σ) (t : T) : Bool :=
  !c.pool.halted && !c.pool.dead t && c.waiting.all fun x => x.1 ≠ t

/-- The threads go on to a state in which nobody but `l` has begun to wait. -/
def toPool (c : Scene T A O R σ) (d : Pool T A O R σ) (l : List (T × A))
    (h : ∀ a, ∀ t ∈ d.queue a, t ∈ c.pool.queue a ∨ (t, a) ∈ l) : Scene T A O R σ where
  pool := d
  waiting := (c.waiting ++ l).filter fun x => x.1 ∈ d.queue x.2
  covers a t ht := List.mem_filter.mpr
    ⟨List.mem_append.mpr ((h a t ht).imp_left (c.covers a t)), by simpa using ht⟩

def passeren (c : Scene T A O R σ) (t : T) (a : A) (fs : List (Frame A O R)) : Scene T A O R σ :=
  c.toPool ((c.pool.passeren t a).setStack t fs) [(t, a)] fun _ _ hu =>
    (Pool.mem_queue_of_passeren hu).imp_right fun ⟨ht, ha⟩ => by simp [ht, ha]

def verhogen (c : Scene T A O R σ) (t : T) (a : A) (fs : List (Frame A O R)) : Scene T A O R σ :=
  c.toPool ((c.pool.verhogen a).setStack t fs) [] fun _ _ hu => .inl (Pool.mem_queue_of_verhogen hu)

/-- The threads go on to a state with the same queues. -/
def setPool (c : Scene T A O R σ) (d : Pool T A O R σ) (h : d.queue = c.pool.queue) :
    Scene T A O R σ :=
  c.toPool d [] fun a _ ht => .inl (congrFun h a ▸ ht)

variable {S : Threads T A E O R σ}

/-- What computes the steps of threads with guarded entries. -/
def Cast.guarded (P : Cast S W) (Q : T → E → σ → Prop) [∀ t e s, Decidable (Q t e s)] :
    Cast (S.guarded Q) W where
  enters t e fs s := if Q t e s then P.enters t e fs s else none
  act := P.act
  answer := P.answer
  enters_spec t e fs s s' h := by
    obtain ⟨hQ, henters⟩ := Option.ite_none_right_eq_some.mp h
    exact ⟨P.enters_spec t e fs s s' henters, hQ⟩
  act_spec := P.act_spec

/-- The state after a cue, if the cue can come. -/
def next (P : Cast S W) (c : Scene T A O R σ) : Cue T E W → Option (Scene T A O R σ)
  | .enter t e =>
    if c.running t then
      (P.enters t e (c.pool.stack t) c.pool.shared).map fun s' =>
        c.setPool { c.pool.setStack t (⟨S.program t e, []⟩ :: c.pool.stack t) with shared := s' } rfl
    else none
  | .leave t =>
    if c.running t then
      match c.pool.stack t with
      | ⟨.ret (), _⟩ :: fs => some (c.setPool (c.pool.setStack t fs) rfl)
      | _ => none
    else none
  | .perform t w =>
    if c.running t then
      match c.pool.stack t with
      | ⟨.call o k, held⟩ :: fs =>
        match S.kind o with
        | .passeren a => (P.answer o).map fun r => c.passeren t a (⟨k r, S.take a held⟩ :: fs)
        | .verhogen a => (P.answer o).map fun r => c.verhogen t a (⟨k r, S.give a held⟩ :: fs)
        | .exit => some (c.setPool
            { c.pool.setStack t [] with dead := Function.update c.pool.dead t true } rfl)
        | .halt => some (c.setPool { c.pool with halted := true } rfl)
        | .other => (P.act t w o c.pool.shared).map fun x =>
            c.setPool { c.pool.setStack t (⟨k x.1, held⟩ :: fs) with shared := x.2 } rfl
      | _ => none
    else none

/-- The event of a cue. -/
def event (c : Scene T A O R σ) : Cue T E W → Happening T E O
  | .enter t e => .enter t e
  | .leave t => .leave t
  | .perform t _ =>
    match c.pool.stack t with
    | ⟨.call o _, _⟩ :: _ => .perform t o
    | _ => .leave t

variable {P : Cast S W} {c c' : Scene T A O R σ} {t : T} {cue : Cue T E W}

omit [DecidableEq A] in
theorem running_spec (h : c.running t = true) : c.pool.Running t := by
  simp only [running, Bool.and_eq_true, Bool.not_eq_true', List.all_eq_true, decide_eq_true_eq] at h
  obtain ⟨⟨hhalted, hdead⟩, hwaiting⟩ := h
  exact ⟨hhalted, hdead, fun ⟨a, ha⟩ => hwaiting _ (c.covers a t ha) rfl⟩

theorem next_spec (h : c.next P cue = some c') : S.Step c.pool (c.event cue) c'.pool := by
  cases cue with
  | enter t e =>
    simp only [next] at h
    split at h
    · rename_i hrun
      obtain ⟨s', henters, rfl⟩ := Option.map_eq_some_iff.mp h
      exact .enter (running_spec hrun) (P.enters_spec _ _ _ _ _ henters)
    · exact absurd h nofun
  | leave t =>
    simp only [next] at h
    split at h
    · rename_i hrun
      split at h
      · rename_i held fs hstack
        obtain rfl := Option.some.inj h
        exact .leave (running_spec hrun) hstack
      · exact absurd h nofun
    · exact absurd h nofun
  | perform t w =>
    simp only [next] at h
    split at h
    · rename_i hrun
      split at h
      · rename_i o k held fs hstack
        have hevent : c.event (.perform t w : Cue T E W) = .perform t o := by
          simp only [event, hstack]
        rw [hevent]
        split at h
        · rename_i a hkind
          obtain ⟨r, -, rfl⟩ := Option.map_eq_some_iff.mp h
          exact .passeren (running_spec hrun) hstack hkind
        · rename_i a hkind
          obtain ⟨r, -, rfl⟩ := Option.map_eq_some_iff.mp h
          exact .verhogen (running_spec hrun) hstack hkind
        · rename_i hkind
          obtain rfl := Option.some.inj h
          exact .exit (running_spec hrun) hstack hkind
        · rename_i hkind
          obtain rfl := Option.some.inj h
          exact .halt (running_spec hrun) hstack hkind
        · rename_i hkind
          obtain ⟨⟨r, s'⟩, hact, rfl⟩ := Option.map_eq_some_iff.mp h
          exact .other (running_spec hrun) hstack hkind (P.act_spec _ _ _ _ _ _ _ hact)
      · exact absurd h nofun
    · exact absurd h nofun

/-- The script of the threads. -/
def script (P : Cast S W) : Script (Scene T A O R σ) (Happening T E O) (Cue T E W) :=
  .ofNext event (next P)

theorem script_follows (init : Pool T A O R σ → Prop) :
    (script P).Follows ((S.system init).comap Scene.pool) :=
  Script.follows_ofNext fun _ _ _ h => next_spec h

end Scene

end Exec
