import Kaya.Exec.Scene
import Kaya.Phase3.AvslRuns
import Kaya.Phase3.Delay
import Kaya.Phase3.Paging

open Exec Prog

namespace Kaya

open Phase3

variable {β : Type}

/-- What a device does when it is ready after a command of the process. -/
def Command.serve (c : Command) (ID : Word) (s : Phase3 β) : Option (Phase3 β) :=
  if c.devNum = DISK0 then
    if c.command &&& 0xFF = DISK_SEEKCYL then some { s with cylinder := c.command >>> 8 }
    else match c.d_data0 with
      | none => none
      | some a =>
        if c.command &&& 0xFF = DISK_READBLK then
          some (s.setPage a (s.block s.cylinder (c.command >>> 16) ((c.command >>> 8) &&& 0xFF)))
        else if c.command &&& 0xFF = DISK_WRITEBLK then
          some (s.setBlock s.cylinder (c.command >>> 16) ((c.command >>> 8) &&& 0xFF) (s.page a))
        else none
  else if c.line = BitVec.ofNat 32 TAPEINT then
    match c.d_data0, s.tape ID with
    | some a, x :: rest =>
      if c.devNum = tapeNumber ID ∧ c.command = DISK_READBLK then
        some { s.setPage a x with
          tape := Function.update s.tape ID rest
          data1 := Function.update s.data1 (tapeNumber ID) (if rest = [] then 0 else TAPE_EOB) }
      else none
    | _, _ => none
  else some s

/-- What an operation that concerns no semaphore answers and does to the state; what is loaded
from memory and the clock is `w`, and all devices are ready. -/
def Op.serve (S : Setup) (ID w : Word) : (o : Op) → Phase3 β → Option (o.Answer × Phase3 β)
  | .getOld p f, s => some ((s.old p).get f, s)
  | .setOld p f v, s =>
    some ((), { s with old := Function.update s.old p ((s.old p).set f v) })
  | .loadWord a, s => if s.Mapped ID a then some (w, s) else none
  | .loadByte a, s => if s.Mapped ID a then some (BitVec.setWidth 8 w, s) else none
  | .storeWord a _, s => if s.Mapped ID a ∧ S.vars a = false then some ((), s) else none
  | .storeByte a _, s => if s.Mapped ID a ∧ S.vars a = false then some ((), s) else none
  | .STCK, s => some (w, s)
  | .getSwap i, s => some (s.swapPool i, s)
  | .setSwap i x, s => some ((), { s with swapPool := Function.update s.swapPool i x })
  | .getEntryLO p, s => some (s.entryLO p, s)
  | .setEntryLO p v, s => some ((), s.setEntryLO p v)
  | .getNext, s => some (s.next, s)
  | .setNext n, s => some ((), { s with next := n })
  | .waitio c, s => (c.serve ID s).map fun s' => (READY, s')
  | .getData1 d, s => some (s.data1 d, s)
  | .vInsertBlocked a p, s =>
    match (Kaya.vInsertBlocked a p).run s.avsl with
    | .ok r l => some (r, { s with avsl := l })
    | .error _ _ => none
  | .vRemoveBlocked a, s =>
    match (Kaya.vRemoveBlocked MAXPROC a).run s.avsl with
    | .ok r l => some (r, { s with avsl := l })
    | .error _ _ => none
  | .insertDelay t p, s =>
    match (Kaya.insertDelay MAXPROC t p).run s.adl with
    | .ok r l => some (r, { s with adl := l })
    | .error _ _ => none
  | .headDelayTime, s =>
    match Kaya.headDelayTime.run s.adl with
    | .ok r _ => some (r, s)
    | .error _ _ => none
  | .removeDelay, s =>
    match Kaya.removeDelay.run s.adl with
    | .ok r l => some (r, { s with adl := l })
    | .error _ _ => none
  | _, _ => none

variable {S : Setup} {ID w : Word} {s s' : Phase3 β} {o : Op} {r : o.Answer}

theorem Command.done_of_serve {c : Command} (h : c.serve ID s = some s') : s.Done c s' := by
  unfold Command.serve at h
  split at h
  · rename_i hdev
    split at h
    · rename_i hseek
      obtain rfl := Option.some.inj h
      exact .seek hdev hseek
    · split at h
      · exact absurd h nofun
      · rename_i a hdata
        split at h
        · rename_i hread
          obtain rfl := Option.some.inj h
          exact .read hdev hread hdata
        · split at h
          · rename_i hwrite
            obtain rfl := Option.some.inj h
            exact .write hdev hwrite hdata
          · exact absurd h nofun
  · rename_i hdev
    split at h
    · rename_i hline
      split at h
      · rename_i a x rest hdata htape
        split at h
        · rename_i hread
          obtain rfl := Option.some.inj h
          exact .tape hread.1 hline hread.2 hdata htape
        · exact absurd h nofun
      · exact absurd h nofun
    · rename_i hline
      obtain rfl := Option.some.inj h
      exact .other hdev hline

/-- What is computed is what the operation does. -/
theorem acts_of_serve (v : Sem → Int) (h : o.serve S ID w s = some (r, s')) :
    Acts S ID o (v, s) r (v, s') := by
  cases o with
  | loadWord a =>
    obtain ⟨hmapped, heq⟩ := Option.ite_none_right_eq_some.mp h
    cases heq
    exact .loadWord hmapped
  | loadByte a =>
    obtain ⟨hmapped, heq⟩ := Option.ite_none_right_eq_some.mp h
    cases heq
    exact .loadByte hmapped
  | storeWord a x =>
    obtain ⟨hmapped, heq⟩ := Option.ite_none_right_eq_some.mp h
    cases heq
    have hact := Acts.storeWord (S := S) (v := v) (w := x) (x := s.page (s.pageAt ID a))
      hmapped.1 hmapped.2
    rwa [Phase3.setPage, Function.update_eq_self] at hact
  | storeByte a x =>
    obtain ⟨hmapped, heq⟩ := Option.ite_none_right_eq_some.mp h
    cases heq
    have hact := Acts.storeByte (S := S) (v := v) (b := x) (x := s.page (s.pageAt ID a))
      hmapped.1 hmapped.2
    rwa [Phase3.setPage, Function.update_eq_self] at hact
  | waitio c =>
    obtain ⟨s'', hserve, heq⟩ := Option.map_eq_some_iff.mp h
    cases heq
    exact .ready (Command.done_of_serve hserve)
  | vInsertBlocked a p =>
    simp only [Op.serve] at h
    split at h
    · rename_i r' l hrun
      cases h
      exact .vInsertBlocked hrun
    · exact absurd h nofun
  | vRemoveBlocked a =>
    simp only [Op.serve] at h
    split at h
    · rename_i r' l hrun
      cases h
      exact .vRemoveBlocked (returns_vRemoveBlocked hrun)
    · exact absurd h nofun
  | insertDelay t p =>
    simp only [Op.serve] at h
    split at h
    · rename_i r' l hrun
      cases h
      exact .insertDelay (returns_insertDelay hrun)
    · exact absurd h nofun
  | headDelayTime =>
    simp only [Op.serve] at h
    split at h
    · rename_i r' l hrun
      cases h
      exact .headDelayTime hrun
    · exact absurd h nofun
  | removeDelay =>
    simp only [Op.serve] at h
    split at h
    · rename_i r' l hrun
      cases h
      exact .removeDelay hrun
    · exact absurd h nofun
  | getOld p f => cases h; exact .getOld
  | setOld p f v => cases h; exact .setOld
  | STCK => cases h; exact .STCK
  | getSwap i => cases h; exact .getSwap
  | setSwap i x => cases h; exact .setSwap
  | getEntryLO p => cases h; exact .getEntryLO
  | setEntryLO p v => cases h; exact .setEntryLO
  | getNext => cases h; exact .getNext
  | setNext n => cases h; exact .setNext
  | getData1 d => cases h; exact .getData1
  | _ => exact absurd h nofun

/-! Runs of the pager -/

/-- What an operation does while no other process runs. -/
def Op.serveAlone (S : Setup) (ID : Word) : (o : Op) → Phase3 β → Option (o.Answer × Phase3 β)
  | .passeren _, s => some ((), s)
  | .verhogen (.uProc_semAdd _), _ => none
  | .verhogen _, s => some ((), s)
  | o, s => o.serve S ID 0 s

/-- The process ends with the operation. -/
def Op.isEnd : Op → Bool
  | .terminateProcess => true
  | _ => false

theorem alone_of_serve {ready : Bool} (h : o.serveAlone S ID s = some (r, s')) :
    Alone S ready ID o s r s' := by
  have hother : opKind S o = .other → (∀ c, o ≠ .waitio c) → o.serve S ID 0 s = some (r, s') →
      Alone S ready ID o s r s' :=
    fun hkind hne hserve => .other hkind hne (acts_of_serve (fun _ => 0) hserve)
  cases o with
  | passeren x =>
    cases h
    exact .semaphore nofun
  | verhogen x =>
    cases x with
    | uProc_semAdd p => exact absurd h nofun
    | _ =>
      cases h
      exact .semaphore nofun
  | waitio c =>
    have hserve : (Op.waitio c).serve S ID 0 s = some (r, s') := h
    refine .waitio (acts_of_serve (fun _ => 0) hserve) fun _ => ?_
    obtain ⟨s'', -, heq⟩ := Option.map_eq_some_iff.mp hserve
    exact (congrArg Prod.fst heq).symm
  | terminateProcess => exact absurd h nofun
  | panic => exact absurd h nofun
  | spin => exact absurd h nofun
  | _ => exact hother rfl nofun h

/-- Runs code of a process without interruption. -/
def execAlone {α : Type} (S : Setup) (ID : Word) (p : Code α) (s : Phase3 β) :
    Option (Option α × Phase3 β) :=
  p.exec (Op.serveAlone S ID) Op.isEnd s

theorem runsAlone_of_exec {α : Type} {ready : Bool} {p : Code α} {y : Option α}
    (h : execAlone S ID p s = some (y, s')) : RunsAlone S ready ID p s y s' := by
  refine .of_exec (fun _ _ _ _ => alone_of_serve) (fun o ho => ?_) h
  cases o <;> first | rfl | exact absurd ho Bool.false_ne_true

instance (c : Paging β) : Decidable (c.CanRun S ID) :=
  decidable_of_iff (S.IsProcess ID ∧ c.ended ID = false ∧ c.pending ID = none)
    ⟨fun h => ⟨h.1, h.2.1, h.2.2⟩, fun h => ⟨h.process, h.live, h.resident⟩⟩

/-- What an event does, if it can happen. The disk is ready. -/
def PagingEvent.next (S : Setup) (c : Paging β) : PagingEvent β → Option (Paging β)
  | .fault ID st =>
    if c.CanRun S ID ∧ MissingPage st ∧ SEG2 ≤ st.s_asid ∧
        ¬ c.shared.IsValid (pteOf ID st.s_asid) then
      some { c with pending := Function.update c.pending ID (some st) }
    else none
  | .serve ID _ =>
    match c.pending ID with
    | some st =>
      match execAlone S ID (vmMemHandler S st ID) c.shared with
      | some (some (), s') =>
        some { c with shared := s', pending := Function.update c.pending ID none }
      | _ => none
    | none => none
  | .store ID a x =>
    if c.CanRun S ID ∧ SEG2 ≤ a ∧ c.shared.Mapped ID a then
      some { c with shared := c.shared.setPage (c.shared.pageAt ID a) x }
    else none
  | .terminate ID =>
    if c.CanRun S ID then
      match execAlone S ID (meIRL S ID) c.shared with
      | some (none, s') => some { c with shared := s', ended := Function.update c.ended ID true }
      | _ => none
    else none

theorem PagingEvent.step_of_next {c c' : Paging β} {e : PagingEvent β}
    (h : e.next S c = some c') : Paging.Step S c e c' := by
  cases e with
  | fault ID st =>
    obtain ⟨⟨hrun, hmissing, hlo, hinvalid⟩, heq⟩ := Option.ite_none_right_eq_some.mp h
    obtain rfl := Option.some.inj heq
    exact .fault hrun hmissing hlo hinvalid
  | serve ID ready =>
    simp only [PagingEvent.next] at h
    split at h
    · rename_i st hpending
      split at h
      · rename_i s' hexec
        obtain rfl := Option.some.inj h
        exact .serve hpending (runsAlone_of_exec hexec)
      · exact absurd h nofun
    · exact absurd h nofun
  | store ID a x =>
    obtain ⟨⟨hrun, hlo, hmapped⟩, heq⟩ := Option.ite_none_right_eq_some.mp h
    obtain rfl := Option.some.inj heq
    exact .store hrun hlo hmapped
  | terminate ID =>
    obtain ⟨hrun, hexec⟩ := Option.ite_none_right_eq_some.mp h
    split at hexec
    · rename_i s' hend
      obtain rfl := Option.some.inj hexec
      have hruns : RunsAlone S true ID (meIRL S ID) c.shared none s' := runsAlone_of_exec hend
      exact .terminate hrun hruns
    · exact absurd hexec nofun

/-- Runs of the pager. -/
def pagingScript (β : Type) (S : Setup) : Script (Paging β) (PagingEvent β) (PagingEvent β) :=
  .ofNext (fun _ e => e) fun c e => e.next S c

theorem pagingScript_follows : (pagingScript β S).Follows (pagingSystem β S) :=
  Script.follows_ofNext fun _ _ _ => PagingEvent.step_of_next

/-! Runs of the user processes -/

instance (s : Phase3 β) (fs : List (Frame Sem Op Op.Answer)) : Decidable (InUserMode S s ID fs) :=
  inferInstanceAs (Decidable (_ ∧ _))

instance (s : Phase3 β) (fs : List (Frame Sem Op Op.Answer)) : Decidable (CanTrap S s ID fs) :=
  match fs with
  | [] => decidable_of_iff (InUserMode S s ID [])
      ⟨.inl, fun h => h.resolve_right fun ⟨_, _, _, _, hfs, _⟩ => absurd hfs nofun⟩
  | ⟨.ret _, _⟩ :: _ => .isFalse fun h =>
      h.elim (fun huser => absurd huser.2.1 nofun) fun ⟨_, _, _, _, hfs, _⟩ => absurd hfs nofun
  | ⟨.call o k, held⟩ :: fs => decidable_of_iff (o.isAccess = true)
      ⟨fun haccess => .inr ⟨o, k, held, fs, rfl, haccess⟩, fun h =>
        h.elim (fun huser => absurd huser.2.1 nofun) fun ⟨_, _, _, _, hfs, haccess⟩ => by
          cases hfs
          exact haccess⟩

/-- What entering code of phase 3 does, if it is possible; a store leaves the contents of its
page as they are. -/
def UserEntry.admitted (S : Setup) (ID : Word) :
    UserEntry → List (Frame Sem Op Op.Answer) → Phase3 β → Option (Phase3 β)
  | .daemon _, [], s => if ID = BitVec.ofNat 32 (S.MAXUSERPROC + 2) then some s else none
  | .boot _, [], s =>
    if S.IsProcess ID ∧ s.started ID = false then
      some { s with started := Function.update s.started ID true }
    else none
  | .call _ st, fs, s =>
    if InUserMode S s ID fs then some { s with old := Function.update s.old ID st } else none
  | .tlb _, fs, s => if CanTrap S s ID fs then some s else none
  | .program, fs, s => if CanTrap S s ID fs then some s else none
  | .store a, fs, s => if InUserMode S s ID fs ∧ SEG2 ≤ a ∧ s.Mapped ID a then some s else none
  | _, _, _ => none

theorem enters_of_admitted {entry : UserEntry} {fs : List (Frame Sem Op Op.Answer)}
    (h : entry.admitted S ID fs s = some s') : UserEnters S ID entry fs s s' := by
  cases entry with
  | daemon n =>
    cases fs with
    | nil =>
      obtain ⟨hID, heq⟩ := Option.ite_none_right_eq_some.mp h
      obtain rfl := Option.some.inj heq
      exact .daemon hID
    | cons f fs => exact absurd h nofun
  | boot n =>
    cases fs with
    | nil =>
      obtain ⟨hID, heq⟩ := Option.ite_none_right_eq_some.mp h
      obtain rfl := Option.some.inj heq
      exact .boot hID.1 hID.2
    | cons f fs => exact absurd h nofun
  | call n st =>
    obtain ⟨huser, heq⟩ := Option.ite_none_right_eq_some.mp h
    obtain rfl := Option.some.inj heq
    exact .call huser
  | tlb st =>
    obtain ⟨htrap, heq⟩ := Option.ite_none_right_eq_some.mp h
    obtain rfl := Option.some.inj heq
    exact .tlb htrap
  | program =>
    obtain ⟨htrap, heq⟩ := Option.ite_none_right_eq_some.mp h
    obtain rfl := Option.some.inj heq
    exact .program htrap
  | store a =>
    obtain ⟨⟨huser, hlo, hmapped⟩, heq⟩ := Option.ite_none_right_eq_some.mp h
    obtain rfl := Option.some.inj heq
    have henter := UserEnters.store (x := s.page (s.pageAt ID a)) huser hlo hmapped
    rwa [Phase3.setPage, Function.update_eq_self] at henter

/-- What a P and a V answer. -/
def Op.answer : (o : Op) → Option o.Answer
  | .passeren _ => some ()
  | .verhogen _ => some ()
  | _ => none

def userCast (β : Type) (S : Setup) : Scene.Cast (userThreads (β := β) S) Word where
  enters := UserEntry.admitted S
  act ID w o s := o.serve S ID w s
  answer := Op.answer
  enters_spec _ _ _ _ _ := enters_of_admitted
  act_spec _ _ _ v _ _ _ := acts_of_serve v

abbrev UserScene (β : Type) : Type := Scene Word Sem Op Op.Answer (Phase3 β)

abbrev UserCue : Type := Scene.Cue Word UserEntry Word

/-- Runs of the user processes. -/
abbrev userScript (β : Type) (S : Setup) :
    Script (UserScene β) (Happening Word UserEntry Op) UserCue :=
  Scene.script (userCast β S)

/-- The process goes on by `n` operations. -/
def onwards (ID : Word) (n : Nat) : List UserCue :=
  List.replicate n (.perform ID 0)

/-- The fault of a load from the start of `kUseg2`. -/
def firstFault : State := { State.zero with s_asid := SEG2, s_cause := TLBL <<< 2 }

/-- The fault of a load from the second page of `kUseg2`. -/
def secondFault : State := { State.zero with s_asid := 0x80001000, s_cause := TLBL <<< 2 }

/-- The fault of a load from the start of `kUseg3`. -/
def sharedFault : State := { State.zero with s_asid := SEG3, s_cause := TLBL <<< 2 }

end Kaya
