import Kaya.Exec.Run
import Kaya.Phase2.Kernel

open Links

namespace Kaya

variable {α β : Type} {h h' : Heap} {d d' : Data} {a : α} {e : Stop}

/-! One step of nucleus code: a function on the tables or on the other data. -/

theorem run_heap_ok {x : HeapM α} (hx : x.run h = .ok a h') :
    (liftM x : KernelM α).run ⟨h, d⟩ = .ok a ⟨h', d⟩ := by
  show (Exec.zoom Kernel.heap _ x).run _ = _
  rw [Exec.run_zoom, hx]

theorem run_heap_error {x : HeapM α} (hx : x.run h = .error e h') :
    (liftM x : KernelM α).run ⟨h, d⟩ = .error e ⟨h', d⟩ := by
  show (Exec.zoom Kernel.heap _ x).run _ = _
  rw [Exec.run_zoom, hx]

theorem run_data_ok {x : DataM α} (hx : x.run d = .ok a d') :
    (liftM x : KernelM α).run ⟨h, d⟩ = .ok a ⟨h, d'⟩ := by
  show (Exec.zoom Kernel.data _ x).run _ = _
  rw [Exec.run_zoom, hx]

theorem run_data_error {x : DataM α} (hx : x.run d = .error e d') :
    (liftM x : KernelM α).run ⟨h, d⟩ = .error e ⟨h, d'⟩ := by
  show (Exec.zoom Kernel.data _ x).run _ = _
  rw [Exec.run_zoom, hx]

theorem bind_heap {x : HeapM α} {f : α → KernelM β} (hx : x.run h = .ok a h') :
    ((liftM x : KernelM α) >>= f).run ⟨h, d⟩ = (f a).run ⟨h', d⟩ :=
  Exec.run_bind_ok (run_heap_ok hx)

theorem bind_heap_error {x : HeapM α} {f : α → KernelM β} (hx : x.run h = .error e h') :
    ((liftM x : KernelM α) >>= f).run ⟨h, d⟩ = .error e ⟨h', d⟩ :=
  Exec.run_bind_error (run_heap_error hx)

theorem bind_data {x : DataM α} {f : α → KernelM β} (hx : x.run d = .ok a d') :
    ((liftM x : KernelM α) >>= f).run ⟨h, d⟩ = (f a).run ⟨h, d'⟩ :=
  Exec.run_bind_ok (run_data_ok hx)

theorem bind_data_error {x : DataM α} {f : α → KernelM β} (hx : x.run d = .error e d') :
    ((liftM x : KernelM α) >>= f).run ⟨h, d⟩ = .error e ⟨h, d'⟩ :=
  Exec.run_bind_error (run_data_error hx)

@[simp] theorem bind_modifyData {f : Data → Data} {g : Unit → KernelM β} :
    ((liftM (modifyData f) : KernelM Unit) >>= g).run ⟨h, d⟩ = (g ()).run ⟨h, f d⟩ :=
  bind_data rfl

@[simp] theorem run_modifyData_lift {f : Data → Data} :
    (liftM (modifyData f) : KernelM Unit).run ⟨h, d⟩ = .ok () ⟨h, f d⟩ :=
  run_data_ok rfl

@[simp] theorem bind_get {g : Kernel → KernelM β} {k : Kernel} :
    ((get : KernelM Kernel) >>= g).run k = (g k).run k := rfl

@[simp] theorem run_modifyData {f : Data → Data} : (modifyData f).run d = .ok () (f d) := rfl

@[simp] theorem run_STCK :
    STCK.run d = .ok (d.clock d.readings) { d with readings := d.readings + 1 } := rfl

@[simp] theorem run_LDIT {t : Int} :
    (LDIT t).run d = .ok () { d with intervalTimer := t } := rfl

@[simp] theorem run_derefPcb_to {p : Pid} : (derefPcb (.to p)).run d = .ok p d := rfl

@[simp] theorem run_derefPcb_null : (derefPcb .null).run d = .error .trap d := rfl

section

variable {M : Machine} {area : OldArea} {f : Field} {p : Pid} {w b v : Word}

@[simp] theorem run_getField_old :
    (getField M (.old area) f).run d = .ok ((d.old area).get f) d := rfl

@[simp] theorem run_getField_pcb :
    (getField M (.pcb_state (.to p)) f).run d = .ok ((d.pcb_state p).get f) d := rfl

@[simp] theorem run_setField_old : (setField M (.old area) f w).run d =
    .ok () { d with old := Function.update d.old area ((d.old area).set f w) } := rfl

@[simp] theorem run_setField_pcb : (setField M (.pcb_state (.to p)) f w).run d =
    .ok () { d with pcb_state := Function.update d.pcb_state p ((d.pcb_state p).set f w) } := rfl

@[simp] theorem run_setField_null :
    (setField M (.pcb_state .null) f w).run d = .error .trap d := rfl

theorem run_loadWord_ok (hb : M.readable b = true) :
    (loadWord M b).run d = .ok (d.mem b) d := by
  simp [loadWord, hb]

theorem run_loadWord_trap (hb : M.readable b = false) :
    (loadWord M b).run d = .error .trap d := by
  simp [loadWord, hb]

theorem run_storeWord_ok (hb : M.writable b = true) : (storeWord M b v).run d =
    .ok () { d with mem := Function.update d.mem b v } := by
  simp [storeWord, hb]

theorem run_storeWord_trap (hb : M.writable b = false) :
    (storeWord M b v).run d = .error .trap d := by
  simp [storeWord, hb]

end

end Kaya
