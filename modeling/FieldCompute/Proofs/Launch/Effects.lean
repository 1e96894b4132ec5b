import FieldCompute.Engine
import FieldCompute.Proofs.Routine
import FieldCompute.Proofs.Device.Memory
/-!
# What a run does to the machine

A statement writes bytes of a located element or one result slot (`affect_cases`), and what every
statement of a body does to a machine the whole run does, finished or not (`run_along`). So a run
keeps the allocations of the device (`run_rewritten`). Only stores write to it: a run without them
leaves it alone (`run_device`).
-/

namespace FieldCompute

/-- The statement writes an element of a field. -/
def Stmt.isStore (s : Stmt) : Bool := s matches .store ..

/-- The body writes no element of a field. -/
def Block.Storeless (b : Block) : Prop := ∀ s ∈ b, s.isStore = false

instance (b : Block) : Decidable b.Storeless := inferInstanceAs (Decidable (∀ s ∈ b, _))

namespace Launch

variable {l : Launch} {values : Values} {m n : Machine} {s : Stmt}

/-- What a statement does to the machine, if it does anything. -/
inductive Effect (l : Launch) (m : Machine) (s : Stmt) : Machine → Prop
  | none : Effect l m s m
  | written {place : NodeId} {is : List StmtId} {value : StmtId} {indices : List Int}
      {scalar : Scalar} {p : Pointer} {v : Value} {device : Device} :
    s = .store place is value → l.locate place indices = .ok (scalar, p) →
    m.device.write p (v.toBytes scalar) = .ok device → Effect l m s { m with device }
  | returned {slot : Nat} {value : StmtId} {w : UInt64} {slots : ResultSlots} :
    s = .ret slot value → m.slots.store slot w = .ok slots → Effect l m s { m with slots }

theorem affect_cases (h : l.affect m values s = .ok n) : l.Effect m s n := by
  cases s with
  | store place is v =>
    simp only [affect, Outcome.bind_eq_ok_iff, Outcome.pure_eq, Except.ok.injEq] at h
    obtain ⟨indices, -, w, -, ⟨scalar, p⟩, hp, device, hd, rfl⟩ := h
    cases hw : m.device.write p (w.toBytes scalar) with
    | error e => rw [hw] at hd; cases hd
    | ok device' =>
      rw [hw] at hd
      cases hd
      exact .written rfl hp hw
  | ret slot v =>
    simp only [affect, Outcome.bind_eq_ok_iff, Outcome.pure_eq, Except.ok.injEq] at h
    obtain ⟨-, -, w, -, slots, hs, rfl⟩ := h
    cases hw : m.slots.store slot w with
    | error e => rw [hw] at hs; cases hs
    | ok slots' =>
      rw [hw] at hs
      cases hs
      exact .returned rfl hw
  | _ => cases h; exact .none

theorem step_cases {v : Option Value} (h : l.step m values s = .ok (v, n)) :
    l.evaluate m.device values s = .ok v ∧ l.affect m values s = .ok n := by
  simp only [step, Outcome.bind_eq_ok_iff, Outcome.pure_eq, Except.ok.injEq, Prod.mk.injEq] at h
  obtain ⟨_, hv, _, hn, rfl, rfl⟩ := h
  exact ⟨hv, hn⟩

theorem Effect.rewritten (h : l.Effect m s n) : m.device.Rewritten n.device := by
  cases h with
  | none => exact .refl _
  | written _ _ h => exact .write h
  | returned _ _ => exact .refl _

theorem Effect.device (h : l.Effect m s n) (hs : s.isStore = false) : n.device = m.device := by
  cases h with
  | none => rfl
  | written hstore _ _ => subst hstore; cases hs
  | returned _ _ => rfl

section Along

variable {R : Machine → Machine → Prop} (refl : ∀ m, R m m)
  (trans : ∀ {m n o}, R m n → R n o → R m o)

include refl trans

theorem runFrom_along {rest : List Stmt} (h : ∀ s ∈ rest, ∀ {m n}, l.Effect m s n → R m n) :
    R m (l.runFrom values m rest).2 := by
  induction rest generalizing values m with
  | nil => exact refl m
  | cons s rest ih =>
    obtain ⟨hs, hrest⟩ := List.forall_mem_cons.1 h
    rw [runFrom]
    cases hstep : l.step m values s with
    | error f => exact refl m
    | ok a => exact trans (hs (affect_cases (step_cases hstep).2)) (ih hrest)

/-- What the effect of every statement of the body keeps to, the run keeps to. -/
theorem run_along (h : ∀ s ∈ l.body, ∀ {m n}, l.Effect m s n → R m n) (m : Machine) :
    R m (l.run m).2 := runFrom_along refl trans h

end Along

/-- A run without stores leaves the device alone. -/
theorem run_device (h : l.body.Storeless) (m : Machine) : (l.run m).2.device = m.device :=
  run_along (R := fun m n => n.device = m.device) (fun _ => rfl) (fun h h' => h'.trans h)
    (fun s hs _ _ he => he.device (h s hs)) m

theorem run_rewritten (l : Launch) (m : Machine) : m.device.Rewritten (l.run m).2.device :=
  run_along (R := fun m n => m.device.Rewritten n.device) (fun _ => .refl _) .trans
    (fun _ _ _ _ he => he.rewritten) m

end Launch

namespace Engine

open Routine

/-- The launch of code on the engine as it is. -/
def launchOf (e : Engine) (code : Code) (args : List Value) : Launch :=
  ⟨code.kernel, code.body, args, e.binding?⟩

/-- The fault that the end of a run leaves behind, if any. -/
def faultAfter? (code : Code) : Except Halt Unit → Option String
  | .ok () => none
  | .error halt => faultOf? code halt.failure

/-- The answer to who runs the code. A fault is no failure. -/
def answerAfter (code : Code) : Except Halt Unit → Except Failure Unit
  | .ok () => .ok ()
  | .error halt => if (faultOf? code halt.failure).isSome then .ok () else .error halt.failure

/-- However the run ends, device and slots are left as it leaves them. -/
theorem run_on (code : Code) (args : List Value) (e : Engine) (slots : ResultSlots)
    {r : Except Halt Unit} {m : Machine} (h : (e.launchOf code args).run ⟨e.device, slots⟩ = (r, m)) :
    (run code args).on (e, slots) = (answerAfter code r,
      { e.withDevice m.device with fault := e.fault.or (faultAfter? code r) }, m.slots) := by
  rw [launchOf] at h
  rw [run, on_of]
  simp only [h]
  obtain halt | _ := r
  · simp only [answerAfter, faultAfter?]
    cases faultOf? code halt.failure with
    | none => simp [withDevice]
    | some fault => rfl
  · simp [answerAfter, faultAfter?, withDevice]

end Engine

end FieldCompute
