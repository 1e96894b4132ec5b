import FieldCompute.Proofs.Program.Launches
import FieldCompute.Proofs.Program.Teardown
/-!
# Commands are chains of moves

Every command is a chain of moves (`World.step_moves`), so what a fresh program has and every move
keeps holds in every run (`Run.invariant`).
-/

namespace FieldCompute

open Routine Relation

/-- The command is about settings, results, the profile, numbers or functions, or makes code ready
for another program. -/
def Command.IsQuiet : Command → Prop
  | .updateConfig .. | .readConfig _ | .storeResult .. | .profilerStart _ | .profilerStop
  | .clearProfile | .takeKernelId | .takeGlobalId | .function _ | .setBody .. | .prepareGuest ..
  | .takeResults _ => True
  | _ => False

/-- The command runs no code, gives no tree storage and stays inside the program. -/
def Command.IsCalm : Command → Prop
  | .addTree .. | .readField .. | .writeField .. | .launch .. | .evaluateUnary ..
  | .evaluateBinary .. | .fillNdarray .. | .runGuest .. | .finalize | .drop => False
  | c => ¬c.IsRaw

/-- The command gives no tree storage, fills no array and stays inside the program, which goes on. -/
def Command.IsActive : Command → Prop
  | .addTree .. | .fillNdarray .. | .finalize | .drop => False
  | c => ¬c.IsRaw

namespace World

open Program

variable {ok : World → Command → Prop} {w : World}

/-- Commands that hand nothing out and take nothing back. -/
theorem step_of_quietly {α : Type} {op : Op α} {c : Command}
    (hc : c.action = (do let _ ← op; return none)) (hs : c.surrendered? = none) :
    w.step c = ⟨(op.on w.program).2, w.held⟩ := by
  rw [step, hc, on_bind]
  obtain ⟨r | r, p⟩ := op.on w.program
  · rfl
  · simp only [on_pure, hs, keep]

/-- Commands that take an allocation back. -/
theorem step_of_surrender {α : Type} {op : Op α} {c : Command} {a : Allocation}
    (hc : c.action = (do let _ ← op; return none)) (hs : c.surrendered? = some a) :
    w.step c = match op.on w.program with
      | (.ok _, p) => ⟨p, keep w.held (some a)⟩
      | (.error _, p) => ⟨p, w.held⟩ := by
  rw [step, hc, on_bind]
  obtain ⟨r | r, p⟩ := op.on w.program
  · rfl
  · simp only [on_pure, hs]

/-- Commands that hand an allocation out. -/
theorem step_of_handing {op : Op Allocation} {c : Command} (hc : c.action = some <$> op) :
    w.step c = match op.on w.program with
      | (.ok a, p) => ⟨p, a :: w.held⟩
      | (.error _, p) => ⟨p, w.held⟩ := by
  rw [step, hc, on_map]
  obtain ⟨r | r, p⟩ := op.on w.program <;> rfl

theorem step_program (w : World) (c : Command) :
    (w.step c).program = (c.action.on w.program).2 := by
  rw [step]
  obtain ⟨r | (_ | r), p⟩ := c.action.on w.program <;> rfl

/-- Whatever becomes of an allocation, the program is as the operation leaves it. -/
theorem step_op {α : Type} {op : Op α} {c : Command}
    (hc : c.action = (do let _ ← op; return none)) :
    (w.step c).program = (op.on w.program).2 := by
  rw [step_program, hc, on_bind_snd fun _ _ => rfl]

theorem step_op_handing {op : Op Allocation} {c : Command} (hc : c.action = some <$> op) :
    (w.step c).program = (op.on w.program).2 := by
  rw [step_program, hc, on_map]

/-- What a command does past the program it does to the pool. -/
theorem step_onPool {α : Type} {a : Routine Pool DeviceError α} {c : Command}
    (hc : c.action = (do let _ ← onEngine (Engine.onPool a); return none)) :
    (w.step c).program = w.program.withPool (a.on w.program.pool).2 := by
  rw [step_op hc, onPool_through]

theorem step_onPool_handing {a : Routine Pool DeviceError Allocation} {c : Command}
    (hc : c.action = some <$> onEngine (Engine.onPool a)) :
    (w.step c).program = w.program.withPool (a.on w.program.pool).2 := by
  rw [step_op_handing hc, onPool_through]

/-- What holds however the pool answers a request holds after a command that makes one. -/
theorem step_handing_keeps {I : World → Prop} {call : Routine Pool DeviceError Allocation}
    {c : Command} (hc : c.action = some <$> onEngine (Engine.onPool call))
    (hok : ∀ {a pool}, call.on w.program.pool = (.ok a, pool) →
      I ⟨w.program.withPool pool, a :: w.held⟩)
    (herror : ∀ {e pool}, call.on w.program.pool = (.error e, pool) →
      I ⟨w.program.withPool pool, w.held⟩) : I (w.step c) := by
  rw [step_of_handing hc, onPool_through]
  cases hr : call.on w.program.pool with
  | mk r pool =>
    cases r with
    | error e => exact herror hr
    | ok a => exact hok hr

/-- So it is where an allocation is given up, and none is unless the pool takes it. -/
theorem step_surrender_keeps {I : World → Prop} {call : Routine Pool DeviceError Unit} {c : Command}
    {a : Allocation} (hc : c.action = (do let _ ← onEngine (Engine.onPool call); return none))
    (hs : c.surrendered? = some a)
    (hok : ∀ {pool}, call.on w.program.pool = (.ok (), pool) →
      I ⟨w.program.withPool pool, keep w.held (some a)⟩)
    (herror : ∀ {e pool}, call.on w.program.pool = (.error e, pool) →
      I ⟨w.program.withPool pool, w.held⟩) : I (w.step c) := by
  rw [step_of_surrender hc hs, onPool_through]
  cases hr : call.on w.program.pool with
  | mk r pool =>
    cases r with
    | error e => exact herror hr
    | ok _ => exact hok hr

/-- And where other bytes are put somewhere. -/
theorem step_rewriting_keeps {I : World → Prop} {f : Device → Except DeviceError Device}
    {c : Command}
    (hc : c.action = (do let _ ← onEngine (Engine.onPool (Pool.onDevice f)); return none))
    (hs : c.surrendered? = none)
    (hok : ∀ {d}, f w.program.device = .ok d → I ⟨w.program.withDevice d, w.held⟩) (h : I w) :
    I (w.step c) := by
  rw [step_of_quietly hc hs, onPool_through, Pool.onDevice_on]
  cases hd : f w.program.pool.device with
  | error e => exact h
  | ok d => exact hok hd

/-- A raw command reaches nothing but the pool. -/
theorem step_raw {c : Command} (h : c.IsRaw) :
    ∃ pool, (w.step c).program = w.program.withPool pool := by
  cases c with
  | deviceAllocate size => exact ⟨_, step_onPool_handing rfl⟩
  | deviceImage i => exact ⟨_, step_onPool_handing rfl⟩
  | deviceFree a => exact ⟨_, step_onPool rfl⟩
  | deviceWrite p bytes => exact ⟨_, step_onPool rfl⟩
  | deviceFill a pattern => exact ⟨_, step_onPool rfl⟩
  | poolAllocate size zero => exact ⟨_, step_onPool_handing rfl⟩
  | poolRelease a => exact ⟨_, step_onPool rfl⟩
  | poolTerminate => exact ⟨_, step_onPool rfl⟩
  | _ => exact h.elim

theorem step_quiet {c : Command} (hc : c.IsQuiet) :
    w.program.Quiet (w.step c).program ∧ (w.step c).held = w.held := by
  have quietly {α : Type} {op : Op α} (hop : op.Along Quiet)
      (ha : c.action = (do let _ ← op; return none)) (hs : c.surrendered? = none) :
      w.program.Quiet (w.step c).program ∧ (w.step c).held = w.held := by
    rw [step_of_quietly ha hs]
    exact ⟨hop w.program, rfl⟩
  cases c with
  | updateConfig thread change => exact quietly (updateConfig_quiet _ _) rfl rfl
  | readConfig thread => exact quietly (thisConfig_quiet _) rfl rfl
  | storeResult slot word => exact quietly (storeResult_quiet _ _) rfl rfl
  | profilerStart name => exact quietly (profilerStart_quiet _) rfl rfl
  | profilerStop => exact quietly profilerStop_quiet rfl rfl
  | clearProfile => exact quietly clearProfile_quiet rfl rfl
  | takeKernelId => exact quietly takeKernelId_quiet rfl rfl
  | takeGlobalId => exact quietly takeGlobalId_quiet rfl rfl
  | function key => exact quietly (function_quiet _) rfl rfl
  | setBody f b => exact quietly (setBody_quiet _ _) rfl rfl
  | prepareGuest thread k args => exact quietly (prepare_quiet _ _ _) rfl rfl
  | takeResults slots => exact quietly (takeResults_quiet _) rfl rfl
  | _ => exact hc.elim

/-- An operation that goes by moves makes a command that does. -/
theorem step_chained {M : World → World → Prop} {α : Type} {op : Op α} {c : Command}
    (h : w.program.Hosted) (hop : Chained M w.program (op.on w.program).2)
    (ha : c.action = (do let _ ← op; return none)) (hs : c.surrendered? = none) :
    (w.step c).program.Hosted ∧ ReflTransGen M w (w.step c) := by
  rw [step_of_quietly ha hs]
  exact ⟨(hop h).1, (hop h).2 w.held⟩

theorem step_calm {c : Command} (h : w.program.Hosted) (hm : w.program.Moored) (hc : c.IsCalm) :
    (w.step c).program.Hosted ∧ ReflTransGen Calm w (w.step c) := by
  have calmly {α : Type} {op : Op α} (hop : op.Along (Chained Calm))
      (ha : c.action = (do let _ ← op; return none)) (hs : c.surrendered? = none) :
      (w.step c).program.Hosted ∧ ReflTransGen Calm w (w.step c) :=
    step_chained h (hop w.program) ha hs
  by_cases hquiet : c.IsQuiet
  · obtain ⟨hq, hheld⟩ := step_quiet (w := w) hquiet
    exact ⟨h.of_backend hq.backend, .single (.of_quiet hq hheld)⟩
  cases c with
  | checkFault => exact calmly checkFault_calm rfl rfl
  | synchronize => exact calmly synchronize_calm rfl rfl
  | destroyTree tree => exact step_chained h (destroyTree_calm hm tree) rfl rfl
  | accessor a place => exact calmly (accessor_calm _ _) rfl rfl
  | createKernel name mode steps => exact calmly (createKernel_calm _ _ _) rfl rfl
  | compile thread kernel => exact calmly (compile_calm _ _) rfl rfl
  | evaluator key => exact calmly (evaluator_calm _) rfl rfl
  | allocateMemory size zero =>
    rw [step_of_handing rfl, allocateMemory_on]
    by_cases ha : w.program.engine.attached = true
    · rw [if_pos ha]
      cases hr : (Pool.allocate size zero).on w.program.pool with
      | mk r pool =>
        cases r with
        | error e => exact ⟨h, .single (.pool pool (.refused hr))⟩
        | ok a => exact ⟨h, .single (.pool pool (.allocated hr))⟩
    · rw [if_neg ha]
      exact ⟨h, .refl⟩
  | allocateImage i =>
    rw [step_of_handing rfl, allocateImage_on]
    cases hr : (Pool.fromDevice (·.allocateImage i)).on w.program.pool with
    | mk r pool =>
      cases r with
      | error e => rw [Pool.fromDevice_error hr]; exact ⟨h, .refl⟩
      | ok a => exact ⟨h, .single (.pool pool (.imaged hr))⟩
  | createNdarray dtype shape layout zero => exact calmly (createNdarray_calm _ _ _ _) rfl rfl
  | deleteNdarray id => exact step_chained h (deleteNdarray_calm hm id) rfl rfl
  | createTexture i => exact calmly (createTexture_calm _) rfl rfl
  | adoptCode kernel c => exact calmly (adoptCode_calm _ _) rfl rfl
  | _ =>
    first
    | exact absurd trivial hquiet
    | simp [Command.IsCalm, Command.IsRaw] at hc

theorem step_active {c : Command} (h : w.program.Hosted) (hm : w.program.Moored)
    (hc : c.IsActive) : (w.step c).program.Hosted ∧ ReflTransGen Active w (w.step c) := by
  have actively {α : Type} {op : Op α} (hop : op.Along (Chained Active))
      (ha : c.action = (do let _ ← op; return none)) (hs : c.surrendered? = none) :
      (w.step c).program.Hosted ∧ ReflTransGen Active w (w.step c) :=
    step_chained h (hop w.program) ha hs
  by_cases hcalm : c.IsCalm
  · obtain ⟨hq, hmoves⟩ := step_calm h hm hcalm
    exact ⟨hq, hmoves.lift id fun _ _ => .calm⟩
  cases c with
  | readField thread place indices => exact actively (readField_active _ _ _) rfl rfl
  | writeField thread place indices v => exact actively (writeField_active _ _ _ _) rfl rfl
  | launch thread kernel args => exact actively (launch_active _ _ _) rfl rfl
  | evaluateUnary thread op v operand ret => exact actively (evaluate_active _ _) rfl rfl
  | evaluateBinary thread op a lhs b rhs ret => exact actively (evaluate_active _ _) rfl rfl
  | runGuest k c args slots => exact actively (runGuest_active _ _ _ _) rfl rfl
  | addTree | fillNdarray | finalize | drop => exact hc.elim
  | _ => exact absurd hc hcalm

/-- Every command of the program's own is a chain of moves, and a raw one is a move. -/
theorem step_moves {c : Command} (h : w.program.Hosted) (hm : w.program.Moored) (hc : ok w c) :
    (w.step c).program.Hosted ∧ ReflTransGen (Move ok) w (w.step c) := by
  have quietly {α : Type} {op : Op α} (hop : op.Along (Chained (Move ok)))
      (ha : c.action = (do let _ ← op; return none)) (hs : c.surrendered? = none) :
      (w.step c).program.Hosted ∧ ReflTransGen (Move ok) w (w.step c) :=
    step_chained h (hop w.program) ha hs
  by_cases hactive : c.IsActive
  · obtain ⟨hq, hmoves⟩ := step_active h hm hactive
    exact ⟨hq, hmoves.lift id fun _ _ => Active.move⟩
  cases c with
  | addTree root compileOnly => exact quietly (addTree_chained _ _) rfl rfl
  | fillNdarray id pattern => exact quietly (fillNdarray_chained _ _) rfl rfl
  | finalize => exact step_chained h (finalize_chained hm) rfl rfl
  | drop => exact step_chained h (drop_chained hm) rfl rfl
  | _ =>
    have hr := not_not.1 hactive
    obtain ⟨pool, hpool⟩ := step_raw (w := w) hr
    exact ⟨by rw [hpool]; exact h, .single (.raw _ hr hc)⟩

end World

namespace Program.Moored

variable {p p' : Program} {w w' : World}

theorem of_same (h : p.Moored) (hf : p'.finalized = p.finalized)
    (ha : p'.engine.attached = p.engine.attached) (hs : p'.engine.storage = p.engine.storage)
    (hn : p'.ndarrays = p.ndarrays) : p'.Moored := by
  rw [Moored, hf, ha, hs, hn]
  exact h

theorem of_attached (h : p.engine.attached = true) : p.Moored := by
  intro hn
  rw [h] at hn
  cases hn

theorem calm (hm : Calm w w') (h : w.program.Moored) : w'.program.Moored := by
  cases hm with
  | quiet hq =>
    exact h.of_same hq.finalized (congrArg (·.engine.attached) hq.backend)
      (congrArg (·.engine.storage) hq.backend) hq.ndarrays
  | kernel k hid hc hq hn =>
    exact h.of_same hq.finalized (congrArg (·.engine.attached) hq.backend)
      (congrArg (·.engine.storage) hq.backend) hq.ndarrays
  | ndarray a size zero pool hid hatt hb hal => exact of_attached hatt
  | ndarrayGone id a ha =>
    intro hn
    obtain ⟨hf, hs, hnone⟩ := h hn
    exact ⟨hf, hs, congrArg (Table.erase · id) hnone⟩
  | treeGone id t ht =>
    intro hn
    obtain ⟨hf, hs, hnone⟩ := h hn
    refine ⟨hf, ?_, hnone⟩
    change (if t.compileOnly then _ else Table.erase _ id) = Table.empty
    rw [hs]
    exact ite_self _
  | _ => exact h.of_same rfl rfl rfl rfl

theorem move {ok : World → Command → Prop} (hm : Move ok w w') (h : w.program.Moored) :
    w'.program.Moored := by
  cases hm with
  | calm hm => exact h.calm hm
  | finished _ hc => exact fun _ => ⟨hc.finalized, hc.storage, hc.ndarrays⟩
  | tree root s pool hatt hpack hal => exact of_attached hatt
  | rewritten d hd => exact h.of_same rfl rfl rfl rfl
  | raw c hr _ =>
    obtain ⟨pool, hpool⟩ := World.step_raw (w := w) hr
    rw [hpool]
    exact h.of_same rfl rfl rfl rfl

end Program.Moored

/-- What a fresh program has and every move keeps holds in every run. -/
theorem Run.invariant {ok : World → Command → Prop} {w : World} {cs : List Command}
    {I : World → Prop}
    (start : ∀ {thread c reservable p},
      Program.create thread c (.host c reservable) = .ok p → I ⟨p, []⟩)
    (move : ∀ {w w'}, Move ok w w' → I w → I w') (r : Run ok w cs) :
    w.program.Hosted ∧ w.program.Moored ∧ I w := by
  refine r.inv (P := fun w => w.program.Hosted ∧ w.program.Moored ∧ I w)
    (fun hp => ⟨?_, ?_, start hp⟩) ?_
  · cases hp; rfl
  · cases hp; exact Program.Moored.of_attached rfl
  · intro w c ⟨hw, hm, hi⟩ hc
    obtain ⟨hw', hmoves⟩ := World.step_moves hw hm hc
    refine ⟨hw', ?_⟩
    -- Within a command by induction on its moves.
    clear hw'
    generalize w.step c = w' at hmoves ⊢
    induction hmoves with
    | refl => exact ⟨hm, hi⟩
    | tail _ hmove ih => exact ⟨ih.1.move hmove, move hmove ih.2⟩

theorem Run.hosted {ok : World → Command → Prop} {w : World} {cs : List Command}
    (r : Run ok w cs) : w.program.Hosted :=
  (r.invariant (I := fun _ => True) (fun _ => trivial) fun _ _ => trivial).1

theorem Run.moored {ok : World → Command → Prop} {w : World} {cs : List Command}
    (r : Run ok w cs) : w.program.Moored :=
  (r.invariant (I := fun _ => True) (fun _ => trivial) fun _ _ => trivial).2.1

/-- What every command keeps holds on after later commands. -/
theorem Run.foldl_keeps {ok : World → Command → Prop} {w : World} {cs : List Command}
    {I : Program → Prop}
    (step : ∀ {w cs}, Run (fun _ _ => True) w cs → ∀ c, I w.program → I (w.step c).program)
    (r : Run ok w cs) (later : List Command) (h : I w.program) :
    I (later.foldl World.step w).program := by
  have r' : Run (fun _ _ => True) w cs := r.mono fun _ _ _ => trivial
  clear r
  induction later generalizing w cs with
  | nil => exact h
  | cons c later ih => exact ih (step r' c h) (r'.step c trivial)

/-- Along whatever relation every command moves the program, later commands move it. -/
theorem Run.foldl_along {ok : World → Command → Prop} {w : World} {cs : List Command}
    {R : Program → Program → Prop} [Std.Refl R] [IsTrans Program R]
    (step : ∀ {w cs}, Run (fun _ _ => True) w cs → ∀ c, R w.program (w.step c).program)
    (r : Run ok w cs) (later : List Command) :
    R w.program (later.foldl World.step w).program :=
  r.foldl_keeps (fun r c h => IsTrans.trans _ _ _ h (step r c)) later (Std.Refl.refl w.program)

end FieldCompute
