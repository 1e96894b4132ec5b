import FieldCompute.Proofs.Program.Catalogue
import FieldCompute.Proofs.Program.Checks
import FieldCompute.Proofs.Program.OutOfBounds
/-!
# Runs that differ in checks

Two runs are twins for a thread if the same commands are given in both, but for the checks that
other threads choose in their settings. The worlds they come to are alike (`Twins.alike`), so a
launch by the thread answers the same in both if the code of the kernel is the same in both
(`Run.launches_of_twins`). It need not be: whoever compiles a kernel first decides for everybody
whether it checks bounds (`Run.checks_leak`).
-/

namespace FieldCompute

open Routine Program

variable {ok : World → Command → Prop} {t : Thread} {S : Nat → Prop} {w w' w₀ : World}
  {c c' : Command} {id : Nat}

/-- The thread whose settings the command asks for. -/
def Command.thread? : Command → Option Thread
  | updateConfig thread _ | readConfig thread | readField thread .. | writeField thread ..
  | compile thread _ | launch thread .. | evaluateUnary thread .. | evaluateBinary thread ..
  | prepareGuest thread .. => some thread
  | evaluator key => some key.thread
  | _ => none

/-- The commands are the same, but for what another thread than `t` does to the checks in its
settings. -/
inductive Command.Twin (t : Thread) : Command → Command → Prop
  | same {c : Command} : (∀ thread change, c ≠ .updateConfig thread change) → Twin t c c
  | own (change : Config → Config) : Twin t (.updateConfig t change) (.updateConfig t change)
  | other {thread : Thread} {change change' : Config → Config} : thread ≠ t →
    (∀ c c' : Config, c.unchecked = c'.unchecked → (change c).unchecked = (change' c').unchecked) →
    Twin t (.updateConfig thread change) (.updateConfig thread change')

/-- The worlds to which twin commands lead from one world; those on the first way were `ok`. -/
inductive Twins (ok : World → Command → Prop) (t : Thread) (w₀ : World) : World → World → Prop
  | start : Twins ok t w₀ w₀ w₀
  | step {w w' : World} {c c' : Command} :
    Twins ok t w₀ w w' → c.Twin t c' → ok w c → Twins ok t w₀ (w.step c) (w'.step c')

/-- If the command asks for the settings of another thread than `t`, it is not what gives the kernel
its code. -/
def Command.LeavesTo (t : Thread) (id : Nat) (w : World) (c : Command) : Prop :=
  (∃ thread ≠ t, c.thread? = some thread) → w.program.codeOf? id = none →
    (w.step c).program.codeOf? id = none

/-- Programs that are alike, and the same allocations held. -/
structure World.Alike (t : Thread) (S : Nat → Prop) (w w' : World) : Prop where
  program : w.program.Alike t S w'.program
  held : w'.held = w.held

namespace World.Alike

/-- Commands that hand nothing out and take nothing back. -/
theorem step_of_quietly {α : Type} {a b : Op α} (h : w.Alike t S w')
    (hc : c.action = (do let _ ← a; return none)) (hc' : c'.action = (do let _ ← b; return none))
    (hs : c.surrendered? = none) (hs' : c'.surrendered? = none)
    (hab : (a.on w.program).2.Alike t S (b.on w'.program).2) :
    (w.step c).Alike t S (w'.step c') := by
  rw [World.step_of_quietly hc hs, World.step_of_quietly hc' hs']
  exact ⟨hab, h.held⟩

/-- Commands that give the same answer. -/
theorem step_of_respects (h : w.Alike t S w') (hc : c.action.Respects (Program.Alike t S)) :
    (w.step c).Alike t S (w'.step c) := by
  obtain ⟨hanswer, hp⟩ := hc _ _ h.program
  rw [World.step, World.step]
  generalize c.action.on w.program = x at hanswer hp ⊢
  generalize c.action.on w'.program = y at hanswer hp ⊢
  obtain ⟨⟨r, p⟩, r', p'⟩ := x, y
  obtain rfl : r = r' := hanswer
  obtain e | _ | a := r
  · exact ⟨hp, h.held⟩
  · exact ⟨hp, congrArg (keep · c.surrendered?) h.held⟩
  · exact ⟨hp, congrArg (a :: ·) h.held⟩

/-- A command that is the same in both, if kernels are only kept the same where the thread itself
compiles. -/
theorem step_same (hc : ∀ thread change, c ≠ .updateConfig thread change)
    (hS : ∀ id thread, S id → c.thread? = some thread → thread = t) (h : w.Alike t S w') :
    (w.step c).Alike t S (w'.step c) := by
  have hp := h.program
  have quietly {α : Type} {op : Op α} (hop : op.Respects (Program.Alike t S))
      (ha : c.action = (do let _ ← op; return none)) : (w.step c).Alike t S (w'.step c) :=
    h.step_of_respects (by rw [ha]; exact hop.bind fun _ => .done _)
  have ending {α : Type} {op : Op α}
      (hop : (op.on w.program).2.Alike t S (op.on w'.program).2)
      (ha : c.action = (do let _ ← op; return none)) (hs : c.surrendered? = none) :
      (w.step c).Alike t S (w'.step c) := h.step_of_quietly ha ha hs hs hop
  have handing {op : Op Allocation} (hop : op.Respects (Program.Alike t S))
      (ha : c.action = some <$> op) : (w.step c).Alike t S (w'.step c) :=
    h.step_of_respects (by rw [ha]; exact hop.map _)
  cases c with
  | updateConfig thread change => exact absurd rfl (hc thread change)
  | readConfig thread => exact ending (thisConfig_alike thread hp).2 rfl rfl
  | storeResult slot word => exact quietly (storeResult_respects _ _) rfl
  | profilerStart name => exact quietly (profilerStart_respects _) rfl
  | profilerStop => exact quietly profilerStop_respects rfl
  | clearProfile => exact quietly clearProfile_respects rfl
  | takeKernelId => exact quietly takeKernelId_respects rfl
  | takeGlobalId => exact quietly takeGlobalId_respects rfl
  | checkFault => exact ending (checkFault_alike hp).2 rfl rfl
  | synchronize => exact quietly synchronize_respects rfl
  | addTree root compileOnly => exact quietly (addTree_respects _ _) rfl
  | destroyTree tree => exact quietly (destroyTree_respects _) rfl
  | accessor a place => exact quietly (accessor_respects _ _) rfl
  | readField thread place indices =>
    exact ending (readField_alike (fun id hs => hS id _ hs rfl) _ _ hp).2 rfl rfl
  | writeField thread place indices v =>
    exact ending (writeField_alike (fun id hs => hS id _ hs rfl) _ _ _ hp).2 rfl rfl
  | createKernel name mode steps => exact quietly (addKernel_respects _) rfl
  | compile thread kernel =>
    exact ending (compile_alike (fun id hs => hS id _ hs rfl) _ hp).2 rfl rfl
  | launch thread kernel args =>
    exact ending (launch_alike (fun id hs => hS id _ hs rfl) _ _ hp).2 rfl rfl
  | evaluator key => exact ending (evaluator_alike (fun id hs => hS id _ hs rfl) hp).2 rfl rfl
  | evaluateUnary thread op v operand ret =>
    exact ending (evaluate_alike (fun id hs => hS id thread hs rfl) _ hp).2 rfl rfl
  | evaluateBinary thread op a lhs b rhs ret =>
    exact ending (evaluate_alike (fun id hs => hS id thread hs rfl) _ hp).2 rfl rfl
  | function key => exact quietly (function_respects _) rfl
  | setBody f b => exact quietly (setBody_respects _ _) rfl
  | allocateMemory size zero => exact handing (allocateMemory_respects _ _) rfl
  | allocateImage i => exact handing (allocateImage_respects _) rfl
  | createNdarray dtype shape layout zero => exact quietly (createNdarray_respects _ _ _ _) rfl
  | deleteNdarray id => exact quietly (deleteNdarray_respects _) rfl
  | fillNdarray id pattern => exact quietly (fillNdarray_respects _ _) rfl
  | createTexture i => exact quietly (createTexture_respects _) rfl
  | finalize => exact quietly finalize_respects rfl
  | drop => exact quietly drop_respects rfl
  | adoptCode kernel c => exact ending (adoptCode_alike _ _ hp).2 rfl rfl
  | prepareGuest thread k args =>
    exact ending (prepare_alike (q := False) (.refl k) False.elim args hp).2 rfl rfl
  | runGuest k c args slots => exact ending (runGuest_alike _ _ _ _ hp).2 rfl rfl
  | takeResults slots => exact quietly (takeResults_respects _) rfl
  | deviceAllocate size => exact handing (onPool_respects _) rfl
  | deviceImage i => exact handing (onPool_respects _) rfl
  | deviceFree a => exact quietly (onPool_respects _) rfl
  | deviceWrite p bytes => exact quietly (onPool_respects _) rfl
  | deviceFill a pattern => exact quietly (onPool_respects _) rfl
  | poolAllocate size zero => exact handing (onPool_respects _) rfl
  | poolRelease a => exact quietly (onPool_respects _) rfl
  | poolTerminate => exact quietly (onPool_respects _) rfl

theorem step (hc : c.Twin t c') (hS : ∀ id thread, S id → c.thread? = some thread → thread = t)
    (h : w.Alike t S w') : (w.step c).Alike t S (w'.step c') := by
  cases hc with
  | same hne => exact step_same hne hS h
  | own change =>
    have hchange (c c' : Config) (hcc : UpTo Config.unchecked (t = t) c c') :
        UpTo Config.unchecked (t = t) (change c) (change c') := by
      obtain rfl := hcc.same rfl
      exact .refl _
    exact h.step_of_quietly rfl rfl rfl rfl (updateConfig_alike hchange h.program).2
  | @other thread change change' hne hchange =>
    have hchange (c c' : Config) (hcc : UpTo Config.unchecked (thread = t) c c') :
        UpTo Config.unchecked (thread = t) (change c) (change' c') :=
      ⟨hchange c c' hcc.alike, fun hq => absurd hq hne⟩
    exact h.step_of_quietly rfl rfl rfl rfl (updateConfig_alike hchange h.program).2

end World.Alike

/-! ## The code of kernels -/

/-- A kernel that has the same code in both tables is the same in both. -/
theorem KernelsAlike.sameAt {ks ks' : Table Nat Kernel} (h : KernelsAlike S ks ks')
    (hc : (ks.find? id).bind (·.code?) = (ks'.find? id).bind (·.code?)) :
    KernelsAlike (· = id) ks ks' := by
  refine ⟨h.id, fun j => ⟨(h.table j).alike, ?_⟩⟩
  rintro rfl
  rcases (h.table j).cases with ⟨hx, hy⟩ | ⟨k, k', hx, hy, hk⟩
  · rw [hx, hy]
  · rw [hx, hy] at hc
    have hcode : k.code? = k'.code? := hc
    have hback (k : Kernel) : k = { k.unchecked with code? := k.code? } := rfl
    rw [hx, hy, hback k, hback k', hk.alike, hcode]

namespace Program.Alike

variable {p p' : Program}

theorem sameAt (h : p.Alike t S p') (hc : p.codeOf? id = p'.codeOf? id) :
    p.Alike t (· = id) p' := by
  obtain ⟨f, ho, hk⟩ := h
  exact .vary f ho (hk.sameAt hc)

theorem codeOf?_eq (h : p.Alike t S p') (hid : S id) : p.codeOf? id = p'.codeOf? id := by
  rw [codeOf?, codeOf?, (h.kernels.table id).same hid]

/-- Where there is no code in one there is none in the other. -/
theorem codeOf?_none (h : p.Alike t S p') (hc : p.codeOf? id = none) : p'.codeOf? id = none := by
  rw [codeOf?] at hc ⊢
  rcases (h.kernels.table id).cases with ⟨-, hy⟩ | ⟨k, k', hx, hy, hk⟩
  · rw [hy]
    rfl
  · rw [hx] at hc
    have hcode : k.code?.map Code.unchecked = k'.code?.map Code.unchecked :=
      congrArg Kernel.code? hk.alike
    rw [show k.code? = none from hc] at hcode
    rw [hy]
    exact Option.map_eq_none_iff.1 hcode.symm

end Program.Alike

/-! ## Twin runs -/

namespace Twins

variable {ok' : World → Command → Prop} {cs : List Command}

/-- Both are worlds to which a run comes. -/
theorem runs (h : Twins ok t w₀ w w') (r : Run ok' w₀ cs) :
    (∃ cs, Run (fun _ _ => True) w cs) ∧ ∃ cs, Run (fun _ _ => True) w' cs := by
  induction h with
  | start => exact ⟨⟨_, r.mono fun _ _ _ => trivial⟩, _, r.mono fun _ _ _ => trivial⟩
  | @step w w' c c' _ _ _ ih =>
    obtain ⟨⟨cs, r⟩, cs', r'⟩ := ih
    exact ⟨⟨_, r.step c trivial⟩, _, r'.step c' trivial⟩

theorem alike (h : Twins ok t w₀ w w') (r : Run ok' w₀ cs)
    (hown : (w₀.program.overlay.configOf? t).isSome) : w.Alike t (fun _ => False) w' := by
  induction h with
  | start =>
    have hk : KernelsAlike (fun _ => False) w₀.program.kernels w₀.program.kernels :=
      ⟨fun hk => (r.catalogued.2.id hk).1, fun _ => .refl _⟩
    have ho : w₀.program.overlay.Alike t w₀.program.overlay := ⟨rfl, hown, fun _ => .refl _⟩
    exact ⟨.vary w₀.program.engine.fault ho hk, rfl⟩
  | step _ hc _ ih => exact ih.step hc fun _ _ hs => hs.elim

/-- One pair of commands keeps the code of a kernel the same in both, if the first one leaves it to
the thread to compile it. -/
theorem codeOf?_step (h : Twins ok t w₀ w w') (r : Run ok' w₀ cs)
    (hown : (w₀.program.overlay.configOf? t).isSome) (hc : c.Twin t c') (hl : c.LeavesTo t id w)
    (hcode : w.program.codeOf? id = w'.program.codeOf? id) :
    (w.step c).program.codeOf? id = (w'.step c').program.codeOf? id := by
  have halike := h.alike r hown
  by_cases hother : ∃ thread ≠ t, c.thread? = some thread
  · -- What another thread may compile either has its code already or stays without.
    cases hw : w.program.codeOf? id with
    | none =>
      have hnone := hl hother hw
      rw [hnone, ((halike.step hc fun _ _ hs => hs.elim).program.codeOf?_none hnone)]
    | some code =>
      obtain ⟨⟨_, hr⟩, _, hr'⟩ := h.runs r
      rw [(hr.keepsKernels_step c).codeOf? hw,
        (hr'.keepsKernels_step c').codeOf? (hcode.symm.trans hw)]
  · have hat : w.Alike t (· = id) w' := ⟨halike.program.sameAt hcode, halike.held⟩
    refine (hat.step hc fun _ thread _ hthread => ?_).program.codeOf?_eq rfl
    by_contra hne
    exact hother ⟨thread, hne, hthread⟩

/-- The code of a kernel is the same in both unless another thread was the first to compile it. -/
theorem codeOf?_eq (h : Twins ok t w₀ w w') (r : Run ok' w₀ cs)
    (hown : (w₀.program.overlay.configOf? t).isSome)
    (hl : ∀ {w c}, ok w c → c.LeavesTo t id w) : w.program.codeOf? id = w'.program.codeOf? id := by
  induction h with
  | start => rfl
  | step h hc hok ih => exact h.codeOf?_step r hown hc (hl hok) ih

end Twins

/-- Take two runs in which the same commands are given, but for the checks that other threads than
`t` choose in their settings, where `t` has settings of its own. Unless another thread was the first
to compile a kernel, its code is the same in both. Then every launch of it by `t` gives the same
answer in both. In any case the answers are the same up to whether an access outside a field is a
failure of the launch or a fault. -/
theorem Run.launches_of_twins {ok' : World → Command → Prop} {cs : List Command}
    (r : Run ok' w₀ cs) (hown : (w₀.program.overlay.configOf? t).isSome)
    (h : Twins ok t w₀ w w') (id : Nat) (args : List Value) :
    ((∀ {w c}, ok w c → c.LeavesTo t id w) → w.program.codeOf? id = w'.program.codeOf? id) ∧
    (w.program.codeOf? id = w'.program.codeOf? id →
      ((launch t id args).on w.program).1 = ((launch t id args).on w'.program).1) ∧
    LaunchAnswers ((launch t id args).on w.program).1 ((launch t id args).on w'.program).1 := by
  have halike := h.alike r hown
  refine ⟨h.codeOf?_eq r hown, fun hcode => ?_, ?_⟩
  · exact (launch_alike (fun _ _ => rfl) id args (halike.program.sameAt hcode)).1.same rfl
  · exact (launch_alike (fun _ hs => hs.elim) id args halike.program).1.alike

/-- Writes past the end of the field. -/
def pokeSteps : List DraftStep :=
  [.emit (.const (.int 5) (.scalar .int32)), .emit (.store 2 [0] 0)]

/-- Another thread has chosen whether it debugs, and there is a kernel. -/
def pokeWorld (debug : Bool) : World :=
  (smallFieldAdded.step (.updateConfig 1 ({ · with debug }))).step
    (.createKernel "poke" .off pokeSteps)

theorem pokeWorld_twins :
    Twins (fun _ _ => True) 0 smallFieldAdded (pokeWorld false) (pokeWorld true) := by
  have settings : Command.Twin 0 (.updateConfig 1 ({ · with debug := false }))
      (.updateConfig 1 ({ · with debug := true })) := .other (by decide) fun _ _ h => h
  have kernel : Command.Twin 0 (.createKernel "poke" .off pokeSteps) _ := .same nofun
  exact (Twins.start.step settings trivial).step kernel trivial

/-- The main thread, as the first to launch the kernel, is told what it did. -/
theorem Run.launches_of_twins_first :
    ((launch 0 0 []).on (pokeWorld true).program).1 =
      .error (.error (.outOfBounds "poke" 2 [5] [2])) := by
  obtain ⟨⟨cs, r⟩, -, -⟩ := smallFieldAdded_has
  have h := (r.launches_of_twins rfl pokeWorld_twins 0 []).2.1 rfl
  rw [← h]
  decide

/-- Once another thread has compiled the kernel, what that thread has chosen decides what the main
thread is told. -/
theorem Run.checks_leak :
    (∃ cs, Run World.Honest smallFieldAdded cs) ∧
    (smallFieldAdded.program.overlay.configOf? 0).isSome ∧
    Twins (fun _ _ => True) 0 smallFieldAdded ((pokeWorld false).step (.compile 1 0))
      ((pokeWorld true).step (.compile 1 0)) ∧
    ((launch 0 0 []).on ((pokeWorld false).step (.compile 1 0)).program).1 =
      .error (.error (.outOfBounds "poke" 2 [5] [2])) ∧
    ((launch 0 0 []).on ((pokeWorld true).step (.compile 1 0)).program).1 = .ok () := by
  refine ⟨smallFieldAdded_has.1, rfl, pokeWorld_twins.step (.same nofun) trivial, ?_, ?_⟩
  all_goals decide

end FieldCompute
