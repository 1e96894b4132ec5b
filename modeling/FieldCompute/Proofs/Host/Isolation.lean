import FieldCompute.Proofs.Host.Calls
/-!
# Programs beside each other

Whatever is called on the programs of a host (`HostRun`), a call on one of them leaves what another
one holds alone, unless it runs code on the backend of that one. Two runs in which the same is
called on a program, and other things on others, keep that program the same and give the same
answers to its launches (`HostRun.isolation`), if nobody else runs code on its backend or is the
first to compile one of its kernels. If somebody does, they need not (`HostRun.isolation_broken`).
-/

namespace FieldCompute

open Routine

/-- What hosts come to, with the calls on the way there. -/
inductive HostRun : Host → List HostCall → Prop
  | start {reservable : Nat} : HostRun (.empty reservable) []
  | step {h : Host} {cs : List HostCall} (c : HostCall) : HostRun h cs →
    HostRun (c.after h) (cs ++ [c])

theorem HostRun.collected {h : Host} {cs : List HostCall} (r : HostRun h cs) : h.Collected := by
  induction r with
  | start => exact fun i P hP => by simp [Host.empty] at hP
  | @step h cs c _ ih =>
    -- What is left alone does not matter here, so say that anything may be touched.
    have hs : Host.Leaves True _ 0 h (c.after h) :=
      c.after_leaves (absurd trivial) (fun _ => trivial) fun _ => trivial
    exact (hs ih).collected

/-! ## Two runs -/

namespace Host

variable {α : Type} {h h' : Host} {p : Nat} {k : KernelRef}

/-- Both hosts have the program, the same in both, with all its kernels at home. -/
structure Agree (p : Nat) (h h' : Host) : Prop where
  exists_program : ∃ P, h.programs[p]? = some P
  program : h'.programs[p]? = h.programs[p]?
  home (id : Nat) : h.away.find? ⟨p, id⟩ = none
  home' (id : Nat) : h'.away.find? ⟨p, id⟩ = none
  collected : h.Collected
  collected' : h'.Collected

theorem Agree.symm (ha : Agree p h h') : Agree p h' h where
  exists_program := by
    rw [ha.program]
    exact ha.exists_program
  program := ha.program.symm
  home := ha.home'
  home' := ha.home
  collected := ha.collected'
  collected' := ha.collected

/-- What spares the program on one side keeps the two sides in agreement. -/
theorem Agree.spared {t : Host} (ha : Agree p h h') (hs : Leaves False False p h t) :
    Agree p t h' where
  exists_program := by
    rw [(hs ha.collected).program not_false not_false]
    exact ha.exists_program
  program := by rw [(hs ha.collected).program not_false not_false, ha.program]
  home id := by rw [(hs ha.collected).away not_false not_false, ha.home]
  home' := ha.home'
  collected := (hs ha.collected).collected
  collected' := ha.collected'

theorem Agree.spared_both {t t' : Host} (ha : Agree p h h') (hs : Leaves False False p h t)
    (hs' : Leaves False False p h' t') : Agree p t t' := ((ha.spared hs).symm.spared hs').symm

theorem on_respects (op : Op α) : (Host.on p op).Respects (Agree p) := by
  intro h h' ha
  obtain ⟨P, hP⟩ := ha.exists_program
  have hP' : h'.programs[p]? = some P := ha.program.trans hP
  refine ⟨by rw [on_on op hP, on_on op hP'], ?_, ?_, ?_, ?_, collected_on p op ha.collected,
    collected_on p op ha.collected'⟩
  · rw [programs_on, if_pos rfl, hP]
    exact ⟨_, rfl⟩
  · rw [programs_on, programs_on, ha.program, if_pos rfl]
  · rw [away_on]
    exact ha.home
  · rw [away_on]
    exact ha.home'

/-- A kernel that was compiled nowhere else is launched at home. -/
theorem launch_at_home {id : Nat} (hid : h.away.find? ⟨p, id⟩ = none) (thread : Thread)
    (args : List Value) : (launch thread p ⟨p, id⟩ args).on h =
      (Host.on p (Program.launch thread id args)).on h := by
  have hhome : h.home ⟨p, id⟩ = p := by rw [home, hid, Option.getD_none]
  rw [launch, on_get_bind, if_pos ⟨rfl, hhome⟩]

theorem ending_respects (op : Op Unit) : (ending p op).Respects (Agree p) := by
  refine .get_bind fun {h h'} ha => ?_
  have halive : h'.isAlive p = h.isAlive p := by rw [isAlive, ha.program, isAlive]
  rw [halive]
  refine Respects.bind (Respects.attempt (on_respects op)) (fun r => ?_) h h' ha
  split
  · refine Respects.bind (Respects.modify fun ha => ?_) fun _ => .answer r
    exact ⟨ha.exists_program, ha.program, ha.home, ha.home', ha.collected, ha.collected'⟩
  · exact .answer r

theorem launch_respects (thread : Thread) (id : Nat) (args : List Value) :
    (launch thread p ⟨p, id⟩ args).Respects (Agree p) := by
  intro h h' ha
  rw [Abreast, launch_at_home (ha.home id), launch_at_home (ha.home' id)]
  exact on_respects _ h h' ha

theorem readField_respects (thread : Thread) (place : NodeId) (indices : List Int) :
    (readField thread p place indices).Respects (Agree p) :=
  (on_respects _).bind fun id => (launch_respects thread id _).bind fun _ => on_respects _

theorem writeField_respects (thread : Thread) (place : NodeId) (indices : List Int) (v : Value) :
    (writeField thread p place indices v).Respects (Agree p) :=
  (on_respects _).bind fun id => launch_respects thread id _

/-! ## Kernels of others -/

theorem runAt_respects (code : Code) (args : List Value) :
    (runAt p p code args).Respects (Agree p) :=
  (on_respects _).bind fun _ => (on_respects _).bind fun x =>
    (on_respects _).bind fun _ => .answer x.1

theorem kernelOf_on_none (hc : h.Collected) (hf : h.kernel? k = none) :
    ∃ e, (kernelOf k).on h = (.error e, h) := by
  rcases hx : (kernelOf k).on h with ⟨e | kernel, t⟩
  · have hlook : ((kernelOf k).on h).2 = h := on_look (look_kernelOf k.id) hc k.owner
    rw [hx] at hlook
    exact ⟨e, Prod.ext rfl hlook⟩
  · rw [(kernelOf_ok hc hx).1] at hf
    cases hf

/-- Keeping code of another program's kernel. -/
theorem keepCode_agree {kernel : Kernel} (ha : Agree p h h') (ho : k.owner ≠ p)
    (hf : h.kernel? k = some kernel) (hf' : h'.kernel? k = some kernel) (code : Code) :
    Abreast (Agree p) Eq (keepCode p k code) (keepCode p k code) h h' := by
  obtain ⟨t, ht, -⟩ := keepCode_ok ha.collected hf p code
  obtain ⟨t', ht', -⟩ := keepCode_ok ha.collected' hf' p code
  refine ⟨by rw [ht, ht'], ?_⟩
  exact ha.spared_both (keepCode_leaves (absurd · ho) p code) (keepCode_leaves (absurd · ho) p code)

/-- A kernel that is the same on both sides is found on both, or on neither. -/
theorem kernelOf_bind_agree {f : Kernel → Routine Host Failure α} (ha : Agree p h h')
    (hk : h'.kernel? k = h.kernel? k)
    (hf : ∀ kernel, h.kernel? k = some kernel → h'.kernel? k = some kernel →
      Agree p ((f kernel).on h).2 ((f kernel).on h').2) :
    Agree p ((kernelOf k >>= f).on h).2 ((kernelOf k >>= f).on h').2 := by
  cases hfound : h.kernel? k with
  | none =>
    obtain ⟨e, he⟩ := kernelOf_on_none ha.collected hfound
    obtain ⟨e', he'⟩ := kernelOf_on_none ha.collected' (hk.trans hfound)
    rw [on_bind_of_error he, on_bind_of_error he']
    exact ha
  | some kernel =>
    have hfound' := hk.trans hfound
    rw [on_bind_of_ok (kernelOf_on ha.collected hfound),
      on_bind_of_ok (kernelOf_on ha.collected' hfound')]
    exact hf kernel hfound hfound'

/-- After work on the program that leaves kernels alone, a kernel is still what and where it was. -/
theorem on_bind_agree {β : Type} {op : Op β} {f : β → Routine Host Failure α}
    (hop : ∀ P, (Routine.on op P).2.kernels = P.kernels) (ha : Agree p h h') (k : KernelRef)
    (hf : ∀ x u u', Agree p u u' → u.kernel? k = h.kernel? k → u'.kernel? k = h'.kernel? k →
      u.home k = h.home k → u'.home k = h'.home k →
      Agree p ((f x).on u).2 ((f x).on u').2) :
    Agree p ((Host.on p op >>= f).on h).2 ((Host.on p op >>= f).on h').2 := by
  have hhome (h : Host) : ((Host.on p op).on h).2.home k = h.home k := by rw [home, away_on, home]
  have hnext (x : β) := hf x _ _ (on_respects op h h' ha).2 (kernel?_on hop p h k)
    (kernel?_on hop p h' k) (hhome h) (hhome h')
  obtain ⟨hanswer, hagree⟩ := on_respects op h h' ha
  rw [on_bind, on_bind]
  generalize (Host.on p op).on h = x at hanswer hagree hnext
  generalize (Host.on p op).on h' = y at hanswer hagree hnext
  obtain ⟨⟨r, u⟩, r', u'⟩ := x, y
  obtain rfl : r = r' := hanswer
  cases r with
  | error e => exact hagree
  | ok x => exact hnext x

/-- Compiling another program's kernel, which is the same on both sides. -/
theorem compile_guest (ha : Agree p h h') (ho : k.owner ≠ p) (hk : h'.kernel? k = h.kernel? k)
    (thread : Thread) : Agree p ((compile thread p k).on h).2 ((compile thread p k).on h').2 := by
  rw [compile, if_neg (Ne.symm ho)]
  refine kernelOf_bind_agree ha hk fun kernel hf hf' => ?_
  refine on_bind_agree (codeFor_kernels thread kernel) ha k fun code u u' hu hku hku' _ _ => ?_
  exact (keepCode_agree hu ho (hku.trans hf) (hku'.trans hf') code).2

/-- Launching another program's kernel that is the same on both sides and is to run here. -/
theorem launch_guest (ha : Agree p h h') (ho : k.owner ≠ p) (hk : h'.kernel? k = h.kernel? k)
    (hhome : h.codeOf? k = none ∨ h.home k = p ∧ h'.home k = p) (thread : Thread)
    (args : List Value) :
    Agree p ((launch thread p k args).on h).2 ((launch thread p k args).on h').2 := by
  have hneither (h : Host) : ¬(p = k.owner ∧ h.home k = p) := fun hn => ho hn.1.symm
  rw [launch, on_get_bind, on_get_bind, if_neg (hneither h), if_neg (hneither h')]
  refine kernelOf_bind_agree ha hk fun kernel hf hf' => ?_
  refine on_bind_agree (prepare_kernels thread kernel args) ha k
    fun x u u' hu hku hku' hhu hhu' => ?_
  obtain ⟨c, code⟩ := x
  have hkeep := keepCode_agree hu ho (hku.trans hf) (hku'.trans hf') code
  obtain ⟨t, ht, hhome_t⟩ := keepCode_ok hu.collected (hku.trans hf) p code
  obtain ⟨t', ht', hhome_t'⟩ := keepCode_ok hu.collected' (hku'.trans hf') p code
  have hcode : h.codeOf? k = kernel.code? := by rw [codeOf?, hf, Option.bind_some]
  have here : t.home k = p ∧ t'.home k = p := by
    rw [hhome_t, hhome_t', hhu, hhu', ← hcode]
    split
    · exact ⟨rfl, rfl⟩
    · rename_i hn
      exact hhome.resolve_left fun hnone => hn ⟨hnone, Ne.symm ho⟩
  rw [Abreast, ht, ht'] at hkeep
  simp only
  rw [on_bind_of_ok ht, on_bind_of_ok ht', on_get_bind, on_get_bind, here.1, here.2]
  split
  · refine (Respects.bind (on_respects _) (fun _ => ?_) t t' hkeep.2).2
    refine (Respects.attempt (runAt_respects code args)).bind fun r => ?_
    exact (on_respects _).bind fun _ => .answer r
  · exact (runAt_respects code args t t' hkeep.2).2

end Host

/-- A call on the program that is the same on both sides: on its own kernels, or on a kernel of
another program that is the same kernel and, on a launch, runs here. -/
def HostCall.SameFor (p : Nat) (h h' : Host) : HostCall → Prop
  | program q _ | finalize q | drop q | readField _ q _ _ | writeField _ q _ _ _ => q = p
  | compile _ q k => q = p ∧ (k.owner = p ∨ h'.kernel? k = h.kernel? k)
  | launch _ q k _ => q = p ∧ (k.owner = p ∨
      h'.kernel? k = h.kernel? k ∧ (h.codeOf? k = none ∨ h.home k = p ∧ h'.home k = p))
  | create .. | buildTree _ | takeLog => False

/-- A call on another program, if any, that neither runs code on the backend of this one nor is the
first to compile a kernel of it. -/
structure HostCall.Foreign (p : Nat) (h : Host) (c : HostCall) : Prop where
  callee : c.callee? ≠ some p
  runs : ¬c.RunsOn h p
  codes : ¬c.CodesFor h p

/-- What two runs from one host come to, with the same calls on the program, and others on other
programs. -/
inductive Besides (p : Nat) (h₀ : Host) : Host → Host → Prop
  | start : Besides p h₀ h₀ h₀
  | both {h h' : Host} (c : HostCall) : Besides p h₀ h h' → c.SameFor p h h' →
    Besides p h₀ (c.after h) (c.after h')
  | left {h h' : Host} (c : HostCall) : Besides p h₀ h h' → c.Foreign p h →
    Besides p h₀ (c.after h) h'
  | right {h h' : Host} (c : HostCall) : Besides p h₀ h h' → c.Foreign p h' →
    Besides p h₀ h (c.after h')

namespace HostCall

open Host

variable {h h' : Host} {p : Nat} {c : HostCall}

theorem Foreign.leaves (hc : c.Foreign p h) (hP : ∃ P, h.programs[p]? = some P) :
    Leaves False False p h (c.after h) := by
  obtain ⟨P, hP⟩ := hP
  have hsize : p < h.programs.size := (Array.getElem?_eq_some_iff.1 hP).1
  intro hcol
  have hs := c.after_leaves (fun _ => hsize) hc.callee hc.runs hcol
  exact ⟨hs.collected, hs.bare, fun ht _ => hs.program ht hc.codes, fun ht _ => hs.away ht hc.codes⟩

theorem SameFor.agree (hc : c.SameFor p h h') (ha : Agree p h h') :
    Agree p (c.after h) (c.after h') := by
  cases c with
  | program q op =>
    obtain rfl : q = p := hc
    exact (on_respects op h h' ha).2
  | finalize q | drop q =>
    obtain rfl : q = p := hc
    exact (ending_respects _ h h' ha).2
  | compile thread q k =>
    obtain ⟨rfl, ho | hk⟩ := hc
    · subst ho
      rw [after, after, action, Host.compile, if_pos rfl]
      exact (on_respects _ h h' ha).2
    · by_cases ho : k.owner = q
      · subst ho
        rw [after, after, action, Host.compile, if_pos rfl]
        exact (on_respects _ h h' ha).2
      · exact compile_guest ha ho hk thread
  | launch thread q k args =>
    obtain ⟨owner, id⟩ := k
    obtain ⟨rfl, hk⟩ := hc
    by_cases ho : owner = q
    · subst ho
      exact (launch_respects thread id args h h' ha).2
    · obtain ⟨hk, hhome⟩ := hk.resolve_left ho
      exact launch_guest ha ho hk hhome thread args
  | readField thread q place indices =>
    obtain rfl : q = p := hc
    exact (((readField_respects thread place indices).bind fun _ => .done _) h h' ha).2
  | writeField thread q place indices v =>
    obtain rfl : q = p := hc
    exact (writeField_respects thread place indices v h h' ha).2
  | create | buildTree | takeLog => cases hc

end HostCall

open Host in
theorem Besides.agree {p : Nat} {h₀ h h' : Host} (hb : Besides p h₀ h h') (h₀₀ : Agree p h₀ h₀) :
    Agree p h h' := by
  induction hb with
  | start => exact h₀₀
  | both c _ hc ih => exact hc.agree ih
  | left c _ hc ih => exact ih.spared (hc.leaves ih.exists_program)
  | right c _ hc ih => exact (ih.symm.spared (hc.leaves ih.symm.exists_program)).symm

/-- In every host that comes about, a call on another program leaves all that a program holds as it
is, its settings, trees, arrays, textures and memory, unless it runs code on the backend of that
program; it changes kernels of it at most. And as long as no other program runs code on its backend
or is the first to compile a kernel of it, nothing that is called on others tells in the program, or
in whether its kernels are launched with success. -/
theorem HostRun.isolation {h : Host} {cs : List HostCall} (r : HostRun h cs) {p : Nat} {P : Program}
    (hP : h.programs[p]? = some P) :
    (∀ c : HostCall, c.callee? ≠ some p → ¬c.RunsOn h p →
      ∃ kernels, (c.after h).programs[p]? = some { P with kernels }) ∧
    ((∀ id, h.away.find? ⟨p, id⟩ = none) → ∀ h₁ h₂, Besides p h h₁ h₂ →
      h₂.programs[p]? = h₁.programs[p]? ∧ ∀ thread id args,
        ((Host.launch thread p ⟨p, id⟩ args).on h₂).1 =
          ((Host.launch thread p ⟨p, id⟩ args).on h₁).1) := by
  have hsize : p < h.programs.size := (Array.getElem?_eq_some_iff.1 hP).1
  constructor
  · intro c hc hrun
    have hs := c.after_leaves (fun _ => hsize) hc hrun r.collected
    have hbare := hs.bare not_false
    rw [hP, Option.map_some, Option.map_eq_some_iff] at hbare
    obtain ⟨P', hP', hb⟩ := hbare
    refine ⟨P'.kernels, hP'.trans (congrArg some ?_)⟩
    calc P' = { P'.bare with kernels := P'.kernels } := rfl
      _ = { P.bare with kernels := P'.kernels } := by rw [hb]
      _ = { P with kernels := P'.kernels } := rfl
  · intro hhome h₁ h₂ hb
    have ha := hb.agree ⟨⟨P, hP⟩, rfl, hhome, hhome, r.collected, r.collected⟩
    refine ⟨ha.program, fun thread id args => ?_⟩
    exact (Host.launch_respects thread id args h₁ h₂ ha).1.symm

/-- Two programs, and in the first one a field of one number and a kernel that stores 5 in it. -/
def twoPrograms : Host :=
  let root : Node := .mk 0 .root [] [.mk 1 (.place "x" .int32) [] []]
  let five : List DraftStep := [.emit (.const (.int 5) (.scalar .int32)), .emit (.store 1 [] 0)]
  [.create 0 {}, .create 0 {}, .program 0 (do let _ ← Program.addTree root false),
    .program 0 (do let _ ← Program.createKernel "five" .off five)].foldl
      (fun h (c : HostCall) => c.after h) .empty

theorem twoPrograms_run : ∃ cs, HostRun twoPrograms cs :=
  ⟨_, .step _ (.step _ (.step _ (.step _ .start)))⟩

/-- The second program has its own work, and the kernel of the first one is launched in between. -/
theorem HostRun.isolation_busy_neighbour :
    let busy : Host := [.launch 0 0 ⟨0, 0⟩ [], .launch 0 1 ⟨1, 0⟩ []].foldl
      (fun h (c : HostCall) => c.after h)
      ((HostCall.program 1 (do let _ ← Program.createKernel "none" .off [])).after twoPrograms)
    let idle : Host := (HostCall.launch 0 0 ⟨0, 0⟩ []).after twoPrograms
    (∃ cs, HostRun twoPrograms cs) ∧ busy.programs[0]? = idle.programs[0]? ∧
      ((Host.launch 0 0 ⟨0, 0⟩ []).on busy).1 = ((Host.launch 0 0 ⟨0, 0⟩ []).on idle).1 ∧
      ((Host.launch 0 0 ⟨0, 0⟩ []).on idle).1 = .ok () := by
  intro busy idle
  obtain ⟨cs, r⟩ := twoPrograms_run
  obtain ⟨P, hP⟩ : ∃ P, twoPrograms.programs[0]? = some P := ⟨_, rfl⟩
  have hb : Besides 0 twoPrograms idle busy := by
    refine .right (.launch 0 1 ⟨1, 0⟩ []) (.both (.launch 0 0 ⟨0, 0⟩ [])
      (.right (.program 1 _) .start ⟨by decide, ?_, id⟩) ⟨rfl, .inl rfl⟩) ⟨by decide, ?_, ?_⟩
    · rintro ⟨k, hk, -⟩
      cases hk
    · rintro ⟨k, hk, hhome, -⟩
      cases hk
      revert hhome
      decide
    · rintro ⟨ho, -⟩
      cases ho
  obtain ⟨hsame, hlaunch⟩ := (r.isolation hP).2 (fun _ => rfl) idle busy hb
  exact ⟨⟨cs, r⟩, hsame, hlaunch 0 0 [], by decide⟩

/-- A kernel that another program was the first to compile can no longer be launched at home; and
one that was compiled at home stores in the field of its owner when another program launches it. -/
theorem HostRun.isolation_broken : (∃ cs, HostRun twoPrograms cs) ∧
    ((Host.launch 0 0 ⟨0, 0⟩ []).on twoPrograms).1 = .ok () ∧
    ((Host.launch 0 0 ⟨0, 0⟩ []).on ((HostCall.launch 0 1 ⟨0, 0⟩ []).after twoPrograms)).1 =
      .error (.error (.notMaterialized 1)) ∧
    let compiled : Host := (HostCall.compile 0 0 ⟨0, 0⟩).after twoPrograms
    ((Host.readField 0 0 1 []).on compiled).1 = .ok (.int 0) ∧
    ((Host.readField 0 0 1 []).on ((HostCall.launch 0 1 ⟨0, 0⟩ []).after compiled)).1 =
      .ok (.int 5) := by
  refine ⟨twoPrograms_run, ?_, ?_, ?_, ?_⟩
  all_goals decide +kernel

end FieldCompute
