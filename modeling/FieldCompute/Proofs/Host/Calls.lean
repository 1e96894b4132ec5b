import FieldCompute.Host
import FieldCompute.Proofs.Abreast
import FieldCompute.Proofs.Program.Catalogue
/-!
# Calls on the programs of a host

A call touches the program that it is called on and the one on whose backend it runs code. Of every
other program it changes at most the kernel that it is the first to compile
(`HostCall.after_leaves`).
-/

namespace FieldCompute

open Routine

/-- A program without its kernels. -/
def Program.bare (P : Program) : Program := { P with kernels := .empty }

namespace Host

variable {α : Type} {h h' : Host} {p q : Nat} {k : KernelRef} {P : Program} {touched coded : Prop}

/-- A kernel, if there is one under that name. -/
def kernel? (h : Host) (k : KernelRef) : Option Kernel :=
  h.programs[k.owner]?.bind (·.kernels.find? k.id)

/-- The code of a kernel, once there is some. -/
def codeOf? (h : Host) (k : KernelRef) : Option Code := (h.kernel? k).bind (·.code?)

/-- What programs told has been collected. -/
def Collected (h : Host) : Prop :=
  ∀ (i : Nat) (P : Program), h.programs[i]? = some P → P.events = []

/-! ## Operations of one program -/

theorem on_on (op : Op α) (hP : h.programs[p]? = some P) :
    (Host.on p op).on h = ((Routine.on op P).1,
      { h with
        programs := h.programs.setIfInBounds p { (Routine.on op P).2 with events := [] }
        log := h.log ++ (Routine.on op P).2.events }) := by
  rw [Host.on, on_of, hP]

theorem on_on_none (op : Op α) (hP : h.programs[p]? = none) :
    (Host.on p op).on h = (.error (.misuse (.unknownProgram p)), h) := by
  rw [Host.on, on_of, hP]

theorem away_on (p : Nat) (op : Op α) (h : Host) : ((Host.on p op).on h).2.away = h.away := by
  cases hP : h.programs[p]? with
  | none => rw [on_on_none op hP]
  | some P => rw [on_on op hP]

theorem programs_on (p : Nat) (op : Op α) (h : Host) (i : Nat) :
    ((Host.on p op).on h).2.programs[i]? =
      if i = p then h.programs[p]?.map fun P => { (Routine.on op P).2 with events := [] }
      else h.programs[i]? := by
  cases hP : h.programs[p]? with
  | none =>
    rw [on_on_none op hP]
    split
    · rename_i hi
      rw [hi, hP, Option.map_none]
    · rfl
  | some P =>
    rw [on_on op hP]
    obtain ⟨hlt, -⟩ := Array.getElem?_eq_some_iff.1 hP
    simp only [Array.getElem?_setIfInBounds, Option.map_some]
    by_cases hi : i = p
    · simp [hi, hlt]
    · simp [hi, Ne.symm hi]

theorem collected_on (p : Nat) (op : Op α) (hc : h.Collected) :
    ((Host.on p op).on h).2.Collected := by
  intro i P hP
  rw [programs_on] at hP
  split at hP
  · obtain ⟨P', -, rfl⟩ := Option.map_eq_some_iff.1 hP
    rfl
  · exact hc i P hP

/-- Looking at a program leaves everything as it is, if what it told has been collected. -/
theorem on_look_at {op : Op α} (hP : h.programs[p]? = some P) (he : P.events = [])
    (hop : (Routine.on op P).2 = P) : (Host.on p op).on h = ((Routine.on op P).1, h) := by
  have hP' : { P with events := [] } = P := by rw [← he]
  have hset : h.programs.setIfInBounds p P = h.programs := by
    refine Array.ext_getElem? fun i => ?_
    rw [Array.getElem?_setIfInBounds]
    split
    · rename_i hi
      obtain ⟨hlt, -⟩ := Array.getElem?_eq_some_iff.1 hP
      rw [if_pos hlt, ← hi, hP]
    · rfl
  rw [on_on op hP, hop, he, hP', List.append_nil, hset]

/-- What only looks leaves everything as it is. -/
theorem on_look {op : Op α} (hop : ∀ P, (Routine.on op P).2 = P) (hc : h.Collected) (p : Nat) :
    ((Host.on p op).on h).2 = h := by
  cases hP : h.programs[p]? with
  | none => rw [on_on_none op hP]
  | some P => rw [on_look_at hP (hc p P hP) (hop P)]

theorem kernel?_on {op : Op α} (hop : ∀ P, (Routine.on op P).2.kernels = P.kernels) (p : Nat)
    (h : Host) (k : KernelRef) : ((Host.on p op).on h).2.kernel? k = h.kernel? k := by
  rw [kernel?, programs_on]
  split
  · rename_i hi
    rw [kernel?, hi]
    cases h.programs[p]? with
    | none => rfl
    | some P => simp [hop]
  · rfl

theorem look_kernelOf (id : Nat) (P : Program) : ((Program.kernelOf id).on P).2 = P := by
  rw [Program.kernelOf_on]
  split <;> rfl

theorem kernelOf_ok {kernel : Kernel} (hc : h.Collected)
    (hk : (kernelOf k).on h = (.ok kernel, h')) : h.kernel? k = some kernel ∧ h' = h := by
  have hlook : ((kernelOf k).on h).2 = h := on_look (look_kernelOf k.id) hc k.owner
  rw [hk] at hlook
  refine ⟨?_, hlook⟩
  rw [kernelOf] at hk
  cases hP : h.programs[k.owner]? with
  | none =>
    rw [on_on_none _ hP] at hk
    cases hk
  | some P =>
    rw [on_on _ hP, Program.kernelOf_on] at hk
    rw [kernel?, hP]
    cases hf : P.kernels.find? k.id with
    | none =>
      rw [hf] at hk
      cases hk
    | some kernel' =>
      rw [hf] at hk
      cases hk
      exact hf

/-! ## What a call leaves alone -/

/-- If program `p` was not `touched`, its kernels at most have changed; and if none was `coded`
either, nothing has, nor where its kernels are at home. -/
structure Spares (touched coded : Prop) (p : Nat) (h h' : Host) : Prop where
  collected : h'.Collected
  bare : ¬touched → h'.programs[p]?.map Program.bare = h.programs[p]?.map Program.bare
  program : ¬touched → ¬coded → h'.programs[p]? = h.programs[p]?
  away : ¬touched → ¬coded → ∀ id, h'.away.find? ⟨p, id⟩ = h.away.find? ⟨p, id⟩

/-- Spares the program, if everything has been collected. -/
def Leaves (touched coded : Prop) (p : Nat) (h h' : Host) : Prop :=
  h.Collected → Spares touched coded p h h'

/-- Only the log and the supply of node ids differ. -/
theorem leaves_of_same (hp : h'.programs = h.programs) (ha : h'.away = h.away) :
    Leaves touched coded p h h' := by
  intro hc
  refine ⟨fun i P hP => hc i P (hp ▸ hP), ?_, ?_, ?_⟩ <;> intros <;> simp only [hp, ha]

instance : Std.Refl (Leaves touched coded p) := ⟨fun _ => leaves_of_same rfl rfl⟩

instance : IsTrans Host (Leaves touched coded p) where
  trans _ _ _ h h' hc :=
    have a := h hc
    have b := h' a.collected
    ⟨b.collected, fun ht => (b.bare ht).trans (a.bare ht),
      fun ht hn => (b.program ht hn).trans (a.program ht hn),
      fun ht hn id => (b.away ht hn id).trans (a.away ht hn id)⟩

/-- An operation touches the program that it is called on. -/
theorem on_leaves (hq : q = p → touched) (op : Op α) :
    (Host.on q op).Along (Leaves touched coded p) := by
  intro h hc
  have hp (ht : ¬touched) : ((Host.on q op).on h).2.programs[p]? = h.programs[p]? := by
    rw [programs_on, if_neg fun he => ht (hq he.symm)]
  exact ⟨collected_on q op hc, fun ht => by rw [hp ht], fun ht _ => hp ht,
    fun _ _ _ => by rw [away_on]⟩

theorem look_leaves {op : Op α} (hop : ∀ P, (Routine.on op P).2 = P) (q : Nat) :
    (Host.on q op).Along (Leaves touched coded p) := by
  intro h hc
  rw [on_look hop hc]
  exact Std.Refl.refl (r := Leaves touched coded p) h hc

/-- Looking for a kernel changes nothing, so what counts is what is done with it. -/
theorem kernelOf_bind_leaves {f : Kernel → Routine Host Failure α}
    (hf : ∀ kernel, h.kernel? k = some kernel → Leaves touched coded p h ((f kernel).on h).2) :
    Leaves touched coded p h ((kernelOf k >>= f).on h).2 := by
  intro hc
  have hlook : (kernelOf k).Along (Leaves touched coded p) :=
    look_leaves (look_kernelOf k.id) k.owner
  refine bind_at (R := Leaves touched coded p) (hlook h) (fun {t kernel} ht => ?_) hc
  obtain ⟨hk, rfl⟩ := kernelOf_ok hc ht
  exact hf kernel hk

/-- Keeping code changes nothing but kernels. -/
theorem owner_keepCode_leaves (hk : k.owner = p → touched ∨ coded) (code : Code) :
    (Host.on k.owner (Program.keepCode k.id code)).Along (Leaves touched coded p) := by
  by_cases hp : k.owner = p
  · intro h hc
    refine ⟨collected_on _ _ hc, fun _ => ?_, fun ht hn => absurd ((hk hp).resolve_left ht) hn,
      fun ht hn => absurd ((hk hp).resolve_left ht) hn⟩
    have hbare (P : Program) (he : P.events = []) :
        Program.bare { ((Program.keepCode k.id code).on P).2 with events := [] } = P.bare := by
      rw [Program.keepCode, on_bind, Program.kernelOf_on]
      cases P.kernels.find? k.id with
      | none => simp [Program.bare, he]
      | some kernel => simp [Program.bare, Program.keepKernel, he]
    rw [programs_on, hp, if_pos rfl]
    cases hP : h.programs[p]? with
    | none => rfl
    | some P => simp [hbare P (hc p P hP)]
  · exact on_leaves (fun he => absurd he hp) _

/-- Code is kept only for a kernel that has none. -/
theorem keepCode_leaves (hk : k.owner = p → (touched ∨ coded) ∨ h.codeOf? k ≠ none) (q : Nat)
    (code : Code) : Leaves touched coded p h ((keepCode q k code).on h).2 := by
  refine kernelOf_bind_leaves fun kernel hf => ?_
  split
  · rename_i hnone
    have hn : h.codeOf? k = none := by
      rw [codeOf?, hf]
      simpa [Kernel.isCompiled] using hnone
    have hk' : k.owner = p → touched ∨ coded := fun hp => (hk hp).resolve_right (absurd hn)
    refine Along.bind (owner_keepCode_leaves hk' code) (fun _ => ?_) h
    split
    · intro h hc
      refine ⟨hc, fun _ => rfl, fun _ _ => rfl, fun htouched hcoded id => ?_⟩
      refine Table.find?_insert_of_ne ?_
      rintro rfl
      exact hcoded ((hk' rfl).resolve_left htouched)
    · exact .done _
  · exact Std.Refl.refl h

theorem runAt_leaves {home : Nat} (hq : q = p → touched) (hhome : home = p → touched) (code : Code)
    (args : List Value) : (runAt home q code args).Along (Leaves touched coded p) :=
  (on_leaves hq _).bind fun _ => (on_leaves hhome _).bind fun x =>
    (on_leaves hq _).bind fun _ => .answer x.1

/-- A new program stands behind the others. -/
theorem createWith_leaves (thread : Thread) (c : Config) (b : Backend) (h : Host)
    (hp : ¬touched → p < h.programs.size) :
    Leaves touched coded p h ((createWith thread c b).on h).2 := by
  intro hc
  rw [createWith, on_answer_bind]
  cases hP : Program.create thread c b with
  | error e => exact Std.Refl.refl (r := Leaves touched coded p) h hc
  | ok P =>
    have hsame (ht : ¬touched) : (h.programs.push P)[p]? = h.programs[p]? := by
      rw [Array.getElem?_push, if_neg (Nat.ne_of_lt (hp ht))]
    refine ⟨fun i Q hQ => ?_, fun ht => congrArg _ (hsame ht), fun ht _ => hsame ht,
      fun _ _ _ => rfl⟩
    change (h.programs.push P)[i]? = some Q at hQ
    rw [Array.getElem?_push] at hQ
    split at hQ
    · cases hQ
      exact (Program.create_ok hP).2.2.1
    · exact hc i Q hQ

theorem create_leaves (hp : ¬touched → p < h.programs.size) (thread : Thread) (c : Config) :
    Leaves touched coded p h ((create thread c).on h).2 := by
  rw [create]
  generalize Backends.initial.resolve c.arch = x
  obtain ⟨arch, events⟩ := x
  simp only
  rw [on_modify_bind, on_get_bind, on_answer_bind]
  have hlog : Leaves touched coded p h { h with log := h.log ++ events } := leaves_of_same rfl rfl
  split
  · exact IsTrans.trans _ _ _ hlog (createWith_leaves thread _ _ _ hp)
  · exact hlog

/-- An end touches the program that it is of; the counter is none of any program. -/
theorem ending_leaves (hq : q = p → touched) (op : Op Unit) :
    (ending q op).Along (Leaves touched coded p) := by
  refine .get_bind fun h => (Along.attempt (on_leaves hq op)).bind (fun r => ?_) h
  split
  · exact Along.bind (fun _ => leaves_of_same rfl rfl) fun _ => .answer r
  · exact .answer r

theorem kernelOf_on {kernel : Kernel} (hc : h.Collected) (hf : h.kernel? k = some kernel) :
    (kernelOf k).on h = (.ok kernel, h) := by
  refine Prod.ext ?_ (on_look (look_kernelOf k.id) hc k.owner)
  obtain ⟨P, hP, hf⟩ := Option.bind_eq_some_iff.1 hf
  rw [kernelOf, on_on _ hP, Program.kernelOf_known hf]

theorem owner_keepCode_ok {kernel : Kernel} (hf : h.kernel? k = some kernel) (code : Code) :
    ∃ t, (Host.on k.owner (Program.keepCode k.id code)).on h = (.ok (), t) ∧
      t.away = h.away := by
  refine ⟨_, Prod.ext ?_ rfl, away_on ..⟩
  obtain ⟨P, hP, hf⟩ := Option.bind_eq_some_iff.1 hf
  rw [on_on _ hP, Program.keepCode, on_bind_of_ok (Program.kernelOf_known hf)]
  rfl

/-- Whoever gives a kernel its code becomes its home. -/
theorem keepCode_ok {kernel : Kernel} (hc : h.Collected) (hf : h.kernel? k = some kernel) (q : Nat)
    (code : Code) : ∃ t, (keepCode q k code).on h = (.ok (), t) ∧
      t.home k = if kernel.code? = none ∧ q ≠ k.owner then q else h.home k := by
  rw [keepCode, on_bind_of_ok (kernelOf_on hc hf)]
  cases hk : kernel.code? with
  | some c => exact ⟨h, by simp [Kernel.isCompiled, hk], by simp⟩
  | none =>
    obtain ⟨t, ht, haway⟩ := owner_keepCode_ok hf code
    simp only [Kernel.isCompiled, hk, Option.isSome_none, Bool.not_false, if_true, true_and]
    rw [on_bind_of_ok ht]
    split
    · exact ⟨_, rfl, by simp [home]⟩
    · exact ⟨_, rfl, by simp [home, haway]⟩

theorem prepare_kernels (thread : Thread) (k : Kernel) (args : List Value) (P : Program) :
    ((Program.prepare thread k args).on P).2.kernels = P.kernels :=
  (Program.prepare_quiet thread k args P).kernels

theorem codeFor_kernels (thread : Thread) (k : Kernel) (P : Program) :
    ((do Program.codeUnder (← Program.thisConfig thread) k : Op Code).on P).2.kernels =
      P.kernels := by
  have h := (Program.thisConfig_quiet thread).bind fun c => Program.codeUnder_quiet c k
  exact (h P).kernels

/-- A launch touches the program that is called and the one on whose backend the code runs. -/
theorem launch_leaves (hq : q = p → touched)
    (hrun : h.home k = p → touched ∨ k.owner = p ∧ h.codeOf? k = none)
    (hcode : k.owner = p → (touched ∨ coded) ∨ h.codeOf? k ≠ none) (thread : Thread)
    (args : List Value) : Leaves touched coded p h ((launch thread q k args).on h).2 := by
  intro hc
  rw [launch, on_get_bind]
  split
  · exact on_leaves hq _ h hc
  · refine kernelOf_bind_leaves (fun kernel hf => ?_) hc
    refine bind_at (on_leaves hq _ h) fun {u x} hu => ?_
    obtain rfl : ((Host.on q (Program.prepare thread kernel args)).on h).2 = u := by rw [hu]
    have hk := kernel?_on (prepare_kernels thread kernel args) q h k
    obtain ⟨c, code⟩ := x
    refine bind_at (keepCode_leaves (by rwa [codeOf?, hk]) q code) fun {v _} hv => ?_
    -- By now the kernel has code, and its home is where it was, or is `q` if it had none before.
    have hhome : v.home k = p → touched := by
      obtain ⟨v', hv', hkeep⟩ := keepCode_ok (collected_on q _ hc) (hk.trans hf) q code
      rw [hv] at hv'
      cases hv'
      rw [hkeep, home, away_on, ← home]
      split
      · exact hq
      · rename_i hn
        intro hp
        rcases hrun hp with ht | ⟨ho, hnone⟩
        · exact ht
        · rw [codeOf?, hf] at hnone
          exact hq (not_not.1 fun hne => hn ⟨hnone, fun he => hne (he.trans ho)⟩)
    rw [on_get_bind]
    split
    · refine Along.bind (on_leaves hq _) (fun _ => ?_) v
      refine (Along.attempt (runAt_leaves hq hhome code args)).bind fun r => ?_
      exact (on_leaves hq _).bind fun _ => .answer r
    · exact runAt_leaves hq hhome code args v

theorem compile_leaves (hq : q = p → touched)
    (hcode : k.owner = p → (touched ∨ coded) ∨ h.codeOf? k ≠ none) (thread : Thread) :
    Leaves touched coded p h ((compile thread q k).on h).2 := by
  rw [compile]
  split
  · exact on_leaves hq _ h
  · refine kernelOf_bind_leaves fun kernel _ => ?_
    refine bind_at (on_leaves hq _ h) fun {u code} hu => ?_
    obtain rfl : ((Host.on q _).on h).2 = u := congrArg Prod.snd hu
    exact keepCode_leaves (by rwa [codeOf?, kernel?_on (codeFor_kernels thread kernel)]) q code

end Host

/-! ## Calls -/

/-- What is asked of the programs of a host. -/
inductive HostCall where
  | create (thread : Thread) (c : Config)
  | buildTree (below : List TreePlan)
  | takeLog
  /-- An operation that concerns one program. -/
  | program (p : Nat) (op : Op Unit)
  | finalize (p : Nat)
  | drop (p : Nat)
  | compile (thread : Thread) (p : Nat) (k : KernelRef)
  | launch (thread : Thread) (p : Nat) (k : KernelRef) (args : List Value)
  | readField (thread : Thread) (p : Nat) (place : NodeId) (indices : List Int)
  | writeField (thread : Thread) (p : Nat) (place : NodeId) (indices : List Int) (v : Value)

namespace HostCall

open Host

variable {h : Host} {p : Nat} {c : HostCall}

def action : HostCall → Routine Host Failure Unit
  | create thread c => do let _ ← Host.create thread c
  | buildTree below => do let _ ← Host.buildTree below
  | takeLog => do let _ ← Host.takeLog
  | program p op => Host.on p op
  | finalize p => Host.finalize p
  | drop p => Host.drop p
  | compile thread p k => Host.compile thread p k
  | launch thread p k args => Host.launch thread p k args
  | readField thread p place indices => do let _ ← Host.readField thread p place indices
  | writeField thread p place indices v => Host.writeField thread p place indices v

def after (c : HostCall) (h : Host) : Host := (c.action.on h).2

/-- The program that is called. -/
def callee? : HostCall → Option Nat
  | create .. | buildTree _ | takeLog => none
  | program p _ | finalize p | drop p | compile _ p _ | launch _ p _ _ => some p
  | readField _ p _ _ | writeField _ p _ _ _ => some p

/-- The accessor of a place, which is made if there is none. -/
def accessor? (h : Host) (p : Nat) (a : Accessor) (place : NodeId) : Option KernelRef :=
  match ((Host.on p (Program.accessor a place)).on h).1 with
  | .ok id => some ⟨p, id⟩
  | .error _ => none

/-- The kernel that is launched. Fields are read and written by their accessors. -/
def launched? (h : Host) : HostCall → Option KernelRef
  | launch _ _ k _ => some k
  | readField _ p place _ => accessor? h p .reader place
  | writeField _ p place _ _ => accessor? h p .writer place
  | _ => none

/-- The call runs code on the backend of `p`. Code that the launch itself gives to a kernel of `p`
runs elsewhere. -/
def RunsOn (h : Host) (p : Nat) (c : HostCall) : Prop :=
  ∃ k, c.launched? h = some k ∧ h.home k = p ∧ (k.owner = p → h.codeOf? k ≠ none)

/-- The call is to compile a kernel of `p` that has no code. -/
def CodesFor (h : Host) (p : Nat) (c : HostCall) : Prop :=
  match c with
  | compile _ _ k | launch _ _ k _ => k.owner = p ∧ h.codeOf? k = none
  | _ => False

theorem launch_accessor_leaves {q : Nat} {a : Accessor} {place : NodeId} {id : Nat} {t : Host}
    {touched coded : Prop} (hq : q = p → touched)
    (ht : (Host.on q (Program.accessor a place)).on h = (.ok id, t))
    (hrun : ∀ k, accessor? h q a place = some k → h.home k = p → k.owner ≠ p → touched)
    (thread : Thread) (args : List Value) :
    Leaves touched coded p t ((Host.launch thread q ⟨q, id⟩ args).on t).2 := by
  obtain rfl : ((Host.on q (Program.accessor a place)).on h).2 = t := by rw [ht]
  refine launch_leaves hq (fun hhome => .inl ?_) (fun ho => .inl (.inl (hq ho))) thread args
  rw [home, away_on, ← home] at hhome
  by_cases hqp : q = p
  · exact hq hqp
  · exact hrun ⟨q, id⟩ (by rw [accessor?, ht]) hhome hqp

/-- A call touches the program that it is called on and the one on whose backend it runs code. -/
theorem after_leaves {touched : Prop} (hp : ¬touched → p < h.programs.size)
    (hc : c.callee? = some p → touched) (hrun : c.RunsOn h p → touched) :
    Leaves touched (c.CodesFor h p) p h (c.after h) := by
  have codes {k : KernelRef} {coded : Prop} (hcoded : k.owner = p → h.codeOf? k = none → coded)
      (ho : k.owner = p) : (touched ∨ coded) ∨ h.codeOf? k ≠ none := by
    by_cases hk : h.codeOf? k = none
    · exact .inl (.inr (hcoded ho hk))
    · exact .inr hk
  cases c with
  | create thread c => exact bind_at (create_leaves hp thread c) fun _ => Std.Refl.refl _
  | buildTree below =>
    have hbuild : Leaves touched ((buildTree below).CodesFor h p) p h
      ((Host.buildTree below).on h).2 := leaves_of_same rfl rfl
    exact bind_at hbuild fun _ => Std.Refl.refl _
  | takeLog => exact leaves_of_same rfl rfl
  | program q op => exact on_leaves (fun hq => hc (congrArg some hq)) op h
  | finalize q | drop q => exact ending_leaves (fun hq => hc (congrArg some hq)) _ h
  | compile thread q k =>
    exact compile_leaves (fun hq => hc (congrArg some hq)) (codes fun ho hk => ⟨ho, hk⟩) thread
  | launch thread q k args =>
    refine launch_leaves (fun hq => hc (congrArg some hq)) (fun hhome => ?_)
      (codes fun ho hk => ⟨ho, hk⟩) thread args
    by_cases hk : k.owner = p ∧ h.codeOf? k = none
    · exact .inr hk
    · exact .inl (hrun ⟨k, rfl, hhome, fun ho hn => hk ⟨ho, hn⟩⟩)
  | readField thread q place indices =>
    have hq (hq : q = p) : touched := hc (congrArg some hq)
    refine bind_at (bind_at (on_leaves hq _ h) fun {t id} ht => ?_) fun _ => Std.Refl.refl _
    refine bind_at (launch_accessor_leaves hq ht ?_ thread _) fun _ => on_leaves hq _ _
    exact fun k hk hhome ho => hrun ⟨k, hk, hhome, fun hp => absurd hp ho⟩
  | writeField thread q place indices v =>
    have hq (hq : q = p) : touched := hc (congrArg some hq)
    refine bind_at (on_leaves hq _ h) fun {t id} ht => ?_
    exact launch_accessor_leaves hq ht
      (fun k hk hhome ho => hrun ⟨k, hk, hhome, fun hp => absurd hp ho⟩) thread _

end HostCall

end FieldCompute
