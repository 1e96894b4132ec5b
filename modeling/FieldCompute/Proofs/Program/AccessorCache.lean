import FieldCompute.Proofs.Program.Attempts
import FieldCompute.Proofs.Program.Remembering
import FieldCompute.Proofs.Program.Wiring
/-!
# The cache of accessors

Accessors are remembered by place and forgotten by tree. Whatever the command, an accessor that is
there already stays exactly as long as its tree (`Program.Follows`). So every request for an
accessor of a place of a live tree gives the same kernel, and once the tree is gone no request gives
that kernel again (`Run.accessors_follow_trees`).
-/

namespace FieldCompute

open Routine

namespace Program

variable {p p' : Program} {a : Accessor} {t : FieldTree} {place : Place} {x : NodeId} {kernel : Nat}

/-- The accessors that were there are still there exactly if their trees are. -/
structure Follows (p p' : Program) : Prop where
  nextKernel : p.nextKernel ≤ p'.nextKernel
  made {key : Accessor × NodeId} {kernel : Nat} :
    p'.accessors.find? key = some kernel →
      p.accessors.find? key = some kernel ∨ p.nextKernel ≤ kernel
  kept {a : Accessor} {t : FieldTree} {place : Place} {kernel : Nat} :
    p.Apart → p.Has t place → t ∈ p'.trees.live →
      p.accessors.find? (a, place.id) = some kernel → p'.accessors.find? (a, place.id) = some kernel
  live {a : Accessor} {t : FieldTree} {place : Place} {kernel : Nat} :
    p.Has t place → p'.accessors.find? (a, place.id) = some kernel → kernel < p.nextKernel →
      t ∈ p'.trees.live

/-- An old kernel that stands for an accessor did so before. -/
theorem Follows.old (h : p.Follows p') {key : Accessor × NodeId} (hlt : kernel < p.nextKernel)
    (hf : p'.accessors.find? key = some kernel) : p.accessors.find? key = some kernel :=
  (h.made hf).resolve_right (Nat.not_le.2 hlt)

theorem Remembers.follows (h : p.Remembers p') : p.Follows p' :=
  ⟨h.nextKernel, h.made, fun _ _ _ hf => h.kept hf, fun hp _ _ => h.trees ▸ hp.live⟩

theorem Follows.of_kept (ha : p'.accessors = p.accessors) (hn : p.nextKernel ≤ p'.nextKernel)
    (ht : ∀ t ∈ p.trees.live, t ∈ p'.trees.live) : p.Follows p' :=
  ⟨hn, fun hf => .inl (ha ▸ hf), fun _ _ _ hf => ha ▸ hf, fun hp _ _ => ht _ hp.live⟩

/-- Where nothing is left there is nothing to follow. -/
theorem Follows.of_empty (ha : p'.accessors = .empty) (ht : p'.trees = .empty)
    (hn : p.nextKernel ≤ p'.nextKernel) : p.Follows p' := by
  refine ⟨hn, fun hf => ?_, fun _ _ hl _ => ?_, fun _ hf _ => ?_⟩
  · rw [ha] at hf
    cases hf
  · rw [ht] at hl
    cases hl
  · rw [ha] at hf
    cases hf

/-- An accessor of a place that is not among those whose accessors are forgotten stays. -/
theorem find?_not_forgotten {places : List Place} {known : Table (Accessor × NodeId) Nat}
    (h : ∀ place ∈ places, place.id ≠ x) :
    (places.foldl (fun known place =>
      (known.erase (.reader, place.id)).erase (.writer, place.id)) known).find? (a, x) =
        known.find? (a, x) := by
  induction places generalizing known with
  | nil => rfl
  | cons place places ih =>
    rw [List.forall_mem_cons] at h
    rw [List.foldl_cons, ih h.2, Table.find?_erase, if_neg, Table.find?_erase, if_neg]
    · simpa using fun _ => h.1.symm
    · simpa using fun _ => h.1.symm

/-- A kernel stands for one accessor at most. -/
theorem Wired.accessor_unique (h : p.Wired) {key key' : Accessor × NodeId}
    (hf : p.accessors.find? key = some kernel) (hf' : p.accessors.find? key' = some kernel) :
    key = key' := by
  obtain ⟨a, x⟩ := key
  obtain ⟨b, y⟩ := key'
  obtain ⟨-, place, k, -, rfl, hs⟩ := h.serves hf
  obtain ⟨-, place', k', -, rfl, hs'⟩ := h.serves hf'
  obtain rfl := Option.some.inj (hs.find.symm.trans hs'.find)
  have hbody := Except.ok.inj ((hs.lower false).symm.trans (hs'.lower false))
  obtain ⟨rfl, hid⟩ := Accessor.kernel_inj (hs.rets.symm.trans hs'.rets) hbody
  rw [hid]

theorem Wired.destroyTree_follows (h : p.Wired) (id : Nat) :
    p.Follows ((destroyTree id).on p).2 := by
  rw [destroyTree_on]
  cases ht : p.trees.get? id with
  | none => exact (Std.Refl.refl p : p.Remembers p).follows
  | some t =>
    -- Whatever becomes of its storage, the tree goes with its accessors.
    have hgone {q : Program} (htrees : q.trees = (p.trees.remove id).2)
        (ha : q.accessors = p.accessorsWithout t) (hn : q.nextKernel = p.nextKernel) :
        p.Follows q := by
      refine ⟨Nat.le_of_eq hn.symm, fun hf => ?_, fun hap hp hl hf => ?_, fun hp hf _ => ?_⟩
      · rw [ha] at hf
        exact .inl (find?_forgotten hf).1
      · rw [ha, accessorsWithout, find?_not_forgotten, hf]
        intro place' hp' hid
        obtain ⟨rfl, -⟩ := hap.unique_place ⟨Registry.mem_live_iff.2 ⟨id, ht⟩, hp'⟩ hp hid
        rw [htrees, h.registry.mem_live_remove] at hl
        exact hl.2 (h.registry.id ht)
      · rw [ha] at hf
        rw [htrees, h.registry.mem_live_remove]
        refine ⟨hp.live, ?_⟩
        rintro hid
        have hget := h.registry.mem_live.1 hp.live
        rw [hid, ht] at hget
        cases hget
        exact (find?_forgotten hf).2 _ hp.place rfl
    dsimp only
    split
    · exact hgone rfl rfl rfl
    · split <;> exact hgone rfl rfl rfl

theorem Wired.addTree_follows (h : p.Wired) (hp : p.Hosted) (root : Node) (compileOnly : Bool) :
    p.Follows ((addTree root compileOnly).on p).2 := by
  have hcases := addTree_outcome hp root compileOnly
  have hadd (t : FieldTree) (ht : t ∈ p.trees.live) := h.registry.mem_live_add ht root compileOnly
  generalize (addTree root compileOnly).on p = r at hcases ⊢
  cases hcases with
  | layout => exact .of_kept rfl (Nat.le_refl _) hadd
  | kept _ _ _ => exact .of_kept rfl (Nat.le_refl _) hadd
  | rejected _ =>
    refine .of_kept rfl (Nat.le_refl _) fun t ht => ?_
    refine (h.registry.add_remove root false _).mem_live.2 ?_
    rw [Registry.get?_add_remove h.registry]
    exact h.registry.mem_live.1 ht

theorem Follows.of_emptied
    (h : p' = p ∨ ∃ e events, p' = { p.emptied.withEngine e with events }) : p.Follows p' := by
  rcases h with rfl | ⟨e, events, rfl⟩
  · exact (Std.Refl.refl p' : p'.Remembers p').follows
  · exact .of_empty rfl rfl (Nat.le_refl _)

end Program

section Runs

open Program

variable {ok : World → Command → Prop} {w : World} {cs later : List Command} {a : Accessor}
  {t : FieldTree} {place : Place} {kernel : Nat}

/-- Whatever is done, accessors follow the trees. -/
theorem Run.step_follows (r : Run ok w cs) (c : Command) : w.program.Follows (w.step c).program := by
  obtain ⟨hp, hw⟩ := r.wired
  by_cases hc : c.LeavesTrees
  · exact (World.step_remembers hp hc).follows
  cases c with
  | addTree root compileOnly =>
    rw [World.step_of_quietly rfl rfl]
    exact hw.addTree_follows hp root compileOnly
  | destroyTree tree =>
    rw [World.step_of_quietly rfl rfl]
    exact hw.destroyTree_follows tree
  | finalize =>
    rw [World.step_of_quietly rfl rfl]
    exact .of_emptied (finalize_ends w.program)
  | drop =>
    rw [World.step_of_quietly rfl rfl]
    exact .of_emptied (drop_ends w.program)
  | _ => exact absurd trivial hc

/-- The tree is live all the while, and live trees share no node. -/
def World.Houses (w : World) (t : FieldTree) (later : List Command) : Prop :=
  ∀ before, before <+: later →
    (before.foldl World.step w).program.Apart ∧ t ∈ (before.foldl World.step w).program.trees.live

/-- An accessor is there as long as its tree. -/
theorem Run.accessor_kept (r : Run ok w cs) (hk : w.Houses t later) (hp : place ∈ t.root.places)
    (hf : w.program.accessors.find? (a, place.id) = some kernel) :
    (later.foldl World.step w).program.accessors.find? (a, place.id) = some kernel := by
  have r' : Run (fun _ _ => True) w cs := r.mono fun _ _ _ => trivial
  clear r
  induction later generalizing w cs with
  | nil => exact hf
  | cons c later ih =>
    obtain ⟨hapart, hlive⟩ := hk [] (List.nil_prefix ..)
    obtain ⟨-, hnext⟩ := hk [c] (List.prefix_append [c] later)
    refine ih (fun before hb => hk (c :: before) ((List.cons_prefix_cons).2 ⟨rfl, hb⟩)) ?_
      (r'.step c trivial)
    exact (r'.step_follows c).kept hapart ⟨hlive, hp⟩ hnext hf

/-- If the kernel stands for an accessor, then that of the place, whose tree is live. -/
structure Program.Binds (p : Program) (t : FieldTree) (a : Accessor) (place : Place)
    (kernel : Nat) : Prop where
  lt : kernel < p.nextKernel
  only {key : Accessor × NodeId} : p.accessors.find? key = some kernel →
    key = (a, place.id) ∧ p.Has t place

/-- The kernel was made, and stands for no accessor. -/
structure Program.Evicted (p : Program) (kernel : Nat) : Prop where
  lt : kernel < p.nextKernel
  none (key : Accessor × NodeId) : p.accessors.find? key ≠ some kernel

theorem Program.Follows.binds {p p' : Program} (h : p.Follows p')
    (hb : p.Binds t a place kernel) : p'.Binds t a place kernel := by
  refine ⟨Nat.lt_of_lt_of_le hb.lt h.nextKernel, fun hf => ?_⟩
  obtain ⟨rfl, hp⟩ := hb.only (h.old hb.lt hf)
  exact ⟨rfl, h.live hp hf hb.lt, hp.place⟩

theorem Program.Follows.evicted {p p' : Program} (h : p.Follows p') (he : p.Evicted kernel) :
    p'.Evicted kernel :=
  ⟨Nat.lt_of_lt_of_le he.lt h.nextKernel, fun key hf => he.none key (h.old he.lt hf)⟩

/-- The kernel of an accessor that is known. -/
theorem Program.Wired.binds (h : w.program.Wired) (hp : w.program.Has t place)
    (hf : w.program.accessors.find? (a, place.id) = some kernel) :
    w.program.Binds t a place kernel := by
  obtain ⟨_, _, _, _, _, hs⟩ := h.serves hf
  exact ⟨(h.id hs.find).2, fun hf' => ⟨h.accessor_unique hf' hf, hp⟩⟩

/-- Once the tree is gone no accessor has the kernel. -/
theorem Run.accessor_evicted (r : Run ok w cs) (hp : w.program.Has t place)
    (hf : w.program.accessors.find? (a, place.id) = some kernel) {before : List Command}
    (hgone : t ∉ (before.foldl World.step w).program.trees.live) (after : List Command) :
    ((before ++ after).foldl World.step w).program.Evicted kernel := by
  have hbinds := r.foldl_keeps (I := (·.Binds t a place kernel))
    (fun r c h => (r.step_follows c).binds h) before (r.wired.2.binds hp hf)
  rw [List.foldl_append]
  refine (r.foldl before).foldl_keeps (I := (·.Evicted kernel))
    (fun r c h => (r.step_follows c).evicted h) after ?_
  exact ⟨hbinds.lt, fun key hk => hgone (hbinds.only hk).2.live⟩

/-- Nor is it returned then. -/
theorem Program.Evicted.accessor_ne {p : Program} (h : p.Evicted kernel) (a : Accessor)
    (x : NodeId) : ((accessor a x).on p).1 ≠ .ok kernel := by
  have hcases := accessor_outcome p a x
  generalize (accessor a x).on p = r at hcases ⊢
  cases hcases with
  | known hf =>
    rintro heq
    cases heq
    exact h.none _ hf
  | notAField _ => exact fun heq => (by cases heq)
  | made _ _ =>
    rintro heq
    cases heq
    exact Nat.lt_irrefl _ h.lt

end Runs

/-! ## Requests -/

/-- The kernel takes one index for every axis of the place, and the writer a value last; it loads
one element of the place and returns it, or stores to one. It lowers, optimized or not. -/
structure Accessor.Fits (a : Accessor) (place : Place) (k : Kernel) : Prop where
  args : k.args = List.replicate place.shape.length (.scalar .int32) ++ a.inputs place
  rets : k.rets = a.outputs place
  body : k.body = axes place.shape.length ++ [a.access place, a.effect place]
  lower (optimize : Bool) : k.lower optimize = .ok k.body

open Program in
/-- What there is to a kernel that was just returned as an accessor of a place of the tree. -/
structure World.Returned (w : World) (a : Accessor) (t : FieldTree) (place : Place)
    (kernel : Nat) : Prop where
  fits : ∃ k, w.program.kernels.find? kernel = some k ∧ a.Fits place k
  /-- It compiles at any time, with whatever settings. -/
  compiles (later : List Command) (thread : Thread) (c : Config) :
    ((do updateConfig thread fun _ => c; compile thread kernel : Op Unit).on
      (later.foldl World.step w).program).1 = .ok ()
  /-- As long as the tree lives, requests give this kernel and change nothing. -/
  again {later : List Command} : w.Houses t later →
    (accessor a place.id).on (later.foldl World.step w).program =
      (.ok kernel, (later.foldl World.step w).program)
  /-- Once the tree is gone, no request gives it. -/
  never (before : List Command) : t ∉ (before.foldl World.step w).program.trees.live →
    ∀ after b x, ((accessor b x).on ((before ++ after).foldl World.step w).program).1 ≠ .ok kernel

namespace Program

variable {p : Program} {a : Accessor} {place : Place} {kernel : Nat} {k : Kernel}

theorem Serves.fits (h : p.Serves a place kernel k) : a.Fits place k := by
  have hbody : k.body = (a.kernel place kernel).body := by rw [h.eq]
  refine ⟨h.args.trans (a.kernel_inputs place kernel), h.rets.trans (a.kernel_outputs place kernel),
    hbody.trans (a.kernel_body place kernel), fun optimize => ?_⟩
  rw [hbody]
  exact h.lower optimize

/-- A kernel that lowers compiles. -/
theorem compile_ok (hp : p.Hosted) (hk : p.kernels.find? kernel = some k)
    (hl : ∀ optimize, k.lower optimize = .ok k.body) (thread : Thread) :
    ((compile thread kernel).on p).1 = .ok () := by
  obtain ⟨c, q, hq⟩ : ∃ c q, (thisConfig thread).on p = (.ok c, q) := ⟨_, _, rfl⟩
  have hpq : p.Quiet q := (thisConfig_quiet thread).ends hq
  obtain ⟨code, s, hs⟩ : ∃ code s, (codeUnder c k).on q = (.ok code, s) := by
    rw [codeUnder]
    split
    · exact ⟨_, _, rfl⟩
    · obtain ⟨s, -, hs⟩ := compileUnder_outcome (hp.of_backend hpq.backend) c k
      rw [hl] at hs
      exact ⟨_, _, hs⟩
  have hqs : q.Quiet s := (codeUnder_quiet c k).ends hs
  rw [compile, on_bind_of_ok (kernelOf_known hk), on_bind_of_ok hq, on_bind_of_ok hs, keepCode,
    on_bind_of_ok (kernelOf_known (by rw [hqs.kernels, hpq.kernels, hk]))]
  rfl

theorem accessor_known {x : NodeId} (h : p.accessors.find? (a, x) = some kernel) :
    (accessor a x).on p = (.ok kernel, p) := by
  rw [accessor, on_get_bind, h]
  rfl

end Program

namespace Run

open Program

variable {ok : World → Command → Prop} {w : World} {cs : List Command}

/-- A kernel that is known as the accessor of a place of a live tree. -/
theorem returned (r : Run ok w cs) {a : Accessor} {t : FieldTree} {place : Place} {kernel : Nat}
    {k : Kernel} (hp : w.program.Has t place)
    (hf : w.program.accessors.find? (a, place.id) = some kernel)
    (hs : w.program.Serves a place kernel k) : w.Returned a t place kernel where
  fits := ⟨k, hs.find, hs.fits⟩
  compiles later thread c := by
    obtain ⟨code?, hk⟩ := r.keepsKernels_foldl later hs.find
    have hhosted := (r.foldl later).hosted
    obtain ⟨q, hq⟩ : ∃ q, (updateConfig thread fun _ => c).on
        (later.foldl World.step w).program = (.ok (), q) := ⟨_, rfl⟩
    have hquiet := (updateConfig_quiet thread fun _ => c).ends hq
    rw [← hquiet.kernels] at hk
    rw [on_bind_of_ok hq]
    exact compile_ok (hhosted.of_backend hquiet.backend) hk hs.fits.lower thread
  again hh := accessor_known (r.accessor_kept hh hp.place hf)
  never _ hgone after b x := (r.accessor_evicted hp hf hgone after).accessor_ne b x

/-- In every state that a run comes to where live trees share no node, an accessor of a node that is
no place of a live tree is refused, and nothing changes. A place of a live tree has both accessors.
Each has a kernel that fits the place, and which stays the same as long as the tree lives, whatever
else is done; once the tree was destroyed, or the program finalized, it is never returned again, not
even for the same place. -/
theorem accessors_follow_trees (r : Run ok w cs) (ha : w.program.Apart) (a : Accessor)
    (x : NodeId) :
    ((∀ t place, w.program.Has t place → place.id ≠ x) →
      (accessor a x).on w.program = (.error (.error (.notAField x)), w.program)) ∧
    ∀ t place, w.program.Has t place → place.id = x →
      ∃ kernel, ((accessor a x).on w.program).1 = .ok kernel ∧
        (w.step (.accessor a x)).Returned a t place kernel := by
  obtain ⟨hp, hw⟩ := r.wired
  have hcases := hw.accessed hp a x
  have r' : Run (fun _ _ => True) w cs := r.mono fun _ _ _ => trivial
  have hnext := r'.step (.accessor a x) trivial
  have htrees := (accessor_remembers a x w.program).trees
  rw [World.step_of_quietly rfl rfl] at hnext ⊢
  constructor
  · intro hnone
    generalize (accessor a x).on w.program = y at hcases
    cases hcases with
    | unknown _ => rfl
    | served _ _ hhas hid _ _ => exact absurd hid (hnone _ _ hhas)
  · rintro t place hhas rfl
    generalize (accessor a place.id).on w.program = y at hcases hnext htrees ⊢
    cases hcases with
    | unknown hf =>
      rw [ha.unambiguous.place?_of_mem hhas] at hf
      cases hf
    | served _ _ hhas' hid hf hs =>
      obtain ⟨rfl, rfl⟩ := ha.unique_place hhas' hhas hid
      exact ⟨_, rfl, hnext.returned (hhas.of_same htrees) hf hs⟩

end Run

/-- Four numbers in a tree. -/
def fourNumbers : Node :=
  .mk 0 .root [] [.mk 1 (.dense [4]) [4] [.mk 2 (.place "x" .float32) [4] []]]

/-- A program with these numbers. -/
def withFourNumbers : World := World.fresh.step (.addTree fourNumbers false)

open Program in
/-- There is no accessor of the node above the place. The writer of the place takes an index and a
value; when the tree was destroyed and the same tree is added again, another one is returned. -/
theorem Run.accessors_follow_trees_recreated : ∃ cs kernel,
    Run (fun _ _ => True) withFourNumbers cs ∧ withFourNumbers.program.Apart ∧
    (accessor .writer 1).on withFourNumbers.program =
      (.error (.error (.notAField 1)), withFourNumbers.program) ∧
    ((accessor .writer 2).on withFourNumbers.program).1 = .ok kernel ∧
    let w := withFourNumbers.step (.accessor .writer 2)
    (∃ k, w.program.kernels.find? kernel = some k ∧
      k.args = [.scalar .int32, .scalar .float32]) ∧
    ((accessor .writer 2).on
      ((w.step (.destroyTree 0)).step (.addTree fourNumbers false)).program).1 ≠ .ok kernel := by
  have r : Run (fun _ _ => True) withFourNumbers _ :=
    .once (c := .addTree fourNumbers false) trivial
  have hids : withFourNumbers.program.nodeIds.Nodup := by decide +kernel
  have hlive : withFourNumbers.program.trees.live = [⟨0, fourNumbers, false⟩] := rfl
  have hplaces : fourNumbers.places = [⟨2, "x", .float32, [4]⟩] := rfl
  obtain ⟨habsent, -⟩ := r.accessors_follow_trees hids .writer 1
  obtain ⟨-, hreturned⟩ := r.accessors_follow_trees hids .writer 2
  obtain ⟨kernel, hok, hkernel⟩ := hreturned ⟨0, fourNumbers, false⟩ ⟨2, "x", .float32, [4]⟩
    ⟨hlive ▸ List.mem_singleton_self _, hplaces ▸ List.mem_singleton_self _⟩ rfl
  refine ⟨_, kernel, r, hids, habsent fun t place hp => ?_, hok, ?_, ?_⟩
  · obtain rfl := List.mem_singleton.1 (hlive ▸ hp.live)
    obtain rfl := List.mem_singleton.1 (hplaces ▸ hp.place)
    decide
  · obtain ⟨k, hk, hfits⟩ := hkernel.fits
    exact ⟨k, hk, hfits.args⟩
  · refine hkernel.never [.destroyTree 0] ?_ [.addTree fourNumbers false] .writer 2
    have hnone : ((withFourNumbers.step (.accessor .writer 2)).step
      (.destroyTree 0)).program.trees.live = [] := rfl
    exact hnone ▸ List.not_mem_nil

end FieldCompute
