import FieldCompute.Proofs.Program.Elements
import FieldCompute.Proofs.Program.Storeless
/-!
# Fields store what is written to them

Over a whole run, a field behaves like a map from index tuples to values: reading an element gives
what was last written to it since its tree was added, as the type of the field, or zero
(`FieldRun.read_last_write`). What carries the proof is that every element of every tree holds the
bytes of that value after every command (`FieldRun.contains`).
-/

namespace FieldCompute

open Routine Program Device Relation

variable {w : World} {writes : Writes} {t : FieldTree} {place : Place} {id : NodeId}
  {indices : List Int} {s : Storage} {f : FieldSlot} {x : Nat}

/-! ## Elements and where they are located -/

namespace Program.Element

variable {p : Program}

theorem place_eq (e : p.Element s f indices x) (hl : p.Linked) (ha : p.Apart) (h : p.Has t place)
    (hid : f.place.id = place.id) : f.place = place := by
  obtain ⟨u, -, hst⟩ := e.stores hl
  exact (ha.unique_place hst.has h hid).2

theorem length_eq (e : p.Element s f indices x) : indices.length = f.place.shape.length :=
  (FieldSlot.exists_elementOffset?.1 ⟨x, e.offset⟩).length_eq

/-- An element is located where it is. -/
theorem locate (e : p.Element s f indices x) (hl : p.Linked) (ha : p.Apart) (code : Code)
    (args : List Value) :
    (p.engine.launchOf code args).locate f.place.id indices =
      .ok (f.place.scalar, ⟨s.allocation, x⟩) := by
  have hb : (p.engine.launchOf code args).binding? f.place.id = some ⟨s.allocation, f⟩ :=
    e.binding? hl ha
  rw [Launch.locate, hb]
  simp only [e.offset]
  rfl

/-- What is located is an element. -/
theorem of_locate (hl : p.Linked) {code : Code} {args : List Value} {scalar : Scalar} {q : Pointer}
    (h : (p.engine.launchOf code args).locate id indices = .ok (scalar, q)) :
    ∃ s f x, p.Element s f indices x ∧ f.place.id = id ∧ scalar = f.place.scalar ∧
      q = ⟨s.allocation, x⟩ := by
  unfold Launch.locate at h
  split at h
  · cases h
  · rename_i b hb
    split at h <;> cases h
    rename_i x hx
    obtain ⟨t, s, hst, -, hall, hid⟩ := hl.binding?_stores hb
    exact ⟨s, b.field, x, ⟨⟨t.id, hst.storage⟩, hst.field, hx⟩, hid, rfl, by rw [hall]⟩

/-- The places of a new tree are none of those that have elements. -/
theorem fresh (e : p.Element s f indices x) (hl : p.Linked) {q : Program} {root : Node}
    {compileOnly : Bool} (ht : q.trees = (p.trees.add root compileOnly).2) (ha : q.Apart) :
    ∀ other ∈ root.places, other.id ≠ f.place.id := by
  intro other hother hid
  obtain ⟨u, -, hst⟩ := e.stores hl
  have hsound := hl.registry.add root compileOnly
  have hnew : q.Has ⟨p.trees.next, root, compileOnly⟩ other := by
    refine ⟨?_, hother⟩
    rw [ht, hsound.mem_live, Registry.get?_add hl.registry, if_pos rfl]
  obtain ⟨rfl, -⟩ := ha.unique_place hnew (hst.has.add hl.registry ht) hid
  have hlive := hl.registry.mem_live.1 hst.has.live
  rw [Registry.get?_next hl.registry] at hlive
  cases hlive

end Program.Element

/-! ## New trees -/

namespace Program.Contains

/-- A value is recorded where there is no element. -/
theorem record (h : w.program.Contains writes) (v : Value)
    (hno : ∀ s f x, w.program.Element s f indices x → f.place.id ≠ id) :
    w.program.Contains (writes.record id indices v) := by
  intro s f indices' x e
  have hne : f.place.id = id → indices' ≠ indices := by
    rintro hid rfl
    exact hno s f x e hid
  rw [Writes.value_record_of_ne hne]
  exact h e

theorem layout (h : w.program.Contains writes) (hl : w.program.Linked) {root : Node}
    (ha : ({ w.program with trees := (w.program.trees.add root true).2 } : Program).Apart) :
    ({ w.program with trees := (w.program.trees.add root true).2 } : Program).Contains
      (writes.forget root.places) := by
  intro s f indices x e
  replace e : w.program.Element s f indices x := ⟨e.storage, e.field, e.offset⟩
  rw [Writes.value_forget_of_ne (e.fresh hl rfl ha)]
  exact h e

/-- A new tree is all zero, and the others keep their values. -/
theorem tree (h : w.program.Contains writes) (hl : w.program.Linked) (hacc : w.Accounted)
    {root : Node} {pool : Pool} {q : Program} (hpack : Packing.ofTree? root = some s.packing)
    (hal : (Pool.allocate s.packing.size true).on w.program.pool = (.ok s.allocation, pool))
    (ht : q.trees = (w.program.trees.add root false).2)
    (hq : q.engine = { w.program.engine with
      pool, storage := w.program.engine.storage.insert w.program.trees.next s })
    (ha : q.Apart) : q.Contains (writes.forget root.places) := by
  intro s' f indices x e
  obtain ⟨i, hi⟩ := e.storage
  have hd : q.device = pool.device := by rw [Program.device, hq]; rfl
  have hsupplied := hacc.ledger.allocate s.packing.size true
  rw [hal] at hsupplied
  obtain ⟨hb, -, hzero⟩ | _ := hsupplied
  rw [hq, Table.find?_insert] at hi
  split at hi
  · -- An element of the new tree: its storage has just been cleared.
    cases hi
    have hlays := Packing.lays_ofTree? hpack
    have hplace : f.place ∈ root.places := by
      rw [← hlays.places]
      exact List.mem_map.2 ⟨f, e.field, rfl⟩
    rw [Writes.value_forget hplace, Value.toBytes_zero, hd]
    exact read_zeros (hzero rfl) (hlays.inside e.field e.offset)
  · replace e : w.program.Element s' f indices x := ⟨⟨i, hi⟩, e.field, e.offset⟩
    have howned := List.mem_append_left w.held (World.Accounted.storage_owned hi)
    rw [Writes.value_forget_of_ne (e.fresh hl ht ha), hd]
    exact (read_congr (hb.keeps _ howned)).trans (h e)

end Program.Contains

/-! ## Writing -/

/-- What is known between the commands of such a run. -/
structure World.Kept (w : World) : Prop where
  hosted : w.program.Hosted
  moored : w.program.Moored
  wired : w.program.Wired
  linked : w.program.Linked
  accounted : w.Accounted
  apart : w.program.Apart

namespace World.Kept

variable {code : Code} {slots : ResultSlots} {v : Value} {kernel : Nat}

/-- The writer writes the element, if there is one, and nothing else. -/
theorem run_writer (hw : w.Kept) (hhas : w.program.Has t place)
    (hcode : code.body = (Accessor.writer.kernel place kernel).body)
    (hn : indices.length = place.shape.length) (hi : ∀ i ∈ indices, IsIndex i)
    {r : Except Halt Unit} {m : Machine}
    (hrun : (w.program.engine.launchOf code (indexArgs indices ++ [v])).run
      ⟨w.program.device, slots⟩ = (r, m)) :
    (m.device = w.program.device ∧
      ∀ s f x, w.program.Element s f indices x → f.place.id ≠ place.id) ∨
    ∃ s f x, w.program.Element s f indices x ∧ f.place = place ∧
      w.program.device.write ⟨s.allocation, x⟩ (v.toBytes place.scalar) = .ok m.device := by
  rw [Accessor.run_writer hcode rfl hn, map_asIndex hi] at hrun
  cases hl : (w.program.engine.launchOf code (indexArgs indices ++ [v])).locate place.id indices with
  | error e =>
    rw [hl] at hrun
    cases hrun
    refine .inl ⟨rfl, ?_⟩
    intro s f x e hid
    rw [← hid, e.locate hw.linked hw.apart] at hl
    cases hl
  | ok r =>
    obtain ⟨scalar, q⟩ := r
    obtain ⟨s, f, x, e, hid, rfl, rfl⟩ := Element.of_locate hw.linked hl
    obtain rfl := e.place_eq hw.linked hw.apart hhas hid
    obtain ⟨data, hdata, hle⟩ := e.span hw.accounted
    rw [← Value.length_toBytes f.place.scalar v] at hle
    have hwrite := (write_eq_ok_iff (p := ⟨s.allocation, x⟩)).2 ⟨data, hdata, hle, rfl⟩
    simp only [hl, Value.toBytes_cast, hwrite] at hrun
    cases hrun
    exact .inr ⟨s, f, x, e, rfl, hwrite⟩

/-- A write records its value. -/
theorem writeField (hw : w.Kept) (h : w.program.Contains writes) (thread : Thread) (id : NodeId)
    (hi : ∀ i ∈ indices, IsIndex i) (v : Value) :
    ((Program.writeField thread id indices v).on w.program).2.Contains
      (writes.record id indices v) := by
  have hcases := hw.wired.accessed hw.hosted .writer id
  rw [Program.writeField, on_bind]
  generalize (accessor .writer id).on w.program = r at hcases ⊢
  cases hcases with
  | unknown hn =>
    -- Elements belong to places that are known, so this write is to none.
    apply h.record v
    intro s f x e hid
    obtain ⟨u, -, hst⟩ := e.stores hw.linked
    rw [← hid, hw.apart.unambiguous.place?_of_mem hst.has] at hn
    cases hn
  | @served q t place kernel k hb hwired hhas hid _ hs =>
    subst hid
    have hq : q.Hosted := hw.hosted.of_backend hb
    have hengine : q.engine = w.program.engine := congrArg Backend.engine hb
    have hdevice : q.device = w.program.device := congrArg Engine.device hengine
    have hargs : (indexArgs indices ++ [v]).length =
        (Accessor.writer.kernel place kernel).args.length ↔ indices.length = place.shape.length :=
      Accessor.length_arguments .writer v kernel
    have hlaunch := hwired.launched hq hs thread (indexArgs indices ++ [v])
    simp only
    generalize (launch thread kernel (indexArgs indices ++ [v])).on q = r at hlaunch ⊢
    rcases hlaunch with ⟨hn, hr⟩ | ⟨hn, code, -, hcode, hr⟩
    · rw [hr]
      refine (h.record v fun s f x e hid => ?_).of_same (congrArg Engine.storage hengine) hdevice
      rw [ne_eq, hargs] at hn
      exact hn (e.place_eq hw.linked hw.apart hhas hid ▸ e.length_eq)
    · have hstorage := hr.storage.trans (congrArg Engine.storage hengine)
      obtain ⟨_, m, hm⟩ : ∃ r m, (q.engine.launchOf code (indexArgs indices ++ [v])).run
          ⟨q.device, q.slots⟩ = (r, m) := ⟨_, _, rfl⟩
      have hd := (hr.run hm).2.1
      rw [hengine, hdevice] at hm
      rcases hw.run_writer hhas hcode (hargs.1 hn) hi hm with ⟨hsame, hno⟩ | ⟨s, f, x, e, rfl, hwrite⟩
      · exact (h.record v hno).of_same hstorage (hd.trans hsame)
      · rw [← hd] at hwrite
        exact h.write hw.accounted hw.linked hw.apart e hwrite hstorage

/-! ## Reading -/

/-- The reader leaves the word of the value in slot 0. -/
theorem run_reader (hw : w.Kept) (h : w.program.Contains writes)
    (e : w.program.Element s f indices x)
    (hcode : code.body = (Accessor.reader.kernel f.place kernel).body)
    (hi : ∀ i ∈ indices, IsIndex i) (slots : ResultSlots) :
    ∃ m : Machine, (w.program.engine.launchOf code (indexArgs indices)).run
        ⟨w.program.device, slots⟩ = (.ok (), m) ∧
      m.slots.load 0 = .ok ((writes.value f.place indices).word f.place.scalar) := by
  have hrun := Accessor.run_reader (l := w.program.engine.launchOf code (indexArgs indices))
    (m := ⟨w.program.device, slots⟩) hcode rfl e.length_eq
  rw [map_asIndex hi, e.locate hw.linked hw.apart code _] at hrun
  simp only [h e, Value.ofBytes_toBytes, Writes.value_cast] at hrun
  exact ⟨_, hrun, Machine.load_answer _ _⟩

/-- So does launching it through the program, whatever the program did for that. -/
theorem launch_reader (hw : w.Kept) (h : w.program.Contains writes)
    (e : w.program.Element s f indices x) (hi : ∀ i ∈ indices, IsIndex i) {q : Program} {k : Kernel}
    (hb : q.backend = w.program.backend) (hq : q.Wired) (hs : q.Serves .reader f.place kernel k)
    (thread : Thread) :
    ∃ r, (launch thread kernel (indexArgs indices)).on q = (.ok (), r) ∧
      (∃ code, r.Serves .reader f.place kernel { k with code? := some code }) ∧
      r.slots.load 0 = .ok ((writes.value f.place indices).word f.place.scalar) := by
  have hengine : q.engine = w.program.engine := congrArg Backend.engine hb
  have hdevice : q.device = w.program.device := congrArg Engine.device hengine
  have hargs : (indexArgs indices).length = (Accessor.reader.kernel f.place kernel).args.length := by
    simpa [indexArgs, Accessor.kernel_args] using e.length_eq
  have hlaunch := hq.launched (hw.hosted.of_backend hb) hs thread (indexArgs indices)
  rcases hlaunch with ⟨hn, -⟩ | ⟨-, code, -, hcode, hr⟩
  · exact absurd hargs hn
  obtain ⟨m, hm, hload⟩ := hw.run_reader h e hcode hi q.slots
  rw [← hengine, ← hdevice] at hm
  obtain ⟨hanswer, -, hslots, -⟩ := hr.run hm
  refine ⟨_, Prod.ext hanswer rfl, ⟨code, hs.ran hr⟩, ?_⟩
  rw [hslots]
  exact hload

/-- Reading an element gives the value that it should have. -/
theorem readField (hw : w.Kept) (h : w.program.Contains writes) (hhas : w.program.Has t place)
    (hc : t.compileOnly = false) (hin : Within place.shape indices)
    (hi : ∀ i ∈ indices, IsIndex i) (thread : Thread) :
    ((Program.readField thread place.id indices).on w.program).1 =
      .ok (writes.value place indices) := by
  obtain ⟨s, f, hst, rfl⟩ := hw.linked.exists_stores hhas hc
  obtain ⟨x, hx⟩ := FieldSlot.exists_elementOffset?.2 hin
  have e : w.program.Element s f indices x := ⟨⟨t.id, hst.storage⟩, hst.field, hx⟩
  have hcases := hw.wired.accessed hw.hosted .reader f.place.id
  rw [Program.readField, on_bind]
  generalize (accessor .reader f.place.id).on w.program = r at hcases ⊢
  cases hcases with
  | unknown hn => rw [hw.apart.unambiguous.place?_of_mem hhas] at hn; cases hn
  | @served q u other kernel k hb hwired hother hid _ hs =>
    obtain ⟨-, rfl⟩ := hw.apart.unique_place hother hhas hid
    obtain ⟨r, hr, ⟨code, hserves⟩, hload⟩ := hw.launch_reader h e hi hb hwired hs thread
    have hword := Value.ofWord_word (writes.value f.place indices) f.place.scalar
    rw [Writes.value_cast] at hword
    simp only
    rw [on_bind_of_ok hr, hserves.readResult_on hload, hword]

end World.Kept

/-! ## Runs -/

/-- The command stores to fields as `writeField` does, if at all, and leaves the program its
memory. -/
inductive World.Tends (w : World) : Command → Prop
  | storeless {c : Command} : w.Storeless c → Tends w c
  | addTree (root : Node) (compileOnly : Bool) : Tends w (.addTree root compileOnly)
  | fillNdarray (ndarray : Nat) (pattern : UInt32) : Tends w (.fillNdarray ndarray pattern)
  | writeField (thread : Thread) (place : NodeId) {indices : List Int} (v : Value) :
    (∀ i ∈ indices, IsIndex i) → Tends w (.writeField thread place indices v)

/-- What was last written after a command: the places of a tree that is added are new. -/
def World.note (w : World) (writes : Writes) : Command → Writes
  | .writeField _ place indices v => writes.record place indices v
  | .addTree root compileOnly =>
    match ((Program.addTree root compileOnly).on w.program).1 with
    | .ok _ => writes.forget root.places
    | .error _ => writes
  | _ => writes

/-- Runs in which fields are written by `writeField` alone and live trees share no node, with what
was last written to every element. -/
inductive FieldRun : World → Writes → Prop
  | start {thread : Thread} {c : Config} {reservable : Nat} {p : Program} :
    Program.create thread c (.host c reservable) = .ok p → FieldRun ⟨p, []⟩ fun _ _ => none
  | step {w : World} {writes : Writes} (c : Command) :
    FieldRun w writes → w.Tends c → (w.step c).program.Apart →
    FieldRun (w.step c) (w.note writes c)

theorem World.note_storeless {c : Command} (hc : w.Storeless c) : w.note writes c = writes := by
  cases c with
  | addTree | writeField => exact hc.elim
  | _ => rfl

theorem World.Tends.honest {c : Command} (hc : w.Tends c) : w.Honest c := by
  cases hc with
  | storeless hc =>
    cases c with
    | deviceFree a => exact absurd trivial hc
    | poolRelease a => exact absurd trivial hc
    | _ => trivial
  | _ => trivial

namespace FieldRun

theorem run (r : FieldRun w writes) : ∃ cs, Run World.Tends w cs := by
  induction r with
  | start hp => exact ⟨[], .start hp⟩
  | step c _ hc _ ih =>
    obtain ⟨cs, hcs⟩ := ih
    exact ⟨_, .step c hcs hc⟩

theorem kept (r : FieldRun w writes) : w.Kept := by
  obtain ⟨cs, hcs⟩ := r.run
  obtain ⟨hp, hw⟩ := hcs.wired
  refine ⟨hp, hcs.moored, hw, hcs.linked, hcs.accounted fun _ _ => World.Tends.honest, ?_⟩
  cases r with
  | start hcreate => cases hcreate; exact List.nodup_nil
  | step c _ _ ha => exact ha

/-- After every command every element holds the bytes of what was last written to it. -/
theorem contains (r : FieldRun w writes) : w.program.Contains writes := by
  induction r with
  | start hp =>
    cases hp
    rintro s f indices x ⟨⟨i, hi⟩, -, -⟩
    cases hi
  | @step w writes c r hc ha ih =>
    have hw := r.kept
    cases hc with
    | storeless hc =>
      -- Calm moves leave the bytes of what is owned alone.
      rw [World.note_storeless hc]
      exact ih.chain hw.accounted (World.step_storeless hw.hosted hw.moored hw.wired hc).2
    | addTree root compileOnly =>
      rw [World.step_of_quietly rfl rfl] at ha ⊢
      have h := addTree_outcome hw.hosted root compileOnly
      rw [World.note]
      generalize (Program.addTree root compileOnly).on w.program = x at h ha ⊢
      cases h with
      | layout => exact ih.layout hw.linked ha
      | kept hatt hpack hal =>
        exact ih.tree hw.linked hw.accounted hpack hal rfl (by rw [Registry.add_fst]; rfl) ha
      | rejected hpool => exact ih.chain hw.accounted (rejected_calm root w.held hpool)
    | fillNdarray id pattern =>
      rw [World.step_of_quietly rfl rfl, Program.fillNdarray, on_bind, ndarray_on]
      cases hf : w.program.ndarrays.find? id with
      | none => exact ih
      | some a =>
        simp only [on_get_bind, on_answer_bind]
        cases hd : w.program.device.fill a.allocation pattern with
        | error e => exact ih
        | ok d => exact ih.fill hw.accounted hf hd
    | writeField thread place v hi =>
      rw [World.step_of_quietly rfl rfl]
      exact hw.writeField ih thread place hi v

/-- Whatever commands came before, reading an element of a tree with storage gives what was last
written to it since the tree was added, as the type of the field, or else zero. -/
theorem read_last_write (r : FieldRun w writes) (hp : w.program.Has t place)
    (hc : t.compileOnly = false) (hin : Within place.shape indices)
    (hi : ∀ i ∈ indices, IsIndex i) (thread : Thread) :
    ((Program.readField thread place.id indices).on w.program).1 =
      .ok (writes.value place indices) :=
  r.kept.readField r.contains hp hc hin hi thread

end FieldRun

/-- A field of two small numbers. -/
def smallField : Place := ⟨2, "x", .int8, [2]⟩

def smallTree : FieldTree :=
  ⟨0, .mk 0 .root [] [.mk 1 (.dense [2]) [2] [.mk 2 (.place "x" .int8) [2] []]], false⟩

/-- A program with this field, in which one number has been written that does not fit. -/
def smallFieldWritten : World :=
  (World.fresh.step (.addTree smallTree.root false)).step (.writeField 0 2 [1] (.int 300))

/-- The number wraps around, and the other one is still zero. -/
theorem FieldRun.read_last_write_wraps :
    ∃ writes, FieldRun smallFieldWritten writes ∧
      smallFieldWritten.program.Has smallTree smallField ∧ smallTree.compileOnly = false ∧
      ((Program.readField 0 smallField.id [1]).on smallFieldWritten.program).1 = .ok (.int 44) ∧
      ((Program.readField 0 smallField.id [0]).on smallFieldWritten.program).1 = .ok (.int 0) := by
  have hstart : FieldRun World.fresh fun _ _ => none := .start (c := {}) rfl
  have hadded := hstart.step (.addTree smallTree.root false) (.addTree ..)
    (by decide : [0, 1, 2].Nodup)
  have r : FieldRun smallFieldWritten _ :=
    hadded.step _ (.writeField 0 2 (.int 300) (by decide)) (by decide : [0, 1, 2].Nodup)
  have hp : smallFieldWritten.program.Has smallTree smallField := ⟨.head _, .head _⟩
  have hone : Within smallField.shape [1] := .cons (by decide) .nil
  have hzero : Within smallField.shape [0] := .cons (by decide) .nil
  refine ⟨_, r, hp, rfl, ?_, ?_⟩
  · rw [r.read_last_write hp rfl hone (by decide) 0]
    decide
  · rw [r.read_last_write hp rfl hzero (by decide) 0]
    decide

end FieldCompute
