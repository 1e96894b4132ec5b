import FieldCompute.Proofs.Program.Attempts
import FieldCompute.Proofs.Program.Footprint
/-!
# Arrays hold what they are filled with

Over a whole run, an array reads as what it was last filled with, or as zero if it was made so and
never filled, whatever becomes of other arrays, of fields and of the memory that it was made from
(`ArrayRun.read_last_fill`). What carries the proof is that its bytes repeat that pattern after every
command (`ArrayRun.stocked`). An array that was deleted is gone for good: new arrays get ids that
were never given (`Program.Issues`).
-/

namespace FieldCompute

open Routine Program Device Relation

/-! ## Words -/

theorem repeated_add_four (pattern : UInt32) (n : Nat) :
    repeated pattern (4 + n) = lowBytes pattern.toNat 4 ++ repeated pattern n := by
  apply List.ext_getElem?
  intro i
  rw [getElem?_repeated]
  rcases Nat.lt_or_ge i 4 with hi | hi
  · rw [List.getElem?_append_left (by simpa using hi), if_pos (by omega), Nat.mod_eq_of_lt hi]
  · have hmod : (i - 4) % 4 = i % 4 := by omega
    have hlt : i - 4 < n ↔ i < 4 + n := by omega
    rw [List.getElem?_append_right (by simpa using hi), length_lowBytes, getElem?_repeated, hmod]
    simp only [hlt]

theorem length_wordsOf (bytes : List UInt8) : (wordsOf bytes).length = bytes.length / 4 := by
  fun_induction wordsOf bytes with
  | case1 a b c d rest ih =>
    simp only [List.length_cons, ih]
    omega
  | case2 bytes h =>
    match bytes, h with
    | [], _ | [_], _ | [_, _], _ | [_, _, _], _ => simp
    | a :: b :: c :: d :: rest, h => exact (h a b c d rest rfl).elim

/-- The words of a repeated pattern, as many as there are whole ones. -/
theorem wordsOf_repeated (pattern : UInt32) (n : Nat) :
    wordsOf (repeated pattern n) = List.replicate (n / 4) pattern.toNat := by
  induction n using Nat.strongRecOn with
  | ind n ih =>
    rcases Nat.lt_or_ge n 4 with hn | hn
    · have hlength := length_wordsOf (repeated pattern n)
      rw [length_repeated, Nat.div_eq_of_lt hn] at hlength
      rw [List.length_eq_zero_iff.1 hlength, Nat.div_eq_of_lt hn, List.replicate_zero]
    · obtain ⟨m, rfl⟩ := Nat.exists_eq_add_of_le hn
      have hword := ofLowBytes_lowBytes pattern.toNat 4
      rw [Nat.mod_eq_of_lt (by simpa using pattern.toNat_lt)] at hword
      have hfirst : wordsOf (lowBytes pattern.toNat 4 ++ repeated pattern m) =
          ofLowBytes (lowBytes pattern.toNat 4) :: wordsOf (repeated pattern m) := rfl
      have hdiv : (4 + m) / 4 = m / 4 + 1 := by omega
      rw [repeated_add_four, hfirst, hword, ih m (by omega), hdiv, List.replicate_succ]

/-! ## Ids -/

namespace Program

/-- Arrays that are new have ids that were not given before. -/
structure Issues (p q : Program) : Prop where
  next : p.nextNdarray ≤ q.nextNdarray
  known {id : Nat} {a : Ndarray} :
    id < p.nextNdarray → q.ndarrays.find? id = some a → p.ndarrays.find? id = some a

namespace Issues

variable {p q : Program} {w w' : World}

theorem of_same (hn : q.ndarrays = p.ndarrays) (hnext : q.nextNdarray = p.nextNdarray) :
    p.Issues q :=
  ⟨Nat.le_of_eq hnext.symm, fun _ hf => hn ▸ hf⟩

instance : Std.Refl Issues := ⟨fun _ => .of_same rfl rfl⟩

instance : IsTrans Program Issues where
  trans _ _ _ h h' :=
    ⟨Nat.le_trans h.next h'.next,
      fun hid hf => h.known hid (h'.known (Nat.lt_of_lt_of_le hid h.next) hf)⟩

theorem calm (hm : Calm w w') : w.program.Issues w'.program := by
  cases hm with
  | quiet hq => exact .of_same hq.ndarrays hq.nextNdarray
  | kernel k hid hc hq hn => exact .of_same hq.ndarrays hq.nextNdarray
  | @ndarray p held a size zero pool hid hatt hb hal =>
    have hnext : p.nextNdarray ≤ a.id + 1 := by omega
    refine ⟨hnext, fun {id b} hlt hf => ?_⟩
    have hne : id ≠ a.id := by
      simp only at hlt
      omega
    change (p.ndarrays.insert a.id a).find? id = some b at hf
    rwa [Table.find?_insert_of_ne hne] at hf
  | ndarrayGone id a ha => exact ⟨Nat.le_refl _, fun _ hf => Table.find?_of_erase hf⟩
  | _ => exact .of_same rfl rfl

theorem closing (hm : Closing w w') : w.program.Issues w'.program := by
  cases hm with
  | emptied => exact ⟨Nat.le_refl _, fun _ hf => (by cases hf)⟩
  | _ => exact .of_same rfl rfl

theorem move {ok : World → Command → Prop} (hm : Move ok w w') : w.program.Issues w'.program := by
  cases hm with
  | calm hm => exact calm hm
  | @finished p p' held hm _ =>
    exact ending_keeps (I := fun w => p.Issues w.program)
      (fun hm h => IsTrans.trans _ _ _ h (calm hm)) (fun hm h => IsTrans.trans _ _ _ h (closing hm))
      hm (Std.Refl.refl p)
  | raw c hr _ =>
    obtain ⟨pool, hpool⟩ := World.step_raw (w := w) hr
    rw [hpool]
    exact .of_same rfl rfl
  | _ => exact .of_same rfl rfl

theorem step (hp : w.program.Hosted) (hm : w.program.Moored) (c : Command) :
    w.program.Issues (w.step c).program := by
  obtain ⟨-, hmoves⟩ := @World.step_moves (fun _ _ => True) w c hp hm trivial
  generalize w.step c = w' at hmoves ⊢
  induction hmoves with
  | refl => exact Std.Refl.refl w.program
  | tail _ hmove ih => exact IsTrans.trans _ _ _ ih (move hmove)

end Issues

end Program

theorem Run.issues_foldl {ok : World → Command → Prop} {w : World} {cs : List Command}
    (r : Run ok w cs) (later : List Command) :
    w.program.Issues (later.foldl World.step w).program :=
  r.foldl_along (fun r c => .step r.hosted r.moored c) later

/-! ## What is known of the bytes of arrays -/

/-- The patterns that arrays were filled with, by id, where that is known. -/
abbrev Fills := Nat → Option UInt32

/-- The array is filled, or it is new. -/
def Fills.record (fills : Fills) (id : Nat) (pattern? : Option UInt32) : Fills :=
  fun id' => if id' = id then pattern? else fills id'

/-- The bytes of every array that was filled repeat the pattern. -/
structure World.Stocked (w : World) (fills : Fills) : Prop where
  linked : w.program.Linked
  accounted : w.Accounted
  repeats {id : Nat} {a : Ndarray} {pattern : UInt32} :
    w.program.ndarrays.find? id = some a → fills id = some pattern →
    w.program.device.memory.find? a.allocation.id =
      some (repeated pattern a.allocation.size).toArray
  fresh {id : Nat} : w.program.nextNdarray ≤ id → fills id = none

/-- The allocations of the arrays of a program. -/
def Program.arrayMemory (p : Program) : List Allocation := p.ndarrays.values.map (·.allocation)

theorem Program.mem_arrayMemory {p : Program} {id : Nat} {a : Ndarray}
    (ha : p.ndarrays.find? id = some a) : a.allocation ∈ p.arrayMemory :=
  List.mem_map.2 ⟨a, Table.mem_values_of_find? ha, rfl⟩

theorem Program.arrayMemory_subset_owned (p : Program) : p.arrayMemory ⊆ p.owned :=
  List.Subset.trans (List.subset_append_right ..) (List.subset_append_left ..)

namespace World.Stocked

variable {w w' : World} {fills : Fills} {p : Program} {held : List Allocation}

/-- What leaves the bytes of arrays alone keeps what is known of them. -/
theorem kept (h : w.Stocked fills) (hl : w'.program.Linked) (ha : w'.Accounted)
    (hi : w.program.Issues w'.program)
    (hk : Keeps w.program.arrayMemory w.program.device w'.program.device) : w'.Stocked fills where
  linked := hl
  accounted := ha
  repeats {id a pattern} hf hpattern := by
    rcases Nat.lt_or_ge id w.program.nextNdarray with hlt | hge
    · have hf := hi.known hlt hf
      rw [hk _ (mem_arrayMemory hf)]
      exact h.repeats hf hpattern
    · rw [h.fresh hge] at hpattern
      cases hpattern
  fresh hge := h.fresh (Nat.le_trans hi.next hge)

theorem calm (h : w.Stocked fills) (hm : Calm w w') : w'.Stocked fills := by
  obtain ⟨ha, hs⟩ := h.accounted.calm hm
  exact h.kept (h.linked.calm hm) ha (.calm hm) (hs.keeps.subset w.program.arrayMemory_subset_owned)

/-- Code writes to fields alone. -/
theorem active (h : w.Stocked fills) (hm : Active w w') : w'.Stocked fills := by
  cases hm with
  | calm hm => exact h.calm hm
  | @ran p held code args slots =>
    have hr := Launch.run_rewritten (p.engine.launchOf code args) ⟨p.device, slots⟩
    have hk := h.accounted.besides hr (h.linked.run_covers code args slots)
    exact h.kept (h.linked.of_same rfl rfl) (h.accounted.rewritten hr) (.of_same rfl rfl)
      (hk.subset (List.subset_append_left ..))

theorem chain (h : w.Stocked fills) (hm : ReflTransGen Active w w') : w'.Stocked fills := by
  induction hm with
  | refl => exact h
  | tail _ hm ih => exact ih.active hm

/-- What is known of one array is replaced. -/
theorem record (h : w.Stocked fills) {id : Nat} {pattern? : Option UInt32}
    (hid : id < w.program.nextNdarray)
    (hr : ∀ a pattern, w.program.ndarrays.find? id = some a → pattern? = some pattern →
      w.program.device.memory.find? a.allocation.id =
        some (repeated pattern a.allocation.size).toArray) :
    w.Stocked (fills.record id pattern?) where
  linked := h.linked
  accounted := h.accounted
  repeats {id' a pattern} hf hpattern := by
    rw [Fills.record] at hpattern
    split at hpattern
    · subst id'
      exact hr a pattern hf hpattern
    · exact h.repeats hf hpattern
  fresh {id'} hge := by
    rw [Fills.record, if_neg (by omega)]
    exact h.fresh hge

/-- Where there are no arrays there is nothing to know. -/
theorem emptied (h : w.Stocked fills) (hl : w'.program.Linked) (ha : w'.Accounted)
    (hi : w.program.Issues w'.program) (hn : w'.program.ndarrays = .empty) : w'.Stocked fills where
  linked := hl
  accounted := ha
  repeats hf _ := by
    rw [hn] at hf
    cases hf
  fresh hge := h.fresh (Nat.le_trans hi.next hge)

/-- A new array is all zero, if that was asked for, whatever its memory held before. -/
theorem created (h : World.Stocked ⟨p, held⟩ fills) {a : Ndarray} {size : Nat} {zero : Bool}
    {pool : Pool} (hid : a.id = p.nextNdarray) (hatt : p.engine.attached = true)
    (hbytes : a.dtype.arrayBytes? a.shape = some size)
    (hal : (Pool.allocate size zero).on p.pool = (.ok a.allocation, pool)) :
    World.Stocked ⟨(p.withNdarray a).withPool pool, held⟩
      (fills.record p.nextNdarray (if zero then some 0 else none)) := by
  have hs := h.accounted.ledger.allocate size zero
  rw [hal] at hs
  obtain ⟨-, hsize, hzero⟩ | _ := hs
  refine (h.calm (.ndarray a size zero pool hid hatt hbytes hal)).record ?_ fun b pattern hf hp => ?_
  · exact hid ▸ Nat.lt_succ_self a.id
  · obtain rfl : a = b := by
      change (p.ndarrays.insert a.id a).find? p.nextNdarray = some b at hf
      rw [← hid, Table.find?_insert_self] at hf
      exact Option.some.inj hf
    split at hp <;> cases hp
    rw [hsize, repeated_zero, List.toArray_replicate]
    exact hzero ‹_›

/-- Filling an array changes its bytes and no others. -/
theorem filled (h : World.Stocked ⟨p, held⟩ fills) {id : Nat} {a : Ndarray}
    (ha : p.ndarrays.find? id = some a) {pattern : UInt32} {d : Device}
    (hd : p.device.fill a.allocation pattern = .ok d) :
    World.Stocked ⟨p.withDevice d, held⟩ (fills.record id (some pattern)) := by
  have hr := Rewritten.fill hd
  obtain ⟨data, hdata, -, rfl⟩ := fill_eq_ok_iff.1 hd
  refine ⟨h.linked.of_same rfl rfl, h.accounted.rewritten hr, ?_, ?_⟩
  · intro id' b pattern' hb hpattern
    change Table.find? (p.device.memory.insert a.allocation.id _) b.allocation.id = _
    rw [Fills.record] at hpattern
    by_cases hid : id' = id
    · subst id'
      rw [if_pos rfl, Option.some.injEq] at hpattern
      obtain rfl := Option.some.inj (ha.symm.trans hb)
      obtain ⟨data', hdata', hsize⟩ := h.accounted.ledger.live
        (List.mem_append_left _ (p.arrayMemory_subset_owned (mem_arrayMemory ha)))
      obtain rfl := Option.some.inj (hdata.symm.trans hdata')
      rw [Table.find?_insert_self, patched_all (by simpa using hsize), hpattern]
    · -- Another array has other memory.
      have hne : b.allocation.id ≠ a.allocation.id :=
        fun hsame => hid (h.accounted.ndarray_unique hb ha hsame)
      rw [if_neg hid] at hpattern
      rw [Table.find?_insert_of_ne hne]
      exact h.repeats hb hpattern
  · intro id' hge
    have hlt : id < p.nextNdarray := (h.accounted.shaped ha).1
    have hne : id' ≠ id := by
      change p.nextNdarray ≤ id' at hge
      omega
    rw [Fills.record, if_neg hne]
    exact h.fresh hge

end World.Stocked

/-! ## Commands -/

/-- What is known of arrays after a command: one that was made or filled. -/
def World.noteFill (w : World) (fills : Fills) : Command → Fills
  | .createNdarray dtype shape layout zero =>
    match ((Program.createNdarray dtype shape layout zero).on w.program).1 with
    | .ok id => fills.record id (if zero then some 0 else none)
    | .error _ => fills
  | .fillNdarray id pattern =>
    match ((Program.fillNdarray id pattern).on w.program).1 with
    | .ok _ => fills.record id (some pattern)
    | .error _ => fills
  | _ => fills

/-- The command leaves the program its memory, and past the program it does not write to arrays. -/
structure World.SparesArrays (w : World) (c : Command) : Prop where
  honest : w.Honest c
  misses : c.Misses w.program.arrayMemory

namespace World.Stocked

variable {w : World} {fills : Fills}

theorem createNdarray (h : w.Stocked fills) (dtype : DType) (shape : List Nat)
    (layout : ArrayLayout) (zero : Bool) :
    (w.step (.createNdarray dtype shape layout zero)).Stocked
      (w.noteFill fills (.createNdarray dtype shape layout zero)) := by
  rw [step_of_quietly rfl rfl, noteFill]
  cases hs : dtype.arrayBytes? shape with
  | none =>
    simp only [Program.createNdarray, hs, on_throw]
    exact h
  | some size =>
    rw [createNdarray_on hs]
    by_cases ha : w.program.engine.attached = true
    · rw [if_pos ha]
      cases hr : (Pool.allocate size zero).on w.program.pool with
      | mk r pool =>
        cases r with
        | error e => exact h.calm (.pool pool (.refused hr))
        | ok a => exact h.created (a := ⟨w.program.nextNdarray, dtype, shape, layout, a⟩) rfl ha hs hr
    · rw [if_neg ha]
      exact h

theorem fillNdarray (h : w.Stocked fills) (id : Nat) (pattern : UInt32) :
    (w.step (.fillNdarray id pattern)).Stocked
      (w.noteFill fills (.fillNdarray id pattern)) := by
  rw [step_of_quietly rfl rfl, noteFill, Program.fillNdarray, on_bind, ndarray_on]
  cases ha : w.program.ndarrays.find? id with
  | none => exact h
  | some a =>
    simp only [on_get_bind, on_answer_bind]
    cases hd : w.program.device.fill a.allocation pattern with
    | error e => exact h
    | ok d => exact h.filled ha hd

theorem addTree (h : w.Stocked fills) (hp : w.program.Hosted) (root : Node) (compileOnly : Bool)
    (ha : (w.step (.addTree root compileOnly)).Accounted) :
    (w.step (.addTree root compileOnly)).Stocked fills := by
  have hcases := addTree_outcome hp root compileOnly
  rw [step_of_quietly rfl rfl] at ha ⊢
  generalize (Program.addTree root compileOnly).on w.program = x at hcases ha ⊢
  cases hcases with
  | layout => exact h.calm (.layout root)
  | @kept s pool hatt hpack hal =>
    have hs := h.accounted.ledger.allocate s.packing.size true
    rw [hal] at hs
    obtain ⟨hb, -, -⟩ | _ := hs
    have hm : Move World.Honest w _ := .tree root s pool hatt hpack hal
    refine h.kept (h.linked.move hm) ha (.of_same rfl rfl) (hb.keeps.subset ?_)
    exact List.Subset.trans w.program.arrayMemory_subset_owned (List.subset_append_left ..)
  | rejected hpool =>
    exact h.chain ((rejected_calm root w.held hpool).lift id fun _ _ => .calm)

/-- Every command keeps what is known of arrays up to date. -/
theorem step {c : Command} (h : w.Stocked fills) (hp : w.program.Hosted) (hm : w.program.Moored)
    (hc : w.SparesArrays c) (hl : (w.step c).program.Linked) (ha : (w.step c).Accounted) :
    (w.step c).Stocked (w.noteFill fills c) := by
  have hi := Issues.step hp hm c
  by_cases hactive : c.IsActive
  · have hchain := h.chain (step_active hp hm hactive).2
    cases c with
    | createNdarray dtype shape layout zero => exact h.createNdarray dtype shape layout zero
    | fillNdarray => exact hactive.elim
    | _ => exact hchain
  -- What is left ends the program, gives a tree storage, fills an array or goes past the program.
  have ended {α : Type} {op : Op α} {c : Command}
      (hop : (op.on w.program).2 = w.program ∨
        ∃ e events, (op.on w.program).2 = { w.program.emptied.withEngine e with events })
      (hw : w.step c = ⟨(op.on w.program).2, w.held⟩) (hl : (w.step c).program.Linked)
      (ha : (w.step c).Accounted) (hi : w.program.Issues (w.step c).program) :
      (w.step c).Stocked fills := by
    rcases hop with hsame | ⟨e, events, hempty⟩
    · rw [hw, hsame]
      exact h
    · exact h.emptied hl ha hi (by rw [hw, hempty]; rfl)
  cases c with
  | createNdarray => exact absurd not_false hactive
  | fillNdarray id pattern => exact h.fillNdarray id pattern
  | addTree root compileOnly => exact h.addTree hp root compileOnly ha
  | finalize => exact ended (finalize_ends w.program) (step_of_quietly rfl rfl) hl ha hi
  | drop => exact ended (drop_ends w.program) (step_of_quietly rfl rfl) hl ha hi
  | _ =>
    have hk := (h.accounted.raw (not_not.1 hactive) hc.honest).2 _
      w.program.arrayMemory_subset_owned hc.misses
    exact h.kept hl ha hi hk

end World.Stocked

/-! ## Runs -/

/-- Runs in which nobody frees the program's memory or writes to arrays past it, with what arrays
were last filled with. -/
inductive ArrayRun : World → Fills → Prop
  | start {thread : Thread} {c : Config} {reservable : Nat} {p : Program} :
    Program.create thread c (.host c reservable) = .ok p → ArrayRun ⟨p, []⟩ fun _ => none
  | step {w : World} {fills : Fills} (c : Command) :
    ArrayRun w fills → w.SparesArrays c → ArrayRun (w.step c) (w.noteFill fills c)

namespace ArrayRun

variable {w : World} {fills : Fills} {id : Nat} {a : Ndarray}

theorem run (r : ArrayRun w fills) : ∃ cs, Run World.SparesArrays w cs := by
  induction r with
  | start hp => exact ⟨[], .start hp⟩
  | step c _ hc ih =>
    obtain ⟨cs, hcs⟩ := ih
    exact ⟨_, .step c hcs hc⟩

/-- After every command every array that was filled repeats its pattern. -/
theorem stocked (r : ArrayRun w fills) : w.Stocked fills := by
  induction r with
  | start hp =>
    have hr : Run World.Honest _ _ := .start hp
    refine ⟨hr.linked, hr.accounted fun _ _ hc => hc, fun hf => ?_, fun _ => rfl⟩
    cases hp
    cases hf
  | @step w fills c r hc ih =>
    obtain ⟨cs, hcs⟩ := r.run
    have hnext := hcs.step c hc
    exact ih.step hcs.hosted hcs.moored hc hnext.linked
      (hnext.accounted fun _ _ => World.SparesArrays.honest)

end ArrayRun

namespace Program

variable {p : Program} {id : Nat} {a : Ndarray}

/-- An array that is live is read as it stands in memory. -/
theorem readNdarray_on (ha : p.ndarrays.find? id = some a) {data : Array UInt8}
    (hd : p.device.memory.find? a.allocation.id = some data) (hs : data.size = a.allocation.size) :
    (readNdarray id).on p = (.ok (wordsOf data.toList), p) := by
  have hread : p.device.read ⟨a.allocation, 0⟩ a.allocation.size = .ok data.toList := by
    refine read_eq_ok_iff.2 ⟨data, hd, by simp [hs], ?_⟩
    simp [← hs]
  rw [readNdarray, on_bind, ndarray_on, ha]
  simp only [on_get_bind, hread, on_map, on_answer]
  rfl

/-- The program does not know the array and will not give its id again. -/
structure Forgot (p : Program) (id : Nat) : Prop where
  read : (readNdarray id).on p = (.error (.error (.ndarrayNotFound id)), p)
  fill (pattern : UInt32) :
    (fillNdarray id pattern).on p = (.error (.error (.ndarrayNotFound id)), p)
  delete : (deleteNdarray id).on p = (.error (.error (.ndarrayNotFound id)), p)
  pointer : (ndarrayPointer id).on p = (.error (.error (.ndarrayNotFound id)), p)
  create (dtype : DType) (shape : List Nat) (layout : ArrayLayout) (zero : Bool) :
    ((createNdarray dtype shape layout zero).on p).1 ≠ .ok id

/-- A new array has the next id. -/
theorem createNdarray_id {dtype : DType} {shape : List Nat} {layout : ArrayLayout} {zero : Bool}
    (h : ((createNdarray dtype shape layout zero).on p).1 = .ok id) : id = p.nextNdarray := by
  cases hs : dtype.arrayBytes? shape with
  | none =>
    simp only [createNdarray, hs, on_throw] at h
    cases h
  | some size =>
    rw [createNdarray_on hs] at h
    split at h
    · split at h <;> cases h
      rfl
    · cases h

theorem forgot (ha : p.ndarrays.find? id = none) (hid : id < p.nextNdarray) : p.Forgot id := by
  have hn := ndarray_on id p
  rw [ha] at hn
  refine ⟨on_bind_of_error hn, fun _ => on_bind_of_error hn, on_bind_of_error hn,
    on_bind_of_error hn, fun dtype shape layout zero hc => ?_⟩
  have hnext := createNdarray_id hc
  omega

end Program

namespace ArrayRun

variable {w : World} {fills : Fills} {id : Nat} {a : Ndarray}

/-- Whatever commands came before, a live array of whatever type and shape reads as the whole words
that its bytes make up, and if it was filled, or made zero and never filled, each of them is what it
was last filled with. Once it is deleted it is not found again, whatever is done next. -/
theorem read_last_fill (r : ArrayRun w fills) (ha : w.program.ndarrays.find? id = some a) :
    (∃ bytes words, a.dtype.arrayBytes? a.shape = some bytes ∧
      (readNdarray id).on w.program = (.ok words, w.program) ∧ words.length = bytes / 4 ∧
      ∀ pattern, fills id = some pattern → words = List.replicate (bytes / 4) pattern.toNat) ∧
    ∀ later : List Command,
      (later.foldl World.step (w.step (.deleteNdarray id))).program.Forgot id := by
  obtain ⟨cs, hcs⟩ := r.run
  have h := r.stocked
  obtain ⟨hlt, hbytes⟩ := h.accounted.shaped ha
  constructor
  · obtain ⟨data, hd, hs⟩ := h.accounted.ledger.live
      (List.mem_append_left _ (w.program.arrayMemory_subset_owned (mem_arrayMemory ha)))
    refine ⟨_, _, hbytes, readNdarray_on ha hd hs, ?_, fun pattern hpattern => ?_⟩
    · rw [length_wordsOf, Array.length_toList, hs]
    · obtain rfl := Option.some.inj (hd.symm.trans (h.repeats ha hpattern))
      exact wordsOf_repeated pattern a.allocation.size
  · intro later
    have hgone : (w.step (.deleteNdarray id)).program.ndarrays.find? id = none := by
      rw [World.step_of_quietly rfl rfl, deleteNdarray_on hcs.hosted, ha]
      simp [withEngine]
    have r' : Run (fun _ _ => True) w cs := hcs.mono fun _ _ _ => trivial
    have hone := Issues.step hcs.hosted hcs.moored (.deleteNdarray id)
    have hlater := (r'.step (.deleteNdarray id) trivial).issues_foldl later
    have hlt' := Nat.lt_of_lt_of_le hlt hone.next
    refine forgot ?_ (Nat.lt_of_lt_of_le hlt' hlater.next)
    rw [Option.eq_none_iff_forall_ne_some]
    intro b hb
    rw [hlater.known hlt' hb] at hgone
    cases hgone

end ArrayRun

/-- A program with an array of six zeros, in the memory of an array that was filled and deleted. -/
def recycledArray : World :=
  (((World.fresh.step (.createNdarray (.scalar .int8) [6] .aos false)).step
    (.fillNdarray 0 0x01020304)).step (.deleteNdarray 0)).step
      (.createNdarray (.scalar .int8) [6] .aos true)

/-- It reads as the one whole word that there is, and once it is deleted it is gone. -/
theorem ArrayRun.read_last_fill_recycled : ∃ fills a, ArrayRun recycledArray fills ∧
    recycledArray.program.ndarrays.find? 1 = some a ∧ a.allocation = ⟨0, 6⟩ ∧ fills 1 = some 0 ∧
    ((readNdarray 1).on recycledArray.program).1 = .ok [0] ∧
    (recycledArray.step (.deleteNdarray 1)).program.Forgot 1 := by
  have fresh : ArrayRun World.fresh fun _ => none := .start (c := {}) rfl
  have first := fresh.step (.createNdarray (.scalar .int8) [6] .aos false) ⟨trivial, trivial⟩
  have filled := first.step (.fillNdarray 0 0x01020304) ⟨trivial, trivial⟩
  have deleted := filled.step (.deleteNdarray 0) ⟨trivial, trivial⟩
  obtain ⟨fills, r, hfill⟩ : ∃ fills, ArrayRun recycledArray fills ∧ fills 1 = some 0 :=
    ⟨_, deleted.step (.createNdarray (.scalar .int8) [6] .aos true) ⟨trivial, trivial⟩,
      by decide +kernel⟩
  have ha : recycledArray.program.ndarrays.find? 1 =
      some ⟨1, .scalar .int8, [6], .aos, ⟨0, 6⟩⟩ := by decide +kernel
  obtain ⟨⟨bytes, words, hbytes, hread, -, hwords⟩, hforgot⟩ := r.read_last_fill ha
  refine ⟨fills, _, r, ha, rfl, hfill, ?_, hforgot []⟩
  cases hbytes
  rw [hread, hwords 0 hfill]
  rfl

/-- An array whose memory is freed past the program, where nobody writes past it, cannot be read. -/
theorem Run.freed_array_unreadable : ∃ cs, Run (fun w c => c.Misses w.program.arrayMemory)
      ((World.fresh.step (.createNdarray (.scalar .int32) [1] .aos true)).step
        (.deviceFree ⟨0, 4⟩)) cs ∧
    (((World.fresh.step (.createNdarray (.scalar .int32) [1] .aos true)).step
      (.deviceFree ⟨0, 4⟩)).program.ndarrays.find? 0).isSome = true ∧
    ((readNdarray 0).on ((World.fresh.step (.createNdarray (.scalar .int32) [1] .aos true)).step
      (.deviceFree ⟨0, 4⟩)).program).1 = .error (.device (.unknownAllocation "CPU" 0)) :=
  ⟨_, (Run.once trivial).step _ trivial, by decide +kernel, by decide +kernel⟩

end FieldCompute
