import FieldCompute.Proofs.Launch.Accessors
import FieldCompute.Proofs.Program.Catalogue
import FieldCompute.Proofs.Program.Places
/-!
# Accessors and their kernels

The accessors that a program remembers are those of places of live trees, and each stands for a
kernel that was made for its place (`Program.Wired`). So asking for an accessor gives a kernel that
serves the place (`Wired.accessed`).
-/

namespace FieldCompute

open Routine Program Relation

namespace Program

variable {p p' q : Program} {a : Accessor} {place : Place} {id : NodeId} {kernel : Nat} {k : Kernel}
  {t : FieldTree}

/-- The kernel is the accessor kernel of the place, perhaps with its code. -/
structure Serves (p : Program) (a : Accessor) (place : Place) (kernel : Nat) (k : Kernel) : Prop where
  find : p.kernels.find? kernel = some k
  eq : k = { a.kernel place kernel with code? := k.code? }

/-- Accessors stand for kernels that serve places of live trees. -/
structure Wired (p : Program) : Prop extends p.Catalogued where
  registry : p.trees.Sound
  serves {a : Accessor} {i : NodeId} {kernel : Nat} : p.accessors.find? (a, i) = some kernel →
    ∃ t place k, p.Has t place ∧ place.id = i ∧ p.Serves a place kernel k

/-! ## Accessors that are left -/

/-- What is left without the accessors of some places is none of theirs. -/
theorem find?_forgotten {places : List Place} {known : Table (Accessor × NodeId) Nat}
    (h : (places.foldl (fun known place =>
      (known.erase (.reader, place.id)).erase (.writer, place.id)) known).find? (a, id) =
        some kernel) :
    known.find? (a, id) = some kernel ∧ ∀ place ∈ places, place.id ≠ id := by
  induction places generalizing known with
  | nil => exact ⟨h, by simp⟩
  | cons place places ih =>
    obtain ⟨hfind, hne⟩ := ih h
    simp only [Table.find?_erase, Prod.mk.injEq] at hfind
    split at hfind
    · cases hfind
    · split at hfind
      · cases hfind
      · rename_i hw hr
        rw [List.forall_mem_cons]
        refine ⟨hfind, ?_, hne⟩
        intro hid
        cases a with
        | reader => exact hr ⟨rfl, hid.symm⟩
        | writer => exact hw ⟨rfl, hid.symm⟩

/-! ## What moves keep -/

namespace Serves

theorem of_same (h : p.Serves a place kernel k) (hk : p'.kernels = p.kernels) :
    p'.Serves a place kernel k := ⟨hk ▸ h.find, h.eq⟩

theorem insert (h : p.Serves a place kernel k) {l : Kernel} (hne : kernel ≠ l.id)
    (hk : p'.kernels = p.kernels.insert l.id l) : p'.Serves a place kernel k :=
  ⟨by rw [hk, Table.find?_insert_of_ne hne]; exact h.find, h.eq⟩

theorem withCode (h : p.Serves a place kernel k) {code? : Option Code}
    (hk : p'.kernels.find? kernel = some { k with code? }) :
    p'.Serves a place kernel { k with code? } := by
  refine ⟨hk, ?_⟩
  exact congrArg (fun k : Kernel => { k with code? }) h.eq

/-- Keeping code changes the code of a kernel at most. -/
theorem insert_code (h : p.Serves a place kernel k) (hc : p.Catalogued) {i : Nat} {l : Kernel}
    (hl : p.kernels.find? i = some l) (code? : Option Code) :
    ∃ k', Serves { p with kernels := p.kernels.insert l.id { l with code? } } a place kernel k' := by
  obtain ⟨rfl, -⟩ := hc.id hl
  by_cases hi : kernel = l.id
  · subst hi
    obtain rfl := Option.some.inj (hl.symm.trans h.find)
    exact ⟨{ l with code? }, h.withCode (Table.find?_insert_self ..)⟩
  · exact ⟨k, (Table.find?_insert_of_ne hi).trans h.find, h.eq⟩

theorem id_eq (h : p.Serves a place kernel k) : k.id = kernel := by rw [h.eq]; rfl

/-- The kernel goes on to serve its place when it has run. -/
theorem ran (h : p.Serves a place kernel k) {code : Code} {args : List Value}
    {x : Except Failure Unit × Program} (hr : Ran p k code args x) :
    x.2.Serves a place kernel { k with code? := some code } := by
  refine h.withCode ?_
  rw [hr.kernels, h.id_eq, Table.find?_insert_self]

theorem name (h : p.Serves a place kernel k) : k.name = a.kernelName place.id := by rw [h.eq]; rfl

theorem args (h : p.Serves a place kernel k) : k.args = (a.kernel place kernel).args := by rw [h.eq]

theorem rets (h : p.Serves a place kernel k) : k.rets = (a.kernel place kernel).rets := by rw [h.eq]

theorem lower (h : p.Serves a place kernel k) (optimize : Bool) :
    k.lower optimize = .ok (a.kernel place kernel).body := by
  rw [h.eq]
  exact a.lower_kernel place kernel optimize

/-- The code of the kernel is its body, whenever it was compiled. -/
theorem code_body (h : p.Serves a place kernel k) {code : Code} (hm : k.Makes code) :
    code.body = (a.kernel place kernel).body := by
  obtain ⟨-, optimize, hl⟩ := hm
  exact Except.ok.inj (hl.symm.trans (h.lower optimize))

end Serves

namespace Wired

theorem of_same (h : p.Wired) (hc : p'.Catalogued) (ht : p'.trees = p.trees)
    (ha : p'.accessors = p.accessors) (hk : p'.kernels = p.kernels) : p'.Wired := by
  refine ⟨hc, ht ▸ h.registry, fun hf => ?_⟩
  obtain ⟨t, place, k, hp, hid, hs⟩ := h.serves (ha ▸ hf)
  exact ⟨t, place, k, hp.of_same ht, hid, hs.of_same hk⟩

theorem add (h : p.Wired) (hc : p'.Catalogued) {root : Node} {compileOnly : Bool}
    (ht : p'.trees = (p.trees.add root compileOnly).2) (ha : p'.accessors = p.accessors)
    (hk : p'.kernels = p.kernels) : p'.Wired := by
  refine ⟨hc, ht ▸ h.registry.add root compileOnly, fun hf => ?_⟩
  obtain ⟨t, place, k, hp, hid, hs⟩ := h.serves (ha ▸ hf)
  exact ⟨t, place, k, hp.add h.registry ht, hid, hs.of_same hk⟩

/-- The trees that are live under the same ids have the same places. -/
theorem of_get? (h : p.Wired) (hc : p'.Catalogued) (hr : p'.trees.Sound)
    (ht : ∀ i, p'.trees.get? i = p.trees.get? i) (ha : p'.accessors = p.accessors)
    (hk : p'.kernels = p.kernels) : p'.Wired := by
  refine ⟨hc, hr, fun hf => ?_⟩
  obtain ⟨t, place, k, hp, hid, hs⟩ := h.serves (ha ▸ hf)
  refine ⟨t, place, k, ⟨?_, hp.place⟩, hid, hs.of_same hk⟩
  rw [hr.mem_live, ht]
  exact h.registry.mem_live.1 hp.live

theorem withoutTree (h : p.Wired) (hc : (p.withoutTree kernel t).Catalogued)
    (ht : p.trees.get? kernel = some t) : (p.withoutTree kernel t).Wired := by
  refine ⟨hc, h.registry.remove kernel, fun {a id kid} hf => ?_⟩
  obtain ⟨hfind, hne⟩ := find?_forgotten hf
  obtain ⟨u, place, k, hp, hid, hs⟩ := h.serves hfind
  refine ⟨u, place, k, ⟨(h.registry.mem_live_remove kernel).2 ⟨hp.live, ?_⟩, hp.place⟩, hid,
    hs.of_same rfl⟩
  -- An accessor of a place of the tree itself would have been forgotten.
  rintro hui
  have hu := h.registry.mem_live.1 hp.live
  rw [hui, ht] at hu
  cases hu
  exact hne place hp.place hid

theorem calm {w w' : World} (h : w.program.Wired) (hm : Calm w w') : w'.program.Wired := by
  have hc := Catalogued.calm hm h.toCatalogued
  cases hm with
  | quiet hq => exact h.of_same hc hq.trees hq.accessors hq.kernels
  | kernel k hid hcode hq hn =>
    refine ⟨hc, hq.trees ▸ h.registry, fun {a id kid} hf => ?_⟩
    obtain ⟨t, place, l, hp, hpid, hs⟩ := h.serves (hq.accessors ▸ hf)
    -- The new id is past those of all kernels, so the accessor keeps its own.
    have hlt := (h.id hs.find).2
    have hne : kid ≠ k.id := by
      intro heq
      rw [heq, hid] at hlt
      exact Nat.lt_irrefl _ hlt
    exact ⟨t, place, l, hp.of_same hq.trees, hpid, hs.insert hne rfl⟩
  | @code p held i l code hl hcode =>
    refine ⟨hc, h.registry, fun hf => ?_⟩
    obtain ⟨t, place, k, hp, hid, hs⟩ := h.serves hf
    obtain ⟨k', hs'⟩ := hs.insert_code h.toCatalogued hl (l.code?.or (some code))
    exact ⟨t, place, k', hp.of_same rfl, hid, hs'⟩
  | accessor a place i hplace hk =>
    refine ⟨hc, h.registry, fun {b id kid} hf => ?_⟩
    simp only [Table.find?_insert, Prod.mk.injEq] at hf
    split at hf
    · rename_i heq
      obtain ⟨rfl, rfl⟩ := heq
      cases hf
      obtain ⟨t, hp, hid⟩ := has_of_place? hplace
      exact ⟨t, place, _, hp.of_same rfl, hid, hk, rfl⟩
    · obtain ⟨t, place, k, hp, hid, hs⟩ := h.serves hf
      exact ⟨t, place, k, hp.of_same rfl, hid, hs.of_same rfl⟩
  | layout root => exact h.add hc rfl rfl rfl
  | treeRejected root =>
    have hget := Registry.get?_add_remove h.registry root false
    exact h.of_get? hc (h.registry.add_remove root false _) hget rfl rfl
  | treeGone i t ht => exact h.withoutTree hc ht
  | _ => exact h.of_same hc rfl rfl rfl

theorem closing {w w' : World} (h : w.program.Wired) (hm : Closing w w') : w'.program.Wired := by
  have hc := Catalogued.closing hm h.toCatalogued
  cases hm with
  | emptied => exact ⟨hc, Registry.sound_empty, fun hf => (by cases hf)⟩
  | _ => exact h.of_same hc rfl rfl rfl

theorem chain {w w' : World} (h : w.program.Wired) (hm : ReflTransGen Calm w w') :
    w'.program.Wired := by
  induction hm with
  | refl => exact h
  | tail _ hm ih => exact ih.calm hm

theorem move {ok : World → Command → Prop} {w w' : World} (hm : Move ok w w')
    (h : w.program.Wired) : w'.program.Wired := by
  have hc := Catalogued.move hm h.toCatalogued
  cases hm with
  | calm hm => exact h.calm hm
  | finished hm _ =>
    exact ending_keeps (I := (·.program.Wired)) (fun hm h => h.calm hm) (fun hm h => h.closing hm) hm h
  | tree root s pool hatt hpack hal => exact h.add hc rfl rfl rfl
  | rewritten d hd => exact h.of_same hc rfl rfl rfl
  | raw c hr _ =>
    obtain ⟨pool, hpool⟩ := World.step_raw (w := w) hr
    rw [hpool] at hc ⊢
    exact h.of_same hc rfl rfl rfl

end Wired

/-! ## Asking for an accessor -/

/-- What asking for an accessor comes to: there is no such place, or a kernel serves it. -/
inductive Accessed (p : Program) (a : Accessor) (id : NodeId) : Except Failure Nat × Program → Prop
  | unknown : p.place? id = none → Accessed p a id (.error (.error (.notAField id)), p)
  | served {q : Program} {t : FieldTree} {place : Place} {kernel : Nat} {k : Kernel} :
    q.backend = p.backend → q.Wired → p.Has t place → place.id = id →
    q.accessors.find? (a, id) = some kernel → q.Serves a place kernel k →
    Accessed p a id (.ok kernel, q)

theorem Wired.accessed (h : p.Wired) (hp : p.Hosted) (a : Accessor) (id : NodeId) :
    Accessed p a id ((accessor a id).on p) := by
  have hq := h.chain ((accessor_calm a id p hp).2 [])
  have hcases := accessor_outcome p a id
  generalize (accessor a id).on p = r at hq hcases ⊢
  cases hcases with
  | known hf =>
    obtain ⟨t, place, k, hhas, hid, hs⟩ := h.serves hf
    exact .served rfl h hhas hid hf hs
  | notAField hf => exact .unknown hf
  | made hf =>
    obtain ⟨t, hhas, hid⟩ := has_of_place? hf
    exact .served rfl hq hhas hid (Table.find?_insert_self ..) ⟨Table.find?_insert_self .., rfl⟩

/-- What launching an accessor kernel comes to: nothing, or its body runs. -/
theorem Wired.launched (h : p.Wired) (hp : p.Hosted) (hs : p.Serves a place kernel k)
    (thread : Thread) (args : List Value) :
    (args.length ≠ (a.kernel place kernel).args.length ∧
      ((launch thread kernel args).on p).2 = p) ∨
    args.length = (a.kernel place kernel).args.length ∧
      ∃ code, code.kernel = a.kernelName place.id ∧ code.body = (a.kernel place kernel).body ∧
        Ran p k code args ((launch thread kernel args).on p) := by
  have hcases := launch_outcome hp hs.find thread args
  generalize (launch thread kernel args).on p = x at hcases
  cases hcases with
  | miscounted hn => exact .inl ⟨hs.args ▸ hn, rfl⟩
  | @defective _ _ optimize hl _ =>
    have := hl.symm.trans (hs.lower optimize)
    cases this
  | ran hargs hc hq hr =>
    have hmakes := h.makes hs.find hc
    exact .inr ⟨hs.args ▸ hargs, _, hmakes.1.trans hs.name, hs.code_body hmakes, runCode_ran hq hr⟩

/-- What is read behind the reader of a place is the word in slot 0. -/
theorem Serves.readResult_on (hs : p.Serves .reader place kernel k) {w : UInt64}
    (hw : p.slots.load 0 = .ok w) :
    (readResult kernel).on p = (.ok (.ofWord place.scalar w), p) := by
  rw [readResult, on_bind_of_ok (kernelOf_known hs.find), on_get_bind, hs.rets, Accessor.rets_reader,
    List.headD_cons, resultOf_on hw rfl]

end Program

theorem Run.wired {ok : World → Command → Prop} {w : World} {cs : List Command}
    (r : Run ok w cs) : w.program.Hosted ∧ w.program.Wired := by
  obtain ⟨hp, -, hw⟩ := r.invariant (I := fun w => w.program.Wired) (fun hp => by
    cases hp
    exact ⟨⟨fun h => (by cases h), fun h => (by cases h), fun h => (by cases h)⟩,
      Registry.sound_empty, fun h => (by cases h)⟩) Wired.move
  exact ⟨hp, hw⟩

end FieldCompute
