import FieldCompute.Proofs.Device.Books
import FieldCompute.Proofs.Program.Attempts
import FieldCompute.Proofs.Program.RejectedTrees
/-!
# Storage that makes way

The engine keeps the storage of a tree under the tree's id. It goes back to the pool when the tree
is destroyed, or else at the engine's end. But a tree may get storage under an id that still has
some: then the former makes way, and it never goes back (`StorageUse.storage_returned`). Programs
bring this about where the backend refuses to destroy a tree, as its id is free all the same and the
next tree gets it.
-/

namespace FieldCompute

open Routine

/-- What makes way for other storage is out beside what is stored then. -/
theorem stored_insert_perm {storage : Table Nat Storage} (h : storage.keys.Nodup) (tree : Nat)
    (s : Storage) (out : List Allocation) :
    (s.allocation :: (storage.values.map (·.allocation) ++ out)).Perm
      ((storage.insert tree s).values.map (·.allocation) ++
        (out ++ (storage.find? tree).toList.map (·.allocation))) := by
  have hbefore := (Table.values_perm_erase h tree).map (·.allocation)
  have hnow := (Table.values_insert_perm (k := tree) (v := s) h).map (·.allocation)
  rw [List.map_append] at hbefore
  refine (((hbefore.append_right out).trans ?_).cons _).trans (hnow.symm.append_right _)
  rw [List.append_assoc]
  exact List.perm_append_comm.trans (.of_eq (List.append_assoc ..))

/-- A call by which an engine gets its pool, or a tree gets storage or loses it. -/
inductive StorageCall where
  | start
  | materialize (t : FieldTree)
  | destroy (tree : Nat)

def StorageCall.action : StorageCall → Routine Engine Failure Unit
  | start => Engine.attach
  | materialize t => Engine.materialize t
  | destroy tree => Engine.destroy tree

namespace Engine

/-- What the engine asks of its pool in the call. -/
def asks (e : Engine) : StorageCall → List PoolCall
  | .start => []
  | .materialize t =>
    if e.attached then
      ((Packing.ofTree? t.root).map (PoolCall.allocate ·.size true)).toList
    else []
  | .destroy tree => ((e.storage.find? tree).map (PoolCall.release ·.allocation)).toList

/-- The storage under the id of a tree that gets other storage in the call. -/
def displaces (e : Engine) : StorageCall → List Allocation
  | .materialize t =>
    if ((materialize t).on e).1.isOk then (e.storage.find? t.id).toList.map (·.allocation) else []
  | _ => []

end Engine

/-- An engine with all that it has asked of its pool, and with the storage that has made way. -/
structure StorageUse where
  engine : Engine
  asked : List PoolCall
  displaced : List Allocation

namespace StorageUse

def create (c : Config) (reservable : Nat := Device.defaultReservable) : StorageUse :=
  ⟨.create c reservable, [], []⟩

def step (u : StorageUse) (c : StorageCall) : StorageUse :=
  ⟨(c.action.on u.engine).2, u.asked ++ u.engine.asks c, u.displaced ++ u.engine.displaces c⟩

def after (u : StorageUse) (calls : List StorageCall) : StorageUse := calls.foldl step u

/-- The engine at its end, which asks its pool to take all storage back. -/
def finalized (u : StorageUse) : StorageUse :=
  ⟨(Engine.finalize.on u.engine).2,
    u.asked ++ u.engine.storage.values.map (PoolCall.release ·.allocation), u.displaced⟩

/-- A tree gets storage, and what was under its id makes way, or nothing happens to what is
stored. -/
theorem materialize_cases (u : StorageUse) (t : FieldTree) :
    (∃ s, ((Engine.materialize t).on u.engine).1.isOk = true ∧
      (u.step (.materialize t)).engine.storage = u.engine.storage.insert t.id s ∧
      (u.step (.materialize t)).displaced =
        u.displaced ++ (u.engine.storage.find? t.id).toList.map (·.allocation)) ∨
    (((Engine.materialize t).on u.engine).1.isOk = false ∧
      (u.step (.materialize t)).engine.storage = u.engine.storage ∧
      (u.step (.materialize t)).displaced = u.displaced) := by
  have hon := Program.materialized u.engine t
  simp only [step, StorageCall.action, Engine.displaces]
  generalize (Engine.materialize t).on u.engine = x at hon ⊢
  cases hon with
  | kept => exact .inl ⟨_, rfl, rfl, rfl⟩
  | idle => exact .inr ⟨rfl, rfl, List.append_nil _⟩
  | refused => exact .inr ⟨rfl, rfl, List.append_nil _⟩

theorem storage_destroy (u : StorageUse) (tree : Nat) :
    (u.step (.destroy tree)).engine.storage = u.engine.storage.erase tree := by
  change ((Engine.destroy tree).on u.engine).2.storage = _
  rw [Program.destroy_on]
  cases hs : u.engine.storage.find? tree with
  | none => exact (Table.erase_eq_self hs).symm
  | some s =>
    change ((Engine.releaseNdarray s.allocation).on _).2.storage = _
    rw [Engine.releaseNdarray, Program.throughPool_on]
    split
    · rw [Program.onPool_on]
    · rfl

/-! ## What is out -/

/-- The pool has out what is stored and what has made way. -/
structure Booked (c : Config) (reservable : Nat) (u : StorageUse) : Prop where
  book : PoolBook c.memoryLimit? Pool.defaultCapacity reservable u.asked u.engine.pool
    (u.engine.storage.values.map (·.allocation) ++ u.displaced)
  keys : u.engine.storage.keys.Nodup
  attached : u.engine.attached = false → u.engine.storage = .empty

namespace Booked

variable {c : Config} {reservable : Nat} {u : StorageUse}

theorem create (c : Config) (reservable : Nat) : (create c reservable).Booked c reservable :=
  ⟨.create _ _ _, List.nodup_nil, fun _ => rfl⟩

/-- What is stored is stored by an engine that has its pool. -/
theorem attached_of_find? (h : u.Booked c reservable) {tree : Nat} {s : Storage}
    (hs : u.engine.storage.find? tree = some s) : u.engine.attached = true := by
  by_contra hn
  rw [h.attached (Bool.eq_false_iff.2 hn)] at hs
  cases hs

theorem materialize (h : u.Booked c reservable) (t : FieldTree) :
    (u.step (.materialize t)).Booked c reservable := by
  have hon := Program.materialized u.engine t
  have hasks : u.engine.asks (.materialize t) = if u.engine.attached then
      ((Packing.ofTree? t.root).map (PoolCall.allocate ·.size true)).toList else [] := rfl
  change Booked c reservable ⟨((Engine.materialize t).on u.engine).2,
    u.asked ++ u.engine.asks (.materialize t),
    u.displaced ++ if ((Engine.materialize t).on u.engine).1.isOk then
      (u.engine.storage.find? t.id).toList.map (·.allocation) else []⟩
  generalize (Engine.materialize t).on u.engine = x at hon ⊢
  cases hon with
  | idle hnone =>
    have hidle : u.engine.asks (.materialize t) = [] := by
      rw [hasks]
      split
      · rw [hnone ‹_›]
        rfl
      · rfl
    rw [hidle, List.append_nil, if_neg (by exact Bool.false_ne_true), List.append_nil]
    exact h
  | refused ha hpack hr =>
    rw [if_pos ha, hpack] at hasks
    rw [hasks, if_neg (by exact Bool.false_ne_true), List.append_nil]
    rcases h.book.allocate _ true with ⟨a, pool, hr', -⟩ | ⟨d, pool, hr', hbook⟩
    · cases hr.symm.trans hr'
    · cases hr.symm.trans hr'
      exact ⟨hbook, h.keys, h.attached⟩
  | kept ha hpack hr =>
    rw [if_pos ha, hpack] at hasks
    rw [hasks, if_pos (by rfl)]
    rcases h.book.allocate _ true with ⟨a, pool, hr', hbook⟩ | ⟨d, pool, hr', -⟩
    · cases hr.symm.trans hr'
      refine ⟨hbook.perm ?_, Table.nodup_keys_insert h.keys, fun hn => ?_⟩
      · exact stored_insert_perm h.keys t.id _ u.displaced
      · have hn : u.engine.attached = false := hn
        rw [ha] at hn
        cases hn
    · cases hr.symm.trans hr'

theorem destroy (h : u.Booked c reservable) (tree : Nat) :
    (u.step (.destroy tree)).Booked c reservable := by
  have hasks : u.engine.asks (.destroy tree) =
    ((u.engine.storage.find? tree).map (PoolCall.release ·.allocation)).toList := rfl
  change Booked c reservable ⟨((Engine.destroy tree).on u.engine).2,
    u.asked ++ u.engine.asks (.destroy tree), u.displaced ++ []⟩
  rw [Program.destroy_on, List.append_nil]
  cases hs : u.engine.storage.find? tree with
  | none =>
    rw [hasks, hs, Option.map_none, Option.toList_none, List.append_nil]
    exact h
  | some s =>
    rw [hasks, hs]
    change Booked c reservable ⟨((Engine.releaseNdarray s.allocation).on
      { u.engine with storage := u.engine.storage.erase tree }).2, _, _⟩
    have ha := h.attached_of_find? hs
    have hout := (Table.values_erase_perm h.keys hs).map (·.allocation)
    obtain ⟨pool, hr, hbook⟩ := (h.book.perm (hout.append_right _)).release
    rw [Engine.releaseNdarray, Program.throughPool_on, if_pos ha, Program.onPool_on, hr]
    refine ⟨hbook, Table.nodup_keys_erase h.keys, fun hn => ?_⟩
    have hn : u.engine.attached = false := hn
    rw [ha] at hn
    cases hn

theorem step (h : u.Booked c reservable) (call : StorageCall) :
    (u.step call).Booked c reservable := by
  cases call with
  | start =>
    refine ⟨?_, h.keys, fun hn => (by cases hn)⟩
    have hbook := h.book
    rw [← List.append_nil u.asked, ← List.append_nil u.displaced] at hbook
    exact hbook
  | materialize t => exact h.materialize t
  | destroy tree => exact h.destroy tree

theorem after (h : u.Booked c reservable) (calls : List StorageCall) :
    (u.after calls).Booked c reservable := by
  induction calls generalizing u with
  | nil => exact h
  | cons call calls ih => exact ih (h.step call)

/-- Stored allocations go back to the pool, one after the other. -/
theorem releaseAll {limit : Option Nat} {capacity : Nat} {asked : List PoolCall} {e : Engine}
    {out : List Allocation} (l : List Storage) (ha : e.attached = true)
    (h : PoolBook limit capacity reservable asked e.pool (l.map (·.allocation) ++ out)) :
    ∃ pool, (l.forM fun s => Engine.releaseNdarray s.allocation).on e = (.ok (), { e with pool }) ∧
      PoolBook limit capacity reservable (asked ++ l.map (PoolCall.release ·.allocation)) pool
        out := by
  induction l generalizing e asked with
  | nil => exact ⟨e.pool, rfl, by simpa using h⟩
  | cons s l ih =>
    obtain ⟨pool, hr, hbook⟩ := h.release
    have hon : (Engine.releaseNdarray s.allocation).on e = (.ok (), { e with pool }) := by
      rw [Engine.releaseNdarray, Program.throughPool_on, if_pos ha, Program.onPool_on, hr]
      rfl
    obtain ⟨pool', hon', hbook'⟩ := ih (e := { e with pool }) ha hbook
    refine ⟨pool', ?_, by simpa using hbook'⟩
    change (Engine.releaseNdarray s.allocation >>= fun _ =>
      l.forM fun s => Engine.releaseNdarray s.allocation).on e = _
    rw [on_bind_of_ok hon, hon']

/-- The end of an engine succeeds, and only what made way is still out. -/
theorem finalized (h : u.Booked c reservable) : (Engine.finalize.on u.engine).1 = .ok () ∧
    u.finalized.engine.storage = .empty ∧
    PoolBook c.memoryLimit? Pool.defaultCapacity reservable u.finalized.asked u.finalized.engine.pool
      u.displaced := by
  unfold StorageUse.finalized
  by_cases ha : u.engine.attached = true
  · obtain ⟨pool, hon, hbook⟩ := releaseAll (e := { u.engine with storage := .empty })
      u.engine.storage.values ha h.book
    rw [Program.engineFinalize_on ha, hon]
    exact ⟨rfl, rfl, hbook⟩
  · have hnone := h.attached (Bool.eq_false_iff.2 ha)
    have hon : Engine.finalize.on u.engine =
        (.ok (), { u.engine with storage := .empty, attached := false }) := by
      rw [Engine.finalize, on_get_bind, on_set_bind, if_neg ha]
      rfl
    have hbook := h.book
    rw [hnone, ← List.append_nil u.asked] at hbook
    rw [hon, hnone]
    exact ⟨rfl, rfl, hbook⟩

end Booked

end StorageUse

/-! ## Programs -/

namespace Program

variable {p : Program} {u : StorageUse}

/-- The program with a backend that refuses what is listed. -/
def refusing (p : Program) (rs : List Refusal) : Program :=
  { p with backend := { p.backend with refusals := rs } }

/-- What the program has its engine do in the call. -/
def forwards (p : Program) : TreeCall → List StorageCall
  | .add root compileOnly =>
    if compileOnly || (p.backend.refusal? .materialize p.trees.next).isSome then []
    else [.materialize ⟨p.trees.next, root, false⟩]
  | .destroy id =>
    match p.trees.get? id with
    | none => []
    | some t =>
      if t.compileOnly || (p.backend.refusal? .destroy id).isSome then [] else [.destroy id]

/-- The program after a call in which the backend refuses what is listed. -/
def treeStep (p : Program) (c : List Refusal × TreeCall) : Program := (c.2.op.on (p.refusing c.1)).2

def afterTrees (p : Program) (cs : List (List Refusal × TreeCall)) : Program := cs.foldl treeStep p

/-- What the program has its engine do in calls, one after the other. -/
def forwarded (p : Program) : List (List Refusal × TreeCall) → List StorageCall
  | [] => []
  | c :: cs => (p.refusing c.1).forwards c.2 ++ (p.treeStep c).forwarded cs

/-- What adding a tree makes of the program, with what is forwarded: the tree is live if it needs no
storage or gets some, and else it is gone. -/
theorem addTree_cases (p : Program) (root : Node) (compileOnly : Bool) :
    (p.forwards (.add root compileOnly) = [] ∧
      (((addTree root compileOnly).on p).2 = p.registered root compileOnly ∨
        ((addTree root compileOnly).on p).2 = p.rejected root compileOnly)) ∨
    compileOnly = false ∧
      p.forwards (.add root compileOnly) = [.materialize ⟨p.trees.next, root, false⟩] ∧
      ∃ r e, (Engine.materialize ⟨p.trees.next, root, false⟩).on p.engine = (r, e) ∧
        ((addTree root compileOnly).on p).2 =
          (if r.isOk then p.registered root false else p.rejected root false).withEngine e := by
  rw [addTree_on, Registry.add_fst, forwards]
  cases compileOnly with
  | true => exact .inl ⟨rfl, .inl rfl⟩
  | false =>
    simp only [Bool.false_or, Bool.false_eq_true, if_false]
    cases p.backend.refusal? .materialize p.trees.next with
    | some reason => exact .inl ⟨rfl, .inr rfl⟩
    | none =>
      obtain ⟨r, e, hr⟩ : ∃ r e,
          (Engine.materialize ⟨p.trees.next, root, false⟩).on p.engine = (r, e) := ⟨_, _, rfl⟩
      refine .inr ⟨trivial, rfl, r, e, hr, ?_⟩
      simp only [hr]
      cases r <;> rfl

/-- What destroying a tree makes of the program, with what is forwarded: a live tree goes, and the
engine is told if the tree may have storage and nothing is refused. -/
theorem destroyTree_cases (p : Program) (id : Nat) :
    (p.forwards (.destroy id) = [] ∧ ((destroyTree id).on p).2 = p) ∨
    (∃ t, p.trees.get? id = some t ∧
      (t.compileOnly = true ∨ p.backend.refusal? .destroy id ≠ none) ∧
      p.forwards (.destroy id) = [] ∧ ((destroyTree id).on p).2 = p.forgetting id t) ∨
    ∃ t, p.forwards (.destroy id) = [.destroy id] ∧ ((destroyTree id).on p).2 =
      (p.forgetting id t).withEngine ((Engine.destroy id).on p.engine).2 := by
  rw [destroyTree_on, forwards]
  cases p.trees.get? id with
  | none => exact .inl ⟨rfl, rfl⟩
  | some t =>
    cases hc : t.compileOnly with
    | true => exact .inr (.inl ⟨t, rfl, .inl hc, by simp [hc]⟩)
    | false =>
      cases p.backend.refusal? .destroy id with
      | some reason => exact .inr (.inl ⟨t, rfl, .inr nofun, by simp [hc]⟩)
      | none => exact .inr (.inr ⟨t, by simp [hc]⟩)

/-- The program has done to its engine just what was to be done. -/
structure Mirrors (p : Program) (u : StorageUse) : Prop where
  engine : p.engine = u.engine
  sound : p.trees.Sound

/-- What is stored belongs to a live tree, and nothing has made way. -/
structure Tidy (p : Program) (u : StorageUse) : Prop where
  stored {id : Nat} {s : Storage} : u.engine.storage.find? id = some s →
    ∃ t, p.trees.get? id = some t ∧ t.compileOnly = false
  displaced : u.displaced = []

theorem Tidy.next_free (ht : Tidy p u) (h : Mirrors p u) :
    u.engine.storage.find? p.trees.next = none := by
  by_contra hn
  obtain ⟨s, hs⟩ := Option.ne_none_iff_exists'.1 hn
  obtain ⟨t, hget, -⟩ := ht.stored hs
  rw [Registry.get?_next h.sound] at hget
  cases hget

/-- A tree more leaves what is stored with its trees. -/
theorem Tidy.add (ht : Tidy p u) (h : Mirrors p u) (root : Node) (compileOnly : Bool) {id : Nat}
    {s : Storage} (hs : u.engine.storage.find? id = some s) :
    ∃ t, (p.trees.add root compileOnly).2.get? id = some t ∧ t.compileOnly = false := by
  have hne : id ≠ p.trees.next := by
    rintro rfl
    rw [ht.next_free h] at hs
    cases hs
  rw [Registry.get?_add h.sound, if_neg hne]
  exact ht.stored hs

theorem Mirrors.addTree (h : Mirrors p u) (root : Node) (compileOnly : Bool) :
    Mirrors ((addTree root compileOnly).on p).2 (u.after (p.forwards (.add root compileOnly))) ∧
    (Tidy p u →
      Tidy ((addTree root compileOnly).on p).2 (u.after (p.forwards (.add root compileOnly)))) := by
  have hback {id : Nat} {s : Storage} {compileOnly : Bool} (ht : Tidy p u)
      (hs : u.engine.storage.find? id = some s) :
      ∃ t, (p.rejected root compileOnly).trees.get? id = some t ∧ t.compileOnly = false := by
    rw [rejected, Registry.get?_add_remove h.sound]
    exact ht.stored hs
  rcases addTree_cases p root compileOnly with
    ⟨hf, hon | hon⟩ | ⟨rfl, hf, r, e, hr, hon⟩
  · rw [hon, hf]
    exact ⟨⟨h.engine, h.sound.add root _⟩, fun ht => ⟨ht.add h root _, ht.displaced⟩⟩
  · rw [hon, hf]
    exact ⟨⟨h.engine, h.sound.add_remove root _ _⟩, fun ht => ⟨hback ht, ht.displaced⟩⟩
  · rw [hon, hf]
    rw [h.engine] at hr
    have hengine : (u.step (.materialize ⟨p.trees.next, root, false⟩)).engine = e :=
      congrArg Prod.snd hr
    have hcases := u.materialize_cases ⟨p.trees.next, root, false⟩
    rw [hr] at hcases
    change Mirrors _ (u.step _) ∧ (Tidy p u → Tidy _ (u.step _))
    obtain ⟨s, hok, hstorage, hdisplaced⟩ | ⟨hok, hstorage, hdisplaced⟩ := hcases
    · rw [if_pos hok]
      refine ⟨⟨hengine.symm, h.sound.add root false⟩, fun ht => ⟨fun {id s'} hs => ?_, ?_⟩⟩
      · rw [hstorage, Table.find?_insert] at hs
        split at hs
        · subst id
          exact ⟨_, (Registry.get?_add h.sound root false _).trans (if_pos rfl), rfl⟩
        · exact ht.add h root false hs
      · rw [hdisplaced, ht.next_free h, ht.displaced]
        rfl
    · rw [if_neg (by rw [hok]; exact Bool.false_ne_true)]
      refine ⟨⟨hengine.symm, h.sound.add_remove root false _⟩, fun ht => ⟨fun hs => ?_, ?_⟩⟩
      · rw [hstorage] at hs
        exact hback ht hs
      · rw [hdisplaced, ht.displaced]

/-- Only where the backend refuses it, something stays stored that belongs to no live tree. -/
theorem Mirrors.destroyTree (h : Mirrors p u) (id : Nat) :
    Mirrors ((destroyTree id).on p).2 (u.after (p.forwards (.destroy id))) ∧
    (p.backend.refusal? .destroy id = none → Tidy p u →
      Tidy ((destroyTree id).on p).2 (u.after (p.forwards (.destroy id)))) := by
  have hother {id' : Nat} {s : Storage} (ht : Tidy p u)
      (hs : u.engine.storage.find? id' = some s) (hne : id' ≠ id) :
      ∃ t, (p.trees.remove id).2.get? id' = some t ∧ t.compileOnly = false := by
    rw [Registry.get?_remove, if_neg hne]
    exact ht.stored hs
  rcases destroyTree_cases p id with
    ⟨hf, hon⟩ | ⟨t, hget, hwhy, hf, hon⟩ | ⟨t, hf, hon⟩
  · rw [hon, hf]
    exact ⟨h, fun _ ht => ht⟩
  · rw [hon, hf]
    refine ⟨⟨h.engine, h.sound.remove id⟩, fun hr ht => ⟨fun {id' s} hs => ?_, ht.displaced⟩⟩
    refine hother ht hs ?_
    rintro rfl
    obtain ⟨t', hget', hc⟩ := ht.stored hs
    cases hget.symm.trans hget'
    rcases hwhy with hc' | hr'
    · rw [hc] at hc'
      cases hc'
    · exact hr' hr
  · rw [hon, hf, h.engine]
    change Mirrors _ (u.step (.destroy id)) ∧ (_ → Tidy p u → Tidy _ (u.step (.destroy id)))
    refine ⟨⟨rfl, h.sound.remove id⟩, fun _ ht => ⟨fun {id' s} hs => ?_, ?_⟩⟩
    · rw [u.storage_destroy id, Table.find?_erase] at hs
      split at hs
      · cases hs
      · exact hother ht hs ‹_›
    · exact (List.append_nil _).trans ht.displaced

theorem Mirrors.step (h : Mirrors p u) (c : TreeCall) :
    Mirrors (c.op.on p).2 (u.after (p.forwards c)) ∧
    ((∀ id, p.backend.refusal? .destroy (some id) = none) → Tidy p u →
      Tidy (c.op.on p).2 (u.after (p.forwards c))) := by
  cases c with
  | add root compileOnly =>
    obtain ⟨hm, ht⟩ := h.addTree root compileOnly
    rw [TreeCall.op, on_map]
    exact ⟨hm, fun _ => ht⟩
  | destroy id =>
    obtain ⟨hm, ht⟩ := h.destroyTree id
    rw [TreeCall.op, on_bind_snd fun _ _ => rfl]
    exact ⟨hm, fun hr => ht (hr id)⟩

/-- Calls while the backend refuses this or that. -/
theorem Mirrors.after (h : Mirrors p u) (cs : List (List Refusal × TreeCall)) :
    Mirrors (p.afterTrees cs) (u.after (p.forwarded cs)) ∧
    ((∀ c ∈ cs, ∀ r ∈ c.1, r.call ≠ .destroy) → Tidy p u →
      Tidy (p.afterTrees cs) (u.after (p.forwarded cs))) := by
  induction cs generalizing p u with
  | nil => exact ⟨h, fun _ ht => ht⟩
  | cons c cs ih =>
    obtain ⟨hm, ht⟩ := Mirrors.step (p := p.refusing c.1) ⟨h.engine, h.sound⟩ c.2
    obtain ⟨hm', ht'⟩ := ih hm
    rw [forwarded, StorageUse.after, List.foldl_append]
    refine ⟨hm', fun hnone ht₀ => ?_⟩
    rw [List.forall_mem_cons] at hnone
    refine ht' hnone.2 (ht (fun id => ?_) ⟨ht₀.stored, ht₀.displaced⟩)
    rw [Backend.refusal?, Option.map_eq_none_iff, List.find?_eq_none]
    intro r hr
    simp [Refusal.covers, hnone.1 r hr]

theorem start_on (b : Backend) : Backend.start.on b =
    match b.refusal? .start none with
    | some reason => (.error (.error (.runtime reason)), b)
    | none => (.ok (), { b with engine := { b.engine with attached := true } }) := by
  rw [Backend.start, Backend.guarded, on_get_bind]
  cases b.refusal? .start none <;> rfl

/-- A new program has started its engine and has no trees. -/
theorem mirrors_create {thread : Thread} {c : Config} {reservable : Nat} {b : Backend}
    (hb : b.engine = .create c reservable) (h : create thread c b = .ok p) :
    Mirrors p ((StorageUse.create c reservable).step .start) ∧
      Tidy p ((StorageUse.create c reservable).step .start) := by
  unfold create at h
  rw [start_on] at h
  cases hr : b.refusal? .start none with
  | some reason =>
    rw [hr] at h
    simp only at h
    split at h <;> cases h
  | none =>
    rw [hr] at h
    simp only at h
    split at h <;> cases h
    have hengine : ({ b.engine with attached := true } : Engine) =
      ((StorageUse.create c reservable).step .start).engine := by rw [hb]; rfl
    exact ⟨⟨hengine, Registry.sound_empty⟩, fun hs => (by cases hs), rfl⟩

end Program

namespace StorageUse

/-- Whatever trees get and lose storage, the end of the engine succeeds. The engine gives back only
what it holds, and by its end it has given back all that it got from the pool, each allocation as
often as it got it, but for those that made way for the storage of another tree under the same id.
These stay live, and besides them only what the pool keeps does. A program has its engine do what it
forwards, whatever its backend refuses, and unless that refuses to destroy a tree nothing makes
way. -/
theorem storage_returned (c : Config) (reservable : Nat) (calls : List StorageCall) :
    let u := (create c reservable).after calls
    let fresh : PoolUse := .fresh c.memoryLimit? Pool.defaultCapacity reservable
    let granted := fresh.granted u.finalized.asked
    let released := u.finalized.asked.filterMap PoolCall.released?
    (Engine.finalize.on u.engine).1 = .ok () ∧
    u.finalized.engine.storage = .empty ∧
    PoolBook c.memoryLimit? Pool.defaultCapacity reservable u.finalized.asked u.finalized.engine.pool
      u.displaced ∧
    granted.Perm (released ++ u.displaced) ∧
    (granted.Perm released ↔ u.displaced = []) ∧
    (∀ id, u.finalized.engine.device.isLive id = true ↔
      id ∈ (u.displaced ++ u.finalized.engine.pool.cachedAllocations).map (·.id)) ∧
    ∀ thread b p trees, b.engine = .create c reservable → Program.create thread c b = .ok p →
      let v := (create c reservable).after (.start :: p.forwarded trees)
      (p.afterTrees trees).engine = v.engine ∧
      ((∀ call ∈ trees, ∀ r ∈ call.1, r.call ≠ .destroy) → v.displaced = []) := by
  intro u fresh granted released
  obtain ⟨hok, hstorage, hbook⟩ := ((Booked.create c reservable).after calls).finalized
  have hbalance : granted.Perm (released ++ u.displaced) := hbook.balance
  refine ⟨hok, hstorage, hbook, hbalance, ⟨fun hp => ?_, fun hnone => ?_⟩,
    hbook.ledger.holds.isLive_iff, fun thread b p trees hb hp => ?_⟩
  · have hlength := (hp.symm.trans hbalance).length_eq
    rw [List.length_append] at hlength
    exact List.eq_nil_of_length_eq_zero (by omega)
  · rwa [hnone, List.append_nil] at hbalance
  · obtain ⟨hm, ht⟩ := Program.mirrors_create hb hp
    obtain ⟨hm', ht'⟩ := hm.after trees
    exact ⟨hm'.engine, fun hnone => (ht' hnone ht).displaced⟩

/-- The backend refuses to destroy a tree, and the next tree gets the id of that one. The storage of
the former never goes back. -/
theorem displaced_storage_stays : ∃ p,
    Program.create 0 {} { Backend.host {} with refusals := [⟨.destroy, none, "busy"⟩] } = .ok p ∧
    let place (id : Nat) (s : Scalar) : Node :=
      .mk id .root [] [.mk (id + 1) (.place "x" s) [] []]
    let refused := p.backend.refusals
    let u := (create {}).after (.start :: p.forwarded
      [(refused, .add (place 0 .int32) false), (refused, .destroy 0),
        (refused, .add (place 2 .int64) false)])
    (PoolUse.fresh none Pool.defaultCapacity).granted u.finalized.asked = [⟨0, 4⟩, ⟨1, 8⟩] ∧
    u.finalized.asked.filterMap PoolCall.released? = [⟨1, 8⟩] ∧
    u.displaced = [⟨0, 4⟩] ∧ u.finalized.engine.device.isLive 0 = true := by
  refine ⟨_, rfl, ?_⟩
  intro place refused u
  refine ⟨?_, ?_, ?_, ?_⟩
  all_goals decide

end StorageUse

end FieldCompute
