import FieldCompute.Proofs.Program.Commands
import FieldCompute.Proofs.Tree.Ids
/-!
# Trees and their storage

Between the commands of a run, storage and trees go together (`Program.Linked`): exactly the live
trees that are not compile-only have storage, each under its id and packed as the tree says.
-/

namespace FieldCompute

open Program

namespace Program

/-- The registry is sound, and exactly the trees that are to have storage have it. -/
structure Linked (p : Program) : Prop where
  registry : p.trees.Sound
  keys : p.engine.storage.keys.Nodup
  storage {id : Nat} {s : Storage} : p.engine.storage.find? id = some s →
    ∃ t, p.trees.get? id = some t ∧ t.compileOnly = false ∧
      Packing.ofTree? t.root = some s.packing
  tree {id : Nat} {t : FieldTree} : p.trees.get? id = some t → t.compileOnly = false →
    ∃ s, p.engine.storage.find? id = some s

namespace Linked

variable {p p' : Program}

theorem of_same (h : p.Linked) (ht : p'.trees = p.trees)
    (hs : p'.engine.storage = p.engine.storage) : p'.Linked :=
  ⟨ht ▸ h.registry, hs ▸ h.keys, fun hf => by rw [ht]; exact h.storage (hs ▸ hf),
    fun hf hc => by rw [hs]; exact h.tree (ht ▸ hf) hc⟩

/-- A new tree gets an id without storage. -/
theorem find?_next (h : p.Linked) : p.engine.storage.find? p.trees.next = none := by
  cases hf : p.engine.storage.find? p.trees.next with
  | none => rfl
  | some s =>
    obtain ⟨t, ht, -⟩ := h.storage hf
    rw [Registry.get?_next h.registry] at ht
    cases ht

theorem layout (h : p.Linked) (root : Node) :
    ({ p with trees := (p.trees.add root true).2 } : Program).Linked := by
  refine ⟨h.registry.add root true, h.keys, fun {id s} hf => ?_, fun {id t} ht hc => ?_⟩
  · simp only [Registry.get?_add h.registry]
    split
    · subst id
      exact absurd (h.find?_next.symm.trans hf) (by simp)
    · exact h.storage hf
  · simp only [Registry.get?_add h.registry] at ht
    split at ht
    · cases ht; cases hc
    · exact h.tree ht hc

theorem added (h : p.Linked) {root : Node} {s : Storage} {q : Program}
    (hpack : Packing.ofTree? root = some s.packing) (hq : q.trees = (p.trees.add root false).2)
    (hs : q.engine.storage = p.engine.storage.insert p.trees.next s) : q.Linked := by
  refine ⟨hq ▸ h.registry.add root false, hs ▸ Table.nodup_keys_insert h.keys,
    fun {id s'} hf => ?_, fun {id t} ht hc => ?_⟩
  · rw [hs, Table.find?_insert] at hf
    rw [hq, Registry.get?_add h.registry]
    split at hf
    · cases hf
      rw [if_pos ‹_›]
      exact ⟨_, rfl, rfl, hpack⟩
    · rw [if_neg ‹_›]
      exact h.storage hf
  · rw [hq, Registry.get?_add h.registry] at ht
    rw [hs, Table.find?_insert]
    split at ht
    · rw [if_pos ‹_›]
      exact ⟨s, rfl⟩
    · rw [if_neg ‹_›]
      exact h.tree ht hc

theorem rejected (h : p.Linked) (root : Node) {q : Program}
    (hq : q.trees = ((p.trees.add root false).2.remove (p.trees.add root false).1.id).2)
    (hs : q.engine.storage = p.engine.storage) : q.Linked := by
  have hget (i : Nat) : q.trees.get? i = p.trees.get? i := by
    rw [hq]
    exact Registry.get?_add_remove h.registry root false i
  refine ⟨hq ▸ h.registry.add_remove root false _, hs ▸ h.keys, fun hf => ?_, fun ht hc => ?_⟩
  · rw [hget]
    exact h.storage (hs ▸ hf)
  · rw [hs]
    exact h.tree (hget _ ▸ ht) hc

theorem withoutTree (h : p.Linked) {id : Nat} {t : FieldTree} (ht : p.trees.get? id = some t) :
    (p.withoutTree id t).Linked := by
  have htrees : (p.withoutTree id t).trees = (p.trees.remove id).2 := rfl
  have hstorage : (p.withoutTree id t).engine.storage = p.engine.storage.erase id := by
    change (if t.compileOnly then p.engine.storage else p.engine.storage.erase id) = _
    split
    · -- What is stored under an id belongs to a tree that is not compile-only.
      rename_i hc
      refine (Table.erase_eq_self ?_).symm
      cases hf : p.engine.storage.find? id with
      | none => rfl
      | some s =>
        obtain ⟨t', ht', hc', -⟩ := h.storage hf
        cases ht.symm.trans ht'
        rw [hc] at hc'
        cases hc'
    · rfl
  refine ⟨htrees ▸ h.registry.remove id, hstorage ▸ Table.nodup_keys_erase h.keys,
    fun {j s} hf => ?_, fun {j u} hu hc => ?_⟩
  · rw [hstorage, Table.find?_erase] at hf
    rw [htrees, Registry.get?_remove]
    split at hf
    · cases hf
    · rw [if_neg ‹_›]
      exact h.storage hf
  · rw [htrees, Registry.get?_remove] at hu
    rw [hstorage, Table.find?_erase]
    split at hu
    · cases hu
    · rw [if_neg ‹_›]
      exact h.tree hu hc

theorem calm {w w' : World} (h : w.program.Linked) (hm : Calm w w') : w'.program.Linked := by
  cases hm with
  | quiet hq => exact h.of_same hq.trees (congrArg (·.engine.storage) hq.backend)
  | kernel k hid hc hq hn => exact h.of_same hq.trees (congrArg (·.engine.storage) hq.backend)
  | layout root => exact h.layout root
  | treeRejected root => exact h.rejected root rfl rfl
  | treeGone id t ht => exact h.withoutTree ht
  | _ => exact h.of_same rfl rfl

/-- A program that moves stays linked. After it is finalized it has neither trees nor storage. -/
theorem move {ok : World → Command → Prop} {w w' : World} (hm : Move ok w w')
    (h : w.program.Linked) : w'.program.Linked := by
  cases hm with
  | calm hm => exact h.calm hm
  | finished _ hc =>
    refine ⟨hc.trees ▸ Registry.sound_empty, hc.storage ▸ List.nodup_nil, fun hf => ?_,
      fun ht => ?_⟩
    · rw [hc.storage] at hf; cases hf
    · rw [hc.trees] at ht; cases ht
  | tree root s pool hatt hpack hal =>
    exact h.added hpack rfl (by rw [Registry.add_fst]; rfl)
  | rewritten d hd => exact h.of_same rfl rfl
  | raw c hr hc =>
    obtain ⟨pool, hpool⟩ := World.step_raw (w := w) hr
    rw [hpool]
    exact h.of_same rfl rfl

end Linked

theorem linked_of_create {thread : Thread} {c : Config} {reservable : Nat} {p : Program}
    (hp : Program.create thread c (.host c reservable) = .ok p) : p.Linked := by
  cases hp
  exact ⟨Registry.sound_empty, List.nodup_nil, fun h => (by cases h), fun h => (by cases h)⟩

end Program

theorem Run.linked {ok : World → Command → Prop} {w : World} {cs : List Command}
    (r : Run ok w cs) : w.program.Linked :=
  (r.invariant (I := fun w => w.program.Linked) linked_of_create Linked.move).2.2

end FieldCompute
