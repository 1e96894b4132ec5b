import FieldCompute.Proofs.Device.Custody
import FieldCompute.Proofs.Program.Ownership
/-!
# What is entrusted to the pool

Callers may free any memory through the device, that of the program as well. As long as they give
nothing to the pool but what they hold (`World.Trusted`), the pool keeps nothing that is a tree's,
an array's, a texture's or a caller's (`Run.entrusted`): what goes onto a free list leaves its
owner.
-/

namespace FieldCompute

open Routine Program
open scoped List

namespace World

/-- The command gives nothing to the pool but what its caller holds. -/
def Trusted (w : World) : Command → Prop
  | .poolRelease a => a ∈ w.held
  | _ => True

/-- The pool keeps nothing that the program owns or callers hold. -/
structure Entrusted (w : World) : Prop where
  custody : w.program.pool.Custody (w.program.owned ++ w.held)
  storage : w.program.engine.storage.keys.Nodup
  ndarrays : w.program.ndarrays.keys.Nodup

end World

/-- A move of the pool leaves apart what is in other hands. -/
theorem Pool.Custody.move {p p' : Pool} {out held held' : List Allocation}
    (hm : Pool.Move p held p' held') (h : p.Custody (out ++ held)) : p'.Custody (out ++ held') := by
  cases hm with
  | @allocated _ _ size zero a ha =>
    have hs := h.allocate size zero
    rw [ha] at hs
    exact hs.mono List.perm_middle.subperm
  | @refused _ _ size zero e ha =>
    have hs := h.allocate size zero
    rw [ha] at hs
    exact hs
  | @imaged _ _ i a ha =>
    have hs := h.fromDevice_image i
    rw [ha] at hs
    exact hs.mono List.perm_middle.subperm
  | @released _ _ a ha hr =>
    have hfront : (a :: (out ++ held.erase a)).Perm (out ++ held) :=
      (((List.perm_cons_erase ha).append_left out).trans List.perm_middle).symm
    have hs := (h.mono hfront.subperm).release
    rwa [hr] at hs
  | @freed _ _ a ha hr =>
    have hs := h.deallocate a
    rw [hr] at hs
    exact hs.mono (List.erase_sublist.append_left out).subperm

/-! ## What comes into the program's hands -/

namespace Program

variable {p q : Program} {id : Nat}

theorem owned_storage (h : p.engine.storage.keys.Nodup) {s : Storage}
    (hs : q.engine.storage = p.engine.storage.insert id s) (hn : q.ndarrays = p.ndarrays)
    (ht : q.textures = p.textures) : q.owned <+~ s.allocation :: p.owned := by
  rw [owned, owned, hs, hn, ht]
  have hinsert := ((Table.values_insert_perm (k := id) (v := s) h).map (·.allocation))
  have herase : (p.engine.storage.erase id).values.Sublist p.engine.storage.values :=
    List.filter_sublist.map _
  refine ((hinsert.append_right _).append_right _).subperm.trans ?_
  exact ((((herase.map _).append_right _).append_right _).cons_cons _).subperm

theorem owned_ndarray (h : p.ndarrays.keys.Nodup) {a : Ndarray}
    (hs : q.engine.storage = p.engine.storage) (hn : q.ndarrays = p.ndarrays.insert id a)
    (ht : q.textures = p.textures) : q.owned <+~ a.allocation :: p.owned := by
  rw [owned, owned, hs, hn, ht]
  have hinsert := ((Table.values_insert_perm (k := id) (v := a) h).map (·.allocation))
  have herase : (p.ndarrays.erase id).values.Sublist p.ndarrays.values := List.filter_sublist.map _
  refine ((hinsert.append_left _).append_right _).subperm.trans ?_
  refine (List.perm_middle.append_right _).subperm.trans ?_
  exact ((((herase.map _).append_left _).append_right _).cons_cons _).subperm

end Program

/-! ## Moves -/

namespace World.Entrusted

variable {w w' : World} {p q : Program} {held held' : List Allocation} {pool : Pool}

/-- What the program hands out was its own. -/
theorem of_given (h : Entrusted ⟨p, held⟩) (given : List Allocation) (hp : q.pool = p.pool)
    (hs : q.engine.storage.entries.Sublist p.engine.storage.entries)
    (hn : q.ndarrays.entries.Sublist p.ndarrays.entries) (hg : p.owned.Perm (given ++ q.owned)) :
    Entrusted ⟨q, given ++ held⟩ := by
  have hout : (q.owned ++ (given ++ held)).Perm (p.owned ++ held) := by
    refine (List.perm_append_comm_assoc ..).trans ?_
    rw [← List.append_assoc]
    exact hg.symm.append_right held
  exact ⟨hp ▸ h.custody.mono hout.subperm, h.storage.sublist (hs.map _),
    h.ndarrays.sublist (hn.map _)⟩

theorem of_same (h : Entrusted ⟨p, held⟩) (hb : q.backend = p.backend)
    (hn : q.ndarrays = p.ndarrays) (ht : q.textures = p.textures) : Entrusted ⟨q, held⟩ := by
  have he : q.engine = p.engine := congrArg Backend.engine hb
  refine h.of_given [] (congrArg Engine.pool he) (by rw [he]) (by rw [hn]) (.of_eq ?_)
  exact (owned_congr (congrArg Engine.storage he) hn ht).symm

/-- Only the pool and what is held differ. -/
theorem of_pool (h : Entrusted ⟨p, held⟩) (hc : pool.Custody (p.owned ++ held')) :
    Entrusted ⟨p.withPool pool, held'⟩ := { h with custody := hc }

/-- What comes to the program comes from the pool. -/
theorem of_taken {a : Allocation}
    (hc : pool.Custody (a :: (p.owned ++ held))) (hp : q.pool = pool)
    (ho : q.owned <+~ a :: p.owned) (hs : q.engine.storage.keys.Nodup)
    (hn : q.ndarrays.keys.Nodup) : Entrusted ⟨q, held⟩ :=
  ⟨hp ▸ hc.mono ((List.subperm_append_right held).2 ho), hs, hn⟩

theorem calm (hm : Calm w w') (h : w.Entrusted) : w'.Entrusted := by
  cases hm with
  | quiet hq => exact h.of_same hq.backend hq.ndarrays hq.textures
  | kernel k hid hc hq hn => exact h.of_same hq.backend hq.ndarrays hq.textures
  | lost a ha hr hs => exact { h with custody := h.custody.mono (hs.append_left _).subperm }
  | pool pool hp => exact h.of_pool (h.custody.move hp)
  | @ndarray p held a size zero pool hid hatt hb hal =>
    have hc := h.custody.allocate size zero
    rw [hal] at hc
    exact of_taken hc rfl (owned_ndarray h.ndarrays rfl rfl rfl) h.storage
      (Table.nodup_keys_insert h.ndarrays)
  | @texture p held t pool hal =>
    have hc := h.custody.fromDevice_image t.image
    rw [hal] at hc
    refine of_taken hc rfl ?_ h.storage h.ndarrays
    rw [owned_texture]
    exact (List.perm_append_singleton ..).subperm
  | @ndarrayGone p held id a ha =>
    exact h.of_given [a.allocation] rfl (.refl _) List.filter_sublist
      (owned_ndarrayGone h.ndarrays ha)
  | @treeGone p held id t ht =>
    exact h.of_given _ rfl (p.storage_withoutTree id t) (.refl _) (owned_withoutTree h.storage t)
  | _ => exact { h with }

theorem closing (hm : Closing w w') (h : w.Entrusted) : w'.Entrusted := by
  cases hm with
  | @emptied p held =>
    exact h.of_given (q := p.emptied) _ rfl (.refl _) (List.nil_sublist _) p.owned_emptied
  | @storageGone p held id s hf hs =>
    exact h.of_given (q := p.withStorage (p.engine.storage.erase id)) [s.allocation] rfl
      List.filter_sublist (.refl _) (owned_storageGone h.storage hs)
  | @allStorageGone p held hf =>
    exact h.of_given (q := p.withStorage .empty) _ rfl (List.nil_sublist _) (.refl _)
      p.owned_allStorageGone
  | detached hf hs => exact { h with }
  | poolTerminated hf => exact h.of_pool h.custody.terminate

/-! ## Past the program -/

/-- Other bytes in the same places. -/
theorem rewritten (h : Entrusted ⟨p, held⟩) {d : Device} (hd : p.device.Rewritten d) :
    Entrusted ⟨p.withDevice d, held⟩ := { h with custody := h.custody.rewritten hd }

/-- A command that asks for memory past the program. -/
theorem handing (h : w.Entrusted) {c : Command} {call : Routine Pool DeviceError Allocation}
    (hc : c.action = some <$> onEngine (Engine.onPool call))
    (hg : Pool.Custody.Given (w.program.owned ++ w.held) (call.on w.program.pool)) :
    (w.step c).Entrusted := by
  refine step_handing_keeps hc (fun ha => ?_) fun he => ?_
  · rw [ha] at hg
    exact h.of_pool (hg.mono List.perm_middle.subperm)
  · rw [he] at hg
    exact h.of_pool hg

theorem raw {c : Command} (h : w.Entrusted) (hr : c.IsRaw) (hc : w.Trusted c) :
    (w.step c).Entrusted := by
  cases c with
  | deviceAllocate size => exact h.handing rfl (h.custody.fromDevice size)
  | deviceImage i => exact h.handing rfl (h.custody.fromDevice_image i)
  | poolAllocate size zero => exact h.handing rfl (h.custody.allocate size zero)
  | deviceFree a =>
    refine step_surrender_keeps rfl rfl (fun {pool} hd => h.of_pool ?_)
      fun he => h.of_pool (Pool.onDevice_error he ▸ h.custody)
    have hleft := h.custody.deallocate a
    rw [hd] at hleft
    exact hleft.mono (List.filter_sublist.append_left _).subperm
  | poolRelease a =>
    refine step_surrender_keeps rfl rfl (fun {pool} hd => h.of_pool ?_)
      fun he => h.of_pool (release_error he ▸ h.custody)
    have hheld : (w.held.map (·.id)).Nodup := h.custody.distinct.sublist
      (((List.sublist_append_right ..).trans (List.sublist_append_left ..)).map _)
    have hkeep : (keep w.held (some a)).Perm (w.held.erase a) := Device.filter_perm_erase hheld hc
    have hleft := h.custody.move (.released hc hd)
    exact hleft.mono (hkeep.append_left _).subperm
  | deviceWrite p bytes =>
    exact step_rewriting_keeps rfl rfl (fun hd => h.rewritten (.write hd)) h
  | deviceFill a pattern =>
    exact step_rewriting_keeps rfl rfl (fun hd => h.rewritten (.fill hd)) h
  | poolTerminate =>
    rw [step_of_quietly rfl rfl, onPool_through]
    exact h.of_pool h.custody.terminate
  | _ => exact hr.elim

theorem move {ok : World → Command → Prop} (hok : ∀ w c, ok w c → w.Trusted c) (hm : Move ok w w')
    (h : w.Entrusted) : w'.Entrusted := by
  cases hm with
  | calm hm => exact h.calm hm
  | finished hm _ => exact ending_keeps calm closing hm h
  | @tree p held root s pool hatt hpack hal =>
    have hc := h.custody.allocate s.packing.size true
    rw [hal] at hc
    exact of_taken hc rfl (owned_storage h.storage rfl rfl rfl)
      (Table.nodup_keys_insert h.storage) h.ndarrays
  | rewritten d hd => exact h.rewritten hd
  | raw c hr hc => exact h.raw hr (hok _ c hc)

end World.Entrusted

theorem Run.entrusted {ok : World → Command → Prop} {w : World} {cs : List Command}
    (r : Run ok w cs) (hok : ∀ w c, ok w c → w.Trusted c) : w.Entrusted := by
  refine (r.invariant (I := World.Entrusted) (fun hp => ?_) fun hm h => h.move hok hm).2.2
  cases hp
  exact ⟨.create _ _ _, List.nodup_nil, List.nodup_nil⟩

end FieldCompute
