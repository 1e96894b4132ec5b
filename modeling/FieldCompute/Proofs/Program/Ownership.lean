import FieldCompute.Proofs.Program.Linked
/-!
# Whose memory it is

The allocations that a program owns and those that its callers hold are all that is out, each apart
from the others and as large as what it is for: `World.Accounted`. Every move keeps it so, as long
as nobody frees the program's memory (`World.Honest`), so every allocation has one owner at any time
(`Run.one_owner`).
-/

namespace FieldCompute

open Routine Program Device

namespace Program

variable {p q : Program} {id : Nat}

/-- The allocations of a program's trees, arrays and textures. -/
def owned (p : Program) : List Allocation :=
  p.engine.storage.values.map (·.allocation) ++ p.ndarrays.values.map (·.allocation) ++
    p.textures.map (·.allocation)

theorem owned_congr (hs : q.engine.storage = p.engine.storage) (hn : q.ndarrays = p.ndarrays)
    (ht : q.textures = p.textures) : q.owned = p.owned := by
  rw [owned, owned, hs, hn, ht]

theorem owned_texture (p : Program) (t : Texture) (pool : Pool) :
    ({ p with textures := p.textures ++ [t] }.withPool pool).owned = p.owned ++ [t.allocation] := by
  simp [owned, withPool, withEngine, engine]

/-! ### What a program gives away -/

theorem owned_storageGone (h : p.engine.storage.keys.Nodup) {s : Storage}
    (hs : p.engine.storage.find? id = some s) :
    p.owned.Perm ([s.allocation] ++ (p.withStorage (p.engine.storage.erase id)).owned) :=
  (((Table.values_erase_perm h hs).map (·.allocation)).append_right _).append_right _

theorem storage_withoutTree (p : Program) (id : Nat) (t : FieldTree) :
    (p.withoutTree id t).engine.storage.entries.Sublist p.engine.storage.entries := by
  change (if t.compileOnly then p.engine.storage else p.engine.storage.erase id).entries.Sublist _
  split
  · exact .refl _
  · exact List.filter_sublist

theorem owned_withoutTree (h : p.engine.storage.keys.Nodup) (t : FieldTree) :
    p.owned.Perm (p.storageOf id t ++ (p.withoutTree id t).owned) := by
  rw [storageOf, withoutTree]
  by_cases hc : t.compileOnly = true
  · rw [if_pos hc, if_pos hc]
    exact .refl _
  · rw [if_neg hc, if_neg hc]
    cases hs : p.engine.storage.find? id with
    | none => rw [Table.erase_eq_self hs]; exact .refl _
    | some s => exact owned_storageGone h hs

theorem owned_ndarrayGone (h : p.ndarrays.keys.Nodup) {a : Ndarray}
    (ha : p.ndarrays.find? id = some a) :
    p.owned.Perm
      ([a.allocation] ++ ({ p with ndarrays := p.ndarrays.erase id } : Program).owned) := by
  refine .trans ((((Table.values_erase_perm h ha).map (·.allocation)).append_left _).append_right _)
    ?_
  simp only [owned, List.map_cons, List.append_assoc, List.cons_append, List.nil_append]
  exact List.perm_middle

theorem owned_emptied (p : Program) :
    p.owned.Perm (p.ndarrays.values.map (·.allocation) ++ p.textures.map (·.allocation) ++
      p.emptied.owned) := by
  refine .trans (.of_eq (List.append_assoc ..)) (List.perm_append_comm.trans (.of_eq ?_))
  simp [owned, emptied, engine, Table.values, Table.empty]

theorem owned_allStorageGone (p : Program) :
    p.owned.Perm (p.engine.storage.values.map (·.allocation) ++ (p.withStorage .empty).owned) :=
  .of_eq (List.append_assoc ..)

end Program

namespace World

/-- All allocations by their owners: trees, arrays, textures, callers and the free lists of the
pool. -/
def allocations (w : World) : List Allocation :=
  w.program.owned ++ w.held ++ w.program.pool.cachedAllocations

/-- Everybody's memory is accounted for, and that of a tree, an array or a texture is as large as its
packing, its elements or its image. -/
structure Accounted (w : World) : Prop where
  ledger : w.program.pool.Ledger (w.program.owned ++ w.held)
  storage : w.program.engine.storage.keys.Nodup
  ndarrays : w.program.ndarrays.keys.Nodup
  packed {id : Nat} {s : Storage} : w.program.engine.storage.find? id = some s →
    s.allocation.size = s.packing.size ∧ ∃ root, Packing.ofTree? root = some s.packing
  shaped {id : Nat} {a : Ndarray} : w.program.ndarrays.find? id = some a →
    id < w.program.nextNdarray ∧ a.dtype.arrayBytes? a.shape = some a.allocation.size
  images : ∀ t ∈ w.program.textures, t.image.bytes? = some t.allocation.size

/-- The command does not free the program's memory, nor give to the pool what the caller does not
hold. -/
def Honest (w : World) : Command → Prop
  | .deviceFree a => ∀ b ∈ w.program.owned ++ w.program.pool.cachedAllocations, b.id ≠ a.id
  | .poolRelease a => a ∈ w.held
  | _ => True

end World

/-- Past the program, the command does not write to these allocations. -/
def Command.Misses (l : List Allocation) : Command → Prop
  | .deviceWrite p _ => ∀ a ∈ l, a.id ≠ p.allocation.id
  | .deviceFill b _ => ∀ a ∈ l, a.id ≠ b.id
  | _ => True

/-- What a move of the pool comes to. -/
theorem Pool.Move.balanced {p p' : Pool} {out held held' : List Allocation}
    (hm : Pool.Move p held p' held') (h : p.Ledger (out ++ held)) :
    Balanced p p' out (out ++ held') := by
  have hsub (l : List Allocation) : out ⊆ out ++ l := List.subset_append_left ..
  -- What goes back is moved to the front.
  have front {a : Allocation} (ha : a ∈ held) : p.Ledger (a :: (out ++ held.erase a)) :=
    h.perm (((List.perm_cons_erase ha).append_left out).trans List.perm_middle).symm
  cases hm with
  | @allocated _ _ size zero a ha =>
    have hs := h.allocate size zero
    rw [ha] at hs
    cases hs with
    | granted hb _ _ => exact hb.mono (hsub _) List.perm_middle
  | @refused _ _ size zero e ha =>
    have hs := h.allocate size zero
    rw [ha] at hs
    cases hs with
    | refused hb _ => exact hb.mono (hsub _) (.refl _)
  | imaged ha => exact (h.fromDevice_image ha).1.mono (hsub _) List.perm_middle
  | released ha hr =>
    obtain ⟨q, hq, hb⟩ := (front ha).release
    rw [hq] at hr
    cases hr
    exact hb.mono (hsub _) (.refl _)
  | freed ha hr =>
    obtain ⟨d, hd, hold, hk⟩ := Holds.deallocate (front ha).holds
    rw [onDevice_on, hd] at hr
    cases hr
    exact ⟨h.withDevice hold, (hk.subset (List.subset_append_left ..)).subset (hsub _), id⟩

/-! ## What is owned -/

namespace World.Accounted

variable {w : World} {i : Nat} {s : Storage}

theorem storage_owned (hs : w.program.engine.storage.find? i = some s) :
    s.allocation ∈ w.program.owned := by
  simp only [owned, List.mem_append, List.mem_map]
  exact .inl (.inl ⟨s, Table.mem_values_of_find? hs, rfl⟩)

/-- The storage of a tree is live and as large as its packing. -/
theorem storage_live (h : w.Accounted) (hs : w.program.engine.storage.find? i = some s) :
    ∃ data, w.program.device.memory.find? s.allocation.id = some data ∧
      data.size = s.packing.size := by
  obtain ⟨data, hd, hsize⟩ := h.ledger.live (List.mem_append_left _ (storage_owned hs))
  exact ⟨data, hd, hsize.trans (h.packed hs).1⟩

theorem owned_distinct (h : w.Accounted) : (w.program.owned.map (·.id)).Nodup :=
  h.ledger.holds.distinct.sublist
    (((List.sublist_append_left ..).trans (List.sublist_append_left ..)).map _)

/-- Two trees have different allocations. -/
theorem storage_unique (h : w.Accounted) {j : Nat} {s' : Storage}
    (hs : w.program.engine.storage.find? i = some s)
    (hs' : w.program.engine.storage.find? j = some s')
    (hid : s.allocation.id = s'.allocation.id) : s = s' := by
  have hsub : (w.program.engine.storage.values.map (·.allocation)).Sublist w.program.owned :=
    (List.sublist_append_left ..).trans (List.sublist_append_left ..)
  have hdistinct := h.owned_distinct.sublist (hsub.map (·.id))
  rw [List.map_map] at hdistinct
  exact List.inj_on_of_nodup_map hdistinct (Table.mem_values_of_find? hs)
    (Table.mem_values_of_find? hs') hid

/-- Two arrays have different allocations. -/
theorem ndarray_unique (h : w.Accounted) {i j : Nat} {a b : Ndarray}
    (ha : w.program.ndarrays.find? i = some a) (hb : w.program.ndarrays.find? j = some b)
    (hid : a.allocation.id = b.allocation.id) : i = j := by
  have hsub : (w.program.ndarrays.values.map (·.allocation)).Sublist w.program.owned :=
    (List.sublist_append_right ..).trans (List.sublist_append_left ..)
  have hdistinct := h.owned_distinct.sublist (hsub.map (·.id))
  rw [Table.values, List.map_map, List.map_map] at hdistinct
  have hentry := List.inj_on_of_nodup_map hdistinct (Table.mem_of_find? ha) (Table.mem_of_find? hb)
  exact congrArg Prod.fst (hentry hid)

/-- No array lies in the storage of a tree. -/
theorem ndarray_apart (h : w.Accounted) {j : Nat} {a : Ndarray}
    (hs : w.program.engine.storage.find? i = some s)
    (ha : w.program.ndarrays.find? j = some a) : s.allocation.id ≠ a.allocation.id := by
  have hdistinct := h.owned_distinct
  rw [owned, List.map_append, List.map_append, List.append_assoc] at hdistinct
  intro hid
  obtain ⟨-, -, hdisjoint⟩ := List.nodup_append'.1 hdistinct
  have hleft : s.allocation.id ∈ (w.program.engine.storage.values.map (·.allocation)).map (·.id) :=
    List.mem_map.2 ⟨_, List.mem_map.2 ⟨s, Table.mem_values_of_find? hs, rfl⟩, rfl⟩
  have hright : s.allocation.id ∈ (w.program.ndarrays.values.map (·.allocation)).map (·.id) :=
    List.mem_map.2 ⟨_, List.mem_map.2 ⟨a, Table.mem_values_of_find? ha, rfl⟩, hid.symm⟩
  exact hdisjoint hleft (List.mem_append_left _ hright)

end World.Accounted

/-! ## Moves -/

namespace World.Accounted

variable {w w' : World} {p : Program} {held : List Allocation}

/-- What a move leaves of the storage of trees is as it was. -/
structure Spared (w w' : World) : Prop where
  storage : w'.program.engine.storage.entries.Sublist w.program.engine.storage.entries
  keeps : Keeps w.program.owned w.program.device w'.program.device

/-- What a program gives away leaves the rest as large as it is for. -/
theorem of_ledger (h : w.Accounted) (hl : w'.program.pool.Ledger (w'.program.owned ++ w'.held))
    (hs : w'.program.engine.storage.entries.Sublist w.program.engine.storage.entries)
    (hn : w'.program.ndarrays.entries.Sublist w.program.ndarrays.entries)
    (hnext : w'.program.nextNdarray = w.program.nextNdarray)
    (ht : w'.program.textures ⊆ w.program.textures) : w'.Accounted where
  ledger := hl
  storage := h.storage.sublist (hs.map _)
  ndarrays := h.ndarrays.sublist (hn.map _)
  packed hf := h.packed (Table.find?_of_sublist h.storage hs hf)
  shaped hf := hnext ▸ h.shaped (Table.find?_of_sublist h.ndarrays hn hf)
  images t hm := h.images t (ht hm)

/-- Trees without storage, kernels and the like are no memory. -/
theorem of_same (h : World.Accounted ⟨p, held⟩) {q : Program} (hb : q.backend = p.backend)
    (hn : q.ndarrays = p.ndarrays) (hnext : q.nextNdarray = p.nextNdarray)
    (ht : q.textures = p.textures) :
    World.Accounted ⟨q, held⟩ ∧ Spared ⟨p, held⟩ ⟨q, held⟩ := by
  have he : q.engine = p.engine := congrArg Backend.engine hb
  have hpool : q.pool = p.pool := congrArg Engine.pool he
  have hdevice : q.device = p.device := congrArg Engine.device he
  have howned : q.owned = p.owned := owned_congr (congrArg Engine.storage he) hn ht
  have htextures : q.textures ⊆ p.textures := by rw [ht]; exact List.Subset.refl _
  refine ⟨h.of_ledger ?_ (by rw [he]) (by rw [hn]) hnext htextures, by rw [he],
    by rw [hdevice]; exact .refl _ _⟩
  rw [howned, hpool]
  exact h.ledger

/-- What the program hands out was its own. -/
theorem of_given (h : World.Accounted ⟨p, held⟩) {q : Program} (given : List Allocation)
    (hp : q.pool = p.pool) (hs : q.engine.storage.entries.Sublist p.engine.storage.entries)
    (hn : q.ndarrays.entries.Sublist p.ndarrays.entries) (hnext : q.nextNdarray = p.nextNdarray)
    (ht : q.textures ⊆ p.textures) (hg : p.owned.Perm (given ++ q.owned)) :
    World.Accounted ⟨q, given ++ held⟩ ∧ Spared ⟨p, held⟩ ⟨q, given ++ held⟩ := by
  have hd : q.device = p.device := congrArg Pool.device hp
  have hout : (q.owned ++ (given ++ held)).Perm (p.owned ++ held) := by
    refine (List.perm_append_comm_assoc ..).trans ?_
    rw [← List.append_assoc]
    exact hg.symm.append_right held
  exact ⟨h.of_ledger (hp ▸ h.ledger.perm hout) hs hn hnext ht, hs, by rw [hd]; exact .refl _ _⟩

/-- Nobody refuses to take back what is held. -/
theorem takes (h : World.Accounted ⟨p, held⟩) {a : Allocation} (ha : a ∈ held) : ¬p.Refuses a := by
  have hl : p.pool.Ledger (a :: (p.owned ++ held.erase a)) :=
    h.ledger.perm (((List.perm_cons_erase ha).append_left p.owned).trans List.perm_middle).symm
  rintro (⟨e, he⟩ | ⟨e, he⟩)
  · obtain ⟨pool, hr, -⟩ := hl.release
    rw [hr] at he
    cases he
  · obtain ⟨d, hd, -⟩ := Holds.deallocate hl.holds
    cases he.symm.trans hd

/-- A new array has its memory from the pool. -/
theorem ndarray (h : World.Accounted ⟨p, held⟩) {a : Ndarray} {size : Nat} {zero : Bool}
    {pool : Pool} {q : Program} (hid : a.id = p.nextNdarray)
    (hbytes : a.dtype.arrayBytes? a.shape = some size)
    (hal : (Pool.allocate size zero).on p.pool = (.ok a.allocation, pool))
    (hq : q.engine = { p.engine with pool }) (hn : q.ndarrays = p.ndarrays.insert a.id a)
    (hnext : q.nextNdarray = a.id + 1) (ht : q.textures = p.textures) :
    World.Accounted ⟨q, held⟩ ∧ Spared ⟨p, held⟩ ⟨q, held⟩ := by
  have hs := h.ledger.allocate size zero
  rw [hal] at hs
  obtain ⟨hb, hsize, -⟩ | _ := hs
  have hpool : q.pool = pool := by rw [Program.pool, hq]
  have hd : q.device = pool.device := congrArg Pool.device hpool
  have hst : q.engine.storage = p.engine.storage := by rw [hq]
  -- The id is past those of all arrays, so none makes way for the new one.
  have hnew : p.ndarrays.find? a.id = none := by
    cases hf : p.ndarrays.find? a.id with
    | none => rfl
    | some b =>
      have hlt : a.id < p.nextNdarray := (h.shaped hf).1
      omega
  have hout : (q.owned ++ held).Perm (a.allocation :: (p.owned ++ held)) := by
    rw [owned, owned, hst, hn, ht, Table.values_insert_new hnew]
    simp only [List.map_append, List.map_cons, List.map_nil, List.append_assoc,
      List.cons_append, List.nil_append]
    exact (List.perm_middle.append_left _).trans List.perm_middle
  refine ⟨⟨?_, ?_, ?_, fun hf => ?_, fun {id b} hf => ?_, ?_⟩, by rw [hst],
    hd ▸ hb.keeps.subset (List.subset_append_left ..)⟩
  · exact hpool ▸ hb.ledger.perm hout
  · exact hst ▸ h.storage
  · exact hn ▸ Table.nodup_keys_insert h.ndarrays
  · exact h.packed (hst ▸ hf)
  · rw [hn, Table.find?_insert] at hf
    simp only [hnext]
    split at hf
    · cases hf
      exact ⟨by omega, hsize ▸ hbytes⟩
    · obtain ⟨hlt, hshape⟩ := h.shaped hf
      exact ⟨by simp only at hlt; omega, hshape⟩
  · exact ht ▸ h.images

/-- So has a new texture. -/
theorem texture (h : World.Accounted ⟨p, held⟩) {t : Texture} {pool : Pool}
    (hal : (Pool.fromDevice (·.allocateImage t.image)).on p.pool = (.ok t.allocation, pool)) :
    World.Accounted ⟨{ p with textures := p.textures ++ [t] }.withPool pool, held⟩ ∧
      Spared ⟨p, held⟩ ⟨{ p with textures := p.textures ++ [t] }.withPool pool, held⟩ := by
  obtain ⟨hb, hsize⟩ := h.ledger.fromDevice_image hal
  have hout : (({ p with textures := p.textures ++ [t] }.withPool pool).owned ++ held).Perm
      (t.allocation :: (p.owned ++ held)) := by
    rw [owned_texture, List.append_assoc]
    exact List.perm_middle
  refine ⟨⟨hb.ledger.perm hout, h.storage, h.ndarrays, h.packed, h.shaped, ?_⟩, .refl _,
    hb.keeps.subset (List.subset_append_left ..)⟩
  intro u hu
  rcases List.mem_append.1 hu with hu | hu
  · exact h.images u hu
  · rw [List.mem_singleton.1 hu]
    exact hsize

/-- A tree goes with its storage. -/
theorem withoutTree (h : World.Accounted ⟨p, held⟩) (id : Nat) (t : FieldTree) :
    World.Accounted ⟨p.withoutTree id t, p.storageOf id t ++ held⟩ ∧
      Spared ⟨p, held⟩ ⟨p.withoutTree id t, p.storageOf id t ++ held⟩ :=
  h.of_given _ rfl (p.storage_withoutTree id t) (.refl _) rfl (List.Subset.refl _)
    (owned_withoutTree h.storage t)

theorem calm (hm : Calm w w') (h : w.Accounted) : w'.Accounted ∧ Spared w w' := by
  cases hm with
  | quiet hq => exact h.of_same hq.backend hq.ndarrays hq.nextNdarray hq.textures
  | kernel k hid hc hq hn => exact h.of_same hq.backend hq.ndarrays hq.nextNdarray hq.textures
  | lost a ha hr hs => exact absurd hr (h.takes ha)
  | pool pool hp =>
    have hb := hp.balanced h.ledger
    exact ⟨{ h with ledger := hb.ledger }, .refl _, hb.keeps⟩
  | ndarray a size zero pool hid hatt hb hal => exact h.ndarray hid hb hal rfl rfl rfl rfl
  | texture t pool hal => exact h.texture hal
  | @ndarrayGone p held id a ha =>
    exact h.of_given [a.allocation] rfl (.refl _) List.filter_sublist rfl (List.Subset.refl _)
      (owned_ndarrayGone h.ndarrays ha)
  | treeGone id t ht => exact h.withoutTree id t
  | _ => exact ⟨{ h with }, .refl _, .refl _ _⟩

theorem closing (hm : Closing w w') (h : w.Accounted) : w'.Accounted := by
  cases hm with
  | @emptied p held =>
    exact (h.of_given (q := p.emptied) _ rfl (.refl _) (List.nil_sublist _) rfl
      (List.nil_subset _) p.owned_emptied).1
  | @storageGone p held id s hf hs =>
    exact (h.of_given (q := p.withStorage (p.engine.storage.erase id)) [s.allocation] rfl
      List.filter_sublist (.refl _) rfl (List.Subset.refl _) (owned_storageGone h.storage hs)).1
  | @allStorageGone p held hf =>
    exact (h.of_given (q := p.withStorage .empty) _ rfl (List.nil_sublist _) (.refl _) rfl
      (List.Subset.refl _) p.owned_allStorageGone).1
  | detached hf hs => exact { h with }
  | poolTerminated hf =>
    obtain ⟨pool, ht, hb, -⟩ := h.ledger.terminate
    rw [ht]
    exact { h with ledger := hb.ledger }

/-- The storage of a new tree comes from the pool. -/
theorem tree (h : World.Accounted ⟨p, held⟩) (id : Nat) (hnew : p.engine.storage.find? id = none)
    {s : Storage} {pool : Pool} {q : Program} {root : Node}
    (hpack : Packing.ofTree? root = some s.packing)
    (hal : (Pool.allocate s.packing.size true).on p.pool = (.ok s.allocation, pool))
    (hq : q.engine = { p.engine with pool, storage := p.engine.storage.insert id s })
    (hn : q.ndarrays = p.ndarrays) (hnext : q.nextNdarray = p.nextNdarray)
    (ht : q.textures = p.textures) : World.Accounted ⟨q, held⟩ := by
  have hs := h.ledger.allocate s.packing.size true
  rw [hal] at hs
  obtain ⟨hb, hsize, -⟩ | _ := hs
  have hpool : q.pool = pool := by rw [Program.pool, hq]
  have hst : q.engine.storage = p.engine.storage.insert id s := by rw [hq]
  have hout : (q.owned ++ held).Perm (s.allocation :: (p.owned ++ held)) := by
    rw [owned, owned, hst, hn, ht, Table.values_insert_new hnew]
    simp only [List.map_append, List.map_cons, List.map_nil, List.append_assoc,
      List.cons_append, List.nil_append]
    exact List.perm_middle
  refine ⟨hpool ▸ hb.ledger.perm hout, hst ▸ Table.nodup_keys_insert h.storage, hn ▸ h.ndarrays,
    fun {j s'} hf => ?_, fun hf => ?_, ht ▸ h.images⟩
  · rw [hst, Table.find?_insert] at hf
    split at hf
    · cases hf
      exact ⟨hsize, root, hpack⟩
    · exact h.packed hf
  · rw [hn] at hf
    simp only [hnext]
    exact h.shaped hf

theorem rewritten (h : World.Accounted ⟨p, held⟩) {d : Device} (hd : p.device.Rewritten d) :
    World.Accounted ⟨p.withDevice d, held⟩ :=
  { h with ledger := h.ledger.withDevice (h.ledger.holds.rewritten hd) }

/-- Only the pool and what is held differ. -/
theorem of_pool (h : World.Accounted ⟨p, held⟩) {pool : Pool} {held' : List Allocation}
    (hl : pool.Ledger (p.owned ++ held')) : World.Accounted ⟨p.withPool pool, held'⟩ :=
  { h with ledger := hl }

/-- What is left when an allocation has been given up. -/
theorem keep_perm (h : w.Accounted) {a : Allocation} (ha : a ∈ w.held) :
    (keep w.held (some a)).Perm (w.held.erase a) := by
  have hheld : (w.held.map (·.id)).Nodup := h.ledger.holds.distinct.sublist
    (((List.sublist_append_right ..).trans (List.sublist_append_left ..)).map _)
  exact filter_perm_erase hheld ha

/-- A raw command leaves owned memory alone, where it does not write to it. -/
theorem raw {c : Command} (h : w.Accounted) (hr : c.IsRaw) (hc : w.Honest c) :
    (w.step c).Accounted ∧ ∀ l ⊆ w.program.owned, c.Misses l →
      Keeps l w.program.device (w.step c).program.device := by
  let I (w' : World) : Prop := w'.Accounted ∧ ∀ l ⊆ w.program.owned, c.Misses l →
    Keeps l w.program.device w'.program.device
  have kept {pool : Pool} {out out' held' : List Allocation} (hs : w.program.owned ⊆ out)
      (hb : w.program.pool.Balanced pool out out') (hp : (w.program.owned ++ held').Perm out') :
      I ⟨w.program.withPool pool, held'⟩ :=
    ⟨h.of_pool (hb.ledger.perm hp), fun l hl _ => hb.keeps.subset (List.Subset.trans hl hs)⟩
  have hout : w.program.owned ⊆ w.program.owned ++ w.held := List.subset_append_left ..
  have handed {a : Allocation} {pool : Pool}
      (hb : w.program.pool.Balanced pool (w.program.owned ++ w.held)
        (a :: (w.program.owned ++ w.held))) : I ⟨w.program.withPool pool, a :: w.held⟩ :=
    kept hout hb List.perm_middle
  have unchanged : I w := ⟨h, fun l _ _ => .refl l _⟩
  cases c with
  | deviceAllocate size =>
    exact step_handing_keeps (I := I) rfl (fun ha => handed (h.ledger.fromDevice ha).1)
      fun he => Pool.fromDevice_error he ▸ unchanged
  | deviceImage i =>
    exact step_handing_keeps (I := I) rfl (fun ha => handed (h.ledger.fromDevice_image ha).1)
      fun he => Pool.fromDevice_error he ▸ unchanged
  | poolAllocate size zero =>
    have hs := h.ledger.allocate size zero
    refine step_handing_keeps (I := I) rfl (fun ha => ?_) fun he => ?_
    · rw [ha] at hs
      obtain ⟨hb, -, -⟩ | _ := hs
      exact handed hb
    · rw [he] at hs
      obtain _ | ⟨hb, -⟩ := hs
      exact kept hout hb (.refl _)
  | deviceFree a =>
    refine step_surrender_keeps (I := I) rfl rfl (fun {pool} hd => ?_)
      fun he => Pool.onDevice_error he ▸ unchanged
    have howned : w.program.owned.filter (fun b : Allocation => b.id ≠ a.id) = w.program.owned :=
      List.filter_eq_self.2 fun b hb => by simpa using hc b (List.mem_append_left _ hb)
    obtain ⟨hleft, hkeeps⟩ := h.ledger.free (fun b hb => hc b (List.mem_append_right _ hb)) hd
    rw [List.filter_append, howned] at hleft hkeeps
    exact ⟨h.of_pool hleft,
      fun l hl _ => hkeeps.subset (List.Subset.trans hl (List.subset_append_left ..))⟩
  | poolRelease a =>
    refine step_surrender_keeps (I := I) rfl rfl (fun {pool} hd => ?_)
      fun he => release_error he ▸ unchanged
    have hb := (Pool.Move.released hc hd).balanced h.ledger
    exact kept (List.Subset.refl _) hb ((h.keep_perm hc).append_left _)
  | deviceWrite p bytes =>
    refine step_rewriting_keeps (I := I) rfl rfl (fun hd => ⟨h.rewritten (.write hd), ?_⟩) unchanged
    rintro l - hmisses a ha
    obtain ⟨data, -, -, rfl⟩ := write_eq_ok_iff.1 hd
    exact Table.find?_insert_of_ne (hmisses a ha)
  | deviceFill b pattern =>
    refine step_rewriting_keeps (I := I) rfl rfl (fun hd => ⟨h.rewritten (.fill hd), ?_⟩) unchanged
    rintro l - hmisses a ha
    obtain ⟨data, -, -, rfl⟩ := fill_eq_ok_iff.1 hd
    exact Table.find?_insert_of_ne (hmisses a ha)
  | poolTerminate =>
    obtain ⟨pool, ht, hb, -⟩ := h.ledger.terminate
    have hk : I ⟨w.program.withPool pool, w.held⟩ := kept hout hb (.refl _)
    rw [step_of_quietly rfl rfl, onPool_through, ht]
    exact hk
  | _ => exact hr.elim

theorem move {ok : World → Command → Prop} (hok : ∀ w c, ok w c → w.Honest c) (hm : Move ok w w')
    (hl : w.program.Linked) (h : w.Accounted) : w'.Accounted := by
  cases hm with
  | calm hm => exact (h.calm hm).1
  | finished hm _ => exact ending_keeps (fun hm h => (calm hm h).1) closing hm h
  | @tree p held root s pool hatt hpack hal =>
    refine h.tree (p.trees.add root false).1.id ?_ hpack hal rfl rfl rfl rfl
    rw [Registry.add_fst]
    exact hl.find?_next
  | rewritten d hd => exact h.rewritten hd
  | raw c hr hc => exact (h.raw hr (hok w c hc)).1

end World.Accounted

theorem Run.accounted {ok : World → Command → Prop} {w : World} {cs : List Command}
    (r : Run ok w cs) (hok : ∀ w c, ok w c → w.Honest c) : w.Accounted := by
  refine (r.invariant (I := fun w => w.program.Linked ∧ w.Accounted) (fun hp => ?_)
    fun hm h => ⟨h.1.move hm, h.2.move hok hm h.1⟩).2.2.2
  refine ⟨linked_of_create hp, ?_⟩
  cases hp
  exact ⟨.create _ _ _, List.nodup_nil, List.nodup_nil, fun hf => (by cases hf),
    fun hf => (by cases hf), fun t ht => (by cases ht)⟩

/-- Every allocation has one owner, whatever commands came before: what trees, arrays, textures and
callers have and what the pool keeps are different allocations, each is live and as large as its
handle says, and nothing else is live. The handle of a tree's storage is as large as the packing of
the tree, and those of arrays and textures are as large as their elements and images. -/
theorem Run.one_owner {w : World} {cs : List Command} (r : Run World.Honest w cs) :
    (w.allocations.map (·.id)).Nodup ∧
    (∀ a ∈ w.allocations,
      ∃ data, w.program.device.memory.find? a.id = some data ∧ data.size = a.size) ∧
    (∀ id, w.program.device.isLive id = true → ∃ a ∈ w.allocations, a.id = id) ∧
    (∀ t ∈ w.program.trees.live, t.compileOnly = false →
      ∃ s, w.program.engine.storage.find? t.id = some s) ∧
    (∀ id s, w.program.engine.storage.find? id = some s →
      ∃ t ∈ w.program.trees.live, t.id = id ∧ t.compileOnly = false ∧
        Packing.ofTree? t.root = some s.packing ∧ s.allocation.size = s.packing.size) ∧
    (∀ id a, w.program.ndarrays.find? id = some a →
      a.dtype.arrayBytes? a.shape = some a.allocation.size) ∧
    ∀ t ∈ w.program.textures, t.image.bytes? = some t.allocation.size := by
  have h := r.accounted fun _ _ => id
  have hl := r.linked
  refine ⟨h.ledger.holds.distinct, fun a ha => h.ledger.holds.live ha, fun id hid => ?_,
    fun t ht hc => hl.tree (hl.registry.mem_live.1 ht) hc, fun id s hs => ?_,
    fun id a ha => (h.shaped ha).2, h.images⟩
  · rw [isLive, Table.contains_eq_isSome, Option.isSome_iff_exists] at hid
    obtain ⟨data, hd⟩ := hid
    exact h.ledger.holds.only hd
  · obtain ⟨t, ht, hc, hpack⟩ := hl.storage hs
    obtain rfl := hl.registry.id ht
    exact ⟨t, hl.registry.mem_live.2 ht, rfl, hc, hpack, (h.packed hs).1⟩

/-- All five owners have something: a tree, an array, a texture, a caller and, after an array has been
deleted, the pool. -/
theorem Run.one_owner_everybody : ∃ w cs, Run World.Honest w cs ∧
    w.allocations.map (·.id) = [0, 1, 2, 3, 4] ∧
    ∀ id, w.program.device.isLive id = true → ∃ a ∈ w.allocations, a.id = id := by
  have tree : Run World.Honest _ _ := Run.fresh.step
    (.addTree (.mk 0 .root [] [.mk 1 (.place "x" .int32) [] []]) false) trivial
  have array := tree.step (.createNdarray (.scalar .int32) [3] .aos true) trivial
  have texture := array.step (.createTexture ⟨.scalar .float32, 4, [2, 2]⟩) trivial
  have raw := texture.step (.allocateMemory 16 false) trivial
  have cached := (raw.step (.createNdarray (.scalar .int8) [5] .aos true) trivial).step
    (.deleteNdarray 1) trivial
  have refused := cached.step (.deleteNdarray 1) trivial
  exact ⟨_, _, refused, by decide +kernel, refused.one_owner.2.2.1⟩

end FieldCompute
