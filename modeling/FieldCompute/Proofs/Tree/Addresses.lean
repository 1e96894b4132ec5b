import FieldCompute.Proofs.Tree.Shapes
import Mathlib.Data.List.Infix
/-!
# Addresses in a tree

The address of a node says which child to take on every step of the way down from the root. A tree
lists its nodes by rising address, a node before what stands below it (`nodes_eq_addresses`,
`addresses_sorted`), so depth first is the order of the addresses. In a tree that was built under
ids from one counter (`Node.Built`) an id has one address, and what the nodes on the way to it add
is its shape (`Built.structurally_sound`).
-/

namespace FieldCompute.Node

variable {t n m : Node} {a b : List Nat}

/-! ## Addresses -/

/-- The node at an address: the numbers of the children to take on the way down. -/
def at? : Node → List Nat → Option Node
  | t, [] => some t
  | t, i :: a => t.children[i]?.bind fun c => at? c a

/-- The nodes on the way to an address, the node there included. -/
def way (t : Node) (a : List Nat) : List Node := a.inits.filterMap t.at?

mutual

/-- All addresses, depth first. -/
def addresses : Node → List (List Nat)
  | mk _ _ _ cs => [] :: addressesFrom 0 cs

/-- The addresses of and below children of which the first one has this number. -/
def addressesFrom (number : Nat) : List Node → List (List Nat)
  | [] => []
  | c :: cs => (addresses c).map (number :: ·) ++ addressesFrom (number + 1) cs

end

@[simp] theorem at?_nil (t : Node) : t.at? [] = some t := rfl

@[simp] theorem at?_cons (t : Node) (i : Nat) (a : List Nat) :
    t.at? (i :: a) = t.children[i]?.bind fun c => c.at? a := rfl

theorem way_nil (t : Node) : t.way [] = [t] := rfl

theorem way_cons {c : Node} {i : Nat} (hc : t.children[i]? = some c) (a : List Nat) :
    t.way (i :: a) = t :: c.way a := by
  have hbelow : (fun b => t.at? (i :: b)) = c.at? := by
    funext b
    simp [hc]
  rw [way, List.inits_cons, List.filterMap_cons, at?_nil, List.filterMap_map]
  exact congrArg (t :: List.filterMap · a.inits) hbelow

/-! ## Depth first -/

/-- An address below children starts with the number of one of them. -/
theorem le_of_mem_addressesFrom {number i : Nat} {cs : List Node}
    (h : i :: a ∈ addressesFrom number cs) : number ≤ i := by
  induction cs generalizing number with
  | nil => simp [addressesFrom] at h
  | cons c cs ih =>
    rw [addressesFrom, List.mem_append, List.mem_map] at h
    rcases h with ⟨b, -, hb⟩ | h
    · cases hb
      exact Nat.le_refl _
    · exact Nat.le_of_succ_le (ih h)

theorem nil_notMem_addressesFrom (number : Nat) (cs : List Node) :
    [] ∉ addressesFrom number cs := by
  induction cs generalizing number with
  | nil => simp [addressesFrom]
  | cons c cs ih => simp [addressesFrom, ih]

mutual

/-- Depth first is by rising address. -/
theorem addresses_sorted : ∀ t : Node, t.addresses.Pairwise (· < ·)
  | mk i k s cs => by
    rw [addresses, List.pairwise_cons]
    refine ⟨?_, addressesFrom_sorted 0 cs⟩
    intro a ha
    cases a with
    | nil => exact absurd ha (nil_notMem_addressesFrom 0 cs)
    | cons i a => exact List.nil_lt_cons i a

theorem addressesFrom_sorted (number : Nat) :
    ∀ cs : List Node, (addressesFrom number cs).Pairwise (· < ·)
  | [] => .nil
  | c :: cs => by
    rw [addressesFrom, List.pairwise_append]
    refine ⟨?_, addressesFrom_sorted (number + 1) cs, ?_⟩
    · rw [List.pairwise_map]
      exact (addresses_sorted c).imp fun h => List.cons_lt_cons_iff.2 (.inr ⟨rfl, h⟩)
    · intro a ha b hb
      obtain ⟨a, -, rfl⟩ := List.mem_map.1 ha
      cases b with
      | nil => exact absurd hb (nil_notMem_addressesFrom _ cs)
      | cons i b => exact List.cons_lt_cons_iff.2 (.inl (le_of_mem_addressesFrom hb))

end

mutual

theorem nodes_eq_addresses : ∀ t : Node, t.addresses.map t.at? = t.nodes.map some
  | mk i k s cs => by
    rw [addresses, nodes_mk, List.map_cons, List.map_cons, at?_nil]
    exact congrArg _ (nodes_eq_addressesFrom i k s [] cs)

/-- The children in front of these stand at the numbers in front of theirs. -/
theorem nodes_eq_addressesFrom (i : NodeId) (k : NodeKind) (s : List Nat) (before : List Node) :
    ∀ cs : List Node, (addressesFrom before.length cs).map (mk i k s (before ++ cs)).at? =
      (cs.flatMap nodes).map some
  | [] => rfl
  | c :: cs => by
    have hrest := nodes_eq_addressesFrom i k s (before ++ [c]) cs
    rw [List.append_assoc, List.singleton_append, List.length_append,
      List.length_singleton] at hrest
    have hc : (mk i k s (before ++ c :: cs)).children[before.length]? = some c := by simp [children]
    have hbelow : (mk i k s (before ++ c :: cs)).at? ∘ (before.length :: ·) = c.at? := by
      funext a
      simp [hc]
    rw [addressesFrom, List.map_append, List.map_map, hbelow, nodes_eq_addresses c, hrest,
      List.flatMap_cons, List.map_append]

end

mutual

theorem mem_addresses_of_at? : ∀ (t : Node) {a : List Nat}, t.at? a = some n → a ∈ t.addresses
  | mk i k s cs, a, h => by
    rw [addresses]
    cases a with
    | nil => exact List.mem_cons_self
    | cons j a =>
      rw [at?_cons, Option.bind_eq_some_iff] at h
      obtain ⟨c, hc, h⟩ := h
      rw [← Nat.zero_add j]
      exact List.mem_cons_of_mem _ (mem_addressesFrom_of_at? 0 cs hc h)

theorem mem_addressesFrom_of_at? (number : Nat) : ∀ (cs : List Node) {j : Nat} {c : Node}
    {a : List Nat}, cs[j]? = some c → c.at? a = some n →
      (number + j) :: a ∈ addressesFrom number cs
  | c :: cs, 0, _, a, rfl, h => by
    rw [addressesFrom]
    exact List.mem_append_left _ (List.mem_map_of_mem (mem_addresses_of_at? c h))
  | c :: cs, j + 1, d, a, hd, h => by
    have hrest := mem_addressesFrom_of_at? (number + 1) cs (j := j) hd h
    rw [Nat.add_right_comm, Nat.add_assoc] at hrest
    rw [addressesFrom]
    exact List.mem_append_right _ hrest

end

theorem mem_addresses_iff : a ∈ t.addresses ↔ ∃ n, t.at? a = some n := by
  constructor
  · intro ha
    have hmem : t.at? a ∈ t.nodes.map some := by
      rw [← nodes_eq_addresses]
      exact List.mem_map_of_mem ha
    obtain ⟨n, -, hn⟩ := List.mem_map.1 hmem
    exact ⟨n, hn.symm⟩
  · rintro ⟨n, hn⟩
    exact mem_addresses_of_at? t hn

theorem mem_nodes_iff : n ∈ t.nodes ↔ ∃ a, t.at? a = some n := by
  have hsome : n ∈ t.nodes ↔ some n ∈ t.addresses.map t.at? := by simp [nodes_eq_addresses]
  rw [hsome, List.mem_map]
  constructor
  · rintro ⟨a, -, ha⟩
    exact ⟨a, ha⟩
  · rintro ⟨a, ha⟩
    exact ⟨a, mem_addresses_of_at? t ha, ha⟩

theorem isSome_place? (n : Node) : n.place?.isSome = n.isPlace := by
  unfold place? isPlace
  cases n.kind <;> rfl

/-- The places by rising address. -/
theorem places_eq_addresses (t : Node) :
    t.places.map some =
      (t.addresses.filter fun a => (t.at? a).any isPlace).map fun a => (t.at? a).bind place? := by
  have hnodes (ns : List Node) :
      (ns.filterMap place?).map some = (ns.filter isPlace).map place? := by
    induction ns with
    | nil => rfl
    | cons n ns ih =>
      rw [List.filterMap_cons, List.filter_cons, ← isSome_place?]
      cases hn : n.place? with
      | none => simpa using ih
      | some x => simpa [hn] using ih
  calc t.places.map some = (t.nodes.filter isPlace).map place? := hnodes t.nodes
    _ = ((t.nodes.map some).filter (·.any isPlace)).map (·.bind place?) := by
      rw [List.filter_map, List.map_map]
      rfl
    _ = (t.addresses.filter fun a => (t.at? a).any isPlace).map fun a => (t.at? a).bind place? := by
      rw [← nodes_eq_addresses, List.filter_map, List.map_map]
      rfl

/-- Where ids tell nodes apart they tell addresses apart. -/
theorem address_unique (h : t.ids.Nodup) (ha : t.at? a = some n) (hb : t.at? b = some m)
    (hid : n.id = m.id) : a = b := by
  have hids : (t.addresses.map fun a => (t.at? a).map id) = t.ids.map some := by
    rw [ids, List.map_map, ← Function.comp_def, ← List.map_map, nodes_eq_addresses, List.map_map]
    rfl
  have hnodup : (t.addresses.map fun a => (t.at? a).map id).Nodup := by
    rw [hids]
    exact h.map (Option.some_injective _)
  refine List.inj_on_of_nodup_map hnodup (mem_addresses_of_at? t ha) (mem_addresses_of_at? t hb) ?_
  simp [ha, hb, hid]

/-- A node has an id itself or leaves it to its children, the first one before the next. -/
theorem find?_mk (i : NodeId) (k : NodeKind) (s : List Nat) (cs : List Node) (x : NodeId) :
    (mk i k s cs).find? x =
      if i = x then some (mk i k s cs) else cs.findSome? fun c => c.find? x := by
  rw [find?, nodes_mk, List.find?_cons]
  by_cases hi : i = x
  · simp [id, hi]
  · have hfind : find? = fun c x => c.nodes.find? (fun n => decide (n.id = x)) := rfl
    simp [id, hi, hfind, List.find?_flatMap]

/-! ## What stands at an address -/

/-- Below axes `above` the way to a node adds its extents to them. -/
theorem Shaped.shape_at? {above : List Nat} (h : Shaped above t) (ha : t.at? a = some n) :
    n.shape = above ++ (t.way a).flatMap (·.kind.extents) := by
  induction a generalizing t above with
  | nil =>
    cases ha
    cases h
    simp [way_nil, kind, shape]
  | cons i a ih =>
    rw [at?_cons, Option.bind_eq_some_iff] at ha
    obtain ⟨c, hc, ha⟩ := ha
    rw [way_cons hc, List.flatMap_cons, ← List.append_assoc]
    cases h with
    | mk hpos hleaf hcs => exact ih (hcs c (List.mem_of_getElem? hc)) ha

theorem Shaped.at? {above : List Nat} (h : Shaped above t) (ha : t.at? a = some n) :
    ∃ above, Shaped above n := by
  induction a generalizing t above with
  | nil =>
    cases ha
    exact ⟨above, h⟩
  | cons i a ih =>
    rw [at?_cons, Option.bind_eq_some_iff] at ha
    obtain ⟨c, hc, ha⟩ := ha
    cases h with
    | mk hpos hleaf hcs => exact ih (hcs c (List.mem_of_getElem? hc)) ha

/-! ## Building a tree -/

/-- A tree in the making, and the next id of the counter. The counter is shared: nodes of other
trees take ids in between. -/
inductive Built : Node → NodeId → Prop where
  | root (next : NodeId) : Built (root next) (next + 1)
  | elsewhere {t : Node} {next : NodeId} (ht : Built t next) : Built t (next + 1)
  | grow {t t' : Node} {next parent : NodeId} {sprout : Sprout} (ht : Built t next)
      (h : t.grow parent sprout next = .ok t') : Built t' (next + 1)

namespace Built

variable {next : NodeId}

theorem lt_next (h : Built t next) {i : NodeId} (hi : i ∈ t.ids) : i < next := by
  induction h with
  | root next =>
    obtain rfl : i = next := List.mem_singleton.1 hi
    exact Nat.lt_succ_self i
  | elsewhere _ ih => exact Nat.lt_succ_of_lt (ih hi)
  | grow ht h ih =>
    rcases Grown.mem_ids_grow h hi with hi | rfl
    · exact Nat.lt_succ_of_lt (ih hi)
    · exact Nat.lt_succ_self _

/-- What the counter gives is new. -/
theorem grown (h : Built t next) : t.Grown := by
  induction h with
  | root next => exact .root next
  | elsewhere _ ih => exact ih
  | grow ht h ih => exact ih.grow (fun hi => Nat.lt_irrefl _ (ht.lt_next hi)) h

/-- A tree that is built from a plan. -/
theorem ofCalls {calls : List (NodeId × Sprout)} {t' : Node} (h : Built t next)
    (hg : (t.growAll next calls).1 = .ok t') : ∃ last, Built t' last := by
  induction calls generalizing t next with
  | nil =>
    cases hg
    exact ⟨next, h⟩
  | cons call calls ih =>
    obtain ⟨parent, sprout⟩ := call
    rw [Node.growAll] at hg
    cases hstep : t.grow parent sprout next with
    | error e => simp [hstep] at hg
    | ok u =>
      rw [hstep] at hg
      exact ih (h.grow hstep) hg

theorem ofPlan {below : List TreePlan} (h : (TreePlan.build below next).1 = .ok t) :
    ∃ last, Built t last := ofCalls (.root next) h

/-- In a tree that was built under ids from a counter
* nodes at different addresses have different ids,
* the shape of a node is the extents of all nodes on the way to it, one after the other, and the
  extents of dense nodes are positive,
* an id is found exactly if a node has it, and then the node that has it,
* the places are the nodes that are places, each once and by rising address,
* no place has children. -/
theorem structurally_sound (h : Built t next) :
    (∀ a b n m, t.at? a = some n → t.at? b = some m → n.id = m.id → a = b) ∧
    (∀ a n, t.at? a = some n → n.shape = (t.way a).flatMap (·.kind.extents) ∧
      ∀ extents, n.kind = .dense extents → ∀ extent ∈ extents, 0 < extent) ∧
    (∀ i n, t.find? i = some n ↔ n.id = i ∧ ∃ a, t.at? a = some n) ∧
    (∃ addresses : List (List Nat), addresses.Pairwise (· < ·) ∧
      (∀ a, a ∈ addresses ↔ ∃ n, t.at? a = some n ∧ n.isPlace = true) ∧
      t.places.map some = addresses.map fun a => (t.at? a).bind place?) ∧
    ∀ a n, t.at? a = some n → n.isPlace = true → n.children = [] := by
  have hgrown := h.grown
  have hshaped := hgrown.shaped
  refine ⟨?_, ?_, ?_, ?_, ?_⟩
  · intro a b n m ha hb hid
    exact address_unique hgrown.nodup_ids ha hb hid
  · intro a n ha
    refine ⟨by simpa using hshaped.shape_at? ha, ?_⟩
    intro extents hk extent he
    obtain ⟨above, hn⟩ := hshaped.at? ha
    cases hn with
    | mk hpos hleaf hcs =>
      obtain rfl := hk
      exact Nat.pos_of_ne_zero fun h0 => hpos (h0 ▸ he)
  · intro i n
    rw [← mem_nodes_iff]
    constructor
    · intro hf
      exact ⟨by simpa using List.find?_some hf, List.mem_of_find?_eq_some hf⟩
    · rintro ⟨hid, hn⟩
      cases hf : t.find? i with
      | none => simpa [hid] using List.find?_eq_none.1 hf n hn
      | some p => rw [eq_of_find? hgrown.nodup_ids hf hn hid]
  · refine ⟨t.addresses.filter fun a => (t.at? a).any isPlace, ?_, ?_, ?_⟩
    · exact (addresses_sorted t).filter _
    · intro a
      simp only [List.mem_filter, mem_addresses_iff, Option.any_eq_true]
      constructor
      · rintro ⟨-, n, hn, hplace⟩
        exact ⟨n, hn, hplace⟩
      · rintro ⟨n, hn, hplace⟩
        exact ⟨⟨n, hn⟩, n, hn, hplace⟩
    · exact places_eq_addresses t
  · intro a n ha hplace
    obtain ⟨above, hn⟩ := hshaped.at? ha
    cases hn with
    | mk hpos hleaf hcs => exact hleaf hplace

/-- Two places of one name, one of them below two dense nodes and the other under the root. -/
theorem structurally_sound_nested :
    let deep := mk 8 (.place "x" .int8) [2, 3, 4] []
    let flat := mk 10 (.place "x" .bool) [] []
    let t := mk 5 .root [] [mk 6 (.dense [2, 3]) [2, 3] [mk 7 (.dense [4]) [2, 3, 4] [deep],
      mk 9 (.place "y" .float64) [2, 3] []], flat]
    (∃ last, Built t last) ∧ t.at? [0, 0, 0] = some deep ∧ t.at? [1] = some flat ∧
      deep.shape = (t.way [0, 0, 0]).flatMap (·.kind.extents) ∧ t.find? 10 = some flat ∧
      flat.children = [] := by
  intro deep flat t
  have hbuild : (TreePlan.build [.node (.dense [2, 3]) [
      .node (.dense [4]) [.node (.place "x" (.scalar .int8)) []],
      .node (.place "y" (.scalar .float64)) []], .node (.place "x" (.scalar .bool)) []] 5).1 =
      .ok t := rfl
  obtain ⟨last, ht⟩ := ofPlan hbuild
  obtain ⟨-, hshape, hfind, -, hleaf⟩ := structurally_sound ht
  refine ⟨⟨last, ht⟩, rfl, rfl, (hshape _ _ rfl).1, ?_, hleaf [1] _ rfl rfl⟩
  exact (hfind 10 flat).2 ⟨rfl, [1], rfl⟩

end Built

end FieldCompute.Node
