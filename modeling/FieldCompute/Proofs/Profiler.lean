import FieldCompute.Profiler
import FieldCompute.Proofs.Table
import Mathlib.Algebra.Group.Action.Defs
import Mathlib.Algebra.Order.BigOperators.Group.List
import Mathlib.Data.List.DropRight
import Mathlib.Data.String.Basic
/-!
# What a profiler measured

What a history of calls measures for a kernel is read off the calls alone (`ProfilerCall.measured`):
since the last clear, the durations that were recorded for it and those of the stops whose pending
start was for it. A profiler holds just that after every history (`Profiler.Tracks`, kept by one
call in `Tracks.call`), and its answers sum it up (`Summarizes`), so they do not depend on the order
of the durations.
-/

namespace FieldCompute

/-- A call that changes a profiler. A stop comes with the time since the last start. -/
inductive ProfilerCall where
  | record (name : String) (elapsed : Nat)
  | start (name : String)
  | stop (elapsed : Nat)
  | clear
deriving DecidableEq, Repr

namespace ProfilerCall

variable {calls : List ProfilerCall} {name : String}

/-! ## Histories -/

def isRecord : ProfilerCall → Bool
  | record .. => true
  | _ => false

def isRecordOf (name : String) : ProfilerCall → Bool
  | record n _ => n = name
  | _ => false

def isStop : ProfilerCall → Bool
  | stop _ => true
  | _ => false

/-- The calls after the last clear. -/
def sinceClear (calls : List ProfilerCall) : List ProfilerCall := calls.rtakeWhile (· ≠ clear)

/-- The kernel whose start is pending: no other call but records came after that. -/
def pending? (calls : List ProfilerCall) : Option String :=
  match calls.reverse.find? (!·.isRecord) with
  | some (start name) => some name
  | _ => none

/-- The duration that a call measures for `name` if the calls `before` were made before it. -/
def measures? (name : String) (before : List ProfilerCall) : ProfilerCall → Option Nat
  | record n elapsed => if n = name then some elapsed else none
  | stop elapsed => if pending? before = some name then some elapsed else none
  | start _ | clear => none

/-- Every call with the calls before it. -/
def moments (calls : List ProfilerCall) : List (List ProfilerCall × ProfilerCall) :=
  calls.zipIdx.map fun e => (calls.take e.2, e.1)

/-- The durations of `name` since the last clear. -/
def measured (calls : List ProfilerCall) (name : String) : List Nat :=
  (moments (sinceClear calls)).filterMap fun m => m.2.measures? name m.1

/-- How often a duration was recorded for `name` since the last clear. -/
def recordsOf (calls : List ProfilerCall) (name : String) : Nat :=
  (sinceClear calls).countP (isRecordOf name)

/-- How many stops since the last clear came while a start for `name` was pending. -/
def stopsOf (calls : List ProfilerCall) (name : String) : Nat :=
  (moments (sinceClear calls)).countP fun m => m.2.isStop && pending? m.1 = some name

theorem map_moments (calls : List ProfilerCall) : (moments calls).map (·.2) = calls := by
  rw [moments, List.map_map]
  exact List.zipIdx_map_fst 0 calls

/-- A call that measures a duration records it or is a stop. -/
theorem length_measured (calls : List ProfilerCall) (name : String) :
    (measured calls name).length = recordsOf calls name + stopsOf calls name := by
  have hsplit (l : List (List ProfilerCall × ProfilerCall)) :
      (l.filterMap fun m => m.2.measures? name m.1).length =
        (l.map (·.2)).countP (isRecordOf name) +
          l.countP fun m => m.2.isStop && pending? m.1 = some name := by
    induction l with
    | nil => rfl
    | cons m l ih =>
      obtain ⟨before, c⟩ := m
      rw [List.filterMap_cons, List.map_cons, List.countP_cons, List.countP_cons]
      generalize (l.filterMap fun m => m.2.measures? name m.1) = rest at ih ⊢
      generalize l.countP (fun m => m.2.isStop && pending? m.1 = some name) = stops at ih ⊢
      cases c with
      | record n elapsed =>
        by_cases hn : n = name
        · simp only [measures?, isRecordOf, isStop, hn]
          simp [ih]
          omega
        · simp [measures?, isRecordOf, isStop, hn, ih]
      | stop elapsed =>
        by_cases hp : pending? before = some name
        · simp only [measures?, isRecordOf, isStop, hp]
          simp [ih]
          omega
        · simp [measures?, isRecordOf, isStop, hp, ih]
      | start n => simpa [measures?, isRecordOf, isStop] using ih
      | clear => simpa [measures?, isRecordOf, isStop] using ih
  rw [measured, hsplit, map_moments]
  rfl

/-! ## One more call -/

theorem sinceClear_append (calls : List ProfilerCall) (c : ProfilerCall) :
    sinceClear (calls ++ [c]) = if c = clear then [] else sinceClear calls ++ [c] := by
  rw [sinceClear, List.rtakeWhile_concat]
  by_cases hc : c = clear <;> simp [hc, sinceClear]

theorem pending?_append (calls : List ProfilerCall) (c : ProfilerCall) :
    pending? (calls ++ [c]) =
      match c with
      | record .. => pending? calls
      | start name => some name
      | stop _ | clear => none := by
  cases c <;> simp [pending?, isRecord]

theorem moments_append (calls : List ProfilerCall) (c : ProfilerCall) :
    moments (calls ++ [c]) = moments calls ++ [(calls, c)] := by
  unfold moments
  rw [List.zipIdx_append, List.map_append]
  congr 1
  · refine List.map_congr_left fun e he => ?_
    have hlt : e.2 < calls.length := by simpa using List.snd_lt_add_of_mem_zipIdx he
    rw [List.take_append_of_le_length (Nat.le_of_lt hlt)]
  · simp

theorem measured_append (calls : List ProfilerCall) (c : ProfilerCall) (name : String) :
    measured (calls ++ [c]) name =
      if c = clear then []
      else measured calls name ++ (c.measures? name (sinceClear calls)).toList := by
  rw [measured, sinceClear_append]
  by_cases hc : c = clear
  · simp [hc, moments]
  · rw [if_neg hc, if_neg hc, moments_append, List.filterMap_append, measured]
    cases hm : c.measures? name (sinceClear calls) <;> simp [hm]

end ProfilerCall

open ProfilerCall

namespace Profiler

variable {p : Profiler} {calls : List ProfilerCall} {name : String}

/-! ## Runs -/

def call (p : Profiler) : ProfilerCall → Profiler
  | .record name elapsed => p.record name elapsed
  | .start name => (p.start name).1
  | .stop elapsed => (p.stop elapsed).1
  | .clear => p.clear

/-- A new profiler after these calls. -/
def after (calls : List ProfilerCall) : Profiler := calls.foldl call .empty

theorem after_append (calls : List ProfilerCall) (c : ProfilerCall) :
    after (calls ++ [c]) = (after calls).call c := by
  rw [after, List.foldl_append]
  rfl

theorem durations_record (p : Profiler) (name : String) (elapsed : Nat) (other : String) :
    (p.record name elapsed).durations other =
      if name = other then p.durations other ++ [elapsed] else p.durations other := by
  rw [durations, record, Table.find?_insert]
  by_cases h : other = name
  · subst h
    simp
  · rw [if_neg h, if_neg (Ne.symm h)]
    rfl

/-- The profiler has what the calls measured, under names that it measured something for. -/
structure Tracks (p : Profiler) (calls : List ProfilerCall) : Prop where
  running : p.running = pending? (sinceClear calls)
  durations (name : String) : p.durations name = measured calls name
  filled (name : String) : p.runs.find? name ≠ some []
  nodup : p.runs.keys.Nodup

namespace Tracks

theorem empty : Tracks .empty [] where
  running := rfl
  durations _ := rfl
  filled _ h := by cases h
  nodup := .nil

/-- A duration for a kernel. -/
theorem record (h : p.Tracks calls) (n : String) (elapsed : Nat) {c : ProfilerCall}
    (hc : c ≠ .clear) (hm : ∀ name, c.measures? name (sinceClear calls) =
      if n = name then some elapsed else none)
    {running : Option String} (hr : running = pending? (sinceClear (calls ++ [c]))) :
    Tracks ({ p with running }.record n elapsed) (calls ++ [c]) where
  running := hr
  durations name := by
    rw [durations_record, measured_append, if_neg hc, hm, ← h.durations]
    split <;> simp [Profiler.durations]
  filled name := by
    simp only [Profiler.record, Table.find?_insert]
    split
    · simp
    · exact h.filled name
  nodup := Table.nodup_keys_insert h.nodup

/-- One call. -/
theorem call (h : p.Tracks calls) (c : ProfilerCall) : Tracks (p.call c) (calls ++ [c]) := by
  have hsince (hc : c ≠ .clear) : sinceClear (calls ++ [c]) = sinceClear calls ++ [c] := by
    rw [sinceClear_append, if_neg hc]
  have hidle (hm : ∀ name, c.measures? name (sinceClear calls) = none) (hc : c ≠ .clear)
      (name : String) : p.durations name = measured (calls ++ [c]) name := by
    rw [measured_append, if_neg hc, hm, h.durations]
    simp
  cases c with
  | record n elapsed =>
    refine h.record n elapsed (by simp) (fun _ => rfl) ?_
    rw [hsince (by simp), pending?_append, h.running]
  | start n =>
    refine ⟨?_, hidle (fun _ => rfl) (by simp), h.filled, h.nodup⟩
    rw [hsince (by simp), pending?_append]
    rfl
  | stop elapsed =>
    have hpending : none = pending? (sinceClear (calls ++ [.stop elapsed])) := by
      rw [hsince (by simp), pending?_append]
    unfold Profiler.call stop
    cases hp : p.running with
    | none =>
      refine ⟨hp.trans hpending, hidle (fun name => ?_) (by simp), h.filled, h.nodup⟩
      simp [measures?, ← h.running, hp]
    | some n =>
      refine h.record n elapsed (by simp) (fun name => ?_) hpending
      simp [measures?, ← h.running, hp]
  | clear =>
    have hclear : sinceClear (calls ++ [.clear]) = [] := by rw [sinceClear_append, if_pos rfl]
    refine ⟨?_, fun name => ?_, empty.filled, empty.nodup⟩
    · rw [hclear]
      rfl
    · rw [measured, hclear]
      rfl

theorem after (calls : List ProfilerCall) : Tracks (.after calls) calls := by
  induction calls using List.reverseRecOn with
  | nil => exact .empty
  | append_singleton calls c ih =>
    rw [after_append]
    exact ih.call c

end Tracks

/-! ## Answers -/

/-- What folding with a choice between two numbers picks from a list. -/
theorem foldl_picks {r : Nat → Nat → Prop} {pick : Nat → Nat → Nat} (hrefl : ∀ a, r a a)
    (htrans : ∀ {a b c}, r a b → r b c → r a c)
    (hpick : ∀ a b, (pick a b = a ∨ pick a b = b) ∧ r (pick a b) a ∧ r (pick a b) b)
    (d : Nat) (ds : List Nat) :
    ds.foldl pick d ∈ d :: ds ∧ ∀ x ∈ d :: ds, r (ds.foldl pick d) x := by
  induction ds generalizing d with
  | nil => exact ⟨List.mem_cons_self, by simp [hrefl]⟩
  | cons e ds ih =>
    obtain ⟨hmem, hall⟩ := ih (pick d e)
    obtain ⟨hone, hd, he⟩ := hpick d e
    have hfirst := hall _ List.mem_cons_self
    constructor
    · rcases List.mem_cons.1 hmem with h | h
      · rw [List.foldl_cons, h]
        rcases hone with h | h <;> simp [h]
      · exact List.mem_cons_of_mem _ (List.mem_cons_of_mem _ h)
    · simp only [List.forall_mem_cons] at hall ⊢
      exact ⟨htrans hfirst hd, htrans hfirst he, hall.2⟩

theorem foldl_min (d : Nat) (ds : List Nat) :
    ds.foldl Nat.min d ∈ d :: ds ∧ ∀ x ∈ d :: ds, ds.foldl Nat.min d ≤ x :=
  foldl_picks (r := (· ≤ ·)) Nat.le_refl Nat.le_trans
    (fun a b => ⟨by omega, Nat.min_le_left a b, Nat.min_le_right a b⟩) d ds

theorem foldl_max (d : Nat) (ds : List Nat) :
    ds.foldl Nat.max d ∈ d :: ds ∧ ∀ x ∈ d :: ds, x ≤ ds.foldl Nat.max d :=
  foldl_picks (r := (· ≥ ·)) Nat.le_refl (fun h h' => Nat.le_trans h' h)
    (fun a b => ⟨by omega, Nat.le_max_left a b, Nat.le_max_right a b⟩) d ds

/-- The statistics say how many durations there are, the least and the greatest, and their sum
divided by the count, as far as that fits the divisor. -/
structure Summarizes (s : ProfileStats) (ds : List Nat) : Prop where
  count : s.count = ds.length
  min_mem : s.min ∈ ds
  min_le : ∀ d ∈ ds, s.min ≤ d
  max_mem : s.max ∈ ds
  le_max : ∀ d ∈ ds, d ≤ s.max
  average : s.average = ds.sum / divisor ds.length

namespace Summarizes

variable {s s' : ProfileStats} {ds ds' : List Nat}

theorem perm (h : Summarizes s ds) (hp : ds.Perm ds') : Summarizes s ds' where
  count := h.count.trans hp.length_eq
  min_mem := hp.subset h.min_mem
  min_le d hd := h.min_le d (hp.symm.subset hd)
  max_mem := hp.subset h.max_mem
  le_max d hd := h.le_max d (hp.symm.subset hd)
  average := by rw [h.average, hp.sum_eq, hp.length_eq]

theorem unique (h : Summarizes s ds) (h' : Summarizes s' ds) : s = s' := by
  obtain ⟨count, min, max, average⟩ := s
  obtain ⟨count', min', max', average'⟩ := s'
  obtain rfl : count = count' := h.count.trans h'.count.symm
  obtain rfl : average = average' := h.average.trans h'.average.symm
  obtain rfl : min = min' := Nat.le_antisymm (h.min_le _ h'.min_mem) (h'.min_le _ h.min_mem)
  obtain rfl : max = max' := Nat.le_antisymm (h'.le_max _ h.max_mem) (h.le_max _ h'.max_mem)
  rfl

/-- The average lies between the extremes, and it is the sum divided by the count, rounded down. -/
theorem average_bounds (h : Summarizes s ds) (hcount : s.count < 2 ^ 32) :
    s.min ≤ s.average ∧ s.average ≤ s.max ∧ s.average * s.count ≤ ds.sum ∧
      ds.sum < (s.average + 1) * s.count := by
  have hpos : 0 < s.count := by
    rw [h.count]
    exact List.length_pos_of_mem h.min_mem
  have haverage : s.average = ds.sum / s.count := by
    rw [h.average, ← h.count, divisor, Nat.mod_eq_of_lt hcount]
  have hmin : s.min * s.count ≤ ds.sum := by
    have := List.card_nsmul_le_sum ds s.min h.min_le
    rwa [smul_eq_mul, Nat.mul_comm, ← h.count] at this
  have hmax : ds.sum ≤ s.count * s.max := by
    have := List.sum_le_card_nsmul ds s.max h.le_max
    rwa [smul_eq_mul, ← h.count] at this
  rw [haverage]
  refine ⟨?_, ?_, Nat.div_mul_le_self _ _, ?_⟩
  · exact (Nat.le_div_iff_mul_le hpos).2 hmin
  · exact Nat.div_le_of_le_mul hmax
  · rw [Nat.mul_comm]
    exact Nat.lt_mul_div_succ ds.sum hpos

end Summarizes

theorem query_of_nil (h : p.durations name = []) : p.query name = .ok ⟨0, 0, 0, 0⟩ := by
  rw [query, h]
  rfl

theorem query_of_overflow (h : durationBound ≤ (p.durations name).sum) :
    p.query name = .error .durationOverflow := by
  unfold query
  cases hd : p.durations name with
  | nil => simp [hd, durationBound] at h
  | cons d ds =>
    rw [hd] at h
    exact if_pos h

theorem query_of_zeroDivisor (hne : p.durations name ≠ [])
    (hsum : (p.durations name).sum < durationBound)
    (h : divisor (p.durations name).length = 0) : p.query name = .error .zeroDivisor := by
  unfold query
  cases hd : p.durations name with
  | nil => exact absurd hd hne
  | cons d ds =>
    rw [hd] at hsum h
    exact (if_neg (Nat.not_le.2 hsum)).trans (if_pos h)

theorem exists_query (hne : p.durations name ≠ []) (hsum : (p.durations name).sum < durationBound)
    (h : divisor (p.durations name).length ≠ 0) :
    ∃ s, p.query name = .ok s ∧ Summarizes s (p.durations name) := by
  unfold query
  cases hd : p.durations name with
  | nil => exact absurd hd hne
  | cons d ds =>
    rw [hd] at hsum h
    obtain ⟨hmin, hle⟩ := foldl_min d ds
    obtain ⟨hmax, hge⟩ := foldl_max d ds
    exact ⟨_, (if_neg (Nat.not_le.2 hsum)).trans (if_neg h), rfl, hmin, hle, hmax, hge, rfl⟩

/-- The order of the durations does not matter. -/
theorem query_of_perm {p' : Profiler} {name' : String}
    (h : (p.durations name).Perm (p'.durations name')) : p.query name = p'.query name' := by
  by_cases hne : p.durations name = []
  · rw [query_of_nil hne, query_of_nil (List.nil_perm.1 (hne ▸ h))]
  have hne' : p'.durations name' ≠ [] := fun h' => hne (List.perm_nil.1 (h' ▸ h))
  by_cases hsum : durationBound ≤ (p.durations name).sum
  · rw [query_of_overflow hsum, query_of_overflow (h.sum_eq ▸ hsum)]
  rw [Nat.not_le] at hsum
  by_cases hdiv : divisor (p.durations name).length = 0
  · rw [query_of_zeroDivisor hne hsum hdiv,
      query_of_zeroDivisor hne' (h.sum_eq ▸ hsum) (h.length_eq ▸ hdiv)]
  · obtain ⟨s, hs, hsums⟩ := exists_query hne hsum hdiv
    obtain ⟨s', hs', hsums'⟩ := exists_query hne' (h.sum_eq ▸ hsum) (h.length_eq ▸ hdiv)
    rw [hs, hs', (hsums.perm h).unique hsums']

theorem kernels_sorted (h : p.runs.keys.Nodup) : p.kernels.Pairwise (· < ·) := by
  have hle : p.kernels.Pairwise (· ≤ ·) := by
    have hsorted : (p.runs.keys.mergeSort fun a b => decide (a ≤ b)).Pairwise
        fun a b => decide (a ≤ b) = true :=
      List.pairwise_mergeSort (fun a b c => by simpa using le_trans)
        (fun a b => by simpa using le_total a b) _
    simpa [kernels] using hsorted
  have hnodup : p.kernels.Nodup := (List.mergeSort_perm _ _).nodup_iff.2 h
  exact (hle.and hnodup).imp fun h => lt_of_le_of_ne h.1 h.2

theorem Tracks.mem_kernels_iff (h : p.Tracks calls) :
    name ∈ p.kernels ↔ measured calls name ≠ [] := by
  rw [kernels, (List.mergeSort_perm _ _).mem_iff, Table.mem_keys_iff, ← h.durations]
  unfold Profiler.durations
  cases hf : p.runs.find? name with
  | none => simp
  | some ds =>
    have hds : ds ≠ [] := fun hds => h.filled name (hds ▸ hf)
    simp [hds]

/-- After every history
* a kernel has as many durations as were recorded for it and as stops came for a start of it, since
  the last clear; that is the count of its statistics, unless their sum is no duration, for which
  there is no answer, or the divisor is zero,
* the kernels listed are those with a count, by rising name,
* for a count of 32 bits the extremes are durations between which all others and the average lie,
  and the average is the sum divided by the count, rounded down,
* the same durations in another order, in whatever history, have the same answer. -/
theorem statistics_of_history (calls : List ProfilerCall) :
    let p := after calls
    let count name := recordsOf calls name + stopsOf calls name
    (∀ name, (measured calls name).length = count name ∧
      ((measured calls name).sum < durationBound → (count name = 0 ∨ count name % 2 ^ 32 ≠ 0) →
        ∃ s, p.query name = .ok s ∧ s.count = count name) ∧
      (durationBound ≤ (measured calls name).sum → p.query name = .error .durationOverflow)) ∧
    (p.kernels.Pairwise (· < ·) ∧ ∀ name, name ∈ p.kernels ↔ count name ≠ 0) ∧
    (∀ name, 0 < count name → count name < 2 ^ 32 → (measured calls name).sum < durationBound →
      ∃ s, p.query name = .ok s ∧ s.count = count name ∧
        s.min ∈ measured calls name ∧ s.max ∈ measured calls name ∧
        (∀ d ∈ measured calls name, s.min ≤ d ∧ d ≤ s.max) ∧
        s.min ≤ s.average ∧ s.average ≤ s.max ∧
        s.average * s.count ≤ (measured calls name).sum ∧
        (measured calls name).sum < (s.average + 1) * s.count) ∧
    ∀ calls' name name', (measured calls name).Perm (measured calls' name') →
      p.query name = (after calls').query name' := by
  intro p count
  have h : p.Tracks calls := Tracks.after calls
  have hlength (name : String) : (measured calls name).length = count name :=
    length_measured calls name
  have hnil (name : String) : measured calls name = [] ↔ count name = 0 := by
    rw [← hlength, List.length_eq_zero_iff]
  -- Where the sum is a duration and the divisor is not zero there are statistics.
  have hanswer {name : String} (hpos : count name ≠ 0)
      (hsum : (measured calls name).sum < durationBound) (hdiv : count name % 2 ^ 32 ≠ 0) :
      ∃ s, p.query name = .ok s ∧ Summarizes s (measured calls name) := by
    rw [← h.durations] at hsum ⊢
    refine exists_query ?_ hsum ?_
    · rw [h.durations]
      exact fun hn => hpos ((hnil name).1 hn)
    · rw [h.durations, hlength]
      exact hdiv
  refine ⟨?_, ⟨kernels_sorted h.nodup, ?_⟩, ?_, ?_⟩
  · intro name
    refine ⟨hlength name, ?_, ?_⟩
    · intro hsum hcount
      by_cases hzero : count name = 0
      · exact ⟨_, query_of_nil ((h.durations name).trans ((hnil name).2 hzero)), hzero.symm⟩
      · obtain ⟨s, hs, hsums⟩ := hanswer hzero hsum (hcount.resolve_left hzero)
        exact ⟨s, hs, hsums.count.trans (hlength name)⟩
    · intro hsum
      rw [← h.durations] at hsum
      exact query_of_overflow hsum
  · intro name
    rw [h.mem_kernels_iff, ne_eq, hnil]
  · intro name hpos hlt hsum
    obtain ⟨s, hs, hsums⟩ := hanswer (by omega) hsum (by rw [Nat.mod_eq_of_lt hlt]; omega)
    have hcount : s.count = count name := hsums.count.trans (hlength name)
    refine ⟨s, hs, hcount, hsums.min_mem, hsums.max_mem, ?_, hsums.average_bounds (hcount ▸ hlt)⟩
    intro d hd
    exact ⟨hsums.min_le d hd, hsums.le_max d hd⟩
  · intro calls' name name' hperm
    rw [← h.durations, ← (Tracks.after calls').durations] at hperm
    exact query_of_perm hperm

/-- A start is pending when the records are cleared, and one is dropped for the next: of three stops
one measures. -/
theorem statistics_of_history_dropped :
    let calls : List ProfilerCall := [.start "k", .clear, .stop 9, .record "k" 4, .start "m",
      .start "k", .record "k" 2, .stop 7, .stop 8]
    measured calls "k" = [4, 2, 7] ∧ measured calls "m" = [] ∧
      ∃ s, (after calls).query "k" = .ok s ∧ s.count = 3 ∧ s.average * 3 ≤ 13 ∧
        13 < (s.average + 1) * 3 := by
  intro calls
  obtain ⟨-, -, hstats, -⟩ := statistics_of_history calls
  obtain ⟨s, hs, hcount, -, -, -, -, -, hle, hlt⟩ :=
    hstats "k" (by decide) (by decide) (by decide)
  have h3 : s.count = 3 := hcount
  rw [h3] at hle hlt
  exact ⟨rfl, rfl, s, hs, h3, hle, hlt⟩

/-- A kernel of which nothing but empty durations were recorded, too often for the divisor. -/
theorem query_of_zeros {n : Nat} (hn : n ≠ 0) (hdiv : divisor n = 0) :
    (after (List.replicate n (.record name 0))).query name = .error .zeroDivisor := by
  have hzeros (m : Nat) : (after (List.replicate m (.record name 0))).durations name =
      List.replicate m 0 := by
    induction m with
    | zero => rfl
    | succ m ih =>
      rw [List.replicate_succ', after_append, call, durations_record, if_pos rfl, ih,
        List.replicate_succ']
  apply query_of_zeroDivisor
  · simp [hzeros, hn]
  · simp [hzeros, durationBound]
  · rw [hzeros, List.length_replicate, hdiv]

theorem recordsOf_replicate (n elapsed : Nat) :
    recordsOf (List.replicate n (.record name elapsed)) name = n := by
  have hsince : sinceClear (List.replicate n (.record name elapsed)) =
      List.replicate n (.record name elapsed) := by
    refine List.rtakeWhile_eq_self_iff.2 fun c hc => ?_
    rw [List.eq_of_mem_replicate hc]
    rfl
  rw [recordsOf, hsince, List.countP_replicate, if_pos (by simp [isRecordOf])]

/-- Two recorded durations whose sum is no duration have no count, and neither have `2 ^ 32`, by
which the average cannot be divided. -/
theorem count_unanswered :
    (let calls : List ProfilerCall :=
      [.record "k" (2 ^ 63 * 1000000000), .record "k" (2 ^ 63 * 1000000000)]
    recordsOf calls "k" + stopsOf calls "k" = 2 ∧
      ¬ ∃ s, (after calls).query "k" = .ok s ∧ s.count = 2) ∧
    recordsOf (List.replicate (2 ^ 32) (.record "k" 0)) "k" = 2 ^ 32 ∧
      ¬ ∃ s, (after (List.replicate (2 ^ 32) (.record "k" 0))).query "k" = .ok s := by
  refine ⟨?_, recordsOf_replicate _ _, ?_⟩
  · intro calls
    have hover : (after calls).query "k" = .error .durationOverflow := rfl
    refine ⟨rfl, ?_⟩
    rintro ⟨s, hs, -⟩
    rw [hover] at hs
    cases hs
  · rintro ⟨s, hs⟩
    rw [query_of_zeros (by decide) (by decide)] at hs
    cases hs

end Profiler

end FieldCompute
