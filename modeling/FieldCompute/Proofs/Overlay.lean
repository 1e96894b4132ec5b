import FieldCompute.Config
import FieldCompute.Proofs.Table
/-!
# Settings of threads

Threads read and change their settings in an overlay, in any order and with their locked sections
interleaved (`OverlayRun`). Asking for one's settings takes two sections if there are none yet: a
look that finds nothing, and later the copy of what the main thread has by then. What took effect,
in order, tells every thread's settings: those of the main thread when the copy was made, and then
the thread's own changes (`OverlayRun.settings_of_threads`).
-/

namespace FieldCompute

/-- What a thread asks of an overlay. -/
inductive OverlayCall where
  | thisThread
  | update (change : Config → Config)
  | mainConfig
  | configOf (thread : Thread)
  | numThreads

inductive OverlayAnswer where
  | config (c : Config)
  | config? (c : Option Config)
  | count (n : Nat)

namespace OverlayCall

/-- Only these calls give the thread settings. -/
def claims : OverlayCall → Bool
  | thisThread | update _ => true
  | _ => false

/-- What a call does to the settings of the thread that makes it. -/
def change : OverlayCall → Config → Config
  | update f => f
  | _ => id

theorem change_of_not_claims {call : OverlayCall} (h : call.claims = false) (c : Config) :
    call.change c = c := by
  cases call with
  | update f => cases h
  | _ => rfl

end OverlayCall

/-- The settings `c` after the changes that the thread itself made to them. -/
def changedBy (t : Thread) (calls : List (Thread × OverlayCall)) (c : Config) : Config :=
  calls.foldl (fun c e => if e.1 = t then e.2.change c else c) c

namespace Overlay

/-- A call by a thread, with its answer. To a change the settings before it are given. -/
def call (o : Overlay) (t : Thread) : OverlayCall → OverlayAnswer × Overlay
  | .thisThread => (.config (o.thisThread t).1, (o.thisThread t).2)
  | .update f => (.config (o.update t f).1, (o.update t f).2)
  | .mainConfig => (.config o.mainConfig, o)
  | .configOf u => (.config? (o.configOf? u), o)
  | .numThreads => (.count o.numThreads, o)

/-- An overlay after calls by several threads. -/
def after (o : Overlay) (calls : List (Thread × OverlayCall)) : Overlay :=
  calls.foldl (fun o e => (o.call e.1 e.2).2) o

variable {o : Overlay} {t u : Thread} {c : Config} {calls : List (Thread × OverlayCall)}

theorem configOf?_create (t : Thread) (c : Config) (u : Thread) :
    (create t c).configOf? u = if u = t then some c else none := by
  rw [create, configOf?, Table.find?_insert, Table.find?_empty]

theorem thisThread_of_some (h : o.configOf? t = some c) : o.thisThread t = (c, o) := by
  rw [thisThread, h]

theorem thisThread_fst (o : Overlay) (t : Thread) :
    (o.thisThread t).1 = (o.configOf? t).getD o.mainConfig := by
  unfold thisThread
  cases o.configOf? t <;> rfl

theorem configOf?_thisThread (o : Overlay) (t u : Thread) :
    (o.thisThread t).2.configOf? u =
      if u = t then some ((o.configOf? t).getD o.mainConfig) else o.configOf? u := by
  cases h : o.configOf? t with
  | some c =>
    rw [thisThread_of_some h]
    split
    · rename_i hu
      rw [hu, h, Option.getD_some]
    · rfl
  | none =>
    rw [thisThread, h]
    exact Table.find?_insert ..

theorem configOf?_update (o : Overlay) (t : Thread) (f : Config → Config) (u : Thread) :
    (o.update t f).2.configOf? u =
      if u = t then some (f ((o.configOf? t).getD o.mainConfig)) else o.configOf? u := by
  have h := configOf?_thisThread o t u
  rw [update, configOf?, Table.find?_insert, thisThread_fst]
  split
  · rfl
  · rename_i hu
    rwa [if_neg hu] at h

/-- A call changes at most the settings of the thread that makes it. -/
theorem configOf?_call (o : Overlay) (t : Thread) (call : OverlayCall) (u : Thread) :
    (o.call t call).2.configOf? u =
      if u = t ∧ call.claims then some (call.change ((o.configOf? t).getD o.mainConfig))
      else o.configOf? u := by
  cases call with
  | thisThread =>
    simpa [Overlay.call, OverlayCall.claims, OverlayCall.change] using configOf?_thisThread o t u
  | update f =>
    simpa [Overlay.call, OverlayCall.claims, OverlayCall.change] using configOf?_update o t f u
  | mainConfig | configOf | numThreads => simp [Overlay.call, OverlayCall.claims]

theorem main_call (o : Overlay) (t : Thread) (call : OverlayCall) :
    (o.call t call).2.main = o.main := by
  have h : (o.thisThread t).2.main = o.main := by
    unfold thisThread
    cases o.configOf? t <;> rfl
  cases call with
  | thisThread => exact h
  | update f => exact h
  | mainConfig | configOf | numThreads => rfl

theorem nodup_keys_call (h : o.configs.keys.Nodup) (t : Thread) (call : OverlayCall) :
    (o.call t call).2.configs.keys.Nodup := by
  have hthis : (o.thisThread t).2.configs.keys.Nodup := by
    unfold thisThread
    cases o.configOf? t with
    | some c => exact h
    | none => exact Table.nodup_keys_insert h
  cases call with
  | thisThread => exact hthis
  | update f => exact Table.nodup_keys_insert hthis
  | mainConfig | configOf | numThreads => exact h

/-! ## Calls one after the other -/

theorem main_after (o : Overlay) (calls : List (Thread × OverlayCall)) :
    (o.after calls).main = o.main := by
  induction calls generalizing o with
  | nil => rfl
  | cons e calls ih => exact (ih _).trans (main_call o e.1 e.2)

theorem nodup_keys_after (h : o.configs.keys.Nodup) (calls : List (Thread × OverlayCall)) :
    (o.after calls).configs.keys.Nodup := by
  induction calls generalizing o with
  | nil => exact h
  | cons e calls ih => exact ih (nodup_keys_call h e.1 e.2)

/-- Whoever has settings keeps them, but for the changes made by that thread. -/
theorem configOf?_after (h : o.configOf? t = some c) (calls : List (Thread × OverlayCall)) :
    (o.after calls).configOf? t = some (changedBy t calls c) := by
  induction calls generalizing o c with
  | nil => exact h
  | cons e calls ih =>
    refine ih ?_
    rw [configOf?_call]
    by_cases ht : e.1 = t
    · subst ht
      rw [h]
      cases hc : e.2.claims <;> simp [OverlayCall.change_of_not_claims, hc]
    · simpa [ht, Ne.symm ht] using h

/-- Whoever has no settings gets them by a call that claims them. -/
theorem configOf?_after_of_not_claims (h : o.configOf? t = none)
    (hc : ∀ e ∈ calls, e.1 = t → e.2.claims = false) : (o.after calls).configOf? t = none := by
  induction calls generalizing o with
  | nil => exact h
  | cons e calls ih =>
    refine ih ?_ fun e' he' => hc e' (List.mem_cons_of_mem _ he')
    rw [configOf?_call, if_neg, h]
    rintro ⟨rfl, hcl⟩
    rw [hc e List.mem_cons_self rfl] at hcl
    cases hcl

theorem after_append (o : Overlay) (before later : List (Thread × OverlayCall)) :
    o.after (before ++ later) = (o.after before).after later := List.foldl_append

/-- The main thread has settings from the start. -/
theorem configOf?_main_after (main : Thread) (c : Config) (calls : List (Thread × OverlayCall)) :
    ((create main c).after calls).configOf? main = some (changedBy main calls c) :=
  configOf?_after ((configOf?_create main c main).trans (if_pos rfl)) calls

theorem mainConfig_after (main : Thread) (c : Config) (calls : List (Thread × OverlayCall)) :
    ((create main c).after calls).mainConfig = changedBy main calls c := by
  rw [mainConfig, main_after]
  exact congrArg (·.getD {}) (configOf?_main_after main c calls)

end Overlay

/-! ## Interleaved sections -/

/-- An overlay among threads. Those that wait asked for their settings, found none, and have not
made the copy yet. -/
structure OverlayUse where
  overlay : Overlay
  waiting : List Thread

/-- What a new overlay comes to among its threads, with the calls in the order in which they took
effect. A thread that waits does nothing else before it has its copy. -/
inductive OverlayRun (main : Thread) (c : Config) :
    OverlayUse → List (Thread × OverlayCall) → Prop
  | start : OverlayRun main c ⟨.create main c, []⟩ []
  | found {u : OverlayUse} {calls} (t : Thread) : OverlayRun main c u calls → t ∉ u.waiting →
    u.overlay.configOf? t ≠ none → OverlayRun main c u (calls ++ [(t, .thisThread)])
  | missed {u : OverlayUse} {calls} (t : Thread) : OverlayRun main c u calls → t ∉ u.waiting →
    u.overlay.configOf? t = none → OverlayRun main c ⟨u.overlay, t :: u.waiting⟩ calls
  | copied {u : OverlayUse} {calls} (t : Thread) : OverlayRun main c u calls → t ∈ u.waiting →
    OverlayRun main c ⟨(u.overlay.thisThread t).2, u.waiting.erase t⟩
      (calls ++ [(t, .thisThread)])
  | call {u : OverlayUse} {calls} (t : Thread) (call : OverlayCall) : OverlayRun main c u calls →
    t ∉ u.waiting → call ≠ .thisThread →
    OverlayRun main c ⟨(u.overlay.call t call).2, u.waiting⟩ (calls ++ [(t, call)])

namespace OverlayRun

variable {main : Thread} {c : Config} {u : OverlayUse} {calls : List (Thread × OverlayCall)}

/-- However the sections interleave, the overlay is what the calls leave one after the other. -/
theorem overlay_eq (r : OverlayRun main c u calls) :
    u.overlay = (Overlay.create main c).after calls := by
  induction r with
  | start => rfl
  | found t _ _ hf ih =>
    obtain ⟨s, hs⟩ := Option.ne_none_iff_exists'.1 hf
    rw [Overlay.after_append, ← ih]
    exact congrArg Prod.snd (Overlay.thisThread_of_some hs).symm
  | missed t _ _ _ ih => exact ih
  | copied t _ _ ih => rw [Overlay.after_append, ← ih]; rfl
  | call t call _ _ _ ih => rw [Overlay.after_append, ← ih]; rfl

/-- Nobody else gives settings to a thread that waits. -/
theorem configOf?_waiting (r : OverlayRun main c u calls) :
    u.waiting.Nodup ∧ ∀ t ∈ u.waiting, u.overlay.configOf? t = none := by
  induction r with
  | start => exact ⟨.nil, fun _ h => (by cases h)⟩
  | found t _ _ _ ih => exact ih
  | missed t _ hw hn ih =>
    refine ⟨List.nodup_cons.2 ⟨hw, ih.1⟩, fun s hs => ?_⟩
    rcases List.mem_cons.1 hs with rfl | hs
    · exact hn
    · exact ih.2 s hs
  | copied t _ _ ih =>
    refine ⟨ih.1.erase t, fun s hs => ?_⟩
    obtain ⟨hne, hs⟩ := ih.1.mem_erase_iff.1 hs
    rw [Overlay.configOf?_thisThread, if_neg hne]
    exact ih.2 s hs
  | call t call _ hw _ ih =>
    refine ⟨ih.1, fun s hs => ?_⟩
    have hne : s ≠ t := fun h => hw (h ▸ hs)
    rw [Overlay.configOf?_call, if_neg fun h => hne h.1]
    exact ih.2 s hs

/-- However threads read and change their settings, the main thread has the first ones with its own
changes. Another thread has none until it asks for them or changes them; from then on it has those
that the main thread had at that moment, with its own changes in order. No call concerns the
settings of another thread, only those two calls give settings to anybody, and the count is of those
who have some. -/
theorem settings_of_threads (r : OverlayRun main c u calls) :
    u.overlay.configOf? main = some (changedBy main calls c) ∧
    u.overlay.mainConfig = changedBy main calls c ∧
    (∀ t, t ≠ main → (∀ e ∈ calls, e.1 = t → e.2.claims = false) →
      u.overlay.configOf? t = none) ∧
    (∀ t before call later, t ≠ main → calls = before ++ (t, call) :: later →
      (∀ e ∈ before, e.1 = t → e.2.claims = false) → call.claims = true →
      u.overlay.configOf? t =
        some (changedBy t ((t, call) :: later) (changedBy main before c))) ∧
    (∀ t ∈ u.waiting, u.overlay.configOf? t = none) ∧
    (∀ t call, call.claims = true → (u.overlay.call t call).1 =
      .config ((u.overlay.configOf? t).getD (changedBy main calls c))) ∧
    (∀ t call s, s ≠ t → (u.overlay.call t call).2.configOf? s = u.overlay.configOf? s) ∧
    (∀ t call, call.claims = false → (u.overlay.call t call).2 = u.overlay) ∧
    (∃ ts : List Thread, ts.Nodup ∧ (∀ t, t ∈ ts ↔ u.overlay.configOf? t ≠ none) ∧
      u.overlay.numThreads = ts.length) := by
  have hmain : u.overlay.mainConfig = changedBy main calls c := by
    rw [r.overlay_eq, Overlay.mainConfig_after]
  refine ⟨?_, hmain, ?_, ?_, r.configOf?_waiting.2, ?_, ?_, ?_, u.overlay.configs.keys, ?_, ?_, ?_⟩
  · rw [r.overlay_eq, Overlay.configOf?_main_after]
  · intro t ht hc
    rw [r.overlay_eq]
    exact Overlay.configOf?_after_of_not_claims (by simp [Overlay.configOf?_create, ht]) hc
  · intro t before call later ht hcalls hc hcl
    have hbefore : ((Overlay.create main c).after before).configOf? t = none :=
      Overlay.configOf?_after_of_not_claims (by simp [Overlay.configOf?_create, ht]) hc
    rw [r.overlay_eq, hcalls, Overlay.after_append]
    -- The call copies what the main thread has after the calls before it.
    rw [changedBy, List.foldl_cons, if_pos rfl]
    refine Overlay.configOf?_after ?_ later
    rw [Overlay.configOf?_call, if_pos ⟨rfl, hcl⟩, hbefore, Option.getD_none,
      Overlay.mainConfig_after]
  · intro t call hcl
    rw [← hmain, ← Overlay.thisThread_fst]
    cases call with
    | thisThread | update => rfl
    | mainConfig | configOf | numThreads => cases hcl
  · intro t call s hs
    rw [Overlay.configOf?_call, if_neg fun h => hs h.1]
  · intro t call hcl
    cases call with
    | thisThread | update => cases hcl
    | mainConfig | configOf | numThreads => rfl
  · rw [r.overlay_eq]
    have hone : (Overlay.create main c).configs.keys.Nodup := List.nodup_singleton main
    exact Overlay.nodup_keys_after hone calls
  · intro t
    rw [Table.mem_keys_iff, Option.ne_none_iff_exists']
    rfl
  · exact (List.length_map _).symm

/-- A thread that looks before the main thread's first change and copies after it has that change,
and not the second one. -/
theorem settings_of_threads_late_copy : ∃ u calls, OverlayRun 0 {} u calls ∧
    calls.map (·.1) = [0, 1, 0] ∧
    u.overlay.configOf? 0 = some { debug := true, cpuBlockDim := 64 } ∧
    u.overlay.configOf? 1 = some { debug := true } := by
  let debugged (c : Config) : Config := { c with debug := true }
  let widened (c : Config) : Config := { c with cpuBlockDim := 64 }
  have looked : OverlayRun 0 {} ⟨.create 0 {}, [1]⟩ [] := .missed 1 .start (by decide) rfl
  have copied : OverlayRun 0 {} _ _ :=
    .copied 1 (.call 0 (.update debugged) looked (by decide) (by simp)) (by decide)
  have r : OverlayRun 0 {} _ _ := .call 0 (.update widened) copied (by decide) (by simp)
  obtain ⟨hmain, -, -, hcopy, -⟩ := r.settings_of_threads
  exact ⟨_, _, r, rfl, hmain,
    hcopy 1 [(0, .update debugged)] .thisThread [(0, .update widened)] (by decide) rfl
      (by simp) rfl⟩

end OverlayRun

end FieldCompute
