import Mathlib.Data.List.Basic
import Mathlib.Tactic

/-! Runs of a system that takes one event at a time and refuses the events it cannot take. -/

namespace NanoRos

variable {σ ε : Type}

def run (step : σ → ε → Option σ) : σ → List ε → Option σ
  | s, [] => some s
  | s, e :: events => step s e >>= fun next => run step next events

theorem run_append (step : σ → ε → Option σ) (s : σ) (first second : List ε) :
    run step s (first ++ second) = run step s first >>= fun next => run step next second := by
  induction first generalizing s with
  | nil => rfl
  | cons e first ih =>
    rw [List.cons_append, run, run]
    cases step s e with
    | none => rfl
    | some next => exact ih next

theorem run_concat (step : σ → ε → Option σ) (s : σ) (events : List ε) (e : ε) :
    run step s (events ++ [e]) = run step s events >>= fun last => step last e := by
  rw [run_append]
  congr
  funext last
  exact bind_pure (step last e)

/-- Every step the run takes meets the condition in the state before it. -/
def Along (step : σ → ε → Option σ) (cond : σ → ε → Prop) : σ → List ε → Prop
  | _, [] => True
  | s, e :: events => cond s e ∧ ∀ next, step s e = some next → Along step cond next events

variable {step : σ → ε → Option σ} {cond : σ → ε → Prop} {inv : σ → Prop}

theorem along_cons_iff (s next : σ) (e : ε) (events : List ε) (stepped : step s e = some next) :
    Along step cond s (e :: events) ↔ cond s e ∧ Along step cond next events := by
  constructor
  · intro all
    exact ⟨all.1, all.2 next stepped⟩
  · intro all
    refine ⟨all.1, fun other again => ?_⟩
    rw [stepped] at again
    cases again
    exact all.2

instance decidableAlong [∀ s e, Decidable (cond s e)] :
    ∀ s events, Decidable (Along step cond s events)
  | _, [] => isTrue trivial
  | s, e :: events =>
    match stepped : step s e with
    | none => decidable_of_iff (cond s e) (by simp [Along, stepped])
    | some next =>
      have := decidableAlong next events
      decidable_of_iff (cond s e ∧ Along step cond next events)
        (along_cons_iff s next e events stepped).symm

theorem run_invariant (keeps : ∀ s e next, inv s → step s e = some next → inv next)
    (s last : σ) (events : List ε) (start : inv s) (reached : run step s events = some last) :
    inv last := by
  induction events generalizing s with
  | nil =>
    cases reached
    exact start
  | cons e events ih =>
    rcases Option.bind_eq_some_iff.mp reached with ⟨next, stepped, rest⟩
    exact ih next (keeps s e next start stepped) rest

theorem run_invariant_along (keeps : ∀ s e next, inv s → cond s e → step s e = some next → inv next)
    (s last : σ) (events : List ε) (start : inv s) (met : Along step cond s events)
    (reached : run step s events = some last) : inv last := by
  induction events generalizing s with
  | nil =>
    cases reached
    exact start
  | cons e events ih =>
    rcases Option.bind_eq_some_iff.mp reached with ⟨next, stepped, rest⟩
    exact ih next (keeps s e next start met.1 stepped) (met.2 next stepped) rest

variable {events : List ε} {s : σ}

theorem along_of_always (always : ∀ e ∈ events, ∀ s, cond s e) (s : σ) :
    Along step cond s events := by
  induction events generalizing s with
  | nil => trivial
  | cons e events ih =>
    refine ⟨always e List.mem_cons_self s, ?_⟩
    intro next _
    exact ih (fun later member => always later (List.mem_cons_of_mem _ member)) next

theorem along_of_invariant (keeps : ∀ e ∈ events, ∀ s next, inv s → step s e = some next → inv next)
    (meets : ∀ e ∈ events, ∀ s, inv s → cond s e) (s : σ) (start : inv s) :
    Along step cond s events := by
  induction events generalizing s with
  | nil => trivial
  | cons e events ih =>
    refine ⟨meets e List.mem_cons_self s start, fun next stepped => ?_⟩
    apply ih
    · exact fun later member => keeps later (List.mem_cons_of_mem _ member)
    · exact fun later member => meets later (List.mem_cons_of_mem _ member)
    · exact keeps e List.mem_cons_self s next start stepped

theorem along_of_invariant_along {other : σ → ε → Prop}
    (keeps : ∀ s e next, inv s → cond s e → step s e = some next → inv next)
    (meets : ∀ s e, inv s → cond s e → other s e) (s : σ) (start : inv s)
    (met : Along step cond s events) : Along step other s events := by
  induction events generalizing s with
  | nil => trivial
  | cons e events ih =>
    refine ⟨meets s e start met.1, ?_⟩
    intro next stepped
    exact ih next (keeps s e next start met.1 stepped) (met.2 next stepped)

theorem along_append {first second : List ε} (before : Along step cond s first)
    (after : ∀ mid, Along step cond mid second) : Along step cond s (first ++ second) := by
  induction first generalizing s with
  | nil => exact after s
  | cons e first ih => exact ⟨before.1, fun next stepped => ih (before.2 next stepped)⟩

theorem along_left {first second : List ε} (met : Along step cond s (first ++ second)) :
    Along step cond s first := by
  induction first generalizing s with
  | nil => trivial
  | cons e first ih => exact ⟨met.1, fun next stepped => ih (met.2 next stepped)⟩

theorem along_at {before after : List ε} {e : ε} (met : Along step cond s (before ++ e :: after))
    (mid : σ) (reached : run step s before = some mid) : cond mid e := by
  induction before generalizing s with
  | nil =>
    cases reached
    exact met.1
  | cons e' before ih =>
    rcases Option.bind_eq_some_iff.mp reached with ⟨next, stepped, rest⟩
    exact ih (met.2 next stepped) rest

theorem along_and {other : σ → ε → Prop} (left : Along step cond s events)
    (right : Along step other s events) :
    Along step (fun s e => cond s e ∧ other s e) s events := by
  induction events generalizing s with
  | nil => trivial
  | cons e events ih =>
    refine ⟨⟨left.1, right.1⟩, ?_⟩
    intro next stepped
    exact ih (left.2 next stepped) (right.2 next stepped)

/-- In runs that keep to `given`, and under an invariant that clean steps keep, a lasting fault is
there at the end exactly when some step failed the condition. -/
theorem run_sound_iff_of {given : σ → ε → Prop} {fault : σ → Prop} (clean : ∀ s, inv s → ¬ fault s)
    (keeps : ∀ s e next, inv s → given s e → cond s e → step s e = some next → inv next)
    (breaks : ∀ s e next, inv s → given s e → ¬ cond s e → step s e = some next → fault next)
    (lasts : ∀ s e next, fault s → step s e = some next → fault next)
    (s last : σ) (events : List ε) (start : inv s) (within : Along step given s events)
    (reached : run step s events = some last) : ¬ fault last ↔ Along step cond s events := by
  induction events generalizing s with
  | nil =>
    cases reached
    exact ⟨fun _ => trivial, fun _ => clean _ start⟩
  | cons e events ih =>
    rcases Option.bind_eq_some_iff.mp reached with ⟨next, stepped, rest⟩
    by_cases met : cond s e
    · have onward := ih next (keeps s e next start within.1 met stepped)
        (within.2 next stepped) rest
      rw [onward, along_cons_iff s next e events stepped, and_iff_right met]
    · have faulty := run_invariant lasts next last events
        (breaks s e next start within.1 met stepped) rest
      exact ⟨fun sound => absurd faulty sound, fun all => absurd all.1 met⟩

theorem run_sound_iff {fault : σ → Prop} (clean : ∀ s, inv s → ¬ fault s)
    (keeps : ∀ s e next, inv s → cond s e → step s e = some next → inv next)
    (breaks : ∀ s e next, inv s → ¬ cond s e → step s e = some next → fault next)
    (lasts : ∀ s e next, fault s → step s e = some next → fault next)
    (s last : σ) (events : List ε) (start : inv s) (reached : run step s events = some last) :
    ¬ fault last ↔ Along step cond s events :=
  run_sound_iff_of clean (fun s e next holds _ => keeps s e next holds)
    (fun s e next holds _ => breaks s e next holds) lasts s last events start
    (@along_of_always _ _ step (fun _ _ => True) events (fun _ _ _ => trivial) s) reached

/-- Where a step keeps a state good exactly if it meets the condition, every state the run passes
is good exactly if every step does. -/
theorem run_throughout_iff {good : σ → Prop}
    (keeps : ∀ s e next, inv s → step s e = some next → inv next)
    (decides : ∀ s e next, inv s → good s → step s e = some next → (good next ↔ cond s e))
    (s last : σ) (events : List ε) (start : inv s) (fine : good s)
    (reached : run step s events = some last) :
    (∀ before, before <+: events → ∀ mid, run step s before = some mid → good mid) ↔
      Along step cond s events := by
  induction events generalizing s with
  | nil =>
    refine ⟨fun _ => trivial, fun _ before first mid passed => ?_⟩
    rw [List.prefix_nil.mp first] at passed
    cases passed
    exact fine
  | cons e events ih =>
    rcases Option.bind_eq_some_iff.mp reached with ⟨next, stepped, rest⟩
    have here := decides s e next start fine stepped
    have onward := ih next (keeps s e next start stepped)
    rw [along_cons_iff s next e events stepped]
    constructor
    · intro all
      have fine' : good next := by
        apply all [e] (List.cons_prefix_cons.mpr ⟨rfl, List.nil_prefix⟩) next
        rw [run, stepped]
        rfl
      refine ⟨here.mp fine', (onward fine' rest).mp ?_⟩
      intro before first mid passed
      apply all (e :: before) (List.cons_prefix_cons.mpr ⟨rfl, first⟩) mid
      rw [run, stepped]
      exact passed
    · intro met before first mid passed
      cases before with
      | nil =>
        cases passed
        exact fine
      | cons e' before =>
        rcases List.cons_prefix_cons.mp first with ⟨rfl, first'⟩
        rw [run, stepped] at passed
        exact (onward (here.mpr met.1) rest).mpr met.2 before first' mid passed

end NanoRos
