import Mathlib.Data.List.Basic
import Mathlib.Tactic

/-! Cutting a stretch of positions into the fewest segments that each have a score: a table over the
positions to cut at, and the cuts read back from it. -/

namespace NanoRos.Segments

/-- Segments `(top, bottom)` one after another, from `start` up to `stop`. -/
def Consecutive : Nat → List (Nat × Nat) → Nat → Prop
  | start, [], stop => start = stop
  | start, (top, bottom) :: rest, stop =>
    top = start ∧ top ≤ bottom ∧ Consecutive (bottom + 1) rest stop

/-- The best known of a position: how many segments lead to it, their score, where the last one
starts. -/
structure Cell (S : Type) where
  count : Nat
  score : S
  prev : Nat

/-- How scores are combined and compared. -/
structure Scoring (S : Type) where
  start : S
  worse : S → S → S
  better : S → S → Bool

section Program

variable {S : Type} (scoring : Scoring S) (score : Nat → Nat → Option S)

/-- The candidate for the position `e` whose last segment starts at `s`. -/
def candidate (best : List (Option (Cell S))) (e s : Nat) : Option (Cell S) :=
  match best[s]?.join with
  | none => none
  | some cell =>
    (score s (e - 1)).map fun band => ⟨cell.count + 1, scoring.worse cell.score band, s⟩

/-- A candidate is taken for fewer segments, or for as many and a better score. -/
def choose (held cand : Option (Cell S)) : Option (Cell S) :=
  match cand with
  | none => held
  | some c =>
    match held with
    | none => some c
    | some h =>
      if c.count < h.count || (c.count == h.count && scoring.better c.score h.score) then some c
      else some h

/-- Choosing among the candidates in turn. -/
def chooseAll (best : List (Option (Cell S))) (e : Nat) (starts : List Nat)
    (held : Option (Cell S)) : Option (Cell S) :=
  starts.foldl (fun held s => choose scoring held (candidate scoring score best e s)) held

def cellOf (best : List (Option (Cell S))) (e : Nat) : Option (Cell S) :=
  chooseAll scoring score best e (List.range e) none

def table : Nat → List (Option (Cell S))
  | 0 => [some ⟨0, scoring.start, 0⟩]
  | e + 1 => table e ++ [cellOf scoring score (table e) (e + 1)]

/-- The cuts from the last one back, put in front of those found before. -/
def walkBack (best : List (Option (Cell S))) :
    Nat → Nat → List (Nat × Nat) → Option (List (Nat × Nat))
  | _, 0, found => some found
  | 0, _ + 1, _ => none
  | fuel + 1, e + 1, found =>
    match best[e + 1]?.join with
    | none => none
    | some cell => walkBack best fuel cell.prev ((cell.prev, e) :: found)

def fewest (n : Nat) : Option (List (Nat × Nat)) :=
  match (table scoring score n)[n]?.join with
  | none => none
  | some _ => walkBack (table scoring score n) n n []

end Program

/-- Consecutive segments up to `n` that each have a score. -/
def Feasible {S : Type} (score : Nat → Nat → Option S) (segs : List (Nat × Nat)) (n : Nat) : Prop :=
  Consecutive 0 segs n ∧ ∀ seg ∈ segs, (score seg.1 seg.2).isSome

variable {start stop : Nat} {segs : List (Nat × Nat)}

theorem consecutive_snoc {s b : Nat} :
    Consecutive start (segs ++ [(s, b)]) stop ↔
      Consecutive start segs s ∧ s ≤ b ∧ b + 1 = stop := by
  induction segs generalizing start with
  | nil => simp only [List.nil_append, Consecutive, eq_comm]
  | cons seg segs ih =>
    obtain ⟨top, bottom⟩ := seg
    simp only [List.cons_append, Consecutive, ih, and_assoc]

section

variable (consecutive : Consecutive start segs stop)
include consecutive

theorem Consecutive.covers {k : Nat} (from_ : start ≤ k) (before : k < stop) :
    ∃ seg ∈ segs, seg.1 ≤ k ∧ k ≤ seg.2 := by
  induction segs generalizing start with
  | nil =>
    cases consecutive
    omega
  | cons seg segs ih =>
    obtain ⟨top, bottom⟩ := seg
    obtain ⟨same, ordered, rest⟩ := consecutive
    by_cases inside : k ≤ bottom
    · exact ⟨_, .head _, by omega, inside⟩
    · obtain ⟨found, listed, within⟩ := ih rest (by omega)
      exact ⟨found, .tail _ listed, within⟩

theorem Consecutive.within :
    ∀ seg ∈ segs, start ≤ seg.1 ∧ seg.1 ≤ seg.2 ∧ seg.2 < stop := by
  induction segs generalizing start with
  | nil =>
    intro seg listed
    cases listed
  | cons seg segs ih =>
    obtain ⟨top, bottom⟩ := seg
    obtain ⟨same, ordered, rest⟩ := consecutive
    have reached : bottom + 1 ≤ stop := by
      cases segs with
      | nil => exact le_of_eq rest
      | cons next _ =>
        obtain ⟨below, inside, above⟩ := ih rest next (.head _)
        omega
    intro other listed
    obtain rfl | later := List.mem_cons.mp listed
    · exact ⟨by omega, ordered, by omega⟩
    · obtain ⟨below, inside, above⟩ := ih rest other later
      exact ⟨by omega, inside, above⟩

theorem Consecutive.tops_pairwise :
    segs.Pairwise fun a b => a.1 < b.1 := by
  induction segs generalizing start with
  | nil => exact .nil
  | cons seg segs ih =>
    obtain ⟨top, bottom⟩ := seg
    obtain ⟨same, ordered, rest⟩ := consecutive
    refine .cons (fun other later => ?_) (ih rest)
    obtain ⟨below, _⟩ := rest.within other later
    exact Nat.lt_of_lt_of_le (Nat.lt_succ_of_le ordered) below

end

section Choice

variable {S : Type} {scoring : Scoring S} {score : Nat → Nat → Option S}

theorem feasible_nil : Feasible score [] 0 := ⟨rfl, fun _ listed => by cases listed⟩

theorem feasible_snoc {s e : Nat} {segs : List (Nat × Nat)} :
    Feasible score (segs ++ [(s, e)]) (e + 1) ↔
      Feasible score segs s ∧ s ≤ e ∧ (score s e).isSome := by
  simp only [Feasible, consecutive_snoc, List.forall_mem_append, List.forall_mem_singleton]
  tauto

variable {held : Option (Cell S)} {starts : List Nat}

theorem choose_source {cand : Option (Cell S)} {c : Cell S}
    (chosen : choose scoring held cand = some c) : held = some c ∨ cand = some c := by
  rw [choose.eq_def] at chosen
  cases cand with
  | none => exact .inl chosen
  | some d =>
    cases held with
    | none => exact .inr chosen
    | some h =>
      simp only at chosen
      split at chosen
      · exact .inr chosen
      · exact .inl chosen

theorem choose_held {h : Cell S} (cand : Option (Cell S)) :
    ∃ m, choose scoring (some h) cand = some m ∧ m.count ≤ h.count := by
  rw [choose.eq_def]
  cases cand with
  | none => exact ⟨h, rfl, le_rfl⟩
  | some d =>
    simp only
    split
    case isTrue fewer =>
      simp only [Bool.or_eq_true, decide_eq_true_eq, Bool.and_eq_true, beq_iff_eq] at fewer
      exact ⟨d, rfl, by omega⟩
    case isFalse => exact ⟨h, rfl, le_rfl⟩

theorem choose_cand {d : Cell S} (held : Option (Cell S)) :
    ∃ m, choose scoring held (some d) = some m ∧ m.count ≤ d.count := by
  rw [choose.eq_def]
  cases held with
  | none => exact ⟨d, rfl, le_rfl⟩
  | some h =>
    simp only
    split
    case isTrue => exact ⟨d, rfl, le_rfl⟩
    case isFalse kept =>
      simp only [Bool.or_eq_true, decide_eq_true_eq, not_or] at kept
      exact ⟨h, rfl, by omega⟩

variable {best : List (Option (Cell S))} {e : Nat}

theorem chooseAll_source {c : Cell S}
    (chosen : chooseAll scoring score best e starts held = some c) :
    held = some c ∨ ∃ s ∈ starts, candidate scoring score best e s = some c := by
  induction starts generalizing held with
  | nil => exact .inl chosen
  | cons s starts ih =>
    obtain same | ⟨s', listed, found⟩ := ih chosen
    · exact (choose_source same).imp_right fun found => ⟨s, .head _, found⟩
    · exact .inr ⟨s', .tail _ listed, found⟩

theorem chooseAll_held {h : Cell S} :
    ∃ c, chooseAll scoring score best e starts (some h) = some c ∧ c.count ≤ h.count := by
  induction starts generalizing h with
  | nil => exact ⟨h, rfl, le_rfl⟩
  | cons s starts ih =>
    obtain ⟨m, chosen, under⟩ :=
      @choose_held _ scoring h (candidate scoring score best e s)
    obtain ⟨c, found, least⟩ := ih (h := m)
    refine ⟨c, ?_, least.trans under⟩
    rw [← found, ← chosen]
    rfl

theorem chooseAll_cand {s : Nat} {d : Cell S} (listed : s ∈ starts)
    (found : candidate scoring score best e s = some d) :
    ∃ c, chooseAll scoring score best e starts held = some c ∧ c.count ≤ d.count := by
  induction starts generalizing held with
  | nil => cases listed
  | cons s' starts ih =>
    obtain rfl | later := List.mem_cons.mp listed
    · obtain ⟨m, chosen, under⟩ := @choose_cand _ scoring d held
      obtain ⟨c, whole, least⟩ := @chooseAll_held _ scoring score starts best e m
      refine ⟨c, ?_, least.trans under⟩
      rw [← whole, ← chosen, ← found]
      rfl
    · exact ih later

end Choice

section Table

variable {S : Type} {scoring : Scoring S} {score : Nat → Nat → Option S}

/-- The cell of a position, once it is filled. -/
def best (scoring : Scoring S) (score : Nat → Nat → Option S) (e : Nat) : Option (Cell S) :=
  (table scoring score e)[e]?.join

theorem length_table (n : Nat) : (table scoring score n).length = n + 1 := by
  induction n with
  | zero => rfl
  | succ n ih => rw [table, List.length_append, ih, List.length_singleton]

variable {n e : Nat} {c : Cell S} {segs : List (Nat × Nat)}

theorem table_join (filled : e ≤ n) : (table scoring score n)[e]?.join = best scoring score e := by
  induction n with
  | zero => rw [Nat.le_zero.mp filled, best]
  | succ n ih =>
    obtain rfl | earlier := Nat.eq_or_lt_of_le filled
    · rw [best]
    · rw [← ih (Nat.le_of_lt_succ earlier), table, List.getElem?_append_left]
      rw [length_table]
      exact earlier

theorem best_zero : best scoring score 0 = some ⟨0, scoring.start, 0⟩ := rfl

theorem best_succ (e : Nat) :
    best scoring score (e + 1) = cellOf scoring score (table scoring score e) (e + 1) := by
  rw [best, table, ← @length_table _ scoring score e, List.getElem?_concat_length, length_table]
  rfl

theorem candidate_eq_some {s : Nat} (before : s ≤ e) :
    candidate scoring score (table scoring score e) (e + 1) s = some c ↔
      ∃ cell band, best scoring score s = some cell ∧ score s e = some band ∧
        c = ⟨cell.count + 1, scoring.worse cell.score band, s⟩ := by
  rw [candidate, table_join before]
  cases best scoring score s with
  | none => simp
  | some cell => simp [eq_comm]

theorem best_source (found : best scoring score (e + 1) = some c) :
    c.prev ≤ e ∧ (score c.prev e).isSome ∧
      ∃ cell, best scoring score c.prev = some cell ∧ c.count = cell.count + 1 := by
  rw [best_succ, cellOf] at found
  obtain nothing | ⟨s, listed, made⟩ := chooseAll_source found
  · cases nothing
  · have before : s ≤ e := Nat.le_of_lt_succ (List.mem_range.mp listed)
    obtain ⟨cell, band, earlier, scored, rfl⟩ := (candidate_eq_some before).mp made
    exact ⟨before, by rw [scored, Option.isSome_some], cell, earlier, rfl⟩

theorem best_le (feasible : Feasible score segs n) :
    ∃ c, best scoring score n = some c ∧ c.count ≤ segs.length := by
  induction segs using List.reverseRecOn generalizing n with
  | nil =>
    obtain ⟨reached, _⟩ := feasible
    cases reached
    exact ⟨_, best_zero, le_rfl⟩
  | append_singleton segs seg ih =>
    obtain ⟨s, e⟩ := seg
    obtain rfl : e + 1 = n := (consecutive_snoc.mp feasible.1).2.2
    obtain ⟨before, ordered, scored⟩ := feasible_snoc.mp feasible
    obtain ⟨cell, earlier, least⟩ := ih before
    obtain ⟨band, scored⟩ := Option.isSome_iff_exists.mp scored
    have made := (@candidate_eq_some _ scoring _ _ _ _ ordered).mpr
      ⟨cell, band, earlier, scored, rfl⟩
    obtain ⟨c, found, under⟩ := @chooseAll_cand _ _ _ none _ _ _ _ _
      (List.mem_range.mpr (Nat.lt_succ_of_le ordered)) made
    refine ⟨c, (best_succ e).trans found, ?_⟩
    rw [List.length_append, List.length_singleton]
    exact under.trans (Nat.succ_le_succ least)

theorem walkBack_eq {fuel : Nat} {found : List (Nat × Nat)} (filled : e ≤ n) (enough : e ≤ fuel)
    (held : best scoring score e = some c) :
    ∃ segs, walkBack (table scoring score n) fuel e found = some (segs ++ found) ∧
      Feasible score segs e ∧ segs.length = c.count := by
  induction fuel generalizing e c found with
  | zero =>
    obtain rfl := Nat.le_zero.mp enough
    cases held
    exact ⟨[], rfl, feasible_nil, rfl⟩
  | succ fuel ih =>
    cases e with
    | zero =>
      cases held
      exact ⟨[], rfl, feasible_nil, rfl⟩
    | succ e =>
      obtain ⟨before, scored, cell, earlier, counts⟩ := best_source held
      obtain ⟨segs, walked, feasible, length⟩ :=
        @ih _ _ ((c.prev, e) :: found) (before.trans (Nat.le_of_succ_le filled))
          (before.trans (Nat.le_of_succ_le_succ enough)) earlier
      refine ⟨segs ++ [(c.prev, e)], ?_, feasible_snoc.mpr ⟨feasible, before, scored⟩, ?_⟩
      · rw [walkBack, table_join filled, held, List.append_assoc]
        exact walked
      · rw [List.length_append, length, counts, List.length_singleton]

theorem fewest_sound (returned : fewest scoring score n = some segs) :
    Feasible score segs n ∧ ∀ others, Feasible score others n → segs.length ≤ others.length := by
  rw [fewest, table_join le_rfl] at returned
  cases held : best scoring score n with
  | none =>
    rw [held] at returned
    cases returned
  | some c =>
    obtain ⟨found, walked, feasible, length⟩ := @walkBack_eq _ _ _ _ _ _ _ [] le_rfl le_rfl held
    simp only [held, walked, List.append_nil, Option.some.injEq] at returned
    subst returned
    refine ⟨feasible, fun others possible => ?_⟩
    obtain ⟨d, same, under⟩ := @best_le _ scoring _ _ _ possible
    cases held.symm.trans same
    rwa [length]

theorem fewest_complete (feasible : Feasible score segs n) : (fewest scoring score n).isSome := by
  obtain ⟨c, held, _⟩ := @best_le _ scoring _ _ _ feasible
  obtain ⟨found, walked, _⟩ := @walkBack_eq _ _ _ _ _ _ _ [] le_rfl le_rfl held
  simp only [fewest, table_join le_rfl, held, walked, Option.isSome_some]

end Table

end NanoRos.Segments
