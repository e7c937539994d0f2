import Mathlib.Data.List.Nodup
import Mathlib.Tactic

/-! An array of flags beside a table, one for each position. -/

namespace NanoRos

variable {α β σ : Type}

/-- Raise the flags at these positions. -/
def raise (flags : List Bool) (positions : List Nat) : List Bool :=
  positions.foldl (fun flags i => flags.set i true) flags

/-- The items whose flag is raised, each with its position. -/
def flagged (flags : List Bool) (items : List α) : List (α × Nat) :=
  items.zipIdx.filter fun item => flags.getD item.2 false

variable (flags : List Bool)

theorem raise_append (first second : List Nat) :
    raise flags (first ++ second) = raise (raise flags first) second :=
  List.foldl_append

@[simp] theorem length_raise (positions : List Nat) :
    (raise flags positions).length = flags.length := by
  induction positions generalizing flags with
  | nil => rfl
  | cons i positions ih =>
    rw [raise, List.foldl_cons, ← raise, ih, List.length_set]

theorem getD_set {i j : Nat} (inside : i < flags.length) :
    (flags.set j true).getD i false = (flags.getD i false || decide (i = j)) := by
  rw [List.getD_eq_getElem?_getD, List.getElem?_set, List.getD_eq_getElem?_getD]
  by_cases same : j = i
  · subst same
    simp [inside]
  · simp [same, Ne.symm same]

theorem getD_raise (positions : List Nat) {i : Nat} (inside : i < flags.length) :
    (raise flags positions).getD i false = (flags.getD i false || decide (i ∈ positions)) := by
  induction positions generalizing flags with
  | nil => simp [raise]
  | cons j positions ih =>
    rw [raise, List.foldl_cons, ← raise, ih _ (by rwa [List.length_set]), getD_set flags inside,
      Bool.or_assoc]
    simp

theorem foldl_set_if (p : α × Nat → Bool) (items : List (α × Nat)) (flags : List Bool) :
    items.foldl (fun flags item => if p item then flags.set item.2 true else flags) flags =
      raise flags ((items.filter p).map Prod.snd) := by
  rw [raise, List.foldl_map, List.foldl_filter]

theorem getD_lowered (n i : Nat) : (List.replicate n false).getD i false = false := by
  rw [List.getD_eq_getElem?_getD, List.getElem?_replicate]
  split <;> rfl

theorem count_raise (n : Nat) {positions : List Nat} (distinct : positions.Nodup)
    (inside : ∀ i ∈ positions, i < n) :
    (raise (List.replicate n false) positions).count true = positions.length := by
  induction positions using List.reverseRecOn with
  | nil => simp [raise, List.count_replicate]
  | append_singleton positions i ih =>
    have parts := List.nodup_append.mp distinct
    have new : i ∉ positions := by
      intro member
      exact parts.2.2 i member i List.mem_cons_self rfl
    have lower : (raise (List.replicate n false) positions).getD i false = false := by
      rw [getD_raise _ _ (by simpa using inside i (by simp)), getD_lowered]
      simp [new]
    have bound : i < (raise (List.replicate n false) positions).length := by
      simpa using inside i (by simp)
    rw [raise_append, List.length_append, List.length_singleton,
      ← ih parts.1 fun j member => inside j (List.mem_append_left _ member)]
    rw [List.getD_eq_getElem?_getD, List.getElem?_eq_getElem bound, Option.getD_some] at lower
    rw [raise, List.foldl_cons, List.foldl_nil, List.count_set bound, lower]
    simp

theorem filter_mem_of_sublist [DecidableEq β] (key : α → β) {part items : List α}
    (sub : part.Sublist items) (distinct : (items.map key).Nodup) :
    items.filter (fun a => decide (key a ∈ part.map key)) = part := by
  induction sub with
  | slnil => rfl
  | @cons part items a sub ih =>
    rw [List.map_cons, List.nodup_cons] at distinct
    have absent : key a ∉ part.map key := fun member =>
      distinct.1 ((sub.map key).subset member)
    rw [List.filter_cons_of_neg (by simpa using absent), ih distinct.2]
  | @cons_cons part items a sub ih =>
    rw [List.map_cons, List.nodup_cons] at distinct
    rw [List.filter_cons_of_pos (by simp)]
    congr 1
    refine Eq.trans (List.filter_congr ?_) (ih distinct.2)
    intro b member
    have other : key b ≠ key a := fun same =>
      distinct.1 (same ▸ List.mem_map_of_mem member)
    simp only [List.map_cons, List.mem_cons, other, false_or]

theorem flagged_raise {items : List α} {wanted : List (α × Nat)}
    (sub : wanted.Sublist items.zipIdx) {n : Nat} (room : items.length ≤ n) :
    flagged (raise (List.replicate n false) (wanted.map Prod.snd)) items = wanted := by
  have distinct : (items.zipIdx.map Prod.snd).Nodup := by
    rw [List.zipIdx_map_snd]
    exact List.nodup_range'
  refine Eq.trans ?_ (filter_mem_of_sublist Prod.snd sub distinct)
  apply List.filter_congr
  intro item member
  have below := (List.mem_zipIdx member).2.1
  rw [getD_raise _ _ (by rw [List.length_replicate]; omega), getD_lowered, Bool.false_or]

theorem eq_of_position {items : List α} {first second : α × Nat} (left : first ∈ items.zipIdx)
    (right : second ∈ items.zipIdx) (same : first.2 = second.2) : first = second := by
  have here := List.mem_zipIdx_iff_getElem?.mp left
  have there := List.mem_zipIdx_iff_getElem?.mp right
  rw [same, there] at here
  exact Prod.ext (Option.some.inj here).symm same

theorem eq_of_key (key : α → β) {items : List α} (distinct : (items.map key).Nodup)
    {first second : α × Nat} (left : first ∈ items.zipIdx) (right : second ∈ items.zipIdx)
    (same : key first.1 = key second.1) : first = second := by
  rcases List.getElem?_eq_some_iff.mp (List.mem_zipIdx_iff_getElem?.mp left) with ⟨low, here⟩
  rcases List.getElem?_eq_some_iff.mp (List.mem_zipIdx_iff_getElem?.mp right) with ⟨high, there⟩
  rw [← List.length_map key] at low high
  have keys : (items.map key)[first.2] = (items.map key)[second.2] := by
    rw [List.getElem_map, List.getElem_map, here, there, same]
  exact eq_of_position left right ((List.getElem_inj distinct).mp keys)

theorem mem_positions_iff {items : List α} {item : α × Nat} (member : item ∈ items.zipIdx)
    (p : α × Nat → Bool) : item.2 ∈ (items.zipIdx.filter p).map Prod.snd ↔ p item = true := by
  constructor
  · intro listed
    rcases List.mem_map.mp listed with ⟨other, kept, same⟩
    rcases List.mem_filter.mp kept with ⟨there, passes⟩
    rwa [eq_of_position there member same] at passes
  · intro passes
    exact List.mem_map_of_mem (List.mem_filter.mpr ⟨member, passes⟩)

theorem flagged_map (items : List α) (f : α × Nat → β) :
    flagged flags (items.zipIdx.map f) =
      (flagged flags items).map fun item => (f item, item.2) := by
  have twice : (items.zipIdx.map f).zipIdx = items.zipIdx.map fun item => (f item, item.2) := by
    apply List.ext_getElem?
    intro i
    simp only [List.getElem?_zipIdx, List.getElem?_map, Option.map_map, Nat.zero_add]
    rfl
  rw [flagged, twice, List.filter_map, flagged]
  rfl

/-- The items that a question with a state says yes to, asked in order. -/
def consult (ask : σ → α → Bool × σ) : List α → σ → List α × σ
  | [], s => ([], s)
  | a :: items, s =>
    let answer := ask s a
    let rest := consult ask items answer.2
    (if answer.1 then a :: rest.1 else rest.1, rest.2)

theorem consult_sublist (ask : σ → α → Bool × σ) (items : List α) (s : σ) :
    (consult ask items s).1.Sublist items := by
  induction items generalizing s with
  | nil => exact List.Sublist.slnil
  | cons a items ih =>
    rw [consult]
    dsimp only
    split
    · exact (ih _).cons_cons a
    · exact (ih _).cons a

theorem consult_map (ask : σ → β → Bool × σ) (f : α → β) (items : List α) (s : σ) :
    consult ask (items.map f) s = ((consult (fun s a => ask s (f a)) items s).1.map f,
        (consult (fun s a => ask s (f a)) items s).2) := by
  induction items generalizing s with
  | nil => rfl
  | cons a items ih =>
    rw [List.map_cons, consult, consult, ih]
    dsimp only
    split <;> rfl

theorem foldl_consult (ask : σ → α → Bool × σ) (items : List (α × Nat)) (flags : List Bool)
    (any : Bool) (s : σ) :
    items.foldl (fun (acc : List Bool × Bool × σ) item =>
        let answer := ask acc.2.2 item.1
        if answer.1 then (acc.1.set item.2 true, true, answer.2) else (acc.1, acc.2.1, answer.2))
      (flags, any, s) =
    (raise flags ((consult (fun s item => ask s item.1) items s).1.map Prod.snd),
      any || !(consult (fun s item => ask s item.1) items s).1.isEmpty,
      (consult (fun s item => ask s item.1) items s).2) := by
  induction items generalizing flags any s with
  | nil => simp [consult, raise]
  | cons item items ih =>
    rw [List.foldl_cons, consult]
    dsimp only
    cases answer : ask s item.1 with
    | mk yes s' =>
      cases yes with
      | true =>
        simp only [if_true]
        rw [ih]
        simp [raise]
      | false =>
        simp only [Bool.false_eq_true, if_false]
        rw [ih]

end NanoRos
