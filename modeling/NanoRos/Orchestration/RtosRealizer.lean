import Mathlib.Data.List.Dedup
import Mathlib.Order.Bounds.Basic
import NanoRos.Orchestration.PriorityPlan

/-! The realizer of a ranked plan: the rank of each node, the priority it is allocated out of the
board's pool, and what could not be kept of the ranking. -/

namespace NanoRos

structure RankedItem where
  node : String
  fineGroup : Nat

/-- Each fine group's rank, by first appearance, and the next rank. -/
def groupRanks (items : List RankedItem) : Std.TreeMap Nat Nat × Nat :=
  items.foldl (fun made it =>
    match made.1[it.fineGroup]? with
    | some _ => made
    | none => (made.1.insert it.fineGroup made.2, made.2 + 1)) (∅, 0)

/-- A node takes the best rank of its items. -/
def foldNodeRanks (rank : RankedItem → Nat) (items : List RankedItem) : Std.TreeMap String Nat :=
  items.foldl (fun ranks it =>
    ranks.alter it.node fun
      | some cur => some (if rank it < cur then rank it else cur)
      | none => some (rank it)) ∅

def denseNodeRanks (items : List RankedItem) : Std.TreeMap String Nat × Nat :=
  (foldNodeRanks (fun it => ((groupRanks items).1[it.fineGroup]?).getD 0) items,
    max (groupRanks items).2 1)

inductive Allocation where
  | exact (priority : Int)
  | compressed (priority : Int)
  | refused
  deriving DecidableEq

def rankToPriority (rank : Nat) (plan : PriorityPlan) : Allocation :=
  match plan.nthAppPriority rank with
  | some p => .exact p
  | none =>
    match plan.leastUrgentAppPriority with
    | some p => .compressed p
    | none => .refused

structure SchedCaps where
  edf : Bool
  reservation : Bool

/-- What the input says of a node, in microseconds. -/
structure NodeFacts where
  deadlineUs : Option Nat
  budgetUs : Option Nat
  periodUs : Option Nat
  blockingUs : Option Nat

inductive DimRealization where
  | native
  | backfill
  | degrade
  | notRequested
  deriving DecidableEq

inductive RealizedClass where
  | edf
  | sporadic
  | fifo
  deriving DecidableEq

structure RealizedNode where
  name : String
  priority : Int
  schedClass : RealizedClass
  periodUs : Option Nat
  deadlineUs : Option Nat
  budgetUs : Option Nat
  core : Option Nat
  blockingUs : Option Nat
  deadlineReal : DimRealization
  budgetReal : DimRealization
  placementReal : DimRealization
  deriving DecidableEq

inductive Dim where
  | priority
  | deadline
  | feasibility
  | utilization
  | placement
  deriving DecidableEq

structure Degradation where
  node : String
  dim : Dim
  deriving DecidableEq

structure RtosPlan where
  nodes : List RealizedNode
  degradations : List Degradation

/-- What the checks over the whole plan come to. They are computed in floating point. -/
structure SystemChecks where
  overloaded : Bool
  unpackable : Bool
  core : Nat → Option Nat

def SystemChecks.degradations (checks : SystemChecks) : List Degradation :=
  (if checks.overloaded then [⟨"<system>", .utilization⟩] else []) ++
    if checks.unpackable then [⟨"<system>", .placement⟩] else []

def RealizedNode.placed (n : RealizedNode) : Option Nat → RealizedNode
  | none => n
  | some core => { n with core := some core, placementReal := .native }

section Realize

variable (facts : String → Option NodeFacts) (caps : SchedCaps) (plan : PriorityPlan)

/-- The priority of a rank, and whether its allocation is a degradation. -/
def allocate (name : String) (rank : Nat) : Option Int × List Degradation :=
  match rankToPriority rank plan with
  | .exact p => (some p, [])
  | .compressed p => (some p, [⟨name, .priority⟩])
  | .refused => (none, [⟨name, .priority⟩])

def realizeDims (name : String) (priority : Int) : RealizedNode × List Degradation :=
  let deadlineUs := (facts name).bind NodeFacts.deadlineUs
  let budgetUs := (facts name).bind NodeFacts.budgetUs
  let blockingUs := (facts name).bind NodeFacts.blockingUs
  let deadlineReal : DimRealization :=
    if deadlineUs.isNone then .notRequested else if caps.edf then .native else .degrade
  let budgetReal : DimRealization :=
    if budgetUs.isNone then .notRequested else if caps.reservation then .native else .backfill
  let schedClass : RealizedClass :=
    if budgetUs.isSome then .sporadic else if deadlineReal = .native then .edf else .fifo
  let infeasible :=
    match budgetUs, deadlineUs with
    | some c, some d => decide (d < min (c + blockingUs.getD 0) (2 ^ 64 - 1))
    | _, _ => false
  (⟨name, priority, schedClass, (facts name).bind NodeFacts.periodUs, deadlineUs, budgetUs, none,
      blockingUs, deadlineReal, budgetReal, .notRequested⟩,
    (if deadlineReal = .degrade then [⟨name, .deadline⟩] else []) ++
      if infeasible then [⟨name, .feasibility⟩] else [])

/-- One turn of the loop over the ranked nodes. -/
def realizeEntry (entry : String × Nat) : List RealizedNode × List Degradation :=
  match allocate plan entry.1 entry.2 with
  | (none, degraded) => ([], degraded)
  | (some priority, degraded) =>
    let made := realizeDims facts caps entry.1 priority
    ([made.1], degraded ++ made.2)

def realizeRtos (checks : List RealizedNode → SystemChecks) (items : List RankedItem) :
    RtosPlan :=
  let made := (denseNodeRanks items).1.toList.map (realizeEntry facts caps plan)
  let nodes := (made.flatMap Prod.fst).mergeSort fun a b => decide (a.name ≤ b.name)
  ⟨nodes.mapIdx fun i n => n.placed ((checks nodes).core i),
    made.flatMap Prod.snd ++ (checks nodes).degradations⟩

end Realize

/-! Ranks -/

/-- The fine groups in the order they first appear in. -/
def fineGroups (items : List RankedItem) : List Nat := (items.map RankedItem.fineGroup).eraseDups

theorem eraseDups_concat (gs : List Nat) (g : Nat) :
    (gs ++ [g]).eraseDups = if g ∈ gs then gs.eraseDups else gs.eraseDups ++ [g] := by
  rw [List.eraseDups_append]
  by_cases seen : g ∈ gs
  · simp [List.removeAll, seen]
  · simp [List.removeAll, seen, List.eraseDups_cons]

theorem fineGroups_concat (items : List RankedItem) (it : RankedItem) :
    fineGroups (items ++ [it]) =
      if it.fineGroup ∈ fineGroups items then fineGroups items
      else fineGroups items ++ [it.fineGroup] := by
  rw [fineGroups, List.map_append, List.map_singleton, eraseDups_concat, fineGroups]
  simp only [List.mem_eraseDups]

theorem groupRanks_spec (items : List RankedItem) :
    (groupRanks items).2 = (fineGroups items).length ∧ ∀ g, (groupRanks items).1[g]? =
        if g ∈ fineGroups items then some ((fineGroups items).idxOf g) else none := by
  induction items using List.reverseRecOn with
  | nil => exact ⟨rfl, fun g => by simp [groupRanks, fineGroups]⟩
  | append_singleton items it ih =>
    rw [groupRanks, List.foldl_append, ← groupRanks, List.foldl_cons, List.foldl_nil,
      fineGroups_concat, ih.2]
    by_cases seen : it.fineGroup ∈ fineGroups items
    · rw [if_pos seen, if_pos seen]
      exact ih
    · rw [if_neg seen, if_neg seen]
      refine ⟨by simp [ih.1], fun g => ?_⟩
      simp only [Std.TreeMap.getElem?_insert, Std.LawfulEqCmp.compare_eq_iff_eq, ih.2]
      by_cases same : it.fineGroup = g
      · subst same
        simp [seen, ih.1, List.idxOf_append_of_notMem]
      · by_cases old : g ∈ fineGroups items
        · simp [same, old, List.idxOf_append_of_mem]
        · simp [same, old, Ne.symm same]

def ranksOf (rank : RankedItem → Nat) (items : List RankedItem) (name : String) : Set Nat :=
  {k | ∃ it ∈ items, it.node = name ∧ rank it = k}

theorem ranksOf_concat (rank : RankedItem → Nat) (items : List RankedItem) (it : RankedItem)
    (name : String) : ranksOf rank (items ++ [it]) name =
      if it.node = name then insert (rank it) (ranksOf rank items name)
      else ranksOf rank items name := by
  ext k
  split
  case isTrue same =>
    simp only [ranksOf, List.mem_append, List.mem_singleton, Set.mem_ofPred_eq, Set.mem_insert_iff]
    constructor
    · rintro ⟨other, before | rfl, named, value⟩
      · exact .inr ⟨other, before, named, value⟩
      · exact .inl value.symm
    · rintro (rfl | ⟨other, before, named, value⟩)
      · exact ⟨it, .inr rfl, same, rfl⟩
      · exact ⟨other, .inl before, named, value⟩
  case isFalse differs =>
    simp only [ranksOf, List.mem_append, List.mem_singleton, Set.mem_ofPred_eq]
    constructor
    · rintro ⟨other, before | rfl, named, value⟩
      · exact ⟨other, before, named, value⟩
      · exact absurd named differs
    · rintro ⟨other, before, named, value⟩
      exact ⟨other, .inl before, named, value⟩

theorem foldNodeRanks_spec (rank : RankedItem → Nat) (items : List RankedItem) (name : String) :
    ((foldNodeRanks rank items)[name]? = none → ranksOf rank items name = ∅) ∧
      ∀ r, (foldNodeRanks rank items)[name]? = some r → IsLeast (ranksOf rank items name) r := by
  induction items using List.reverseRecOn with
  | nil => simp [foldNodeRanks, ranksOf]
  | append_singleton items it ih =>
    rw [foldNodeRanks, List.foldl_append, ← foldNodeRanks, List.foldl_cons, List.foldl_nil,
      Std.TreeMap.getElem?_alter, ranksOf_concat]
    simp only [Std.LawfulEqCmp.compare_eq_iff_eq]
    split
    case isTrue same =>
      subst same
      cases found : (foldNodeRanks rank items)[it.node]? with
      | none =>
        refine ⟨by simp, fun r same => ?_⟩
        cases same
        rw [ih.1 found, insert_empty_eq]
        exact isLeast_singleton
      | some cur =>
        refine ⟨by simp, fun r same => ?_⟩
        have value : min (rank it) cur = r := by
          have chosen : (if rank it < cur then rank it else cur) = r := Option.some.inj same
          split at chosen <;> omega
        rw [← value]
        exact (ih.2 cur found).insert _
    case isFalse => exact ih

/-- The rank the realizer gives a node. -/
def nodeRank (items : List RankedItem) (name : String) : Option Nat :=
  (denseNodeRanks items).1[name]?

theorem rank_of_item {items : List RankedItem} {it : RankedItem} (member : it ∈ items) :
    ((groupRanks items).1[it.fineGroup]?).getD 0 = (fineGroups items).idxOf it.fineGroup := by
  have known : it.fineGroup ∈ fineGroups items :=
    List.mem_eraseDups.mpr (List.mem_map_of_mem member)
  rw [(groupRanks_spec items).2, if_pos known]
  rfl

theorem nodeRank_none_iff (items : List RankedItem) (name : String) :
    nodeRank items name = none ↔ ∀ it ∈ items, it.node ≠ name := by
  constructor
  · intro absent it member named
    have empty := (foldNodeRanks_spec _ items name).1 absent
    exact (Set.eq_empty_iff_forall_notMem.mp empty _) ⟨it, member, named, rfl⟩
  · intro none_
    cases found : nodeRank items name with
    | none => rfl
    | some r =>
      rcases ((foldNodeRanks_spec _ items name).2 r found).1 with ⟨it, member, named, _⟩
      exact absurd named (none_ it member)

theorem nodeRank_lt_iff {items : List RankedItem} {name : String} {r : Nat}
    (ranked : nodeRank items name = some r) (width : Nat) :
    r < width ↔ ∃ it ∈ items, it.node = name ∧ it.fineGroup ∈ (fineGroups items).take width := by
  have least := (foldNodeRanks_spec _ items name).2 r ranked
  have early : ∀ it ∈ items, (((groupRanks items).1[it.fineGroup]?).getD 0 < width ↔
      it.fineGroup ∈ (fineGroups items).take width) := by
    intro it member
    rw [rank_of_item member, List.mem_take_iff_idxOf_lt]
    exact List.mem_eraseDups.mpr (List.mem_map_of_mem member)
  constructor
  · intro below
    rcases least.1 with ⟨it, member, named, rfl⟩
    exact ⟨it, member, named, (early it member).mp below⟩
  · rintro ⟨it, member, named, first⟩
    exact lt_of_le_of_lt (least.2 ⟨it, member, named, rfl⟩) ((early it member).mpr first)

/-! The plan -/

section Plan

variable (facts : String → Option NodeFacts) (caps : SchedCaps) (plan : PriorityPlan)
  (checks : List RealizedNode → SystemChecks) (items : List RankedItem)

/-- The priority the realizer takes for a rank. -/
def Allocation.priority : Allocation → Option Int
  | .exact p => some p
  | .compressed p => some p
  | .refused => none

theorem allocate_fst (name : String) (rank : Nat) :
    (allocate plan name rank).1 = (rankToPriority rank plan).priority := by
  rw [allocate]
  split <;> simp [*, Allocation.priority]

theorem realizeEntry_fst (entry : String × Nat) : (realizeEntry facts caps plan entry).1 =
      ((rankToPriority entry.2 plan).priority.map fun p =>
        (realizeDims facts caps entry.1 p).1).toList := by
  rw [← allocate_fst plan entry.1 entry.2, realizeEntry]
  split <;> simp [*]

theorem mem_ranks_iff (entry : String × Nat) :
    entry ∈ (denseNodeRanks items).1.toList ↔ nodeRank items entry.1 = some entry.2 :=
  Std.TreeMap.mem_toList_iff_getElem?_eq_some

theorem nodes_perm :
    ((realizeRtos facts caps plan checks items).nodes.map fun n => (n.name, n.priority)).Perm
      ((denseNodeRanks items).1.toList.filterMap fun entry =>
        (rankToPriority entry.2 plan).priority.map fun p => (entry.1, p)) := by
  have placed : ∀ (n : RealizedNode) core,
      ((n.placed core).name, (n.placed core).priority) = (n.name, n.priority) := by
    intro n core
    cases core <;> rfl
  have unsorted := (List.mergeSort_perm (((denseNodeRanks items).1.toList.map
    (realizeEntry facts caps plan)).flatMap Prod.fst)
    (fun a b => decide (a.name ≤ b.name))).map fun n => (n.name, n.priority)
  refine List.Perm.trans (List.Perm.of_eq ?_) (unsorted.trans (List.Perm.of_eq ?_))
  · apply List.ext_getElem
    · simp [realizeRtos]
    · intro i _ _
      simp only [realizeRtos, List.getElem_map, List.getElem_mapIdx, placed]
  · rw [List.map_flatMap, List.flatMap_map, List.filterMap_eq_flatMap_toList]
    congr
    funext entry
    rw [realizeEntry_fst]
    cases (rankToPriority entry.2 plan).priority <;> rfl

theorem mem_nodes_iff (name : String) (p : Int) :
    (∃ n ∈ (realizeRtos facts caps plan checks items).nodes, n.name = name ∧ n.priority = p) ↔
      ∃ r, nodeRank items name = some r ∧ (rankToPriority r plan).priority = some p := by
  have same := (nodes_perm facts caps plan checks items).mem_iff (a := (name, p))
  simp only [List.mem_map, Prod.mk.injEq, List.mem_filterMap, Option.map_eq_some_iff] at same
  rw [same]
  constructor
  · rintro ⟨entry, member, q, given, rfl, rfl⟩
    exact ⟨entry.2, (mem_ranks_iff items entry).mp member, given⟩
  · rintro ⟨r, ranked, given⟩
    exact ⟨(name, r), (mem_ranks_iff items (name, r)).mpr ranked, p, given, rfl, rfl⟩

theorem names_nodup :
    ((realizeRtos facts caps plan checks items).nodes.map RealizedNode.name).Nodup := by
  have names := (nodes_perm facts caps plan checks items).map Prod.fst
  rw [List.map_map] at names
  refine names.nodup_iff.mpr (List.Pairwise.map _ (fun _ _ differs => differs) ?_)
  apply (Std.TreeMap.distinct_keys_toList (t := (denseNodeRanks items).1)).filterMap
  intro entry other differs first given second given'
  rcases Option.map_eq_some_iff.mp given with ⟨_, _, rfl⟩
  rcases Option.map_eq_some_iff.mp given' with ⟨_, _, rfl⟩
  exact fun same => differs (Std.LawfulEqCmp.compare_eq_iff_eq.mpr same)

theorem eq_of_mem_ite {α : Type} {c : Prop} [Decidable c] {x y : α}
    (member : y ∈ if c then [x] else []) : y = x := by
  split at member
  · exact List.mem_singleton.mp member
  · cases member

theorem SystemChecks.dim_ne_priority (found : SystemChecks) :
    ∀ d ∈ found.degradations, d.dim ≠ .priority := by
  intro d member
  rcases List.mem_append.mp member with load | packing
  · simp [eq_of_mem_ite load]
  · simp [eq_of_mem_ite packing]

theorem realizeDims_dim_ne_priority (name : String) (p : Int) :
    ∀ d ∈ (realizeDims facts caps name p).2, d.dim ≠ .priority := by
  intro d member
  rcases List.mem_append.mp member with deadline | feasibility
  · simp [eq_of_mem_ite deadline]
  · simp [eq_of_mem_ite feasibility]

theorem realizeEntry_degraded_iff (entry : String × Nat) :
    (∃ d ∈ (realizeEntry facts caps plan entry).2, d.dim = .priority) ↔
      plan.app.width ≤ entry.2 := by
  rw [← plan.nthAppPriority_none_iff, realizeEntry, allocate, rankToPriority]
  cases place : plan.nthAppPriority entry.2 with
  | some p =>
    constructor
    · rintro ⟨d, member, order⟩
      exact absurd order (realizeDims_dim_ne_priority facts caps entry.1 p d member)
    · intro none_
      cases none_
  | none =>
    refine ⟨fun _ => rfl, fun _ => ?_⟩
    cases plan.leastUrgentAppPriority with
    | some p | none => exact ⟨⟨entry.1, .priority⟩, List.mem_cons_self, rfl⟩

theorem priority_degraded_iff :
    (∃ d ∈ (realizeRtos facts caps plan checks items).degradations, d.dim = .priority) ↔
      ∃ name r, nodeRank items name = some r ∧ plan.app.width ≤ r := by
  constructor
  · rintro ⟨d, member, order⟩
    rcases List.mem_append.mp member with made | late
    · rcases List.mem_flatMap.mp made with ⟨result, from_, inside⟩
      rcases List.mem_map.mp from_ with ⟨entry, ranked, rfl⟩
      exact ⟨entry.1, entry.2, (mem_ranks_iff items entry).mp ranked,
        (realizeEntry_degraded_iff facts caps plan entry).mp ⟨d, inside, order⟩⟩
    · exact absurd order ((checks _).dim_ne_priority d late)
  · rintro ⟨name, r, ranked, narrow⟩
    rcases (realizeEntry_degraded_iff facts caps plan (name, r)).mpr narrow with
      ⟨d, inside, order⟩
    refine ⟨d, List.mem_append_left _ (List.mem_flatMap.mpr ⟨_, List.mem_map_of_mem ?_, inside⟩),
      order⟩
    exact (mem_ranks_iff items (name, r)).mpr ranked

end Plan

theorem priority_of_rank {plan : PriorityPlan} (pool : plan.app.width ≠ 0) (rank : Nat) :
    ∃ p, (rankToPriority rank plan).priority = some p ∧ plan.app.contains p = true := by
  rw [rankToPriority]
  cases place : plan.nthAppPriority rank with
  | some p => exact ⟨p, rfl, PriorityPlan.contains_of_nthAppPriority place⟩
  | none =>
    cases last : plan.leastUrgentAppPriority with
    | some p => exact ⟨p, rfl, PriorityPlan.contains_of_leastUrgentAppPriority last⟩
    | none =>
      rw [PriorityPlan.leastUrgentAppPriority, if_neg pool] at last
      split at last <;> cases last

theorem leastUrgent_le {plan : PriorityPlan} {p q : Int}
    (last : plan.leastUrgentAppPriority = some q) (inPool : plan.app.contains p = true) :
    ¬ plan.direction.MoreUrgent q p := by
  have bounds := (Band.contains_iff _ p).mp inPool
  rw [PriorityPlan.leastUrgentAppPriority] at last
  split at last
  case isTrue => cases last
  case isFalse =>
    split at last
    case h_1 towards =>
      cases last
      rw [towards]
      simp only [Direction.MoreUrgent]
      omega
    case h_2 towards =>
      cases last
      rw [towards]
      simp only [Direction.MoreUrgent]
      omega

theorem priority_ordered {plan : PriorityPlan} {r k : Nat} {p q : Int} (better : r < k)
    (first : (rankToPriority r plan).priority = some p)
    (second : (rankToPriority k plan).priority = some q) : ¬ plan.direction.MoreUrgent q p := by
  have spent := plan.nthAppPriority_none_iff
  rw [rankToPriority] at first second
  cases place : plan.nthAppPriority r with
  | some p' =>
    rw [place] at first
    cases first
    cases place' : plan.nthAppPriority k with
    | some q' =>
      rw [place'] at second
      cases second
      exact (PriorityPlan.nthAppPriority_moreUrgent better place place').asymm
    | none =>
      rw [place'] at second
      cases last : plan.leastUrgentAppPriority with
      | none =>
        rw [last] at second
        cases second
      | some q' =>
        rw [last] at second
        cases second
        exact leastUrgent_le last (PriorityPlan.contains_of_nthAppPriority place)
  | none =>
    have wide : plan.nthAppPriority k = none :=
      (spent k).mpr (le_trans ((spent r).mp place) better.le)
    rw [place] at first
    rw [wide] at second
    cases first.symm.trans second
    exact plan.direction.moreUrgent_irrefl p

/-- A node's place in the ranking: that of the first group it has an item in. -/
def rankIn (items : List RankedItem) (name : String) : Option Nat :=
  (fineGroups items).findIdx? fun g =>
    items.any fun it => decide (it.node = name) && decide (it.fineGroup = g)

theorem nodeRank_eq (items : List RankedItem) (name : String) :
    nodeRank items name = rankIn items name := by
  cases ranked : nodeRank items name with
  | none =>
    have absent := (nodeRank_none_iff items name).mp ranked
    symm
    rw [rankIn, List.findIdx?_eq_none_iff]
    intro g _
    rw [List.any_eq_false]
    intro it member
    simp [absent it member]
  | some r =>
    have least := (foldNodeRanks_spec _ items name).2 r ranked
    symm
    rw [rankIn, List.findIdx?_eq_some_iff_getElem]
    rcases least.1 with ⟨it, member, named, chosen⟩
    have place : (fineGroups items).idxOf it.fineGroup = r :=
      (rank_of_item member).symm.trans chosen
    have known : it.fineGroup ∈ fineGroups items :=
      List.mem_eraseDups.mpr (List.mem_map_of_mem member)
    subst place
    refine ⟨List.idxOf_lt_length_of_mem known, ?_, ?_⟩
    · rw [List.any_eq_true]
      exact ⟨it, member, by simp [named]⟩
    · intro j earlier same
      rcases List.any_eq_true.mp same with ⟨other, inside, both⟩
      rw [Bool.and_eq_true, decide_eq_true_eq, decide_eq_true_eq] at both
      have bound := least.2 ⟨other, inside, both.1, rank_of_item inside⟩
      -- an item at an earlier place would have given the node that place
      have before := lt_of_lt_of_le earlier bound
      have differs := List.not_of_lt_findIdx before
      exact absurd both.2.symm (by simpa using differs)

/-- How many different ranks the nodes have. -/
def rankCount (items : List RankedItem) : Nat :=
  (items.map fun it => rankIn items it.node).dedup.length

/-- What a plan keeps of the ranking when the pool is wide enough for it. -/
structure RanksKept (items : List RankedItem) (plan : PriorityPlan) (out : RtosPlan) : Prop where
  ranked : ∀ it ∈ items, ∃ n ∈ out.nodes, n.name = it.node
  once : (out.nodes.map RealizedNode.name).Nodup
  inPool : ∀ n ∈ out.nodes, plan.app.contains n.priority = true
  ordered : ∀ n ∈ out.nodes, ∀ m ∈ out.nodes, ∀ r k, rankIn items n.name = some r →
    rankIn items m.name = some k → r < k → ¬ plan.direction.MoreUrgent m.priority n.priority
  apart : rankCount items ≤ plan.app.width →
    (∀ n ∈ out.nodes, ∀ m ∈ out.nodes, rankIn items n.name ≠ rankIn items m.name →
      n.priority ≠ m.priority) ∧ ∀ d ∈ out.degradations, d.dim ≠ .priority

/-- Every node has an item in one of the first groups, as many as the pool has priorities. -/
def Addressed (items : List RankedItem) (width : Nat) : Prop :=
  ∀ it ∈ items, ∃ best ∈ items, best.node = it.node ∧ best.fineGroup ∈ (fineGroups items).take width

theorem addressed_iff (items : List RankedItem) (width : Nat) :
    Addressed items width ↔ ∀ name r, nodeRank items name = some r → r < width := by
  constructor
  · intro addressed name r ranked
    rcases ((foldNodeRanks_spec _ items name).2 r ranked).1 with ⟨it, member, named, _⟩
    rcases addressed it member with ⟨best, inside, same, first⟩
    exact (nodeRank_lt_iff ranked width).mpr ⟨best, inside, same.trans named, first⟩
  · intro below it member
    cases ranked : nodeRank items it.node with
    | none => exact absurd rfl ((nodeRank_none_iff items it.node).mp ranked it member)
    | some r => exact (nodeRank_lt_iff ranked width).mp (below _ r ranked)

/-- The ranking is kept exactly if the pool is narrower than the ranks are many, or no node's first
group comes after more groups than the pool has priorities. -/
theorem ranksKept_iff (facts : String → Option NodeFacts) (caps : SchedCaps)
    (plan : PriorityPlan) (checks : List RealizedNode → SystemChecks) (items : List RankedItem)
    (pool : plan.app.width ≠ 0) :
    RanksKept items plan (realizeRtos facts caps plan checks items) ↔
      plan.app.width < rankCount items ∨ Addressed items plan.app.width := by
  have node := mem_nodes_iff facts caps plan checks items
  have placed : ∀ n ∈ (realizeRtos facts caps plan checks items).nodes,
      ∃ r, nodeRank items n.name = some r ∧ (rankToPriority r plan).priority = some n.priority :=
    fun n member => (node n.name n.priority).mp ⟨n, member, rfl, rfl⟩
  have degraded := priority_degraded_iff facts caps plan checks items
  constructor
  · intro kept
    by_contra neither
    rw [not_or, not_lt, addressed_iff] at neither
    push Not at neither
    rcases neither with ⟨few, name, r, ranked, narrow⟩
    rcases degraded.mpr ⟨name, r, ranked, narrow⟩ with ⟨d, member, order⟩
    exact (kept.apart few).2 d member order
  · intro enough
    refine ⟨?_, names_nodup facts caps plan checks items, ?_, ?_, ?_⟩
    · intro it member
      cases ranked : nodeRank items it.node with
      | none => exact absurd rfl ((nodeRank_none_iff items it.node).mp ranked it member)
      | some r =>
        rcases priority_of_rank pool r with ⟨p, given, _⟩
        rcases (node it.node p).mpr ⟨r, ranked, given⟩ with ⟨n, inside, named, _⟩
        exact ⟨n, inside, named⟩
    · intro n member
      rcases placed n member with ⟨r, _, given⟩
      rcases priority_of_rank pool r with ⟨p, same, inPool⟩
      cases given.symm.trans same
      exact inPool
    · intro n inside m there r k first second better
      rw [← nodeRank_eq] at first second
      rcases placed n inside with ⟨r', ranked, given⟩
      rcases placed m there with ⟨k', ranked', given'⟩
      cases first.symm.trans ranked
      cases second.symm.trans ranked'
      exact priority_ordered better given given'
    · intro few
      have below := (addressed_iff items _).mp (enough.resolve_left (not_lt.mpr few))
      have exact_ : ∀ name r p, nodeRank items name = some r →
          (rankToPriority r plan).priority = some p → plan.nthAppPriority r = some p := by
        intro name r p ranked given
        rw [rankToPriority] at given
        cases place : plan.nthAppPriority r with
        | none =>
          have narrow := (plan.nthAppPriority_none_iff r).mp place
          exact absurd (below name r ranked) (not_lt.mpr narrow)
        | some q =>
          rw [place] at given
          exact given
      constructor
      · intro n inside m there differ same
        rw [← nodeRank_eq, ← nodeRank_eq] at differ
        rcases placed n inside with ⟨r, ranked, given⟩
        rcases placed m there with ⟨k, ranked', given'⟩
        rw [ranked, ranked'] at differ
        have first := exact_ _ r _ ranked given
        have second := exact_ _ k _ ranked' given'
        rw [same] at first
        rcases Nat.lt_or_gt_of_ne (fun same => differ (congrArg some same)) with less | more
        · exact plan.direction.moreUrgent_irrefl _
            (PriorityPlan.nthAppPriority_moreUrgent less first second)
        · exact plan.direction.moreUrgent_irrefl _
            (PriorityPlan.nthAppPriority_moreUrgent more second first)
      · intro d member order
        rcases degraded.mp ⟨d, member, order⟩ with ⟨name, r, ranked, narrow⟩
        exact absurd (below name r ranked) (not_lt.mpr narrow)

def poolOfThree : PriorityPlan :=
  ⟨.smallerIsUrgent, ⟨-16, 7⟩, [("transport", ⟨4, 4⟩)], ⟨5, 7⟩⟩

def uncheckedSystem : List RealizedNode → SystemChecks := fun _ => ⟨false, false, fun _ => none⟩

theorem ranksKept_iff_dense : RanksKept [⟨"a", 0⟩, ⟨"b", 1⟩, ⟨"a", 1⟩] poolOfThree
    (realizeRtos (fun _ => none) ⟨false, false⟩ poolOfThree uncheckedSystem
      [⟨"a", 0⟩, ⟨"b", 1⟩, ⟨"a", 1⟩]) := by
  apply (ranksKept_iff _ _ _ _ _ (by decide)).mpr
  right
  rw [Addressed]
  decide

/-- Node `a` has two groups to itself, so three nodes have the ranks 0, 2 and 3. -/
def sparseItems : List RankedItem := [⟨"a", 0⟩, ⟨"a", 1⟩, ⟨"b", 2⟩, ⟨"c", 3⟩]

/-- Three ranks, three priorities, and two nodes on one of them. -/
theorem ranks_shared_sparse :
    rankCount sparseItems = 3 ∧ poolOfThree.app.width = 3 ∧
      (∃ n ∈ (realizeRtos (fun _ => none) ⟨false, false⟩ poolOfThree uncheckedSystem
        sparseItems).nodes, n.name = "b" ∧ n.priority = 7) ∧
      (∃ n ∈ (realizeRtos (fun _ => none) ⟨false, false⟩ poolOfThree uncheckedSystem
        sparseItems).nodes, n.name = "c" ∧ n.priority = 7) ∧
      ¬ RanksKept sparseItems poolOfThree (realizeRtos (fun _ => none) ⟨false, false⟩ poolOfThree
        uncheckedSystem sparseItems) := by
  have second : nodeRank sparseItems "b" = some 2 := by decide +kernel
  have third : nodeRank sparseItems "c" = some 3 := by decide +kernel
  have count : rankCount sparseItems = 3 := by decide +kernel
  refine ⟨count, rfl, ?_, ?_, fun kept => ?_⟩
  · exact (mem_nodes_iff _ _ _ _ _ _ _).mpr ⟨2, second, rfl⟩
  · exact (mem_nodes_iff _ _ _ _ _ _ _).mpr ⟨3, third, rfl⟩
  · rcases (priority_degraded_iff (fun _ => none) ⟨false, false⟩ poolOfThree uncheckedSystem
      sparseItems).mpr ⟨"c", 3, third, le_refl 3⟩ with ⟨d, member, order⟩
    exact (kept.apart (le_of_eq count)).2 d member order

end NanoRos
