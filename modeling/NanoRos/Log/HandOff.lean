import NanoRos.Log.DispatchRuns

/-! What every access of log dispatch preserves, and so what holds after any run: deliveries do not
overlap, every record is in one place, and the hand-off leaves behind only what was held in a last
pass, unless a raiser that found no sink counts its record after the others have gone. -/

namespace NanoRos.Dispatch

variable {T D w : Nat} {s : LogSystem T} {t : Fin T}

namespace LogSystem

/-- No call is left that could come to a record this raiser counts. -/
def forsaken (D : Nat) (s : LogSystem T) : Prop :=
  s.installed = true ∧ (∀ u, (s.threads u).engaged = false ∧ (s.threads u).lastPass = false) ∧
    ∃ k < D, (s.slots k).state = .ready

end LogSystem

section Hold

variable {record : Nat} {found : Bool}

variable {now : HoldAt} {k : Nat}

theorem Watched.holds {installed : Bool} {slots slots' : Nat → HoldSlot} {late : List Nat}
    {threads : Fin T → CallAt} {next : CallAt} (watched : Watched installed slots late threads)
    (here : threads t = .holding record found now)
    (old : ∀ k, Waits slots' late k → Waits slots late k ∧ slots' k = slots k)
    (uncounted : (CallAt.holding record found now).counts = none)
    (alert : found = true → next.alert = true) (unbounded : next.bounded = false) :
    Watched installed slots' late (Function.update threads t next) := by
  cases found with
  | true => exact watched.alert here (fun k waits => .inr (old k waits)) uncounted (alert rfl)
  | false =>
    apply watched.calm here old
    · rw [CallAt.alert, uncounted]
      rfl
    · intro _ _
      rfl
    · exact unbounded

theorem Inv.claiming (inv : Inv D s) (here : s.threads t = .holding record found (.claiming k)) :
    Inv D (s.holdStep D w t record found (.claiming k)) := by
  dsimp only [LogSystem.holdStep]
  by_cases inside : k < D
  · rw [if_pos inside]
    by_cases empty : (s.slots k).state = .empty
    · rw [if_pos empty]
      refine inv.changes here inside (inv.owned.alone_of_free (.inl empty))
        (by intros; contradiction) (by intros; contradiction) (by intros; contradiction)
        trivial ?_ ?_ ?_ rfl rfl rfl trivial
      · simp [CallAt.weight, HoldSlot.occupied, empty]
      · intro other
        simp [HoldSlot.keepsOf, empty, CallAt.carriesOf, CallAt.carries]
      · exact inv.watched.holds here (waits_update (by simp)) rfl (fun yes => by rw [yes]; rfl) rfl
    · rw [if_neg empty]
      exact inv.goes here (inv.watched.holds here waits_same rfl (fun yes => by rw [yes]; rfl) rfl)
        trivial trivial ⟨rfl, rfl, rfl, rfl, rfl⟩
  · rw [if_neg inside]
    exact {
      guarded := inv.guarded.goes here (by cases found <;> rfl)
      owned := inv.owned.goes here le_rfl (by cases found <;> rfl) (by cases found <;> rfl)
        (by cases found <;> trivial)
      balanced := inv.balanced.goes here (by cases found <;> rfl)
      accounted := by
        apply inv.accounted.moves here
        intro other
        have gone : (LogSystem.afterHold found).carriesOf other = 0 := by cases found <;> rfl
        rw [gone, List.count_append, List.count_singleton]
        simp only [CallAt.carriesOf, CallAt.carries, Option.some.injEq, beq_iff_eq]
        dsimp only [LogSystem.goes]
        omega
      lost := by
        dsimp only
        rw [List.length_append, inv.lost]
        rfl
      published := published_update inv.published (by cases found <;> trivial)
      watched := inv.watched.holds here waits_same rfl (fun yes => by rw [yes]; rfl)
        (by cases found <;> rfl) }

theorem Inv.numbering (inv : Inv D s) (here : s.threads t = .holding record found (.numbering k))
    (fresh : s.nextSeq + 1 < 2 ^ w) : Inv D (s.holdStep D w t record found (.numbering k)) := by
  dsimp only [LogSystem.holdStep]
  rw [Nat.mod_eq_of_lt fresh]
  exact {
    guarded := inv.guarded.goes here rfl
    owned := inv.owned.goes here (Nat.le_succ _) rfl rfl (Nat.lt_succ_self s.nextSeq)
    balanced := inv.balanced.goes here rfl
    accounted := inv.accounted.moves here fun _ => rfl
    lost := inv.lost
    published := published_update inv.published trivial
    watched := inv.watched.holds here waits_same rfl (fun yes => by rw [yes]; rfl) rfl }

theorem Inv.writes {next : HoldAt} {slot : HoldSlot} (inv : Inv D s)
    (here : s.threads t = .holding record found now)
    (mine : (CallAt.holding record found now).writes = some k)
    (still : (CallAt.holding record found next).writes = some k) (state : slot.state = .writing)
    (ok : PcOk D s.nextSeq (Function.update s.slots k slot) (.holding record found next))
    (alike : (CallAt.holding record found now).Alike (.holding record found next))
    (uncounted : (CallAt.holding record found now).counts = none) :
    Inv D ((s.setSlot k slot).goes t (.holding record found next)) := by
  have owner : (s.threads t).writes = some k := here ▸ mine
  rcases inv.owned.writes t k owner with ⟨inside, before⟩
  refine inv.changes here inside (inv.owned.alone_of_writes owner) ?_ (by intros; contradiction)
    (by simp [state]) ?_
    ?_ ?_ ?_ rfl (by rw [if_pos state, still]) (by rw [state]; rfl) trivial
  · intro j writes
    exact Option.some.inj (writes.symm.trans mine)
  · exact ok
  · simp [alike.weight, HoldSlot.occupied, before, state]
  · intro other
    simp [CallAt.carriesOf, alike.carries, HoldSlot.keepsOf, before, state]
  · exact inv.watched.holds here (waits_update (by simp [state])) uncounted
      (fun yes => by rw [yes]; rfl) rfl

theorem Watched.readied {installed : Bool} {slots : Nat → HoldSlot} {late : List Nat}
    {threads : Fin T → CallAt} {slot : HoldSlot} (watched : Watched installed slots late threads)
    (here : threads t = .holding record found now)
    (uncounted : (CallAt.holding record found now).counts = none) (stored : slot.cell = record) :
    Watched installed (Function.update slots k slot) late
      (Function.update threads t (.holding record found .counting)) := by
  refine watched.alert here ?_ uncounted (CallAt.alert_of_counts rfl)
  intro j waits
  by_cases same : j = k
  · left
    rw [same, Function.update_self]
    exact congrArg some stored.symm
  · right
    rw [Waits, Function.update_of_ne same] at waits
    exact ⟨waits, Function.update_of_ne same slot slots⟩

theorem Inv.readying (inv : Inv D s) (here : s.threads t = .holding record found (.readying k)) :
    Inv D (s.holdStep D w t record found (.readying k)) := by
  have owner : (s.threads t).writes = some k := here ▸ rfl
  have ok : (s.slots k).seq < s.nextSeq ∧ (s.slots k).cell = record := inv.knows here
  rcases inv.owned.writes t k owner with ⟨inside, before⟩
  refine inv.changes here inside (inv.owned.alone_of_writes owner) ?_ (by intros; contradiction)
    (fun _ => ok.1) trivial
    ?_ ?_ ?_ rfl rfl rfl trivial
  · intro j writes
    exact (Option.some.inj writes).symm
  · simp [CallAt.weight, HoldSlot.occupied, before]
  · intro other
    simp [CallAt.carriesOf, CallAt.carries, HoldSlot.keepsOf, before, ok.2]
  · exact inv.watched.readied here rfl ok.2

/-- The record counted is late when a last pass is on. Otherwise the raiser tries the guard again, or
found no sink, and then another call is to come. -/
theorem Inv.counting (inv : Inv D s) (here : s.threads t = .holding record found .counting)
    (kept : found = false → ¬ s.forsaken D) :
    Inv D (s.holdStep D w t record found .counting) := by
  have uncounted : ∀ u k, (s.threads u).bounded = true →
      Waits s.slots (if ∃ u, (s.threads u).lastPass = true then record :: s.late else s.late) k →
      (CallAt.holding record found .counting).counts ≠ some (s.slots k).cell := by
    intro u k bounded waits same
    have late := waits.2
    rw [if_pos ⟨u, CallAt.lastPass_of_bounded bounded⟩] at late
    exact late (List.mem_cons.mpr (.inl (Option.some.inj same).symm))
  have older : ∀ k,
      Waits s.slots (if ∃ u, (s.threads u).lastPass = true then record :: s.late else s.late) k →
      Waits s.slots s.late k := by
    intro k waits
    refine ⟨waits.1, ?_⟩
    intro member
    apply waits.2
    split
    next => exact List.mem_cons_of_mem _ member
    next => exact member
  dsimp only [LogSystem.holdStep]
  exact {
    guarded := inv.guarded.goes here (by cases found <;> rfl)
    owned := inv.owned.goes here le_rfl (by cases found <;> rfl) (by cases found <;> rfl)
      (by cases found <;> trivial)
    balanced := by
      apply inv.balanced.goes here
      have weightless : (LogSystem.afterHold found).weight = 0 := by cases found <;> rfl
      rw [weightless]
      exact add_zero _
    accounted := by
      apply inv.accounted.moves here
      intro other
      have gone : (LogSystem.afterHold found).carriesOf other = 0 := by cases found <;> rfl
      rw [gone]
      rfl
    lost := inv.lost
    published := published_update inv.published (by cases found <;> trivial)
    watched := by
      refine inv.watched.goes here (fun k waits => .inr ⟨older k waits, rfl⟩) uncounted ?_ ?_
      · intro up k waits
        cases found with
        | true => exact .inl rfl
        | false =>
          have others : ∀ u, (s.threads u).engaged = true → u ≠ t := by
            intro u engaged same
            rw [same, here] at engaged
            cases engaged
          by_cases busy : ∃ u, (s.threads u).engaged = true
          · rcases busy with ⟨u, engaged⟩
            exact .inr (.inr ⟨u, others u engaged, .inl (by rw [CallAt.alert, engaged]; rfl)⟩)
          · have calm : ∀ u, (s.threads u).engaged = false := by
              intro u
              exact Bool.eq_false_iff.mpr fun engaged => busy ⟨u, engaged⟩
            by_cases passing : ∃ u, (s.threads u).lastPass = true
            · rcases passing with ⟨u, last⟩
              have bounded := CallAt.bounded_of_lastPass last (calm u)
              rcases inv.watched.last u bounded k (older k waits) with sees | ⟨v, counts⟩
              · refine .inr (.inr ⟨u, ?_, .inr sees⟩)
                intro same
                rw [same, here] at last
                cases last
              · refine .inr (.inr ⟨v, ?_, .inl (CallAt.alert_of_counts counts)⟩)
                intro same
                rw [same, here] at counts
                exact uncounted u k bounded waits counts
            · have calmer : ∀ u, (s.threads u).lastPass = false := by
                intro u
                exact Bool.eq_false_iff.mpr fun last => passing ⟨u, last⟩
              refine absurd ?_ (kept rfl)
              exact ⟨up, fun u => ⟨calm u, calmer u⟩, k, (inv.owned.ready k waits.1).1, waits.1⟩
      · intro bounded
        cases found <;> cases bounded }

theorem Inv.holdStep {at_ : HoldAt} (inv : Inv D s) (here : s.threads t = .holding record found at_)
    (fresh : ∀ k, at_ = .numbering k → s.nextSeq + 1 < 2 ^ w)
    (kept : at_ = .counting → found = false → ¬ s.forsaken D) :
    Inv D (s.holdStep D w t record found at_) := by
  have ok := inv.knows here
  cases at_ with
  | claiming k => exact inv.claiming here
  | numbering k => exact inv.numbering here (fresh k rfl)
  | storing k seq =>
    apply inv.writes here rfl rfl
    · exact (inv.owned.writes t k (by rw [here]; rfl)).2
    · dsimp only [PcOk]
      rw [Function.update_self]
      exact ok
    · exact ⟨rfl, rfl, rfl, rfl, rfl⟩
    · rfl
  | filling k =>
    apply inv.writes here rfl rfl
    · exact (inv.owned.writes t k (by rw [here]; rfl)).2
    · dsimp only [PcOk]
      rw [Function.update_self]
      exact ⟨ok, rfl⟩
    · exact ⟨rfl, rfl, rfl, rfl, rfl⟩
    · rfl
  | readying k => exact inv.readying here
  | counting => exact inv.counting here (kept rfl)

end Hold

section Pass

variable {pass : Nat}

variable {at_ : PassAt} {bound k : Nat}

theorem CallAt.bounded_draining (loaded : at_ ≠ .bounding) :
    (CallAt.draining pass at_).bounded = (pass + 1 == drainPasses) := by
  cases at_ with
  | bounding => exact absurd rfl loaded
  | _ => rfl

theorem CallAt.engaged_draining (loaded : at_ ≠ .bounding) :
    (CallAt.draining pass at_).engaged = (pass + 1 != drainPasses) := by
  cases at_ with
  | bounding => exact absurd rfl loaded
  | _ => rfl

theorem Watched.passes {installed : Bool} {slots slots' : Nat → HoldSlot} {late : List Nat}
    {threads : Fin T → CallAt} {now next : PassAt} (watched : Watched installed slots late threads)
    (here : threads t = .draining pass now)
    (old : ∀ k, Waits slots' late k → Waits slots late k ∧ slots' k = slots k)
    (loaded : now ≠ .bounding) (loaded' : next ≠ .bounding)
    (sees : ∀ k, Waits slots' late k → (CallAt.draining pass now).sees (slots k).seq k = true →
      (CallAt.draining pass next).sees (slots k).seq k = true) :
    Watched installed slots' late (Function.update threads t (.draining pass next)) := by
  cases last : pass + 1 == drainPasses with
  | true =>
    apply watched.scans here old _ sees
    rw [CallAt.bounded_draining loaded, last]
  | false =>
    refine watched.alert here (fun k waits => .inr (old k waits)) rfl ?_
    rw [CallAt.alert, CallAt.engaged_draining loaded', bne, last]
    rfl

section

variable (inv : Inv D s)
include inv

theorem Inv.bounding (here : s.threads t = .draining pass .bounding) (warn : Bool) :
    Inv D (s.passStep D warn t pass .bounding) := by
  refine inv.goes here ?_ (fun _ _ best => by cases best) trivial ⟨rfl, rfl, rfl, rfl, rfl⟩
  have sees : ∀ k, Waits s.slots s.late k →
      (CallAt.draining pass (.scanning s.nextSeq 0 none)).sees (s.slots k).seq k = true := by
    intro k waits
    simp [CallAt.sees, (inv.owned.ready k waits.1).2]
  refine inv.watched.goes here (fun k waits => .inr ⟨waits, rfl⟩) (fun _ _ _ _ same => by cases same) ?_ ?_
  · intro _ k waits
    exact .inr (.inl (sees k waits))
  · intro _ k waits
    exact .inl (sees k waits)

theorem Inv.scanning {oldest : Option (Nat × Nat)}
    (here : s.threads t = .draining pass (.scanning bound k oldest)) (warn : Bool) :
    Inv D (s.passStep D warn t pass (.scanning bound k oldest)) := by
  have ok := inv.knows here
  dsimp only [LogSystem.passStep]
  by_cases inside : k < D
  · rw [if_pos inside]
    by_cases ready : (s.slots k).state = .ready
    · rw [if_pos ready]
      exact inv.goes here
        (inv.watched.passes here waits_same (by simp) (by simp) fun _ _ seen => seen) ⟨inside, ok⟩
        trivial ⟨rfl, rfl, rfl, rfl, rfl⟩
    · rw [if_neg ready]
      refine inv.goes here (inv.watched.passes here waits_same (by simp) (by simp) ?_) ok trivial
        ⟨rfl, rfl, rfl, rfl, rfl⟩
      intro j waits seen
      have other : k ≠ j := fun same => ready (same ▸ waits.1)
      simp only [CallAt.sees, Bool.and_eq_true, Bool.or_eq_true, decide_eq_true_eq] at seen ⊢
      exact ⟨seen.1, seen.2.imp_left fun reached => lt_of_le_of_ne reached other⟩
  · rw [if_neg inside]
    cases oldest with
    | none =>
      refine inv.goes here (inv.watched.passes here waits_same (by simp) (by simp) ?_)
        trivial trivial ⟨rfl, rfl, rfl, rfl, rfl⟩
      intro j waits seen
      have beyond := (inv.owned.ready j waits.1).1
      simp only [CallAt.sees, Bool.and_eq_true, Bool.or_eq_true, decide_eq_true_eq,
        Option.isSome_none, Bool.false_eq_true, or_false] at seen
      exact absurd (lt_of_le_of_lt seen.2 beyond) inside
    | some found =>
      refine inv.goes here (inv.watched.passes here waits_same (by simp) (by simp) ?_)
        (ok found.1 found.2 rfl) trivial ⟨rfl, rfl, rfl, rfl, rfl⟩
      intro j waits seen
      exact (Bool.and_eq_true _ _ ▸ seen).1

theorem Inv.peeking {oldest : Option (Nat × Nat)}
    (here : s.threads t = .draining pass (.peeking bound k oldest)) (warn : Bool) :
    Inv D (s.passStep D warn t pass (.peeking bound k oldest)) := by
  have ok := inv.knows here
  refine inv.goes here (inv.watched.passes here waits_same (by simp) (by simp) ?_) ?_ trivial
    ⟨rfl, rfl, rfl, rfl, rfl⟩
  rotate_left
  · intro slot seq best
    split at best
    next => exact ok.2 slot seq best
    next =>
      split at best
      next =>
        cases best
        exact ok.1
      next => exact ok.2 slot seq best
  · intro j waits seen
    simp only [CallAt.sees, Bool.and_eq_true, Bool.or_eq_true, decide_eq_true_eq] at seen ⊢
    refine ⟨seen.1, ?_⟩
    rcases seen.2 with reached | some_
    · rcases Nat.lt_or_eq_of_le reached with before | rfl
      · exact .inl before
      · right
        rw [if_neg (Nat.not_le.mpr seen.1)]
        cases oldest with
        | none => rfl
        | some other => split <;> rfl
    · right
      cases oldest with
      | none => cases some_
      | some other =>
        split
        next => rfl
        next => split <;> rfl

theorem Inv.taking (here : s.threads t = .draining pass (.taking bound k)) (warn : Bool) :
    Inv D (s.passStep D warn t pass (.taking bound k)) := by
  have inside : k < D := inv.knows here
  dsimp only [LogSystem.passStep]
  by_cases ready : (s.slots k).state = .ready
  · rw [if_pos ready]
    refine inv.changes here inside (inv.owned.alone_of_free (.inr ready)) (by intros; contradiction)
      (by intros; contradiction) (by intros; contradiction)
      ?_ ?_ ?_ ?_ rfl rfl rfl trivial
    · dsimp only [PcOk]
      rw [Function.update_self]
    · simp [CallAt.weight, HoldSlot.occupied, ready]
    · intro other
      simp [CallAt.carriesOf, CallAt.carries, HoldSlot.keepsOf, ready]
    · exact inv.watched.passes here (waits_update (by simp)) (by simp) (by simp)
        fun _ _ seen => seen
  · rw [if_neg ready]
    refine inv.goes here (inv.watched.passes here waits_same (by simp) (by simp) ?_)
      (fun _ _ best => by cases best) trivial
      ⟨rfl, rfl, rfl, rfl, rfl⟩
    intro j waits seen
    simp only [CallAt.sees, decide_eq_true_eq] at seen
    simp [CallAt.sees, seen]

theorem Inv.passing {record : Nat} (here : s.threads t = .draining pass (.passing bound k record))
    (warn : Bool) :
    Inv D (s.passStep D warn t pass (.passing bound k record)) := by
  have stored : (s.slots k).cell = record := inv.knows here
  exact {
    guarded := inv.guarded.goes here rfl
    owned := inv.owned.goes here le_rfl rfl rfl trivial
    balanced := inv.balanced.goes here rfl
    accounted := by
      apply inv.accounted.moves here
      intro other
      simp only [LogSystem.passStep, CallAt.carriesOf, CallAt.carries, stored, Option.some.injEq,
        reduceCtorEq, if_false, List.count_append, List.count_singleton, beq_iff_eq]
      dsimp only [LogSystem.goes]
      omega
    lost := inv.lost
    published := published_update inv.published trivial
    watched := inv.watched.passes here waits_same (by simp) (by simp) fun _ _ seen => seen }

theorem Inv.passed (here : s.threads t = .draining pass (.passed bound k)) (warn : Bool) :
    Inv D (s.passStep D warn t pass (.passed bound k)) := by
  have owner : (s.threads t).reads = some k := here ▸ rfl
  rcases inv.owned.reads t k owner with ⟨inside, before⟩
  refine inv.changes here inside (inv.owned.alone_of_reads inv.guarded owner)
    (by intros; contradiction) ?_ (by intros; contradiction) trivial
    ?_ ?_ ?_ rfl rfl rfl trivial
  · intro j reads
    exact (Option.some.inj reads).symm
  · simp [CallAt.weight, HoldSlot.occupied, before]
  · intro other
    simp [CallAt.carriesOf, CallAt.carries, HoldSlot.keepsOf, before]
  · exact inv.watched.passes here (waits_update (by simp)) (by simp) (by simp)
      fun _ _ seen => seen

theorem Inv.discounting (here : s.threads t = .draining pass (.discounting bound)) (warn : Bool) :
    Inv D (s.passStep D warn t pass (.discounting bound)) where
  guarded := inv.guarded.goes here rfl
  owned := inv.owned.goes here le_rfl rfl rfl fun _ _ best => by cases best
  balanced := by
    apply inv.balanced.goes here
    show s.pending - 1 + 0 = s.pending + -1
    ring
  accounted := inv.accounted.moves here fun _ => rfl
  lost := inv.lost
  published := published_update inv.published trivial
  watched := by
    refine inv.watched.passes here waits_same (by simp) (by simp) ?_
    intro j waits seen
    simp only [CallAt.sees, decide_eq_true_eq] at seen
    simp [CallAt.sees, seen]

/-- A pass that is not the last is followed by another look. The last leaves what is yet to be
counted. -/
theorem Inv.releasing (here : s.threads t = .draining pass .releasing) (warn : Bool)
    : Inv D (s.passStep D warn t pass .releasing) := by
  have held : (s.threads t).holds = true := by
    rw [here]
    rfl
  dsimp only [LogSystem.passStep]
  by_cases last : pass + 1 = drainPasses
  · rw [if_pos last]
    exact {
      guarded := inv.guarded.releases held rfl
      owned := inv.owned.goes here le_rfl rfl rfl trivial
      balanced := inv.balanced.goes here rfl
      accounted := inv.accounted.moves here fun _ => rfl
      lost := inv.lost
      published := published_update inv.published trivial
      watched := by
        apply inv.watched.leaves here rfl rfl
        apply inv.cover_of_last here
        · show (pass + 1 == drainPasses) = true
          rw [last]
          rfl
        · exact fun _ _ => rfl }
  · rw [if_neg last]
    exact {
      guarded := inv.guarded.releases held rfl
      owned := inv.owned.goes here le_rfl rfl rfl trivial
      balanced := inv.balanced.goes here rfl
      accounted := inv.accounted.moves here fun _ => rfl
      lost := inv.lost
      published := published_update inv.published trivial
      watched := inv.watched.alert here (fun k waits => .inr ⟨waits, rfl⟩) rfl rfl }

theorem Inv.passStep (here : s.threads t = .draining pass at_) (warn : Bool) :
    Inv D (s.passStep D warn t pass at_) := by
  cases at_ with
  | bounding => exact inv.bounding here warn
  | scanning bound k oldest => exact inv.scanning here warn
  | peeking bound k oldest => exact inv.peeking here warn
  | taking bound k => exact inv.taking here warn
  | passing bound k record => exact inv.passing here warn
  | passed bound k => exact inv.passed here warn
  | discounting bound => exact inv.discounting here warn
  | loadingLost =>
    exact inv.goes here (inv.watched.passes here waits_same (by simp) (by simp)
      (by intros; contradiction))
      trivial trivial ⟨rfl, rfl, rfl, rfl, rfl⟩
  | swappingLost lost =>
    have goes : ∀ next, next = PassAt.releasing ∨ next = .reporting →
        Inv D (s.goes t (.draining pass next)) := by
      rintro next (rfl | rfl)
      · exact inv.goes here (inv.watched.passes here waits_same (by simp) (by simp)
        (by intros; contradiction))
          trivial trivial ⟨rfl, rfl, rfl, rfl, rfl⟩
      · exact inv.goes here (inv.watched.passes here waits_same (by simp) (by simp)
        (by intros; contradiction))
          trivial trivial ⟨rfl, rfl, rfl, rfl, rfl⟩
    exact { goes _ (ite_eq_or_eq _ _ _) with }
  | reporting =>
    exact inv.goes here (inv.watched.passes here waits_same (by simp) (by simp)
      (by intros; contradiction))
      trivial trivial ⟨rfl, rfl, rfl, rfl, rfl⟩
  | releasing => exact inv.releasing here warn

end

end Pass

section Calls

variable {at_ next : CallAt}

section

variable (inv : Inv D s)
include inv

theorem Inv.calm (here : s.threads t = at_)
    (alike : at_.Alike next := by exact ⟨rfl, rfl, rfl, rfl, rfl⟩)
    (ok : PcOk D s.nextSeq s.slots next := by exact trivial)
    (published : Published s.sinks s.added next := by exact trivial)
    (calm : at_.alert = false := by rfl)
    (blind : ∀ seq k, at_.sees seq k = false := by exact fun _ _ => rfl)
    (unbounded : next.bounded = false := by rfl) : Inv D (s.goes t next) :=
  inv.goes here (inv.watched.calm here waits_same calm blind unbounded) ok published alike

theorem Inv.alerts (here : s.threads t = at_)
    (published : Published s.sinks s.added next := by exact trivial)
    (alike : at_.Alike next := by exact ⟨rfl, rfl, rfl, rfl, rfl⟩)
    (ok : PcOk D s.nextSeq s.slots next := by exact trivial)
    (uncounted : at_.counts = none := by rfl) (alert : next.alert = true := by rfl) :
    Inv D (s.goes t next) :=
  inv.goes here (inv.watched.alert here (fun _ waits => .inr ⟨waits, rfl⟩) uncounted alert)
    ok published alike

theorem Inv.tries {taken refused : CallAt} (here : s.threads t = at_)
    (out : at_.holds = false := by rfl) (uncounted : at_.counts = none := by rfl)
    (takes : taken.holds = true ∧ taken.writes = at_.writes ∧ taken.reads = at_.reads ∧
      taken.weight = at_.weight ∧ taken.carries = at_.carries := by
        exact ⟨rfl, rfl, rfl, rfl, rfl⟩) (ok : PcOk D s.nextSeq s.slots taken := by exact trivial)
    (published : Published s.sinks s.added taken := by exact trivial)
    (alert : taken.alert = true := by rfl)
    (alike : at_.Alike refused := by exact ⟨rfl, rfl, rfl, rfl, rfl⟩)
    (ok' : PcOk D s.nextSeq s.slots refused := by exact trivial)
    (published' : Published s.sinks s.added refused := by exact trivial)
    (unbounded : refused.bounded = false := by rfl) : Inv D (s.tries t taken refused) := by
  dsimp only [LogSystem.tries]
  by_cases free : s.guard = none
  · rw [if_pos free]
    rcases takes with ⟨holds, writes, reads, weight, carries⟩
    exact {
      guarded := (free ▸ inv.guarded).takes holds
      owned := inv.owned.goes here le_rfl writes reads ok
      balanced := inv.balanced.goes here (by rw [weight]; rfl)
      accounted := by
        apply inv.accounted.moves here
        intro record
        dsimp only [CallAt.carriesOf]
        rw [carries]
        rfl
      lost := inv.lost
      published := published_update inv.published published
      watched := inv.watched.alert here (fun _ waits => .inr ⟨waits, rfl⟩) uncounted alert }
  · rw [if_neg free]
    exact inv.goes here
      (inv.watched.leaves here uncounted unbounded (inv.cover_of_held here out uncounted free))
      ok' published' alike

theorem Inv.handing {record : Nat} (here : s.threads t = .handing record) :
    Inv D { s.goes t .handed with delivered := s.delivered ++ [record] } where
  guarded := inv.guarded.goes here rfl
  owned := inv.owned.goes here le_rfl rfl rfl trivial
  balanced := inv.balanced.goes here rfl
  accounted := by
    apply inv.accounted.moves here
    intro other
    simp only [CallAt.carriesOf, CallAt.carries, Option.some.injEq, reduceCtorEq, if_false,
      List.count_append, List.count_singleton, beq_iff_eq]
    dsimp only [LogSystem.goes]
    omega
  lost := inv.lost
  published := published_update inv.published trivial
  watched := inv.watched.alert here (fun _ waits => .inr ⟨waits, rfl⟩) rfl rfl

theorem Inv.publishing (here : s.threads t = .publishing) :
    Inv D { s.goes t (.heldAsking true) with sinks := true } where
  guarded := inv.guarded.goes here rfl
  owned := inv.owned.goes here le_rfl rfl rfl trivial
  balanced := inv.balanced.goes here rfl
  accounted := inv.accounted.moves here fun _ => rfl
  lost := inv.lost
  published := by
    refine published_update (fun u => (inv.published u).mono ?_ id) (.inl rfl)
    exact fun _ => rfl
  watched := inv.watched.alert here (fun _ waits => .inr ⟨waits, rfl⟩) rfl rfl

theorem Inv.storingLen {idx : Nat} (here : s.threads t = .storingLen idx) :
    Inv D { s.goes t (.unlocking true) with added := idx + 1 } where
  guarded := inv.guarded.goes here rfl
  owned := inv.owned.goes here le_rfl rfl rfl trivial
  balanced := inv.balanced.goes here rfl
  accounted := inv.accounted.moves here fun _ => rfl
  lost := inv.lost
  published := by
    refine published_update (fun u => (inv.published u).mono id ?_) (.inr (Nat.succ_pos idx))
    exact fun _ => Nat.succ_pos idx
  watched := inv.watched.alert here (fun _ waits => .inr ⟨waits, rfl⟩) rfl rfl

end

theorem fresh_of_handsOver {record k : Nat} {found : Bool}
    (here : s.threads t = .holding record found (.numbering k))
    (handsOver : s.handsOver D w (.access t) = true) : s.nextSeq + 1 < 2 ^ w := by
  rw [LogSystem.handsOver, here] at handsOver
  cases found with
  | false | true => exact of_decide_eq_true handsOver

theorem kept_of_handsOver {record : Nat} (here : s.threads t = .holding record false .counting)
    (handsOver : s.handsOver D w (.access t) = true) : ¬ s.forsaken D := by
  rw [LogSystem.handsOver, here] at handsOver
  rintro ⟨installed, gone, k, inside, ready⟩
  simp only [installed, Bool.not_true, Bool.false_or, Bool.or_eq_true, decide_eq_true_eq,
    List.all_eq_true, List.mem_range] at handsOver
  rcases handsOver with ⟨u, engaged | last⟩ | empty
  · rw [(gone u).1] at engaged
    cases engaged
  · rw [(gone u).2] at last
    cases last
  · exact empty k inside ready

theorem Inv.access {warn : Bool} {after : LogSystem T} (inv : Inv D s)
    (handsOver : s.handsOver D w (.access t) = true)
    (stepped : s.access D w warn t = some after) : Inv D after := by
  have published := inv.published t
  cases here : s.threads t <;> rw [LogSystem.access, here] at stepped <;> cases stepped
  case asking record =>
    split
    next => exact inv.alerts here
    next => exact inv.calm here
  case askingAdded record =>
    split
    next => exact inv.alerts here
    next => exact inv.calm here
  case trying record => exact inv.tries here
  case handing record => exact inv.handing here
  case handed => exact inv.alerts here
  case holding record found at_ =>
    apply inv.holdStep here
    · rintro k rfl
      exact fresh_of_handsOver here handsOver
    · rintro rfl rfl
      exact kept_of_handsOver here handsOver
  case retrying => exact inv.tries here
  case publishing => exact inv.publishing here
  case locking =>
    split
    next => exact inv
    next =>
      have moved : Inv D (s.goes t .adding) := inv.calm here
      exact { moved with }
  case adding =>
    split
    next => exact inv.calm here
    next => exact inv.calm here
  case storingLen idx => exact inv.storingLen here
  case unlocking installed =>
    rw [here] at published
    cases installed with
    | true =>
      have moved : Inv D (s.goes t (.heldAsking true)) := inv.alerts here published
      exact { moved with }
    | false =>
      have moved : Inv D (s.goes t .idle) := inv.calm here
      exact { moved with }
  case heldAsking installed =>
    rw [here] at published
    split
    next => exact inv.alerts here
    next none =>
      cases installed with
      | true => exact inv.alerts here (published.resolve_left none)
      | false => exact inv.calm here
  case heldAskingAdded installed =>
    rw [here] at published
    split
    next => exact inv.alerts here
    next none =>
      cases installed with
      | true => exact absurd published none
      | false => exact inv.calm here
  case heldPending =>
    split
    next => exact inv.alerts here
    next zero =>
      refine inv.goes here (inv.watched.leaves here rfl rfl ?_) trivial trivial
        ⟨rfl, rfl, rfl, rfl, rfl⟩
      exact inv.cover_of_zero here rfl (not_not.mp zero)
  case heldLost => exact inv.calm here
  case heldReported lost =>
    split
    next => exact inv.alerts here
    next => exact inv.calm here
  case heldTrying => exact inv.tries here
  case draining pass at_ => exact inv.passStep here warn
  case rechecking pass =>
    split
    next => exact inv.alerts here
    next zero =>
      refine inv.goes here (inv.watched.leaves here rfl rfl ?_) trivial trivial
        ⟨rfl, rfl, rfl, rfl, rfl⟩
      exact inv.cover_of_zero here rfl (not_not.mp zero)
  case reacquiring pass => exact inv.tries here

end Calls

theorem Inv.new (T D : Nat) : Inv D (LogSystem.new T) where
  guarded := by
    intro t
    exact iff_of_false Bool.false_ne_true nofun
  owned := ⟨nofun, nofun, nofun, fun _ => trivial, nofun, nofun, nofun⟩
  balanced := by simp [Balanced, LogSystem.new, CallAt.weight, HoldSlot.occupied]
  accounted := by
    intro record
    simp [LogSystem.new, CallAt.carriesOf, CallAt.carries, HoldSlot.keepsOf]
  lost := rfl
  published := fun _ => trivial
  watched := ⟨nofun, nofun⟩

theorem call_cases {at_ : CallAt} {after : LogSystem T} (stepped : s.call t at_ = some after) :
    s.threads t = .idle ∧ after = s.goes t at_ := by
  dsimp only [LogSystem.call] at stepped
  split at stepped
  next here =>
    cases stepped
    exact ⟨here, rfl⟩
  next => cases stepped

theorem Inv.raise (inv : Inv D s) (here : s.threads t = .idle) :
    Inv D { s.goes t (.asking s.raised) with raised := s.raised + 1 } where
  guarded := inv.guarded.goes here rfl
  owned := inv.owned.goes here le_rfl rfl rfl trivial
  balanced := inv.balanced.goes here rfl
  accounted := by
    apply inv.accounted.goes here
    intro record
    have later : (if record < s.raised + 1 then 1 else 0) =
        (if s.raised = record then 1 else 0) + if record < s.raised then 1 else 0 := by
      rcases Nat.lt_trichotomy record s.raised with below | same | above
      · rw [if_pos (Nat.lt_succ_of_lt below), if_neg (Nat.ne_of_gt below), if_pos below]
      · rw [if_pos (Nat.lt_succ_of_le same.le), if_pos same.symm, if_neg same.not_lt]
      · rw [if_neg (Nat.not_lt.mpr above), if_neg (Nat.ne_of_lt above), if_neg above.not_gt]
    simp only [CallAt.carriesOf, CallAt.carries, Option.some.injEq, reduceCtorEq, if_false, later,
      LogSystem.goes]
    ring
  lost := inv.lost
  published := published_update inv.published trivial
  watched := inv.watched.calm here waits_same rfl (fun _ _ => rfl) rfl

theorem Inv.step {warn : Bool} {after : LogSystem T} {action : Action T} (inv : Inv D s)
    (handsOver : s.handsOver D w action = true) (stepped : s.step D w warn action = some after) :
    Inv D after := by
  cases action with
  | raise t =>
    rcases Option.map_eq_some_iff.mp stepped with ⟨next, called, rfl⟩
    rcases call_cases called with ⟨here, rfl⟩
    exact inv.raise here
  | flush t | init t | addSink t =>
    rcases call_cases stepped with ⟨here, rfl⟩
    exact inv.calm here
  | access t => exact inv.access handsOver stepped

theorem Inv.late_of_idle (inv : Inv D s) (installed : s.installed = true)
    (over_ : ∀ t, s.threads t = .idle) (k : Nat) (used : (s.slots k).state ≠ .empty) :
    (s.slots k).cell ∈ s.late := by
  cases state : (s.slots k).state with
  | empty => exact absurd state used
  | writing =>
    rcases inv.owned.written k state with ⟨t, writes⟩
    rw [over_ t] at writes
    cases writes
  | reading =>
    rcases inv.owned.read k state with ⟨t, reads⟩
    rw [over_ t] at reads
    cases reads
  | ready =>
    by_contra early
    rcases inv.watched.covered installed k ⟨state, early⟩ with ⟨t, alert | sees⟩
    · rw [over_ t] at alert
      cases alert
    · rw [over_ t] at sees
      cases sees

theorem Inv.sound (inv : Inv D s) : s.Sound D where
  alone := by
    intro t u first second
    have mine := (inv.guarded t).mp (CallAt.holds_of_delivers first)
    have other := (inv.guarded u).mp (CallAt.holds_of_delivers second)
    exact Option.some.inj (mine.symm.trans other)
  once := by
    intro record raised
    have accounted := inv.accounted record
    rw [if_pos raised] at accounted
    exact accounted
  counted := inv.lost
  handedOver := inv.late_of_idle

namespace LogSystem

def accesses {T : Nat} (t : Fin T) (n : Nat) : List (Action T) := List.replicate n (.access t)

/-- A record is held before a sink is there, and `init` delivers it. -/
def replayed : List (Action 2) :=
  .raise 0 :: accesses 0 8 ++ .init 1 :: accesses 1 18

/-- A raiser finds no sink. Before it holds its record, `init` publishes one, finds nothing held and
returns. -/
def stranded : List (Action 2) :=
  .raise 0 :: accesses 0 2 ++ .init 1 :: accesses 1 5 ++ accesses 0 6

end LogSystem

end NanoRos.Dispatch
