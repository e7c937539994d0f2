import NanoRos.Lib.Loops

/-! Parsers that return what they leave, and the tokens they took: the same tokens give the same
value before anything that may follow them. -/

namespace NanoRos

variable {ε τ α β : Type}

/-- The tokens taken are plain ones, and decide the value whatever allowed tokens come next. -/
def Takes (parse : List τ → Except ε (α × List τ)) (plain : τ → Prop) (next : List τ → Prop)
    (tokens : List τ) (value : α) (left : List τ) : Prop :=
  ∃ used, tokens = used ++ left ∧ (∀ t ∈ used, plain t) ∧
    ∀ more, next more → parse (used ++ more) = .ok (value, more)

variable {parse : List τ → Except ε (α × List τ)} {plain : τ → Prop} {next : List τ → Prop}
  {tokens left : List τ} {value : α}

theorem Takes.length_le (takes : Takes parse plain next tokens value left) :
    left.length ≤ tokens.length := by
  obtain ⟨used, rfl, -⟩ := takes
  rw [List.length_append]
  exact Nat.le_add_left _ _

theorem Takes.mono {fewer : List τ → Prop} (takes : Takes parse plain next tokens value left)
    (within : ∀ more, fewer more → next more) : Takes parse plain fewer tokens value left := by
  obtain ⟨used, whole, usedPlain, same⟩ := takes
  exact ⟨used, whole, usedPlain, fun more allowed => same more (within more allowed)⟩

theorem Takes.nothing (done : ∀ more, next more → parse more = .ok (value, more)) :
    Takes parse plain next left value left :=
  ⟨[], rfl, List.forall_mem_nil _, done⟩

theorem Takes.cons {t : τ} (isPlain : plain t)
    (takes : Takes (fun rest => parse (t :: rest)) plain next tokens value left) :
    Takes parse plain next (t :: tokens) value left := by
  obtain ⟨used, rfl, usedPlain, same⟩ := takes
  exact ⟨t :: used, rfl, List.forall_mem_cons.mpr ⟨isPlain, usedPlain⟩, same⟩

theorem Takes.bind (second : α → List τ → Except ε (β × List τ)) {after : List τ → Prop}
    {middle : List τ} {result : β} (takes : Takes parse plain next tokens value middle)
    (takesToo : Takes (second value) plain after middle result left)
    (follows : ∀ used more, middle = used ++ left → after more → next (used ++ more)) :
    Takes (fun rest => parse rest >>= fun taken => second taken.1 taken.2) plain after tokens result
      left := by
  obtain ⟨used, rfl, usedPlain, same⟩ := takes
  obtain ⟨usedToo, rfl, usedPlainToo, sameToo⟩ := takesToo
  refine ⟨used ++ usedToo, (List.append_assoc _ _ _).symm, ?_, ?_⟩
  · intro t member
    obtain first | later := List.mem_append.mp member
    · exact usedPlain t first
    · exact usedPlainToo t later
  · intro more allowed
    dsimp only
    rw [List.append_assoc, same _ (follows _ more rfl allowed), ok_bind]
    exact sameToo more allowed

end NanoRos
