import NostrQ.Database.Store

/-!
# The retry generation of a row

A row carries a counter and a floor, and the distance between them is the retry
budget spent so far.  One statement copies the counter to the floor; every other
statement leaves the floor and does not lower the counter.
-/

namespace NostrQ.Database

open NostrQ.Foundation

namespace Store

def Floored (s : Store) : Prop :=
  ∀ mid row, s.row? mid = some row → row.attemptFloor ≤ row.attempts

def Advances (s s' : Store) : Prop :=
  ∀ mid row, s.row? mid = some row → ∃ row', s'.row? mid = some row' ∧
    row.attempts ≤ row'.attempts ∧ row.attemptFloor ≤ row'.attemptFloor

def KeepsFloor (s s' : Store) (mid : String) : Prop :=
  ∀ row, s.row? mid = some row → ∃ row', s'.row? mid = some row' ∧
    row'.attemptFloor = row.attemptFloor

/-- What a store call does to the counters, with the message that it retries. -/
inductive Turns (s s' : Store) : Option String → Prop where
  | raised : s.Rewrites s' → s.Raises s' → Turns s s' none
  | inserted {rec : MessageRecord} :
      rec.attemptFloor = 0 → s' = (s.insertMessage rec).2 → Turns s s' none
  | retried {mid : String} : s.Moves s' mid .retry → Turns s s' (some mid)

variable {s s' s'' : Store} {retried : Option String}

theorem Advances.refl (s : Store) : s.Advances s :=
  fun _ row hrow => ⟨row, hrow, le_rfl, le_rfl⟩

theorem Advances.trans (h : s.Advances s') (h' : s'.Advances s'') :
    s.Advances s'' := by
  intro mid row hrow
  obtain ⟨row', hrow', hattempts, hfloor⟩ := h mid row hrow
  obtain ⟨row'', hrow'', hattempts', hfloor'⟩ := h' mid row' hrow'
  exact ⟨row'', hrow'', by omega, by omega⟩

theorem Turns.refl (s : Store) : s.Turns s none :=
  .raised (Rewrites.refl s) (Raises.refl s)

theorem Moves.turns {mid : String} {change : Progress → Progress}
    (h : s.Moves s' mid change)
    (hattempts : ∀ p, p.attempts ≤ (change p).attempts)
    (hfloor : ∀ p, (change p).attemptFloor = p.attemptFloor) :
    s.Turns s' none :=
  .raised h.rewrites (h.raises hattempts hfloor)

private theorem rewritten {mid : String} {row : Row} (h : s.Rewrites s')
    (hraises : s.Raises s') (hrow : s.row? mid = some row) :
    ∃ row', s'.row? mid = some row' ∧ row.attempts ≤ row'.attempts ∧
      row'.attemptFloor = row.attemptFloor := by
  obtain ⟨progress, hrow'⟩ := h.keeps mid row hrow
  obtain ⟨old, hold, hattempts, hfloor⟩ := hraises mid _ hrow'
  cases hrow.symm.trans hold
  exact ⟨_, hrow', hattempts, hfloor⟩

theorem Turns.advances (h : s.Turns s' retried) (hfloored : s.Floored) :
    s.Advances s' := by
  intro mid row hrow
  cases h with
  | raised hrewrites hraises =>
      obtain ⟨row', hrow', hattempts, hfloor⟩ :=
        rewritten hrewrites hraises hrow
      exact ⟨row', hrow', hattempts, by omega⟩
  | inserted _ hs =>
      rw [hs]
      exact ⟨row, insertMessage_row?_of_some hrow, le_rfl, le_rfl⟩
  | @retried target hmoves =>
      by_cases heq : mid = target
      · -- The floor rises to the counter, which is above it already.
        subst heq
        exact ⟨_, hmoves.row hrow, le_rfl, hfloored mid row hrow⟩
      · exact ⟨row, by rw [hmoves mid, if_neg heq, hrow], le_rfl, le_rfl⟩

theorem Turns.floored (h : s.Turns s' retried) (hfloored : s.Floored) :
    s'.Floored := by
  intro mid row' hrow'
  cases h with
  | raised _ hraises =>
      obtain ⟨row, hrow, hattempts, hfloor⟩ := hraises mid row' hrow'
      have hle := hfloored mid row hrow
      omega
  | @inserted rec hzero hs =>
      rw [hs] at hrow'
      rcases insertMessage_row? hrow' with hold | rfl
      · exact hfloored mid row' hold
      · have hfloor : rec.toRow.attemptFloor = 0 := by
          simp [MessageRecord.toRow, hzero]
        omega
  | retried hmoves =>
      rcases hmoves.row_cases hrow' with ⟨-, row, -, rfl⟩ | hold
      · exact le_rfl
      · exact hfloored mid row' hold

theorem Turns.keepsFloor {mid : String} (h : s.Turns s' retried)
    (hspared : retried ≠ some mid) : s.KeepsFloor s' mid := by
  intro row hrow
  cases h with
  | raised hrewrites hraises =>
      obtain ⟨row', hrow', -, hfloor⟩ := rewritten hrewrites hraises hrow
      exact ⟨row', hrow', hfloor⟩
  | inserted _ hs =>
      rw [hs]
      exact ⟨row, insertMessage_row?_of_some hrow, rfl⟩
  | retried hmoves =>
      have hne : ¬ mid = _ := fun heq => hspared (congrArg some heq.symm)
      exact ⟨row, by rw [hmoves mid, if_neg hne, hrow], rfl⟩

end Store

end NostrQ.Database
