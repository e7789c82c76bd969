import NostrQ.Database.Store

/-!
# Counters that decode

The table's counters are wider than the words they are read into, and a query
fails as a whole when one of its rows does not decode.  Every `UPDATE` but one
writes counters that decode again; the exception adds one to a counter.
-/

namespace NostrQ.Database

open NostrQ.Foundation

namespace Progress

def InRange (p : Progress) : Prop :=
  p.attempts < 4294967296 ∧ p.attemptFloor < 4294967296

variable {p : Progress}

theorem InRange.claim (h : p.InRange) (consumer : String) (lease : Int)
    (attempt : U32) : (p.claim consumer lease attempt).InRange :=
  ⟨max_lt h.1 attempt.isLt, h.2⟩

theorem InRange.buryAt (h : p.InRange) (attempt : U32) :
    (p.buryAt attempt).InRange :=
  ⟨max_lt h.1 attempt.isLt, h.2⟩

theorem InRange.retry (h : p.InRange) : p.retry.InRange := ⟨h.1, h.1⟩

theorem InRange.count (h : p.InRange) (hroom : p.attempts + 1 < 4294967296) :
    p.count.InRange :=
  ⟨hroom, h.2⟩

end Progress

namespace Store

def Decodable (s : Store) : Prop :=
  ∀ mid row, s.row? mid = some row → row.Decodes

variable {s s' : Store} {mid : String}

theorem decodable_empty : Store.empty.Decodable := by
  intro mid row hrow
  contradiction

theorem Decodable.rows (h : s.Decodable) :
    ∀ row ∈ s.messages.rows, row.Decodes :=
  fun _ hrow => h _ _ (Messages.row?_of_mem hrow)

/-! ## What the writes do to it -/

theorem Moves.decodable {change : Progress → Progress}
    (h : s.Moves s' mid change) (hs : s.Decodable)
    (hchange : ∀ row, s.row? mid = some row → row.toProgress.InRange →
      (change row.toProgress).InRange) : s'.Decodable := by
  intro other row' hrow'
  rcases h.row_cases hrow' with ⟨rfl, row, hrow, rfl⟩ | hold
  · exact hchange row hrow (hs other row hrow)
  · exact hs other row' hold

theorem Decodable.insertMessage (h : s.Decodable) (rec : MessageRecord) :
    (s.insertMessage rec).2.Decodable := by
  intro mid row hrow
  rcases insertMessage_row? hrow with hold | rfl
  · exact h mid row hold
  · exact ⟨rec.attempts.isLt, rec.attemptFloor.isLt⟩

theorem Decodable.expireDue (h : s.Decodable) (queue : String) (now : Int) :
    (s.expireDue queue now).2.Decodable := by
  intro mid row' hrow'
  rw [expireDue_row?] at hrow'
  obtain ⟨row, hrow, rfl⟩ := Option.map_eq_some_iff.mp hrow'
  split
  · exact h mid row hrow
  · exact h mid row hrow

theorem Decodable.incrAttempts (h : s.Decodable)
    (hroom : ∀ row, s.row? mid = some row → row.attempts + 1 < 4294967296) :
    (s.incrAttempts mid).2.Decodable :=
  incrAttempts_moves.decodable h fun row hrow hin => hin.count (hroom row hrow)

theorem Decodable.dlqRetry (h : s.Decodable) (mid : String) :
    (s.dlqRetry mid).2.Decodable :=
  dlqRetry_moves.decodable h fun _ _ hin => hin.retry

/-! ## What decodable rows are good for -/

theorem decode_ok {row : Row} (h : row.Decodes) :
    ∃ rec, decode row = .ok rec := by
  obtain ⟨rec, hrec⟩ := Option.isSome_iff_exists.mp (Row.toMessage_isSome.mpr h)
  exact ⟨rec, by rw [decode, hrec]⟩

theorem mapM_decode_ok {rows : List Row} (h : ∀ row ∈ rows, row.Decodes) :
    ∃ batch, rows.mapM decode = .ok batch := by
  induction rows with
  | nil => exact ⟨[], rfl⟩
  | cons row rest ih =>
      obtain ⟨rec, hrec⟩ := decode_ok (h row (by simp))
      obtain ⟨batch, hbatch⟩ := ih fun other hmem => h other (by simp [hmem])
      exact ⟨rec :: batch, by simp only [List.mapM_cons, hrec, hbatch]; rfl⟩

theorem Decodable.getMessage (h : s.Decodable) (mid : String) :
    ∃ found, s.getMessage mid = .ok found := by
  unfold Store.getMessage
  split
  · exact ⟨none, rfl⟩
  · next row hrow =>
      obtain ⟨rec, hrec⟩ := decode_ok (h mid row hrow)
      exact ⟨some rec, by rw [hrec]; rfl⟩

theorem Moves.getMessage {change : Progress → Progress} {rec : MessageRecord}
    (h : s.Moves s' mid change) (hget : s.getMessage mid = .ok (some rec))
    (hchange : ∀ p : Progress, p.InRange → (change p).InRange) :
    ∃ row rec', s.row? mid = some row ∧ row.Shows rec ∧
      s'.getMessage mid = .ok (some rec') ∧
      (row.set (change row.toProgress)).Shows rec' := by
  obtain ⟨row, hrow, hshows⟩ := getMessage_shows hget
  have hrange : row.toProgress.InRange := by
    refine ⟨?_, ?_⟩
    · rw [← hshows.attempts]
      exact rec.attempts.isLt
    · rw [← hshows.attemptFloor]
      exact rec.attemptFloor.isLt
  obtain ⟨rec', hrec'⟩ := decode_ok
    (show (row.set (change row.toProgress)).Decodes from hchange _ hrange)
  have hmoved : s'.messages.row? mid = _ := h.row hrow
  refine ⟨row, rec', hrow, hshows, ?_, shows_of_decode hrec'⟩
  rw [Store.getMessage, hmoved]
  dsimp only
  rw [hrec']
  rfl

theorem Decodable.findByIdem (h : s.Decodable) (queue key : String) :
    ∃ found, s.findByIdem queue key = .ok found := by
  unfold Store.findByIdem
  split
  · exact ⟨none, rfl⟩
  · next row hrow =>
      obtain ⟨rec, hrec⟩ := decode_ok (h.rows row (List.mem_of_find?_eq_some hrow))
      exact ⟨some rec, by rw [hrec]; rfl⟩

theorem claimable_ok {queue : String} {now : Int} (scan : Scan Row)
    (limit : U32) (h : ∀ row ∈ s.claimableRows queue now, row.Decodes) :
    ∃ batch, s.claimable scan queue now limit = .ok batch :=
  mapM_decode_ok fun row hrow =>
    h row ((scan.mem_orderBy _ _).mp (List.mem_of_mem_take hrow))

theorem Decodable.claimable (h : s.Decodable) (scan : Scan Row)
    (queue : String) (now : Int) (limit : U32) :
    ∃ batch, s.claimable scan queue now limit = .ok batch :=
  claimable_ok scan limit fun row hrow =>
    h.rows row (mem_claimableRows.mp hrow).1

theorem incrAttempts_ne_outOfRange
    (hroom : ∀ row, s.row? mid = some row → row.attempts + 1 < 4294967296) :
    (s.incrAttempts mid).1 ≠ .error .outOfRange := by
  intro h
  rw [incrAttempts_fst] at h
  split at h
  · contradiction
  · next row hrow =>
      split at h
      · contradiction
      · next hrange => exact hrange (hroom row hrow)

theorem update_ne_outOfRange (change : Progress → Progress) :
    (s.update mid change).1 ≠ .error .outOfRange := by
  unfold update
  split <;> simp

theorem moveToDlq_ne_outOfRange (reason : String) (now : Int) :
    (s.moveToDlq mid reason now).1 ≠ .error .outOfRange := by
  have h := @update_ne_outOfRange s mid .bury
  unfold moveToDlq
  split
  · next heq => rwa [heq] at h
  · simp

theorem moveToDlqAt_ne_outOfRange (reason : String) (attempt : U32)
    (now : Int) : (s.moveToDlqAt mid reason attempt now).1 ≠ .error .outOfRange := by
  have h := @update_ne_outOfRange s mid fun p => p.buryAt attempt
  unfold moveToDlqAt
  split
  · next heq => rwa [heq] at h
  · simp

end Store

end NostrQ.Database
