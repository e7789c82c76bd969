import Mathlib.Data.List.Nodup
import NostrQ.Database.Store

/-!
# The dead-letter table beside the messages

A message is dead when its status says so, and it is listed when the dead-letter
table has an entry for it.  The two are separate tables, and only the calls that
bury or retry a message write both of them.
-/

namespace NostrQ.Database

open NostrQ.Foundation

structure DlqRecord where
  mid : String
  queue : String
  reason : String
  attempts : U32
  deadAt : Int
  deriving DecidableEq

structure QueueStats where
  pending : U32
  inFlight : U32
  acked : U32
  dead : U32
  expired : U32
  oldestPendingAgeSecs : Option Int
  deriving DecidableEq

def DlqRow.toRecord (entry : DlqRow) : Except StoreError DlqRecord :=
  if h : entry.attempts < 4294967296 then
    .ok ⟨entry.mid, entry.queue, entry.reason, ⟨entry.attempts, h⟩, entry.deadAt⟩
  else .error .outOfRange

namespace Store

/-- The entries of one queue, or all of them, in the order of their deaths. -/
def dlqList (scan : Scan DlqRow) (s : Store) (queue : Option String) :
    Except StoreError (List DlqRecord) :=
  let entries : List DlqRow := match queue with
    | some name => s.dlq.filter fun entry => entry.queue = name
    | none => s.dlq
  (scan.orderBy (·.deadAt) entries).mapM DlqRow.toRecord

def count (s : Store) (queue : String) (status : Status) :
    Except StoreError U32 :=
  let rows := s.messages.rows.filter fun row =>
    row.queue = queue ∧ row.status = status
  if h : rows.length < 4294967296 then .ok ⟨rows.length, h⟩
  else .error .outOfRange

def oldestPending (s : Store) (queue : String) : Option Int :=
  ((s.messages.rows.filter fun row =>
    row.queue = queue ∧ row.status = .pending).map (·.createdAt)).min?

def stats (s : Store) (queue : String) (now : Int) :
    Except StoreError QueueStats := do
  let pending ← s.count queue .pending
  let inFlight ← s.count queue .claimed
  let acked ← s.count queue .acked
  let dead ← s.count queue .dead
  let expired ← s.count queue .expired
  .ok {
    pending := pending
    inFlight := inFlight
    acked := acked
    dead := dead
    expired := expired
    oldestPendingAgeSecs :=
      (s.oldestPending queue).map fun created => toI64 (now - created) }

/-- A message is dead if and only if it is listed, once and under its queue. -/
structure InStep (s : Store) : Prop where
  dead_iff : ∀ mid, (∃ row ∈ s.row? mid, row.status = .dead) ↔
    ∃ entry ∈ s.dlq, entry.mid = mid
  once : (s.dlq.map DlqRow.mid).Nodup
  queue : ∀ entry ∈ s.dlq, ∀ row ∈ s.row? entry.mid, row.queue = entry.queue

variable {s s' : Store} {mid : String}

theorem inStep_empty : Store.empty.InStep where
  dead_iff := by
    intro mid
    constructor
    · rintro ⟨row, hrow, -⟩
      contradiction
    · rintro ⟨entry, hentry, -⟩
      contradiction
  once := .nil
  queue := by
    intro entry hentry
    contradiction

/-! ## What the writes do to it -/

theorem InStep.moves {change : Progress → Progress} (h : s.InStep)
    (hmoves : s.Moves s' mid change) (hdlq : s'.dlq = s.dlq)
    (hstatus : ∀ row ∈ s.row? mid,
      (change row.toProgress).status = .dead ↔ row.status = .dead) :
    s'.InStep where
  dead_iff := by
    intro other
    rw [hdlq, ← h.dead_iff other, hmoves other]
    split
    · next heq =>
        subst heq
        cases hrow : s.row? other with
        | none => simp
        | some row => simpa using hstatus row hrow
    · exact Iff.rfl
  once := hdlq ▸ h.once
  queue := by
    intro entry hentry row' hrow'
    rw [hdlq] at hentry
    obtain ⟨row, progress, hrow, rfl⟩ := hmoves.rewrites.row hrow'
    exact h.queue entry hentry row hrow

theorem update_dlq (change : Progress → Progress) :
    (s.update mid change).2.dlq = s.dlq := by
  unfold update
  split <;> rfl

theorem incrAttempts_dlq : (s.incrAttempts mid).2.dlq = s.dlq := by
  unfold incrAttempts
  dsimp only
  split
  · rfl
  · split <;> rfl

theorem InStep.update {change : Progress → Progress} (h : s.InStep)
    (hspared : ∀ row ∈ s.row? mid, row.status ≠ .dead)
    (hchange : ∀ p, (change p).status ≠ .dead) :
    (s.update mid change).2.InStep :=
  h.moves (update_moves change) (update_dlq change) fun row hrow =>
    ⟨fun hdead => absurd hdead (hchange _),
      fun hdead => absurd hdead (hspared row hrow)⟩

theorem InStep.incrAttempts (h : s.InStep) : (s.incrAttempts mid).2.InStep :=
  h.moves incrAttempts_moves incrAttempts_dlq fun _ _ => Iff.rfl

theorem InStep.expireDue (h : s.InStep) (queue : String) (now : Int) :
    (s.expireDue queue now).2.InStep where
  dead_iff := by
    intro other
    rw [show (s.expireDue queue now).2.dlq = s.dlq from rfl,
      ← h.dead_iff other, expireDue_row?]
    cases hrow : s.row? other with
    | none => simp
    | some row =>
        by_cases hdue : Due queue now row
        · have hlive : row.status ≠ .dead := by
            rcases hdue.2.1 with hstatus | hstatus <;> simp [hstatus]
          simp [hdue, hlive]
        · simp [hdue]
  once := h.once
  queue := by
    intro entry hentry row' hrow'
    obtain ⟨row, progress, hrow, rfl⟩ :=
      (expireDue_rewrites queue now).row hrow'
    exact h.queue entry hentry row hrow

theorem InStep.insertMessage (h : s.InStep) {rec : MessageRecord}
    (hstatus : rec.status ≠ .dead) : (s.insertMessage rec).2.InStep := by
  have keeps : ∀ {other : String} {row : Row}, s.row? other = some row →
      (s.insertMessage rec).2.row? other = some row :=
    fun hrow => insertMessage_row?_of_some hrow
  have dead : ∀ {other : String} {row : Row},
      (s.insertMessage rec).2.row? other = some row → row.status = .dead →
      s.row? other = some row := by
    intro other row hrow hdead
    rcases insertMessage_row? hrow with hold | rfl
    · exact hold
    · exact absurd hdead hstatus
  refine ⟨fun other => ?_, h.once, ?_⟩
  · rw [show (s.insertMessage rec).2.dlq = s.dlq from rfl, ← h.dead_iff other]
    constructor
    · rintro ⟨row, hrow, hdead⟩
      exact ⟨row, dead hrow hdead, hdead⟩
    · rintro ⟨row, hrow, hdead⟩
      exact ⟨row, keeps hrow, hdead⟩
  · intro entry hentry row hrow
    -- A listed message has its row already, so this is not the inserted one.
    obtain ⟨old, hold, -⟩ := (h.dead_iff entry.mid).mpr ⟨entry, hentry, rfl⟩
    cases (keeps hold).symm.trans hrow
    exact h.queue entry hentry _ hold

private theorem InStep.buried {change : Progress → Progress} {entry : DlqRow}
    {row : Row} (h : s.InStep) (hmoves : s.Moves s' mid change)
    (hchange : ∀ p, (change p).status = .dead) (hrow : s.row? mid = some row)
    (hmid : entry.mid = mid) (hqueue : entry.queue = row.queue)
    (hdlq : s'.dlq = (s.dlq.filter fun old => old.mid ≠ mid) ++ [entry]) :
    s'.InStep where
  dead_iff := by
    intro other
    rw [hmoves other, hdlq]
    by_cases heq : other = mid
    · subst heq
      simp [hrow, hchange, hmid]
    · rw [if_neg heq, h.dead_iff other]
      constructor
      · rintro ⟨old, hold, rfl⟩
        exact ⟨old, by simp [hold, heq], rfl⟩
      · rintro ⟨old, hold, rfl⟩
        rcases List.mem_append.mp hold with hkept | hnew
        · exact ⟨old, List.mem_of_mem_filter hkept, rfl⟩
        · rw [List.mem_singleton.mp hnew] at heq
          exact absurd hmid heq
  once := by
    have hkept : ((s.dlq.filter fun old => old.mid ≠ mid).map
        DlqRow.mid).Nodup := h.once.sublist (List.filter_sublist.map _)
    rw [hdlq, List.map_append, List.nodup_append]
    refine ⟨hkept, List.nodup_singleton _, ?_⟩
    intro a ha b hb hab
    obtain ⟨old, hold, rfl⟩ := List.mem_map.mp ha
    have hne := (List.mem_filter.mp hold).2
    rw [List.mem_singleton.mp hb, hmid] at hab
    simp [hab] at hne
  queue := by
    intro listed hlisted row' hrow'
    rw [hdlq] at hlisted
    obtain ⟨old, progress, hold, rfl⟩ := hmoves.rewrites.row hrow'
    rcases List.mem_append.mp hlisted with hkept | hnew
    · exact h.queue listed (List.mem_of_mem_filter hkept) old hold
    · rw [List.mem_singleton.mp hnew, hmid] at hold
      cases hrow.symm.trans hold
      rw [List.mem_singleton.mp hnew]
      exact hqueue.symm

private theorem update_cases (change : Progress → Progress) :
    (s.update mid change = (.error (.noMessage mid), s)) ∨
    ∃ row s', s.row? mid = some row ∧ s.update mid change = (.ok (), s') ∧
      s.Moves s' mid change ∧ s'.dlq = s.dlq := by
  have hmoves := @update_moves s mid change
  have hdlq := @update_dlq s mid change
  unfold update at hmoves hdlq ⊢
  cases hrow : s.messages.row? mid with
  | none => exact Or.inl rfl
  | some row =>
      rw [hrow] at hmoves hdlq
      exact Or.inr ⟨row, _, hrow, rfl, hmoves, hdlq⟩

private theorem InStep.listDead {change : Progress → Progress} {row : Row}
    (h : s.InStep) (hmoves : s.Moves s' mid change) (hdlq : s'.dlq = s.dlq)
    (hchange : ∀ p, (change p).status = .dead) (hrow : s.row? mid = some row)
    (reason : String) (now : Int) : (s'.listDead mid reason now).InStep := by
  have hrow' : s'.messages.row? mid = some (row.set (change row.toProgress)) :=
    hmoves.row hrow
  refine @InStep.buried s _ mid change ⟨mid, row.queue, reason,
    (change row.toProgress).attempts, now⟩ row h ?_ hchange hrow rfl rfl ?_
  · intro other
    rw [listDead_row?]
    exact hmoves other
  · simp only [Store.listDead, hrow', hdlq]
    rfl

theorem InStep.moveToDlq (h : s.InStep) (reason : String) (now : Int) :
    (s.moveToDlq mid reason now).2.InStep := by
  unfold Store.moveToDlq
  rcases @update_cases s mid .bury with heq | ⟨row, s', hrow, heq, hmoves, hdlq⟩
  · rw [heq]
    exact h
  · rw [heq]
    exact h.listDead hmoves hdlq (fun _ => rfl) hrow reason now

theorem InStep.moveToDlqAt (h : s.InStep) (reason : String) (attempt : U32)
    (now : Int) : (s.moveToDlqAt mid reason attempt now).2.InStep := by
  unfold Store.moveToDlqAt
  rcases @update_cases s mid fun p => p.buryAt attempt with
    heq | ⟨row, s', hrow, heq, hmoves, hdlq⟩
  · rw [heq]
    exact h
  · rw [heq]
    exact h.listDead hmoves hdlq (fun _ => rfl) hrow reason now

theorem InStep.dlqRetry (h : s.InStep) (mid : String) :
    (s.dlqRetry mid).2.InStep := by
  unfold Store.dlqRetry
  rcases @update_cases s mid .retry with heq | ⟨row, s', hrow, heq, hmoves, hdlq⟩
  · rw [heq]
    exact h
  · rw [heq]
    refine ⟨fun other => ?_, ?_, ?_⟩
    · change (∃ row ∈ s'.row? other, row.status = .dead) ↔
        ∃ entry ∈ s'.dlq.filter fun entry => entry.mid ≠ mid, entry.mid = other
      rw [hmoves other, hdlq]
      by_cases hother : other = mid
      · subst hother
        simp [hrow]
      · rw [if_neg hother, h.dead_iff other]
        constructor
        · rintro ⟨entry, hentry, rfl⟩
          exact ⟨entry, by simp [hentry, hother], rfl⟩
        · rintro ⟨entry, hentry, rfl⟩
          exact ⟨entry, List.mem_of_mem_filter hentry, rfl⟩
    · exact (hdlq ▸ h.once).sublist (List.filter_sublist.map _)
    · intro entry hentry row' hrow'
      obtain ⟨old, progress, hold, rfl⟩ := hmoves.rewrites.row hrow'
      have hlisted := List.mem_of_mem_filter hentry
      rw [hdlq] at hlisted
      exact h.queue entry hlisted old hold

/-! ## Counting the dead -/

theorem InStep.dead_length (h : s.InStep) (queue : String) :
    (s.messages.rows.filter fun row =>
      row.queue = queue ∧ row.status = .dead).length =
    (s.dlq.filter fun entry => entry.queue = queue).length := by
  have hperm : ((s.messages.rows.filter fun row =>
      row.queue = queue ∧ row.status = .dead).map Row.mid).Perm
      ((s.dlq.filter fun entry => entry.queue = queue).map DlqRow.mid) := by
    rw [List.perm_ext_iff_of_nodup
      (s.messages.nodup_mid.sublist (List.filter_sublist.map _))
      (h.once.sublist (List.filter_sublist.map _))]
    intro mid
    simp only [List.mem_map, List.mem_filter, decide_eq_true_eq]
    constructor
    · rintro ⟨row, ⟨hrow, hqueue, hdead⟩, rfl⟩
      have hrow' := Messages.row?_of_mem hrow
      obtain ⟨entry, hentry, hmid⟩ := (h.dead_iff row.mid).mp ⟨row, hrow', hdead⟩
      have hsame := h.queue entry hentry row (hmid ▸ hrow')
      exact ⟨entry, ⟨hentry, hsame.symm.trans hqueue⟩, hmid⟩
    · rintro ⟨entry, ⟨hentry, hqueue⟩, rfl⟩
      obtain ⟨row, hrow, hdead⟩ := (h.dead_iff entry.mid).mpr ⟨entry, hentry, rfl⟩
      obtain ⟨hmem, hmid⟩ := Messages.row?_mem hrow
      exact ⟨row, ⟨hmem, (h.queue entry hentry row hrow).trans hqueue, hdead⟩, hmid⟩
  simpa using hperm.length_eq

theorem count_length {queue : String} {status : Status} {n : U32}
    (h : s.count queue status = .ok n) :
    n.val = (s.messages.rows.filter fun row =>
      row.queue = queue ∧ row.status = status).length := by
  unfold count at h
  dsimp only at h
  split at h
  · cases h
    rfl
  · contradiction

theorem stats_dead {queue : String} {now : Int} {found : QueueStats}
    (h : s.stats queue now = .ok found) :
    s.count queue .dead = .ok found.dead := by
  unfold stats at h
  cases hpending : s.count queue .pending <;>
    cases hclaimed : s.count queue .claimed <;>
    cases hacked : s.count queue .acked <;>
    cases hdead : s.count queue .dead <;>
    cases hexpired : s.count queue .expired <;>
    rw [hpending, hclaimed, hacked, hdead, hexpired] at h <;> cases h
  rfl

private theorem length_mapM_toRecord {entries : List DlqRow}
    {found : List DlqRecord} (h : entries.mapM DlqRow.toRecord = .ok found) :
    found.length = entries.length := by
  induction entries generalizing found with
  | nil =>
      cases h
      rfl
  | cons first rest ih =>
      rw [List.mapM_cons] at h
      cases hfirst : first.toRecord with
      | error e =>
          rw [hfirst] at h
          contradiction
      | ok record =>
          cases hrest : rest.mapM DlqRow.toRecord with
          | error e =>
              rw [hfirst, hrest] at h
              contradiction
          | ok records =>
              rw [hfirst, hrest] at h
              cases h
              rw [List.length_cons, List.length_cons, ih hrest]

theorem dlqList_length {scan : Scan DlqRow} {queue : String}
    {found : List DlqRecord} (h : s.dlqList scan (some queue) = .ok found) :
    found.length = (s.dlq.filter fun entry => entry.queue = queue).length := by
  rw [length_mapM_toRecord h, Scan.length_orderBy]

theorem InStep.stats_eq_dlqList (h : s.InStep) {scan : Scan DlqRow}
    {queue : String} {now : Int} {found : QueueStats} {listed : List DlqRecord}
    (hstats : s.stats queue now = .ok found)
    (hlist : s.dlqList scan (some queue) = .ok listed) :
    found.dead.val = listed.length := by
  rw [count_length (stats_dead hstats), h.dead_length, dlqList_length hlist]

end Store

end NostrQ.Database
