import NostrQ.Core.Queue
import NostrQ.Database.Schema
import NostrQ.Foundation.OrderBy

/-!
# The local store

One function for each store call.  A call that fails still says which tables it
leaves behind: the statements executed before the failure have taken effect.
`now` is the clock reading that the call writes into a column.
-/

namespace NostrQ.Database

open NostrQ.Foundation NostrQ.Core

inductive StoreError where
  | noMessage (mid : String)
  | noRows
  | outOfRange
  deriving DecidableEq, Repr

structure DlqRow where
  mid : String
  queue : String
  reason : String
  attempts : Nat
  deadAt : Int
  deriving DecidableEq

structure Store where
  messages : Messages
  dlq : List DlqRow
  queues : List QueueConfig

def Store.empty : Store := ⟨.empty, [], []⟩

/-! ## The `SET` clauses -/

namespace Progress

def claim (p : Progress) (consumer : String) (leaseExpiresAt : Int)
    (attempt : U32) : Progress :=
  { p with
    status := .claimed
    consumer := some consumer
    leaseExpiresAt := some leaseExpiresAt
    attempts := max p.attempts attempt.val }

def ack (p : Progress) : Progress :=
  { p with status := .acked, leaseExpiresAt := none }

def requeue (p : Progress) (visibleAt : Int) : Progress :=
  { p with status := .pending, leaseExpiresAt := none, visibleAt := visibleAt }

def count (p : Progress) : Progress :=
  { p with attempts := p.attempts + 1 }

def bury (p : Progress) : Progress :=
  { p with status := .dead, leaseExpiresAt := none }

def buryAt (p : Progress) (attempt : U32) : Progress :=
  { p with
    status := .dead
    leaseExpiresAt := none
    attempts := max p.attempts attempt.val }

def retry (p : Progress) : Progress :=
  { p with
    status := .pending
    attemptFloor := p.attempts
    visibleAt := 0
    leaseExpiresAt := none }

def expire (p : Progress) : Progress :=
  { p with status := .expired, leaseExpiresAt := none }

variable (p : Progress)

@[simp] theorem claim_status (consumer : String) (lease : Int) (attempt : U32) :
    (p.claim consumer lease attempt).status = .claimed := rfl

@[simp] theorem ack_status : p.ack.status = .acked := rfl

@[simp] theorem requeue_status (visibleAt : Int) :
    (p.requeue visibleAt).status = .pending := rfl

@[simp] theorem count_status : p.count.status = p.status := rfl

@[simp] theorem bury_status : p.bury.status = .dead := rfl

@[simp] theorem buryAt_status (attempt : U32) :
    (p.buryAt attempt).status = .dead := rfl

@[simp] theorem retry_status : p.retry.status = .pending := rfl

@[simp] theorem expire_status : p.expire.status = .expired := rfl

end Progress

namespace Store

/-! ## Queries -/

def getQueue (s : Store) (name : String) : Option QueueConfig :=
  s.queues.find? fun q => q.name = name

def decode (row : Row) : Except StoreError MessageRecord :=
  match row.toMessage with
  | some rec => .ok rec
  | none => .error .outOfRange

def getMessage (s : Store) (mid : String) :
    Except StoreError (Option MessageRecord) :=
  match s.messages.row? mid with
  | none => .ok none
  | some row => (decode row).map some

def findByIdem (s : Store) (queue idemKey : String) :
    Except StoreError (Option MessageRecord) :=
  match s.messages.rows.find? fun row =>
      row.queue = queue ∧ row.idemKey = some idemKey with
  | none => .ok none
  | some row => (decode row).map some

def Claimable (queue : String) (now : Int) (row : Row) : Prop :=
  row.queue = queue ∧
    ((row.status = .pending ∧ row.visibleAt ≤ now) ∨
      (row.status = .claimed ∧ ∃ lease ∈ row.leaseExpiresAt, lease ≤ now)) ∧
    ¬ ∃ expiry ∈ row.expiresAt, expiry ≤ now

instance (queue : String) (now : Int) (row : Row) :
    Decidable (Claimable queue now row) :=
  inferInstanceAs (Decidable (_ ∧ _ ∧ _))

def claimableRows (s : Store) (queue : String) (now : Int) : List Row :=
  s.messages.rows.filter fun row => Claimable queue now row

/-- Oldest first; a single row that does not decode fails the whole batch. -/
def claimable (scan : Scan Row) (s : Store) (queue : String) (now : Int)
    (limit : U32) : Except StoreError (List MessageRecord) :=
  let ordered := scan.orderBy (·.createdAt) (s.claimableRows queue now)
  (ordered.take limit.val).mapM decode

/-- Pending or claimed, and past its expiry time. -/
def Due (queue : String) (now : Int) (row : Row) : Prop :=
  row.queue = queue ∧ (row.status = .pending ∨ row.status = .claimed) ∧
    ∃ expiry ∈ row.expiresAt, expiry ≤ now

instance (queue : String) (now : Int) (row : Row) :
    Decidable (Due queue now row) :=
  inferInstanceAs (Decidable (_ ∧ _ ∧ _))

/-! ## Mutators -/

def insertMessage (s : Store) (rec : MessageRecord) : Bool × Store :=
  let (messages, inserted) := s.messages.insert rec.toRow
  (inserted, { s with messages := messages })

def expireDue (s : Store) (queue : String) (now : Int) :
    List String × Store :=
  let due := s.messages.rows.filter fun row => Due queue now row
  (due.map (·.mid),
    { s with
      messages := s.messages.update (fun row => Due queue now row) .expire })

def update (s : Store) (mid : String) (change : Progress → Progress) :
    Except StoreError Unit × Store :=
  match s.messages.row? mid with
  | none => (.error (.noMessage mid), s)
  | some _ =>
      (.ok (), { s with
        messages := s.messages.update (fun row => row.mid = mid) change })

def markClaimed (s : Store) (mid consumer : String) (leaseExpiresAt : Int)
    (attempt : U32) : Except StoreError Unit × Store :=
  s.update mid fun p => p.claim consumer leaseExpiresAt attempt

def markAcked (s : Store) (mid : String) : Except StoreError Unit × Store :=
  s.update mid .ack

def markPending (s : Store) (mid : String) (visibleAt : Int) :
    Except StoreError Unit × Store :=
  s.update mid fun p => p.requeue visibleAt

/-- The counter moves before it is read back, and reading it back may fail. -/
def incrAttempts (s : Store) (mid : String) : Except StoreError U32 × Store :=
  let counted := { s with
    messages := s.messages.update (fun row => row.mid = mid) .count }
  match counted.messages.row? mid with
  | none => (.error .noRows, counted)
  | some row =>
      if h : row.attempts < 4294967296 then (.ok ⟨row.attempts, h⟩, counted)
      else (.error .outOfRange, counted)

/-- `INSERT OR REPLACE INTO dlq ... SELECT ... FROM messages`. -/
def listDead (s : Store) (mid reason : String) (now : Int) : Store :=
  match s.messages.row? mid with
  | none => s
  | some row =>
      { s with
        dlq := s.dlq.filter (fun entry => entry.mid ≠ mid) ++
          [⟨mid, row.queue, reason, row.attempts, now⟩] }

def moveToDlq (s : Store) (mid reason : String) (now : Int) :
    Except StoreError Unit × Store :=
  match s.update mid .bury with
  | (.error e, s') => (.error e, s')
  | (.ok (), s') => (.ok (), s'.listDead mid reason now)

def moveToDlqAt (s : Store) (mid reason : String) (attempt : U32)
    (now : Int) : Except StoreError Unit × Store :=
  match s.update mid fun p => p.buryAt attempt with
  | (.error e, s') => (.error e, s')
  | (.ok (), s') => (.ok (), s'.listDead mid reason now)

def dlqRetry (s : Store) (mid : String) : Except StoreError Unit × Store :=
  match s.update mid .retry with
  | (.error e, s') => (.error e, s')
  | (.ok (), s') =>
      (.ok (), { s' with dlq := s'.dlq.filter fun entry => entry.mid ≠ mid })

/-! ## What the calls do to a row -/

def row? (s : Store) (mid : String) : Option Row := s.messages.row? mid

variable {s : Store} {mid : String}

def Moves (s s' : Store) (mid : String) (change : Progress → Progress) :
    Prop :=
  ∀ other, s'.row? other =
    if other = mid then
      (s.row? other).map fun row => row.set (change row.toProgress)
    else s.row? other

/-- The rows stay, and only their updatable columns may differ. -/
def Rewrites (s s' : Store) : Prop :=
  ∀ mid, ∃ change : Row → Progress,
    s'.row? mid = (s.row? mid).map fun row => row.set (change row)

/-- No row's counter falls, and no row's floor changes. -/
def Raises (s s' : Store) : Prop :=
  ∀ mid row', s'.row? mid = some row' → ∃ row, s.row? mid = some row ∧
    row.attempts ≤ row'.attempts ∧ row'.attemptFloor = row.attemptFloor

theorem Raises.refl (s : Store) : s.Raises s :=
  fun _ row hrow => ⟨row, hrow, le_rfl, rfl⟩

theorem Moves.row {s s' : Store} {mid : String} {change : Progress → Progress}
    {row : Row} (h : s.Moves s' mid change) (hrow : s.row? mid = some row) :
    s'.row? mid = some (row.set (change row.toProgress)) := by
  rw [h mid, if_pos rfl, hrow, Option.map_some]

theorem Moves.moved {s s' : Store} {mid : String} {change : Progress → Progress}
    {row' : Row} (h : s.Moves s' mid change) (hrow' : s'.row? mid = some row') :
    ∃ row, s.row? mid = some row ∧ row' = row.set (change row.toProgress) := by
  rw [h mid, if_pos rfl] at hrow'
  obtain ⟨row, hrow, rfl⟩ := Option.map_eq_some_iff.mp hrow'
  exact ⟨row, hrow, rfl⟩

theorem Moves.row_cases {s s' : Store} {mid other : String}
    {change : Progress → Progress} {row' : Row} (h : s.Moves s' mid change)
    (hrow' : s'.row? other = some row') :
    (other = mid ∧ ∃ row, s.row? other = some row ∧
      row' = row.set (change row.toProgress)) ∨
    s.row? other = some row' := by
  rw [h other] at hrow'
  split at hrow'
  · next hother =>
      obtain ⟨row, hrow, rfl⟩ := Option.map_eq_some_iff.mp hrow'
      exact Or.inl ⟨hother, row, hrow, rfl⟩
  · exact Or.inr hrow'

theorem Moves.raises {s s' : Store} {mid : String}
    {change : Progress → Progress} (h : s.Moves s' mid change)
    (hattempts : ∀ p, p.attempts ≤ (change p).attempts)
    (hfloor : ∀ p, (change p).attemptFloor = p.attemptFloor) :
    s.Raises s' := by
  intro other row' hrow'
  rcases h.row_cases hrow' with ⟨-, row, hrow, rfl⟩ | hold
  · exact ⟨row, hrow, hattempts _, hfloor _⟩
  · exact ⟨row', hold, le_rfl, rfl⟩

theorem Rewrites.refl (s : Store) : s.Rewrites s :=
  fun mid => ⟨Row.toProgress, by
    have hid : (fun row : Row => row.set row.toProgress) = id := rfl
    rw [hid, Option.map_id_fun]
    rfl⟩

theorem Moves.rewrites {s s' : Store} {mid : String}
    {change : Progress → Progress} (h : s.Moves s' mid change) :
    s.Rewrites s' := by
  intro other
  by_cases heq : other = mid
  · exact ⟨fun row => change row.toProgress, by rw [h other, if_pos heq]⟩
  · obtain ⟨keep, hkeep⟩ := Rewrites.refl s other
    exact ⟨keep, by rw [h other, if_neg heq, ← hkeep]⟩

theorem Rewrites.row {s s' : Store} (h : s.Rewrites s') {mid : String}
    {row' : Row} (hrow : s'.row? mid = some row') :
    ∃ row progress, s.row? mid = some row ∧ row' = row.set progress := by
  obtain ⟨change, hchange⟩ := h mid
  rw [hchange] at hrow
  obtain ⟨row, hold, rfl⟩ := Option.map_eq_some_iff.mp hrow
  exact ⟨row, change row, hold, rfl⟩

theorem update_moves (change : Progress → Progress) :
    s.Moves (s.update mid change).2 mid change := by
  intro other
  unfold update
  cases hrow : s.messages.row? mid with
  | none =>
      by_cases heq : other = mid
      · simp [row?, heq, hrow]
      · simp [heq]
  | some row => exact Messages.row?_update_of_mid mid change other

theorem row?_of_update_ok {change : Progress → Progress} {a : Unit}
    (h : (s.update mid change).1 = .ok a) : ∃ row, s.row? mid = some row := by
  unfold update at h
  split at h
  · contradiction
  · next row hrow => exact ⟨row, hrow⟩

theorem update_ok {row : Row} (h : s.row? mid = some row)
    (change : Progress → Progress) : (s.update mid change).1 = .ok () := by
  unfold update
  rw [show s.messages.row? mid = some row from h]

theorem listDead_row? (reason : String) (now : Int) (other : String) :
    (s.listDead mid reason now).row? other = s.row? other := by
  unfold listDead
  split <;> rfl

theorem markClaimed_moves (consumer : String) (lease : Int) (attempt : U32) :
    s.Moves (s.markClaimed mid consumer lease attempt).2 mid
      fun p => p.claim consumer lease attempt :=
  update_moves _

theorem markAcked_moves : s.Moves (s.markAcked mid).2 mid .ack :=
  update_moves _

theorem markPending_moves (visibleAt : Int) :
    s.Moves (s.markPending mid visibleAt).2 mid fun p => p.requeue visibleAt :=
  update_moves _

theorem incrAttempts_moves : s.Moves (s.incrAttempts mid).2 mid .count := by
  intro other
  have h := Messages.row?_update_of_mid (m := s.messages) mid .count other
  unfold incrAttempts
  dsimp only
  split
  · exact h
  · split <;> exact h

theorem moveToDlq_moves (reason : String) (now : Int) :
    s.Moves (s.moveToDlq mid reason now).2 mid .bury := by
  intro other
  have h := @update_moves s mid .bury other
  unfold moveToDlq
  split
  · next heq => rwa [heq] at h
  · next heq => rwa [heq, ← listDead_row? reason now] at h

theorem moveToDlqAt_moves (reason : String) (attempt : U32) (now : Int) :
    s.Moves (s.moveToDlqAt mid reason attempt now).2 mid
      fun p => p.buryAt attempt := by
  intro other
  have h := @update_moves s mid (fun p => p.buryAt attempt) other
  unfold moveToDlqAt
  split
  · next heq => rwa [heq] at h
  · next heq => rwa [heq, ← listDead_row? reason now] at h

theorem moveToDlq_ok {row : Row} (h : s.row? mid = some row) (reason : String)
    (now : Int) : (s.moveToDlq mid reason now).1 = .ok () := by
  have hok := update_ok h .bury
  unfold moveToDlq
  split
  · next heq =>
      rw [heq] at hok
      contradiction
  · rfl

theorem dlqRetry_moves : s.Moves (s.dlqRetry mid).2 mid .retry := by
  intro other
  have h := @update_moves s mid .retry other
  unfold dlqRetry
  split
  · next heq => rwa [heq] at h
  · next heq => rwa [heq] at h

/-! ### The queues -/

@[simp] theorem update_queues (change : Progress → Progress) :
    (s.update mid change).2.queues = s.queues := by
  unfold update
  split <;> rfl

@[simp] theorem listDead_queues (reason : String) (now : Int) :
    (s.listDead mid reason now).queues = s.queues := by
  unfold listDead
  split <;> rfl

@[simp] theorem incrAttempts_queues :
    (s.incrAttempts mid).2.queues = s.queues := by
  unfold incrAttempts
  dsimp only
  split
  · rfl
  · split <;> rfl

@[simp] theorem moveToDlq_queues (reason : String) (now : Int) :
    (s.moveToDlq mid reason now).2.queues = s.queues := by
  have h := @update_queues s mid .bury
  unfold moveToDlq
  split
  · next heq => rwa [heq] at h
  · next heq => rwa [heq, ← listDead_queues reason now] at h

@[simp] theorem moveToDlqAt_queues (reason : String) (attempt : U32)
    (now : Int) : (s.moveToDlqAt mid reason attempt now).2.queues = s.queues := by
  have h := @update_queues s mid fun p => p.buryAt attempt
  unfold moveToDlqAt
  split
  · next heq => rwa [heq] at h
  · next heq => rwa [heq, ← listDead_queues reason now] at h

@[simp] theorem dlqRetry_queues : (s.dlqRetry mid).2.queues = s.queues := by
  have h := @update_queues s mid .retry
  unfold dlqRetry
  split
  · next heq => rwa [heq] at h
  · next heq => rwa [heq] at h

/-! ### Sweeps -/

theorem expireDue_row? (queue : String) (now : Int) (other : String) :
    (s.expireDue queue now).2.row? other =
      (s.row? other).map fun row =>
        if Due queue now row then row.set row.toProgress.expire else row := by
  simpa [expireDue, row?] using
    Messages.row?_update (fun row => decide (Due queue now row)) .expire other

theorem expireDue_rewrites (queue : String) (now : Int) :
    s.Rewrites (s.expireDue queue now).2 := by
  intro other
  refine ⟨fun row =>
    if Due queue now row then row.toProgress.expire else row.toProgress, ?_⟩
  rw [expireDue_row?]
  congr 1
  funext row
  by_cases hdue : Due queue now row
  · simp [hdue]
  · simp only [hdue, if_false]
    rfl

theorem expireDue_raises (queue : String) (now : Int) :
    s.Raises (s.expireDue queue now).2 := by
  intro other row' hrow'
  rw [expireDue_row?] at hrow'
  obtain ⟨row, hrow, rfl⟩ := Option.map_eq_some_iff.mp hrow'
  refine ⟨row, hrow, ?_⟩
  split <;> exact ⟨le_rfl, rfl⟩

theorem insertMessage_row?_of_some {rec : MessageRecord} {row : Row}
    (h : s.row? mid = some row) : (s.insertMessage rec).2.row? mid = some row :=
  Messages.row?_insert_of_some h

theorem insertMessage_row? {rec : MessageRecord} {row : Row}
    (h : (s.insertMessage rec).2.row? mid = some row) :
    s.row? mid = some row ∨ row = rec.toRow :=
  Messages.row?_insert h

theorem shows_of_decode {row : Row} {rec : MessageRecord}
    (h : decode row = .ok rec) : row.Shows rec := by
  unfold decode at h
  split at h
  · next hrec =>
      cases h
      exact Row.shows_of_toMessage hrec
  · contradiction

def Keeps (s s' : Store) : Prop :=
  ∀ mid row, s.row? mid = some row →
    ∃ progress, s'.row? mid = some (row.set progress)

theorem Keeps.refl (s : Store) : s.Keeps s :=
  fun _ row hrow => ⟨row.toProgress, hrow⟩

theorem Rewrites.keeps {s s' : Store} (h : s.Rewrites s') : s.Keeps s' := by
  intro mid row hrow
  obtain ⟨change, hchange⟩ := h mid
  exact ⟨change row, by rw [hchange, hrow, Option.map_some]⟩

theorem insertMessage_keeps (rec : MessageRecord) :
    s.Keeps (s.insertMessage rec).2 :=
  fun _ row hrow => ⟨row.toProgress, insertMessage_row?_of_some hrow⟩

def Climbs (s s' : Store) (mid : String) : Prop :=
  ∀ row, s.row? mid = some row →
    ∃ progress, s'.row? mid = some (row.set progress) ∧
      row.attempts ≤ progress.attempts

theorem Climbs.refl (s : Store) (mid : String) : s.Climbs s mid :=
  fun row hrow => ⟨row.toProgress, hrow, le_rfl⟩

theorem Moves.climbs {s s' : Store} {target : String}
    {change : Progress → Progress} (h : s.Moves s' target change)
    (hattempts : ∀ p, p.attempts ≤ (change p).attempts) (mid : String) :
    s.Climbs s' mid := by
  intro row hrow
  by_cases heq : mid = target
  · subst heq
    exact ⟨change row.toProgress, h.row hrow, hattempts _⟩
  · exact ⟨row.toProgress, by rw [h mid, if_neg heq, hrow]; rfl, le_rfl⟩

theorem Rewrites.climbs {s s' : Store} (h : s.Rewrites s')
    (hraises : s.Raises s') (mid : String) : s.Climbs s' mid := by
  intro row hrow
  obtain ⟨change, hchange⟩ := h mid
  rw [hrow, Option.map_some] at hchange
  obtain ⟨found, hfound, hle, -⟩ := hraises mid _ hchange
  cases hrow.symm.trans hfound
  exact ⟨change row, hchange, hle⟩

theorem expireDue_climbs (queue : String) (now : Int) (mid : String) :
    s.Climbs (s.expireDue queue now).2 mid :=
  (expireDue_rewrites queue now).climbs (expireDue_raises queue now) mid

theorem dlqRetry_climbs (target mid : String) :
    s.Climbs (s.dlqRetry target).2 mid :=
  dlqRetry_moves.climbs (fun _ => le_rfl) mid

theorem mem_claimableRows {queue : String} {now : Int} {row : Row} :
    row ∈ s.claimableRows queue now ↔
      row ∈ s.messages.rows ∧ Claimable queue now row := by
  rw [claimableRows, List.mem_filter, decide_eq_true_eq]

theorem mapM_decode_eq_ok {rows : List Row} {batch : List MessageRecord} :
    rows.mapM decode = .ok batch ↔ rows.map Row.toMessage = batch.map some := by
  induction rows generalizing batch with
  | nil =>
      simp only [List.mapM_nil, pure, Except.pure, Except.ok.injEq, List.map_nil]
      exact eq_comm.trans List.map_eq_nil_iff.symm |>.trans eq_comm
  | cons first rest ih =>
      rw [List.mapM_cons, List.map_cons]
      have hfirst : decode first = match first.toMessage with
        | some rec => .ok rec
        | none => .error .outOfRange := rfl
      cases hrec : first.toMessage with
      | none =>
          rw [hfirst, hrec]
          constructor
          · intro h
            contradiction
          · intro h
            cases batch <;> simp at h
      | some rec =>
          rw [hfirst, hrec]
          simp only [bind, Except.bind, pure, Except.pure]
          cases hrest : rest.mapM decode with
          | error e =>
              constructor
              · intro h
                contradiction
              · intro h
                cases batch with
                | nil => simp at h
                | cons head tail =>
                    rw [List.map_cons, List.cons.injEq] at h
                    rw [ih.mpr h.2] at hrest
                    contradiction
          | ok others =>
              have hothers := ih.mp hrest
              rw [hothers, ← List.map_cons,
                (List.map_injective_iff.mpr (Option.some_injective _)).eq_iff,
                Except.ok.injEq]

theorem mem_mapM_decode {rows : List Row} {batch : List MessageRecord}
    {rec : MessageRecord} (h : rows.mapM decode = .ok batch)
    (hrec : rec ∈ batch) : ∃ row ∈ rows, row.Shows rec := by
  have hmem : some rec ∈ rows.map Row.toMessage := by
    rw [mapM_decode_eq_ok.mp h]
    exact List.mem_map_of_mem hrec
  obtain ⟨row, hrow, htoMessage⟩ := List.mem_map.mp hmem
  exact ⟨row, hrow, Row.shows_of_toMessage htoMessage⟩

theorem mapM_decode_mem {rows : List Row} {batch : List MessageRecord}
    {row : Row} (h : rows.mapM decode = .ok batch) (hrow : row ∈ rows) :
    ∃ rec ∈ batch, row.toMessage = some rec := by
  have hmem := List.mem_map_of_mem (f := Row.toMessage) hrow
  rw [mapM_decode_eq_ok.mp h] at hmem
  obtain ⟨rec, hrec, heq⟩ := List.mem_map.mp hmem
  exact ⟨rec, hrec, heq.symm⟩

theorem mapM_decode_mids {rows : List Row} {batch : List MessageRecord}
    (h : rows.mapM decode = .ok batch) :
    batch.map MessageRecord.mid = rows.map Row.mid := by
  have hdecoded := mapM_decode_eq_ok.mp h
  clear h
  induction rows generalizing batch with
  | nil => rw [List.map_eq_nil_iff.mp hdecoded.symm, List.map_nil, List.map_nil]
  | cons row rows ih =>
      cases batch with
      | nil => contradiction
      | cons rec batch =>
          rw [List.map_cons, List.map_cons, List.cons.injEq] at hdecoded
          rw [List.map_cons, List.map_cons, ih hdecoded.2,
            (Row.shows_of_toMessage hdecoded.1).mid]

/-- No message is fetched twice in a batch. -/
theorem claimable_nodup {scan : Scan Row} {queue : String} {now : Int}
    {limit : U32} {batch : List MessageRecord}
    (h : s.claimable scan queue now limit = .ok batch) :
    (batch.map MessageRecord.mid).Nodup := by
  have hrows : ((scan.orderBy (·.createdAt) (s.claimableRows queue now)).map
      Row.mid).Nodup :=
    ((scan.orderBy_perm _ _).map Row.mid).nodup_iff.mpr
      (s.messages.nodup_mid.sublist (List.filter_sublist.map _))
  rw [mapM_decode_mids h]
  exact hrows.sublist ((List.take_sublist _ _).map _)

theorem claimable_shows {scan : Scan Row} {queue : String} {now : Int}
    {limit : U32} {batch : List MessageRecord} {rec : MessageRecord}
    (h : s.claimable scan queue now limit = .ok batch) (hrec : rec ∈ batch) :
    ∃ row, s.row? rec.mid = some row ∧ Claimable queue now row ∧
      row.Shows rec := by
  obtain ⟨row, hrow, hshows⟩ := mem_mapM_decode h hrec
  obtain ⟨hmem, hclaimable⟩ := mem_claimableRows.mp
    ((scan.mem_orderBy _ _).mp (List.mem_of_mem_take hrow))
  exact ⟨row, hshows.mid ▸ Messages.row?_of_mem hmem, hclaimable, hshows⟩

theorem claimable_all {scan : Scan Row} {queue : String} {now : Int}
    {limit : U32} {batch : List MessageRecord} {row : Row}
    (hroom : (s.claimableRows queue now).length ≤ limit.val)
    (h : s.claimable scan queue now limit = .ok batch)
    (hrow : row ∈ s.claimableRows queue now) :
    ∃ rec ∈ batch, row.toMessage = some rec := by
  rw [← scan.length_orderBy (·.createdAt)] at hroom
  refine mapM_decode_mem h ?_
  rw [List.take_of_length_le hroom]
  exact (scan.mem_orderBy _ _).mpr hrow

theorem insertMessage_row?_of_true {rec : MessageRecord}
    (h : (s.insertMessage rec).1 = true) :
    (s.insertMessage rec).2.row? rec.mid = some rec.toRow := by
  have hmem : rec.toRow ∈ (s.messages.insert rec.toRow).1.rows := by
    rw [Messages.rows_insert_of_true h]
    simp
  exact Messages.row?_of_mem hmem

theorem findByIdem_none {queue key : String}
    (h : s.findByIdem queue key = .ok none) :
    ∀ row ∈ s.messages.rows, ¬ (row.queue = queue ∧ row.idemKey = some key) := by
  unfold findByIdem at h
  split at h
  · next hnone => simpa using hnone
  · next row _ => cases hdecode : decode row <;> simp [hdecode, Except.map] at h

theorem findByIdem_some {queue key : String} {rec : MessageRecord}
    (h : s.findByIdem queue key = .ok (some rec)) :
    ∃ row ∈ s.messages.rows, row.queue = queue ∧ row.idemKey = some key ∧
      row.Shows rec := by
  unfold findByIdem at h
  split at h
  · simp at h
  · next row hfind =>
      have hkey := List.find?_some hfind
      rw [decide_eq_true_eq] at hkey
      refine ⟨row, List.mem_of_find?_eq_some hfind, hkey.1, hkey.2, ?_⟩
      cases hdecode : decode row with
      | error e => simp [hdecode, Except.map] at h
      | ok found =>
          simp only [hdecode, Except.map, Except.ok.injEq, Option.some.injEq] at h
          exact h ▸ shows_of_decode hdecode

theorem getMessage_shows {rec : MessageRecord}
    (h : s.getMessage mid = .ok (some rec)) :
    ∃ row, s.row? mid = some row ∧ row.Shows rec := by
  unfold getMessage at h
  split at h
  · simp at h
  · next row hrow =>
      cases hdecode : decode row with
      | error e => simp [hdecode, Except.map] at h
      | ok found =>
          simp only [hdecode, Except.map, Except.ok.injEq, Option.some.injEq] at h
          exact ⟨row, hrow, h ▸ shows_of_decode hdecode⟩

theorem incrAttempts_fst (s : Store) (mid : String) :
    (s.incrAttempts mid).1 =
      match s.row? mid with
      | none => .error .noRows
      | some row =>
          if h : row.attempts + 1 < 4294967296 then .ok ⟨row.attempts + 1, h⟩
          else .error .outOfRange := by
  unfold incrAttempts row?
  dsimp only
  rw [Messages.row?_update_of_mid, if_pos rfl]
  cases s.messages.row? mid with
  | none => rfl
  | some row =>
      by_cases h : row.attempts + 1 < 4294967296
      · simp [Progress.count, h]
      · simp [Progress.count, h]

theorem incrAttempts_error {e : StoreError} {row : Row}
    (h : (s.incrAttempts mid).1 = .error e)
    (hrow : (s.incrAttempts mid).2.row? mid = some row) :
    4294967296 ≤ row.attempts := by
  unfold incrAttempts at h hrow
  dsimp only at h hrow
  split at h
  · next hnone =>
      rw [hnone] at hrow
      exact absurd (hnone.symm.trans hrow) (by simp)
  · next row' hsome =>
      rw [hsome] at hrow
      split at h
      · contradiction
      · next hrange =>
          dsimp only at hrow
          rw [dif_neg hrange] at hrow
          cases hsome.symm.trans hrow
          exact not_lt.mp hrange

theorem incrAttempts_ok {attempts : U32}
    (h : (s.incrAttempts mid).1 = .ok attempts) :
    ∃ row, s.row? mid = some row ∧ attempts.val = row.attempts + 1 := by
  rw [incrAttempts_fst] at h
  split at h
  · contradiction
  · next row hrow =>
      split at h
      · cases h
        exact ⟨row, hrow, rfl⟩
      · contradiction

end Store

end NostrQ.Database
