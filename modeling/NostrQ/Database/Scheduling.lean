import NostrQ.Database.Decoding

/-!
# When a row is handed out

A row that is pending or claimed waits until its time has come, can then be
claimed, and expires when its time to live runs out.  The queries compare times
with null columns; only a claimed row without a lease would fall through them.
-/

namespace NostrQ.Database

open NostrQ.Foundation

namespace Progress

/-- A claimed row has a lease. -/
def Leased (p : Progress) : Prop :=
  p.status = .claimed → ∃ lease, p.leaseExpiresAt = some lease

variable (p : Progress)

theorem leased_claim (consumer : String) (lease : Int) (attempt : U32) :
    (p.claim consumer lease attempt).Leased :=
  fun _ => ⟨lease, rfl⟩

theorem leased_of_status {p : Progress} (h : p.status ≠ .claimed) : p.Leased :=
  fun hclaimed => absurd hclaimed h

theorem leased_ack : p.ack.Leased := leased_of_status (by simp)

theorem leased_requeue (visibleAt : Int) : (p.requeue visibleAt).Leased :=
  leased_of_status (by simp)

theorem leased_bury : p.bury.Leased := leased_of_status (by simp)

theorem leased_buryAt (attempt : U32) : (p.buryAt attempt).Leased :=
  leased_of_status (by simp)

theorem leased_retry : p.retry.Leased := leased_of_status (by simp)

theorem leased_expire : p.expire.Leased := leased_of_status (by simp)

end Progress

namespace Store

variable {s s' : Store} {queue mid : String} {now : Int} {row : Row}

/-! ## Leases -/

def Leased (s : Store) : Prop :=
  ∀ mid row, s.row? mid = some row → row.toProgress.Leased

theorem leased_empty : Store.empty.Leased := by
  intro mid row hrow
  contradiction

theorem Moves.leased {change : Progress → Progress}
    (h : s.Moves s' mid change) (hs : s.Leased)
    (hchange : ∀ p : Progress, p.Leased → (change p).Leased) : s'.Leased := by
  intro other row' hrow'
  rcases h.row_cases hrow' with ⟨-, row, hrow, rfl⟩ | hold
  · exact hchange row.toProgress (hs other row hrow)
  · exact hs other row' hold

theorem Leased.insertMessage (h : s.Leased) {rec : MessageRecord}
    (hstatus : rec.status ≠ .claimed) : (s.insertMessage rec).2.Leased := by
  intro mid row hrow
  rcases insertMessage_row? hrow with hold | rfl
  · exact h mid row hold
  · exact Progress.leased_of_status hstatus

theorem Leased.expireDue (h : s.Leased) (queue : String) (now : Int) :
    (s.expireDue queue now).2.Leased := by
  intro mid row' hrow'
  rw [expireDue_row?] at hrow'
  obtain ⟨row, hrow, rfl⟩ := Option.map_eq_some_iff.mp hrow'
  split
  · exact Progress.leased_expire _
  · exact h mid row hrow

theorem Leased.incrAttempts (h : s.Leased) (mid : String) :
    (s.incrAttempts mid).2.Leased :=
  incrAttempts_moves.leased h fun _ hleased => hleased

theorem Leased.dlqRetry (h : s.Leased) (mid : String) :
    (s.dlqRetry mid).2.Leased :=
  dlqRetry_moves.leased h fun p _ => p.leased_retry

/-! ## The three classes -/

def PastTtl (now : Int) (row : Row) : Prop :=
  ∃ expiry ∈ row.expiresAt, expiry ≤ now

instance (now : Int) (row : Row) : Decidable (PastTtl now row) :=
  inferInstanceAs (Decidable (∃ _ ∈ _, _))

def Live (row : Row) : Prop := row.status = .pending ∨ row.status = .claimed

instance (row : Row) : Decidable (Live row) :=
  inferInstanceAs (Decidable (_ ∨ _))

/-- Its delay, its backoff or its lease has yet to run out. -/
def Waiting (queue : String) (now : Int) (row : Row) : Prop :=
  row.queue = queue ∧
    ((row.status = .pending ∧ now < row.visibleAt) ∨
      (row.status = .claimed ∧ ∃ lease ∈ row.leaseExpiresAt, now < lease)) ∧
    ¬ PastTtl now row

instance (queue : String) (now : Int) (row : Row) :
    Decidable (Waiting queue now row) :=
  inferInstanceAs (Decidable (_ ∧ _ ∧ _))

inductive Class where
  | waiting
  | claimable
  | due
  deriving DecidableEq

def Class.Holds (queue : String) (now : Int) (row : Row) : Class → Prop
  | .waiting => Waiting queue now row
  | .claimable => Claimable queue now row
  | .due => Due queue now row

/-- The time at which a row that is still to be processed may be handed out. -/
def readyAt (row : Row) : Int :=
  if row.status = .claimed then row.leaseExpiresAt.getD 0 else row.visibleAt

theorem waiting_iff (hlive : Live row) (hleased : row.toProgress.Leased) :
    Waiting queue now row ↔
      row.queue = queue ∧ now < readyAt row ∧ ¬ PastTtl now row := by
  unfold Waiting readyAt
  rcases hlive with hpending | hclaimed
  · simp [hpending]
  · obtain ⟨lease, hlease⟩ := hleased hclaimed
    simp [hclaimed, hlease]

theorem claimable_iff (hlive : Live row) (hleased : row.toProgress.Leased) :
    Claimable queue now row ↔
      row.queue = queue ∧ readyAt row ≤ now ∧ ¬ PastTtl now row := by
  unfold Claimable readyAt PastTtl
  rcases hlive with hpending | hclaimed
  · simp [hpending]
  · obtain ⟨lease, hlease⟩ := hleased hclaimed
    simp [hclaimed, hlease]

theorem due_iff (hlive : Live row) :
    Due queue now row ↔ row.queue = queue ∧ PastTtl now row := by
  unfold Due
  exact and_congr_right fun _ => and_iff_right hlive

theorem one_class (hlive : Live row) (hleased : row.toProgress.Leased) :
    ∃! c : Class, c.Holds row.queue now row := by
  by_cases hpast : PastTtl now row
  · refine ⟨.due, (due_iff hlive).mpr ⟨rfl, hpast⟩, ?_⟩
    intro other hother
    cases other with
    | waiting => exact absurd hpast hother.2.2
    | claimable => exact absurd hpast hother.2.2
    | due => rfl
  · by_cases hready : readyAt row ≤ now
    · refine ⟨.claimable,
        (claimable_iff hlive hleased).mpr ⟨rfl, hready, hpast⟩, ?_⟩
      intro other hother
      cases other with
      | waiting =>
          have hwaiting := ((waiting_iff hlive hleased).mp hother).2.1
          exact absurd hready (not_le.mpr hwaiting)
      | claimable => rfl
      | due => exact absurd hother.2.2 hpast
    · refine ⟨.waiting,
        (waiting_iff hlive hleased).mpr ⟨rfl, not_le.mp hready, hpast⟩, ?_⟩
      intro other hother
      cases other with
      | waiting => rfl
      | claimable =>
          have hclaimable := ((claimable_iff hlive hleased).mp hother).2.1
          exact absurd hclaimable hready
      | due => exact absurd hother.2.2 hpast

/-- When a row that no operation touches leaves the waiting class for good. -/
def leavesAt (row : Row) : Int :=
  match row.expiresAt with
  | none => readyAt row
  | some expiry => min (readyAt row) expiry

theorem waiting_iff_lt (hlive : Live row) (hleased : row.toProgress.Leased) :
    Waiting row.queue now row ↔ now < leavesAt row := by
  rw [waiting_iff hlive hleased]
  unfold leavesAt PastTtl
  cases row.expiresAt with
  | none => simp
  | some expiry => simp

/-! ## What the queries select -/

theorem mem_expireDue : mid ∈ (s.expireDue queue now).1 ↔
    ∃ row, s.row? mid = some row ∧ Due queue now row := by
  simp only [Store.expireDue, List.mem_map, List.mem_filter, decide_eq_true_eq]
  constructor
  · rintro ⟨row, ⟨hmem, hdue⟩, rfl⟩
    exact ⟨row, Messages.row?_of_mem hmem, hdue⟩
  · rintro ⟨row, hrow, hdue⟩
    obtain ⟨hmem, hmid⟩ := Messages.row?_mem hrow
    exact ⟨row, ⟨hmem, hdue⟩, hmid⟩

theorem visibleAt_of_toMessage {rec : MessageRecord}
    (h : row.toMessage = some rec) : rec.visibleAt = row.visibleAt := by
  unfold Row.toMessage at h
  split at h
  · cases h
    rfl
  · contradiction

theorem claimable_visibleAt {scan : Scan Row} {limit : U32}
    {batch : List MessageRecord} {rec : MessageRecord}
    (h : s.claimable scan queue now limit = .ok batch) (hrec : rec ∈ batch) :
    ∃ row, s.row? row.mid = some row ∧ Claimable queue now row ∧
      rec.visibleAt = row.visibleAt := by
  have hmem : some rec ∈ ((scan.orderBy (·.createdAt)
      (s.claimableRows queue now)).take limit.val).map Row.toMessage := by
    rw [mapM_decode_eq_ok.mp h]
    exact List.mem_map_of_mem hrec
  obtain ⟨row, hrow, htoMessage⟩ := List.mem_map.mp hmem
  obtain ⟨hstored, hclaimable⟩ := mem_claimableRows.mp
    ((scan.mem_orderBy _ _).mp (List.mem_of_mem_take hrow))
  exact ⟨row, Messages.row?_of_mem hstored, hclaimable,
    visibleAt_of_toMessage htoMessage⟩

/-- At `now`, the queue's rows are sorted into their classes and served so. -/
structure Scheduled (s : Store) (queue : String) (now : Int) : Prop where
  one_class : ∀ mid row, s.row? mid = some row → row.queue = queue →
    Live row → ∃! c : Class, c.Holds queue now row
  claimable : ∀ scan limit, ∃ (rows : List Row) (batch : List MessageRecord),
    rows.Perm (s.messages.rows.filter fun row => Claimable queue now row) ∧
    (rows.Pairwise fun first second => first.createdAt ≤ second.createdAt) ∧
    s.claimable scan queue now limit = .ok batch ∧
    batch.map some = (rows.take limit.val).map Row.toMessage
  expired : (s.expireDue queue now).1.Nodup ∧
    ∀ mid, mid ∈ (s.expireDue queue now).1 ↔
      ∃ row, s.row? mid = some row ∧ Due queue now row
  expires : ∀ mid, (s.expireDue queue now).2.row? mid =
    (s.row? mid).map fun row =>
      if Due queue now row then
        { row with status := .expired, leaseExpiresAt := none }
      else row
  apart : (s.expireDue queue now).2.dlq = s.dlq

theorem Leased.scheduled (h : s.Leased) (hdecodable : s.Decodable)
    (queue : String) (now : Int) : s.Scheduled queue now where
  one_class := by
    rintro mid row hrow rfl hlive
    exact Store.one_class hlive (h mid row hrow)
  claimable := by
    intro scan limit
    obtain ⟨batch, hbatch⟩ := hdecodable.claimable scan queue now limit
    exact ⟨_, batch, scan.orderBy_perm _ _, scan.orderBy_ordered _ _, hbatch,
      (mapM_decode_eq_ok.mp hbatch).symm⟩
  expired := ⟨s.messages.nodup_mid.sublist (List.filter_sublist.map _),
    fun _ => mem_expireDue⟩
  expires := fun mid => expireDue_row? queue now mid
  apart := rfl

end Store

end NostrQ.Database
