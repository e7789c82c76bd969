import Mathlib.Data.List.Pairwise
import NostrQ.Foundation.Numeric

/-!
# The `messages` table

Rows carry SQL integers, which are wider than the words they are decoded to.
The primary key and the two unique indexes are part of the table's type, so
every table that can be built satisfies them.
-/

namespace NostrQ.Database

open NostrQ.Foundation

inductive Status where
  | pending
  | claimed
  | acked
  | dead
  | expired
  deriving DecidableEq, Repr

/-- The columns of a message that an `UPDATE` changes. -/
structure Progress where
  status : Status
  attempts : Nat
  attemptFloor : Nat
  consumer : Option String
  leaseExpiresAt : Option Int
  visibleAt : Int
  deriving DecidableEq

structure Row extends Progress where
  mid : String
  queue : String
  eventId : String
  traceId : String
  envelopeJson : String
  idemKey : Option String
  expiresAt : Option Int
  createdAt : Int
  replyTo : Option String
  deriving DecidableEq

structure MessageRecord where
  mid : String
  queue : String
  eventId : String
  traceId : String
  envelopeJson : String
  status : Status
  attempts : U32
  attemptFloor : U32
  idemKey : Option String
  visibleAt : Int
  expiresAt : Option Int
  createdAt : Int
  replyTo : Option String
  deriving DecidableEq

def sampleRecord : MessageRecord where
  mid := "m"
  queue := "jobs"
  eventId := String.ofList (List.replicate 64 'e')
  traceId := "trace"
  envelopeJson := "{}"
  status := .pending
  attempts := 0
  attemptFloor := 0
  idemKey := none
  visibleAt := 0
  expiresAt := none
  createdAt := 0
  replyTo := none

def MessageRecord.toRow (rec : MessageRecord) : Row where
  mid := rec.mid
  queue := rec.queue
  eventId := rec.eventId
  traceId := rec.traceId
  envelopeJson := rec.envelopeJson
  status := rec.status
  attempts := rec.attempts.val
  attemptFloor := rec.attemptFloor.val
  idemKey := rec.idemKey
  consumer := none
  leaseExpiresAt := none
  visibleAt := rec.visibleAt
  expiresAt := rec.expiresAt
  createdAt := rec.createdAt
  replyTo := rec.replyTo

/-- A counter outside the unsigned 32-bit range does not decode. -/
def Row.toMessage (row : Row) : Option MessageRecord :=
  if h : row.attempts < 4294967296 ∧ row.attemptFloor < 4294967296 then
    some {
      mid := row.mid
      queue := row.queue
      eventId := row.eventId
      traceId := row.traceId
      envelopeJson := row.envelopeJson
      status := row.status
      attempts := ⟨row.attempts, h.1⟩
      attemptFloor := ⟨row.attemptFloor, h.2⟩
      idemKey := row.idemKey
      visibleAt := row.visibleAt
      expiresAt := row.expiresAt
      createdAt := row.createdAt
      replyTo := row.replyTo }
  else none

def Row.Decodes (row : Row) : Prop :=
  row.attempts < 4294967296 ∧ row.attemptFloor < 4294967296

instance (row : Row) : Decidable row.Decodes :=
  inferInstanceAs (Decidable (_ ∧ _))

theorem Row.toMessage_isSome {row : Row} :
    row.toMessage.isSome ↔ row.Decodes := by
  unfold Row.toMessage Row.Decodes
  split <;> simp_all

/-- What a decoded record says of its row. -/
structure Row.Shows (row : Row) (rec : MessageRecord) : Prop where
  mid : rec.mid = row.mid
  queue : rec.queue = row.queue
  eventId : rec.eventId = row.eventId
  traceId : rec.traceId = row.traceId
  status : rec.status = row.status
  attempts : rec.attempts.val = row.attempts
  attemptFloor : rec.attemptFloor.val = row.attemptFloor
  expiresAt : rec.expiresAt = row.expiresAt

theorem Row.shows_of_toMessage {row : Row} {rec : MessageRecord}
    (h : row.toMessage = some rec) : row.Shows rec := by
  unfold Row.toMessage at h
  split at h
  · simp only [Option.some.injEq] at h
    subst h
    constructor <;> rfl
  · contradiction

@[simp] theorem MessageRecord.toMessage_toRow (rec : MessageRecord) :
    rec.toRow.toMessage = some rec := by
  have h : rec.toRow.attempts < 4294967296 ∧
      rec.toRow.attemptFloor < 4294967296 :=
    ⟨rec.attempts.isLt, rec.attemptFloor.isLt⟩
  rw [Row.toMessage, dif_pos h]
  rfl

/-! ## Keys -/

/-- Two rows that the primary key or a unique index keeps apart. -/
def Row.Conflicts (first second : Row) : Prop :=
  first.mid = second.mid ∨ first.eventId = second.eventId ∨
    (first.idemKey ≠ none ∧ first.queue = second.queue ∧
      first.idemKey = second.idemKey)

instance (first second : Row) : Decidable (first.Conflicts second) :=
  inferInstanceAs (Decidable (_ ∨ _ ∨ _ ∧ _ ∧ _))

theorem Row.Conflicts.symm {first second : Row}
    (h : first.Conflicts second) : second.Conflicts first := by
  rcases h with hmid | hevent | ⟨hsome, hqueue, hkey⟩
  · exact Or.inl hmid.symm
  · exact Or.inr (Or.inl hevent.symm)
  · exact Or.inr (Or.inr ⟨hkey ▸ hsome, hqueue.symm, hkey.symm⟩)

instance : Std.Symm fun first second : Row => ¬ first.Conflicts second :=
  ⟨fun _ _ hno hback => hno hback.symm⟩

def Row.set (row : Row) (progress : Progress) : Row :=
  { row with toProgress := progress }

@[simp] theorem Row.set_toProgress (row : Row) (progress : Progress) :
    (row.set progress).toProgress = progress := rfl

@[simp] theorem Row.set_mid (row : Row) (progress : Progress) :
    (row.set progress).mid = row.mid := rfl

@[simp] theorem Row.set_queue (row : Row) (progress : Progress) :
    (row.set progress).queue = row.queue := rfl

@[simp] theorem Row.set_eventId (row : Row) (progress : Progress) :
    (row.set progress).eventId = row.eventId := rfl

@[simp] theorem Row.set_traceId (row : Row) (progress : Progress) :
    (row.set progress).traceId = row.traceId := rfl

@[simp] theorem Row.set_idemKey (row : Row) (progress : Progress) :
    (row.set progress).idemKey = row.idemKey := rfl

@[simp] theorem Row.set_expiresAt (row : Row) (progress : Progress) :
    (row.set progress).expiresAt = row.expiresAt := rfl

structure Messages where
  rows : List Row
  unique : rows.Pairwise fun first second => ¬ first.Conflicts second

namespace Messages

def empty : Messages := ⟨[], .nil⟩

def row? (m : Messages) (mid : String) : Option Row :=
  m.rows.find? fun row => row.mid = mid

/-- `UPDATE messages SET ... WHERE selected`, one row after the other. -/
def update (m : Messages) (selected : Row → Bool)
    (change : Progress → Progress) : Messages where
  rows := m.rows.map fun row =>
    if selected row then row.set (change row.toProgress) else row
  unique := by
    rw [List.pairwise_map]
    refine m.unique.imp ?_
    intro first second hne
    split <;> split <;> exact hne

/-- `INSERT OR IGNORE`: a row that conflicts with a stored one is dropped. -/
def insert (m : Messages) (row : Row) : Messages × Bool :=
  if h : m.rows.all fun stored => decide ¬ stored.Conflicts row then
    (⟨m.rows ++ [row], by
      rw [List.pairwise_append]
      refine ⟨m.unique, List.pairwise_singleton _ _, ?_⟩
      intro stored hstored last hlast
      rw [List.mem_singleton.mp hlast]
      simpa using List.all_eq_true.mp h stored hstored⟩, true)
  else (m, false)

variable {m : Messages}

theorem row?_mem {mid : String} {row : Row} (h : m.row? mid = some row) :
    row ∈ m.rows ∧ row.mid = mid :=
  ⟨List.mem_of_find?_eq_some h, by simpa using List.find?_some h⟩

theorem row?_of_mem {row : Row} (h : row ∈ m.rows) :
    m.row? row.mid = some row := by
  cases hfind : m.row? row.mid with
  | none => simpa using List.find?_eq_none.mp hfind row h
  | some found =>
      obtain ⟨hmem, hmid⟩ := row?_mem hfind
      by_contra hne
      have hdiff : found ≠ row := fun heq => hne (by rw [heq])
      exact m.unique.forall hmem h hdiff (Or.inl hmid)

theorem nodup_mid (m : Messages) : (m.rows.map Row.mid).Nodup := by
  rw [List.Nodup, List.pairwise_map]
  exact m.unique.imp fun hno heq => hno (Or.inl heq)

theorem row?_update (selected : Row → Bool) (change : Progress → Progress)
    (mid : String) :
    (m.update selected change).row? mid =
      (m.row? mid).map fun row =>
        if selected row then row.set (change row.toProgress) else row := by
  simp only [row?, update, List.find?_map]
  congr 1
  refine congrArg (fun test => List.find? test m.rows) ?_
  funext row
  simp only [Function.comp]
  split <;> rfl

theorem row?_update_of_mid (target : String) (change : Progress → Progress)
    (mid : String) :
    (m.update (fun row => row.mid = target) change).row? mid =
      if mid = target then
        (m.row? mid).map fun row => row.set (change row.toProgress)
      else m.row? mid := by
  rw [row?_update]
  cases hrow : m.row? mid with
  | none => simp
  | some row =>
      have hmid := (row?_mem hrow).2
      simp only [Option.map_some, hmid, decide_eq_true_eq]
      split <;> rfl

theorem row?_insert_of_some {row stored : Row} {mid : String}
    (h : m.row? mid = some stored) :
    (m.insert row).1.row? mid = some stored := by
  unfold insert
  split
  · simp only [row?, List.find?_append] at h ⊢
    rw [h]
    rfl
  · exact h

theorem insert_conflict {row : Row} (h : (m.insert row).2 = false) :
    (m.insert row).1 = m ∧ ∃ stored ∈ m.rows, stored.Conflicts row := by
  unfold insert at h ⊢
  split at h
  · contradiction
  · next hall =>
      rw [dif_neg hall]
      simp only [List.all_eq_true, decide_eq_true_eq, not_forall, not_not] at hall
      obtain ⟨stored, hstored, hconflict⟩ := hall
      exact ⟨rfl, stored, hstored, hconflict⟩

theorem insert_eq_true_iff {row : Row} :
    (m.insert row).2 = true ↔ ∀ stored ∈ m.rows, ¬ stored.Conflicts row := by
  unfold insert
  split
  · next hall => simpa using hall
  · next hall => simpa using hall

theorem rows_insert_of_true {row : Row} (h : (m.insert row).2 = true) :
    (m.insert row).1.rows = m.rows ++ [row] := by
  unfold insert at h ⊢
  split at h
  · next hall => rw [dif_pos hall]
  · contradiction

theorem mem_rows_insert {row stored : Row}
    (h : stored ∈ (m.insert row).1.rows) : stored ∈ m.rows ∨ stored = row := by
  cases hin : (m.insert row).2 with
  | true => simpa [rows_insert_of_true hin] using h
  | false => exact Or.inl ((insert_conflict hin).1 ▸ h)

theorem row?_insert {row stored : Row} {mid : String}
    (h : (m.insert row).1.row? mid = some stored) :
    m.row? mid = some stored ∨ stored = row := by
  obtain ⟨hmem, hmid⟩ := row?_mem h
  rcases mem_rows_insert hmem with hold | hnew
  · exact Or.inl (hmid ▸ row?_of_mem hold)
  · exact Or.inr hnew

end Messages

end NostrQ.Database
