import Mathlib.Data.List.Sort
import NostrQ.Database.Store
import NostrQ.Foundation.Fallible

/-!
# The `queues` table

A queue's configuration in SQL columns.  The columns are signed, so an unsigned
64-bit duration is stored as the signed number with the same bits and read back
from it; names that are not recognised are read as defaults.
-/

namespace NostrQ.Database

open NostrQ.Foundation NostrQ.Core

structure QueueRow where
  name : String
  mode : String
  delivery : String
  encryption : String
  maxAttempts : Int
  leaseSeconds : Int
  retryBaseSeconds : Int
  createdAt : Int
  deriving DecidableEq

abbrev QueueTable := List QueueRow

def QueueRow.ofConfig (q : QueueConfig) (createdAt : Int) : QueueRow where
  name := q.name
  mode := q.mode.asStr
  delivery := q.delivery.asStr
  encryption := q.encryption.asStr
  maxAttempts := q.maxAttempts.val
  leaseSeconds := toI64 q.leaseSeconds.val
  retryBaseSeconds := toI64 q.retryBaseSeconds.val
  createdAt := createdAt

def readU32 (n : Int) : Option U32 :=
  if h : 0 ≤ n ∧ n < 4294967296 then some ⟨n.toNat, by omega⟩ else none

@[simp] theorem readU32_val (n : U32) : readU32 (n.val : Int) = some n := by
  have hlt := n.isLt
  unfold readU32
  rw [dif_pos (by omega)]
  exact congrArg some (Fin.ext (Int.toNat_natCast n.val))

/-- A count of attempts outside the unsigned range does not decode. -/
def rowToQueue (row : QueueRow) : Except StoreError QueueConfig :=
  match readU32 row.maxAttempts with
  | none => .error .outOfRange
  | some maxAttempts =>
      .ok {
        name := row.name
        mode := (QueueMode.fromStr row.mode).toOption.getD .workQueue
        delivery := (Delivery.fromStr row.delivery).toOption.getD .atLeastOnce
        encryption := (Encryption.fromStr row.encryption).toOption.getD .none
        maxAttempts := maxAttempts
        leaseSeconds := toU64 row.leaseSeconds
        retryBaseSeconds := toU64 row.retryBaseSeconds }

namespace QueueTable

/-- `ON CONFLICT(name) DO UPDATE`: every column but the creation time. -/
def upsertQueue (table : QueueTable) (q : QueueConfig) (now : Int) :
    QueueTable :=
  if table.any fun row => row.name = q.name then
    table.map fun row =>
      if row.name = q.name then .ofConfig q row.createdAt else row
  else table ++ [.ofConfig q now]

def getQueue (table : QueueTable) (name : String) :
    Except StoreError (Option QueueConfig) :=
  match table.find? fun row => row.name = name with
  | none => .ok none
  | some row => (rowToQueue row).map some

def listQueues (table : QueueTable) : Except StoreError (List QueueConfig) :=
  (table.insertionSort fun first second => first.name ≤ second.name).mapM
    rowToQueue

end QueueTable

@[simp] theorem rowToQueue_ofConfig (q : QueueConfig) (createdAt : Int) :
    rowToQueue (.ofConfig q createdAt) = .ok q := by
  have hattempts : readU32 (QueueRow.ofConfig q createdAt).maxAttempts =
      some q.maxAttempts := readU32_val q.maxAttempts
  rw [rowToQueue, hattempts]
  simp only [QueueRow.ofConfig, QueueMode.fromStr_asStr,
    Delivery.fromStr_asStr, Encryption.fromStr_asStr, toU64_toI64,
    Except.toOption, Option.getD_some]

theorem find?_upsertQueue (table : QueueTable) (q : QueueConfig) (now : Int) :
    ∃ createdAt, (table.upsertQueue q now).find? (fun row => row.name = q.name) =
      some (.ofConfig q createdAt) := by
  unfold QueueTable.upsertQueue
  split
  · next hany =>
      rw [List.find?_map]
      have hsame : ((fun row : QueueRow => decide (row.name = q.name)) ∘
          fun row => if row.name = q.name then .ofConfig q row.createdAt else row)
          = fun row => decide (row.name = q.name) := by
        funext row
        simp only [Function.comp]
        split <;> simp_all [QueueRow.ofConfig]
      rw [hsame]
      obtain ⟨row, hrow⟩ := Option.isSome_iff_exists.mp
        (List.find?_isSome.mpr (List.any_eq_true.mp hany))
      have hname : row.name = q.name := by simpa using List.find?_some hrow
      exact ⟨row.createdAt, by rw [hrow, Option.map_some, if_pos hname]⟩
  · next hany =>
      have hnone : table.find? (fun row => decide (row.name = q.name)) = none := by
        simpa [List.find?_eq_none] using hany
      exact ⟨now, by rw [List.find?_append, hnone]; simp [QueueRow.ofConfig]⟩

theorem getQueue_upsertQueue (table : QueueTable) (q : QueueConfig)
    (now : Int) : (table.upsertQueue q now).getQueue q.name = .ok (some q) := by
  obtain ⟨createdAt, hrow⟩ := find?_upsertQueue table q now
  unfold QueueTable.getQueue
  rw [hrow]
  simp only [rowToQueue_ofConfig]
  rfl

/-! ## Listing -/

theorem rowToQueue_name {row : QueueRow} {q : QueueConfig}
    (h : rowToQueue row = .ok q) : q.name = row.name := by
  unfold rowToQueue at h
  split at h
  · contradiction
  · cases h
    rfl

theorem names_listQueues {table : QueueTable} {queues : List QueueConfig}
    (h : table.listQueues = .ok queues) :
    (queues.map QueueConfig.name).Perm (table.map QueueRow.name) := by
  rw [map_eq_of_mapM_ok h fun _ _ => rowToQueue_name]
  exact (List.perm_insertionSort _ table).map _

end NostrQ.Database
