import NostrQ.Foundation.Numeric

/-!
# Queue configuration
-/

namespace NostrQ.Core

open NostrQ.Foundation

structure ParseEnumError where
  value : String
  typeName : String
  deriving DecidableEq, Repr

inductive QueueMode where
  | workQueue
  | pubsub
  deriving DecidableEq, Repr

def QueueMode.asStr : QueueMode → String
  | .workQueue => "work_queue"
  | .pubsub => "pubsub"

def QueueMode.fromStr (s : String) : Except ParseEnumError QueueMode :=
  if s = "work_queue" then .ok .workQueue
  else if s = "pubsub" then .ok .pubsub
  else .error ⟨s, "QueueMode"⟩

@[simp] theorem QueueMode.fromStr_asStr (mode : QueueMode) :
    QueueMode.fromStr mode.asStr = .ok mode := by
  cases mode <;> decide

inductive Delivery where
  | bestEffort
  | atMostOnce
  | atLeastOnce
  deriving DecidableEq, Repr

def Delivery.asStr : Delivery → String
  | .bestEffort => "best_effort"
  | .atMostOnce => "at_most_once"
  | .atLeastOnce => "at_least_once"

def Delivery.fromStr (s : String) : Except ParseEnumError Delivery :=
  if s = "best_effort" then .ok .bestEffort
  else if s = "at_most_once" then .ok .atMostOnce
  else if s = "at_least_once" then .ok .atLeastOnce
  else .error ⟨s, "Delivery"⟩

@[simp] theorem Delivery.fromStr_asStr (delivery : Delivery) :
    Delivery.fromStr delivery.asStr = .ok delivery := by
  cases delivery <;> decide

inductive Encryption where
  | none
  | nip04
  | nip44
  deriving DecidableEq, Repr

def Encryption.asStr : Encryption → String
  | .none => "none"
  | .nip04 => "nip04"
  | .nip44 => "nip44"

def Encryption.fromStr (s : String) : Except ParseEnumError Encryption :=
  if s = "none" then .ok .none
  else if s = "nip04" then .ok .nip04
  else if s = "nip44" then .ok .nip44
  else .error ⟨s, "Encryption"⟩

@[simp] theorem Encryption.fromStr_asStr (encryption : Encryption) :
    Encryption.fromStr encryption.asStr = .ok encryption := by
  cases encryption <;> decide

structure QueueConfig where
  name : String
  mode : QueueMode
  delivery : Delivery
  encryption : Encryption
  maxAttempts : U32
  leaseSeconds : U64
  retryBaseSeconds : U64
  deriving DecidableEq, Repr

def defaultMaxAttempts : U32 := 5

def defaultLeaseSeconds : U64 := 60

def defaultRetryBaseSeconds : U64 := 5

namespace QueueConfig

def workQueue (name : String) : QueueConfig where
  name := name
  mode := .workQueue
  delivery := .atLeastOnce
  encryption := .none
  maxAttempts := defaultMaxAttempts
  leaseSeconds := defaultLeaseSeconds
  retryBaseSeconds := defaultRetryBaseSeconds

def pubsub (name : String) : QueueConfig where
  name := name
  mode := .pubsub
  delivery := .bestEffort
  encryption := .none
  maxAttempts := defaultMaxAttempts
  leaseSeconds := defaultLeaseSeconds
  retryBaseSeconds := defaultRetryBaseSeconds

end QueueConfig

/-- Exponential backoff: `base * 2^(attempt-1)`, capped at one hour. -/
def backoffSecs (retryBaseSeconds : U64) (attempt : U32) : Nat :=
  let shift := min (attempt.val - 1) 20
  let product :=
    min (retryBaseSeconds.val * (1 <<< shift)) 18446744073709551615
  min product 3600

end NostrQ.Core
