import IbexHarness.Lib.Machine
import IbexHarness.Lib.Table
import IbexHarness.Lib.Text
import Mathlib.Data.List.Sort

/-! `ibex_core.evidence_outbox` and its four helper functions (migrations 000036 and 000040). -/

namespace IbexHarness.Outbox

open Lib

section

inductive DeliveryStatus where
  | pending
  | inFlight
  | delivered
  | failed
  | poison
deriving DecidableEq

inductive DigestScheme where
  | postgresJsonbText
  | jcsV1

/-- The columns the producer writes; none of the helpers changes them. -/
structure Publication where
  orgId : Uuid
  eventId : Uuid
  aggregateId : Text
  aggregateSeq : Int
  schemaVersion : Text
  eventType : Text
  payload : List UInt8
  payloadDigest : Text
  payloadDigestScheme : DigestScheme

structure Row where
  id : Uuid
  publication : Publication
  deliveryStatus : DeliveryStatus
  attempts : Nat
  availableAt : Int
  claimedAt : Option Int
  lastError : Option Text
  createdAt : Int
  deliveredAt : Option Int

instance : Keyed Row Uuid (Uuid × Uuid) where
  pk := Row.id
  uk r := (r.publication.orgId, r.publication.eventId)

def enqueuedRow (id : Uuid) (p : Publication) (now : Int) : Row := ⟨id, p, .pending, 0, now, none, none, now, none⟩

def sameAggregate (p q : Publication) : Bool :=
  p.orgId == q.orgId && p.aggregateId == q.aggregateId && p.aggregateSeq == q.aggregateSeq

/-! ## evidence_outbox_recover_in_flight -/

def recoverEdit (age now : Int) : Edit Row where
  cond r := r.deliveryStatus == .inFlight && r.claimedAt.any fun c => c < now - age
  set r := { r with deliveryStatus := .pending }
  pk_set _ := rfl
  uk_set _ := rfl

def recoverInFlight (t : Table Row) (age now : Int) : Option (Table Row) :=
  if age ≤ 0 then none else some (t.update (recoverEdit age now))

/-! ## evidence_outbox_claim_pending -/

def claimable (now : Int) (r : Row) : Bool :=
  (r.deliveryStatus == .pending || r.deliveryStatus == .failed) && r.availableAt ≤ now

def claimOrder (r r' : Row) : Prop :=
  r.availableAt < r'.availableAt ∨ (r.availableAt = r'.availableAt ∧ r.createdAt ≤ r'.createdAt)

instance : DecidableRel claimOrder := fun _ _ => inferInstanceAs (Decidable (_ ∨ _))

/-- The rows a claim takes: claimable, not locked by another transaction, the first `limit` of them. -/
def claimedIds (t : Table Row) (limit : Nat) (locked : List Uuid) (now : Int) : List Uuid :=
  (((t.rows.filter fun r => claimable now r && r.id ∉ locked).insertionSort claimOrder).take limit).map Row.id

def claimEdit (ids : List Uuid) (now : Int) : Edit Row where
  cond r := r.id ∈ ids
  set r := { r with deliveryStatus := .inFlight, attempts := r.attempts + 1, claimedAt := some now }
  pk_set _ := rfl
  uk_set _ := rfl

/-- The claimed rows and the table after it. It raises on a limit outside 1 to 256 and when `attempts`
leaves its 32 bits. -/
def claimPending (t : Table Row) (limit : Nat) (locked : List Uuid) (now : Int) : Option (List Row × Table Row) :=
  if limit < 1 ∨ 256 < limit then none
  else
    let e := claimEdit (claimedIds t limit locked now) now
    if (t.returning e).all fun r => r.attempts < 2 ^ 31 then some (t.returning e, t.update e) else none

/-! ## evidence_outbox_mark_delivered, evidence_outbox_mark_failure -/

def Row.claimedAs (id : Uuid) (attempts : Nat) (r : Row) : Bool :=
  r.id == id && r.deliveryStatus == .inFlight && r.attempts == attempts

def deliveredEdit (id : Uuid) (attempts : Nat) (now : Int) : Edit Row where
  cond := Row.claimedAs id attempts
  set r := { r with deliveryStatus := .delivered, deliveredAt := some now, lastError := none }
  pk_set _ := rfl
  uk_set _ := rfl

inductive FailureStatus where
  | failed
  | poison

def FailureStatus.status : FailureStatus → DeliveryStatus
  | .failed => .failed
  | .poison => .poison

def failureEdit (id : Uuid) (attempts : Nat) (s : FailureStatus) (error : Text) (delaySecs : Nat)
    (_ : 0 < delaySecs) (now : Int) : Edit Row where
  cond := Row.claimedAs id attempts
  set r := { r with
    deliveryStatus := s.status, lastError := some error, availableAt := now + delaySecs * 1000000 }
  pk_set _ := rfl
  uk_set _ := rfl

end

/-! `packages/evidenceoutbox/relay.go`: a relay claims a batch, delivers its rows one by one and marks each
of them. -/

inductive RedactionClass where
  | unclassified
  | metadata
  | redacted
  | prohibited
  | unknown (value : Text)

structure TombstoneFence where
  resourceType : Text
  resourceId : Text
  resourceVersion : Int

inductive DeliveryError where
  | invalidRow (detail : Text)
  | redactionUnclassified
  | redactionProhibited
  | redactionNotProjectable
  | redactionUnsupported (value : Text)
  | tombstoneFenceMissing
  | tombstoneFenceInvalid
  | fencedDeliveryRequired
  /-- errors of the deliverer, the first two wrapping the error they are named after -/
  | unsupportedFenceResource (message : Text)
  | tombstonedResource (message : Text)
  | deliverer (message : Text)

namespace DeliveryError

def message : DeliveryError → Text
  | .invalidRow detail => "evidenceoutbox: invalid row: ".toList ++ detail
  | .redactionUnclassified => "evidenceoutbox: payload redaction class is unclassified".toList
  | .redactionProhibited => "evidenceoutbox: payload redaction class is prohibited".toList
  | .redactionNotProjectable => "evidenceoutbox: redacted payload is not projectable".toList
  | .redactionUnsupported value =>
    "evidenceoutbox: payload redaction class is unsupported: \"".toList ++ value ++ ['"']
  | .tombstoneFenceMissing => "evidenceoutbox: tombstone fence is required".toList
  | .tombstoneFenceInvalid => "evidenceoutbox: tombstone fence is invalid".toList
  | .fencedDeliveryRequired => "evidenceoutbox: tombstone-fenced delivery is required".toList
  | .unsupportedFenceResource message | .tombstonedResource message | .deliverer message => message

def isPermanent : DeliveryError → Bool
  | .invalidRow _ | .deliverer _ => false
  | _ => true

end DeliveryError

def takeBytes : Nat → Text → Text
  | _, [] => []
  | n, c :: s => if c.utf8Size ≤ n then c :: takeBytes (n - c.utf8Size) s else []

def truncErr (e : DeliveryError) : Text :=
  if Text.byteLength e.message ≤ 500 then e.message else takeBytes 500 e.message

/-! ## Validation -/

/-- What is read out of a payload: its JSON metadata and its digests. -/
structure Codec where
  /-- `redaction_class` and `tombstone_fence`; `none` when the payload is not such an object -/
  metadata : List UInt8 → Option (Text × Option TombstoneFence)
  sha256Hex : List UInt8 → Text
  /-- the digest of the canonical form, if there is one -/
  canonicalDigest : List UInt8 → Except Text Text

def redactionClass (s : Text) : RedactionClass :=
  if s = [] ∨ s = "unclassified".toList then .unclassified
  else if s = "metadata".toList then .metadata
  else if s = "redacted".toList then .redacted
  else if s = "prohibited".toList then .prohibited
  else .unknown s

def parseOutboxMetadata (c : Codec) (payload : List UInt8) : RedactionClass × Option TombstoneFence :=
  match c.metadata payload with
  | none => (.unclassified, none)
  | some (cls, fence) => (redactionClass cls, fence)

def isBlank (s : Text) : Bool := (Text.trimSpace s).isEmpty

def validateOutboxIdentity (row : Row) : Except DeliveryError Unit :=
  let p := row.publication
  if row.id = 0 then .error (.invalidRow "id is required".toList)
  else if p.orgId = 0 then .error (.invalidRow "org_id is required".toList)
  else if p.eventId = 0 then .error (.invalidRow "event_id is required".toList)
  else if isBlank p.aggregateId then .error (.invalidRow "aggregate_id is required".toList)
  else if p.aggregateSeq ≤ 0 then .error (.invalidRow "aggregate_seq must be positive".toList)
  else if isBlank p.schemaVersion then .error (.invalidRow "schema_version is required".toList)
  else if isBlank p.eventType then .error (.invalidRow "event_type is required".toList)
  else .ok ()

def validateRedactionClass : RedactionClass → Except DeliveryError Unit
  | .metadata => .ok ()
  | .unclassified => .error .redactionUnclassified
  | .redacted => .error .redactionNotProjectable
  | .prohibited => .error .redactionProhibited
  | .unknown value => .error (.redactionUnsupported value)

def validateTombstoneFence : Option TombstoneFence → Except DeliveryError TombstoneFence
  | none => .error .tombstoneFenceMissing
  | some f =>
    if isBlank f.resourceType || isBlank f.resourceId || f.resourceVersion ≤ 0 then .error .tombstoneFenceInvalid
    else .ok f

def isHexDigit (c : Char) : Bool :=
  ('0' ≤ c && c ≤ '9') || ('a' ≤ c && c ≤ 'f') || ('A' ≤ c && c ≤ 'F')

def expectedOutboxPayloadDigest (c : Codec) (p : Publication) : Except DeliveryError Text :=
  match p.payloadDigestScheme with
  | .postgresJsonbText => .ok (c.sha256Hex p.payload)
  | .jcsV1 =>
    match c.canonicalDigest p.payload with
    | .ok digest => .ok digest
    | .error e => .error (.invalidRow ("payload is not canonicalizable: ".toList ++ e))

def DigestScheme.name : DigestScheme → Text
  | .postgresJsonbText => "postgres-jsonb-text/v1".toList
  | .jcsV1 => "jcs/v1".toList

def validateOutboxPayload (c : Codec) (p : Publication) : Except DeliveryError Unit := do
  let actual := Text.trimSpace p.payloadDigest
  if p.payload.isEmpty then .error (.invalidRow "payload is required".toList)
  else if actual.isEmpty then .error (.invalidRow "payload_digest is required".toList)
  else if actual.length ≠ 64 ∨ !actual.all isHexDigit then
    .error (.invalidRow "payload_digest must be a SHA-256 hex digest".toList)
  else
    let expected ← expectedOutboxPayloadDigest c p
    if actual.map Char.toLower = expected.map Char.toLower then .ok ()
    else .error (.invalidRow
      ("payload_digest does not match payload (".toList ++ p.payloadDigestScheme.name ++ [')']))

def validateOutboxRow (c : Codec) (row : Row) : Except DeliveryError TombstoneFence := do
  validateOutboxIdentity row
  let (cls, fence) := parseOutboxMetadata c row.publication.payload
  validateRedactionClass cls
  let fence ← validateTombstoneFence fence
  validateOutboxPayload c row.publication
  return fence

/-! ## Relays -/

structure Relay where
  batchSize : Nat
  maxAttempts : Nat
  /-- the deliverer checks the tombstone fence (`TombstoneFencedDeliverer`) -/
  fenced : Bool
  batchSize_pos : 1 ≤ batchSize
  batchSize_le : batchSize ≤ 256

/-- `jitter` is the random number, or nothing if there was none to be had. -/
def retryBackoffSeconds (attempts : Nat) (jitter : Option Nat) : Nat :=
  let base := min (2 ^ min attempts 6) 60
  let half := max (base / 2) 1
  match jitter with
  | none => half
  | some n => min (max (half + n % (base - half + 1)) 1) 60

theorem retryBackoffSeconds_pos (attempts : Nat) (jitter : Option Nat) : 0 < retryBackoffSeconds attempts jitter := by
  cases jitter with
  | none => exact Nat.lt_of_lt_of_le Nat.one_pos (Nat.le_max_right _ _)
  | some n => exact Nat.lt_min.mpr ⟨Nat.lt_of_lt_of_le Nat.one_pos (Nat.le_max_right _ _), by decide⟩

inductive Phase where
  | deliver
  | ack
  | nack (e : DeliveryError)

inductive Proc where
  | idle
  | busy (row : Row) (rest : List Row) (phase : Phase)

def Proc.next : List Row → Proc
  | [] => .idle
  | row :: rest => .busy row rest .deliver

/-- `deliverOne` up to its call that marks the row; `res` is what the deliverer answers. -/
def Relay.deliverOne (relay : Relay) (c : Codec) (row : Row) (res : Except DeliveryError Unit) : Phase :=
  match validateOutboxRow c row with
  | .error e => .nack e
  | .ok _ =>
    if relay.fenced then
      match res with
      | .ok () => .ack
      | .error e => .nack e
    else .nack .fencedDeliveryRequired

def Relay.failureStatus (relay : Relay) (row : Row) (e : DeliveryError) : FailureStatus :=
  if relay.maxAttempts ≤ row.attempts || e.isPermanent then .poison else .failed

def Relay.delaySecs (relay : Relay) (row : Row) (e : DeliveryError) (jitter : Option Nat) : Nat :=
  match relay.failureStatus row e with
  | .poison => 1
  | .failed => retryBackoffSeconds row.attempts jitter

theorem Relay.delaySecs_pos (relay : Relay) (row : Row) (e : DeliveryError) (jitter : Option Nat) :
    0 < relay.delaySecs row e jitter := by
  unfold delaySecs
  split
  · exact Nat.one_pos
  · exact retryBackoffSeconds_pos _ _

def Relay.markEdit (relay : Relay) (row : Row) (jitter : Option Nat) (now : Int) : Phase → Option (Edit Row)
  | .deliver => none
  | .ack => some (deliveredEdit row.id row.attempts now)
  | .nack e =>
    some (failureEdit row.id row.attempts (relay.failureStatus row e) (truncErr e) (relay.delaySecs row e jitter)
      (relay.delaySecs_pos row e jitter) now)

/-! ## The machine -/

inductive Event where
  /-- a relay was handed a row by a claim that set its attempts -/
  | claimed (i : Nat) (id : Uuid) (attempts : Nat)
  /-- `DeliverWithTombstoneFence` returned success for the row of a claim -/
  | accepted (i : Nat) (id : Uuid) (attempts : Nat)
  /-- a terminal status was written for the row of a claim -/
  | closed (i : Nat) (id : Uuid) (attempts : Nat) (status : DeliveryStatus)

structure World where
  clock : Int
  table : Table Row
  procs : Nat → Proc
  log : List Event

inductive Action where
  | tick (d : Nat)
  | enqueue (id : Uuid) (p : Publication)
  | claim (i : Nat) (locked : List Uuid) (now : Int)
  | deliver (i : Nat) (res : Except DeliveryError Unit)
  | mark (i : Nat) (jitter : Option Nat) (now : Int)
  | recover (age now : Int)
  /-- a relay stops, or a call of it fails before it reaches the database -/
  | stop (i : Nat)

structure Deployment where
  codec : Codec
  relay : Nat → Relay

def claimedEvent (i : Nat) (r : Row) : Event := .claimed i r.id r.attempts

def closedEvent (i : Nat) (r : Row) : List Event :=
  match r.deliveryStatus with
  | .delivered | .poison => [.closed i r.id r.attempts r.deliveryStatus]
  | _ => []

namespace World

def setProc (w : World) (i : Nat) (p : Proc) : World := { w with procs := Function.update w.procs i p }

def enqueue (w : World) (id : Uuid) (p : Publication) : Option World :=
  if w.table.rows.any fun r => sameAggregate p r.publication then none
  else (w.table.insert? (enqueuedRow id p w.clock)).map fun t => { w with table := t }

def claim (w : World) (relay : Relay) (i : Nat) (locked : List Uuid) (now : Int) : Option World :=
  match claimPending w.table relay.batchSize locked now with
  | some (rows, t) =>
    some ({ w with table := t, log := rows.map (claimedEvent i) ++ w.log }.setProc i
      (Proc.next rows))
  | none => some w

/-- `markDelivered`, `markFailure`: exactly one row has to change, or the transaction is rolled back and
the batch given up. -/
def mark (w : World) (relay : Relay) (i : Nat) (jitter : Option Nat) (now : Int) : Option World :=
  match w.procs i with
  | .idle => none
  | .busy row rest phase =>
    (relay.markEdit row jitter now phase).map fun e =>
      match w.table.returning e with
      | [r] => { w with table := w.table.update e, log := closedEvent i r ++ w.log }.setProc i (Proc.next rest)
      | _ => w.setProc i .idle

def deliver (w : World) (d : Deployment) (i : Nat) (res : Except DeliveryError Unit) : Option World :=
  match w.procs i with
  | .busy row rest .deliver =>
    match (d.relay i).deliverOne d.codec row res with
    | .ack => some ({ w with log := .accepted i row.id row.attempts :: w.log }.setProc i (.busy row rest .ack))
    | phase => some (w.setProc i (.busy row rest phase))
  | _ => none

def step (d : Deployment) (w : World) : Action → Option World
  | .tick n => some { w with clock := w.clock + n }
  | .enqueue id p => w.enqueue id p
  | .claim i locked now =>
    match w.procs i with
    | .idle => if now ≤ w.clock then w.claim (d.relay i) i locked now else none
    | .busy _ _ _ => none
  | .deliver i res => w.deliver d i res
  | .mark i jitter now => if now ≤ w.clock then w.mark (d.relay i) i jitter now else none
  | .recover age now =>
    if now ≤ w.clock then (recoverInFlight w.table age now).map fun t => { w with table := t } else none
  | .stop i => some (w.setProc i .idle)

end World

def machine (d : Deployment) : Machine World Action where
  init w := w.table = Table.empty ∧ w.procs = (fun _ => .idle) ∧ w.log = []
  step := World.step d

end IbexHarness.Outbox
