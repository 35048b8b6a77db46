import IbexHarness.Lib.JsonWriters

/-! `Issuer.Issue` and `Verifier.Verify` of `packages/policysnapshot`, with `canonicaljson.Canonicalize`. -/

namespace IbexHarness.PolicySnapshot

open Lib

/-! ## Strings -/

abbrev GoString := List (Char ⊕ UInt8)

namespace GoString

def ofText (s : Text) : GoString := s.map .inl

/-- The text that `encoding/json` writes: U+FFFD for a byte that is part of no character. -/
def sanitize (s : GoString) : Text := s.map (Sum.elim id fun _ => Json.replacementChar)

def isSpace : Char ⊕ UInt8 → Bool := Sum.elim Text.isWhiteSpace fun _ => false

def trimSpace (s : GoString) : GoString := (s.dropWhile isSpace).rdropWhile isSpace

end GoString

/-! ## Claims -/

def contractVersion : GoString := .ofText "policy-snapshot.v1".toList

def authorityAuthService : GoString := .ofText "AuthService".toList

def algorithmRS256 : GoString := .ofText "RS256".toList

def second : Int := 1000000000

def clockSkew : Int := 5 * second

def maxPayloadBytes : Nat := 16 * 1024

inductive Class where
  | mutation
  | read

def Class.maxAge : Class → Int
  | .mutation => 30 * second
  | .read => 60 * second

inductive Error where
  | malformed (reason : String)
  | signatureInvalid (reason : String)
  | keyUnknown
  | expired (reason : String)
  | orgMismatch
  | agentMismatch
deriving DecidableEq

structure Claims where
  contractVersion : GoString
  authority : GoString
  orgID : GoString
  subjectID : GoString
  agentID : GoString
  snapshotID : GoString
  epoch : Int
  permissions : Int
  issuedAt : Int
  expiresAt : Int
  digest : GoString

structure Envelope where
  algorithm : GoString
  keyID : GoString
  payload : Text
  signature : List UInt8
deriving DecidableEq

namespace Claims

variable (c : Claims)

def validateIdentity : Except Error Unit :=
  if c.contractVersion ≠ PolicySnapshot.contractVersion then .error (.malformed "unsupported contract_version")
  else if c.authority ≠ authorityAuthService then .error (.malformed "unsupported authority")
  else if c.orgID.trimSpace = [] then .error (.malformed "missing org_id")
  else if c.subjectID.trimSpace = [] then .error (.malformed "missing subject_id")
  else if c.snapshotID.trimSpace = [] then .error (.malformed "missing snapshot_id")
  else .ok ()

def validateScope : Except Error Unit :=
  if c.epoch < 1 then .error (.malformed "invalid epoch")
  else if c.permissions < 0 then .error (.malformed "invalid permissions")
  else if c.issuedAt ≤ 0 ∨ c.expiresAt ≤ c.issuedAt then .error (.malformed "invalid validity window")
  else .ok ()

def validateStructure : Except Error Unit := do
  c.validateIdentity
  c.validateScope

/-! ### JSON -/

def string (s : GoString) : Json := .str s.sanitize

def int64 (x : Int) : Json := .num (Digits.signed 0 x)

def marshalClaims : Json :=
  .obj [("contract_version".toList, string c.contractVersion), ("authority".toList, string c.authority),
    ("org_id".toList, string c.orgID), ("subject_id".toList, string c.subjectID),
    ("agent_id".toList, string c.agentID), ("snapshot_id".toList, string c.snapshotID),
    ("epoch".toList, int64 c.epoch), ("permissions".toList, int64 c.permissions),
    ("issued_at".toList, int64 c.issuedAt), ("expires_at".toList, int64 c.expiresAt),
    ("digest".toList, string c.digest)]

/-- `encoding/json` does not tell two names apart that are the same but for case folding. -/
def foldChar (c : Char) : Char := if c = '\u017f' then 'S' else if c = '\u212a' then 'K' else c.toUpper

def sameName (k : Text) (name : String) : Bool := k.map foldChar = name.toList.map foldChar

def setString : Json → GoString → Option GoString
  | .str s, _ => some (.ofText s)
  | .null, old => some old
  | _, _ => none

def parseInt64 (lit : Text) : Option Int :=
  (match lit with
    | '-' :: digits => (Json.natural digits).map fun n => -(n : Int)
    | digits => (Json.natural digits).map Int.ofNat).filter fun x => -2 ^ 63 ≤ x && x < 2 ^ 63

def setInt : Json → Int → Option Int
  | .num lit, _ => parseInt64 lit
  | .null, old => some old
  | _, _ => none

def setField (c : Claims) (k : Text) (v : Json) : Option Claims :=
  if sameName k "contract_version" then (setString v c.contractVersion).map fun s => { c with contractVersion := s }
  else if sameName k "authority" then (setString v c.authority).map fun s => { c with authority := s }
  else if sameName k "org_id" then (setString v c.orgID).map fun s => { c with orgID := s }
  else if sameName k "subject_id" then (setString v c.subjectID).map fun s => { c with subjectID := s }
  else if sameName k "agent_id" then (setString v c.agentID).map fun s => { c with agentID := s }
  else if sameName k "snapshot_id" then (setString v c.snapshotID).map fun s => { c with snapshotID := s }
  else if sameName k "epoch" then (setInt v c.epoch).map fun x => { c with epoch := x }
  else if sameName k "permissions" then (setInt v c.permissions).map fun x => { c with permissions := x }
  else if sameName k "issued_at" then (setInt v c.issuedAt).map fun x => { c with issuedAt := x }
  else if sameName k "expires_at" then (setInt v c.expiresAt).map fun x => { c with expiresAt := x }
  else if sameName k "digest" then (setString v c.digest).map fun s => { c with digest := s }
  else some c

def zero : Claims := ⟨[], [], [], [], [], [], 0, 0, 0, 0, []⟩

def unmarshal : Json → Option Claims
  | .obj fields => fields.foldlM (fun c f => setField c f.1 f.2) zero
  | .null => some zero
  | _ => none

end Claims

/-! ## Canonical payloads -/

def maxNestingDepth : Nat := 10000

def parse (text : Text) : Option Json :=
  match Json.parseValue maxNestingDepth text with
  | some (v, rest) => if Json.skipSpace rest = [] then some v else none
  | none => none

/-- What the service takes from libraries; a signature that was made with a key is accepted by its public key. -/
structure Primitives (κ π : Type) where
  publicKey : κ → π
  sign : κ → Text → List UInt8
  verify : π → Text → List UInt8 → Bool
  sha256Hex : Text → Text
  otherNumber : Text → Option Text
  sign_ne_nil : ∀ k m, sign k m ≠ []
  verify_sign : ∀ k m, verify (publicKey k) m (sign k m) = true
  length_sha256Hex : ∀ m, (sha256Hex m).length = 64
  sha256Hex_hex : ∀ m, ∀ c ∈ sha256Hex m, c ∈ "0123456789abcdef".toList

variable {κ π : Type} (P : Primitives κ π)

def canonicalizeValue (v : Json) : Option Text := (v.canonical P.otherNumber).map Json.compact

/-- Of two members of one name, which the canonicalizer refuses, one is left, so that the
text is not that of the input either. -/
def canonicalize (text : Text) : Option Text := (parse text).bind (canonicalizeValue P)

def canonicalPayload (c : Claims) : Except Error Text :=
  match canonicalizeValue P c.marshalClaims with
  | some payload => .ok payload
  | none => .error (.malformed "canonicalize claims")

def computeDigest (c : Claims) : Except Error GoString := do
  let payload ← canonicalPayload P { c with digest := [] }
  .ok (.ofText (P.sha256Hex payload))

/-! ## Issuing -/

structure IssueParams where
  orgID : GoString
  subjectID : GoString
  agentID : GoString
  permissions : Int
  permissions_int64 : -2 ^ 63 ≤ permissions ∧ permissions < 2 ^ 63

/-- `Issuer`, as `NewIssuer` makes it; `authority` is always `AuthorityAuthService`. -/
structure Issuer (κ : Type) where
  key : κ
  keyID : GoString
  epoch : Int
  ttl : Int
  keyID_ne : keyID ≠ []
  epoch_int64 : 1 ≤ epoch ∧ epoch < 2 ^ 63
  ttl_ge : second ≤ ttl

def wrap64 (x : Int) : Int := (x + 2 ^ 63) % 2 ^ 64 - 2 ^ 63

def unix (t : Int) : Int := wrap64 (t / second)

/-- The claims of `Issue` without their digest, for the time `now` and the new id. -/
def Issuer.scope (i : Issuer κ) (p : IssueParams) (snapshotID : GoString) (now : Int) : Claims where
  contractVersion := contractVersion
  authority := authorityAuthService
  orgID := p.orgID.trimSpace
  subjectID := p.subjectID.trimSpace
  agentID := p.agentID.trimSpace
  snapshotID
  epoch := i.epoch
  permissions := p.permissions
  issuedAt := unix now
  expiresAt := unix (now + i.ttl)
  digest := []

def Issuer.issue (i : Issuer κ) (p : IssueParams) (snapshotID : GoString) (now : Int) : Except Error Envelope := do
  let claims := i.scope p snapshotID now
  claims.validateStructure
  let digest ← computeDigest P claims
  let payload ← canonicalPayload P { claims with digest }
  .ok ⟨algorithmRS256, i.keyID, payload, P.sign i.key payload⟩

/-! ## Verifying -/

structure Verifier (π : Type) where
  /-- `KeySet.Lookup` -/
  keys : GoString → Option π
  minEpoch : Int

structure VerifyParams where
  envelope : Envelope
  expectedOrgID : GoString
  expectedAgentID : GoString
  class' : Class

def Verifier.verifyEnvelopeStructure (v : Verifier π) (env : Envelope) : Except Error π :=
  if env.algorithm ≠ algorithmRS256 then .error (.malformed "unsupported algorithm")
  else if env.payload = [] ∨ maxPayloadBytes < Text.byteLength env.payload then .error (.malformed "invalid payload")
  else if env.signature = [] then .error (.malformed "invalid signature")
  else match v.keys env.keyID with
    | some key => .ok key
    | none => .error .keyUnknown

def verifyClaimsPayload (payload : Text) : Except Error Claims :=
  match canonicalize P payload with
  | none => .error (.malformed "canonicalize")
  | some canonical =>
    if canonical ≠ payload then .error (.malformed "payload is not canonical")
    else match (parse payload).bind Claims.unmarshal with
      | none => .error (.malformed "parse claims")
      | some claims => do
        claims.validateStructure
        .ok claims

def verifySignature (key : π) (payload : Text) (signature : List UInt8) : Except Error Unit :=
  if P.verify key payload signature then .ok () else .error (.signatureInvalid "signature")

def verifyClaimDigest (c : Claims) : Except Error Unit := do
  let expected ← computeDigest P c
  if c.digest ≠ expected then .error (.signatureInvalid "digest mismatch") else .ok ()

def verifyFreshness (c : Claims) (cls : Class) (now : Int) : Except Error Unit :=
  if now + clockSkew < c.issuedAt * second then .error (.expired "issued in the future")
  else if cls.maxAge + clockSkew < now - c.issuedAt * second then .error (.expired "age exceeds class bound")
  else if c.expiresAt * second + clockSkew < now then .error (.expired "past expiry")
  else .ok ()

def Verifier.verifyAuthorityAndTime (v : Verifier π) (c : Claims) (p : VerifyParams) (now : Int) :
    Except Error Unit :=
  if p.expectedOrgID = [] ∨ c.orgID ≠ p.expectedOrgID then .error .orgMismatch
  else if p.expectedAgentID ≠ [] ∧ c.agentID ≠ p.expectedAgentID then .error .agentMismatch
  else do
    verifyClaimDigest P c
    if c.epoch < v.minEpoch then .error (.expired "epoch below minimum") else verifyFreshness c p.class' now

def Verifier.verify (v : Verifier π) (p : VerifyParams) (now : Int) : Except Error Claims := do
  let key ← v.verifyEnvelopeStructure p.envelope
  let claims ← verifyClaimsPayload P p.envelope.payload
  verifySignature P key p.envelope.payload p.envelope.signature
  v.verifyAuthorityAndTime P claims p now
  .ok claims

end IbexHarness.PolicySnapshot
