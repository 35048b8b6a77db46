import IbexHarness.Lib.Machine
import IbexHarness.PolicySnapshot.Snapshot

/-! The canonical text keeps the characters of a string and the double nearest to a number. -/

namespace IbexHarness.PolicySnapshot

section

open Lib List Digits

variable {other : Text → Option Text}

namespace GoString

def conveyed (s : GoString) : GoString := ofText s.sanitize

@[simp] theorem sanitize_ofText (s : Text) : sanitize (ofText s) = s := by
  simp [sanitize, ofText, Function.comp_def]

@[simp] theorem conveyed_ofText (s : Text) : conveyed (ofText s) = ofText s := by
  rw [conveyed, sanitize_ofText]

@[simp] theorem sanitize_conveyed (s : GoString) : sanitize (conveyed s) = sanitize s := sanitize_ofText _

theorem conveyed_eq_iff {s : GoString} : conveyed s = s ↔ ∀ x ∈ s, x.isLeft := by
  induction s with
  | nil => simp [conveyed, ofText, sanitize]
  | cons x s ih =>
    simp only [conveyed, ofText, sanitize, map_cons, List.cons.injEq, forall_mem_cons] at ih ⊢
    rw [ih]
    cases x <;> simp

theorem isSpace_conveyed : isSpace ∘ Sum.inl ∘ Sum.elim id (fun _ => Json.replacementChar) = isSpace := by
  funext x
  cases x with
  | inl c => rfl
  | inr b => rfl

theorem trimSpace_conveyed (s : GoString) : trimSpace (conveyed s) = conveyed (trimSpace s) := by
  simp only [trimSpace, conveyed, ofText, sanitize, map_map, dropWhile_map, isSpace_conveyed,
    List.rdropWhile, ← map_reverse]

theorem conveyed_eq_nil {s : GoString} : conveyed s = [] ↔ s = [] := by
  simp [conveyed, ofText, sanitize]

end GoString

namespace Claims

def conveyedInt (x : Int) : Int := Double.es6 x.toNat

def conveyed (c : Claims) : Claims where
  contractVersion := c.contractVersion.conveyed
  authority := c.authority.conveyed
  orgID := c.orgID.conveyed
  subjectID := c.subjectID.conveyed
  agentID := c.agentID.conveyed
  snapshotID := c.snapshotID.conveyed
  epoch := conveyedInt c.epoch
  permissions := conveyedInt c.permissions
  issuedAt := conveyedInt c.issuedAt
  expiresAt := conveyedInt c.expiresAt
  digest := c.digest.conveyed

def members (c : Claims) : List (Text × Json) :=
  [("agent_id".toList, string c.agentID), ("authority".toList, string c.authority),
    ("contract_version".toList, string c.contractVersion), ("digest".toList, string c.digest),
    ("epoch".toList, int64 c.epoch), ("expires_at".toList, int64 c.expiresAt),
    ("issued_at".toList, int64 c.issuedAt), ("org_id".toList, string c.orgID),
    ("permissions".toList, int64 c.permissions), ("snapshot_id".toList, string c.snapshotID),
    ("subject_id".toList, string c.subjectID)]

def numbers (c : Claims) : List Int := [c.epoch, c.permissions, c.issuedAt, c.expiresAt]

def Sized (c : Claims) : Prop := ∀ x ∈ c.numbers, 0 ≤ x ∧ x < 10 ^ 21

variable {x : Int} {c : Claims}

theorem forall_numbers {P : Int → Prop} :
    (∀ x ∈ c.numbers, P x) ↔ P c.epoch ∧ P c.permissions ∧ P c.issuedAt ∧ P c.expiresAt := by simp [numbers]

@[simp] theorem numbers_conveyed (c : Claims) : c.conveyed.numbers = c.numbers.map conveyedInt := rfl

@[simp] theorem conveyedInt_idem (x : Int) : conveyedInt (conveyedInt x) = conveyedInt x := by
  simp [conveyedInt]

theorem conveyedInt_nonneg (x : Int) : 0 ≤ conveyedInt x := Int.natCast_nonneg _

@[simp] theorem conveyed_idem (c : Claims) : c.conveyed.conveyed = c.conveyed := by
  simp [conveyed, GoString.conveyed]

theorem int64_of_nonneg (h : 0 ≤ x) : int64 x = .num (Nat.toDigits 10 x.toNat) := by
  rw [int64, ← signed_natCast, Int.toNat_of_nonneg h]

theorem canonical_int64 (h : 0 ≤ x ∧ x < 10 ^ 21) : (int64 x).canonical other = some (int64 (conveyedInt x)) := by
  have hlt : x.toNat < 10 ^ 21 := by omega
  rw [int64_of_nonneg h.1, int64_of_nonneg (conveyedInt_nonneg x), Json.canonical, Json.canonicalNumber_toDigits hlt]
  rfl

theorem canonical_string (s : GoString) : (string s).canonical other = some (string s.conveyed) := by
  rw [string, Json.canonical, string, GoString.sanitize_conveyed]

theorem canonical_marshalClaims (h : c.Sized) : c.marshalClaims.canonical other = some (.obj c.conveyed.members) := by
  obtain ⟨hepoch, hpermissions, hissued, hexpires⟩ := forall_numbers.mp h
  simp only [marshalClaims, Json.canonical, Json.canonicalFields, canonical_string, canonical_int64 hepoch,
    canonical_int64 hpermissions, canonical_int64 hissued, canonical_int64 hexpires, Option.bind_some, Option.map_some]
  rfl

theorem canonical_members (h : c.Sized) : Json.canonical other (.obj c.members) = some (.obj c.conveyed.members) := by
  obtain ⟨hepoch, hpermissions, hissued, hexpires⟩ := forall_numbers.mp h
  simp only [members, Json.canonical, Json.canonicalFields, canonical_string, canonical_int64 hepoch,
    canonical_int64 hpermissions, canonical_int64 hissued, canonical_int64 hexpires, Option.bind_some, Option.map_some]
  rfl

theorem members_nodup (c : Claims) : (c.members.map Prod.fst).Nodup := by
  have : c.members.map Prod.fst = zero.members.map Prod.fst := rfl
  rw [this]
  decide +kernel

theorem scans_int64 (h : 0 ≤ x) : Json.Numbers Json.Scans (int64 x) := by
  rw [int64_of_nonneg h]
  exact Json.scans_toDigits _

theorem depth_members (c : Claims) : Json.depth (.obj c.members) = 1 := rfl

theorem parse_members (h : ∀ x ∈ c.numbers, 0 ≤ x) :
    parse (Json.compact (.obj c.members)) = some (.obj c.members) := by
  obtain ⟨hepoch, hpermissions, hissued, hexpires⟩ := forall_numbers.mp h
  have hnumbers : Json.Numbers Json.Scans (.obj c.members) :=
    ⟨trivial, trivial, trivial, trivial, scans_int64 hepoch, scans_int64 hexpires, scans_int64 hissued, trivial,
      scans_int64 hpermissions, trivial, trivial, trivial⟩
  have hkeys : Json.DistinctKeys (.obj c.members) :=
    ⟨c.members_nodup, by simp [members, Json.DistinctKeysFields, Json.DistinctKeys, string, int64]⟩
  have hparse := Json.compact_writes.reads _ hnumbers hkeys maxNestingDepth (c.depth_members ▸ by decide) []
    (by simp [Json.Ends])
  rw [append_nil] at hparse
  simp only [parse, hparse]
  rfl

theorem parseInt64_signed (h : 0 ≤ x) : parseInt64 (signed 0 x) = if x < 2 ^ 63 then some x else none := by
  obtain ⟨n, rfl⟩ := Int.eq_ofNat_of_zero_le h
  have hminus : ∀ t, Nat.toDigits 10 n = '-' :: t → False := fun t ht =>
    Json.toDigits_ne_minus (n := n) (s := []) (t := t) (by rw [append_nil, ht])
  have hlow : -2 ^ 63 ≤ (n : Int) := by omega
  rw [signed_natCast, parseInt64.eq_2 _ hminus, Json.natural_toDigits, Option.map_some, Option.filter_some,
    Int.ofNat_eq_natCast]
  simp only [hlow, decide_true, Bool.true_and, decide_eq_true_eq]

theorem unmarshal_members_eq (c : Claims) : unmarshal (.obj c.members) =
      (parseInt64 (signed 0 c.epoch)).bind fun epoch =>
        (parseInt64 (signed 0 c.expiresAt)).bind fun expiresAt =>
          (parseInt64 (signed 0 c.issuedAt)).bind fun issuedAt =>
            (parseInt64 (signed 0 c.permissions)).bind fun permissions =>
              some { c.conveyed with epoch, expiresAt, issuedAt, permissions } := by
  simp only [unmarshal, members, foldlM_cons, foldlM_nil, string, int64]
  simp +decide only [setField, setString, setInt]
  cases parseInt64 (signed 0 c.epoch) <;> cases parseInt64 (signed 0 c.expiresAt) <;>
    cases parseInt64 (signed 0 c.issuedAt) <;> cases parseInt64 (signed 0 c.permissions) <;> rfl

theorem unmarshal_members (c : Claims) : unmarshal (.obj c.conveyed.members) =
      if ∀ x ∈ c.conveyed.numbers, x < 2 ^ 63 then some c.conveyed else none := by
  have hread : ∀ x, parseInt64 (signed 0 (conveyedInt x)) =
      if conveyedInt x < 2 ^ 63 then some (conveyedInt x) else none := fun x => parseInt64_signed (conveyedInt_nonneg x)
  have heq := unmarshal_members_eq c.conveyed
  rw [conveyed_idem] at heq
  rw [heq]
  simp only [numbers, forall_mem_cons, not_mem_nil, false_imp_iff, implies_true, and_true, conveyed, hread]
  split_ifs with hepoch hexpires hissued hpermissions <;> simp_all only [Option.bind_some, Option.bind_none, and_self,
    not_true_eq_false, and_true, true_and]

end Claims

end

/-! An issued envelope carries the text of the conveyed claims, and `verify` comes down to the checks on these. -/

section

open Lib List Claims

variable {κ π : Type} {P : Primitives κ π}

/-! ## Payload and digest -/

namespace Claims

def payload (c : Claims) : Text := Json.compact (.obj c.conveyed.members)

@[simp] theorem payload_conveyed (c : Claims) : c.conveyed.payload = c.payload := by
  rw [payload, conveyed_idem, payload]

theorem Sized.digest {c : Claims} (h : c.Sized) (d : GoString) : Sized { c with digest := d } := h

theorem sized_conveyed {c : Claims} (h : ∀ x ∈ c.numbers, 0 ≤ x ∧ x < 2 ^ 63) : c.conveyed.Sized := by
  intro x hx
  rw [numbers_conveyed, mem_map] at hx
  obtain ⟨y, hy, rfl⟩ := hx
  obtain ⟨hlow, hhigh⟩ := h y hy
  have hle := Double.es6_le y.toNat
  refine ⟨conveyedInt_nonneg y, ?_⟩
  rw [conveyedInt]
  omega

end Claims

variable {c : Claims}

theorem canonicalPayload_eq (h : c.Sized) : canonicalPayload P c = .ok c.payload := by
  have hcanonical : c.marshalClaims.canonical P.otherNumber = _ := canonical_marshalClaims h
  have hvalue : canonicalizeValue P c.marshalClaims = some c.payload := by
    rw [canonicalizeValue, hcanonical, Option.map_some, payload]
  unfold canonicalPayload
  rw [hvalue]

theorem computeDigest_eq (h : c.Sized) :
    computeDigest P c = .ok (.ofText (P.sha256Hex ({ c with digest := [] } : Claims).payload)) := by
  rw [computeDigest, canonicalPayload_eq (h.digest [])]
  rfl

theorem computeDigest_conveyed (h : c.Sized) (h' : c.conveyed.Sized) :
    computeDigest P c.conveyed = computeDigest P c := by
  have hblank : ({ c.conveyed with digest := [] } : Claims) = ({ c with digest := [] } : Claims).conveyed := rfl
  rw [computeDigest_eq h', computeDigest_eq h, hblank, payload_conveyed]

structure Claims.Valid (c : Claims) : Prop where
  contractVersion : c.contractVersion = PolicySnapshot.contractVersion
  authority : c.authority = authorityAuthService
  orgID : c.orgID.trimSpace ≠ []
  subjectID : c.subjectID.trimSpace ≠ []
  snapshotID : c.snapshotID.trimSpace ≠ []
  epoch : 1 ≤ c.epoch
  permissions : 0 ≤ c.permissions
  issuedAt : 0 < c.issuedAt
  expiresAt : c.issuedAt < c.expiresAt

theorem Claims.validateStructure_eq_ok : c.validateStructure = .ok () ↔ c.Valid := by
  simp only [validateStructure, Except.seq_eq_ok, validateIdentity, validateScope, Except.check_eq_ok, ne_eq, not_not,
    not_or, Int.not_lt, Int.not_le, and_true]
  constructor
  · rintro ⟨⟨h₁, h₂, h₃, h₄, h₅⟩, h₆, h₇, h₈, h₉⟩
    exact ⟨h₁, h₂, h₃, h₄, h₅, h₆, h₇, h₈, h₉⟩
  · rintro ⟨h₁, h₂, h₃, h₄, h₅, h₆, h₇, h₈, h₉⟩
    exact ⟨⟨h₁, h₂, h₃, h₄, h₅⟩, h₆, h₇, h₈, h₉⟩

theorem verifyClaimsPayload_eq_ok {d : Claims} (h : c.conveyed.Sized) : verifyClaimsPayload P c.payload = .ok d ↔
      (∀ x ∈ c.conveyed.numbers, x < 2 ^ 63) ∧ c.conveyed.Valid ∧ c.conveyed = d := by
  have hparse : parse c.payload = some (.obj c.conveyed.members) := parse_members fun x hx => (h x hx).1
  have hcanonical : canonicalize P c.payload = some c.payload := by
    rw [canonicalize, hparse, Option.bind_some, canonicalizeValue, canonical_members h, conveyed_idem,
      Option.map_some, payload]
  unfold verifyClaimsPayload
  rw [hcanonical, hparse, Option.bind_some, unmarshal_members]
  dsimp only
  rw [if_neg (not_not_intro rfl)]
  by_cases hnumbers : ∀ x ∈ c.conveyed.numbers, x < 2 ^ 63
  · rw [if_pos hnumbers]
    simp only [Except.seq_eq_ok, validateStructure_eq_ok, Except.ok.injEq]
    exact ⟨fun hd => ⟨hnumbers, hd⟩, And.right⟩
  · rw [if_neg hnumbers]
    exact ⟨nofun, fun hd => absurd hd.1 hnumbers⟩

theorem verifyFreshness_eq_ok {cls : Class} {now : Int} : verifyFreshness c cls now = .ok () ↔
      c.issuedAt * second ≤ now + clockSkew ∧
        now ≤ min (c.issuedAt * second + cls.maxAge) (c.expiresAt * second) + clockSkew := by
  simp only [verifyFreshness, Except.check_eq_ok, Int.not_lt, and_true]
  omega

variable {i : Issuer κ} {p : IssueParams} {id : GoString} {now : Int}

def Issuer.claims (P : Primitives κ π) (i : Issuer κ) (p : IssueParams) (id : GoString) (now : Int) : Claims :=
  { i.scope p id now with digest := .ofText (P.sha256Hex (i.scope p id now).payload) }

theorem unix_lt (t : Int) : unix t < 2 ^ 63 := by
  unfold unix wrap64
  omega

theorem Issuer.numbers_scope (h : (i.scope p id now).Valid) : ∀ x ∈ (i.scope p id now).numbers, 0 ≤ x ∧ x < 2 ^ 63 := by
  have hissued := h.issuedAt
  have hexpires := h.expiresAt
  simp only [numbers, forall_mem_cons, not_mem_nil, false_imp_iff, implies_true, and_true]
  refine ⟨⟨?_, i.epoch_int64.2⟩, ⟨h.permissions, p.permissions_int64.2⟩, ⟨?_, unix_lt _⟩, ?_, unix_lt _⟩
  · exact Int.le_trans (by decide) i.epoch_int64.1
  · exact Int.le_of_lt hissued
  · exact Int.le_of_lt (Int.lt_trans hissued hexpires)

theorem Claims.sized (h : ∀ x ∈ c.numbers, 0 ≤ x ∧ x < 2 ^ 63) : c.Sized := by
  intro x hx
  obtain ⟨hlow, hhigh⟩ := h x hx
  omega

theorem Issuer.issue_eq_ok {env : Envelope} (h : i.issue P p id now = .ok env) : (i.scope p id now).Valid ∧
      env = ⟨algorithmRS256, i.keyID, (i.claims P p id now).payload, P.sign i.key (i.claims P p id now).payload⟩ := by
  obtain ⟨hvalid, h⟩ := Except.seq_eq_ok.mp h
  have hvalid := validateStructure_eq_ok.mp hvalid
  have hsized := sized (numbers_scope hvalid)
  refine ⟨hvalid, ?_⟩
  rw [computeDigest_eq hsized] at h
  obtain ⟨_, hdigest, h⟩ := Except.bind_eq_ok.mp h
  cases hdigest
  rw [canonicalPayload_eq (hsized.digest _)] at h
  obtain ⟨_, hpayload, h⟩ := Except.bind_eq_ok.mp h
  cases hpayload
  exact (Except.ok.inj h).symm

theorem Issuer.numbers_claims (h : (i.scope p id now).Valid) :
    ∀ x ∈ (i.claims P p id now).numbers, 0 ≤ x ∧ x < 2 ^ 63 :=
  numbers_scope h

theorem Issuer.verifyClaimDigest_claims (h : (i.scope p id now).Valid) :
    verifyClaimDigest P (i.claims P p id now).conveyed = .ok () := by
  have hnumbers := numbers_claims (P := P) h
  have hdigest : (i.claims P p id now).conveyed.digest = .ofText (P.sha256Hex (i.scope p id now).payload) :=
    GoString.conveyed_ofText _
  have hblank : ({ i.claims P p id now with digest := [] } : Claims) = i.scope p id now := rfl
  unfold verifyClaimDigest
  rw [computeDigest_conveyed (sized hnumbers) (sized_conveyed hnumbers),
    computeDigest_eq (sized hnumbers), hblank]
  exact Except.seq_eq_ok (x := .ok ()).mpr ⟨rfl, if_neg (not_not_intro hdigest)⟩

variable {v : Verifier π} {q : VerifyParams} {t : Int} {c d : Claims}

theorem Claims.payload_ne_nil (c : Claims) : c.payload ≠ [] := by
  rw [payload, Json.compact]
  exact cons_ne_nil _ _

theorem Verifier.verifyEnvelopeStructure_eq {key : π} {signature : List UInt8} (hkey : v.keys i.keyID = some key)
    (hsignature : signature ≠ []) :
    v.verifyEnvelopeStructure ⟨algorithmRS256, i.keyID, c.payload, signature⟩ =
      if maxPayloadBytes < Text.byteLength c.payload then .error (.malformed "invalid payload") else .ok key := by
  simp [verifyEnvelopeStructure, c.payload_ne_nil, hsignature, hkey]

theorem Verifier.verifyAuthorityAndTime_eq_ok (h : verifyClaimDigest P c = .ok ()) :
    v.verifyAuthorityAndTime P c q t = .ok () ↔ q.expectedOrgID ≠ [] ∧ c.orgID = q.expectedOrgID ∧
        (q.expectedAgentID = [] ∨ c.agentID = q.expectedAgentID) ∧ v.minEpoch ≤ c.epoch ∧
        verifyFreshness c q.class' t = .ok () := by
  simp only [verifyAuthorityAndTime, Except.check_eq_ok, Except.seq_eq_ok, h, ne_eq, not_or, not_and, not_not,
    Int.not_lt, true_and]
  tauto

theorem Issuer.verify_eq_ok (h : (i.scope p id now).Valid) (hkey : v.keys i.keyID = some (P.publicKey i.key))
    (henv : q.envelope =
      ⟨algorithmRS256, i.keyID, (i.claims P p id now).payload, P.sign i.key (i.claims P p id now).payload⟩) :
    v.verify P q t = .ok d ↔ Text.byteLength (i.claims P p id now).payload ≤ maxPayloadBytes ∧
        (∀ x ∈ (i.claims P p id now).conveyed.numbers, x < 2 ^ 63) ∧ (i.claims P p id now).conveyed.Valid ∧
        v.verifyAuthorityAndTime P (i.claims P p id now).conveyed q t = .ok () ∧ (i.claims P p id now).conveyed =
          d := by
  have hsized := Claims.sized_conveyed (numbers_claims (P := P) h)
  have hsignature : verifySignature P (P.publicKey i.key) (i.claims P p id now).payload
      (P.sign i.key (i.claims P p id now).payload) = .ok () := if_pos (P.verify_sign _ _)
  unfold Verifier.verify
  rw [henv, Verifier.verifyEnvelopeStructure_eq hkey (P.sign_ne_nil _ _)]
  simp only [Except.bind_eq_ok, Except.check_eq_ok, verifyClaimsPayload_eq_ok hsized, Except.ok.injEq, Nat.not_lt]
  constructor
  · rintro ⟨_, ⟨hsize, rfl⟩, _, ⟨hnumbers, hvalid, rfl⟩, _, -, _, hauthority, rfl⟩
    exact ⟨hsize, hnumbers, hvalid, hauthority, rfl⟩
  · rintro ⟨hsize, hnumbers, hvalid, hauthority, rfl⟩
    exact ⟨_, ⟨hsize, rfl⟩, _, ⟨hnumbers, hvalid, rfl⟩, (), hsignature, (), hauthority, rfl⟩

end

/-! A sum over the values of the scope: names, punctuation, contract version, authority and digest are of fixed
length. -/

open Lib List GoString

variable {κ π : Type} {P : Primitives κ π}

def GoString.textBytes (s : GoString) : Nat := Text.byteLength (Json.quote s.sanitize)

@[simp] theorem GoString.textBytes_conveyed (s : GoString) : s.conveyed.textBytes = s.textBytes := by
  rw [textBytes, sanitize_conveyed, textBytes]

namespace Claims

def intBytes (x : Int) : Nat := (Nat.toDigits 10 (Double.es6 x.toNat)).length

def textBytes (c : Claims) : Nat :=
  245 + c.orgID.textBytes + c.subjectID.textBytes + c.agentID.textBytes + c.snapshotID.textBytes +
    intBytes c.epoch + intBytes c.permissions + intBytes c.issuedAt + intBytes c.expiresAt

theorem byteLength_string (s : GoString) : Text.byteLength (string s).compact = s.textBytes := by
  rw [string, Json.compact, GoString.textBytes]

theorem byteLength_int64 (x : Int) : Text.byteLength (int64 (conveyedInt x)).compact = intBytes x := by
  have hascii : Text.isAscii (Nat.toDigits 10 (Double.es6 x.toNat)) = true := by
    refine all_eq_true.mpr fun c hc => ?_
    have hdigit := Json.isDigit_of_mem_toDigits hc
    simp only [Char.isDigit, Bool.and_eq_true, decide_eq_true_eq, ge_iff_le, UInt32.le_iff_toNat_le] at hdigit
    exact decide_eq_true (Nat.lt_of_le_of_lt hdigit.2 (by decide))
  rw [int64_of_nonneg (conveyedInt_nonneg x), conveyedInt, Int.toNat_natCast]
  exact Text.byteLength_of_isAscii hascii

theorem byteLength_names (c : Claims) : (c.members.map fun f => Text.byteLength (Json.quote f.1)).sum = 123 := by
  have hnames : c.members.map (fun f => Text.byteLength (Json.quote f.1)) =
      (zero.members.map Prod.fst).map fun k => Text.byteLength (Json.quote k) := rfl
  rw [hnames]
  decide +kernel

theorem byteLength_values (c : Claims) : (c.members.map fun f => Text.byteLength f.2.compact).sum =
    c.contractVersion.textBytes + c.authority.textBytes + c.digest.textBytes + c.orgID.textBytes +
      c.subjectID.textBytes + c.agentID.textBytes + c.snapshotID.textBytes +
      Text.byteLength (int64 c.epoch).compact + Text.byteLength (int64 c.permissions).compact +
      Text.byteLength (int64 c.issuedAt).compact + Text.byteLength (int64 c.expiresAt).compact := by
  simp only [members, map_cons, map_nil, sum_cons, sum_nil, byteLength_string]
  omega

theorem byteLength_values_conveyed (c : Claims) : (c.conveyed.members.map fun f => Text.byteLength f.2.compact).sum =
      c.contractVersion.textBytes + c.authority.textBytes + c.digest.textBytes + c.orgID.textBytes +
        c.subjectID.textBytes + c.agentID.textBytes + c.snapshotID.textBytes +
        intBytes c.epoch + intBytes c.permissions + intBytes c.issuedAt + intBytes c.expiresAt := by
  rw [byteLength_values, ← byteLength_int64 c.epoch, ← byteLength_int64 c.permissions, ← byteLength_int64 c.issuedAt,
    ← byteLength_int64 c.expiresAt, ← textBytes_conveyed c.contractVersion,
    ← textBytes_conveyed c.authority, ← textBytes_conveyed c.digest,
    ← textBytes_conveyed c.orgID, ← textBytes_conveyed c.subjectID,
    ← textBytes_conveyed c.agentID, ← textBytes_conveyed c.snapshotID]
  rfl

theorem byteLength_payload (c : Claims) : Text.byteLength c.payload =
      146 + c.contractVersion.textBytes + c.authority.textBytes + c.digest.textBytes + c.orgID.textBytes +
        c.subjectID.textBytes + c.agentID.textBytes + c.snapshotID.textBytes +
        intBytes c.epoch + intBytes c.permissions + intBytes c.issuedAt + intBytes c.expiresAt := by
  have hlength : c.conveyed.members.length = 11 := rfl
  rw [payload, Json.byteLength_compact_obj, byteLength_names, byteLength_values_conveyed, hlength]
  omega

end Claims

theorem textBytes_contractVersion : contractVersion.textBytes = 20 := by decide +kernel

theorem textBytes_authorityAuthService : authorityAuthService.textBytes = 13 := by decide +kernel

theorem quote_hex : ∀ c ∈ "0123456789abcdef".toList, Json.escape c = [c] ∧ c.utf8Size = 1 := by
  -- `decide` on the statement itself may run through every character
  exact forall_iff_forall_mem.mp (by decide +kernel)

theorem textBytes_hex {s : Text} (h : ∀ c ∈ s, c ∈ "0123456789abcdef".toList) :
    (ofText s).textBytes = s.length + 2 := by
  have hescape : Text.byteLength (s.flatMap Json.escape) = s.length := by
    induction s with
    | nil => rfl
    | cons c s ih =>
      obtain ⟨hc, hsize⟩ := quote_hex c (h c mem_cons_self)
      rw [flatMap_cons, Text.byteLength_append, ih fun d hd => h d (mem_cons_of_mem c hd), hc,
        length_cons, Nat.add_comm]
      simp [Text.byteLength, hsize]
  rw [textBytes, sanitize_ofText, Json.quote, Text.byteLength_append, Text.byteLength_append, hescape]
  rw [show Text.byteLength ['\x22'] = 1 from rfl]
  omega

theorem textBytes_sha256Hex (m : Text) : (ofText (P.sha256Hex m)).textBytes = 66 := by
  rw [textBytes_hex (P.sha256Hex_hex m), P.length_sha256Hex]

theorem Issuer.byteLength_claims (i : Issuer κ) (p : IssueParams) (id : GoString) (now : Int) :
    Text.byteLength (i.claims P p id now).payload = (i.scope p id now).textBytes := by
  rw [Claims.byteLength_payload]
  simp only [claims, scope, textBytes_contractVersion, textBytes_authorityAuthService, textBytes_sha256Hex,
    Claims.textBytes]

end IbexHarness.PolicySnapshot
