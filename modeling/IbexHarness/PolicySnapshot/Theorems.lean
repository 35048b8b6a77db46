import IbexHarness.PolicySnapshot.Lemmas.Size

/-! The canonical form writes a number as the double nearest to it. -/

namespace IbexHarness.PolicySnapshot

open Lib Claims

variable {κ π : Type}

/-- A scope that the canonical text of a snapshot can carry: strings without loose bytes, an epoch and permissions that
are the decimal of a double, a text of at most 16 KiB, and times of which the same rounding leaves the window open. -/
structure Conveyable (c : Claims) (cls : Class) : Prop where
  orgID : ∀ x ∈ c.orgID, x.isLeft
  subjectID : ∀ x ∈ c.subjectID, x.isLeft
  agentID : ∀ x ∈ c.agentID, x.isLeft
  epoch : conveyedInt c.epoch = c.epoch
  permissions : conveyedInt c.permissions = c.permissions
  textBytes : c.textBytes ≤ maxPayloadBytes
  issuedAt : 0 < conveyedInt c.issuedAt ∧ conveyedInt c.issuedAt ≤ c.issuedAt
  expiresAt : conveyedInt c.issuedAt < conveyedInt c.expiresAt ∧ conveyedInt c.expiresAt < 2 ^ 63
  window : min (c.issuedAt * second + cls.maxAge) (c.expiresAt * second) ≤
    min (conveyedInt c.issuedAt * second + cls.maxAge) (conveyedInt c.expiresAt * second)

theorem conveyedInt_of_lt {x : Int} (h : 0 ≤ x) (hlt : x < 2 ^ 53) : conveyedInt x = x := by
  rw [conveyedInt, Double.es6_of_lt (by omega), Int.toNat_of_nonneg h]

/-- The times of the next 285 million years are doubles. -/
theorem conveyable_of_times {c : Claims} {cls : Class} (hvalid : c.Valid) (horg : ∀ x ∈ c.orgID, x.isLeft)
    (hsubject : ∀ x ∈ c.subjectID, x.isLeft) (hagent : ∀ x ∈ c.agentID, x.isLeft)
    (hepoch : conveyedInt c.epoch = c.epoch) (hpermissions : conveyedInt c.permissions = c.permissions)
    (hbytes : c.textBytes ≤ maxPayloadBytes) (htimes : c.expiresAt < 2 ^ 53) : Conveyable c cls := by
  have hissued := hvalid.issuedAt
  have hexpires := hvalid.expiresAt
  have hi := conveyedInt_of_lt (x := c.issuedAt) (by omega) (by omega)
  have he := conveyedInt_of_lt (x := c.expiresAt) (by omega) htimes
  refine ⟨horg, hsubject, hagent, hepoch, hpermissions, hbytes, ?_, ?_, ?_⟩
  · rw [hi]
    exact ⟨hissued, Int.le_refl _⟩
  · rw [hi, he]
    exact ⟨hexpires, Int.lt_trans htimes (by decide)⟩
  · rw [hi, he]

theorem expiresAt_mem_numbers (c : Claims) : c.expiresAt ∈ c.numbers := by simp [numbers]

section

variable {P : Primitives κ π} {i : Issuer κ} {p : IssueParams} {id : GoString} {now : Int} {cls : Class}

theorem Conveyable.numbers (h : Conveyable (i.scope p id now) cls) :
    ∀ x ∈ (i.claims P p id now).conveyed.numbers, x < 2 ^ 63 := by
  have hissued : conveyedInt (i.scope p id now).issuedAt < 2 ^ 63 := Int.lt_of_le_of_lt h.issuedAt.2 (unix_lt now)
  simp only [Claims.numbers, List.forall_mem_cons, List.not_mem_nil, false_imp_iff, implies_true, and_true]
  exact ⟨h.epoch.trans_lt i.epoch_int64.2, h.permissions.trans_lt p.permissions_int64.2, hissued, h.expiresAt.2⟩

theorem Conveyable.valid (h : Conveyable (i.scope p id now) cls) (hvalid : (i.scope p id now).Valid) :
    (i.claims P p id now).conveyed.Valid := by
  have hkept : ∀ {s : GoString}, s.trimSpace ≠ [] → s.conveyed.trimSpace ≠ [] := by
    intro s hs
    rwa [GoString.trimSpace_conveyed, ne_eq, GoString.conveyed_eq_nil]
  refine ⟨GoString.conveyed_ofText _, GoString.conveyed_ofText _, hkept hvalid.orgID, hkept hvalid.subjectID,
    hkept hvalid.snapshotID, ?_, conveyedInt_nonneg _, h.issuedAt.1, h.expiresAt.1⟩
  exact hvalid.epoch.trans_eq h.epoch.symm

/-- The first and the last moment at which a snapshot is fresh. -/
theorem fresh_ends {c : Claims} (hvalid : c.Valid) (cls : Class) :
    verifyFreshness c cls (c.issuedAt * second - clockSkew) = .ok () ∧
      verifyFreshness c cls (min (c.issuedAt * second + cls.maxAge) (c.expiresAt * second) + clockSkew) = .ok () := by
  have hexpires := hvalid.expiresAt
  simp only [verifyFreshness_eq_ok]
  cases cls <;> simp only [Class.maxAge, second, clockSkew] <;> omega

/-- What a caller may rely on: at every moment of the window the snapshot verifies with what was issued. -/
def ConveysIssued (P : Primitives κ π) (v : Verifier π) (i : Issuer κ) (p : IssueParams) (id : GoString) (now : Int)
    (q : VerifyParams) : Prop :=
  ∀ t, verifyFreshness (i.scope p id now) q.class' t = .ok () →
    ∃ c, v.verify P q t = .ok c ∧ c.orgID = p.orgID.trimSpace ∧ c.subjectID = p.subjectID.trimSpace ∧
      c.agentID = p.agentID.trimSpace ∧ c.permissions = p.permissions ∧ c.epoch = i.epoch

end

/-- An envelope that was issued is verified as long as it is fresh, and says what was issued, exactly if its canonical
text can carry its scope. -/
theorem snapshot_conveys_issued {P : Primitives κ π} {i : Issuer κ} {p : IssueParams} {id : GoString} {now : Int}
    {v : Verifier π} {q : VerifyParams} (hissue : i.issue P p id now = .ok q.envelope)
    (hkey : v.keys i.keyID = some (P.publicKey i.key)) (hepoch : v.minEpoch ≤ i.epoch)
    (horg : q.expectedOrgID = p.orgID.trimSpace)
    (hagent : q.expectedAgentID = [] ∨ q.expectedAgentID = p.agentID.trimSpace) :
    ConveysIssued P v i p id now q ↔ Conveyable (i.scope p id now) q.class' := by
  obtain ⟨hvalid, henv⟩ := Issuer.issue_eq_ok hissue
  have hdigest := Issuer.verifyClaimDigest_claims (P := P) hvalid
  have hbytes := Issuer.byteLength_claims (P := P) i p id now
  constructor
  · intro h
    obtain ⟨hfirst, hlast⟩ := fresh_ends hvalid q.class'
    obtain ⟨_, hverify, hd⟩ := h _ hfirst
    obtain ⟨hsize, hnumbers, hvalid', hauthority, rfl⟩ := (Issuer.verify_eq_ok hvalid hkey henv).mp hverify
    obtain ⟨horg', hsubject', hagent', hpermissions', hepoch'⟩ := hd
    obtain ⟨-, -, -, -, hfresh⟩ := (Verifier.verifyAuthorityAndTime_eq_ok hdigest).mp hauthority
    obtain ⟨_, hverify', -⟩ := h _ hlast
    obtain ⟨-, -, -, hauthority', -⟩ := (Issuer.verify_eq_ok hvalid hkey henv).mp hverify'
    obtain ⟨-, -, -, -, hfresh'⟩ := (Verifier.verifyAuthorityAndTime_eq_ok hdigest).mp hauthority'
    have hbegin := (verifyFreshness_eq_ok.mp hfresh).1
    have hend := (verifyFreshness_eq_ok.mp hfresh').2
    refine ⟨GoString.conveyed_eq_iff.mp horg', GoString.conveyed_eq_iff.mp hsubject',
      GoString.conveyed_eq_iff.mp hagent', hepoch', hpermissions', hbytes ▸ hsize, ⟨hvalid'.issuedAt, ?_⟩,
      ⟨hvalid'.expiresAt, hnumbers _ (expiresAt_mem_numbers _)⟩, ?_⟩
    · rw [Int.sub_add_cancel] at hbegin
      exact Int.le_of_mul_le_mul_right hbegin (by decide)
    · exact Int.le_of_add_le_add_right hend
  · intro h t hfresh
    have horg' := GoString.conveyed_eq_iff.mpr h.orgID
    have hsubject' := GoString.conveyed_eq_iff.mpr h.subjectID
    have hagent' := GoString.conveyed_eq_iff.mpr h.agentID
    refine ⟨(i.claims P p id now).conveyed, (Issuer.verify_eq_ok hvalid hkey henv).mpr ⟨hbytes ▸ h.textBytes, h.numbers,
      h.valid hvalid, (Verifier.verifyAuthorityAndTime_eq_ok hdigest).mpr ⟨?_, ?_, ?_, ?_, ?_⟩, rfl⟩, horg', hsubject',
      hagent', h.permissions, h.epoch⟩
    · rw [horg]
      rintro hnil
      exact hvalid.orgID (congrArg GoString.trimSpace hnil)
    · rw [horg]
      exact horg'
    · exact hagent.imp_right fun ha => hagent'.trans ha.symm
    · exact hepoch.trans_eq h.epoch.symm
    · obtain ⟨hbegin, hend⟩ := verifyFreshness_eq_ok.mp hfresh
      refine verifyFreshness_eq_ok.mpr ⟨Int.le_trans ?_ hbegin, Int.le_trans hend ?_⟩
      · exact Int.mul_le_mul_of_nonneg_right h.issuedAt.2 (by decide)
      · exact Int.add_le_add_right h.window _

/-! ## A sample issuer -/

/-- Signatures and digests that depend on the length of the text alone. -/
def samplePrimitives : Primitives Nat Nat where
  publicKey := id
  sign k m := [UInt8.ofNat k, UInt8.ofNat m.length]
  verify k m s := s = [UInt8.ofNat k, UInt8.ofNat m.length]
  sha256Hex m := List.replicate 64 (Nat.digitChar (m.length % 16))
  otherNumber _ := none
  sign_ne_nil _ _ := List.cons_ne_nil _ _
  verify_sign _ _ := decide_eq_true rfl
  length_sha256Hex _ := List.length_replicate
  sha256Hex_hex m c hc := by
    have hdigits : ∀ n < 16, Nat.digitChar n ∈ "0123456789abcdef".toList := by decide +kernel
    rw [List.eq_of_mem_replicate hc]
    exact hdigits _ (Nat.mod_lt _ (by decide))

def sampleIssuer : Issuer Nat where
  key := 7
  keyID := .ofText "policy-1".toList
  epoch := 3
  ttl := 60 * second
  keyID_ne := by decide
  epoch_int64 := by decide
  ttl_ge := by decide

def sampleParams (permissions : Int) (h : -2 ^ 63 ≤ permissions ∧ permissions < 2 ^ 63) : IssueParams :=
  ⟨.ofText " org-1".toList, .ofText "user-1".toList, .ofText "agent-1".toList, permissions, h⟩

def sampleID : GoString := .ofText "snapshot-1".toList

def sampleTime : Int := 1750000000 * second

def sampleVerifier : Verifier Nat where
  keys k := if k = sampleIssuer.keyID then some 7 else none
  minEpoch := 1

/-- What a service asks that got the sample snapshot. -/
def sampleQuery (p : IssueParams) : VerifyParams :=
  ⟨(sampleIssuer.issue samplePrimitives p sampleID sampleTime).toOption.getD ⟨[], [], [], []⟩, .ofText "org-1".toList,
    .ofText "agent-1".toList, .mutation⟩

theorem snapshot_conveys_issued_sample :
    ConveysIssued samplePrimitives sampleVerifier sampleIssuer (sampleParams 5 (by decide)) sampleID sampleTime
      (sampleQuery (sampleParams 5 (by decide))) := by
  refine (snapshot_conveys_issued (by decide +kernel) (by decide +kernel) (by decide) (by decide +kernel)
    (.inr (by decide +kernel))).mpr
      (conveyable_of_times (validateStructure_eq_ok.mp (by decide +kernel)) ?_ ?_ ?_ ?_ ?_ ?_ ?_)
  all_goals decide +kernel

/-- Permissions `2 ^ 53 + 1` are issued, and verified a second later as `2 ^ 53`. -/
theorem snapshot_conveys_other_permissions :
    sampleIssuer.issue samplePrimitives (sampleParams (2 ^ 53 + 1) (by decide)) sampleID sampleTime =
        .ok (sampleQuery (sampleParams (2 ^ 53 + 1) (by decide))).envelope ∧
      verifyFreshness (sampleIssuer.scope (sampleParams (2 ^ 53 + 1) (by decide)) sampleID sampleTime) .mutation
        (sampleTime + second) = .ok () ∧
      (sampleVerifier.verify samplePrimitives (sampleQuery (sampleParams (2 ^ 53 + 1) (by decide)))
        (sampleTime + second)).map Claims.permissions = .ok (2 ^ 53) := by
  decide +kernel

end IbexHarness.PolicySnapshot
