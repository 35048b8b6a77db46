import IbexHarness.Budget.Lemmas.Effects

/-! Outcome kinds and committed rows of the Go and the Python claim, and the states in which the two
agree. -/

namespace IbexHarness.Budget

open Lib List CentArith Go

inductive ClaimKind where
  | owned
  | inProgress
  | conflict
  | exceeded
  | noCap
deriving DecidableEq

def Go.kind : Except LedgerError ClaimOutcome → Option ClaimKind
  | .ok (.owned _) => some .owned
  | .ok (.inProgress _) => some .inProgress
  | .ok .conflict => some .conflict
  | .ok (.exceeded _) => some .exceeded
  | .ok .noCap => some .noCap
  | .error _ => none

/-- The kind a Python claim signals by its result or by the exception; none for any other failure. -/
def Py.kind : Except LedgerError (Option Reservation) → Option ClaimKind
  | .ok (some _) => some .owned
  | .ok none => some .noCap
  | .error (.denied .conflict _) => some .conflict
  | .error (.denied .inProgress _) => some .inProgress
  | .error (.denied .exceeded _) => some .exceeded
  | .error _ => none

def Row.contents (r : Row) : Row := { r with priceInputCentsPer1k := none, priceOutputCentsPer1k := none }

def contents (t : Table Row) : List Row := t.rows.map Row.contents

def Agree (g : Except Go.LedgerError Go.ClaimOutcome × Table Row)
    (y : Except Py.LedgerError (Option Reservation) × Table Row) : Prop :=
  Go.kind g.1 = Py.kind y.1 ∧ contents g.2 = contents y.2

instance (g : Except Go.LedgerError Go.ClaimOutcome × Table Row)
    (y : Except Py.LedgerError (Option Reservation) × Table Row) : Decidable (Agree g y) :=
  inferInstanceAs (Decidable (_ ∧ _))

def capCheckExact (period : Period) (holds est : Nat) : Bool :=
  match CentArith.int64.scan holds with
  | none => false
  | some h => CentArith.int64.exceeds period h est == CentArith.exact.exceeds period h est

/-- The states in which the two claims agree: the request is rejected at once, or the 64-bit cap check
is exact wherever it is reached and no stale claim of the same request meets a full cap. -/
def agreesWhen (db : Db) (now : Int) (p : Principal) (key hash : Text) (est : Nat) : Bool :=
  key.isEmpty || hash.isEmpty ||
    match activePeriod db.periods p.orgId now with
    | none => true
    | some period =>
      match reservationOf db.reservations p key with
      | none => capCheckExact period (liveHolds db.reservations p.orgId period.id now) est
      | some row =>
        let holds := activeHolds db.reservations p.orgId period.id now (some row.id)
        row.requestHash != hash || row.live now ||
          (capCheckExact period holds est && !(row.isClaimed && CentArith.exact.exceeds period holds est))

section

variable {t t' : Table Row} {row : Row} {period : Period} {n est : Nat}

/-! ## The cap check -/

theorem bmod_of_fits {x : Int} (h₀ : 0 ≤ x) (hx : x < 2 ^ 63) : x.bmod (2 ^ 64) = x := by
  rw [Int.bmod_eq_of_le] <;> omega

theorem scan_int64 {i : Int} (h : int64.scan n = some i) : i = n := by
  simp only [int64] at h
  split at h
  · exact (Option.some.inj h).symm
  · cases h

theorem int64_exceeds_of_le (hcap : period.capCents < 2 ^ 63) {h : Nat}
    (hle : period.spentCentsCached + h + est ≤ period.capCents) :
    int64.exceeds period h est = false := by
  have h₁ := bmod_of_fits (x := period.spentCentsCached + h) (by omega) (by omega)
  have h₂ := bmod_of_fits (x := period.spentCentsCached + h + est) (by omega) (by omega)
  simp only [exceeds, int64, h₁, h₂, decide_eq_false_iff_not]
  omega

theorem exact_exceeds_iff {h : Nat} :
    exact.exceeds period h est = true ↔ period.capCents < period.spentCentsCached + h + est := by
  have hdef : exact.exceeds period h est = decide ((period.capCents : Int) < period.spentCentsCached + h + est) := rfl
  rw [hdef, decide_eq_true_iff]
  omega

theorem capCheckExact_true (h : capCheckExact period n est = true) : int64.scan n = some (n : Int) ∧
      int64.exceeds period n est = exact.exceeds period n est := by
  unfold capCheckExact at h
  split at h
  · cases h
  · rename_i i hi
    obtain rfl := scan_int64 hi
    exact ⟨hi, by simpa using h⟩

theorem capCheckExact_false (hcap : period.capCents < 2 ^ 63) (h : capCheckExact period n est = false) :
    exact.exceeds period n est = true ∧ (int64.scan n = none ∨
        int64.scan n = some (n : Int) ∧ int64.exceeds period n est = false) := by
  have hex : ∀ b, exact.exceeds period n est = b → b = true ∨ int64.exceeds period n est = false := by
    rintro (_ | _) hb
    · refine .inr (int64_exceeds_of_le hcap ?_)
      have := mt exact_exceeds_iff.mpr (by simp [hb] : ¬ exact.exceeds period n est = true)
      omega
    · exact .inl rfl
  unfold capCheckExact at h
  by_cases hn : n < 2 ^ 63
  · have hs : int64.scan n = some (n : Int) := if_pos hn
    simp only [hs, beq_eq_false_iff_ne, ne_eq] at h
    rcases hex _ rfl with he | he
    · refine ⟨he, .inr ⟨hs, ?_⟩⟩
      rw [he] at h
      simpa using h
    · rw [he] at h
      exact ⟨by simpa using Ne.symm h, .inr ⟨hs, he⟩⟩
  · exact ⟨exact_exceeds_iff.mpr (by omega), .inl (if_neg hn)⟩

theorem Py.exceeds_eq {ad : Admission} (hper : ad.period = period) (hest : ad.estimatedCents = est) :
    exceeds ad n = exact.exceeds period n est := by
  rw [Bool.eq_iff_iff, exact_exceeds_iff]
  simp [exceeds, hper, hest]

namespace Go

variable {a : CentArith} {l : PostgresLedger} {env : ClaimEnv} {p : Principal} {req : ClaimRequest}

theorem claimFresh_eq : claimFresh a l t env p req period =
    match a.scan (liveHolds t p.orgId period.id env.now) with
    | some h => admitFresh a l t env p req period h
    | none => .error (.database "budgetledger: sum active holds") := by
  simp only [claimFresh, activeHoldCents, activeHolds_nil]
  cases a.scan (liveHolds t p.orgId period.id env.now) <;> rfl

theorem resolveExisting_eq (env : ClaimEnv) (req : ClaimRequest) (hhash : row.requestHash = req.requestHash)
    (hlive : row.live env.appNow = false) :
    resolveExisting a l t env p req period row =
      match a.scan (activeHolds t p.orgId period.id env.now (some row.id)) with
      | some h => admitExisting a l t env p req period row h
      | none => .error (.database "budgetledger: sum active holds") := by
  simp only [resolveExisting, hhash, bne_self_eq_false, Bool.false_eq_true, if_false, liveClaimLease, hlive,
    activeHoldCents]
  cases a.scan (activeHolds t p.orgId period.id env.now (some row.id)) <;> rfl

theorem kind_insertHeldRow : kind (withOrgTx t (insertHeldRow l t env p req period)).1 ≠ some .exceeded := by
  unfold insertHeldRow
  split <;> simp [withOrgTx, kind, ownedOutcome]

theorem kind_resetHeldRow : kind (withOrgTx t (resetHeldRow l t env p req period row)).1 ≠ some .exceeded := by
  unfold resetHeldRow
  dsimp only
  split
  · simp [withOrgTx, kind]
  · split <;> simp [withOrgTx, kind, ownedOutcome]

end Go

/-! ## Writing the same row -/

section Write

variable {gl : Go.PostgresLedger} {pl : Py.Ledger} {now : Int} {newId : Uuid} {hid : newId ≠ 0} {p : Principal}
  {key hash : Text} {ad : Py.Admission} {price : Option Py.Price}

structure Corresponds (ad : Py.Admission) (p : Principal) (key hash : Text) (period : Period) (est : Nat) : Prop where
  principal : ad.principal = p
  key : ad.key = key
  hash : ad.requestHash = hash
  period : ad.period = period
  estimate : ad.estimatedCents = est

theorem insert_agree (hl : gl.lease = pl.lease) (h : Corresponds ad p key hash period est)
    (hex : Py.exceeds ad n = false) :
    Agree (withOrgTx t (insertHeldRow gl t ⟨now, now, now, newId, hid⟩ p ⟨key, hash, est⟩ period))
      (Py.serviceOrgSession t ((Py.admitFresh pl t ⟨now, newId, hid, price⟩ ad n).mapError fun e => (e, t))) := by
  obtain ⟨rfl, rfl, rfl, rfl, rfl⟩ := h
  simp only [insertHeldRow, Py.admitFresh, hex, insertReservation, hl, Int.toNat_natCast, Bool.false_eq_true,
    if_false]
  by_cases hc : (keyCheck ad.key && hashCheck ad.requestHash && leaseCheck (now + pl.lease) now &&
      (t.get newId).isNone) = true
  · simp only [hc, if_true]
    -- the two rows differ in the prices only, so both inserts succeed or neither
    generalize hrg : Row.mk newId _ _ _ _ _ _ _ _ (Option.map _ none) _ _ _ _ = rg
    generalize hrp : Row.mk newId _ _ _ _ _ _ _ _ (Option.map _ (some _)) _ _ _ _ = rp
    have hsame : rg.contents = rp.contents := by subst hrg hrp; rfl
    have hnone : t.insert? rg = none ↔ t.insert? rp = none :=
      Table.insert?_eq_none_congr (by subst hrg hrp; rfl) (by subst hrg hrp; rfl)
    cases hg : t.insert? rg with
    | none => simp [hnone.mp hg, Agree, withOrgTx, Py.serviceOrgSession, Except.mapError, kind, Py.kind]
    | some tg =>
      cases hp : t.insert? rp with
      | none => simp [hnone.mpr hp] at hg
      | some tp =>
        refine ⟨rfl, ?_⟩
        show contents tg = contents tp
        simp [contents, (Table.insert?_eq_some hg).2.2, (Table.insert?_eq_some hp).2.2, hsame]
  · simp only [hc]
    exact ⟨rfl, rfl⟩

theorem isRow_of_reservationOf (h : reservationOf t p key = some row) :
    row ∈ t.rows ∧ row.isRow row.id p key = true := by
  obtain ⟨hmem, huk⟩ := Table.find_eq_some.mp h
  simp only [Keyed.uk, Prod.mk.injEq] at huk
  exact ⟨hmem, Row.isRow_iff.mpr ⟨rfl, huk⟩⟩

theorem returning_singleton {e : Edit Row} (hrow : row ∈ t.rows) (hc : e.cond row = true)
    (hon : ∀ r, e.cond r = true → r.id = row.id) : t.returning e = [e.set row] := by
  rw [Table.returning, Table.filter_eq_singleton hrow hc fun r _ hr => hon r hr]
  rfl

theorem contents_update_eq {e e' : Edit Row} (hrow : row ∈ t.rows) (hc : e.cond row = true)
    (hc' : e'.cond row = true) (hon : ∀ r, e.cond r = true → r.id = row.id)
    (hon' : ∀ r, e'.cond r = true → r.id = row.id) (hset : (e.set row).contents = (e'.set row).contents) :
    contents (t.update e) = contents (t.update e') := by
  simp only [contents, Table.update, map_map]
  refine map_congr_left fun r hr => ?_
  show (e.apply r).contents = (e'.apply r).contents
  by_cases hid : r.id = row.id
  · obtain rfl := Table.eq_of_pk hr hrow hid
    rw [Edit.apply_pos hc, Edit.apply_pos hc', hset]
  · rw [Edit.apply_neg (by simpa using mt (hon r) hid), Edit.apply_neg (by simpa using mt (hon' r) hid)]

theorem reset_agree (hl : gl.lease = pl.lease) (h : Corresponds ad p key hash period est)
    (hrow : reservationOf t p key = some row) (hhash : row.requestHash = hash) (hlive : row.live now = false) :
    Agree (withOrgTx t (resetHeldRow gl t ⟨now, now, now, newId, hid⟩ p ⟨key, hash, est⟩ period row))
      (Py.serviceOrgSession t ((Py.resetRow pl t ⟨now, newId, hid, price⟩ ad row).mapError fun e => (e, t))) := by
  obtain ⟨rfl, rfl, rfl, rfl, rfl⟩ := h
  obtain ⟨hmem, his⟩ := isRow_of_reservationOf hrow
  set eg := resetEdit ad.period.id ad.estimatedCents (now + pl.lease) row.id ad.principal ad.key row.version with heg
  set ep := resetSql ad.period.id ad.requestHash ad.estimatedCents ad.price.inputCentsPer1k
    ad.price.outputCentsPer1k now (now + pl.lease) row.id ad.principal ad.key row.version with hep
  have hcg : eg.cond row = true := by simp [heg, resetEdit, his]
  have hcp : ep.cond row = true := by simp [hep, resetSql, his, hlive]
  have hong : ∀ r, eg.cond r = true → r.id = row.id := onRow_resetEdit.id
  have honp : ∀ r, ep.cond r = true → r.id = row.id := onRow_resetSql.id
  have hset : (eg.set row).contents = (ep.set row).contents := by
    simp [heg, hep, resetEdit, resetSql, Row.contents, hhash]
  have hcontents := contents_update_eq hmem hcg hcp hong honp hset
  simp only [resetHeldRow, Py.resetRow, hl, Int.toNat_natCast, ← heg, ← hep,
    returning_singleton hmem hcg hong, returning_singleton hmem hcp honp]
  have hcreated : (eg.set row).createdAt = (ep.set row).createdAt := rfl
  rw [hcreated]
  split
  · exact ⟨rfl, hcontents⟩
  · exact ⟨rfl, rfl⟩

theorem contents_expire_ne (hrow : reservationOf t p key = some row) (hcl : row.isClaimed = true) :
    contents (t.update (expireEdit row.id p key row.version)) ≠ contents t := by
  obtain ⟨hmem, his⟩ := isRow_of_reservationOf hrow
  have hc : (expireEdit row.id p key row.version).cond row = true := by simp [expireEdit, closeEdit, his, hcl]
  intro heq
  simp only [contents, Table.update, map_map] at heq
  have hrow' : (Edit.apply (expireEdit row.id p key row.version) row).contents = row.contents :=
    map_inj_left.mp heq row hmem
  rw [Edit.apply_pos hc] at hrow'
  have hver : row.version + 1 = row.version := congrArg Row.version hrow'
  omega

theorem fresh_agree_iff (hl : gl.lease = pl.lease) (h : Corresponds ad p key hash period est)
    (hcap : period.capCents < 2 ^ 63) :
    Agree (withOrgTx t (claimFresh .int64 gl t ⟨now, now, now, newId, hid⟩ p ⟨key, hash, est⟩ period))
        (Py.serviceOrgSession t ((Py.insertRow pl t ⟨now, newId, hid, price⟩ ad).mapError fun e => (e, t))) ↔
      capCheckExact period (liveHolds t p.orgId period.id now) est = true := by
  obtain ⟨hp, -, -, hper, hest⟩ := id h
  have hpy : Py.insertRow pl t ⟨now, newId, hid, price⟩ ad =
      Py.admitFresh pl t ⟨now, newId, hid, price⟩ ad (liveHolds t p.orgId period.id now) := by
    rw [Py.insertRow, hp, hper, activeHolds_none]
  have hexc := Py.exceeds_eq (n := liveHolds t p.orgId period.id now) hper hest
  rw [hpy, claimFresh_eq]
  cases hchk : capCheckExact period (liveHolds t p.orgId period.id now) est with
  | true =>
    obtain ⟨hscan, heq⟩ := capCheckExact_true hchk
    simp only [hscan, iff_true]
    cases hex : exact.exceeds period (liveHolds t p.orgId period.id now) est with
    | true =>
      simp only [admitFresh, heq, hex, if_true, Py.admitFresh, hexc]
      exact ⟨rfl, rfl⟩
    | false =>
      simp only [admitFresh, heq, hex, Bool.false_eq_true, if_false]
      exact insert_agree hl h (hexc.trans hex)
  | false =>
    obtain ⟨hex, hscan⟩ := capCheckExact_false hcap hchk
    simp only [Bool.false_eq_true, iff_false]
    rintro ⟨hkind, -⟩
    have hpk : Py.kind (Py.serviceOrgSession t ((Py.admitFresh pl t ⟨now, newId, hid, price⟩ ad
        (liveHolds t p.orgId period.id now)).mapError fun e => (e, t))).1 = some .exceeded := by
      simp only [Py.admitFresh, hexc, hex, if_true]
      rfl
    rw [hpk] at hkind
    rcases hscan with hscan | ⟨hscan, hno⟩
    · simp only [hscan] at hkind
      cases hkind
    · simp only [hscan, admitFresh, hno, Bool.false_eq_true, if_false] at hkind
      exact kind_insertHeldRow hkind

theorem existing_agree_iff (hl : gl.lease = pl.lease) (h : Corresponds ad p key hash period est)
    (hcap : period.capCents < 2 ^ 63) (hrow : reservationOf t p key = some row) (hhash : row.requestHash = hash)
    (hlive : row.live now = false) {holds : Nat} :
    Agree
        (withOrgTx t (match int64.scan holds with
          | some i => admitExisting .int64 gl t ⟨now, now, now, newId, hid⟩ p ⟨key, hash, est⟩ period row i
          | none => .error (.database "budgetledger: sum active holds")))
        (Py.serviceOrgSession t (Py.admitExisting pl t ⟨now, newId, hid, price⟩ ad row holds)) ↔
      (capCheckExact period holds est && !(row.isClaimed && exact.exceeds period holds est)) = true := by
  obtain ⟨hp, hk, -, hper, hest⟩ := id h
  have hexc := Py.exceeds_eq (n := holds) hper hest
  cases hchk : capCheckExact period holds est with
  | true =>
    obtain ⟨hscan, heq⟩ := capCheckExact_true hchk
    simp only [hscan, Bool.true_and, Bool.not_eq_true']
    cases hex : exact.exceeds period holds est with
    | true =>
      simp only [admitExisting, heq, hex, if_true, Py.admitExisting, hexc, Bool.and_true]
      cases hcl : row.isClaimed with
      | true =>
        simp only [expireStaleClaim, hcl, if_true, Bool.true_eq_false, iff_false]
        rintro ⟨-, hcont⟩
        exact contents_expire_ne hrow hcl hcont
      | false =>
        simp only [expireStaleClaim, hcl, Bool.false_eq_true, if_false, iff_true]
        exact ⟨rfl, rfl⟩
    | false =>
      simp only [admitExisting, heq, hex, Bool.false_eq_true, if_false, Py.admitExisting, hexc,
        Bool.and_false, iff_true]
      exact reset_agree hl h hrow hhash hlive
  | false =>
    obtain ⟨hex, hscan⟩ := capCheckExact_false hcap hchk
    simp only [Bool.false_and, Bool.false_eq_true, iff_false]
    rintro ⟨hkind, -⟩
    have hpk : Py.kind (Py.serviceOrgSession t
        (Py.admitExisting pl t ⟨now, newId, hid, price⟩ ad row holds)).1 = some .exceeded := by
      simp only [Py.admitExisting, hexc, hex, if_true]
      rfl
    rw [hpk] at hkind
    rcases hscan with hscan | ⟨hscan, hno⟩
    · simp only [hscan] at hkind
      cases hkind
    · simp only [hscan, admitExisting, hno, Bool.false_eq_true, if_false] at hkind
      exact kind_resetHeldRow hkind

theorem row_agree_iff {db : Db} (hl : gl.lease = pl.lease) (h : Corresponds ad p key hash period est)
    (hcap : period.capCents < 2 ^ 63) (hper : activePeriod db.periods p.orgId now = some period)
    (hk : key.isEmpty = false) (hh : hash.isEmpty = false) :
    Agree (withOrgTx db.reservations (claimInTx .int64 gl db ⟨now, now, now, newId, hid⟩ p ⟨key, hash, est⟩))
        (Py.serviceOrgSession db.reservations (Py.claimRow pl db.reservations ⟨now, newId, hid, price⟩ ad)) ↔
      agreesWhen db now p key hash est = true := by
  obtain ⟨hp, hkey, hhash, hperiod, -⟩ := id h
  simp only [agreesWhen, hk, hh, hper, Bool.false_or, claimInTx, Py.claimRow, hp, hkey, hhash]
  cases hrow : reservationOf db.reservations p key with
  | none => exact fresh_agree_iff hl h hcap
  | some row =>
    by_cases hne : row.requestHash = hash
    · cases hlive : row.live now with
      | true =>
        simp only [resolveExisting, hne, bne_self_eq_false, Bool.false_eq_true, if_false, liveClaimLease,
          hlive, if_true, Py.ensureReusable, Bool.false_or, Bool.true_or, iff_true]
        exact ⟨rfl, rfl⟩
      | false =>
        simp only [resolveExisting_eq ⟨now, now, now, newId, hid⟩ ⟨key, hash, est⟩ hne hlive,
          Py.ensureReusable, hne, bne_self_eq_false, Bool.false_eq_true, if_false, hlive, hperiod,
          Bool.false_or]
        exact existing_agree_iff hl h hcap hrow hne hlive
    · have hne' : (row.requestHash != hash) = true := by simpa using hne
      simp only [resolveExisting, hne', if_true, Py.ensureReusable, Bool.true_or, iff_true]
      exact ⟨rfl, rfl⟩

end Write

end

end IbexHarness.Budget
