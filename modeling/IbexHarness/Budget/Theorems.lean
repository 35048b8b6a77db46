import IbexHarness.Budget.Lemmas.Cap
import IbexHarness.Budget.Lemmas.Fencing

/-! The hard cap, the settlement of holds, their sums, and the agreement of the two ledgers on a claim. -/

namespace IbexHarness.Budget

open Lib World Option

/-! ## The hard cap -/

/-- Along every run during which the row of the period stays `q`, the spent value and the live holds
stay within the cap. -/
theorem live_holds_within_cap {q : Period} {w₀ w : World} (hquiet : w₀.Quiet)
    (hstart : q.spentCentsCached + liveHolds w₀.db.reservations q.orgId q.id w₀.clock ≤ q.capCents)
    (hrun : ((machine .exact).restrict fun w _ => decide (q ∈ w.db.periods.rows)).Later w₀ w) :
    q.spentCentsCached + liveHolds w.db.reservations q.orgId q.id w.clock ≤ q.capCents := by
  have hinv : CapInv q w := by
    refine hrun.stable (P := CapInv q) ?_ ⟨.of_quiet hquiet, .of_quiet hquiet, hstart⟩
    intro w act w' hinv hs
    obtain ⟨hq, hs⟩ := Machine.restrict_step_eq_some.mp hs
    exact hinv.step (of_decide_eq_true hq) (step_effect hs)
  exact hinv.cap

section Example

def samplePeriod : Period := ⟨1, 10, 0, 3600000000, 100, 10, .hardCap⟩

def sampleHash : Text := List.replicate 64 'a'

def sampleWorld : World where
  clock := 5
  db := ⟨Table.empty, ⟨[samplePeriod], by decide, by decide⟩⟩
  claims _ := none
  repeats := []
  sweeps := []
  rollups := []
  log := []

def sampleClaim (key : Text) (est : Int) (newId : Uuid) : List Action :=
  [.lock (.go (Go.newPostgresLedger 0) ⟨10, 20⟩ ⟨key, sampleHash, est⟩) 5, .loadPeriod 10, .loadRow 10,
    .sumHolds 10, .write 10 newId]

def sampleToken (version : Nat) : Reservation := ⟨7, ⟨10, 20⟩, ['a'], sampleHash, 1, version⟩

theorem sampleWorld_fresh : sampleWorld.Fresh := ⟨⟨fun _ => rfl, rfl, rfl, rfl⟩, rfl, rfl⟩

def sampleMachine : Machine World Action :=
  (machine .exact).restrict fun w _ => decide (samplePeriod ∈ w.db.periods.rows)

def sampleClaims : World :=
  (sampleMachine.run sampleWorld (sampleClaim ['a'] 60 7 ++ sampleClaim ['b'] 50 8)).get (by decide)

theorem live_holds_within_cap_sample : liveHolds sampleClaims.db.reservations 10 1 sampleClaims.clock = 60 ∧
      10 + liveHolds sampleClaims.db.reservations 10 1 sampleClaims.clock ≤ 100 :=
  ⟨by decide, live_holds_within_cap (q := samplePeriod) sampleWorld_fresh.1 (by decide)
    ⟨_, (some_get _).symm⟩⟩

end Example

/-! ## Fencing -/

/-- In every reachable state: no two owned outcomes carry the same id and version; a settlement call
changes a row only while it is claimed at the version of its token; and a settlement that reports
success without a change finds what its own token has written. -/
theorem settlement_fencing {a : CentArith} {w : World} (h : (machine a).Reachable w) : (ownedTokens w.log).Nodup ∧
      ∀ act c w', Action.token? w act = some c → w.step a act = some w' →
        (∀ r ∈ w.db.reservations.rows, w'.db.reservations.get r.id ≠ some r →
          r.id = c.id ∧ r.version = c.version ∧ r.isClaimed = true) ∧
        ∀ s, w'.log = .replayed c s :: w.log → w'.db.reservations = w.db.reservations ∧
            (∃ row ∈ w.db.reservations.rows, row.id = c.id ∧ row.state = s.state) ∧
            ((c.id, c.version), s) ∈ settlements w.log ∧ (c.id, c.version) ∈ ownedTokens w.log := by
  refine ⟨ownedTokens_nodup h, fun act c w' hc hs => ?_⟩
  have heff := step_settle act hc hs
  refine ⟨fun r hr hne => settle_changes heff hr hne, fun s hlog => ?_⟩
  cases heff with
  | nothing repeats => simp at hlog
  | settled s' r e he hr hcond hlock => simp [record, setReservations] at hlog
  | replayed s' row repeats hrep =>
    obtain rfl : s' = s := by simpa [record] using hlog
    exact ⟨rfl, ⟨row, hrep.mem, (Row.isRow_iff.mp hrep.isRow).1, hrep.state⟩, replay_written h hrep⟩

def sampleSettled : World :=
  ((machine .int64).run sampleWorld
    (sampleClaim ['a'] 60 7 ++ [.settleGo (sampleToken 1) (.finalize 60 .complete)] ++ sampleClaim ['a'] 20 8 ++
      [.settleGo (sampleToken 3) .release, .settleGo (sampleToken 3) .release])).get (by decide)

theorem settlement_fencing_sample :
    ownedTokens sampleSettled.log = [(7, 3), (7, 1)] ∧ (ownedTokens sampleSettled.log).Nodup ∧
      ((sampleSettled.step .int64 (.settleLook 0)).any fun w' => w'.log.length == 5) = true ∧
      ∀ w', sampleSettled.step .int64 (.settleLook 0) = some w' →
        ∀ r ∈ sampleSettled.db.reservations.rows, w'.db.reservations.get r.id ≠ some r → r.version = 3 := by
  have hreach : (machine .int64).Reachable sampleSettled := ⟨_, sampleWorld_fresh, _, (some_get _).symm⟩
  refine ⟨by decide, (settlement_fencing hreach).1, by decide, fun w' hs r hr hne => ?_⟩
  exact (((settlement_fencing hreach).2 (.settleLook 0) (sampleToken 3) w' (by decide) hs).1 r hr hne).2.1

/-! ## Money committed -/

/-- Finalized amounts and live holds stay within the cap and the overshoot: what the last granted
claim had not seen of the finalized amounts, and what was finalized since then after its lease. -/
theorem committed_within_overshoot {w : World} {p : Period} (h : (machine .exact).Reachable w)
    (hp : p ∈ w.db.periods.rows) (hest : withinEstimate w.log = true) :
    finalizedCents p.id w.log + liveHolds w.db.reservations p.orgId p.id w.clock ≤
      p.capCents + overshoot p.id w.log :=
  (committed h hp).committed hest

/-- A hold of 60 cents is finalized, and before the next rollup another 60 are admitted. -/
def sampleOverspent : World :=
  ((machine .exact).run sampleWorld
    (sampleClaim ['a'] 60 7 ++ [.settleGo (sampleToken 1) (.finalize 60 .complete)] ++
      sampleClaim ['b'] 60 8)).get (by decide)

theorem committed_within_overshoot_sample :
    withinEstimate sampleOverspent.log = true ∧ overshoot 1 sampleOverspent.log = 50 ∧
      finalizedCents 1 sampleOverspent.log + liveHolds sampleOverspent.db.reservations 10 1 sampleOverspent.clock ≤
        100 + overshoot 1 sampleOverspent.log :=
  ⟨by decide, by decide, committed_within_overshoot (p := samplePeriod)
    ⟨_, sampleWorld_fresh, _, (some_get _).symm⟩ (by decide) (by decide)⟩

/-- The cap does not bound the money committed: 120 cents under a cap of 100. -/
theorem committed_exceeds_cap :
    ∃ w, (machine .exact).Reachable w ∧ samplePeriod ∈ w.db.periods.rows ∧ withinEstimate w.log = true ∧
      samplePeriod.capCents < finalizedCents 1 w.log + liveHolds w.db.reservations 10 1 w.clock :=
  ⟨sampleOverspent, ⟨_, sampleWorld_fresh, _, (some_get _).symm⟩, by decide, by decide, by decide⟩

/-! ## Go and Python -/

/-- The two claims, run on the same state at the same time with the same estimate and with rates that their columns can
store, agree in kind and committed rows exactly when `agreesWhen`. -/
theorem go_python_claim_agree_iff {gl : Go.PostgresLedger} {pl : Py.Ledger} {db : Db} {now : Int}
    {newId : Uuid} {hid : newId ≠ 0} {p : Principal} {key hash : Text} {price : Py.Price}
    {inputTokens outputTokens : Int} {est : Nat} (hl : gl.lease = pl.lease) (horg : p.orgId ≠ 0)
    (hagent : p.agentId ≠ 0) (hkey : Text.trimSpace key = key) (hhash : Text.trimSpace hash = hash)
    (hascii : Text.isAscii key = true) (hlen : key.length ≤ 256)
    (_hrates : price.inputCentsPer1k < 2 ^ 31 ∧ price.outputCentsPer1k < 2 ^ 31)
    (hest : Py.costFromRates price.inputCentsPer1k price.outputCentsPer1k inputTokens outputTokens = some est)
    (hcap : ∀ q ∈ db.periods.rows, q.capCents < 2 ^ 63) :
    Agree (Go.claim .int64 gl db ⟨now, now, now, newId, hid⟩ p ⟨key, hash, est⟩)
        (Py.claim pl db ⟨now, newId, hid, some price⟩ ⟨p, key, hash, inputTokens, outputTokens⟩) ↔
      agreesWhen db now p key hash est = true := by
  have hbytes : Text.byteLength key ≤ 256 := by rwa [Text.byteLength_of_isAscii hascii]
  have htrim : Go.trimRequest ⟨key, hash, est⟩ = ⟨key, hash, est⟩ := by simp [Go.trimRequest, hkey, hhash]
  have hgo : Go.validClaimRequest p ⟨key, hash, est⟩ = (!key.isEmpty && !hash.isEmpty) := by
    have ho : (p.orgId != 0) = true := by simpa using horg
    have ha : (p.agentId != 0) = true := by simpa using hagent
    simp [Go.validClaimRequest, ho, ha, hkey, hhash, hbytes]
  simp only [Go.claim, htrim, hgo, Py.claim, Py.validateClaim, Nat.not_lt.mpr hlen, decide_false, Bool.or_false]
  cases hk : key.isEmpty with
  | true =>
    simp only [agreesWhen, hk, Bool.true_or, iff_true]
    exact ⟨rfl, rfl⟩
  | false =>
    cases hh : hash.isEmpty with
    | true =>
      simp only [agreesWhen, hh, Bool.true_or, Bool.or_true, iff_true]
      exact ⟨rfl, rfl⟩
    | false =>
      simp only [Bool.not_false, Bool.and_self, if_true, Bool.false_eq_true, if_false]
      cases hper : activePeriod db.periods p.orgId now with
      | none =>
        simp only [agreesWhen, hper, Bool.or_true, iff_true, Go.claimInTx]
        exact ⟨rfl, rfl⟩
      | some period =>
        have hc := hcap period (activePeriod_mem hper).1
        simp only [Py.buildAdmission, hest]
        exact row_agree_iff hl ⟨rfl, rfl, rfl, rfl, rfl⟩ hc hper hk hh

/-- A stale claim of 60 cents under a cap of 100 with 50 spent; the clock is at 1000. -/
def sampleStale : Db where
  reservations := ⟨[⟨7, by decide, 10, 20, 1, ['a'], sampleHash, .claimed 900, 60, none, none, 1, by decide, 0⟩],
    by decide, by decide⟩
  periods := ⟨[⟨1, 10, 0, 3600000000, 100, 50, .hardCap⟩], by decide, by decide⟩

def samplePrice : Py.Price := ⟨1000, 1000⟩

def sampleGoClaim (est : Nat) : Except Go.LedgerError Go.ClaimOutcome × Table Row :=
  Go.claim .int64 (Go.newPostgresLedger 0) sampleStale ⟨1000, 1000, 1000, 8, by decide⟩ ⟨10, 20⟩
    ⟨['a'], sampleHash, est⟩

def samplePyClaim (inputTokens : Int) : Except Py.LedgerError (Option Reservation) × Table Row :=
  Py.claim (Py.newLedger Py.budgetLedgerLease) sampleStale ⟨1000, 8, by decide, some samplePrice⟩
    ⟨⟨10, 20⟩, ['a'], sampleHash, inputTokens, 0⟩

theorem go_python_claim_agree_sample :
    agreesWhen sampleStale 1000 ⟨10, 20⟩ ['a'] sampleHash 40 = true ∧ Agree (sampleGoClaim 40) (samplePyClaim 40) :=
  ⟨by decide, (go_python_claim_agree_iff rfl (by decide) (by decide) (by decide) (by decide) (by decide)
    (by decide) (by decide) (by decide) (by decide)).mpr (by decide)⟩

/-- With 60 cents the cap is full: both answer exceeded, Go commits the row as expired at version 2,
Python rolls back and leaves it claimed at version 1. -/
theorem go_python_claim_disagree :
    Go.kind (sampleGoClaim 60).1 = some .exceeded ∧ Py.kind (samplePyClaim 60).1 = some .exceeded ∧
      (sampleGoClaim 60).2.rows.map (fun r => (r.state, r.version)) = [(.expired, 2)] ∧
      (samplePyClaim 60).2.rows.map (fun r => (r.state, r.version)) = [(.claimed 900, 1)] ∧
      ¬ Agree (sampleGoClaim 60) (samplePyClaim 60) := by
  decide

/-! ## What a grant says -/

/-- The cents of a grant are within the cap exactly as long as their sum fits `int64`: the sum is
computed with wraparound and compared afterwards. -/
theorem granted_within_cap_iff {l : Go.PostgresLedger} {t : Table Row} {env : Go.ClaimEnv} {p : Principal}
    {req : ClaimRequest} {period : Period} (hvalid : Go.validClaimRequest p req = true)
    (hcap : period.capCents < 2 ^ 63) :
    (∀ r t', Go.claimFresh .int64 l t env p req period = .ok (.owned r, t') →
      let holds := activeHolds t p.orgId period.id env.now (some 0)
      (period.spentCentsCached + holds + req.estimatedCents ≤ period.capCents ↔
        period.spentCentsCached + holds + req.estimatedCents < 2 ^ 63)) ∧
    ∀ row r t', Go.resolveExisting .int64 l t env p req period row = .ok (.owned r, t') →
      let holds := activeHolds t p.orgId period.id env.now (some row.id)
      (period.spentCentsCached + holds + req.estimatedCents ≤ period.capCents ↔
        period.spentCentsCached + holds + req.estimatedCents < 2 ^ 63) := by
  have hest : 0 ≤ req.estimatedCents := by
    simp only [Go.validClaimRequest, Bool.and_eq_true, decide_eq_true_eq] at hvalid
    exact hvalid.2
  constructor
  · intro r t' hgrant
    obtain ⟨holds, hscan, hex⟩ := Go.claimFresh_owned hgrant
    obtain rfl := scan_int64 hscan
    exact int64_within_cap_iff hcap (Int.natCast_nonneg _) hest hex
  · intro row r t' hgrant
    obtain ⟨-, holds, hscan, hex⟩ := Go.resolveExisting_owned hgrant
    obtain rfl := scan_int64 hscan
    exact int64_within_cap_iff hcap (Int.natCast_nonneg _) hest hex

/-- 50 cents are spent under a cap of 100 and the claim at hand is stale. -/
def sampleSpent : Period := ⟨1, 10, 0, 3600000000, 100, 50, .hardCap⟩

def sampleEnv (appNow : Int) : Go.ClaimEnv := ⟨1000, appNow, appNow, 8, by decide⟩

def sampleFresh (est : Int) : Except Go.LedgerError (Go.ClaimOutcome × Table Row) :=
  Go.claimFresh .int64 (Go.newPostgresLedger 0) Table.empty (sampleEnv 1000) ⟨10, 20⟩ ⟨['a'], sampleHash, est⟩
    sampleSpent

theorem granted_within_cap_sample :
    sampleSpent.spentCentsCached + (activeHolds Table.empty 10 1 1000 (some 0) : Int) + 50 ≤ sampleSpent.capCents := by
  have hgrant : ∃ r t', sampleFresh 50 = .ok (.owned r, t') := ⟨_, _, rfl⟩
  obtain ⟨r, t', h⟩ := hgrant
  have hvalid : Go.validClaimRequest ⟨10, 20⟩ ⟨['a'], sampleHash, 50⟩ = true := by decide
  exact ((granted_within_cap_iff hvalid (by decide)).1 r t' h).mpr (by decide)

/-- An estimate of `2 ^ 63 - 1` cents passes the check of a cap of 100, with or without a row. -/
theorem granted_beyond_cap : Go.validClaimRequest ⟨10, 20⟩ ⟨['a'], sampleHash, 2 ^ 63 - 1⟩ = true ∧
      (∃ r t', sampleFresh (2 ^ 63 - 1) = .ok (.owned r, t')) ∧
      (∃ row ∈ sampleStale.reservations.rows, ∃ r t',
        Go.resolveExisting .int64 (Go.newPostgresLedger 0) sampleStale.reservations (sampleEnv 1000) ⟨10, 20⟩
          ⟨['a'], sampleHash, 2 ^ 63 - 1⟩ sampleSpent row = .ok (.owned r, t')) ∧
      (sampleSpent.capCents : Int) < sampleSpent.spentCentsCached + (2 ^ 63 - 1) := by
  refine ⟨by decide, ⟨_, _, rfl⟩, ⟨_, List.mem_singleton.mpr rfl, _, _, rfl⟩, by decide⟩

/-- A claim that is granted on an existing row has taken over a live hold exactly if the lease ends
between the clock of the database and the clock of the application, which Go reads and Python does not. -/
theorem live_hold_taken_over_iff {db : Db} {row : Row} :
    (∀ a l env p req r, reservationOf db.reservations p (Text.trimSpace req.key) = some row →
      (Go.claim a l db env p req).1 = .ok (.owned r) → (row.live env.now = true ↔
          ∃ lease, row.state = .claimed lease ∧ env.now < lease ∧ lease ≤ env.appNow)) ∧
    ∀ l env req r, reservationOf db.reservations req.principal req.key = some row →
      (Py.claim l db env req).1 = .ok (some r) → row.live env.now = false := by
  constructor
  · intro a l env p req r hrow hgrant
    obtain ⟨period, t', hres⟩ := Go.claim_owned hgrant hrow
    have hlive := (Go.resolveExisting_owned hres).1
    unfold Row.live at hlive ⊢
    cases hstate : row.state with
    | claimed lease =>
      simp only [hstate, decide_eq_false_iff_not, Int.not_lt] at hlive
      simp [hlive]
    | finalized | released | expired => simp
  · intro l env req r hrow hgrant
    exact Py.claim_owned hgrant hrow

theorem live_hold_taken_over_sample :
    ∃ row, reservationOf sampleStale.reservations ⟨10, 20⟩ ['a'] = some row ∧ ¬ row.live (sampleEnv 1000).now =
      true := by
  have hgrant : ∃ row r, reservationOf sampleStale.reservations ⟨10, 20⟩ (Text.trimSpace ['a']) = some row ∧
      (Go.claim .int64 (Go.newPostgresLedger 0) sampleStale (sampleEnv 1000) ⟨10, 20⟩ ⟨['a'], sampleHash, 10⟩).1 =
        .ok (.owned r) := ⟨_, _, rfl, rfl⟩
  obtain ⟨row, r, hrow, hgrant⟩ := hgrant
  refine ⟨row, hrow, fun hlive => ?_⟩
  obtain ⟨lease, -, hnow, happ⟩ := (live_hold_taken_over_iff.1 _ _ _ _ _ _ hrow hgrant).mp hlive
  exact absurd (Int.lt_of_lt_of_le hnow happ) (by decide)

def sampleLive : Db := ⟨⟨[⟨7, by decide, 10, 20, 1, ['a'], sampleHash, .claimed 1500, 60, none, none, 1, by decide, 0⟩],
  by decide, by decide⟩, ⟨[sampleSpent], by decide, by decide⟩⟩

/-- The application clock is ahead of the lease and the database clock is not: the hold of another
owner is granted again. -/
theorem live_hold_taken_over :
    ∃ row r, reservationOf sampleLive.reservations ⟨10, 20⟩ (Text.trimSpace ['a']) = some row ∧
      (Go.claim .int64 (Go.newPostgresLedger 0) sampleLive (sampleEnv 2000) ⟨10, 20⟩ ⟨['a'], sampleHash, 10⟩).1 =
        .ok (.owned r) ∧
      row.live (sampleEnv 2000).now = true :=
  ⟨_, _, rfl, rfl, by decide⟩

end IbexHarness.Budget
