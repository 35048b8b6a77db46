import IbexHarness.Budget.World

/-! How live holds move under an `UPDATE`, and the shape of what the last statement of a claim does. -/

namespace IbexHarness.Budget

section

open Lib

variable {t t' : Table Row} {e : Edit Row} {r row : Row} {org pid : Uuid} {now now' : Int}

variable {v : Nat} {id : Uuid} {p : Principal} {key : Text}

theorem Row.isClaimed_of_live (h : r.live now = true) : r.isClaimed = true := by
  unfold live at h
  unfold isClaimed
  split at h <;> simp_all

theorem Row.live_mono (hn : now ≤ now') (h : r.live now' = true) : r.live now = true := by
  unfold live at h ⊢
  split at h
  · simp only [decide_eq_true_eq] at h ⊢
    omega
  · cases h

theorem holdCents_of_not_live (h : r.live now = false) : holdCents org pid now r = 0 := by
  simp [holdCents, h]

theorem holdCents_of_not_claimed (h : r.isClaimed = false) : holdCents org pid now r = 0 := by
  apply holdCents_of_not_live
  cases hl : r.live now with
  | false => rfl
  | true => exact absurd (Row.isClaimed_of_live hl) (by simp [h])

theorem holdCents_of_org_ne (h : r.organizationId ≠ org) : holdCents org pid now r = 0 := by
  simp [holdCents, Row.inPeriod, h]

theorem holdCents_le (org pid : Uuid) (now : Int) (r : Row) :
    holdCents org pid now r ≤ if r.budgetPeriodId = pid then r.amountEstimatedCents else 0 := by
  simp only [holdCents, Row.inPeriod, Bool.and_eq_true, beq_iff_eq]
  split <;> split <;> simp_all

theorem holdCents_mono (hn : now ≤ now') : holdCents org pid now' r ≤ holdCents org pid now r := by
  cases hl : r.live now' with
  | false => simp [holdCents_of_not_live hl]
  | true => simp [holdCents, hl, Row.live_mono hn hl]

theorem liveHolds_mono (hn : now ≤ now') : liveHolds t org pid now' ≤ liveHolds t org pid now :=
  Table.sumBy_le fun _ _ => holdCents_mono hn

theorem activeHolds_none : activeHolds t org pid now none = liveHolds t org pid now := by
  simp [activeHolds, liveHolds]

theorem activeHolds_nil : activeHolds t org pid now (some 0) = liveHolds t org pid now := by
  refine Table.sumBy_congr fun r _ => ?_
  simp [r.id_ne_nil]

theorem activeHolds_mono {x : Option Uuid} (hn : now ≤ now') :
    activeHolds t org pid now' x ≤ activeHolds t org pid now x := by
  refine Table.sumBy_le fun r _ => ?_
  split
  · exact Nat.le_refl _
  · exact holdCents_mono hn

theorem liveHolds_eq_add (h : r ∈ t.rows) :
    liveHolds t org pid now = holdCents org pid now r + activeHolds t org pid now (some r.id) := by
  have := Table.sumBy_eq_add_of_mem (w := holdCents org pid now) h
  simpa [liveHolds, activeHolds, Keyed.pk] using this

/-- A statement that only moves claimed rows out of `claimed`, one version up. -/
structure Closes (e : Edit Row) : Prop where
  claimed : ∀ r, e.cond r = true → r.isClaimed = true
  closed : ∀ r, e.cond r = true → (e.set r).isClaimed = false
  version : ∀ r, e.cond r = true → (e.set r).version = r.version + 1

theorem closes_closeEdit {state : RowState} {c : Row → Bool} (h : ∀ lease, state ≠ .claimed lease) :
    Closes (closeEdit state c v) where
  claimed r hr := by
    simp only [closeEdit, Bool.and_eq_true] at hr
    exact hr.2
  closed r _ := by
    cases state with
    | claimed lease => exact absurd rfl (h lease)
    | finalized | released | expired => rfl
  version r _ := rfl

theorem closes_expireEdit : Closes (expireEdit id p key v) :=
  closes_closeEdit nofun

theorem closes_expireStaleEdit {grace : Int} {batch : List (Uuid × Nat)} :
    Closes (Py.expireStaleEdit now grace batch) where
  claimed r hr := by
    simp only [Py.expireStaleEdit, Bool.and_eq_true] at hr
    unfold Row.isClaimed
    unfold Row.stale at hr
    split at hr <;> simp_all
  closed r _ := rfl
  version r _ := rfl

theorem Closes.holdCents_le (he : Closes e) (r : Row) :
    holdCents org pid now (e.apply r) ≤ holdCents org pid now r := by
  cases hc : e.cond r with
  | false => rw [Edit.apply_neg hc]
  | true => simp [Edit.apply_pos hc, holdCents_of_not_claimed (he.closed r hc)]

theorem Closes.liveHolds_le (he : Closes e) : liveHolds (t.update e) org pid now ≤ liveHolds t org pid now := by
  rw [liveHolds, Table.sumBy_update]
  exact Table.sumBy_le fun r _ => he.holdCents_le r

theorem Closes.activeHolds_le (he : Closes e) {x : Option Uuid} :
    activeHolds (t.update e) org pid now x ≤ activeHolds t org pid now x := by
  rw [activeHolds, Table.sumBy_update]
  refine Table.sumBy_le fun r _ => ?_
  have hid : (e.apply r).id = r.id := e.pk_apply r
  rw [hid]
  split
  · exact Nat.le_refl _
  · exact he.holdCents_le r

/-! ## Statements on one row -/

theorem Row.isRow_iff : r.isRow id p key = true ↔
      r.id = id ∧ r.organizationId = p.orgId ∧ r.agentId = p.agentId ∧ r.reservationKey = key := by
  simp [isRow, and_assoc]

/-- A statement that changes at most the row `id`, in the organization `org`, at version `v`. -/
structure OnRow (e : Edit Row) (id org : Uuid) (v : Nat) : Prop where
  id : ∀ r, e.cond r = true → r.id = id
  org : ∀ r, e.cond r = true → r.organizationId = org
  version : ∀ r, e.cond r = true → r.version = v

theorem onRow_expireEdit : OnRow (expireEdit id p key v) id p.orgId v := by
  constructor <;> intro r h <;>
    simp only [expireEdit, closeEdit, Bool.and_eq_true, Row.isRow_iff, beq_iff_eq] at h
  · exact h.1.1.1
  · exact h.1.1.2.1
  · exact h.1.2

theorem OnRow.activeHolds_eq {o : Uuid} (he : OnRow e id o v) :
    activeHolds (t.update e) org pid now (some id) = activeHolds t org pid now (some id) := by
  rw [activeHolds, Table.sumBy_update]
  refine Table.sumBy_congr fun r _ => ?_
  cases hc : e.cond r with
  | false => rw [Edit.apply_neg hc]
  | true =>
    have hid : (e.apply r).id = r.id := e.pk_apply r
    simp [hid, he.id r hc]

end

/-! `ClaimWrite` is everything the last statement of a claim can do; `Effect` is everything an action can do. -/

open Lib Option

/-! ## The last statement of a claim -/

/-- The row a claim has written: a hold of `est` cents in the period. -/
structure IsHold (p : Principal) (key : Text) (pid : Uuid) (est : Nat) (r : Row) : Prop where
  isRow : r.isRow r.id p key = true
  period : r.budgetPeriodId = pid
  estimate : r.amountEstimatedCents = est
  claimed : r.isClaimed = true

def tokenOf (p : Principal) (key hash : Text) (pid : Uuid) (r : Row) : Reservation where
  id := r.id
  principal := p
  key := key
  requestHash := hash
  periodId := pid
  version := r.version

/-- What the last statement of a claim does: from the row the claim found to the token it hands out
and the table it commits. -/
inductive ClaimWrite (t : Table Row) (p : Principal) (key : Text) (pid : Uuid) (est : Nat) (admitted : Prop) :
    Option Row → Option Reservation → Table Row → Prop where
  | unchanged (row : Option Row) : ClaimWrite t p key pid est admitted row none t
  | expired (row : Row) :
      ClaimWrite t p key pid est admitted (some row) none (t.update (expireEdit row.id p key row.version))
  | inserted (r : Row) (t' : Table Row) (hash : Text) (hadm : admitted) (hins : t.insert? r = some t')
      (hhold : IsHold p key pid est r) (hv : r.version = 1) :
      ClaimWrite t p key pid est admitted none (some (tokenOf p key hash pid r)) t'
  | reset (row r : Row) (e : Edit Row) (hash : Text) (hadm : admitted)
      (hon : OnRow e row.id p.orgId row.version) (hr : r ∈ t.rows) (hc : e.cond r = true)
      (hhold : IsHold p key pid est (e.set r)) (hv : (e.set r).version = r.version + 1) :
      ClaimWrite t p key pid est admitted (some row) (some (tokenOf p key hash pid (e.set r))) (t.update e)

variable {t t' : Table Row}

variable {p : Principal} {key hash : Text} {pid id : Uuid} {est v : Nat} {now lease : Int} {r : Row}

theorem ClaimWrite.imp {A B : Prop} {row : Option Row}
    {tok : Option Reservation} (hAB : A → B) (h : ClaimWrite t p key pid est A row tok t') :
    ClaimWrite t p key pid est B row tok t' := by
  cases h with
  | unchanged row => exact .unchanged row
  | expired row => exact .expired row
  | inserted r t' hash hadm hins hhold hv => exact .inserted r t' hash (hAB hadm) hins hhold hv
  | reset row r e hash hadm hon hr hc hhold hv => exact .reset row r e hash (hAB hadm) hon hr hc hhold hv

theorem insertReservation_row {newId : Uuid} {hid : newId ≠ 0} {prices : Option (Nat × Nat)}
    (h : insertReservation t newId hid p pid key hash est prices now lease = .row r t') :
    t.insert? r = some t' ∧ IsHold p key pid est r ∧ r.version = 1 := by
  simp only [insertReservation] at h
  split at h
  · split at h
    · cases h
    · rename_i t'' hins
      cases h
      exact ⟨hins, ⟨by simp [Row.isRow], rfl, rfl, rfl⟩, rfl⟩
  · cases h

theorem onRow_resetEdit
    : OnRow (resetEdit pid est lease id p key v) id p.orgId v := by
  constructor <;> intro r h <;> simp only [resetEdit, Bool.and_eq_true, Row.isRow_iff, beq_iff_eq] at h
  · exact h.1.1
  · exact h.1.2.1
  · exact h.2

theorem onRow_resetSql {pin pout : Nat} : OnRow (resetSql pid hash est pin pout now lease id p key v) id p.orgId v := by
  constructor <;> intro r h <;> simp only [resetSql, Bool.and_eq_true, Row.isRow_iff, beq_iff_eq] at h
  · exact h.1.1.1
  · exact h.1.1.2.1
  · exact h.1.2

theorem isHold_resetEdit (h : (resetEdit pid est lease id p key v).cond r = true) :
    IsHold p key pid est ((resetEdit pid est lease id p key v).set r) := by
  simp only [resetEdit, Bool.and_eq_true, Row.isRow_iff, beq_iff_eq] at h
  exact ⟨Row.isRow_iff.mpr ⟨rfl, h.1.2⟩, rfl, rfl, rfl⟩

theorem isHold_resetSql {pin pout : Nat} (h : (resetSql pid hash est pin pout now lease id p key v).cond r = true) :
    IsHold p key pid est ((resetSql pid hash est pin pout now lease id p key v).set r) := by
  simp only [resetSql, Bool.and_eq_true, Row.isRow_iff, beq_iff_eq] at h
  exact ⟨Row.isRow_iff.mpr ⟨rfl, h.1.1.2⟩, rfl, rfl, rfl⟩

namespace Go

variable {a : CentArith} {l : PostgresLedger} {env : ClaimEnv} {p : Principal} {req : ClaimRequest}
  {period : Period} {row : Row} {hd : Int} {out : ClaimOutcome}

theorem admitFresh_write (h : admitFresh a l t env p req period hd = .ok (out, t')) :
    ClaimWrite t p req.key period.id req.estimatedCents.toNat
      (a.exceeds period hd req.estimatedCents = false) none out.token? t' := by
  unfold admitFresh at h
  split at h
  · cases h
    exact .unchanged none
  · rename_i hex
    unfold insertHeldRow at h
    split at h
    · cases h
    · cases h
      exact .unchanged none
    · rename_i r t'' hins
      cases h
      obtain ⟨hins, hhold, hv⟩ := insertReservation_row hins
      exact .inserted r _ req.requestHash (by simpa using hex) hins hhold hv

theorem admitExisting_write (h : admitExisting a l t env p req period row hd = .ok (out, t')) :
    ClaimWrite t p req.key period.id req.estimatedCents.toNat
      (a.exceeds period hd req.estimatedCents = false) (some row) out.token? t' := by
  unfold admitExisting at h
  split at h
  · cases h
    unfold expireStaleClaim
    split
    · exact .expired row
    · exact .unchanged _
  · rename_i hex
    unfold resetHeldRow at h
    dsimp only at h
    split at h
    · cases h
    · rename_i r' rs hret
      obtain ⟨r, hr, hc, rfl⟩ := Table.exists_of_returning_cons hret
      split at h
      · cases h
        exact .reset row r _ req.requestHash (by simpa using hex) onRow_resetEdit hr hc
          (isHold_resetEdit hc) rfl
      · cases h

end Go

namespace Py

variable {l : Ledger} {env : ClaimEnv} {ad : Admission} {row : Row} {hd : Nat} {c : Reservation}

theorem admitFresh_write (h : admitFresh l t env ad hd = .ok (c, t')) :
    ClaimWrite t ad.principal ad.key ad.period.id ad.estimatedCents (exceeds ad hd = false) none (some c) t' := by
  unfold admitFresh at h
  split at h
  · cases h
  · rename_i hex
    split at h
    · cases h
    · cases h
    · rename_i r t'' hins
      cases h
      obtain ⟨hins, hhold, hv⟩ := insertReservation_row hins
      exact .inserted r _ ad.requestHash (by simpa using hex) hins hhold hv

theorem admitExisting_write (h : admitExisting l t env ad row hd = .ok (c, t')) :
    ClaimWrite t ad.principal ad.key ad.period.id ad.estimatedCents (exceeds ad hd = false)
      (some row) (some c) t' := by
  unfold admitExisting at h
  split at h
  · cases h
  · rename_i hex
    unfold resetRow at h
    dsimp only at h
    split at h
    · cases h
    · rename_i r' rs hret
      obtain ⟨r, hr, hc, rfl⟩ := Table.exists_of_returning_cons hret
      split at h
      · cases h
        exact .reset row r _ ad.requestHash (by simpa using hex) onRow_resetSql hr hc (isHold_resetSql hc) rfl
      · cases h

end Py

/-! ## Estimate and admission of a call -/

namespace Call

def estimate : Call → Nat
  | .go _ _ req => req.estimatedCents.toNat
  | .python _ req price =>
    match price with
    | none => 0
    | some price =>
      (Py.costFromRates price.inputCentsPer1k price.outputCentsPer1k req.inputTokens req.outputTokens).getD 0

def admitted (a : CentArith) (call : Call) (period : Period) (h : Int) : Prop :=
  match call with
  | .go _ _ req => a.exceeds period h req.estimatedCents = false
  | .python .. => period.spentCentsCached + h.toNat + call.estimate ≤ period.capCents

theorem admitted_exact {call : Call} {period : Period} {h : Nat} (hv : call.valid = true)
    (hadm : call.admitted .exact period h) :
    period.spentCentsCached + h + call.estimate ≤ period.capCents := by
  cases call with
  | go l p req =>
    have hest : 0 ≤ req.estimatedCents := by
      simp only [valid, Go.validClaimRequest, Bool.and_eq_true, decide_eq_true_eq] at hv
      exact hv.2
    have hle := of_decide_eq_false hadm
    simp only [CentArith.exact] at hle
    simp only [estimate]
    omega
  | python l req price => simpa [admitted] using hadm

end Call

private theorem toOption_eq_some {ε α : Type*} {x : Except ε α} {v : α} (h : x.toOption = some v) : x = .ok v := by
  cases x with
  | error e => cases h
  | ok u => exact congrArg Except.ok (some.inj h)

theorem Py.buildAdmission_ok {price : Option Price} {req : BudgetClaimRequest} {period : Period}
    {l : Ledger} {ad : Admission} (h : buildAdmission price req period = .ok ad) :
    ad.principal = req.principal ∧ ad.key = req.key ∧ ad.period = period ∧
      ad.estimatedCents = (Call.python l req price).estimate := by
  unfold buildAdmission at h
  split at h
  · cases h
  · rename_i pr
    split at h
    · cases h
    · rename_i est hest
      cases h
      simp [Call.estimate, hest]

namespace World

variable {a : CentArith} {w w' : World} {org : Uuid} {tx : ClaimTx org} {newId : Uuid} {hid : newId ≠ 0}
  {period : Period} {row : Option Row} {hd : Int} {tok : Option Reservation}

theorem writeRow_write (h : w.writeRow a tx newId hid period row hd = some (tok, t')) :
    ClaimWrite w.db.reservations tx.call.principal tx.call.key period.id tx.call.estimate
      (tx.call.admitted a period hd) row tok t' := by
  unfold writeRow at h
  cases hcall : tx.call with
  | go l p req =>
    simp only [hcall, map_eq_some_iff, Prod.mk.injEq, Prod.exists] at h
    obtain ⟨out, t'', hres, rfl, rfl⟩ := h
    cases row with
    | none => exact Go.admitFresh_write (toOption_eq_some hres)
    | some row => exact Go.admitExisting_write (toOption_eq_some hres)
  | python l req price =>
    simp only [hcall] at h
    split at h
    · cases h
    · rename_i ad had
      obtain ⟨hp, hk, hper, hest⟩ := Py.buildAdmission_ok (l := l) had
      have hadm : Py.exceeds ad hd.toNat = false → (Call.python l req price).admitted a period hd := by
        simp [Py.exceeds, Call.admitted, hper, hest]
      simp only [Call.principal, Call.key, ← hp, ← hk, ← hest, ← hper] at hadm ⊢
      cases row with
      | none =>
        simp only [map_eq_some_iff, Prod.mk.injEq, Prod.exists] at h
        obtain ⟨c, t'', hres, rfl, rfl⟩ := h
        exact (Py.admitFresh_write (toOption_eq_some hres)).imp hadm
      | some row =>
        simp only [map_eq_some_iff, Prod.mk.injEq, Prod.exists] at h
        obtain ⟨c, t'', hres, rfl, rfl⟩ := h
        exact (Py.admitExisting_write (toOption_eq_some hres)).imp hadm

end World

structure Settles (c : Reservation) (s : Settlement) (e : Edit Row) : Prop where
  isRow : ∀ r, e.cond r = true → r.isRow c.id c.principal c.key = true
  version : ∀ r, e.cond r = true → r.version = c.version
  claimed : ∀ r, e.cond r = true → r.isClaimed = true
  set : ∀ r, e.set r = r.close s.state

variable {c : Reservation} {s : Settlement} {e : Edit Row} {row : Row}

theorem settles_closeEdit {f : Row → Bool} (hf : ∀ r, f r = true → r.isRow c.id c.principal c.key = true) :
    Settles c s (closeEdit s.state f c.version) := by
  refine ⟨?_, ?_, ?_, fun _ => rfl⟩ <;> intro r h <;>
    simp only [closeEdit, Bool.and_eq_true, beq_iff_eq] at h
  · exact hf r h.1.1
  · exact h.1.2
  · exact h.2

theorem settles_settleEdit : Settles c s (Go.settleEdit c s) := by
  cases s <;> exact settles_closeEdit fun _ h => h

theorem settles_finalizeSql {amount : Nat} {m : Completeness} :
    Settles c (.finalize amount m) (finalizeSql c amount m) :=
  settles_closeEdit fun r h => by
    simp only [Bool.and_eq_true] at h
    exact h.1

theorem settles_releaseSql : Settles c .release (releaseSql c) :=
  settles_closeEdit fun r h => by
    simp only [Bool.and_eq_true] at h
    exact h.1

theorem Settlement.state_not_claimed (s : Settlement) (lease : Int) : s.state ≠ .claimed lease := by
  cases s <;> simp [Settlement.state]

theorem Settles.closes (h : Settles c s e) : Closes e where
  claimed := h.claimed
  closed r _ := by
    rw [h.set r]
    cases s <;> rfl
  version r _ := by rw [h.set r]; rfl

theorem Settles.row_unique (h : Settles c s e) {r' : Row} (hr : r ∈ t.rows) (hr' : r' ∈ t.rows) (hc : e.cond r = true)
    (hid : r'.isRow c.id c.principal c.key = true) : r = r' := by
  refine Table.eq_of_pk hr hr' ?_
  have h₁ := (Row.isRow_iff.mp (h.isRow r hc)).1
  have h₂ := (Row.isRow_iff.mp hid).1
  exact h₁.trans h₂.symm

theorem find?_isRow (h : t.rows.find? (Row.isRow c.id c.principal c.key) = some row) :
    row ∈ t.rows ∧ row.isRow c.id c.principal c.key = true :=
  ⟨List.mem_of_find?_eq_some h, List.find?_some h⟩

/-- A settled token finds its own settlement: the test behind every success without a change. -/
structure Replays (t : Table Row) (c : Reservation) (s : Settlement) (row : Row) : Prop where
  mem : row ∈ t.rows
  isRow : row.isRow c.id c.principal c.key = true
  version : row.version = c.version + 1
  state : row.state = s.state

theorem Go.settleRepeat_ok (h : settleRepeat t c s = .ok ()) : ∃ row, Replays t c s row := by
  unfold settleRepeat loadReservationState at h
  split at h
  · cases h
  · rename_i row hrow
    split at h
    · rename_i hid
      obtain ⟨hm, hr⟩ := find?_isRow hrow
      simp only [idempotent, Bool.and_eq_true, beq_iff_eq] at hid
      exact ⟨row, hm, hr, hid.1, hid.2⟩
    · cases h

/-- The outcome of a Python settlement that succeeds: it changed the claimed row or found its own
settlement. -/
inductive PySettled (t : Table Row) (c : Reservation) (s : Settlement) (row : Row) : Table Row → Prop where
  | changed (e : Edit Row) (he : Settles c s e) (hc : e.cond row = true) : PySettled t c s row (t.update e)
  | found (h : Replays t c s row) : PySettled t c s row t

theorem Py.write_settled (he : Settles c s e)
    (hrow : row ∈ t.rows) (hid : row.isRow c.id c.principal c.key = true) (h : write t e = .ok t') :
    PySettled t c s row t' := by
  unfold write at h
  split at h
  · rename_i hlen
    cases h
    obtain ⟨r, hr, hc⟩ := Table.exists_of_returning_length hlen
    obtain rfl := he.row_unique hr hrow hc hid
    exact .changed e he hc
  · cases h

theorem Py.finalize_settled {i o : Int} {m : Completeness}
    (hrow : loadClaimRow t c = some row) (h : finalize t c i o = .ok (m, t')) :
    PySettled t c (.finalize (settleAmount row i o).1 (settleAmount row i o).2) row t' := by
  obtain ⟨hm, hid⟩ := find?_isRow hrow
  simp only [finalize, hrow] at h
  split at h
  · rename_i hst
    simp only [replayFinalized] at h
    split at h
    · rename_i hv
      cases h
      simp only [Bool.and_eq_true, beq_iff_eq] at hv
      exact .found ⟨hm, hid, hv.1, hv.2⟩
    · cases h
  · split at h
    · cases h
    · cases hw : write t (finalizeSql c (settleAmount row i o).1 (settleAmount row i o).2) with
      | error e => simp [hw, Except.map] at h
      | ok t'' =>
        simp only [hw, Except.map, Except.ok.injEq, Prod.mk.injEq] at h
        exact h.2 ▸ write_settled settles_finalizeSql hm hid hw
  · cases h

theorem Py.release_settled (hrow : loadClaimRow t c = some row)
    (h : release t c = .ok t') : PySettled t c .release row t' := by
  obtain ⟨hm, hid⟩ := find?_isRow hrow
  simp only [release, hrow] at h
  split at h
  · rename_i hst
    split at h
    · rename_i hv
      cases h
      exact .found ⟨hm, hid, by simpa using hv, hst⟩
    · cases h
  · split at h
    · cases h
    · exact write_settled settles_releaseSql hm hid h
  · cases h

end IbexHarness.Budget
