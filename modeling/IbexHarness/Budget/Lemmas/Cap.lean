import IbexHarness.Budget.Lemmas.Steps

/-! While a claim transaction runs, everything else only ends holds and keeps the row it has locked. -/

namespace IbexHarness.Budget

section

open Lib Option

variable {t t' : Table Row} {e : Edit Row} {org pid : Uuid} {now : Int} {x : Option Uuid}

/-! ## Writes and the holds of an organization -/

theorem Edit.organizationId_apply (e : Edit Row) (r : Row) : (e.apply r).organizationId = r.organizationId :=
  congrArg Prod.fst (e.uk_apply r)

theorem activeHolds_update_other (he : ∀ r, e.cond r = true → r.organizationId ≠ org) :
    activeHolds (t.update e) org pid now x = activeHolds t org pid now x := by
  rw [activeHolds, Table.sumBy_update]
  refine Table.sumBy_congr fun r _ => ?_
  cases hc : e.cond r with
  | false => rw [Edit.apply_neg hc]
  | true =>
    have ho := he r hc
    have ho' : (e.apply r).organizationId ≠ org := by rwa [Edit.organizationId_apply]
    simp [holdCents_of_org_ne ho, holdCents_of_org_ne ho']

theorem mem_update_of_not_cond {r : Row} (hr : r ∈ t.rows) (hc : e.cond r = false) : r ∈ (t.update e).rows :=
  List.mem_map.mpr ⟨r, hr, Edit.apply_neg hc⟩

section ClaimWrite

variable {p : Principal} {key : Text} {q : Uuid} {est : Nat} {A : Prop} {row : Option Row}
  {tok : Option Reservation}

theorem ClaimWrite.activeHolds_other (h : ClaimWrite t p key pid est A row tok t') (ho : p.orgId ≠ org) :
    activeHolds t' org q now x = activeHolds t org q now x := by
  cases h with
  | unchanged => rfl
  | expired row => exact activeHolds_update_other fun r hc => by rwa [onRow_expireEdit.org r hc]
  | inserted r _ hash _ hins hhold _ =>
    have hro : r.organizationId ≠ org := by
      rw [(Row.isRow_iff.mp hhold.isRow).2.1]
      exact ho
    simp [activeHolds, Table.sumBy_insert hins, holdCents_of_org_ne hro]
  | reset row r e hash _ hon _ _ _ _ => exact activeHolds_update_other fun r hc => by rwa [hon.org r hc]

theorem ClaimWrite.mem_other (h : ClaimWrite t p key pid est A row tok t') {r : Row} (hr : r ∈ t.rows)
    (ho : p.orgId ≠ r.organizationId) : r ∈ t'.rows := by
  have hcond : ∀ {e : Edit Row}, (∀ r, e.cond r = true → r.organizationId = p.orgId) → e.cond r = false := by
    intro e he
    cases hc : e.cond r with
    | false => rfl
    | true => exact absurd (he r hc).symm ho
  cases h with
  | unchanged => exact hr
  | expired row => exact mem_update_of_not_cond hr (hcond onRow_expireEdit.org)
  | inserted r' _ hash _ hins _ _ => simp [(Table.insert?_eq_some hins).2.2, hr]
  | reset row r' e hash _ hon _ _ _ _ => exact mem_update_of_not_cond hr (hcond hon.org)

theorem ClaimWrite.liveHolds_none (h : ClaimWrite t p key pid est A row none t') :
    liveHolds t' org q now ≤ liveHolds t org q now := by
  cases h with
  | unchanged => exact Nat.le_refl _
  | expired row => exact closes_expireEdit.liveHolds_le

theorem ClaimWrite.liveHolds_some (org q : Uuid) (now : Int) {c : Reservation}
    (h : ClaimWrite t p key pid est A row (some c) t')
    (hrow : ∀ r, row = some r → r ∈ t.rows) :
    A ∧ c.periodId = pid ∧
      liveHolds t' org q now ≤ (if pid = q then est else 0) + activeHolds t org q now (row.map Row.id) := by
  cases h with
  | inserted r _ hash hadm hins hhold _ =>
    refine ⟨hadm, rfl, ?_⟩
    have hle := holdCents_le org q now r
    rw [hhold.period, hhold.estimate] at hle
    rw [liveHolds, Table.sumBy_insert hins, map_none, activeHolds_none]
    exact Nat.add_le_add_right hle _
  | reset row r e hash hadm hon hr hc hhold _ =>
    refine ⟨hadm, rfl, ?_⟩
    obtain rfl := Table.eq_of_pk hr (hrow row rfl) (hon.id r hc)
    have hle := holdCents_le org q now (e.set r)
    rw [hhold.period, hhold.estimate] at hle
    have hmem : e.set r ∈ (t.update e).rows := List.mem_map.mpr ⟨r, hr, Edit.apply_pos hc⟩
    have hid : (e.set r).id = r.id := e.pk_set r
    rw [liveHolds_eq_add hmem, hid, hon.activeHolds_eq]
    exact Nat.add_le_add_right hle _

end ClaimWrite

/-! ## The transaction invariant -/

namespace World

/-- What a claim transaction knows: its clock lags, its row is still there, and the holds it has summed
are at least those of now. -/
structure TxInv (w : World) {org : Uuid} (tx : ClaimTx org) : Prop where
  now_le : tx.now ≤ w.clock
  row_mem : ∀ row, tx.row? = some row → row ∈ w.db.reservations.rows ∧ row.organizationId = org
  holds_le : ∀ p row h, tx.phase = .summed p row h → ∃ n : Nat, h = n ∧
    activeHolds w.db.reservations org p.id w.clock (row.map Row.id) ≤ n

structure Rely (w w' : World) {org : Uuid} (tx : ClaimTx org) : Prop where
  clock_le : w.clock ≤ w'.clock
  row_mem : ∀ row, tx.row? = some row → row ∈ w.db.reservations.rows → row.organizationId = org →
    row ∈ w'.db.reservations.rows
  holds_le : ∀ p now x, activeHolds w'.db.reservations org p now x ≤ activeHolds w.db.reservations org p now x

theorem TxInv.rely {w w' : World} {tx : ClaimTx org} (h : w.TxInv tx) (hr : Rely w w' tx) : w'.TxInv tx where
  now_le := h.now_le.trans hr.clock_le
  row_mem row hrow := by
    obtain ⟨hm, ho⟩ := h.row_mem row hrow
    exact ⟨hr.row_mem row hrow hm ho, ho⟩
  holds_le p row hd hph := by
    obtain ⟨n, hn, hle⟩ := h.holds_le p row hd hph
    refine ⟨n, hn, ?_⟩
    calc activeHolds w'.db.reservations org p.id w'.clock (row.map Row.id)
        ≤ activeHolds w.db.reservations org p.id w'.clock (row.map Row.id) := hr.holds_le _ _ _
      _ ≤ activeHolds w.db.reservations org p.id w.clock (row.map Row.id) := activeHolds_mono hr.clock_le
      _ ≤ n := hle

variable {w w' : World} {tx : ClaimTx org}

theorem Rely.of_same (hc : w.clock ≤ w'.clock) (ht : w'.db.reservations = w.db.reservations) : Rely w w' tx where
  clock_le := hc
  row_mem _ _ hm _ := ht ▸ hm
  holds_le _ _ _ := by rw [ht]

theorem rowLocked_of_row {row : Row} (htx : w.claims org = some tx) (hrow : tx.row? = some row)
    (ho : row.organizationId = org) : w.rowLocked row = true := by
  subst ho
  simp [rowLocked, htx, hrow]

theorem Rely.of_closes (he : Closes e) (htx : w.claims org = some tx)
    (hfree : ∀ r ∈ w.db.reservations.rows, e.cond r = true → w.rowLocked r = false)
    (hc : w.clock ≤ w'.clock) (ht : w'.db.reservations = w.db.reservations.update e) : Rely w w' tx where
  clock_le := hc
  row_mem row hrow hm ho := by
    rw [ht]
    refine mem_update_of_not_cond hm ?_
    cases hcond : e.cond row with
    | false => rfl
    | true => exact absurd (hfree row hm hcond) (by simp [rowLocked_of_row htx hrow ho])
  holds_le p now x := by
    rw [ht]
    exact he.activeHolds_le

theorem claims_setClaim_self {o : Option (ClaimTx org)} : (w.setClaim org o).claims org = o := by
  simp [setClaim]

theorem claims_setClaim_ne {org' : Uuid} {o : Option (ClaimTx org')} (h : org ≠ org') :
    (w.setClaim org' o).claims org = w.claims org := by
  simp [setClaim, h]

theorem holds_exact {p : Period} {row : Option Row} {h : Int} (hh : w.holds .exact tx p row = some h) :
    h = (activeHolds w.db.reservations org p.id tx.now (row.map Row.id) : Nat) := by
  unfold holds at hh
  cases hcall : tx.call with
  | go l pr req =>
    simp only [hcall, Go.activeHoldCents, CentArith.exact, Except.toOption, some.injEq] at hh
    cases row with
    | none => rw [← hh, map_none, activeHolds_none, elim_none, activeHolds_nil]
    | some r => exact hh.symm
  | python l req price =>
    simp only [hcall, some.injEq] at hh
    exact hh.symm

def TxsInv (w : World) : Prop := ∀ org (tx : ClaimTx org), w.claims org = some tx → w.TxInv tx

theorem TxsInv.of_quiet (h : w.Quiet) : w.TxsInv := by
  intro org tx htx
  rw [h.1 org] at htx
  cases htx

theorem TxsInv.rely (h : w.TxsInv) (hcl : w'.claims = w.claims)
    (hr : ∀ org (tx : ClaimTx org), w.claims org = some tx → Rely w w' tx) : w'.TxsInv := by
  intro org tx htx
  rw [hcl] at htx
  exact (h org tx htx).rely (hr org tx htx)

theorem TxsInv.set {o : Option (ClaimTx org)} (h : w.TxsInv) (hcl : w'.claims = (w.setClaim org o).claims)
    (hself : ∀ tx, o = some tx → w'.TxInv tx)
    (hr : ∀ org' (tx : ClaimTx org'), org' ≠ org → w.claims org' = some tx → Rely w w' tx) : w'.TxsInv := by
  intro org' tx htx
  rw [hcl] at htx
  by_cases ho : org' = org
  · subst ho
    rw [claims_setClaim_self] at htx
    exact hself tx htx
  · rw [claims_setClaim_ne ho] at htx
    exact (h org' tx htx).rely (hr org' tx ho htx)

theorem TxsInv.step (h : w.TxsInv) (hs : Effect .exact w w') : w'.TxsInv := by
  have hsame : ∀ {org' : Uuid} {tx : ClaimTx org'} {w'' : World}, w''.clock = w.clock →
      w''.db.reservations = w.db.reservations → Rely w w'' tx := fun hc ht => .of_same hc.ge ht
  cases hs with
  | tick d =>
    exact h.rely rfl fun org tx _ => .of_same (Int.le_add_of_nonneg_right (Int.natCast_nonneg d)) rfl
  | queued | replayed | rollupRead | rollupWrite => exact h.rely rfl fun _ _ _ => hsame rfl rfl
  | locked tx hfree hnow hph =>
    refine h.set rfl ?_ fun _ _ _ _ => hsame rfl rfl
    rintro _ ⟨⟩
    exact ⟨hnow, by simp [ClaimTx.row?, hph], by simp [hph]⟩
  | period tx p htx hp =>
    refine h.set rfl ?_ fun _ _ _ _ => hsame rfl rfl
    rintro _ ⟨⟩
    exact ⟨(h _ tx htx).now_le, by simp [ClaimTx.row?], by simp⟩
  | loaded tx p htx hph =>
    refine h.set rfl ?_ fun _ _ _ _ => hsame rfl rfl
    rintro _ ⟨⟩
    refine ⟨(h _ tx htx).now_le, ?_, by simp⟩
    intro row hrow
    obtain ⟨hm, huk⟩ := Table.find_eq_some.mp hrow
    exact ⟨hm, (congrArg Prod.fst huk).trans tx.call_org⟩
  | summed tx p row hd htx hph hreuse hh =>
    refine h.set rfl ?_ fun _ _ _ _ => hsame rfl rfl
    rintro _ ⟨⟩
    have htx' := h _ tx htx
    refine ⟨htx'.now_le, ?_, ?_⟩
    · intro r hr
      exact htx'.row_mem r (by simpa [ClaimTx.row?, hph] using hr)
    · intro p' row' hd' hph'
      simp only [Phase.summed.injEq] at hph'
      obtain ⟨rfl, rfl, rfl⟩ := hph'
      refine ⟨activeHolds w.db.reservations _ p.id tx.now (row.map Row.id), holds_exact hh, ?_⟩
      show activeHolds w.db.reservations _ p.id w.clock _ ≤ _
      exact activeHolds_mono htx'.now_le
  | ended org => exact h.set (o := none) rfl (fun _ h => nomatch h) fun _ _ _ _ => hsame rfl rfl
  | wrote tx p row hd tok t' htx hph hw =>
    refine h.set (o := none) rfl (fun _ h => nomatch h) fun org' tx' ho _ => ⟨Int.le_refl _, ?_, ?_⟩
    · intro r _ hm hro
      refine hw.mem_other hm ?_
      rw [tx.call_org, hro]
      exact ho.symm
    · intro q now x
      exact (hw.activeHolds_other (by rw [tx.call_org]; exact ho.symm)).le
  | settled c s r e hs hr hc hlock =>
    refine h.rely rfl fun org tx htx => .of_closes hs.closes htx ?_ (Int.le_refl _) rfl
    intro r' hr' hc'
    rwa [hs.row_unique hr' hr hc' (hs.isRow r hc)]
  | swept e sweeps he hset hfree =>
    exact h.rely rfl fun org tx htx => .of_closes he htx hfree (Int.le_refl _) rfl

end World

end

/-! Whatever a claim has read of a period, the holds it may still add fit under the cap. -/

open Lib List Option ClaimTx

section

def ClaimTx.period? {org : Uuid} (tx : ClaimTx org) : Option Period :=
  match tx.phase with
  | .locked => none
  | .period p => some p
  | .loaded p _ => some p
  | .summed p _ _ => some p

theorem latestStart_mem {ps : List Period} {p : Period} (h : latestStart ps = some p) : p ∈ ps := by
  induction ps generalizing p with
  | nil => cases h
  | cons q ps ih =>
    simp only [latestStart] at h
    split at h
    · cases h
      exact mem_cons_self
    · rename_i q' hq'
      split at h
      · cases h
        exact mem_cons_self
      · cases h
        exact mem_cons_of_mem _ (ih hq')

theorem activePeriod_mem {ps : Table Period} {org : Uuid} {now : Int} {p : Period}
    (h : activePeriod ps org now = some p) : p ∈ ps.rows ∧ p.orgId = org := by
  obtain ⟨hm, hact⟩ := mem_filter.mp (latestStart_mem h)
  simp only [Period.active, Bool.and_eq_true, beq_iff_eq] at hact
  exact ⟨hm, hact.1.1.1⟩

namespace World

variable {w w' : World}

def Loaded (P : Uuid → Period → Prop) (w : World) : Prop :=
  ∀ org (tx : ClaimTx org) p, w.claims org = some tx → tx.period? = some p → P org p

variable {P : Uuid → Period → Prop} {org : Uuid} {a : CentArith} {tx : ClaimTx org} {p : Period} {row : Option Row}

theorem Loaded.of_quiet (h : w.Quiet) : w.Loaded P := by
  intro org tx p htx
  rw [h.1 org] at htx
  cases htx

theorem Loaded.set {o : Option (ClaimTx org)} (h : w.Loaded P)
    (hcl : w'.claims = (w.setClaim org o).claims)
    (hself : ∀ tx p, o = some tx → tx.period? = some p → P org p) : w'.Loaded P := by
  intro org' tx p htx hp
  rw [hcl] at htx
  by_cases ho : org' = org
  · subst ho
    rw [claims_setClaim_self] at htx
    exact hself tx p htx hp
  · rw [claims_setClaim_ne ho] at htx
    exact h org' tx p htx hp

theorem Loaded.step (h : w.Loaded P)
    (htable : ∀ p ∈ w.db.periods.rows, P p.orgId p) (hs : Effect a w w') : w'.Loaded P := by
  cases hs with
  | locked tx hfree hnow hph =>
    refine h.set rfl ?_
    rintro _ p ⟨⟩ hp
    simp [period?, hph] at hp
  | period tx p htx hp =>
    refine h.set rfl ?_
    rintro _ q ⟨⟩ hq
    obtain ⟨hm, rfl⟩ := activePeriod_mem hp
    simp only [period?, some.injEq] at hq
    exact hq ▸ htable p hm
  | loaded tx p htx hph | summed tx p _ _ htx hph =>
    refine h.set rfl ?_
    rintro _ q ⟨⟩ hq
    simp only [period?, some.injEq] at hq
    exact hq ▸ h _ tx p htx (by simp [period?, hph])
  | ended | wrote => exact h.set (o := none) rfl fun _ _ ho => nomatch ho
  | _ => exact h

theorem TxsInv.wrote_le {hd : Int} {c : Reservation} {t' : Table Row} (h : w.TxsInv) (htx : w.claims org = some tx)
    (hph : tx.phase = .summed p row hd)
    (hw : ClaimWrite w.db.reservations tx.call.principal tx.call.key p.id tx.call.estimate
      (tx.call.admitted .exact p hd) row (some c) t') :
    c.periodId = p.id ∧ p.spentCentsCached + liveHolds t' org p.id w.clock ≤ p.capCents ∧
      ∀ q, q ≠ p.id → liveHolds t' org q w.clock ≤ liveHolds w.db.reservations org q w.clock := by
  have htx' := h org tx htx
  have hrow : ∀ r, row = some r → r ∈ w.db.reservations.rows := by
    rintro r rfl
    exact (htx'.row_mem r (by simp [row?, hph])).1
  obtain ⟨n, rfl, hn⟩ := htx'.holds_le p row hd hph
  obtain ⟨hadm, hper, -⟩ := hw.liveHolds_some org p.id w.clock hrow
  refine ⟨hper, ?_, ?_⟩
  · have hle := (hw.liveHolds_some org p.id w.clock hrow).2.2
    have hcap := Call.admitted_exact tx.call_valid hadm
    simp only [if_true] at hle
    omega
  · intro q hq
    have hle := (hw.liveHolds_some org q w.clock hrow).2.2
    rw [if_neg hq.symm, Nat.zero_add] at hle
    refine hle.trans (Table.sumBy_le fun r _ => ?_)
    split
    · exact Nat.zero_le _
    · exact Nat.le_refl _

theorem liveHolds_wrote_other {org' pid : Uuid} {A : Prop} {tok : Option Reservation} {t' : Table Row} {now : Int}
    (hw : ClaimWrite w.db.reservations tx.call.principal tx.call.key p.id tx.call.estimate A row tok t')
    (ho : org ≠ org') : liveHolds t' org' pid now = liveHolds w.db.reservations org' pid now := by
  rw [← activeHolds_none, ← activeHolds_none]
  exact hw.activeHolds_other (by rw [tx.call_org]; exact ho)

/-! ## With the spent value fixed -/

structure CapInv (q : Period) (w : World) : Prop where
  txs : w.TxsInv
  loaded : w.Loaded fun _ p => p.id = q.id → p = q
  cap : q.spentCentsCached + liveHolds w.db.reservations q.orgId q.id w.clock ≤ q.capCents

theorem CapInv.step {q : Period} (h : CapInv q w) (hq : q ∈ w.db.periods.rows) (hs : Effect .exact w w') :
    CapInv q w' := by
  refine ⟨h.txs.step hs, h.loaded.step (fun p hp hid => Table.eq_of_pk hp hq hid) hs, ?_⟩
  have hcap := h.cap
  cases hs with
  | tick d =>
    have : liveHolds w.db.reservations q.orgId q.id (w.clock + d) ≤
        liveHolds w.db.reservations q.orgId q.id w.clock :=
      liveHolds_mono (Int.le_add_of_nonneg_right (Int.natCast_nonneg d))
    exact (Nat.add_le_add_left this _).trans hcap
  | wrote tx p row hd tok t' htx hph hw =>
    rename_i org
    by_cases ho : org = q.orgId
    · subst ho
      cases tok with
      | none => exact (Nat.add_le_add_left hw.liveHolds_none _).trans hcap
      | some c =>
        obtain ⟨-, hle, hother⟩ := h.txs.wrote_le htx hph hw
        by_cases hid : p.id = q.id
        · obtain rfl := h.loaded _ tx p htx (by simp [period?, hph]) hid
          exact hle
        · exact (Nat.add_le_add_left (hother q.id (Ne.symm hid)) _).trans hcap
    · have : liveHolds t' q.orgId q.id w.clock = liveHolds w.db.reservations q.orgId q.id w.clock :=
        liveHolds_wrote_other hw ho
      exact this ▸ hcap
  | settled c s r e hs hr hc hlock => exact (Nat.add_le_add_left hs.closes.liveHolds_le _).trans hcap
  | swept e sweeps he hset hfree => exact (Nat.add_le_add_left he.liveHolds_le _).trans hcap
  | _ => exact hcap

end World

end

section

variable {t t' : Table Row} {e : Edit Row} {r r' : Row} {org pid : Uuid} {now : Int}

theorem mem_update (h : r' ∈ (t.update e).rows) : ∃ r ∈ t.rows, e.apply r = r' :=
  mem_map.mp h

theorem mem_update_close {state : RowState} (hset : ∀ r, e.set r = r.close state) (h : r' ∈ (t.update e).rows) :
    ∃ r ∈ t.rows, r'.budgetPeriodId = r.budgetPeriodId ∧ r'.organizationId = r.organizationId := by
  obtain ⟨r, hr, rfl⟩ := mem_update h
  refine ⟨r, hr, ?_⟩
  cases hc : e.cond r with
  | false => simp [Edit.apply_neg hc]
  | true => simp [Edit.apply_pos hc, hset, Row.close]

theorem ClaimWrite.mem {p : Principal} {key : Text} {est : Nat} {A : Prop} {row : Option Row}
    {tok : Option Reservation} (h : ClaimWrite t p key pid est A row tok t') (hr' : r' ∈ t'.rows) :
    (∃ r ∈ t.rows, r'.budgetPeriodId = r.budgetPeriodId ∧ r'.organizationId = r.organizationId) ∨
      (r'.budgetPeriodId = pid ∧ r'.organizationId = p.orgId) := by
  cases h with
  | unchanged => exact .inl ⟨r', hr', rfl, rfl⟩
  | expired row => exact .inl (mem_update_close (fun _ => rfl) hr')
  | inserted r _ hash _ hins hhold _ =>
    rw [(Table.insert?_eq_some hins).2.2, mem_cons] at hr'
    rcases hr' with rfl | hr'
    · exact .inr ⟨hhold.period, (Row.isRow_iff.mp hhold.isRow).2.1⟩
    · exact .inl ⟨r', hr', rfl, rfl⟩
  | reset row r e hash _ hon hr hc hhold _ =>
    obtain ⟨r₀, hr₀, rfl⟩ := mem_update hr'
    cases hc₀ : e.cond r₀ with
    | false => exact .inl ⟨r₀, hr₀, by simp [Edit.apply_neg hc₀]⟩
    | true =>
      obtain rfl : r₀ = r := Table.eq_of_pk hr₀ hr ((hon.id r₀ hc₀).trans (hon.id r hc).symm)
      rw [Edit.apply_pos hc₀]
      exact .inr ⟨hhold.period, (Row.isRow_iff.mp hhold.isRow).2.1⟩

theorem Closes.liveHolds_add_le (he : Closes e) (hr : r ∈ t.rows) (hc : e.cond r = true) :
    liveHolds (t.update e) org pid now + holdCents org pid now r ≤ liveHolds t org pid now := by
  have hmem : e.set r ∈ (t.update e).rows := mem_map.mpr ⟨r, hr, Edit.apply_pos hc⟩
  have hid : (e.set r).id = r.id := e.pk_set r
  rw [liveHolds_eq_add hmem, liveHolds_eq_add hr, holdCents_of_not_claimed (he.closed r hc), hid]
  have : activeHolds (t.update e) org pid now (some r.id) ≤ activeHolds t org pid now (some r.id) :=
    he.activeHolds_le
  omega

namespace World

variable {w w' : World}

structure CommittedInv (pid org cap : Nat) (w : World) : Prop where
  txs : w.TxsInv
  periods : ∀ p ∈ w.db.periods.rows, p.id = pid → p.orgId = org ∧ p.capCents = cap
  loaded : w.Loaded fun o p => p.id = pid → o = org ∧ p.capCents = cap
  rows : ∀ r ∈ w.db.reservations.rows, r.budgetPeriodId = pid → r.organizationId = org
  committed : withinEstimate w.log = true →
    finalizedCents pid w.log + liveHolds w.db.reservations org pid w.clock ≤ cap + overshoot pid w.log

theorem rows_step {cap : Nat} (h : CommittedInv pid org cap w) (hs : Effect .exact w w') :
    ∀ r ∈ w'.db.reservations.rows, r.budgetPeriodId = pid → r.organizationId = org := by
  have hclose : ∀ {e : Edit Row} {state : RowState}, (∀ r, e.set r = r.close state) →
      ∀ r ∈ (w.db.reservations.update e).rows, r.budgetPeriodId = pid → r.organizationId = org := by
    intro e state hset r' hr' hpid
    obtain ⟨r, hr, hp, ho⟩ := mem_update_close hset hr'
    exact ho.trans (h.rows r hr (hp.symm.trans hpid))
  cases hs with
  | wrote tx p row hd tok t' htx hph hw =>
    intro r' hr' hpid
    rcases hw.mem hr' with ⟨r, hr, hp, ho⟩ | ⟨hp, ho⟩
    · exact ho.trans (h.rows r hr (hp.symm.trans hpid))
    · rw [ho, tx.call_org]
      exact (h.loaded _ tx p htx (by simp [period?, hph]) (hp.symm.trans hpid)).1
  | settled c s r e hs hr hc hlock => exact hclose hs.set
  | swept e sweeps he hset hfree => exact hclose hset
  | _ => exact h.rows

theorem periods_back {a : CentArith} (hs : Effect a w w') {p' : Period} (hp' : p' ∈ w'.db.periods.rows) :
    ∃ p ∈ w.db.periods.rows, p'.id = p.id ∧ p'.orgId = p.orgId ∧ p'.capCents = p.capCents := by
  cases hs with
  | rollupWrite i ru hi =>
    obtain ⟨p, hp, rfl⟩ := mem_map.mp hp'
    refine ⟨p, hp, ?_⟩
    unfold Edit.apply
    split <;> exact ⟨rfl, rfl, rfl⟩
  | _ => exact ⟨p', hp', rfl, rfl, rfl⟩

theorem periods_step {cap : Nat} {a : CentArith}
    (h : ∀ p ∈ w.db.periods.rows, p.id = pid → p.orgId = org ∧ p.capCents = cap) (hs : Effect a w w') :
    ∀ p ∈ w'.db.periods.rows, p.id = pid → p.orgId = org ∧ p.capCents = cap := by
  intro p' hp' hid
  obtain ⟨p, hp, hid', ho, hcap⟩ := periods_back hs hp'
  rw [ho, hcap]
  exact h p hp (hid'.symm.trans hid)

theorem committed_settled {cap : Nat} (h : CommittedInv pid org cap w) {c : Reservation} {s : Settlement}
    (hs : Settles c s e) (hr : r ∈ w.db.reservations.rows) (hc : e.cond r = true)
    (hwithin : withinEstimate (.settled c s r (r.live w.clock) :: w.log) = true) :
    finalizedCents pid (.settled c s r (r.live w.clock) :: w.log) +
        liveHolds (w.db.reservations.update e) org pid w.clock ≤
      cap + overshoot pid (.settled c s r (r.live w.clock) :: w.log) := by
  have hle : liveHolds (w.db.reservations.update e) org pid w.clock + holdCents org pid w.clock r ≤
      liveHolds w.db.reservations org pid w.clock := hs.closes.liveHolds_add_le hr hc
  cases s with
  | release =>
    have := h.committed hwithin
    simp only [finalizedCents, overshoot]
    omega
  | finalize amount m =>
    simp only [withinEstimate, Bool.and_eq_true, decide_eq_true_eq] at hwithin
    have hbound := h.committed hwithin.2
    simp only [finalizedCents, overshoot]
    by_cases hpid : r.budgetPeriodId = pid
    · cases hlive : r.live w.clock with
      | false => simp only [hpid, if_true, and_self]; omega
      | true =>
        have hhold : holdCents org pid w.clock r = r.amountEstimatedCents := by
          simp [holdCents, Row.inPeriod, h.rows r hr hpid, hpid, hlive]
        simp only [hpid, if_true, true_and, Bool.true_eq_false, if_false]
        omega
    · simp only [hpid, if_false, false_and]
      omega

theorem CommittedInv.step {cap : Nat} (h : CommittedInv pid org cap w) (hs : Effect .exact w w') :
    CommittedInv pid org cap w' := by
  refine ⟨h.txs.step hs, periods_step h.periods hs, h.loaded.step h.periods hs, rows_step h hs, ?_⟩
  have hcomm := h.committed
  cases hs with
  | tick d =>
    intro hwithin
    have : liveHolds w.db.reservations org pid (w.clock + d) ≤ liveHolds w.db.reservations org pid w.clock :=
      liveHolds_mono (Int.le_add_of_nonneg_right (Int.natCast_nonneg d))
    exact (Nat.add_le_add_left this _).trans (hcomm hwithin)
  | wrote tx p row hd tok t' htx hph hw =>
    rename_i o
    intro hwithin
    cases tok with
    | none =>
      exact (Nat.add_le_add_left hw.liveHolds_none _).trans (hcomm hwithin)
    | some c =>
      obtain ⟨hper, hle, hother⟩ := h.txs.wrote_le htx hph hw
      have hbound := hcomm hwithin
      show finalizedCents pid w.log + liveHolds t' org pid w.clock ≤
        cap + overshoot pid (.owned c p.spentCentsCached :: w.log)
      by_cases hid : p.id = pid
      · obtain ⟨rfl, hcap⟩ := h.loaded _ tx p htx (by simp [period?, hph]) hid
        simp only [overshoot, hper, hid, if_true]
        rw [hid] at hle
        omega
      · simp only [overshoot, hper, hid, if_false]
        by_cases ho : o = org
        · subst ho
          have := hother pid (Ne.symm hid)
          omega
        · have : liveHolds t' org pid w.clock = liveHolds w.db.reservations org pid w.clock :=
            liveHolds_wrote_other hw ho
          omega
  | settled c s r e hs hr hc hlock => exact committed_settled h hs hr hc
  | swept e sweeps he hset hfree =>
    intro hwithin
    exact (Nat.add_le_add_left he.liveHolds_le _).trans (hcomm hwithin)
  | _ => exact hcomm

theorem CommittedInv.of_fresh {p : Period} (h : w.Fresh) (hp : p ∈ w.db.periods.rows) :
    CommittedInv p.id p.orgId p.capCents w := by
  obtain ⟨hq, ht, hl⟩ := h
  refine ⟨.of_quiet hq, ?_, .of_quiet hq, ?_, ?_⟩
  · intro p' hp' hid
    obtain rfl := Table.eq_of_pk hp' hp hid
    exact ⟨rfl, rfl⟩
  · simp [ht, Table.empty]
  · simp [ht, hl, finalizedCents, overshoot, liveHolds, Table.sumBy, Table.empty]

theorem committed {p : Period} (h : (machine .exact).Reachable w) (hp : p ∈ w.db.periods.rows) :
    CommittedInv p.id p.orgId p.capCents w := by
  refine h.invariant (P := fun w => ∀ p ∈ w.db.periods.rows, CommittedInv p.id p.orgId p.capCents w)
    (fun w hw p hp => .of_fresh hw hp) ?_ p hp
  intro w act w' hinv hs p' hp'
  have heff := step_effect hs
  obtain ⟨p, hp, hid, ho, hcap⟩ := periods_back heff hp'
  rw [hid, ho, hcap]
  exact (hinv p hp).step heff

end World

end

end IbexHarness.Budget
