import IbexHarness.Budget.Lemmas.Agreement
import IbexHarness.Budget.Lemmas.Steps
import IbexHarness.Lib.Machine
import IbexHarness.Lib.Fence

/-! The way back from an owned reservation to the comparisons that let it through. -/

namespace IbexHarness.Budget

open Lib List

section

variable {a : CentArith} {t t' : Table Row} {row : Row} {period : Period} {db : Db} {r : Reservation}

theorem int64_within_cap_iff {holds est : Int} (hcap : period.capCents < 2 ^ 63) (hholds : 0 ≤ holds) (hest : 0 ≤ est)
    (h : CentArith.int64.exceeds period holds est = false) :
    (period.spentCentsCached : Int) + holds + est ≤ period.capCents ↔
      (period.spentCentsCached : Int) + holds + est < 2 ^ 63 := by
  constructor
  · intro hle
    omega
  · intro hlt
    have hsum := bmod_of_fits (x := period.spentCentsCached + holds) (by omega) (by omega)
    have htotal := bmod_of_fits (x := period.spentCentsCached + holds + est) (by omega) hlt
    simp only [CentArith.exceeds, CentArith.int64, hsum, htotal, decide_eq_false_iff_not] at h
    omega

namespace Go

variable {l : PostgresLedger} {env : ClaimEnv} {p : Principal} {req : ClaimRequest}

theorem activeHoldCents_eq_ok {org periodId excludeId : Uuid} {now holds : Int}
    (h : activeHoldCents a t org periodId now excludeId = .ok holds) :
    a.scan (activeHolds t org periodId now (some excludeId)) = some holds := by
  unfold activeHoldCents at h
  split at h
  · rename_i cents hscan
    cases h
    exact hscan
  · cases h

theorem claimFresh_owned (h : claimFresh a l t env p req period = .ok (.owned r, t')) :
    ∃ holds, a.scan (activeHolds t p.orgId period.id env.now (some 0)) = some holds ∧
      a.exceeds period holds req.estimatedCents = false := by
  obtain ⟨holds, hholds, h⟩ := Except.bind_eq_ok.mp h
  refine ⟨holds, activeHoldCents_eq_ok hholds, ?_⟩
  cases hex : a.exceeds period holds req.estimatedCents with
  | false => rfl
  | true => simp [admitFresh, hex, exceededOutcome] at h

theorem resolveExisting_owned (h : resolveExisting a l t env p req period row = .ok (.owned r, t')) :
    row.live env.appNow = false ∧ ∃ holds,
      a.scan (activeHolds t p.orgId period.id env.now (some row.id)) = some holds ∧
        a.exceeds period holds req.estimatedCents = false := by
  unfold resolveExisting at h
  split at h
  · simp at h
  · split at h
    · simp at h
    · rename_i hlive
      obtain ⟨holds, hholds, h⟩ := Except.bind_eq_ok.mp h
      refine ⟨by simpa [liveClaimLease] using hlive, holds, activeHoldCents_eq_ok hholds, ?_⟩
      cases hex : a.exceeds period holds req.estimatedCents with
      | false => rfl
      | true => simp [admitExisting, hex, exceededOutcome] at h

theorem claim_owned (h : (claim a l db env p req).1 = .ok (.owned r))
    (hrow : reservationOf db.reservations p (Text.trimSpace req.key) = some row) :
    ∃ period t', resolveExisting a l db.reservations env p (trimRequest req) period row = .ok (.owned r, t') := by
  unfold claim at h
  dsimp only at h
  split at h
  · unfold claimInTx at h
    cases hper : activePeriod db.periods p.orgId env.now with
    | none => simp [hper, withOrgTx] at h
    | some period =>
      have hrow : reservationOf db.reservations p (trimRequest req).key = some row := hrow
      simp only [hper, hrow] at h
      cases hres : resolveExisting a l db.reservations env p (trimRequest req) period row with
      | error e => simp [hres, withOrgTx] at h
      | ok res =>
        obtain ⟨out, t'⟩ := res
        simp only [hres, withOrgTx, Except.ok.injEq] at h
        exact ⟨period, t', by rw [hres, h]⟩
  · cases h

end Go

namespace Py

variable {l : Ledger} {env : ClaimEnv} {req : BudgetClaimRequest}

theorem ensureReusable_eq_ok {now : Int} {hash : Text} (h : ensureReusable now row hash = .ok ()) :
    row.live now = false := by
  unfold ensureReusable at h
  split at h
  · cases h
  · split at h
    · cases h
    · rename_i hlive
      simpa using hlive

theorem claim_owned (h : (claim l db env req).1 = .ok (some r))
    (hrow : reservationOf db.reservations req.principal req.key = some row) : row.live env.now = false := by
  unfold claim at h
  cases hvalid : validateClaim req with
  | error e => simp [hvalid] at h
  | ok u =>
    cases hper : activePeriod db.periods req.principal.orgId env.now with
    | none => simp [hvalid, hper] at h
    | some period =>
      cases had : buildAdmission env.price req period with
      | error e => simp [hvalid, hper, had] at h
      | ok ad =>
        obtain ⟨hprincipal, hkey, -, -⟩ := buildAdmission_ok (l := l) had
        simp only [hvalid, hper, had, claimRow, hprincipal, hkey, hrow] at h
        cases hreuse : ensureReusable env.now row ad.requestHash with
        | error e => simp [hreuse, serviceOrgSession] at h
        | ok u => exact ensureReusable_eq_ok hreuse

end Py

end

section

def RowState.status : RowState → Fence.Status Settlement
  | .claimed _ => .held
  | .finalized amount m => .closed (.finalize amount m)
  | .released => .closed .release
  | .expired => .free

def Row.cell (r : Row) : Fence.Cell Uuid Settlement := ⟨r.id, r.version, r.state.status⟩

def fenceOf (i : Uuid) (t : Table Row) (log : List Event) : Fence.State Uuid Settlement where
  cell := (t.get i).map Row.cell
  used := (t.get i).toList.map Row.id
  issued := (ownedTokens log).filter fun tok => tok.1 = i
  settled := (settlements log).filter fun st => st.1.1 = i

/-- The cell of a row: version counter up by one on every close, terminal rows can be granted again. -/
abbrev rowFence : Machine (Fence.State Uuid Settlement) (Fence.Act Uuid Settlement) := Fence.machine 1 true

variable {t t' : Table Row} {e : Edit Row} {r : Row} {i : Uuid} {log : List Event}

theorem Row.cell_held (h : r.isClaimed = true) : r.cell = ⟨r.id, r.version, .held⟩ := by
  unfold isClaimed at h
  unfold cell
  split at h
  · rename_i lease hst
    rw [hst]
    rfl
  · cases h

theorem Settlement.status_state (s : Settlement) : s.state.status = .closed s := by
  cases s <;> rfl

theorem fenceOf_held (hr : t.get i = some r) (h : r.isClaimed = true) :
    Fence.Holds (fenceOf i t log) (r.id, r.version) := by
  simp [Fence.Holds, fenceOf, hr, Row.cell_held h]

theorem fenceOf_update_neg (h : ∀ r, t.get i = some r → e.cond r = false) :
    fenceOf i (t.update e) log = fenceOf i t log := by
  simp only [fenceOf, Table.get_update_neg h]

theorem fenceOf_update_pos (hr : t.get i = some r) (hc : e.cond r = true) :
    fenceOf i (t.update e) log = { fenceOf i t log with cell := some (e.set r).cell } := by
  have hid : (e.set r).id = r.id := e.pk_set r
  simp [fenceOf, Table.get_update_pos hr hc, hr, hid]

theorem fenceOf_owned (tok : Reservation) (spent : Nat) : fenceOf i t (.owned tok spent :: log) =
      { fenceOf i t log with
        issued := if tok.id = i then (tok.id, tok.version) :: (fenceOf i t log).issued
          else (fenceOf i t log).issued } := by
  by_cases hi : tok.id = i <;> simp [fenceOf, ownedTokens, settlements, hi]

theorem fenceOf_settled (c : Reservation) (s : Settlement) (hold : Row) (onTime : Bool) :
    fenceOf i t (.settled c s hold onTime :: log) = { fenceOf i t log with
        settled := if c.id = i then ((c.id, c.version), s) :: (fenceOf i t log).settled
          else (fenceOf i t log).settled } := by
  by_cases hi : c.id = i <;> simp [fenceOf, ownedTokens, settlements, hi]

theorem later_revoke (hcl : ∀ r, e.cond r = true → r.isClaimed = true) (hset : ∀ r, e.set r = r.close .expired) :
    rowFence.Later (fenceOf i t log) (fenceOf i (t.update e) log) := by
  by_cases hneg : ∀ r, t.get i = some r → e.cond r = false
  · rw [fenceOf_update_neg hneg]
    exact .refl _
  · push Not at hneg
    obtain ⟨r, hr, hc⟩ := hneg
    have hc : e.cond r = true := by simpa using hc
    rw [fenceOf_update_pos hr hc, hset]
    exact Fence.later_revoke (fenceOf_held hr (hcl r hc))

theorem ClaimWrite.later {p : Principal} {key : Text} {pid : Uuid} {est spent : Nat} {A : Prop}
    {row : Option Row} {tok : Option Reservation} (h : ClaimWrite t p key pid est A row tok t') :
    rowFence.Later (fenceOf i t log)
      (fenceOf i t' ((tok.map fun r => Event.owned r spent).toList ++ log)) := by
  cases h with
  | unchanged => exact .refl _
  | expired row => exact later_revoke closes_expireEdit.claimed fun _ => rfl
  | inserted r _ hash _ hins hhold hv =>
    have hnone : t.get r.id = none := (Table.insert?_eq_some hins).1
    have hget : t'.get i = if r.id = i then some r else t.get i := Table.get_insert hins
    show rowFence.Later _ (fenceOf i t' (.owned (tokenOf p key hash pid r) spent :: log))
    rw [fenceOf_owned]
    by_cases hi : r.id = i
    · subst hi
      have hcreate : rowFence.Later (fenceOf r.id t log) _ := Fence.later_create (i := r.id)
        (by simp [fenceOf, hnone]) (by simp [fenceOf, hnone])
      have hgrant := hcreate.trans (Fence.later_grant rfl (by simp))
      simpa [fenceOf, hnone, hget, Row.cell_held hhold.claimed, hv, tokenOf] using hgrant
    · rw [if_neg hi] at hget
      simpa [fenceOf, hget, tokenOf, hi] using Machine.Later.refl _
  | reset row r e hash _ hon hr hc hhold hv =>
    have hid : (e.set r).id = r.id := e.pk_set r
    show rowFence.Later _ (fenceOf i (t.update e) (.owned (tokenOf p key hash pid (e.set r)) spent :: log))
    rw [fenceOf_owned]
    by_cases hi : r.id = i
    · subst hi
      have hget : t.get r.id = some r := Table.get_eq_some.mpr ⟨hr, rfl⟩
      rw [fenceOf_update_pos hget hc, Row.cell_held hhold.claimed, tokenOf, hid, hv, if_pos rfl]
      have hcell : (fenceOf r.id t log).cell = some ⟨r.id, r.version, r.state.status⟩ := by
        simp [fenceOf, hget, Row.cell]
      exact Fence.later_grant hcell fun _ _ => rfl
    · rw [fenceOf_update_neg (Table.cond_of_get_ne hon.id (hon.id r hc ▸ hi)), tokenOf, hid, if_neg hi]
      exact .refl _

theorem Settles.later {c : Reservation} {s : Settlement} {onTime : Bool} (hs : Settles c s e) (hr : r ∈ t.rows)
    (hc : e.cond r = true) :
    rowFence.Later (fenceOf i t log) (fenceOf i (t.update e) (.settled c s r onTime :: log)) := by
  have hid : ∀ r, e.cond r = true → r.id = c.id := fun r hc => (Row.isRow_iff.mp (hs.isRow r hc)).1
  rw [fenceOf_settled]
  by_cases hi : c.id = i
  · subst hi
    have hget : t.get c.id = some r := Table.get_eq_some.mpr ⟨hr, hid r hc⟩
    have hheld : Fence.Holds (fenceOf c.id t log) (r.id, r.version) := fenceOf_held hget (hs.claimed r hc)
    rw [hid r hc, hs.version r hc] at hheld
    have hcell : (e.set r).cell = ⟨c.id, c.version + 1, .closed s⟩ := by
      simp [hs.set, Row.close, Row.cell, Settlement.status_state, hid r hc, hs.version r hc]
    rw [fenceOf_update_pos hget hc, hcell, if_pos rfl]
    exact Fence.later_settle hheld s
  · rw [fenceOf_update_neg (Table.cond_of_get_ne hid hi), if_neg hi]
    exact .refl _

namespace World

theorem simulates_fence (a : CentArith) (i : Uuid) :
    Machine.Simulates (machine a) rowFence (fun _ => True) fun w => fenceOf i w.db.reservations w.log where
  init w hw := by
    obtain ⟨-, ht, hl⟩ := hw
    simp [rowFence, Fence.machine, fenceOf, ht, hl, ownedTokens, settlements]
  inv_init _ _ := trivial
  inv_step _ _ _ _ _ := trivial
  step w act w' _ hs := by
    cases step_effect hs with
    | wrote tx p row hd tok t' htx hph hw => exact hw.later
    | settled c s r e he hr hc hlock => exact he.later hr hc
    | swept e sweeps he hset hfree => exact later_revoke he.claimed hset
    | _ => exact .refl _

variable {a : CentArith} {w w' : World}

section

variable (h : (machine a).Reachable w)
include h

theorem fenceOf_inv (i : Uuid) : Fence.Inv 1 (fenceOf i w.db.reservations w.log) :=
  Fence.inv ((simulates_fence a i).reachable h)

theorem ownedTokens_nodup : (ownedTokens w.log).Nodup := by
  refine nodup_iff_count_le_one.mpr fun tok => ?_
  have hnd := nodup_iff_count_le_one.mp (fenceOf_inv h tok.1).issued_nodup tok
  rwa [show (fenceOf tok.1 w.db.reservations w.log).issued =
    (ownedTokens w.log).filter fun tok' => tok'.1 = tok.1 from rfl, count_filter (by simp)] at hnd

theorem replay_written {c : Reservation} {s : Settlement} {row : Row}
    (hrep : Replays w.db.reservations c s row) :
    ((c.id, c.version), s) ∈ settlements w.log ∧ (c.id, c.version) ∈ ownedTokens w.log := by
  have hinv := fenceOf_inv h c.id
  have hid := (Row.isRow_iff.mp hrep.isRow).1
  have hget : w.db.reservations.get c.id = some row := Table.get_eq_some.mpr ⟨hrep.mem, hid⟩
  obtain ⟨v, hv, hmem⟩ := hinv.closed_settled c.id row.version s
    (by simp [fenceOf, hget, Row.cell, hrep.state, Settlement.status_state, hid])
  obtain rfl : c.version = v := by
    have := hrep.version
    omega
  exact ⟨mem_of_mem_filter hmem, mem_of_mem_filter (hinv.settled_issued _ _ hmem)⟩

end

theorem settle_changes {c : Reservation} (hs : SettleEffect w c w')
    (hr : r ∈ w.db.reservations.rows) (hne : w'.db.reservations.get r.id ≠ some r) :
    r.id = c.id ∧ r.version = c.version ∧ r.isClaimed = true := by
  have hget : w.db.reservations.get r.id = some r := Table.get_eq_some.mpr ⟨hr, rfl⟩
  cases hs with
  | nothing | replayed => exact absurd hget hne
  | settled s r' e he hr' hc' hlock =>
    have hc : e.cond r = true := Table.cond_of_changed hr hne
    exact ⟨(Row.isRow_iff.mp (he.isRow r hc)).1, he.version r hc, he.claimed r hc⟩

end World

end

end IbexHarness.Budget
