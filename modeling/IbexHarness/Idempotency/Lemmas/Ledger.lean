import IbexHarness.Lib.Fence
import IbexHarness.Idempotency.Ledger

/-! An insert creates the cell and grants it, a reclaim grants it again, a finalize settles it for good
and a release drops it. -/

namespace IbexHarness.Idempotency

open Lib List Table

inductive Effect (w : World) : World → Prop where
  | tick (d : Nat) : Effect w { w with clock := w.clock + d }
  | queued (waiting : List Waiting) : Effect w { w with waiting := waiting }
  | inserted (c : ClaimCall) (newId : Uuid) (now : Int) (t : Table Row)
      (hfresh : newId ∉ (ownedTokens w.log).map ClaimToken.id)
      (hins : w.table.insert? (freshRow c newId now) = some t) :
      Effect w ({ w with table := t }.record (.answered c (.owned (tokenOf c (freshRow c newId now)))))
  /-- an answer that leaves the table alone -/
  | answered (c : ClaimCall) (row : Row) (out : ClaimOutcome) (waiting : List Waiting)
      (hrow : w.table.find c.slot = some row) (hout : ∀ tok, out ≠ .owned tok)
      (hhash : row.requestHash ≠ c.requestHash → out = .conflict (tokenOf c row))
      (hreplay : ∀ tok status response, out = .replay tok status response → row.requestHash = c.requestHash) :
      Effect w ({ w with waiting := waiting }.record (.answered c out))
  | reclaimed (c : ClaimCall) (row : Row) (now : Int) (waiting : List Waiting)
      (hrow : w.table.find c.slot = some row) (hc : (reclaimEdit c row.id now).cond row = true) :
      Effect w ({ w with waiting := waiting, table := w.table.update (reclaimEdit c row.id now) }.record
        (.answered c (.owned { tokenOf c row with version := row.version + 1 })))
  | finalized (c : ClaimToken) (status : Int) (response : List UInt8) (row : Row)
      (hrow : w.table.find c.slot = some row) (hc : ownedBy c row = true) :
      Effect w ({ w with table := w.table.update (finalizeEdit c status response) }.record
        (.finalized c status response))
  | released (c : ClaimToken) (row : Row) (hrow : w.table.find c.slot = some row) (hc : ownedBy c row = true) :
      Effect w ({ w with table := w.table.delete (ownedBy c) }.record (.released c))

theorem ownedBy_iff {c : ClaimToken} {r : Row} :
    ownedBy c r = true ↔ r.id = c.id ∧ r.slot = c.slot ∧ r.requestHash = c.requestHash ∧
      r.version = c.version ∧ r.isClaimed = true := by
  simp [ownedBy, Row.isToken, and_assoc]

theorem find_of_ownedBy {t : Table Row} {c : ClaimToken} {r : Row} (hr : r ∈ t.rows) (hc : ownedBy c r = true) :
    t.find c.slot = some r :=
  find_eq_some.mpr ⟨hr, (ownedBy_iff.mp hc).2.1⟩

theorem reclaimEdit_cond_iff {c : ClaimCall} {id : Uuid} {now : Int} {r : Row} :
    (reclaimEdit c id now).cond r = true ↔
      r.id = id ∧ r.slot = c.slot ∧ r.requestHash = c.requestHash ∧ r.stale now = true := by
  simp [reclaimEdit, and_assoc]

/-! ## What a claim finds -/

section
variable {t t' : Table Row} {c : ClaimCall} {row : Row} {now : Int} {out : ClaimOutcome}

theorem reclaim_cases (hrow : t.find c.slot = some row) (now : Int) :
    reclaim t c row now = (.inProgress (tokenOf c row) (retrySoon c.side), t) ∨
      (reclaimEdit c row.id now).cond row = true ∧ reclaim t c row now =
          (.owned { tokenOf c row with version := row.version + 1 }, t.update (reclaimEdit c row.id now)) := by
  unfold reclaim
  split
  · exact .inl rfl
  · rename_i r' rs hret
    obtain ⟨r, hr, hc, rfl⟩ := exists_of_returning_cons hret
    -- the statement names the row by its id, so the row it returns is the one that was locked
    obtain rfl := eq_of_pk hr (find_eq_some.mp hrow).1 (reclaimEdit_cond_iff.mp hc).1
    exact .inr ⟨hc, rfl⟩

theorem resolveClaim_cases {appNow : Int} (hrow : t.find c.slot = some row)
    (h : resolveClaim t c row now appNow = .ok (out, t')) :
    (t' = t ∧ (∀ tok, out ≠ .owned tok) ∧ (row.requestHash ≠ c.requestHash → out = .conflict (tokenOf c row)) ∧
      ∀ tok status response, out = .replay tok status response → row.requestHash = c.requestHash) ∨
    ((reclaimEdit c row.id now).cond row = true ∧ t' = t.update (reclaimEdit c row.id now) ∧
      out = .owned { tokenOf c row with version := row.version + 1 }) := by
  by_cases hhash : row.requestHash = c.requestHash
  · simp only [resolveClaim, hhash, bne_self_eq_false, Bool.false_eq_true, if_false] at h
    cases hst : row.state with
    | finalized status response =>
      simp only [hst] at h
      cases h
      exact .inl ⟨rfl, nofun, fun hne => absurd hhash hne, fun _ _ _ _ => hhash⟩
    | reconciling | failedTerminal => simp [hst] at h
    | claimed lease =>
      cases lease with
      | none => simp [hst] at h
      | some lease =>
        simp only [hst] at h
        split at h
        · cases h
          exact .inl ⟨rfl, nofun, fun hne => absurd hhash hne, nofun⟩
        · rcases reclaim_cases hrow now with hre | ⟨hc, hre⟩
          · rw [hre] at h
            cases h
            exact .inl ⟨rfl, nofun, fun hne => absurd hhash hne, nofun⟩
          · rw [hre] at h
            cases h
            exact .inr ⟨hc, rfl, rfl⟩
  · have hne : (row.requestHash != c.requestHash) = true := by simpa using hhash
    simp only [resolveClaim, hne, if_true] at h
    cases h
    exact .inl ⟨rfl, nofun, fun _ => rfl, nofun⟩

end

namespace World

variable {w w' : World}

theorem insert_effect {c : ClaimCall} {newId : Uuid} {now : Int} (h : w.insert c newId now = some w') :
    Effect w w' := by
  simp only [insert] at h
  split at h
  · rename_i hg
    simp only [Bool.and_eq_true, decide_eq_true_eq] at hg
    split at h
    · rename_i t hins
      cases h
      exact .inserted _ newId now t hg.1.2 hins
    · cases h
      exact .queued _
  · cases h

theorem resolve_effect {i : Nat} (h : w.resolve i = some w') : Effect w w' := by
  simp only [resolve] at h
  split at h
  · cases h
  · rename_i wt hwt
    split at h
    · cases h
      exact .queued _
    · rename_i row hrow
      split at h
      · cases h
        exact .queued _
      · rename_i out t hres
        cases h
        rcases resolveClaim_cases hrow hres with ⟨rfl, hout, hhash, hreplay⟩ | ⟨hc, rfl, rfl⟩
        · exact .answered wt.call row out _ hrow hout hhash hreplay
        · exact .reclaimed wt.call row wt.now _ hrow hc

theorem finalize_eq_ok {side : Side} {c : ClaimToken} {status : Int} {response : Option (List UInt8)}
    (h : w.finalize side c status response = .ok w') :
    ∃ bytes row, response = some bytes ∧ w.table.find c.slot = some row ∧ ownedBy c row = true ∧
      w' = { w with table := w.table.update (finalizeEdit c status bytes) }.record (.finalized c status bytes) := by
  simp only [finalize] at h
  split at h
  · split at h
    · cases h
    · split at h
      · rename_i hlen
        cases h
        obtain ⟨r, hr, hc⟩ := exists_of_returning_length hlen
        exact ⟨_, r, rfl, find_of_ownedBy hr hc, hc, rfl⟩
      · cases h
  · cases h

theorem release_eq_ok {side : Side} {c : ClaimToken} (h : w.release side c = .ok w') :
    ∃ row, w.table.find c.slot = some row ∧ ownedBy c row = true ∧
      w' = { w with table := w.table.delete (ownedBy c) }.record (.released c) := by
  simp only [release] at h
  split at h
  · split at h
    · rename_i hlen
      cases h
      obtain ⟨r, hr, hc⟩ := exists_of_filter_length hlen
      exact ⟨r, find_of_ownedBy hr hc, hc, rfl⟩
    · cases h
  · cases h

theorem effect_of_call {x : Except LedgerError World} (hx : ∀ w', x = .ok w' → Effect w w') :
    Effect w (x.toOption.getD w) := by
  cases hx' : x with
  | error e => exact .queued w.waiting
  | ok w' => exact hx w' hx'

theorem step_effect {act : Action} (h : w.step act = some w') : Effect w w' := by
  cases act with
  | tick d =>
    cases h
    exact .tick d
  | insert c newId now => exact insert_effect h
  | resolve i => exact resolve_effect h
  | abort i =>
    cases h
    exact .queued _
  | finalize side c status response =>
    cases h
    refine effect_of_call fun _ hw => ?_
    obtain ⟨bytes, row, -, hrow, hc, rfl⟩ := finalize_eq_ok hw
    exact .finalized c status bytes row hrow hc
  | release side c =>
    cases h
    refine effect_of_call fun _ hw => ?_
    obtain ⟨row, hrow, hc, rfl⟩ := release_eq_ok hw
    exact .released c row hrow hc

end World

/-! ## The cell of a key -/

/-- What a finalize stores: the response, under the hash it was claimed with. -/
structure Stored where
  status : Int
  response : List UInt8
  requestHash : Text

def Row.status (r : Row) : Fence.Status Stored :=
  match r.state with
  | .claimed _ => .held
  | .finalized status response => .closed ⟨status, response, r.requestHash⟩
  | .reconciling => .free
  | .failedTerminal => .free

def Row.cell (r : Row) : Fence.Cell Uuid Stored := ⟨r.id, r.version, r.status⟩

def fenceOf (k : Slot) (t : Table Row) (log : List Event) : Fence.State Uuid Stored where
  cell := (t.find k).map Row.cell
  used := ((ownedTokens log).filter fun c => c.slot = k ∧ c.version = 1).map ClaimToken.id
  issued := ((ownedTokens log).filter fun c => c.slot = k).map fun c => (c.id, c.version)
  settled := ((stored log).filter fun s => s.1.slot = k).map fun s =>
    ((s.1.id, s.1.version), ⟨s.2.1, s.2.2, s.1.requestHash⟩)

abbrev keyFence : Machine (Fence.State Uuid Stored) (Fence.Act Uuid Stored) := Fence.machine 1 false

variable {t t' : Table Row} {k : Slot} {log : List Event} {r : Row}

variable {now : Int} {c : ClaimToken} {row : Row}

theorem Row.cell_held (h : r.isClaimed = true) : r.cell = ⟨r.id, r.version, .held⟩ := by
  unfold isClaimed at h
  split at h
  · rename_i lease hst
    simp [cell, status, hst]
  · cases h

theorem Row.isClaimed_of_stale (h : r.stale now = true) : r.isClaimed = true := by
  unfold stale at h
  unfold isClaimed
  split at h <;> simp_all

theorem fenceOf_held (hr : t.find k = some r) (h : r.isClaimed = true) :
    Fence.Holds (fenceOf k t log) (r.id, r.version) := by
  simp [Fence.Holds, fenceOf, hr, Row.cell_held h]

theorem fenceOf_owned (c : ClaimCall) (tok : ClaimToken) : fenceOf k t (.answered c (.owned tok) :: log) =
      { fenceOf k t log with
        used := if tok.slot = k ∧ tok.version = 1 then tok.id :: (fenceOf k t log).used else (fenceOf k t log).used
        issued := if tok.slot = k then (tok.id, tok.version) :: (fenceOf k t log).issued
          else (fenceOf k t log).issued } := by
  by_cases hk : tok.slot = k <;> by_cases hv : tok.version = 1 <;>
    simp [fenceOf, ownedTokens, stored, hk, hv]

theorem fenceOf_answered (c : ClaimCall) {out : ClaimOutcome} (h : ∀ tok, out ≠ .owned tok) :
    fenceOf k t (.answered c out :: log) = fenceOf k t log := by
  cases out with
  | owned tok => exact absurd rfl (h tok)
  | _ => simp [fenceOf, ownedTokens, stored]

theorem fenceOf_finalized (c : ClaimToken) (status : Int) (response : List UInt8) :
    fenceOf k t (.finalized c status response :: log) = { fenceOf k t log with
        settled := if c.slot = k then
            ((c.id, c.version), ⟨status, response, c.requestHash⟩) :: (fenceOf k t log).settled
          else (fenceOf k t log).settled } := by
  by_cases hk : c.slot = k <;> simp [fenceOf, ownedTokens, stored, hk]

theorem fenceOf_congr (h : t'.find k = t.find k) : fenceOf k t' log = fenceOf k t log := by
  simp [fenceOf, h]

theorem fenceOf_find (h : t'.find k = some r) : fenceOf k t' log = { fenceOf k t log with cell := some r.cell } := by
  simp [fenceOf, h]

theorem find_delete_other (hk : c.slot ≠ k) : (t.delete (ownedBy c)).find k = t.find k := by
  rw [find_delete]
  cases hr : t.find k with
  | none => rfl
  | some r =>
    refine Option.filter_some_pos ?_
    simpa using cond_of_find_ne (fun r hc => (ownedBy_iff.mp hc).2.1) hk r hr

theorem later_inserted {c : ClaimCall} {newId : Uuid}
    (hfresh : newId ∉ (ownedTokens log).map ClaimToken.id) (hins : t.insert? (freshRow c newId now) = some t') :
    keyFence.Later (fenceOf k t log)
      (fenceOf k t' (.answered c (.owned (tokenOf c (freshRow c newId now))) :: log)) := by
  have hnone : t.find c.slot = none := (insert?_eq_some hins).2.1
  have hfind : t'.find k = if c.slot = k then some (freshRow c newId now) else t.find k := find_insert hins
  have hslot : (tokenOf c (freshRow c newId now)).slot = c.slot := rfl
  rw [fenceOf_owned, hslot]
  by_cases hk : c.slot = k
  · subst hk
    have hunused : newId ∉ (fenceOf c.slot t log).used := by
      simp only [fenceOf, mem_map, mem_filter, not_exists, not_and]
      exact fun tok htok hid => hfresh (mem_map.mpr ⟨tok, htok.1, hid⟩)
    rw [fenceOf_find (t := t) (hfind.trans (if_pos rfl)), if_pos ⟨rfl, rfl⟩, if_pos rfl]
    exact (Fence.later_create (by simp [fenceOf, hnone]) hunused).trans (Fence.later_grant rfl nofun)
  · rw [if_neg (fun h => hk h.1), if_neg hk, fenceOf_congr (hfind.trans (if_neg hk))]
    exact .refl _

theorem later_reclaimed {c : ClaimCall} (hrow : t.find c.slot = some row)
    (hc : (reclaimEdit c row.id now).cond row = true) :
    keyFence.Later (fenceOf k t log)
      (fenceOf k (t.update (reclaimEdit c row.id now))
        (.answered c (.owned { tokenOf c row with version := row.version + 1 }) :: log)) := by
  have hslot : ({ tokenOf c row with version := row.version + 1 } : ClaimToken).slot = c.slot := rfl
  have hv : row.version + 1 ≠ 1 := by
    have := row.version_pos
    omega
  rw [fenceOf_owned, hslot]
  by_cases hk : c.slot = k
  · subst hk
    have hcl : row.isClaimed = true := Row.isClaimed_of_stale (reclaimEdit_cond_iff.mp hc).2.2.2
    rw [fenceOf_find (t := t) (find_update_pos hrow hc), if_neg (fun h => hv h.2), if_pos rfl]
    exact Fence.later_grant (fenceOf_held hrow hcl) nofun
  · have hother : (t.update (reclaimEdit c row.id now)).find k = t.find k :=
      find_update_neg (cond_of_find_ne (fun r hr => (reclaimEdit_cond_iff.mp hr).2.1) hk)
    rw [if_neg (fun h => hk h.1), if_neg hk, fenceOf_congr hother]
    exact .refl _

theorem later_finalized {status : Int} {response : List UInt8}
    (hrow : t.find c.slot = some row) (hc : ownedBy c row = true) :
    keyFence.Later (fenceOf k t log)
      (fenceOf k (t.update (finalizeEdit c status response)) (.finalized c status response :: log)) := by
  obtain ⟨hid, hslot, hhash, hv, hcl⟩ := ownedBy_iff.mp hc
  rw [fenceOf_finalized]
  by_cases hk : c.slot = k
  · subst hk
    have hheld : Fence.Holds (fenceOf c.slot t log) (row.id, row.version) := fenceOf_held hrow hcl
    rw [hid, hv] at hheld
    have hfind : (t.update (finalizeEdit c status response)).find c.slot =
        some ((finalizeEdit c status response).set row) := find_update_pos hrow hc
    have hcell : ((finalizeEdit c status response).set row).cell =
        ⟨c.id, c.version + 1, .closed ⟨status, response, c.requestHash⟩⟩ := by
      simp [Row.cell, Row.status, finalizeEdit, hid, hv, hhash]
    rw [fenceOf_find (t := t) hfind, hcell, if_pos rfl]
    exact Fence.later_settle hheld _
  · have hother : (t.update (finalizeEdit c status response)).find k = t.find k :=
      find_update_neg (cond_of_find_ne (fun r hr => (ownedBy_iff.mp hr).2.1) hk)
    rw [if_neg hk, fenceOf_congr hother]
    exact .refl _

theorem later_released (hrow : t.find c.slot = some row) (hc : ownedBy c row = true) :
    keyFence.Later (fenceOf k t log) (fenceOf k (t.delete (ownedBy c)) (.released c :: log)) := by
  have hlog : fenceOf k (t.delete (ownedBy c)) (.released c :: log) = fenceOf k (t.delete (ownedBy c)) log := by
    simp [fenceOf, ownedTokens, stored]
  rw [hlog]
  by_cases hk : c.slot = k
  · subst hk
    have hnone : fenceOf c.slot (t.delete (ownedBy c)) log = { fenceOf c.slot t log with cell := none } := by
      simp [fenceOf, find_delete, hrow, hc]
    rw [hnone]
    exact Fence.later_drop (fenceOf_held hrow (ownedBy_iff.mp hc).2.2.2.2)
  · rw [fenceOf_congr (find_delete_other hk)]
    exact .refl _

namespace World

variable {w w' : World}

variable {side : Side} {c : ClaimToken} {status : Int} {r : Row}

theorem simulates_fence (k : Slot) :
    Machine.Simulates machine keyFence (fun _ => True) fun w => fenceOf k w.table w.log where
  init w hw := by
    obtain ⟨ht, -, hl⟩ := hw
    simp [keyFence, Fence.machine, fenceOf, ht, hl, ownedTokens, stored]
  inv_init _ _ := trivial
  inv_step _ _ _ _ _ := trivial
  step w act w' _ hs := by
    cases step_effect hs with
    | tick | queued => exact .refl _
    | inserted c newId now t hfresh hins => exact later_inserted hfresh hins
    | answered c row out waiting hrow hout hhash hreplay =>
      show keyFence.Later _ (fenceOf k w.table (.answered c out :: w.log))
      rw [fenceOf_answered c hout]
      exact .refl _
    | reclaimed c row now waiting hrow hc => exact later_reclaimed hrow hc
    | finalized c status response row hrow hc => exact later_finalized hrow hc
    | released c row hrow hc => exact later_released hrow hc

/-- The token can still change the row of its key: some row meets its fence. -/
def owns (w : World) (c : ClaimToken) : Bool := w.table.rows.any (ownedBy c)

theorem owns_iff : w.owns c = true ↔ ∃ r, w.table.find c.slot = some r ∧ ownedBy c r = true := by
  simp only [owns, any_eq_true]
  constructor
  · rintro ⟨r, hr, hc⟩
    exact ⟨r, find_of_ownedBy hr hc, hc⟩
  · rintro ⟨r, hr, hc⟩
    exact ⟨r, (find_eq_some.mp hr).1, hc⟩

theorem owns_of_finalize {response : Option (List UInt8)}
    (h : w.finalize side c status response = .ok w') : w.owns c = true := by
  obtain ⟨-, row, -, hrow, hc, -⟩ := finalize_eq_ok h
  exact owns_iff.mpr ⟨row, hrow, hc⟩

theorem owns_of_release (h : w.release side c = .ok w') : w.owns c = true := by
  obtain ⟨row, hrow, hc, -⟩ := release_eq_ok h
  exact owns_iff.mpr ⟨row, hrow, hc⟩

theorem holds_of_owns (h : w.owns c = true) : Fence.Holds (fenceOf c.slot w.table w.log) (c.id, c.version) := by
  obtain ⟨r, hr, hc⟩ := owns_iff.mp h
  obtain ⟨hid, -, -, hv, hcl⟩ := ownedBy_iff.mp hc
  rw [← hid, ← hv]
  exact fenceOf_held hr hcl

theorem issued_of_owned (h : c ∈ ownedTokens w.log) : (c.id, c.version) ∈ (fenceOf c.slot w.table w.log).issued :=
  mem_map.mpr ⟨c, mem_filter.mpr ⟨h, by simp⟩, rfl⟩

def HashInv (w : World) : Prop :=
  ∀ c ∈ ownedTokens w.log, ∀ r ∈ w.table.rows, r.id = c.id → r.requestHash = c.requestHash

theorem HashInv.update {e : Edit Row} (h : w.HashInv) (he : ∀ r, (e.set r).requestHash = r.requestHash) :
    ∀ c ∈ ownedTokens w.log, ∀ r ∈ (w.table.update e).rows, r.id = c.id → r.requestHash = c.requestHash := by
  intro c hc r' hr' hid
  obtain ⟨r, hr, rfl⟩ := mem_map.mp hr'
  have hid' : (e.apply r).id = r.id := e.pk_apply r
  have hhash : (e.apply r).requestHash = r.requestHash := by
    cases hcond : e.cond r <;> simp [Edit.apply, hcond, he]
  rw [hhash]
  exact h c hc r hr (hid'.symm.trans hid)

theorem HashInv.step (h : w.HashInv) (hs : Effect w w') : w'.HashInv := by
  cases hs with
  | tick | queued => exact h
  | inserted c newId now t hfresh hins =>
    obtain ⟨hnone, -, hrows⟩ := insert?_eq_some hins
    intro tok htok r hr hid
    change r ∈ t.rows at hr
    rw [hrows, mem_cons] at hr
    rcases mem_cons.mp htok with rfl | htok
    · rcases hr with rfl | hr
      · rfl
      · exact absurd hid (get_eq_none.mp hnone r hr)
    · rcases hr with rfl | hr
      · exact absurd (mem_map.mpr ⟨tok, htok, hid.symm⟩) hfresh
      · exact h tok htok r hr hid
  | answered c row out waiting hrow hout hhash hreplay =>
    intro tok htok
    refine h tok ?_
    cases out with
    | owned tok' => exact absurd rfl (hout tok')
    | _ => exact htok
  | reclaimed c row now waiting hrow hc =>
    have hupd := h.update (e := reclaimEdit c row.id now) fun _ => rfl
    intro tok htok r' hr' hid
    rcases mem_cons.mp htok with rfl | htok
    · obtain ⟨r, hr, rfl⟩ := mem_map.mp hr'
      have hid' : ((reclaimEdit c row.id now).apply r).id = r.id := (reclaimEdit c row.id now).pk_apply r
      obtain rfl := eq_of_pk hr (find_eq_some.mp hrow).1 (hid'.symm.trans hid)
      rw [Edit.apply_pos hc]
      rfl
    · exact hupd tok htok r' hr' hid
  | finalized c status response row hrow hc => exact h.update (e := finalizeEdit c status response) fun _ => rfl
  | released c row hrow hc =>
    intro tok htok r hr hid
    exact h tok htok r (mem_of_mem_filter hr) hid

section

variable (h : machine.Reachable w)
include h

theorem hashInv : w.HashInv := by
  refine h.invariant (P := HashInv) ?_ fun _ _ _ hi hs => hi.step (step_effect hs)
  rintro w ⟨ht, -, hl⟩ c hc
  simp [hl, ownedTokens] at hc

theorem owns_of_holds (hc : c ∈ ownedTokens w.log)
    (hheld : Fence.Holds (fenceOf c.slot w.table w.log) (c.id, c.version)) : w.owns c = true := by
  simp only [Fence.Holds, fenceOf, Option.map_eq_some_iff] at hheld
  obtain ⟨r, hr, hcell⟩ := hheld
  obtain ⟨hmem, hslot⟩ := find_eq_some.mp hr
  simp only [Row.cell, Fence.Cell.mk.injEq] at hcell
  obtain ⟨hid, hv, hst⟩ := hcell
  have hcl : r.isClaimed = true := by
    unfold Row.status at hst
    unfold Row.isClaimed
    split at hst <;> simp_all
  exact owns_iff.mpr ⟨r, hr, ownedBy_iff.mpr ⟨hid, hslot, hashInv h c hc r hmem hid, hv, hcl⟩⟩

theorem owner_unique {c' : ClaimToken} (hc : c ∈ ownedTokens w.log)
    (hc' : c' ∈ ownedTokens w.log) (hslot : c.slot = c'.slot) (ho : w.owns c = true) (ho' : w.owns c' = true) :
    c = c' := by
  have hinv := Fence.inv ((simulates_fence c.slot).reachable h)
  have hheld' := holds_of_owns ho'
  rw [← hslot] at hheld'
  refine inj_on_of_nodup_map hinv.issued_nodup (mem_filter.mpr ⟨hc, by simp⟩)
    (mem_filter.mpr ⟨hc', by simp [hslot]⟩) ((holds_of_owns ho).unique hheld')

theorem not_owns_later (hc : c ∈ ownedTokens w.log)
    (ho : w.owns c = false) (hl : machine.Later w w') : w'.owns c = false := by
  cases ho' : w'.owns c with
  | false => rfl
  | true =>
    have hsim := simulates_fence c.slot
    have hnot : ¬ Fence.Holds (fenceOf c.slot w.table w.log) (c.id, c.version) :=
      fun hheld => by simp [owns_of_holds h hc hheld] at ho
    have := Fence.Superseded.later (hsim.reachable h) (hsim.later h hl) ⟨issued_of_owned hc, hnot⟩
    exact absurd (holds_of_owns ho') this.2

theorem not_owns_of_newer {c' : ClaimToken} (hslot : c'.slot = c.slot)
    (hsub : [c', c].Sublist (ownedTokens w.log)) : w.owns c = false := by
  have hinv := Fence.inv ((simulates_fence c.slot).reachable h)
  have hissued : [(c'.id, c'.version), (c.id, c.version)].Sublist (fenceOf c.slot w.table w.log).issued := by
    have := (hsub.filter fun t => decide (t.slot = c.slot)).map fun t => (t.id, t.version)
    simpa [hslot, fenceOf] using this
  exact Bool.eq_false_iff.mpr fun ho => hinv.not_holds_of_newer hissued (holds_of_owns ho)

theorem find_of_stored {response : List UInt8} (hs : (c, status, response) ∈ stored w.log) :
    ∃ r, w.table.find c.slot = some r ∧ r.state = .finalized status response ∧ r.requestHash = c.requestHash := by
  have hset : ((c.id, c.version), (⟨status, response, c.requestHash⟩ : Stored)) ∈
      (fenceOf c.slot w.table w.log).settled :=
    mem_map.mpr ⟨_, mem_filter.mpr ⟨hs, by simp⟩, rfl⟩
  have hcell := Fence.settled_closed ((simulates_fence c.slot).reachable h) hset
  simp only [fenceOf, Option.map_eq_some_iff] at hcell
  obtain ⟨r, hr, hcell⟩ := hcell
  simp only [Row.cell, Fence.Cell.mk.injEq] at hcell
  obtain ⟨-, -, hst⟩ := hcell
  refine ⟨r, hr, ?_⟩
  unfold Row.status at hst
  split at hst <;> simp_all

end

theorem stored_later (hl : machine.Later w w') {x : ClaimToken × Int × List UInt8} (hx : x ∈ stored w.log) :
    x ∈ stored w'.log := by
  refine hl.stable (P := fun w => x ∈ stored w.log) ?_ hx
  intro w act w' hx hs
  cases step_effect hs with
  | finalized c status response row hrow hc => exact mem_cons_of_mem _ hx
  | _ => exact hx

theorem insert_of_find {call : ClaimCall} {newId : Uuid}
    (hr : w.table.find call.prepare.slot = some r) (h : w.insert call newId now = some w') :
    w' = { w with waiting := ⟨call.prepare, now⟩ :: w.waiting } := by
  have hnone : w.table.insert? (freshRow call.prepare newId now) = none := by
    cases hins : w.table.insert? (freshRow call.prepare newId now) with
    | none => rfl
    | some t => exact absurd ((insert?_eq_some hins).2.1.symm.trans hr) (by simp)
  simp only [insert, hnone] at h
  split at h
  · exact (Option.some.inj h).symm
  · cases h

theorem resolve_replay {i : Nat} {wt : Waiting} {response : List UInt8}
    (hi : w.waiting[i]? = some wt) (hr : w.table.find wt.call.slot = some r)
    (hst : r.state = .finalized status response) (hhash : r.requestHash = wt.call.requestHash) :
    w.resolve i = some ({ w with waiting := w.waiting.eraseIdx i }.record
      (.answered wt.call (.replay (tokenOf wt.call r) status response))) := by
  simp [resolve, hi, hr, resolveClaim, hhash, hst]

theorem answer_conflict {c : ClaimCall} {out : ClaimOutcome} (hs : Effect w w')
    (hlog : w'.log = .answered c out :: w.log) (hr : w.table.find c.slot = some r)
    (hne : r.requestHash ≠ c.requestHash) : out = .conflict (tokenOf c r) := by
  cases hs with
  | tick | queued => simp at hlog
  | inserted c' newId now t hfresh hins =>
    simp only [record, List.cons.injEq, Event.answered.injEq, and_true] at hlog
    obtain ⟨rfl, -⟩ := hlog
    have hnone : w.table.find c'.slot = none := (insert?_eq_some hins).2.1
    rw [hnone] at hr
    cases hr
  | answered c' row out' waiting hrow hout hhash hreplay =>
    simp only [record, List.cons.injEq, Event.answered.injEq, and_true] at hlog
    obtain ⟨rfl, rfl⟩ := hlog
    obtain rfl := Option.some.inj (hrow.symm.trans hr)
    exact hhash hne
  | reclaimed c' row now waiting hrow hc =>
    simp only [record, List.cons.injEq, Event.answered.injEq, and_true] at hlog
    obtain ⟨rfl, -⟩ := hlog
    obtain rfl := Option.some.inj (hrow.symm.trans hr)
    exact absurd (reclaimEdit_cond_iff.mp hc).2.2.1 hne
  | finalized | released => simp [record] at hlog

end World

end IbexHarness.Idempotency
