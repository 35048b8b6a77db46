import IbexHarness.Users.Service

/-! A transaction that counted the owners holds the locks of at least two of them until it ends. -/

namespace IbexHarness.Users

section

open Lib List Option World

variable {n : Nat} {w w' : World n} {t : Nat}

def Holding (table : RowStore (Fin n) UserRow Nat) (t : Nat) (found : List (Fin n)) : Prop :=
  found.Nodup ∧ ∀ u ∈ found, table.Holds t u fun r => r.isOwner = true

/-- What holds of a request once its row was read: the caller may ask for it, and two owners are locked if they had to
be counted. -/
def Admitted (table : RowStore (Fin n) UserRow Nat) (t : Nat) (q : Request n) (current : UserRow) : Prop :=
  q.forbidden = false ∧ (q.countsOwners current = true → ∃ found, 2 ≤ found.length ∧ Holding table t found)

def TxnOk (table : RowStore (Fin n) UserRow Nat) (t : Nat) : Txn n → Prop
  | .selectOwners q _ => q.forbidden = false
  | .lockOwners q _ todo found => q.forbidden = false ∧ (found ++ todo).Nodup ∧ Holding table t found
  | .revokeTokens q current | .update q current => Admitted table t q current
  | .commit q row => ∃ current, Admitted table t q current ∧ table.Holds t q.user fun latest =>
    latest.deleted = false ∧ row = q.write current latest ∧ q.current current latest = true
  | .idle | .getUser _ | .rollback _ | .done _ => True

structure Inv (w : World n) : Prop where
  txns : ∀ t, TxnOk w.table t (w.txns t)
  commits : ∀ c ∈ w.commits, c.promotes = true → c.request.asksPromotion = true

def Keeps (table table' : RowStore (Fin n) UserRow Nat) (t : Nat) : Prop :=
  ∀ (u : Fin n) (P : UserRow → Prop), table.Holds t u P → table'.Holds t u P

variable {table table' : RowStore (Fin n) UserRow Nat}

variable {q : Request n} {current : UserRow} {a : Action n}

theorem Holding.keep {found : List (Fin n)} (h : Holding table t found) (hk : Keeps table table' t) :
    Holding table' t found :=
  ⟨h.1, fun u hu => hk u _ (h.2 u hu)⟩

theorem Admitted.keep (h : Admitted table t q current) (hk : Keeps table table' t) : Admitted table' t q current := by
  refine ⟨h.1, fun hc => ?_⟩
  obtain ⟨found, hlen, hfound⟩ := h.2 hc
  exact ⟨found, hlen, hfound.keep hk⟩

theorem TxnOk.keep {s : Txn n} (h : TxnOk table t s) (hk : Keeps table table' t) : TxnOk table' t s := by
  cases s with
  | selectOwners q current => exact h
  | lockOwners q current todo found => exact ⟨h.1, h.2.1, h.2.2.keep hk⟩
  | revokeTokens | update => exact Admitted.keep h hk
  | commit q row =>
    obtain ⟨current, hadm, hold⟩ := h
    exact ⟨current, hadm.keep hk, hk _ _ hold⟩
  | _ => trivial

theorem Inv.setTxn (h : Inv w) {s : Txn n} (hk : ∀ t', t' ≠ t → Keeps w.table table' t') (hs : TxnOk table' t s) :
    Inv ({ w with table := table' }.setTxn t s) := by
  refine ⟨fun t' => ?_, h.commits⟩
  by_cases ht : t' = t
  · subst ht
    simpa [setTxn] using hs
  · simpa [World.setTxn, ht] using (h.txns t').keep (hk t' ht)

theorem keeps_rfl : Keeps table table t := fun _ _ h => h

theorem keeps_acquire {t' : Nat} {u : Fin n} (h : table.acquire t' u = some table') : Keeps table table' t :=
  fun _ _ hold => hold.acquire h

theorem txnOk_afterOwners (h : Admitted table t q current) : TxnOk table t (World.afterOwners q current) := by
  cases q with
  | patch | softDelete => exact h

theorem Inv.getUser (h : Inv w) (t : Nat) (q : Request n) : Inv (w.getUser t q) := by
  have hset : ∀ s, TxnOk w.table t s → Inv (w.setTxn t s) := fun s hs => h.setTxn (fun _ _ => keeps_rfl) hs
  unfold World.getUser
  dsimp only
  split_ifs with hdel hforb hcount
  · exact hset _ trivial
  · exact hset _ trivial
  · exact hset _ (by simpa [TxnOk] using hforb)
  · exact hset _ (txnOk_afterOwners ⟨by simpa using hforb, fun hc => absurd hc hcount⟩)

theorem Inv.lockOwner (h : Inv w) {u : Fin n} {todo found : List (Fin n)}
    (ht : w.txns t = .lockOwners q current (u :: todo) found) (hs : w.lockOwner t q current u todo found = some w') :
    Inv w' := by
  have hok := h.txns t
  rw [ht] at hok
  obtain ⟨hforb, hnodup, hfound⟩ := hok
  obtain ⟨table, hacq, rfl⟩ := map_eq_some_iff.mp hs
  refine h.setTxn (fun _ _ => keeps_acquire hacq) ⟨hforb, ?_⟩
  have hmove : (u :: (found ++ todo)).Nodup := (perm_middle.nodup_iff).mp hnodup
  have hkept : Holding table t found := hfound.keep (keeps_acquire hacq)
  split_ifs with howner
  · refine ⟨hmove, ?_, forall_mem_cons.mpr ⟨⟨RowStore.lock_of_acquire hacq, howner⟩, hkept.2⟩⟩
    exact hmove.sublist (by simp)
  · exact ⟨hmove.of_cons, hkept⟩

theorem Inv.update (h : Inv w) (ht : w.txns t = .update q current)
    (hcur : q.current current (w.table.rows q.user) = true) (hs : w.update t q current = some w') : Inv w' := by
  have hok := h.txns t
  rw [ht] at hok
  obtain ⟨table, hacq, rfl⟩ := map_eq_some_iff.mp hs
  refine h.setTxn (fun _ _ => keeps_acquire hacq) ?_
  rw [← RowStore.rows_of_acquire hacq] at hcur
  cases hdel : (table.rows q.user).deleted with
  | true => trivial
  | false =>
    exact ⟨current, Admitted.keep hok (keeps_acquire hacq), RowStore.lock_of_acquire hacq, hdel, rfl, hcur⟩

theorem asksPromotion_of_write {latest : UserRow} (hforb : q.forbidden = false)
    (hcur : q.current current latest = true) (hbefore : latest.role ≠ .owner)
    (hafter : (q.write current latest).role = .owner) : q.asksPromotion = true := by
  cases q with
  | softDelete user => exact absurd hafter hbefore
  | patch user p callerRole =>
    obtain ⟨name, role⟩ := p
    cases role with
    | none =>
      have heq : current.role = .owner := hafter
      simp [Request.current, hbefore, heq] at hcur
    | some role =>
      obtain rfl : role = .owner := hafter
      simpa [Request.forbidden, Request.asksPromotion] using hforb

theorem countsOwners_of_write {latest : UserRow} (hcur : q.current current latest = true)
    (hbefore : latest.isOwner = true) (hafter : (q.write current latest).isOwner = false) :
    q.countsOwners current = true := by
  obtain ⟨hrole, hdel⟩ : latest.role = .owner ∧ latest.deleted = false := by simpa [UserRow.isOwner] using hbefore
  cases q with
  | softDelete user => simpa [Request.current, Request.countsOwners, hrole] using hcur
  | patch user p callerRole =>
    obtain ⟨name, role⟩ := p
    cases role with
    | none =>
      have heq : current.role = .owner := by simpa [Request.current, hrole] using hcur
      simp [Request.write, UserRow.isOwner, heq, hdel] at hafter
    | some role =>
      have hne : role ≠ .owner := by simpa [Request.write, UserRow.isOwner, hdel] using hafter
      simpa [Request.current, Request.countsOwners, isOwnerDemotion, hrole, hne] using hcur

theorem Inv.commit (h : Inv w) {row : UserRow} (ht : w.txns t = .commit q row) : Inv (w.commit t q row) := by
  have hok := h.txns t
  rw [ht] at hok
  obtain ⟨current, hadm, hlock, -, rfl, hcur⟩ := hok
  have hset := h.setTxn (t := t) (s := .done (.ok ()))
    (fun t' ht' u P hold => hold.commit (q.write current (w.table.rows q.user)) ht' hlock) trivial
  refine ⟨hset.txns, forall_mem_cons.mpr ⟨fun hpromotes => ?_, h.commits⟩⟩
  obtain ⟨hbefore, hafter⟩ : (w.table.rows q.user).role ≠ .owner ∧
      (q.write current (w.table.rows q.user)).role = .owner := by
    simpa [Commit.promotes] using hpromotes
  exact asksPromotion_of_write hadm.1 hcur hbefore hafter

theorem Inv.advance (h : Inv w) (hup : w.upToDate (.advance t) = true) (hs : w.advance t = some w') : Inv w' := by
  have hok := h.txns t
  unfold World.advance at hs
  split at hs
  case h_1 q ht =>
    cases hs
    exact h.getUser t q
  case h_2 q current u todo found ht => exact h.lockOwner ht hs
  case h_3 q current found ht =>
    cases hs
    rw [ht] at hok
    refine h.setTxn (fun _ _ => keeps_rfl) ?_
    split_ifs with hlen
    · trivial
    · exact txnOk_afterOwners ⟨hok.1, fun _ => ⟨found, by omega, hok.2.2⟩⟩
  case h_4 q current ht => exact h.update ht (by simpa [upToDate, ht] using hup) hs
  case h_5 q row ht =>
    cases hs
    exact h.commit ht
  case h_6 e ht =>
    cases hs
    exact h.setTxn (fun t' ht' u P hold => hold.rollback ht') trivial
  all_goals cases hs

theorem Inv.step (h : Inv w) (hup : w.upToDate a = true) (hs : w.step a = some w') : Inv w' := by
  have hset : ∀ t s, TxnOk w.table t s → Inv (w.setTxn t s) := fun t s hok => h.setTxn (fun _ _ => keeps_rfl) hok
  cases a with
  | begin t q =>
    simp only [step] at hs
    split at hs
    · cases hs
      exact hset _ _ trivial
    · cases hs
  | selectOwners t order =>
    simp only [step] at hs
    split at hs
    · rename_i q current ht
      split_ifs at hs with hperm
      cases hs
      have hok := h.txns t
      rw [ht] at hok
      have hnodup : order.Nodup :=
        (isPerm_iff.mp hperm).nodup_iff.mpr ((nodup_finRange n).filter _)
      exact hset _ _ ⟨hok, hnodup, nodup_nil, fun _ hu => absurd hu not_mem_nil⟩
    · cases hs
  | revokeTokens t failure =>
    simp only [step] at hs
    split at hs
    · rename_i q current ht
      cases hs
      have hok := h.txns t
      rw [ht] at hok
      refine hset _ _ ?_
      cases failure with
      | none => exact hok
      | some e => trivial
    · cases hs
  | advance t => exact h.advance hup hs
  | abort t e =>
    simp only [step] at hs
    split at hs
    case h_3 =>
      cases hs
      exact hset _ _ trivial
    all_goals cases hs

theorem inv_of_upToDate (hr : ((machine n).restrict World.upToDate).Reachable w) : Inv w := by
  refine hr.invariant (P := Inv) (fun w hw => ?_) fun w a w' h hs => ?_
  · obtain ⟨-, htxns, hcommits⟩ := hw
    exact ⟨fun t => htxns ▸ trivial, by simp [hcommits]⟩
  · obtain ⟨hup, hs⟩ := Machine.restrict_step_eq_some.mp hs
    exact h.step hup hs

/-! ## An owner is kept -/

theorem hasOwner_iff : w.hasOwner = true ↔ ∃ u, (w.table.rows u).isOwner = true := by
  simp [hasOwner, owners, filter_eq_nil_iff]

theorem hasOwner_commit (h : Inv w) {row : UserRow} (ht : w.txns t = .commit q row)
    (ho : w.hasOwner = true) : (w.commit t q row).hasOwner = true := by
  obtain ⟨u, hu⟩ := hasOwner_iff.mp ho
  have hok := h.txns t
  rw [ht] at hok
  obtain ⟨current, hadm, -, -, rfl, hcur⟩ := hok
  -- an owner whose row is not written, if there is one, is left
  have hother : ∀ u', u' ≠ q.user → (w.table.rows u').isOwner = true →
      (w.commit t q (q.write current (w.table.rows q.user))).hasOwner = true := by
    intro u' hne hu'
    exact hasOwner_iff.mpr ⟨u', by simpa [commit, setTxn, RowStore.commit, RowStore.rollback, hne] using hu'⟩
  by_cases hne : u = q.user
  · subst hne
    cases hafter : (q.write current (w.table.rows q.user)).isOwner with
    | true =>
      exact hasOwner_iff.mpr ⟨q.user, by simpa [commit, setTxn, RowStore.commit, RowStore.rollback] using hafter⟩
    | false =>
      obtain ⟨found, hlen, hnodup, hfound⟩ := hadm.2 (countsOwners_of_write hcur hu hafter)
      obtain ⟨u', hmem, hne'⟩ : ∃ u' ∈ found, u' ≠ q.user := by
        by_contra hall
        push Not at hall
        have hrep := eq_replicate_of_mem hall
        rw [hrep, nodup_replicate] at hnodup
        omega
      exact hother u' hne' (hfound u' hmem).2
  · exact hother u hne hu

theorem rows_step (hs : w.step a = some w') :
    w'.table.rows = w.table.rows ∨ ∃ t q row, w.txns t = .commit q row ∧ w' = w.commit t q row := by
  cases a with
  | advance t =>
    simp only [step, advance] at hs
    split at hs
    case h_1 q ht =>
      cases hs
      left
      simp only [getUser]
      split_ifs <;> rfl
    case h_2 | h_4 =>
      obtain ⟨table, hacq, rfl⟩ := map_eq_some_iff.mp hs
      exact .inl (RowStore.rows_of_acquire hacq)
    case h_3 | h_6 => exact .inl (some.inj hs ▸ rfl)
    case h_5 q row ht => exact .inr ⟨t, q, row, ht, (some.inj hs).symm⟩
    all_goals cases hs
  | begin | revokeTokens =>
    simp only [step] at hs
    split at hs
    · exact .inl (some.inj hs ▸ rfl)
    · cases hs
  | selectOwners t order =>
    simp only [step] at hs
    split at hs
    · split_ifs at hs
      exact .inl (some.inj hs ▸ rfl)
    · cases hs
  | abort t e =>
    simp only [step] at hs
    split at hs
    case h_3 => exact .inl (some.inj hs ▸ rfl)
    all_goals cases hs

theorem hasOwner_step (h : Inv w) (hs : w.step a = some w') (ho : w.hasOwner = true) : w'.hasOwner = true := by
  rcases rows_step hs with hrows | ⟨t, q, row, ht, rfl⟩
  · rw [hasOwner_iff] at ho ⊢
    rwa [hrows]
  · exact hasOwner_commit h ht ho

end

/-! It holds for every interleaving in which no `UPDATE` is made with a role that was read too early. -/

open Lib Option

/-- An organization with an owner keeps one, and only an owner's patch makes a user an owner. -/
theorem owners_protected {n : Nat} {w w' : World n} (hr : ((machine n).restrict World.upToDate).Reachable w)
    (hl : ((machine n).restrict World.upToDate).Later w w') :
    (w.hasOwner = true → w'.hasOwner = true) ∧
      ∀ c ∈ w'.commits, c.promotes = true → c.request.asksPromotion = true := by
  refine ⟨fun ho => ?_, (inv_of_upToDate (hr.later hl)).commits⟩
  refine hl.stable_of (I := Inv) (P := fun w => w.hasOwner = true) (fun _ => inv_of_upToDate) ?_ hr ho
  intro w a w' h ho hs
  exact hasOwner_step h (Machine.restrict_step_eq_some.mp hs).2 ho

/-! ## Three runs -/

local instance users_ne_zero : NeZero 2 := ⟨by decide⟩

def sampleRow (role : Role) : UserRow := ⟨"u".toList, role, .active, false⟩

def sampleOrg (role : Role) : World 2 :=
  ⟨⟨fun u => sampleRow (if u = 0 then .owner else role), fun _ => none⟩, fun _ => .idle, []⟩

theorem sampleOrg_init (role : Role) : (machine 2).init (sampleOrg role) := ⟨rfl, rfl, rfl⟩

def samplePatch (t : Nat) (user : Fin 2) (p : UserPatch) (callerRole : Role) : List (Action 2) :=
  [.begin t (.patch user p callerRole), .advance t, .advance t, .advance t]

def sampleDemotion (t : Nat) (user : Fin 2) : List (Action 2) :=
  [.begin t (.patch user ⟨none, some .member⟩ .owner), .advance t, .selectOwners t [0, 1]] ++
    List.replicate 5 (.advance t)

def handover : List (Action 2) := samplePatch 0 1 ⟨none, some .owner⟩ .owner ++ sampleDemotion 1 0

def handedOver : World 2 :=
  (((machine 2).restrict World.upToDate).run (sampleOrg .member) handover).get (by decide)

theorem owners_protected_sample :
    (sampleOrg .member).hasOwner = true ∧ handedOver.owners = [1] ∧ handedOver.hasOwner = true ∧
      ∃ c ∈ handedOver.commits, c.promotes = true ∧ c.request.asksPromotion = true := by
  have hlater : ((machine 2).restrict World.upToDate).Later (sampleOrg .member) handedOver :=
    ⟨handover, (some_get _).symm⟩
  have hprotected := owners_protected (.of_init (sampleOrg_init .member)) hlater
  have hcommit : (⟨.patch 1 ⟨none, some .owner⟩ .owner, sampleRow .member, sampleRow .owner⟩ : Commit 2) ∈
      handedOver.commits := by decide
  exact ⟨by decide, by decide, hprotected.1 (by decide), _, hcommit, by decide, hprotected.2 _ hcommit (by decide)⟩

/-- A deletion reads a member, who is then promoted; the other owner is demoted before the member is deleted. -/
def lostOwners : List (Action 2) :=
  [.begin 2 (.softDelete 1), .advance 2, .revokeTokens 2 none] ++ handover ++ [.advance 2, .advance 2]

/-- A patch of the name reads an owner, who is then demoted, and writes the old role back. -/
def nameOnly : List (Action 2) :=
  [.begin 0 (.patch 1 ⟨some "v".toList, none⟩ .viewer), .advance 0] ++ sampleDemotion 1 1 ++ [.advance 0, .advance 0]

theorem owners_unprotected :
    (∃ w, (machine 2).Later (sampleOrg .member) w ∧ (sampleOrg .member).hasOwner = true ∧ w.hasOwner = false) ∧
      ∃ w, (machine 2).Later (sampleOrg .owner) w ∧
        ∃ c ∈ w.commits, c.promotes = true ∧ c.request.asksPromotion = false := by
  have hlost : (((machine 2).run (sampleOrg .member) lostOwners).map World.hasOwner) = some false := by decide
  have hpromoted : ((machine 2).run (sampleOrg .owner) nameOnly).map World.commits =
      some [⟨.patch 1 ⟨some "v".toList, none⟩ .viewer, sampleRow .member, { sampleRow .owner with name := "v".toList }⟩,
        ⟨.patch 1 ⟨none, some .member⟩ .owner, sampleRow .owner, sampleRow .member⟩] := by decide
  obtain ⟨w, hw, hnone⟩ := map_eq_some_iff.mp hlost
  obtain ⟨v, hv, hcommits⟩ := map_eq_some_iff.mp hpromoted
  refine ⟨⟨w, ⟨_, hw⟩, by decide, hnone⟩, v, ⟨_, hv⟩, ?_⟩
  rw [hcommits]
  decide

end IbexHarness.Users
