import IbexHarness.ExtractionBuffer.Lemmas.Sizes

/-! A compare-and-set compares texts. -/

namespace IbexHarness.ExtractionBuffer

section

open Lib List Option

variable {w w' : World} {i : Nat} {c c' : Call}

def Call.returned : Call → Bool
  | .appended _ _ | .peeked _ | .acked _ | .took _ => true
  | _ => false

def Call.pending : Call → Bool
  | .read _ | .compareAndSet _ _ _ _ _ => true
  | _ => false

/-- The text is that of the turns; no key at all is as good as no turns. -/
structure Reads (raw : Text) (turns : List Turn) : Prop where
  raw : raw = [] ∧ turns = [] ∨ raw = marshal turns
  clean : ∀ t ∈ turns, t.Clean

def Call.Ok : Call → Prop
  | .compareAndSet turns expected payload added capped => ∃ existing, Reads expected existing ∧
      payload = marshal (existing ++ added) ∧ mergeTurns existing (sanitizeTurns turns) = (existing ++ added, capped)
  | .peeked none | .took none => False
  | .peeked (some s) | .ack s | .acked s => Reads s.raw s.turns
  | _ => True

def Call.snapshot? : Call → Option Snapshot
  | .ack s | .acked s => some s
  | _ => none

def World.appendsOf (w : World) (i : Nat) : List Batch := w.appends.filter (·.call = i)

/-- The turns that the call of a write was given. -/
def turnsOf (calls : List Call) (b : Batch) : List Turn :=
  match calls[b.call]? with
  | some (.appended turns _) => turns
  | _ => []

/-- The text is what the appends since the last removal give, merged in the order of their writes. -/
def World.Linear (w : World) : Prop :=
  ∃ earlier since, w.appends = earlier ++ since ∧ earlier.flatMap Batch.turns = w.removals.flatMap Batch.turns ∧
    w.buffered = appendAll (since.map (turnsOf w.calls))

structure Inv (w : World) : Prop where
  stored : Reads (w.value.getD []) w.buffered
  text : w.value ≠ some []
  fits : Fits w.buffered
  conserved : w.appends.flatMap Batch.turns = w.removals.flatMap Batch.turns ++ w.buffered
  calls : ∀ c ∈ w.calls, c.Ok
  pending : ∀ (i : Nat) (c : Call), w.calls[i]? = some c → c.pending = true → w.appendsOf i = []
  appended : ∀ (i : Nat) (turns : List Turn), w.calls[i]? = some (.appended turns .ok) →
    w.appendsOf i = [⟨i, sanitizeTurns turns⟩]
  appends : ∀ b ∈ w.appends, ∃ turns outcome, w.calls[b.call]? = some (.appended turns outcome) ∧
    b.turns <+: sanitizeTurns turns
  peeks : ∀ c ∈ w.calls, ∀ s, c.snapshot? = some s → .peeked (some s) ∈ w.calls
  removals : ∀ b ∈ w.removals, w.calls[b.call]? = some (.took (some b.turns)) ∨
    ∃ s, w.calls[b.call]? = some (.acked s) ∧ s.turns = b.turns
  linear : w.Linear

theorem inv_init : Inv ⟨none, [], [], []⟩ := by
  refine ⟨⟨.inl ⟨rfl, rfl⟩, nofun⟩, nofun, ⟨by decide, by decide⟩, rfl, nofun, nofun, nofun, nofun, nofun, nofun, ?_⟩
  exact ⟨[], [], rfl, rfl, rfl⟩

theorem Reads.unique {raw : Text} {turns turns' : List Turn} (h : Reads raw turns) (h' : Reads raw turns') :
    turns = turns' := by
  rcases h.raw with ⟨rfl, rfl⟩ | hraw
  · rcases h'.raw with ⟨-, rfl⟩ | hraw'
    · rfl
    · exact absurd hraw'.symm (marshal_ne_nil _)
  · rcases h'.raw with ⟨rfl, -⟩ | hraw'
    · exact absurd hraw.symm (marshal_ne_nil _)
    · exact marshal_injective h.clean h'.clean (hraw.symm.trans hraw')

theorem buffered_of_value {turns : List Turn} (h : ∀ t ∈ turns, t.Clean) (hv : w.value = some (marshal turns)) :
    w.buffered = turns := by
  rw [World.buffered, hv, bind_some, decodeTurns_marshal h, getD_some]

theorem Inv.decode (h : Inv w) {raw : Text} (hv : w.value = some raw) : decodeTurns raw = some w.buffered := by
  rcases h.stored.raw with ⟨hraw, -⟩ | hraw
  · rw [hv, getD_some] at hraw
    exact absurd (hraw ▸ hv) h.text
  · rw [hv, getD_some] at hraw
    rw [hraw, decodeTurns_marshal h.stored.clean]

theorem Inv.readExpected (h : Inv w) : w.readExpected = (w.value.getD [], w.buffered) := by
  unfold World.readExpected
  cases hv : w.value with
  | none => simp [World.buffered, hv]
  | some raw => simp [h.decode hv]

theorem getElem?_setCall_of_returned {j : Nat} {d : Call} (h : w.calls[i]? = some c) (hc : c.returned = false)
    (hd : w.calls[j]? = some d) (hret : d.returned = true) (c' : Call) : (w.calls.set i c')[j]? = some d := by
  rw [Parties.getElem?_set h, if_neg]
  · exact hd
  · rintro rfl
    rw [h] at hd
    cases hd
    exact absurd (hc.symm.trans hret) (by decide)

theorem mem_setCall_of_returned {d : Call} (h : w.calls[i]? = some c) (hc : c.returned = false) (hd : d ∈ w.calls)
    (hret : d.returned = true) (c' : Call) : d ∈ w.calls.set i c' := by
  obtain ⟨j, hj⟩ := mem_iff_getElem?.mp hd
  exact mem_of_getElem? (getElem?_setCall_of_returned h hc hj hret c')

theorem forall_mem_setCall {P : Call → Prop} (h : ∀ c ∈ w.calls, P c) (hc' : P c') : ∀ c ∈ w.calls.set i c', P c := by
  intro d hd
  rcases mem_or_eq_of_mem_set hd with hd | rfl
  · exact h d hd
  · exact hc'

section

variable (h : Inv w)
include h

theorem Inv.turnsOf_eq {calls' : List Call} {b : Batch} (hb : b ∈ w.appends)
    (hkeep : ∀ d, w.calls[b.call]? = some d → d.returned = true → calls'[b.call]? = some d) :
    turnsOf w.calls b = turnsOf calls' b := by
  obtain ⟨turns, outcome, hb', -⟩ := h.appends b hb
  rw [turnsOf, turnsOf, hb', hkeep _ hb' rfl]

theorem Inv.linear_of {w' : World} (happends : w'.appends = w.appends) (hremovals : w'.removals = w.removals)
    (hbuffered : w'.buffered = w.buffered)
    (hkeep : ∀ (j : Nat) (d : Call), w.calls[j]? = some d → d.returned = true → w'.calls[j]? = some d) :
    w'.Linear := by
  obtain ⟨earlier, since, hsplit, hearlier, hsince⟩ := h.linear
  refine ⟨earlier, since, happends.trans hsplit, hremovals ▸ hearlier, ?_⟩
  rw [hbuffered, hsince]
  exact congrArg appendAll (map_congr_left fun b hb => h.turnsOf_eq (hsplit ▸ mem_append_right _ hb) (hkeep _))

theorem Inv.setCall (c' : Call) (hc : w.calls[i]? = some c) (hret : c.returned = false) (hok : c'.Ok)
    (hpending : c'.pending = true → c.pending = true) (hne : ∀ turns, c' ≠ .appended turns .ok)
    (hsnap : ∀ s, c'.snapshot? = some s → .peeked (some s) ∈ w.calls) : Inv (w.setCall i c') := by
  refine ⟨h.stored, h.text, h.fits, h.conserved, forall_mem_setCall h.calls hok, fun j d hd hp => ?_,
    fun j turns hj => ?_, fun b hb => ?_, ?_, fun b hb => ?_, ?_⟩
  · simp only [World.setCall, Parties.getElem?_set hc] at hd
    split_ifs at hd with hj
    · cases hd
      exact hj ▸ h.pending i c hc (hpending hp)
    · exact h.pending j d hd hp
  · simp only [World.setCall, Parties.getElem?_set hc] at hj
    split_ifs at hj with hji
    · exact absurd (some.inj hj) (hne turns)
    · exact h.appended j turns hj
  · obtain ⟨turns, outcome, hb', hle⟩ := h.appends b hb
    exact ⟨turns, outcome, getElem?_setCall_of_returned hc hret hb' rfl c', hle⟩
  · have hkeep : ∀ s, Call.peeked (some s) ∈ w.calls → Call.peeked (some s) ∈ (w.setCall i c').calls :=
      fun s hs => mem_setCall_of_returned hc hret hs rfl c'
    exact forall_mem_setCall (fun d hd s hs => hkeep s (h.peeks d hd s hs)) fun s hs => hkeep s (hsnap s hs)
  · rcases h.removals b hb with htook | ⟨s, hacked, hs⟩
    · exact .inl (getElem?_setCall_of_returned hc hret htook rfl c')
    · exact .inr ⟨s, getElem?_setCall_of_returned hc hret hacked rfl c', hs⟩
  · exact h.linear_of rfl rfl rfl fun j d hd hd' => getElem?_setCall_of_returned hc hret hd hd' c'

theorem Inv.call (hok : c.Ok) (hne : ∀ turns, c ≠ .appended turns .ok)
    (hsnap : ∀ s, c.snapshot? = some s → .peeked (some s) ∈ w.calls) : Inv (w.call c) := by
  have hkept : ∀ {j : Nat} {d : Call}, w.calls[j]? = some d → (w.calls ++ [c])[j]? = some d :=
    fun hd => (List.getElem?_append_left (List.getElem?_eq_some_iff.mp hd).1).trans hd
  have hget : ∀ {j : Nat} {d : Call}, (w.calls ++ [c])[j]? = some d →
      w.calls[j]? = some d ∨ j = w.calls.length ∧ d = c := by
    intro j d hd
    rw [List.getElem?_append] at hd
    split_ifs at hd with hlt
    · exact .inl hd
    · have hj := (List.getElem?_eq_some_iff.mp hd).1
      rw [length_singleton] at hj
      refine .inr ⟨by omega, ?_⟩
      exact mem_singleton.mp (mem_of_getElem? hd)
  -- no write has the number of the new call
  have hnew : w.appendsOf w.calls.length = [] := by
    refine filter_eq_nil_iff.mpr fun b hb hbi => ?_
    obtain ⟨turns, outcome, hb', -⟩ := h.appends b hb
    have hlt := (List.getElem?_eq_some_iff.mp hb').1
    simp only [decide_eq_true_eq] at hbi
    omega
  have hforall : ∀ {P : Call → Prop}, (∀ d ∈ w.calls, P d) → P c → ∀ d ∈ w.calls ++ [c], P d := by
    intro P hold hc d hd
    rcases mem_append.mp hd with hd | hd
    · exact hold d hd
    · exact mem_singleton.mp hd ▸ hc
  refine ⟨h.stored, h.text, h.fits, h.conserved, hforall h.calls hok, fun j d hd hp => ?_, fun j turns hj => ?_,
    fun b hb => ?_, ?_, fun b hb => ?_, h.linear_of rfl rfl rfl fun j d hd _ => hkept hd⟩
  · rcases hget hd with hold | ⟨rfl, -⟩
    · exact h.pending j d hold hp
    · exact hnew
  · rcases hget hj with hold | ⟨-, heq⟩
    · exact h.appended j turns hold
    · exact absurd heq.symm (hne turns)
  · obtain ⟨turns, outcome, hb', hle⟩ := h.appends b hb
    exact ⟨turns, outcome, hkept hb', hle⟩
  · have hkeep : ∀ s, Call.peeked (some s) ∈ w.calls → Call.peeked (some s) ∈ w.calls ++ [c] :=
      fun s hs => mem_append_left _ hs
    exact hforall (fun d hd s hs => hkeep s (h.peeks d hd s hs)) fun s hs => hkeep s (hsnap s hs)
  · rcases h.removals b hb with htook | ⟨s, hacked, hs⟩
    · exact .inl (hkept htook)
    · exact .inr ⟨s, hkept hacked, hs⟩

theorem Inv.prepareCASWrite (turns : List Turn) : (w.prepareCASWrite turns).Ok := by
  obtain ⟨added, hmerged, -⟩ := mergeTurns_eq w.buffered (sanitizeTurns turns)
  simp only [World.prepareCASWrite, h.readExpected, Call.Ok]
  rw [hmerged, drop_left]
  exact ⟨w.buffered, h.stored, rfl, Prod.ext hmerged rfl⟩

theorem Inv.write (hc : w.calls[i]? = some c) (hpend : c.pending = true) (hret : c.returned = false)
    {turns added : List Turn} {capped : Bool} {outcome : AppendOutcome} (hok : outcome = .ok → capped = false)
    (hmerge : mergeTurns w.buffered (sanitizeTurns turns) = (w.buffered ++ added, capped)) :
    Inv ({ w with value := some (marshal (w.buffered ++ added)), appends := w.appends ++ [Batch.mk i added] }.setCall i
      (.appended turns outcome)) := by
  have hfits := h.fits.mergeTurns (sanitizeTurns turns)
  obtain ⟨added', hadded, hle, hall⟩ := mergeTurns_eq w.buffered (sanitizeTurns turns)
  rw [hmerge] at hfits hadded hall
  obtain rfl := append_cancel_left hadded
  have hclean : ∀ t ∈ w.buffered ++ added, t.Clean := by
    intro t ht
    rcases mem_append.mp ht with ht | ht
    · exact h.stored.clean t ht
    · exact clean_of_mem_sanitizeTurns (hle.subset ht)
  have hbuffered :
      ({ w with
          value := some (marshal (w.buffered ++ added))
          appends := w.appends ++ [Batch.mk i added] }.setCall i (.appended turns outcome)).buffered =
        w.buffered ++ added :=
    buffered_of_value hclean rfl
  have hself : w.appendsOf i = [] := h.pending i c hc hpend
  have hother : ∀ j, j ≠ i → (w.appends ++ [Batch.mk i added]).filter (·.call = j) = w.appendsOf j := by
    intro j hj
    rw [filter_append, World.appendsOf]
    simp [Ne.symm hj]
  refine ⟨?_, ?_, ?_, ?_, forall_mem_setCall h.calls trivial, fun j d hd hp => ?_, fun j ts hj => ?_, fun b hb => ?_,
    ?_, fun b hb => ?_, ?_⟩
  · rw [hbuffered]
    exact ⟨.inr rfl, hclean⟩
  · exact fun hnil => marshal_ne_nil _ (some.inj hnil)
  · rw [hbuffered]
    exact hfits
  · rw [hbuffered]
    simp only [World.setCall, flatMap_append, h.conserved, flatMap_cons, flatMap_nil, append_nil, append_assoc]
  · simp only [World.setCall, Parties.getElem?_set hc] at hd
    split_ifs at hd with hj
    · cases hd
      cases hp
    · exact (hother j hj).trans (h.pending j d hd hp)
  · simp only [World.setCall, Parties.getElem?_set hc] at hj
    split_ifs at hj with hji
    · cases hj
      subst hji
      rw [World.appendsOf] at hself
      simp [World.appendsOf, World.setCall, filter_append, hself, hall (hok rfl)]
    · exact (hother j hji).trans (h.appended j ts hj)
  · rcases mem_append.mp hb with hb | hb
    · obtain ⟨ts, outcome, hb', hle'⟩ := h.appends b hb
      exact ⟨ts, outcome, getElem?_setCall_of_returned hc hret hb' rfl _, hle'⟩
    · obtain rfl := mem_singleton.mp hb
      exact ⟨turns, _, (Parties.getElem?_set hc _ i).trans (if_pos rfl), hle⟩
  · refine forall_mem_setCall (fun d hd s hs => ?_) nofun
    exact mem_setCall_of_returned hc hret (h.peeks d hd s hs) rfl _
  · rcases h.removals b hb with htook | ⟨s, hacked, hs⟩
    · exact .inl (getElem?_setCall_of_returned hc hret htook rfl _)
    · exact .inr ⟨s, getElem?_setCall_of_returned hc hret hacked rfl _, hs⟩
  · obtain ⟨earlier, since, hsplit, hearlier, hsince⟩ := h.linear
    have hlast : turnsOf (w.calls.set i (.appended turns outcome)) ⟨i, added⟩ = turns := by
      simp [turnsOf, Parties.getElem?_set hc]
    have hkeep : since.map (turnsOf (w.calls.set i (.appended turns outcome))) =
        since.map (turnsOf w.calls) :=
      map_congr_left fun b hb => (h.turnsOf_eq (hsplit ▸ mem_append_right _ hb) fun d hd hd' =>
        getElem?_setCall_of_returned hc hret hd hd' _).symm
    refine ⟨earlier, since ++ [⟨i, added⟩], by simp [World.setCall, hsplit], hearlier, ?_⟩
    rw [hbuffered, map_append, map_singleton]
    show _ = appendAll (since.map (turnsOf (w.calls.set i _)) ++ [turnsOf (w.calls.set i _) ⟨i, added⟩])
    rw [hkeep, hlast, appendAll_concat, ← hsince, hmerge]

theorem Inv.delete (hc : w.calls[i]? = some c) (hret : c.returned = false) (hok : c'.Ok)
    (hret' : c' = .took (some w.buffered) ∨ ∃ s, c' = .acked s ∧ s.turns = w.buffered ∧ .peeked (some s) ∈ w.calls) :
    Inv ({ w with value := none, removals := w.removals ++ [Batch.mk i w.buffered] }.setCall i c') := by
  have hreturns : ∀ turns, c' ≠ .appended turns .ok := by
    rintro turns rfl
    rcases hret' with heq | ⟨s, heq, -⟩ <;> cases heq
  have hpending : c'.pending = false := by
    rcases hret' with rfl | ⟨s, rfl, -⟩ <;> rfl
  have hsnap : ∀ s, c'.snapshot? = some s → .peeked (some s) ∈ w.calls := by
    rcases hret' with rfl | ⟨s, rfl, -, hpeeked⟩
    · exact nofun
    · rintro s' ⟨⟩
      exact hpeeked
  -- all but the text is as in a step that does not write
  have hset := h.setCall c' hc hret hok (fun hp => absurd (hpending.symm.trans hp) (by decide)) hreturns hsnap
  have hempty : Fits [] := ⟨by decide, by decide⟩
  refine { hset with
    stored := ⟨.inl ⟨rfl, rfl⟩, nofun⟩, text := nofun, fits := hempty, conserved := ?_, removals := fun b hb => ?_,
    linear := ⟨w.appends, [], (append_nil _).symm, ?_, rfl⟩ }
  · simpa [World.setCall, World.buffered] using h.conserved
  · rcases mem_append.mp hb with hb | hb
    · exact hset.removals b hb
    · obtain rfl := mem_singleton.mp hb
      have hself : (w.calls.set i c')[i]? = some c' := (Parties.getElem?_set hc c' i).trans (if_pos rfl)
      rcases hret' with rfl | ⟨s, rfl, hs, -⟩
      · exact .inl hself
      · exact .inr ⟨s, hself, hs⟩
  · simpa [World.setCall] using h.conserved

theorem Inv.advance (hs : w.advance i = some w') : Inv w' := by
  unfold World.advance at hs
  split at hs
  case h_1 turns hc =>
    cases hs
    exact h.setCall _ hc rfl (h.prepareCASWrite turns) (fun _ => rfl) nofun nofun
  case h_2 turns expected payload added capped hc =>
    by_cases hv : w.value.getD [] = expected
    · rw [if_pos hv] at hs
      cases hs
      obtain ⟨existing, hreads, rfl, hmerge⟩ := h.calls _ (mem_of_getElem? hc)
      obtain rfl : existing = w.buffered := hreads.unique (hv ▸ h.stored)
      refine h.write hc rfl rfl (fun hok => ?_) hmerge
      cases capped with
      | true => cases hok
      | false => rfl
    · rw [if_neg hv] at hs
      cases hs
      exact h.setCall (.read turns) hc rfl trivial (fun _ => rfl) nofun nofun
  case h_3 hc =>
    split at hs
    case h_1 hv =>
      cases hs
      exact h.setCall (.peeked (some ⟨[], []⟩)) hc rfl ⟨.inl ⟨rfl, rfl⟩, nofun⟩ nofun nofun nofun
    case h_2 raw hv =>
      cases hs
      rw [h.decode hv]
      refine h.setCall (.peeked (some ⟨w.buffered, raw⟩)) hc rfl ?_ nofun nofun nofun
      have hstored := h.stored
      rw [hv] at hstored
      exact hstored
  case h_4 snapshot hc =>
    have hreads : Reads snapshot.raw snapshot.turns := h.calls _ (mem_of_getElem? hc)
    have hpeeked := h.peeks _ (mem_of_getElem? hc) snapshot rfl
    split_ifs at hs with hv
    · cases hs
      have hturns : snapshot.turns = w.buffered := by
        have hstored := h.stored
        rw [hv.2] at hstored
        exact hreads.unique hstored
      rw [hturns]
      exact h.delete hc rfl hreads (.inr ⟨snapshot, rfl, hturns, hpeeked⟩)
    · cases hs
      refine h.setCall (.acked snapshot) hc rfl hreads nofun nofun ?_
      rintro s ⟨⟩
      exact hpeeked
  case h_5 hc =>
    split at hs
    case h_1 hv =>
      cases hs
      exact h.setCall (.took (some [])) hc rfl trivial nofun nofun nofun
    case h_2 raw hv =>
      cases hs
      rw [h.decode hv, getD_some]
      exact h.delete hc rfl trivial (.inl rfl)
  all_goals cases hs

theorem Inv.step {a : Action} (hs : w.step a = some w') : Inv w' := by
  cases a with
  | append turns =>
    cases hs
    split_ifs <;> exact h.call trivial nofun nofun
  | peek | take =>
    cases hs
    exact h.call trivial nofun nofun
  | ack peek =>
    simp only [World.step] at hs
    split at hs
    case h_1 snapshot hpeek =>
      cases hs
      have hmem := mem_of_getElem? hpeek
      have hok : Call.Ok (.peeked (some snapshot)) := h.calls _ hmem
      refine h.call hok nofun ?_
      rintro s ⟨⟩
      exact hmem
    case h_2 => cases hs
  | advance i => exact h.advance hs
  | cancel i =>
    simp only [World.step] at hs
    split at hs
    case h_1 turns hc =>
      cases hs
      exact h.setCall (.appended turns .redisErr) hc rfl trivial nofun nofun nofun
    case h_2 => cases hs

end

theorem inv_of_reachable (hr : machine.Reachable w) : Inv w := by
  refine hr.invariant ?_ fun v a v' hi hs => hi.step hs
  rintro v rfl
  exact inv_init

end

/-! What the extraction buffer keeps, and what the worker makes of it. -/

open Lib List Option World

variable {w w' : World}

/-! ## No turn is lost or invented -/

theorem logs_setCall (w : World) (i : Nat) (c : Call) :
    w.appends <+: (w.setCall i c).appends ∧ w.removals <+: (w.setCall i c).removals :=
  ⟨prefix_rfl, prefix_rfl⟩

/-- Writes and deletes are recorded behind the earlier ones. -/
theorem logs_step {a : Action} (hs : w.step a = some w') : w.appends <+: w'.appends ∧ w.removals <+: w'.removals := by
  have hcall : ∀ c, w.appends <+: (w.call c).appends ∧ w.removals <+: (w.call c).removals :=
    fun c => ⟨prefix_rfl, prefix_rfl⟩
  cases a with
  | append | peek | take =>
    cases hs
    exact hcall _
  | ack peek =>
    simp only [step] at hs
    split at hs <;> cases hs
    exact hcall _
  | advance i =>
    simp only [step, advance] at hs
    split at hs
    case h_1 =>
      cases hs
      exact logs_setCall w _ _
    case h_2 =>
      split at hs <;> cases hs
      · exact ⟨prefix_append _ _, prefix_rfl⟩
      · exact logs_setCall w _ _
    case h_3 =>
      split at hs <;> cases hs
      · exact logs_setCall w _ _
      · exact logs_setCall w _ _
    case h_4 =>
      split at hs <;> cases hs
      · exact ⟨prefix_rfl, prefix_append _ _⟩
      · exact logs_setCall w _ _
    case h_5 =>
      split at hs <;> cases hs
      · exact logs_setCall w _ _
      · exact ⟨prefix_rfl, prefix_append _ _⟩
    all_goals cases hs
  | cancel i =>
    simp only [step] at hs
    split at hs <;> cases hs
    exact logs_setCall w _ _

theorem logs_later (h : machine.Later w w') : w.appends <+: w'.appends ∧ w.removals <+: w'.removals := by
  refine h.stable (P := fun v => w.appends <+: v.appends ∧ w.removals <+: v.removals) (fun v a v' hv hs => ?_)
    ⟨prefix_rfl, prefix_rfl⟩
  have hstep := logs_step hs
  exact ⟨hv.1.trans hstep.1, hv.2.trans hstep.2⟩

/-- What was appended, in order, is what takes and acks have removed, in order, and then what is in the buffer. -/
theorem buffer_conserves_turns (hr : machine.Reachable w) : w.buffered.length ≤ maxTurnsPerBatch ∧
    (∀ raw, w.value = some raw → raw = marshal w.buffered ∧ Text.byteLength raw ≤ maxBatchContentBytes) ∧
    w.appends.flatMap Batch.turns = w.removals.flatMap Batch.turns ++ w.buffered ∧
    (∀ (i : Nat) (turns : List Turn), w.calls[i]? = some (.appended turns .ok) →
      w.appends.filter (·.call = i) = [⟨i, sanitizeTurns turns⟩]) ∧
    (∀ b ∈ w.removals, w.calls[b.call]? = some (.took (some b.turns)) ∨
      ∃ s, w.calls[b.call]? = some (.acked s) ∧ .peeked (some s) ∈ w.calls ∧ s.turns = b.turns) ∧
    (∀ b ∈ w.appends, ∃ turns outcome, w.calls[b.call]? = some (.appended turns outcome) ∧
      b.turns <+: sanitizeTurns turns) ∧
    ∀ w', machine.Later w w' → w.appends <+: w'.appends ∧ w.removals <+: w'.removals := by
  have h := inv_of_reachable hr
  refine ⟨h.fits.turns, fun raw hv => ?_, h.conserved, h.appended, fun b hb => ?_, h.appends, fun w' => logs_later⟩
  · have hraw : raw = marshal w.buffered := by
      rcases h.stored.raw with ⟨hnil, -⟩ | hraw
      · rw [hv, getD_some] at hnil
        exact absurd (hnil ▸ hv) h.text
      · rwa [hv, getD_some] at hraw
    exact ⟨hraw, hraw ▸ h.fits.bytes⟩
  · rcases h.removals b hb with htook | ⟨s, hacked, hs⟩
    · exact .inl htook
    · exact .inr ⟨s, hacked, h.peeks _ (mem_of_getElem? hacked) s rfl, hs⟩

/-- Two appends of which one has to try again, a peek whose ack comes too late, and a take. -/
def sampleRun : List Action :=
  [.append [⟨0, ['u'], ['a']⟩], .append [⟨1, ['u'], ['<']⟩], .advance 0, .advance 1, .advance 0, .advance 1, .peek,
    .advance 2, .advance 1, .advance 1, .ack 2, .advance 3, .take, .advance 4]

def sampleWorld : World := (machine.run ⟨none, [], [], []⟩ sampleRun).get (by decide +kernel)

theorem buffer_conserves_turns_sample :
    machine.Reachable sampleWorld ∧ sampleWorld.calls[1]? = some (.appended [⟨1, ['u'], ['<']⟩] .ok) ∧
      sampleWorld.appends.filter (·.call = 1) = [⟨1, sanitizeTurns [⟨1, ['u'], ['<']⟩]⟩] := by
  have hr : machine.Reachable sampleWorld := ⟨_, rfl, _, (some_get _).symm⟩
  have hok : sampleWorld.calls[1]? = some (.appended [⟨1, ['u'], ['<']⟩] .ok) := by decide +kernel
  exact ⟨hr, hok, (buffer_conserves_turns hr).2.2.2.1 1 _ hok⟩

/-- The worker accepts what the calls have stored exactly if the turns that the buffer takes are, tagged, not longer
than the worker's limit; the buffer's own limit is on their JSON. -/
theorem buffered_turns_accepted (appends : List (List Turn)) (hdistinct : (appends.flatten.map Turn.turnIndex).Nodup) :
    parseTurns (appendAll appends) = true ↔
      (load appends).html + ((load appends).turns - 1) ≤ maxBatchContentBytes := by
  have hspec := appendAll_spec appends
  rw [load_eq]
  exact parseTurns_iff hspec.1 hspec.2.1 (nodup_appendAll hdistinct)

theorem buffered_turns_accepted_sample :
    (([[⟨0, ['u'], ['a']⟩], [⟨1, ['a'], ['<']⟩]] : List (List Turn)).flatten.map Turn.turnIndex).Nodup ∧
      parseTurns (appendAll [[⟨0, ['u'], ['a']⟩], [⟨1, ['a'], ['<']⟩]]) = true :=
  ⟨by decide, (buffered_turns_accepted _ (by decide)).mpr (by decide +kernel)⟩

/-- A message of apostrophes, which JSON writes with one byte each and the worker with six. -/
def apostrophes (n : Nat) : Turn := ⟨0, ['u', 's', 'e', 'r'], List.replicate n '\x27'⟩

theorem sum_apostrophes (n : Nat) (f : Char → Nat) : ((apostrophes n).content.map f).sum = n * f '\x27' := by
  rw [apostrophes, map_replicate, sum_replicate, Nat.nsmul_eq_mul]

theorem clean_apostrophes {n : Nat} (hpos : n ≠ 0) (hle : n ≤ maxContentLen) : (apostrophes n).Clean := by
  have hlen : (apostrophes n).content.length = n := length_replicate
  have hrole : ['u', 's', 'e', 'r'].length ≤ maxRoleLen := by decide
  refine ⟨Int.le_refl 0, ⟨cons_ne_nil _ _, hrole⟩, fun hnil => hpos ?_, Nat.le_trans (Nat.le_of_eq hlen) hle⟩
  rw [← hlen, hnil, length_nil]

theorem digits_apostrophes (n : Nat) : (Nat.toDigits 10 (apostrophes n).turnIndex.toNat).length = 1 := by
  show (Nat.toDigits 10 (0 : Int).toNat).length = 1
  decide +kernel

theorem serializedBytes_apostrophes {n : Nat} (h : (apostrophes n).Clean) :
    serializedBytes [apostrophes n] = 45 + n := by
  have hwidth : jsonWidth '\x27' = 1 := by decide +kernel
  have hrole : ((apostrophes n).role.map jsonWidth).sum = 4 := by
    show (['u', 's', 'e', 'r'].map jsonWidth).sum = 4
    decide +kernel
  rw [serializedBytes_eq (by simpa using h)]
  simp only [map_cons, map_nil, sum_cons, sum_nil, Turn.jsonBytes, hrole, digits_apostrophes, sum_apostrophes,
    hwidth, length_singleton]
  omega

theorem htmlBytes_apostrophes (n : Nat) : htmlBytes [apostrophes n] = 37 + 6 * n := by
  have hwidth : htmlWidth '\x27' = 6 := by decide +kernel
  have hrole : ((apostrophes n).role.map htmlWidth).sum = 4 := by
    show (['u', 's', 'e', 'r'].map htmlWidth).sum = 4
    decide +kernel
  simp only [htmlBytes, map_cons, map_nil, sum_cons, sum_nil, Turn.htmlBytes, hrole, digits_apostrophes,
    sum_apostrophes, hwidth, length_singleton]
  omega

theorem appendAll_apostrophes {n : Nat} (hpos : n ≠ 0) (hle : n ≤ maxContentLen) :
    appendAll [[apostrophes n]] = [apostrophes n] := by
  have hclean := clean_apostrophes hpos hle
  have hone : sanitizeOne (apostrophes n) = some (apostrophes n) := by
    have hrole : truncateRunes (apostrophes n).role maxRoleLen = (apostrophes n).role :=
      take_of_length_le hclean.role.2
    have hcontent : truncateRunes (apostrophes n).content maxContentLen = (apostrophes n).content :=
      take_of_length_le hclean.content.2
    have hok : turnFieldsOK (apostrophes n).role (apostrophes n).content (apostrophes n).turnIndex = true := by
      simp only [turnFieldsOK, Bool.and_eq_true, decide_eq_true_eq]
      exact ⟨⟨hclean.role.1, hclean.content.1⟩, hclean.index⟩
    rw [sanitizeOne, hrole, hcontent, if_pos hok]
  have hbytes : ¬maxBatchContentBytes < serializedBytes [apostrophes n] := by
    rw [serializedBytes_apostrophes hclean]
    simp only [maxBatchContentBytes, maxContentLen] at hle ⊢
    omega
  have htry : tryAppendTurn [] (apostrophes n) = some [apostrophes n] := by
    rw [tryAppendTurn, if_neg (by decide), nil_append, if_neg hbytes]
  simp only [appendAll, sanitizeTurns, foldl_cons, foldl_nil, filterMap_cons_some hone,
    filterMap_nil, mergeTurns, htry]

theorem buffered_turns_rejected : (([[apostrophes 100000]] : List (List Turn)).flatten.map Turn.turnIndex).Nodup ∧
      0 ≤ (apostrophes 100000).turnIndex ∧ parseTurns (appendAll [[apostrophes 100000]]) = false := by
  have hpos : 100000 ≠ 0 := by decide
  have hle : 100000 ≤ maxContentLen := by decide
  have hclean := clean_apostrophes hpos hle
  have hstored := appendAll_apostrophes hpos hle
  refine ⟨nodup_singleton _, Int.le_refl 0, ?_⟩
  have hfits := (appendAll_spec [[apostrophes 100000]]).1
  rw [hstored] at hfits ⊢
  rw [← Bool.not_eq_true, parseTurns_iff hfits (by simpa using hclean) (nodup_singleton _), htmlBytes_apostrophes]
  decide

end IbexHarness.ExtractionBuffer
