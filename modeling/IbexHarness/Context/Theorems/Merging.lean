import IbexHarness.Context.Lemmas.Packing
import IbexHarness.Context.Packer
import IbexHarness.Lib.Apart
import IbexHarness.Lib.Dict
import Mathlib.Algebra.Field.Rat
import Mathlib.Algebra.Order.Ring.Rat
import Mathlib.Data.Finset.Sort

/-! `score_retrieval_hits` of `services/context/app/pipeline.py` with `conflict.py` and `scoring.py`. -/

namespace IbexHarness.Context

section

open Lib

variable {α : Type} [LinearOrder α] [Add α] [Mul α] [Zero α] [One α] [OfScientific α]

structure MemoryHit (α : Type) where
  memoryId : Text
  orgId : Text
  agentId : Text
  content : Text
  category : Text
  confidence : α
  similarity : α
  rank : Int
  source : Text
  conflictGroups : List Text
deriving DecidableEq

/-! ## Scores -/

structure UnitError (α : Type) where
  name : String
  number : α
deriving DecidableEq

def requireUnit (name : String) (value : α) : Except (UnitError α) Unit :=
  if value < 0 ∨ 1 < value then .error ⟨name, value⟩ else .ok ()

def scoreMemoryHit (hit : MemoryHit α) : Except (UnitError α) α := do
  requireUnit "similarity" hit.similarity
  requireUnit "confidence" hit.confidence
  return 0.85 * hit.similarity + 0.15 * hit.confidence

structure ScoredHit (α : Type) where
  hit : MemoryHit α
  compositeScore : α

def ScoredHit.scored (s : ScoredHit α) : ScoredMemory α where
  memoryId := s.hit.memoryId
  content := s.hit.content
  category := s.hit.category
  compositeScore := s.compositeScore

def scoreHit (hit : MemoryHit α) : Except (UnitError α) (ScoredHit α) := do
  let score ← scoreMemoryHit hit
  return ⟨hit, score⟩

def scoreHits (hits : List (MemoryHit α)) : Except (UnitError α) (List (ScoredHit α)) := hits.mapM scoreHit

/-! ## Duplicates -/

def prefer (candidate incumbent : MemoryHit α) : Except (UnitError α) Bool := do
  let candScore ← scoreMemoryHit candidate
  let incScore ← scoreMemoryHit incumbent
  if candScore ≠ incScore then return incScore < candScore
  else return candidate.rank < incumbent.rank

structure Merge (α : Type) where
  best : List (MemoryHit α)
  groups : Text → Finset Text

def mergeHit (m : Merge α) (hit : MemoryHit α) : Except (UnitError α) (Merge α) := do
  let groups := Function.update m.groups hit.memoryId (m.groups hit.memoryId ∪ hit.conflictGroups.toFinset)
  match Dict.get? MemoryHit.memoryId m.best hit.memoryId with
  | none => return ⟨Dict.set MemoryHit.memoryId m.best hit, groups⟩
  | some existing =>
    let better ← prefer hit existing
    if better then return ⟨Dict.set MemoryHit.memoryId m.best hit, groups⟩
    else return ⟨m.best, groups⟩

def MemoryHit.withGroups (hit : MemoryHit α) (groups : Finset Text) : MemoryHit α :=
  { hit with conflictGroups := groups.sort (· ≤ ·) }

def dedupeHits (hits : List (MemoryHit α)) : Except (UnitError α) (List (MemoryHit α)) := do
  let m ← hits.foldlM mergeHit ⟨[], fun _ => ∅⟩
  return m.best.map fun hit => hit.withGroups (m.groups hit.memoryId)

/-! ## Conflicts -/

def collapseConflicts (hits : List (MemoryHit α)) : Except (UnitError α) (List (MemoryHit α)) := do
  let keyed ← hits.mapM scoreHit
  let ordered := keyed.insertionSort fun a b => RankLe a.scored b.scored
  return Apart.keep MemoryHit.conflictGroups [] (ordered.map ScoredHit.hit)

def scoreRetrievalHits (hits : List (MemoryHit α)) : Except (UnitError α) (List (ScoredHit α)) := do
  let deduped ← dedupeHits hits
  let kept ← collapseConflicts deduped
  scoreHits kept

end

/-! The scores of valid hits, the invariant of the merge, and the list left by the conflicts. -/

section

open Lib List MemoryHit Function

variable {α : Type}

def reported (hits : List (MemoryHit α)) (id : Text) : Finset Text :=
  ((hits.filter (·.memoryId = id)).flatMap MemoryHit.conflictGroups).toFinset

theorem mem_reported {hits : List (MemoryHit α)} {id g : Text} :
    g ∈ reported hits id ↔ ∃ h ∈ hits, h.memoryId = id ∧ g ∈ h.conflictGroups := by
  simp [reported, and_assoc]

theorem mem_withGroups {h : MemoryHit α} {groups : Finset Text} {g : Text} :
    g ∈ (h.withGroups groups).conflictGroups ↔ g ∈ groups := Finset.mem_sort _

variable [LinearOrder α]

section Unit

variable [Zero α] [One α]

def MemoryHit.Valid (h : MemoryHit α) : Prop :=
  (0 ≤ h.similarity ∧ h.similarity ≤ 1) ∧ 0 ≤ h.confidence ∧ h.confidence ≤ 1

instance (h : MemoryHit α) : Decidable h.Valid := inferInstanceAs (Decidable (_ ∧ _))

theorem requireUnit_eq {name : String} {x : α} (h₀ : 0 ≤ x) (h₁ : x ≤ 1) : requireUnit name x = .ok () := by
  rw [requireUnit, if_neg (not_or.mpr ⟨not_lt.mpr h₀, not_lt.mpr h₁⟩)]

theorem MemoryHit.Valid.withGroups {h : MemoryHit α} (hv : h.Valid) (groups : Finset Text) :
    (h.withGroups groups).Valid := hv

end Unit

variable [Add α] [Mul α] [OfScientific α]

def MemoryHit.score (h : MemoryHit α) : α := 0.85 * h.similarity + 0.15 * h.confidence

def MemoryHit.toScored (h : MemoryHit α) : ScoredHit α := ⟨h, h.score⟩

def MemoryHit.Precedes (a b : MemoryHit α) : Prop := RankLe a.toScored.scored b.toScored.scored

variable {h a b c : MemoryHit α} {hits hits' seen : List (MemoryHit α)}

/-! ## The better copy -/

def AtMost (a b : MemoryHit α) : Prop := a.score < b.score ∨ a.score = b.score ∧ b.rank ≤ a.rank

theorem AtMost.refl (a : MemoryHit α) : AtMost a a := .inr ⟨rfl, le_rfl⟩

theorem AtMost.trans (hab : AtMost a b) (hbc : AtMost b c) : AtMost a c := by
  rcases hab with hab | ⟨hab, hrank⟩
  · rcases hbc with hbc | ⟨hbc, -⟩
    · exact .inl (hab.trans hbc)
    · exact .inl (hbc ▸ hab)
  · rcases hbc with hbc | ⟨hbc, hrank'⟩
    · exact .inl (hab ▸ hbc)
    · exact .inr ⟨hab.trans hbc, hrank'.trans hrank⟩

theorem AtMost.score_le (h : AtMost a b) : a.score ≤ b.score := h.elim le_of_lt fun h => h.1.le

theorem AtMost.tie (hab : AtMost a b) (hba : AtMost b a) : a.score = b.score ∧ a.rank = b.rank := by
  rcases hab with hab | ⟨hscore, hrank⟩
  · exact absurd hba.score_le (not_le.mpr hab)
  · rcases hba with hba | ⟨-, hrank'⟩
    · exact absurd hscore hba.ne'
    · exact ⟨hscore, le_antisymm hrank' hrank⟩

/-- What the two dictionaries hold once the hits `seen` have been merged. -/
structure Merged (seen : List (MemoryHit α)) (m : Merge α) : Prop where
  nodup : (m.best.map MemoryHit.memoryId).Nodup
  mem : ∀ b ∈ m.best, b ∈ seen
  best : ∀ h ∈ seen, ∃ b ∈ m.best, b.memoryId = h.memoryId ∧ AtMost h b
  groups : ∀ id g, g ∈ m.groups id ↔ ∃ h ∈ seen, h.memoryId = id ∧ g ∈ h.conflictGroups

variable {m : Merge α}

theorem Merged.groups_concat (hm : Merged seen m) (h : MemoryHit α) (id g : Text) :
    g ∈ update m.groups h.memoryId (m.groups h.memoryId ∪ h.conflictGroups.toFinset) id ↔
      ∃ k ∈ seen ++ [h], k.memoryId = id ∧ g ∈ k.conflictGroups := by
  by_cases hid : id = h.memoryId
  · subst hid
    rw [update_self, Finset.mem_union, hm.groups, mem_toFinset]
    constructor
    · rintro (⟨k, hk, hkid, hg⟩ | hg)
      · exact ⟨k, mem_append_left _ hk, hkid, hg⟩
      · exact ⟨h, by simp, rfl, hg⟩
    · rintro ⟨k, hk, hkid, hg⟩
      rcases mem_append.mp hk with hk | hk
      · exact .inl ⟨k, hk, hkid, hg⟩
      · rw [mem_singleton.mp hk] at hg
        exact .inr hg
  · rw [update_of_ne hid, hm.groups]
    constructor
    · rintro ⟨k, hk, hkid, hg⟩
      exact ⟨k, mem_append_left _ hk, hkid, hg⟩
    · rintro ⟨k, hk, hkid, hg⟩
      rcases mem_append.mp hk with hk | hk
      · exact ⟨k, hk, hkid, hg⟩
      · rw [mem_singleton.mp hk] at hkid
        exact absurd hkid.symm hid

theorem Merged.set (hm : Merged seen m) (hbest : ∀ b ∈ m.best, b.memoryId = h.memoryId → AtMost b h) :
    Merged (seen ++ [h]) ⟨Dict.set memoryId m.best h,
      update m.groups h.memoryId (m.groups h.memoryId ∪ h.conflictGroups.toFinset)⟩ where
  nodup := Dict.nodup_keys_set hm.nodup
  mem b hb := by
    rcases Dict.mem_set_iff.mp hb with rfl | ⟨hb, -⟩
    · simp
    · exact mem_append_left _ (hm.mem b hb)
  best k hk := by
    rcases mem_append.mp hk with hk | hk
    · obtain ⟨b, hb, hid, hkb⟩ := hm.best k hk
      by_cases hbh : b.memoryId = h.memoryId
      · exact ⟨h, Dict.mem_set_iff.mpr (.inl rfl), hbh.symm.trans hid, hkb.trans (hbest b hb hbh)⟩
      · exact ⟨b, Dict.mem_set_iff.mpr (.inr ⟨hb, hbh⟩), hid, hkb⟩
    · rw [mem_singleton.mp hk]
      exact ⟨h, Dict.mem_set_iff.mpr (.inl rfl), rfl, .refl h⟩
  groups := hm.groups_concat h

theorem Merged.keep (hm : Merged seen m) (hb : b ∈ m.best) (hid : b.memoryId = h.memoryId) (hbest : AtMost h b) :
    Merged (seen ++ [h]) ⟨m.best,
      update m.groups h.memoryId (m.groups h.memoryId ∪ h.conflictGroups.toFinset)⟩ where
  nodup := hm.nodup
  mem k hk := List.mem_append_left _ (hm.mem k hk)
  best k hk := by
    rcases mem_append.mp hk with hk | hk
    · exact hm.best k hk
    · rw [mem_singleton.mp hk]
      exact ⟨b, hb, hid, hbest⟩
  groups := hm.groups_concat h

theorem merged_nil : Merged ([] : List (MemoryHit α)) ⟨[], fun _ => ∅⟩ where
  nodup := List.nodup_nil
  mem _ hb := by cases hb
  best _ hh := by cases hh
  groups := by simp

/-! ## One hit of each memory -/

structure Deduped (hits deduped : List (MemoryHit α)) : Prop where
  nodup : (deduped.map MemoryHit.memoryId).Nodup
  copy : ∀ d ∈ deduped, ∃ b ∈ hits, (∀ h ∈ hits, h.memoryId = b.memoryId → AtMost h b) ∧
    d = b.withGroups (reported hits b.memoryId)
  mem : ∀ h ∈ hits, ∃ d ∈ deduped, d.memoryId = h.memoryId

theorem Merged.deduped (hm : Merged hits m) :
    Deduped hits (m.best.map fun hit => hit.withGroups (m.groups hit.memoryId)) where
  nodup := by
    rw [map_map]
    exact hm.nodup
  copy d hd := by
    obtain ⟨b, hb, rfl⟩ := mem_map.mp hd
    have hgroups : m.groups b.memoryId = reported hits b.memoryId := by
      ext g
      rw [hm.groups, mem_reported]
    refine ⟨b, hm.mem b hb, fun h hh hid => ?_, by rw [hgroups]⟩
    obtain ⟨b', hb', hid', hle⟩ := hm.best h hh
    obtain rfl := inj_on_of_nodup_map hm.nodup hb' hb (hid'.trans hid)
    exact hle
  mem h hh := by
    obtain ⟨b, hb, hid, -⟩ := hm.best h hh
    exact ⟨_, mem_map.mpr ⟨b, hb, rfl⟩, hid⟩

def TiesAgree (hits : List (MemoryHit α)) : Prop :=
  ∀ a ∈ hits, ∀ b ∈ hits, a.memoryId = b.memoryId → a.score = b.score → a.rank = b.rank →
    { a with conflictGroups := b.conflictGroups } = b

variable {d d' : List (MemoryHit α)} {x y k : MemoryHit α}

section

variable (hd : Deduped hits d)
include hd

theorem Deduped.disjoint_copies (hx : x ∈ d) (hy : y ∈ d)
    (hxy : List.Disjoint x.conflictGroups y.conflictGroups) (hh : h ∈ hits) (hk : k ∈ hits)
    (hhx : h.memoryId = x.memoryId) (hky : k.memoryId = y.memoryId) :
    List.Disjoint h.conflictGroups k.conflictGroups := by
  obtain ⟨b, -, -, rfl⟩ := hd.copy x hx
  obtain ⟨c, -, -, rfl⟩ := hd.copy y hy
  intro g hgh hgk
  apply @hxy g
  · exact mem_withGroups.mpr (mem_reported.mpr ⟨h, hh, hhx, hgh⟩)
  · exact mem_withGroups.mpr (mem_reported.mpr ⟨k, hk, hky, hgk⟩)

theorem Deduped.exists_copies (hx : x ∈ d) (hy : y ∈ d)
    (hxy : ¬ List.Disjoint x.conflictGroups y.conflictGroups) :
    ∃ h ∈ hits, ∃ k ∈ hits, h.memoryId = x.memoryId ∧ k.memoryId = y.memoryId ∧
      ¬ List.Disjoint h.conflictGroups k.conflictGroups := by
  obtain ⟨b, -, -, rfl⟩ := hd.copy x hx
  obtain ⟨c, -, -, rfl⟩ := hd.copy y hy
  simp only [List.Disjoint, not_forall] at hxy
  obtain ⟨g, hgx, hgy, -⟩ := hxy
  obtain ⟨h, hh, hhx, hgh⟩ := mem_reported.mp (mem_withGroups.mp hgx)
  obtain ⟨k, hk, hky, hgk⟩ := mem_reported.mp (mem_withGroups.mp hgy)
  exact ⟨h, hh, k, hk, hhx, hky, fun hdisj => hdisj hgh hgk⟩

theorem Deduped.precedes_copies (hx : x ∈ d) (hax : a.Precedes x) (hh : h ∈ hits)
    (hid : h.memoryId = x.memoryId) : a.Precedes h := by
  obtain ⟨b, -, hbest, rfl⟩ := hd.copy x hx
  have hscore : h.score ≤ b.score := (hbest h hh hid).score_le
  have hid : h.toScored.scored.memoryId = b.memoryId := hid
  rcases hax with hlt | ⟨heq, hle⟩
  · exact .inl (lt_of_le_of_lt hscore hlt)
  · rcases lt_or_eq_of_le hscore with hlt | hsame
    · exact .inl (lt_of_lt_of_eq hlt heq.symm)
    · exact .inr ⟨heq.trans hsame.symm, hid ▸ hle⟩

theorem Deduped.subset_of_perm (hd' : Deduped hits' d') (hperm : hits.Perm hits')
    (hties : TiesAgree hits) : d ⊆ d' := by
  intro x hx
  obtain ⟨b, hb, hbest, rfl⟩ := hd.copy x hx
  obtain ⟨y, hy, hid⟩ := hd'.mem b (hperm.subset hb)
  obtain ⟨b', hb', hbest', rfl⟩ := hd'.copy y hy
  have hid : b'.memoryId = b.memoryId := hid
  have hmem := hperm.symm.subset hb'
  obtain ⟨hscore, hrank⟩ := (hbest' b (hperm.subset hb) hid.symm).tie (hbest b' hmem hid)
  have hreported : reported hits b.memoryId = reported hits' b'.memoryId := by
    ext g
    simp only [mem_reported, hid, hperm.mem_iff]
  have hsame := hties b hb b' hmem hid.symm hscore hrank
  have hgroups : b.withGroups (reported hits b.memoryId) = b'.withGroups (reported hits' b'.memoryId) := by
    rw [hreported, ← hsame]
    rfl
  rw [hgroups]
  exact hy

theorem Deduped.perm (hd' : Deduped hits' d') (hperm : hits.Perm hits') (hties : TiesAgree hits) : d.Perm d' := by
  have hties' : TiesAgree hits' := fun a ha b hb => hties a (hperm.symm.subset ha) b (hperm.symm.subset hb)
  refine (perm_ext_iff_of_nodup hd.nodup.of_map hd'.nodup.of_map).mpr fun x => ⟨fun hx => ?_, fun hx => ?_⟩
  · exact hd.subset_of_perm hd' hperm hties hx
  · exact hd'.subset_of_perm hd hperm.symm hties' hx

end

/-! ## In the order of the scores -/

def orderedHits (d : List (MemoryHit α)) : List (MemoryHit α) :=
  ((d.map MemoryHit.toScored).insertionSort fun a b => RankLe a.scored b.scored).map ScoredHit.hit

theorem ordered_perm (d : List (MemoryHit α)) : (orderedHits d).Perm d := by
  have hperm := (perm_insertionSort (fun a b => RankLe a.scored b.scored) (d.map toScored)).map
    ScoredHit.hit
  rwa [map_map, show ScoredHit.hit ∘ toScored = (id : MemoryHit α → _) from rfl, map_id] at hperm

theorem ordered_pairwise (d : List (MemoryHit α)) : (orderedHits d).Pairwise MemoryHit.Precedes := by
  have htrans : IsTrans (ScoredHit α) fun a b => RankLe a.scored b.scored := ⟨fun _ _ _ => RankLe.trans⟩
  have htotal : Std.Total fun a b : ScoredHit α => RankLe a.scored b.scored :=
    ⟨fun a b => RankLe.total a.scored b.scored⟩
  have hsorted := pairwise_insertionSort (fun a b : ScoredHit α => RankLe a.scored b.scored)
    (d.map toScored)
  rw [orderedHits, pairwise_map]
  refine hsorted.imp_of_mem fun {a b} ha hb hab => ?_
  obtain ⟨h, -, rfl⟩ := mem_map.mp ((mem_insertionSort _).mp ha)
  obtain ⟨k, -, rfl⟩ := mem_map.mp ((mem_insertionSort _).mp hb)
  exact hab

theorem ordered_eq_of_perm (hd : (d.map memoryId).Nodup) (hperm : d.Perm d') :
    orderedHits d = orderedHits d' := by
  have hperm' := ((ordered_perm d).trans hperm).trans (ordered_perm d').symm
  refine hperm'.eq_of_pairwise (fun a b ha hb hab hba => ?_) (ordered_pairwise d) (ordered_pairwise d')
  have ha := (ordered_perm d).subset ha
  have hb := hperm.symm.subset ((ordered_perm d').subset hb)
  exact inj_on_of_nodup_map hd ha hb (RankLe.memoryId_eq hab hba)

variable [Zero α] [One α]

theorem scoreMemoryHit_eq (hv : h.Valid) : scoreMemoryHit h = .ok h.score := by
  obtain ⟨⟨hs₀, hs₁⟩, hc₀, hc₁⟩ := hv
  rw [scoreMemoryHit, requireUnit_eq hs₀ hs₁, requireUnit_eq hc₀ hc₁]
  rfl

theorem scoreHit_eq (hv : h.Valid) : scoreHit h = .ok h.toScored := by
  rw [scoreHit, scoreMemoryHit_eq hv]
  rfl

theorem mapM_scoreHit_eq (hv : ∀ h ∈ hits, h.Valid) : hits.mapM scoreHit = .ok (hits.map toScored) := by
  induction hits with
  | nil => rfl
  | cons h hits ih =>
    rw [mapM_cons, scoreHit_eq (hv h mem_cons_self), ih fun k hk => hv k (mem_cons_of_mem h hk)]
    rfl

theorem prefer_eq (ha : a.Valid) (hb : b.Valid) : ∃ better, prefer a b = .ok better ∧
    (better = true → AtMost b a) ∧ (better = false → AtMost a b) := by
  rw [prefer, scoreMemoryHit_eq ha, scoreMemoryHit_eq hb]
  by_cases hscore : a.score = b.score
  · refine ⟨decide (a.rank < b.rank), by simp [bind, Except.bind, hscore, pure, Except.pure], fun h => ?_, fun h => ?_⟩
    · exact .inr ⟨hscore.symm, (of_decide_eq_true h).le⟩
    · exact .inr ⟨hscore, not_lt.mp (of_decide_eq_false h)⟩
  · refine ⟨decide (b.score < a.score), by simp [bind, Except.bind, hscore, pure, Except.pure], fun h => ?_, fun h =>
    ?_⟩
    · exact .inl (of_decide_eq_true h)
    · exact .inl (lt_of_le_of_ne (not_lt.mp (of_decide_eq_false h)) hscore)

theorem Merged.step (hm : Merged seen m) (hseen : ∀ k ∈ seen, k.Valid) (hv : h.Valid) :
    ∃ m', mergeHit m h = .ok m' ∧ Merged (seen ++ [h]) m' := by
  unfold mergeHit
  cases hget : Dict.get? memoryId m.best h.memoryId with
  | none => exact ⟨_, rfl, hm.set fun b hb hid => absurd hid (Dict.get?_eq_none.mp hget b hb)⟩
  | some existing =>
    obtain ⟨hmem, hid⟩ := Dict.get?_eq_some hget
    obtain ⟨better, hprefer, hbetter, hworse⟩ := prefer_eq hv (hseen existing (hm.mem existing hmem))
    cases better with
    | true =>
      refine ⟨_, by simp only [hprefer]; rfl, hm.set fun b hb hbid => ?_⟩
      obtain rfl := inj_on_of_nodup_map hm.nodup hb hmem (hbid.trans hid.symm)
      exact hbetter rfl
    | false => exact ⟨_, by simp only [hprefer]; rfl, hm.keep hmem hid (hworse rfl)⟩

theorem exists_merged (hv : ∀ h ∈ hits, h.Valid) :
    ∃ m, hits.foldlM mergeHit ⟨[], fun _ => ∅⟩ = .ok m ∧ Merged hits m := by
  induction hits using List.reverseRecOn with
  | nil => exact ⟨_, rfl, merged_nil⟩
  | append_singleton hits h ih =>
    have hv' : ∀ k ∈ hits, k.Valid := fun k hk => hv k (mem_append_left _ hk)
    obtain ⟨m, hm, hmerged⟩ := ih hv'
    obtain ⟨m', hm', hmerged'⟩ := hmerged.step hv' (hv h (by simp))
    refine ⟨m', ?_, hmerged'⟩
    rw [foldlM_append, hm]
    simp only [foldlM_cons, foldlM_nil, bind, Except.bind, hm', pure, Except.pure]

theorem Deduped.valid (hd : Deduped hits d) (hv : ∀ h ∈ hits, h.Valid) : ∀ x ∈ d, x.Valid := by
  intro x hx
  obtain ⟨b, hb, -, rfl⟩ := hd.copy x hx
  exact (hv b hb).withGroups _

theorem exists_scoreRetrievalHits (hv : ∀ h ∈ hits, h.Valid) : ∃ d, Deduped hits d ∧ scoreRetrievalHits hits =
      .ok ((Apart.keep conflictGroups [] (orderedHits d)).map toScored) := by
  obtain ⟨m, hm, hmerged⟩ := exists_merged hv
  have hd := hmerged.deduped
  refine ⟨_, hd, ?_⟩
  have hdedupe : dedupeHits hits = .ok (m.best.map fun hit => hit.withGroups (m.groups hit.memoryId)) := by
    rw [dedupeHits, hm]
    rfl
  have hkept : ∀ x ∈ Apart.keep conflictGroups []
      (orderedHits (m.best.map fun hit => hit.withGroups (m.groups hit.memoryId))), x.Valid := fun x hx =>
    hd.valid hv x ((ordered_perm _).subset ((Apart.keep_sublist _ _).subset hx))
  rw [scoreRetrievalHits, hdedupe]
  simp only [bind, Except.bind, collapseConflicts, mapM_scoreHit_eq (hd.valid hv), pure, Except.pure, scoreHits]
  exact mapM_scoreHit_eq hkept

end

/-! What `score_retrieval_hits` returns for the hits of both branches, in whatever order they come. -/

open Lib List

variable {α : Type} [LinearOrder α] [Add α] [Mul α] [Zero α] [One α] [OfScientific α] {hits : List (MemoryHit α)}

/-- Each memory is returned at most once; no two returned memories share a group that some copy of them reports; a
memory that is left out shares one with a returned memory before it; and the order of the hits does not matter if copies
that tie are the same up to their groups. -/
theorem conflicts_suppressed (hvalid : ∀ h ∈ hits, h.Valid) : ∃ out, scoreRetrievalHits hits = .ok out ∧
      (out.map fun r => r.hit.memoryId).Nodup ∧
      (∀ r ∈ out, ∀ s ∈ out, r.hit.memoryId ≠ s.hit.memoryId → ∀ h ∈ hits, ∀ k ∈ hits,
        h.memoryId = r.hit.memoryId → k.memoryId = s.hit.memoryId → List.Disjoint h.conflictGroups k.conflictGroups) ∧
      (∀ x ∈ hits, x.memoryId ∉ out.map (fun r => r.hit.memoryId) → ∃ r ∈ out,
        (∀ h ∈ hits, h.memoryId = x.memoryId → r.hit.Precedes h) ∧
          ∃ h ∈ hits, ∃ k ∈ hits, h.memoryId = r.hit.memoryId ∧ k.memoryId = x.memoryId ∧
            ¬ List.Disjoint h.conflictGroups k.conflictGroups) ∧
      ∀ hits' : List (MemoryHit α), hits'.Perm hits → TiesAgree hits → scoreRetrievalHits hits' = .ok out := by
  obtain ⟨d, hd, hout⟩ := exists_scoreRetrievalHits hvalid
  have hsub : (Apart.keep MemoryHit.conflictGroups [] (orderedHits d)).Sublist (orderedHits d) := Apart.keep_sublist ..
  have hmem : ∀ x ∈ Apart.keep MemoryHit.conflictGroups [] (orderedHits d), x ∈ d := fun x hx =>
    (ordered_perm d).subset (hsub.subset hx)
  have hids : ((orderedHits d).map MemoryHit.memoryId).Nodup := ((ordered_perm d).map _).nodup_iff.mpr hd.nodup
  refine ⟨_, hout, ?_, ?_, ?_, ?_⟩
  · rw [map_map]
    exact (hsub.map MemoryHit.memoryId).nodup hids
  · intro r hr s hs hne h hh k hk hhr hks
    obtain ⟨x, hx, rfl⟩ := mem_map.mp hr
    obtain ⟨y, hy, rfl⟩ := mem_map.mp hs
    have hapart := Apart.keep_disjoint hx hy fun heq => hne (by rw [heq])
    exact hd.disjoint_copies (hmem x hx) (hmem y hy) hapart hh hk hhr hks
  · intro x hx hleft
    obtain ⟨y, hy, hid⟩ := hd.mem x hx
    have hdropped : y ∉ Apart.keep MemoryHit.conflictGroups [] (orderedHits d) := fun hkept =>
      hleft (mem_map.mpr ⟨y.toScored, mem_map_of_mem hkept, hid⟩)
    obtain ⟨r, hr, hbefore, hshare⟩ := Apart.exists_of_not_mem_keep (ordered_pairwise d)
      ((ordered_perm d).mem_iff.mpr hy) hdropped (disjoint_nil_left _)
    obtain ⟨h, hh, k, hk, hhr, hky, hgroups⟩ := hd.exists_copies (hmem r hr) hy hshare
    refine ⟨r.toScored, mem_map_of_mem hr, fun h hh hhx => ?_, h, hh, k, hk, hhr, hky.trans hid, hgroups⟩
    exact hd.precedes_copies hy hbefore hh (hhx.trans hid.symm)
  · intro hits' hperm hties
    have hvalid' : ∀ h ∈ hits', h.Valid := fun h hh => hvalid h (hperm.subset hh)
    obtain ⟨d', hd', hout'⟩ := exists_scoreRetrievalHits hvalid'
    rw [hout', ordered_eq_of_perm hd.nodup (hd.perm hd' hperm.symm hties)]

section Example

def sampleHit (id : Text) (similarity : ℚ) (source : Text) (groups : List Text) : MemoryHit ℚ :=
  ⟨id, ['o'], ['a'], ['t'], ['f'], 1, similarity, 0, source, groups⟩

/-- The cold copy of `a` reports a conflict with `b` that the hot copy does not. -/
def sampleHits : List (MemoryHit ℚ) :=
  [sampleHit ['a'] (3 / 4) ['h'] [], sampleHit ['b'] (1 / 2) ['h'] [['g']], sampleHit ['a'] (2 / 3) ['c'] [['g']]]

theorem conflicts_suppressed_sample :
    (scoreRetrievalHits sampleHits).map (List.map fun r => r.hit.memoryId) = .ok [['a']] ∧
      scoreRetrievalHits sampleHits.reverse = scoreRetrievalHits sampleHits := by
  have hvalid : ∀ h ∈ sampleHits, h.Valid := by decide +kernel
  obtain ⟨out, hout, -, -, -, hperm⟩ := conflicts_suppressed hvalid
  refine ⟨by decide +kernel, ?_⟩
  rw [hout]
  exact hperm _ (reverse_perm _) (by unfold TiesAgree; decide +kernel)

end Example

end IbexHarness.Context
