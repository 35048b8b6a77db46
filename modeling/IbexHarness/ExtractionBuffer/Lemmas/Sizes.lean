import IbexHarness.ExtractionBuffer.Buffer
import Mathlib.Algebra.Order.BigOperators.Group.List

/-! The stored text reads back. -/

namespace IbexHarness.ExtractionBuffer

open Lib List Text Json Turn

section

variable {t : Turn} {turns : List Turn}

structure Turn.Clean (t : Turn) : Prop where
  index : 0 ≤ t.turnIndex
  role : t.role ≠ [] ∧ t.role.length ≤ maxRoleLen
  content : t.content ≠ [] ∧ t.content.length ≤ maxContentLen

theorem clean_of_sanitizeOne {t' : Turn} (h : sanitizeOne t = some t') : t'.Clean := by
  obtain ⟨hok, rfl⟩ := of_ite_some h
  simp only [turnFieldsOK, Bool.and_eq_true, decide_eq_true_eq, ne_eq] at hok
  exact ⟨hok.2, ⟨hok.1.1, length_take_le _ _⟩, ⟨hok.1.2, length_take_le _ _⟩⟩

theorem clean_of_mem_sanitizeTurns (h : t ∈ sanitizeTurns turns) : t.Clean := by
  obtain ⟨t', -, ht⟩ := mem_filterMap.mp h
  exact clean_of_sanitizeOne ht

theorem signed_index (h : t.Clean) : Digits.signed 0 t.turnIndex = Nat.toDigits 10 t.turnIndex.toNat := by
  rw [← Digits.signed_natCast, Int.toNat_of_nonneg h.index]

theorem decodeInt_toDigits (n : Nat) : decodeInt (Nat.toDigits 10 n) = some (n : Int) := by
  unfold decodeInt
  split
  case h_1 ds hds => exact absurd (by simpa using hds) (toDigits_ne_minus (n := n) (s := []) (t := ds))
  case h_2 => rw [natural_toDigits, Option.map_some, Int.ofNat_eq_natCast]

theorem decodeTurn_json (h : t.Clean) : decodeTurn t.json = some t := by
  have hindex : decodeInt (Digits.signed 0 t.turnIndex) = some t.turnIndex := by
    rw [signed_index h, decodeInt_toDigits, Int.toNat_of_nonneg h.index]
  have hrole : ([("turn_index".toList, num (Digits.signed 0 t.turnIndex)), ("role".toList, .str t.role),
      ("content".toList, .str t.content)]).lookup "role".toList = some (.str t.role) := rfl
  have hcontent : ([("turn_index".toList, num (Digits.signed 0 t.turnIndex)), ("role".toList, .str t.role),
      ("content".toList, .str t.content)]).lookup "content".toList = some (.str t.content) := rfl
  simp only [json, decodeTurn, lookup_cons_self, hrole, hcontent, hindex, Option.bind_eq_bind, Option.bind_some]

theorem scans_json (h : t.Clean) : Json.Numbers Json.Scans t.json := by
  refine ⟨?_, trivial, trivial, trivial⟩
  show Json.Scans (Digits.signed 0 t.turnIndex)
  rw [signed_index h]
  exact scans_toDigits _

theorem distinctKeys_json (t : Turn) : Json.DistinctKeys t.json :=
  ⟨by simp, trivial, trivial, trivial, trivial⟩

theorem numbersElems_json (h : ∀ t ∈ turns, t.Clean) : Json.NumbersElems Json.Scans (turns.map json) := by
  refine numbersElems_iff.mpr fun v hv => ?_
  obtain ⟨t, ht, rfl⟩ := mem_map.mp hv
  exact scans_json (h t ht)

theorem distinctKeysElems_json (turns : List Turn) : Json.DistinctKeysElems (turns.map json) := by
  induction turns with
  | nil => trivial
  | cons t turns ih => exact ⟨distinctKeys_json t, ih⟩

theorem depthElems_json_le (turns : List Turn) : depthElems (turns.map json) ≤ 1 := by
  induction turns with
  | nil => exact Nat.zero_le _
  | cons t turns ih => exact Nat.max_le.mpr ⟨Nat.le_refl 1, ih⟩

theorem mapM_decodeTurn (h : ∀ t ∈ turns, t.Clean) : (turns.map json).mapM decodeTurn = some turns := by
  induction turns with
  | nil => rfl
  | cons t turns ih =>
    rw [map_cons, mapM_cons, decodeTurn_json (h t mem_cons_self), ih fun t ht => h t (mem_cons_of_mem _ ht)]
    rfl

theorem decodeTurns_marshal (h : ∀ t ∈ turns, t.Clean) : decodeTurns (marshal turns) = some turns := by
  have hdepth : depth (.arr (turns.map json)) ≤ maxDepth :=
    Nat.le_trans (Nat.succ_le_succ (depthElems_json_le turns)) (by decide)
  have hparse := marshal_writes.reads (.arr (turns.map json)) (numbersElems_json h)
    (distinctKeysElems_json turns) maxDepth hdepth [] nofun
  rw [append_nil] at hparse
  rw [decodeTurns, marshal, hparse]
  simp [Json.skipSpace, mapM_decodeTurn h]

theorem marshal_ne_nil (turns : List Turn) : marshal turns ≠ [] := by
  simp [marshal, Json.marshal]

theorem marshal_injective {turns' : List Turn} (h : ∀ t ∈ turns, t.Clean) (h' : ∀ t ∈ turns', t.Clean)
    (heq : marshal turns = marshal turns') : turns = turns' := by
  have hread := decodeTurns_marshal h
  rw [heq, decodeTurns_marshal h'] at hread
  exact (Option.some.inj hread).symm

theorem tryAppendTurn_eq_some {merged next : List Turn} (h : tryAppendTurn merged t = some next) :
    next = merged ++ [t] ∧ next.length ≤ maxTurnsPerBatch ∧ serializedBytes next ≤ maxBatchContentBytes := by
  obtain ⟨hturns, h⟩ := Option.ite_none_left_eq_some.mp h
  obtain ⟨hbytes, rfl⟩ := of_ite_none h
  refine ⟨rfl, ?_, Nat.le_of_not_lt hbytes⟩
  rw [length_append, length_singleton]
  omega

structure Fits (l : List Turn) : Prop where
  turns : l.length ≤ maxTurnsPerBatch
  bytes : serializedBytes l ≤ maxBatchContentBytes

theorem Fits.mergeTurns {merged : List Turn} (h : Fits merged) (add : List Turn) : Fits (mergeTurns merged add).1 := by
  induction add generalizing merged with
  | nil => exact h
  | cons t add ih =>
    unfold ExtractionBuffer.mergeTurns
    cases hnext : tryAppendTurn merged t with
    | none => exact h
    | some next =>
      obtain ⟨-, hturns, hbytes⟩ := tryAppendTurn_eq_some hnext
      exact ih ⟨hturns, hbytes⟩

theorem mergeTurns_eq (merged add : List Turn) : ∃ added, (mergeTurns merged add).1 = merged ++ added ∧ added <+: add ∧
    ((mergeTurns merged add).2 = false → added = add) := by
  induction add generalizing merged with
  | nil => exact ⟨[], (append_nil _).symm, prefix_rfl, fun _ => rfl⟩
  | cons t add ih =>
    unfold mergeTurns
    cases hnext : tryAppendTurn merged t with
    | none => exact ⟨[], (append_nil _).symm, nil_prefix, nofun⟩
    | some next =>
      obtain ⟨rfl, -⟩ := tryAppendTurn_eq_some hnext
      obtain ⟨added, hmerged, hle, hall⟩ := ih (merged ++ [t])
      refine ⟨t :: added, ?_, cons_prefix_cons.mpr ⟨rfl, hle⟩, fun hcap => ?_⟩
      · rw [hmerged, append_assoc, singleton_append]
      · rw [hall hcap]

end

section

variable {t : Turn} {turns : List Turn}

theorem byteLength_flatMap (f : Char → Text) (s : Text) :
    Text.byteLength (s.flatMap f) = (s.map fun c => Text.byteLength (f c)).sum := by
  induction s with
  | nil => rfl
  | cons c s ih => rw [flatMap_cons, byteLength_append, ih, map_cons, sum_cons]

theorem byteLength_digits (n : Nat) : Text.byteLength (Nat.toDigits 10 n) = (Nat.toDigits 10 n).length := by
  refine byteLength_of_isAscii (all_eq_true.mpr fun c hc => ?_)
  have hdigit := isDigit_of_mem_toDigits hc
  simp only [Char.isDigit, Bool.and_eq_true, decide_eq_true_eq] at hdigit
  have hle : c.toNat ≤ 57 := UInt32.le_iff_toNat_le.mp hdigit.2
  exact decide_eq_true (by omega)

theorem byteLength_escapeChar (c : Char) : Text.byteLength (Context.escapeChar true c) = htmlWidth c := by
  unfold Context.escapeChar htmlWidth
  split_ifs <;> simp_all
  all_goals rfl

theorem byteLength_escapeAttr (s : Text) : Text.byteLength (Context.escapeAttr s) = (s.map htmlWidth).sum := by
  rw [Context.escapeAttr, byteLength_flatMap]
  simp only [byteLength_escapeChar]

theorem byteLength_formatTurn (t : Extraction.Turn) : Text.byteLength (Extraction.formatTurn t) =
    32 + (Nat.toDigits 10 t.turnIndex).length + (t.role.map htmlWidth).sum + (t.content.map htmlWidth).sum := by
  have hrepr : (Nat.repr t.turnIndex).toList = Nat.toDigits 10 t.turnIndex := by simp [Nat.repr]
  have h₁ : byteLength "<turn index=\"".toList = 13 := rfl
  have h₂ : byteLength "\" role=\"".toList = 8 := rfl
  have h₃ : byteLength "\">\n".toList = 3 := rfl
  have h₄ : byteLength "\n</turn>".toList = 8 := rfl
  unfold Extraction.formatTurn
  rw [byteLength_append, byteLength_append, byteLength_append, byteLength_append,
    byteLength_append, byteLength_append, hrepr, byteLength_digits, byteLength_escapeAttr,
    byteLength_escapeAttr, h₁, h₂, h₃, h₄]
  omega

theorem byteLength_formatBatchUserContent (turns : List Turn) :
    Text.byteLength (Extraction.formatBatchUserContent (turns.map payload)) = htmlBytes turns := by
  have hbreak : byteLength ['\n'] = 1 := rfl
  have hsum : ((turns.map payload).map fun t => byteLength (Extraction.formatTurn t)).sum =
      (turns.map Turn.htmlBytes).sum := by
    rw [map_map]
    refine congrArg List.sum (map_congr_left fun t _ => ?_)
    rw [Function.comp_apply, byteLength_formatTurn]
    rfl
  rw [Extraction.formatBatchUserContent, byteLength_intercalate, map_map, length_map,
    length_map, htmlBytes, hbreak, Nat.one_mul, ← hsum]
  rfl

def jsonWidth (c : Char) : Nat := Text.byteLength (Json.goEscape c)

def Turn.jsonBytes (t : Turn) : Nat :=
  38 + (Nat.toDigits 10 t.turnIndex.toNat).length + (t.role.map jsonWidth).sum + (t.content.map jsonWidth).sum

theorem byteLength_goQuote (s : Text) : Text.byteLength (goQuote s) = (s.map jsonWidth).sum + 2 := by
  have hquote : byteLength ['\x22'] = 1 := rfl
  have hsum : (s.map fun c => byteLength (goEscape c)).sum = (s.map jsonWidth).sum := rfl
  rw [goQuote, byteLength_append, byteLength_append, byteLength_flatMap, hquote, hsum]
  omega

theorem byteLength_marshal_json (h : t.Clean) : Text.byteLength (Json.marshal t.json) = t.jsonBytes := by
  have h₁ : byteLength (goQuote "turn_index".toList) = 12 := rfl
  have h₂ : byteLength (goQuote "role".toList) = 6 := rfl
  have h₃ : byteLength (goQuote "content".toList) = 9 := rfl
  have hone : ∀ c : Char, c.utf8Size = 1 → byteLength [c] = 1 := by simp [byteLength]
  unfold json
  rw [Json.marshal, Json.marshalFields_eq_map, byteLength_append, byteLength_append, byteLength_intercalate]
  simp only [map_cons, map_nil, sum_cons, sum_nil, length_cons, length_nil, marshalField,
    Json.marshal, byteLength_append, h₁, h₂, h₃, hone ':' rfl, hone ',' rfl, hone '\x7b' rfl, hone '\x7d' rfl,
    byteLength_goQuote, signed_index h, byteLength_digits, jsonBytes]
  omega

theorem serializedBytes_eq (h : ∀ t ∈ turns, t.Clean) :
    serializedBytes turns = (turns.map jsonBytes).sum + (turns.length - 1) + 2 := by
  have hone : ∀ c : Char, c.utf8Size = 1 → byteLength [c] = 1 := by simp [byteLength]
  have hsum : (turns.map fun t => byteLength (Json.marshal t.json)).sum = (turns.map jsonBytes).sum :=
    congrArg List.sum (map_congr_left fun t ht => byteLength_marshal_json (h t ht))
  rw [serializedBytes, marshal, Json.marshal, Json.marshalElems_eq_map, byteLength_append, byteLength_append,
    byteLength_intercalate, map_map, map_map, length_map, length_map, hone ',' rfl,
    hone '[' rfl, hone ']' rfl, Nat.one_mul]
  simp only [Function.comp_def, hsum]
  omega

/-- How many turns there are, and their sizes as JSON and as the worker tags them. -/
structure Load where
  turns : Nat
  json : Nat
  html : Nat

/-- A call's turns add to it up to the first that is one too many or whose JSON is too long. -/
def Load.add (l : Load) : List Turn → Load
  | [] => l
  | t :: turns =>
    if maxTurnsPerBatch ≤ l.turns ∨ maxBatchContentBytes < l.json + t.jsonBytes + l.turns + 2 then l
    else add ⟨l.turns + 1, l.json + t.jsonBytes, l.html + t.htmlBytes⟩ turns

def load (appends : List (List Turn)) : Load := appends.foldl (fun l turns => l.add (sanitizeTurns turns)) ⟨0, 0, 0⟩

def loadOf (turns : List Turn) : Load := ⟨turns.length, (turns.map jsonBytes).sum, (turns.map Turn.htmlBytes).sum⟩

theorem loadOf_mergeTurns {add merged : List Turn} (hmerged : ∀ t ∈ merged, t.Clean) (hadd : ∀ t ∈ add, t.Clean) :
    loadOf (mergeTurns merged add).1 = (loadOf merged).add add := by
  induction add generalizing merged with
  | nil => rfl
  | cons t add ih =>
    have hnext : ∀ u ∈ merged ++ [t], u.Clean := by
      simpa [or_imp, forall_and] using ⟨hmerged, hadd t mem_cons_self⟩
    have hbytes : serializedBytes (merged ++ [t]) = (loadOf merged).json + t.jsonBytes + (loadOf merged).turns + 2 := by
      simp [serializedBytes_eq hnext, loadOf]
    have hload : loadOf (merged ++ [t]) =
        ⟨(loadOf merged).turns + 1, (loadOf merged).json + t.jsonBytes, (loadOf merged).html + t.htmlBytes⟩ := by
      simp [loadOf]
    rw [mergeTurns, tryAppendTurn, Load.add, ← hbytes, ← hload]
    by_cases hturns : maxTurnsPerBatch ≤ merged.length
    · rw [if_pos hturns, if_pos (.inl hturns)]
    · by_cases hlong : maxBatchContentBytes < serializedBytes (merged ++ [t])
      · rw [if_neg hturns, if_pos hlong, if_pos (.inr hlong)]
      · have hnot : ¬(maxTurnsPerBatch ≤ (loadOf merged).turns ∨ maxBatchContentBytes <
          serializedBytes (merged ++ [t])) := not_or.mpr ⟨hturns, hlong⟩
        rw [if_neg hturns, if_neg hlong, if_neg hnot]
        exact ih hnext fun u hu => hadd u (mem_cons_of_mem _ hu)

/-! ## Appends one after the other -/

theorem sanitizeTurns_index (turns : List Turn) :
    ((sanitizeTurns turns).map turnIndex).Sublist (turns.map turnIndex) := by
  induction turns with
  | nil => exact .slnil
  | cons t turns ih =>
    cases hone : sanitizeOne t with
    | none =>
      rw [sanitizeTurns, filterMap_cons_none hone]
      exact ih.cons _
    | some t' =>
      obtain ⟨-, heq⟩ := Option.ite_none_right_eq_some.mp hone
      rw [sanitizeTurns, filterMap_cons_some hone, ← Option.some.inj heq]
      exact ih.cons_cons _

theorem appendAll_concat (appends : List (List Turn)) (turns : List Turn) :
    appendAll (appends ++ [turns]) = (mergeTurns (appendAll appends) (sanitizeTurns turns)).1 := by
  rw [appendAll, foldl_append]
  rfl

theorem appendAll_spec (appends : List (List Turn)) : Fits (appendAll appends) ∧ (∀ t ∈ appendAll appends, t.Clean) ∧
    (appendAll appends).Sublist (appends.flatMap sanitizeTurns) := by
  induction appends using List.reverseRecOn with
  | nil => exact ⟨⟨by decide, by decide⟩, nofun, .slnil⟩
  | append_singleton appends turns ih =>
    obtain ⟨hfits, hclean, hsub⟩ := ih
    obtain ⟨added, hmerged, hle, -⟩ := mergeTurns_eq (appendAll appends) (sanitizeTurns turns)
    have heq := appendAll_concat appends turns
    refine ⟨heq ▸ hfits.mergeTurns _, fun t ht => ?_, ?_⟩
    · rw [heq, hmerged] at ht
      rcases mem_append.mp ht with ht | ht
      · exact hclean t ht
      · exact clean_of_mem_sanitizeTurns (hle.subset ht)
    · rw [heq, hmerged, flatMap_append, flatMap_singleton]
      exact hsub.append hle.sublist

theorem load_eq (appends : List (List Turn)) : load appends = loadOf (appendAll appends) := by
  induction appends using List.reverseRecOn with
  | nil => rfl
  | append_singleton appends turns ih =>
    have hclean := (appendAll_spec appends).2.1
    rw [appendAll_concat, loadOf_mergeTurns hclean fun t => clean_of_mem_sanitizeTurns, ← ih, load, foldl_append]
    rfl

theorem nodup_appendAll {appends : List (List Turn)} (h : (appends.flatten.map turnIndex).Nodup) :
    ((appendAll appends).map turnIndex).Nodup := by
  refine h.sublist (((appendAll_spec appends).2.2.map turnIndex).trans ?_)
  induction appends with
  | nil => exact .slnil
  | cons turns appends ih =>
    rw [flatMap_cons, map_append, flatten_cons, map_append]
    refine (sanitizeTurns_index turns).append (ih (h.sublist ?_))
    rw [flatten_cons, map_append]
    exact sublist_append_right _ _

theorem parseTurns_iff (hfits : Fits turns) (hclean : ∀ t ∈ turns, t.Clean) (hnodup : (turns.map turnIndex).Nodup) :
    parseTurns turns = true ↔ htmlBytes turns ≤ maxBatchContentBytes := by
  have hindex : (turns.all fun t => decide (0 ≤ t.turnIndex)) = true :=
    all_eq_true.mpr fun t ht => decide_eq_true (hclean t ht).index
  have hcount : (turns.map payload).length ≤ Extraction.maxTurnsPerBatch := by
    rw [length_map]
    exact hfits.turns
  have hvalid : (turns.map payload).all Extraction.Turn.valid = true := by
    refine all_eq_true.mpr fun p hp => ?_
    obtain ⟨t, ht, rfl⟩ := mem_map.mp hp
    have hrole := length_pos_iff.mpr (hclean t ht).role.1
    have hcontent := length_pos_iff.mpr (hclean t ht).content.1
    simp only [Extraction.Turn.valid, payload, Bool.and_eq_true]
    exact ⟨⟨⟨decide_eq_true hrole, decide_eq_true (hclean t ht).role.2⟩, decide_eq_true hcontent⟩,
      decide_eq_true (hclean t ht).content.2⟩
  have hdistinct : ((turns.map payload).map Extraction.Turn.turnIndex).Nodup := by
    have hmap : (turns.map payload).map Extraction.Turn.turnIndex = (turns.map turnIndex).map Int.toNat := by
      rw [map_map, map_map]
      rfl
    rw [hmap]
    refine hnodup.map_on fun x hx y hy heq => ?_
    obtain ⟨t, ht, rfl⟩ := mem_map.mp hx
    obtain ⟨u, hu, rfl⟩ := mem_map.mp hy
    have hpos := (hclean t ht).index
    have hpos' := (hclean u hu).index
    omega
  simp only [parseTurns, Extraction.acceptsTurns, hindex, hcount, hvalid, hdistinct, decide_true, Bool.true_and,
    byteLength_formatBatchUserContent, decide_eq_true_eq]
  rfl

end

end IbexHarness.ExtractionBuffer
