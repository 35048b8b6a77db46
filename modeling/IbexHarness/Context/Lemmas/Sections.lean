import IbexHarness.Context.Lemmas.Wrap
import IbexHarness.Lib.Code
import Mathlib.Data.List.ReduceOption

/-! What the sections of a formatted context cost, and what its delimiters give away. -/

namespace IbexHarness.Context

open Lib Lib.Code List

section

theorem flatMap_filter_perm {β κ : Type*} [DecidableEq κ] (key : β → κ) {ks : List κ} (hks : ks.Nodup) :
    ∀ {l : List β}, (∀ x ∈ l, key x ∈ ks) → (ks.flatMap fun k => l.filter (key · = k)).Perm l := by
  induction ks with
  | nil =>
    intro l hl
    rw [eq_nil_iff_forall_not_mem.2 fun x hx => not_mem_nil (hl x hx)]
    exact .refl _
  | cons k ks ih =>
    intro l hl
    obtain ⟨hk, hks⟩ := nodup_cons.1 hks
    -- the groups of the other keys are those of what is left without the first
    have hrest : (ks.flatMap fun k' => l.filter (key · = k')) =
        ks.flatMap fun k' => (l.filter fun x => !decide (key x = k)).filter (key · = k') := by
      refine flatMap_congr fun k' hk' => ?_
      rw [filter_filter]
      refine filter_congr fun x _ => ?_
      by_cases hx : key x = k'
      · have hne : k' ≠ k := by
          rintro rfl
          exact hk hk'
        simp [hx, hne]
      · simp [hx]
    rw [flatMap_cons, hrest]
    refine .trans (.append_left _ (ih hks fun x hx => ?_)) (filter_append_perm _ l)
    obtain ⟨hx, hne⟩ := mem_filter.1 hx
    exact (mem_cons.1 (hl x hx)).resolve_left (by simpa using hne)

variable {α : Type}

theorem emitOrdered_perm (memories : List (ScoredMemory α)) : (emitOrdered memories).Perm memories := by
  set unknown := ((categoriesOf memories).filter (· ∉ categoryOrder)).insertionSort (· ≤ ·) with hunknown
  have hmem : ∀ c, c ∈ unknown ↔ c ∈ memories.map (·.category) ∧ c ∉ categoryOrder := by
    simp [hunknown, categoriesOf]
  have hnodup : (categoryOrder ++ unknown).Nodup := by
    refine List.Nodup.append (by decide) ?_ fun c hc hc' => ((hmem c).1 hc').2 hc
    exact (perm_insertionSort _ _).nodup_iff.2 ((nodup_dedup _).filter _)
  have hcover : ∀ m ∈ memories, m.category ∈ categoryOrder ++ unknown := by
    intro m hm
    by_cases hc : m.category ∈ categoryOrder
    · exact mem_append_left _ hc
    · exact mem_append_right _ ((hmem _).2 ⟨mem_map_of_mem hm, hc⟩)
  have hsorted : (unknown.flatMap fun c => (groupOf memories c).insertionSort (·.memoryId ≤ ·.memoryId)).Perm
      (unknown.flatMap (groupOf memories)) :=
    List.Perm.flatMap_left _ fun c _ => perm_insertionSort _ _
  have hgroups := flatMap_filter_perm ScoredMemory.category hnodup hcover
  rw [flatMap_append] at hgroups
  exact (hsorted.append_left _).trans hgroups

theorem estimateTokens_formatMemories_le (kind : EstimateKind) (memories : List (ScoredMemory α)) (nonce : Text) :
    kind.estimateTokens ((formatMemories memories nonce).getD []) ≤
      (memories.map fun m => kind.estimateTokens (wrapMemory nonce m)).sum +
        memorySeparatorTokens kind memories.length := by
  unfold formatMemories
  split
  next => simp [EstimateKind.estimateTokens_eq, EstimateKind.ofLength_zero]
  next =>
    have h := kind.estimateTokens_intercalate_le newline ((emitOrdered memories).map (wrapMemory nonce))
    have hperm := emitOrdered_perm memories
    rw [map_map, (hperm.map _).sum_eq, length_map, hperm.length_eq] at h
    exact h

/-! ## Directive, history, tools -/

theorem formatDirective_some {raw nonce : Text} (hraw : (Text.strip raw).isEmpty = false) (h : isUrlSafe nonce = true) :
    formatDirective (some raw) nonce = some (Text.strip raw ++ directiveSafetyOverheadText true nonce) := by
  simp only [formatDirective, hraw, memoryOpenTag_of_urlSafe h, directiveSafetyOverheadText, Bool.false_eq_true,
    if_false, if_true, append_assoc]

theorem length_directiveSafetyOverheadText {nonce nonce' : Text} (hlen : nonce.length = nonce'.length) (b : Bool) :
    (directiveSafetyOverheadText b nonce).length = (directiveSafetyOverheadText b nonce').length := by
  cases b with
  | false => rfl
  | true =>
    -- the fixed texts are kept opaque: only the nonce between them differs
    have happend : ∀ a b c d e x y : Text, x.length = y.length →
        (a ++ b ++ (c ++ x ++ d) ++ e).length = (a ++ b ++ (c ++ y ++ d) ++ e).length := by
      intro a b c d e x y hxy
      simp only [length_append, hxy]
    exact happend _ _ _ _ _ _ _ hlen

theorem length_formatDirective_le (directive : Option Text) {nonce nonce' : Text} (h : isUrlSafe nonce = true)
    (hlen : nonce.length = nonce'.length) :
    ((formatDirective directive nonce).getD []).length ≤ (directive.getD []).length +
      (directiveSafetyOverheadText (!(Text.strip (directive.getD [])).isEmpty) nonce').length := by
  cases directive with
  | none => exact Nat.zero_le _
  | some raw =>
    cases hraw : (Text.strip raw).isEmpty with
    | true => simp [formatDirective, hraw]
    | false =>
      rw [formatDirective_some hraw h, Option.getD_some, Option.getD_some, length_append, hraw,
        length_directiveSafetyOverheadText hlen]
      exact Nat.add_le_add_right (Text.length_stripBy_le _ _) _

theorem isSome_formatDirective (directive : Option Text) (nonce : Text) :
    (formatDirective directive nonce).isSome = !(Text.strip (directive.getD [])).isEmpty := by
  cases directive with
  | none => rfl
  | some raw => cases h : (Text.strip raw).isEmpty <;> simp [formatDirective, h]

theorem length_intercalate_filterMap_le {β : Type*} (f : β → Option Text) (g : β → Text) (l : List β)
    (h : ∀ x y, f x = some y → y.length ≤ (g x).length) :
    (newline.intercalate (l.filterMap f)).length ≤ (newline.intercalate (l.map g)).length := by
  rw [Text.length_intercalate, Text.length_intercalate, length_map]
  have hlen := length_filterMap_le f l
  have hsum : ((l.filterMap f).map List.length).sum ≤ ((l.map g).map List.length).sum := by
    clear hlen
    induction l with
    | nil => exact Nat.le_refl _
    | cons x l ih =>
      cases hx : f x with
      | none =>
        rw [filterMap_cons_none hx]
        exact ih.trans (by simp)
      | some y =>
        rw [filterMap_cons_some hx]
        simpa using Nat.add_le_add (h x y hx) ih
  exact Nat.add_le_add hsum (Nat.mul_le_mul_left _ (by omega))

theorem length_formatHistory_le (messages : List Message) :
    ((formatHistory messages).getD []).length ≤ (concatMessages messages).length := by
  have hlines : (newline.intercalate (messages.filterMap historyLine)).length ≤ (concatMessages messages).length := by
    refine length_intercalate_filterMap_le _ _ _ fun msg line hline => ?_
    simp only [historyLine, Option.ite_none_left_eq_some, Option.some.injEq] at hline
    rw [← hline.2]
    have := Text.length_stripBy_le Text.isPythonSpace msg.role
    simp only [messageLine, length_append, Text.strip]
    omega
  unfold formatHistory
  dsimp only
  split
  · exact Nat.zero_le _
  · exact hlines

theorem isSome_formatHistory {messages : List Message} (h : (formatHistory messages).isSome = true) :
    messages.isEmpty = false := by
  cases messages with
  | nil => exact h.symm
  | cons => rfl

theorem length_formatTools (toolSchemas : List Text) :
    ((formatTools toolSchemas).getD []).length = (formatToolsText toolSchemas).length := by
  unfold formatTools formatToolsText
  dsimp only
  split
  next h => rw [isEmpty_iff.1 h]; rfl
  next => rfl

theorem isSome_formatTools {toolSchemas : List Text} (h : (formatTools toolSchemas).isSome = true) :
    (formatToolsText toolSchemas).isEmpty = false := by
  unfold formatTools at h
  unfold formatToolsText
  dsimp only at h
  cases hlines : toolLines toolSchemas with
  | nil => simp [hlines] at h
  | cons s lines =>
    have hs : (Text.strip s).isEmpty = false := by
      have hmem : s ∈ toolLines toolSchemas := by simp [hlines]
      simpa using (mem_filter.1 hmem).2
    cases s with
    | nil => cases hs
    | cons c s => cases lines <;> rfl

/-! ## The whole text -/

theorem length_intercalate_reduceOption (sep : Text) (sections : List (Option Text)) :
    (sep.intercalate sections.reduceOption).length = (sections.map fun s => (s.getD []).length).sum +
      sep.length * (sections.countP Option.isSome - 1) := by
  have hsum : (sections.reduceOption.map List.length).sum = (sections.map fun s => (s.getD []).length).sum := by
    induction sections with
    | nil => rfl
    | cons s sections ih => cases s <;> simp [ih]
  rw [Text.length_intercalate, hsum, reduceOption_length_eq, countP_eq_length_filter]

theorem length_formatterFixedOverheadText (hasDirective hasMessages hasTools : Bool) (nonce : Text) :
    (formatterFixedOverheadText hasDirective hasMessages hasTools nonce).length =
      (directiveSafetyOverheadText hasDirective nonce).length +
        min maxSectionJoins (([hasDirective, hasMessages, true, hasTools].filter id).length - 1) * 2 := by
  rw [formatterFixedOverheadText, length_append, length_flatten, map_replicate, sum_replicate_nat]
  rfl

theorem add_sections_le {d h m t d' h' t' safety joins joins' : Nat} (hd : d ≤ d' + safety) (hh : h ≤ h') (ht : t = t')
    (hj : joins ≤ joins') :
    d + (h + (m + (t + 0))) + 2 * joins ≤ d' + h' + t' + (safety + joins' * 2) + m := by
  omega

theorem countP_sections_le {d h m t : Option Text} {hasDirective hasMessages hasTools : Bool}
    (hd : d.isSome = true → hasDirective = true) (hh : h.isSome = true → hasMessages = true)
    (ht : t.isSome = true → hasTools = true) :
    [d, h, m, t].countP Option.isSome - 1 ≤
      min maxSectionJoins (([hasDirective, hasMessages, true, hasTools].filter id).length - 1) := by
  simp only [countP_cons, countP_nil]
  generalize d.isSome = d at *
  generalize h.isSome = h at *
  generalize m.isSome = m
  generalize t.isSome = t at *
  revert d h m t hasDirective hasMessages hasTools
  decide

theorem length_assembled_le (r : BudgetRequest) {directive : Option Text} (hdir : r.directive = directive.getD [])
    {nonce : Text} (h : isUrlSafe nonce = true) (hlen : nonce.length = (representativeNonce r.nonceBytes).length)
    (memories : Option Text) :
    ((newline ++ newline).intercalate [formatDirective directive nonce, formatHistory r.messages, memories,
        formatTools r.toolSchemas].reduceOption).length ≤
      r.directive.length + (concatMessages r.messages).length + (formatToolsText r.toolSchemas).length +
        r.overheadText.length + (memories.getD []).length := by
  have hd := length_formatDirective_le directive h hlen
  have hh := length_formatHistory_le r.messages
  have ht := length_formatTools r.toolSchemas
  have hjoins := countP_sections_le (h := formatHistory r.messages) (m := memories) (t := formatTools r.toolSchemas)
    (fun hs => (isSome_formatDirective directive nonce).symm.trans hs)
    (fun hs => congrArg not (isSome_formatHistory hs)) (fun hs => congrArg not (isSome_formatTools hs))
  rw [← hdir] at hd hjoins
  rw [length_intercalate_reduceOption, BudgetRequest.overheadText, length_formatterFixedOverheadText]
  exact add_sections_le hd hh ht hjoins

end

section

theorem escapeChar_delimited (quote : Bool) : Delimited (escapeChar quote) := by
  intro c d s t _ _ h
  unfold escapeChar at h
  split_ifs at h <;> simp_all
  -- an entity against a character that is kept
  all_goals exact absurd h.1.symm ‹¬ d = '&'›

theorem not_mem_escapeChar_lt (quote : Bool) (c : Char) : '<' ∉ escapeChar quote c := by
  unfold escapeChar
  split_ifs with _ hlt
  case neg => simpa using Ne.symm hlt
  all_goals decide

theorem escapeAttr_readable : Readable escapeAttr (StartsWith '\x22') := by
  refine (escapeChar_delimited true).flatMap fun c s => ?_
  unfold escapeChar
  split_ifs <;> simp_all

theorem escapeText_readable : Readable escapeText (StartsWith '<') := by
  refine (escapeChar_delimited false).flatMap fun c s => ?_
  unfold escapeChar
  split_ifs <;> simp_all

theorem count_escape (quote : Bool) (value : Text) : (value.flatMap (escapeChar quote)).count '<' = 0 := by
  refine count_eq_zero.mpr fun hmem => ?_
  obtain ⟨c, -, hc⟩ := mem_flatMap.mp hmem
  exact not_mem_escapeChar_lt quote c hc

theorem tagAttribute_delimited (name : Text) : Delimited (tagAttribute name) := by
  have h : Delimited fun value => ([' '] ++ name ++ ['=', '\x22']) ++ escapeAttr value ++ ['\x22'] :=
    escapeAttr_readable.between _ _ fun s _ => by simp
  exact h

/-- The end of the body is the line break before the first delimiter in it. -/
def blockBody (content : Text) : Text := ['>'] ++ newline ++ escapeText (content ++ newline) ++ memoryClose

theorem blockBody_delimited : Delimited blockBody := by
  have hbody : Readable (fun content => escapeText (content ++ newline)) (StartsWith '<') :=
    escapeText_readable.comp (append_left_injective newline)
  have hclose : memoryClose = '<' :: "/ibex_memory>".toList := by decide
  exact hbody.between (['>'] ++ newline) memoryClose fun s _ => by simp [hclose]

theorem serializeMemoryElement_eq (nonce memoryId category content : Text) :
    serializeMemoryElement nonce memoryId category content =
      ['<'] ++ memoryTag ++ tagAttribute "nonce".toList nonce ++
        (tagAttribute "id".toList memoryId ++ (tagAttribute "category".toList category ++ blockBody content)) := by
  have hline : escapeText newline = newline := by decide
  have hbody : escapeText (content ++ newline) = escapeText content ++ newline := by
    rw [escapeText, flatMap_append]
    exact congrArg _ hline
  simp [serializeMemoryElement, memoryOpenTag, blockBody, hbody]

def emitted {α : Type} (m : ScoredMemory α) : Text × Text × Text := (m.memoryId, m.category, m.content)

def serializeTriple (nonce : Text) (m : Text × Text × Text) : Text :=
  serializeMemoryElement nonce m.1 m.2.1 m.2.2

theorem serializeTriple_delimited (nonce : Text) : Delimited (serializeTriple nonce) := by
  have hparts := (tagAttribute_delimited "id".toList).append
    ((tagAttribute_delimited "category".toList).append blockBody_delimited fun _ _ _ => trivial)
    fun _ _ _ => trivial
  intro a b s t hs ht hab
  simp only [serializeTriple, serializeMemoryElement_eq, append_assoc] at hab
  refine hparts a b s t hs ht ?_
  simpa only [append_assoc, append_cancel_left_eq] using hab

theorem count_tagAttribute (name value : Text) : (tagAttribute name value).count '<' = name.count '<' := by
  have hfixed : [' '].count '<' + 0 + ['=', '\x22'].count '<' + ['\x22'].count '<' = 0 := by decide
  simp only [tagAttribute, count_append, escapeAttr, count_escape]
  omega

theorem count_wrapMemory {α : Type} (nonce : Text) (m : ScoredMemory α) : (wrapMemory nonce m).count '<' = 2 := by
  have hbody : (blockBody m.content).count '<' = 1 := by
    simp only [blockBody, count_append, escapeText, count_escape]
    decide
  have hnames : "nonce".toList.count '<' + "id".toList.count '<' + "category".toList.count '<' = 0 := by decide
  have hopen : ['<'].count '<' + memoryTag.count '<' = 1 := by decide
  simp only [wrapMemory, serializeMemoryElement_eq, count_append, hbody, count_tagAttribute]
  omega

variable {α : Type}

variable {memories : List (ScoredMemory α)}

theorem map_wrapMemory (nonce : Text) (memories : List (ScoredMemory α)) :
    memories.map (wrapMemory nonce) = (memories.map emitted).map (serializeTriple nonce) := by
  rw [map_map]
  rfl

theorem serializeTriple_ne_nil (nonce : Text) (m : Text × Text × Text) : serializeTriple nonce m ≠ [] := by
  simp [serializeTriple, serializeMemoryElement_eq]

theorem count_intercalate_newline (parts : List Text) :
    (newline.intercalate parts).count '<' = (parts.map (List.count '<')).sum := by
  cases parts with
  | nil => rfl
  | cons part parts =>
    have hline : newline.count '<' = 0 := by decide
    rw [intercalate_cons, count_append, count_flatMap]
    simp [Function.comp_def, count_append, hline]

/-- The place of a category in the order of emission; the unknown ones come last. -/
def categoryRank (category : Text) : Nat := categoryOrder.idxOf category

theorem category_of_mem_groupOf {c : Text} {m : ScoredMemory α}
    (hm : m ∈ groupOf memories c) : m.category = c := by
  simpa using (mem_filter.mp hm).2

theorem categoryRank_of_unknown {m : ScoredMemory α}
    (hm : m ∈ (((categoriesOf memories).filter (· ∉ categoryOrder)).insertionSort (· ≤ ·)).flatMap
      fun c => (groupOf memories c).insertionSort (·.memoryId ≤ ·.memoryId)) :
    categoryRank m.category = categoryOrder.length := by
  obtain ⟨c, hc, hm⟩ := mem_flatMap.mp hm
  have hunknown : c ∉ categoryOrder := by
    simpa using (mem_filter.mp ((mem_insertionSort _).mp hc)).2
  rw [category_of_mem_groupOf ((mem_insertionSort _).mp hm)]
  exact idxOf_eq_length hunknown

theorem emitOrdered_pairwise_rank (memories : List (ScoredMemory α)) :
    (emitOrdered memories).Pairwise fun m m' => categoryRank m.category ≤ categoryRank m'.category := by
  unfold emitOrdered
  refine pairwise_append.mpr ⟨?_, ?_, ?_⟩
  · refine pairwise_flatMap.mpr ⟨fun c _ => ?_, ?_⟩
    · refine pairwise_of_forall_mem_list fun m hm m' hm' => ?_
      rw [category_of_mem_groupOf hm, category_of_mem_groupOf hm']
    · have horder : categoryOrder.Pairwise fun c c' => categoryRank c ≤ categoryRank c' := by decide
      refine horder.imp fun hcc' m hm m' hm' => ?_
      rwa [category_of_mem_groupOf hm, category_of_mem_groupOf hm']
  · refine pairwise_of_forall_mem_list fun m hm m' hm' => ?_
    rw [categoryRank_of_unknown hm, categoryRank_of_unknown hm']
  · intro m _ m' hm'
    rw [categoryRank_of_unknown hm']
    exact idxOf_le_length

theorem formatMemories_of_ne_nil (h : memories ≠ []) (nonce : Text) :
    formatMemories memories nonce = some (newline.intercalate ((emitOrdered memories).map (wrapMemory nonce))) := by
  rw [formatMemories, if_neg (by simpa using h)]

theorem sum_count_wrapMemory (nonce : Text) (memories : List (ScoredMemory α)) :
    ((memories.map (wrapMemory nonce)).map (List.count '<')).sum = 2 * memories.length := by
  induction memories with
  | nil => rfl
  | cons m memories ih =>
    rw [map_cons, map_cons, sum_cons, ih, count_wrapMemory, length_cons]
    omega

theorem count_memorySection (memories : List (ScoredMemory α)) (nonce : Text) :
    (newline.intercalate ((emitOrdered memories).map (wrapMemory nonce))).count '<' = 2 * memories.length := by
  rw [count_intercalate_newline, sum_count_wrapMemory, (emitOrdered_perm memories).length_eq]

theorem emitted_of_formatMemories_eq {memories' : List (ScoredMemory α)} {nonce : Text}
    (h : formatMemories memories nonce = formatMemories memories' nonce) :
    (emitOrdered memories).map emitted = (emitOrdered memories').map emitted := by
  by_cases hm : memories = []
  · subst hm
    by_cases hm' : memories' = []
    · rw [hm']
    · rw [formatMemories_of_ne_nil hm'] at h
      cases h
  · by_cases hm' : memories' = []
    · subst hm'
      rw [formatMemories_of_ne_nil hm] at h
      cases h
    · rw [formatMemories_of_ne_nil hm, formatMemories_of_ne_nil hm', Option.some.injEq,
        map_wrapMemory, map_wrapMemory] at h
      exact intercalate_injective (serializeTriple_delimited nonce) (by decide) (serializeTriple_ne_nil nonce) h

end

end IbexHarness.Context
