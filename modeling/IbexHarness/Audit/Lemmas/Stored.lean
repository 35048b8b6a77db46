import IbexHarness.Audit.Ledger
import IbexHarness.Audit.Lemmas.Writer
import IbexHarness.Lib.Machine

/-! The canonical text determines every hashed field of a row, and along a chain that verifies each row hash
determines the row before it. -/

namespace IbexHarness.Audit

open Lib List Digits Json

section

theorem groups_append (h : Text) :
    h.take 8 ++ ((h.drop 8).take 4 ++ ((h.drop 12).take 4 ++ ((h.drop 16).take 4 ++ h.drop 20))) = h := by
  have hcut (n : Nat) : (h.drop n).take 4 ++ h.drop (n + 4) = h.drop n := by
    rw [← drop_drop, take_append_drop]
  rw [hcut 16, hcut 12, hcut 8, take_append_drop]

theorem uuidString_injective : Function.Injective uuidString := by
  -- without its hyphens the text is the hexadecimal number
  have hread (id : UuidBytes) : (uuidString id).filter (· != '-') = hex 32 id.toNat := by
    have hpart {s : Text} (hs : s ⊆ hex 32 id.toNat) : s.filter (· != '-') = s := by
      refine filter_eq_self.mpr fun c hc => bne_iff_ne.mpr ?_
      rintro rfl
      exact not_minus_mem_hex _ _ (hs hc)
    generalize hh : hex 32 id.toNat = h at hpart
    have hcut (n : Nat) : ((h.drop n).take 4).filter (· != '-') = (h.drop n).take 4 :=
      hpart (List.Subset.trans (take_subset _ _) (drop_subset _ _))
    have hhyphen (s : Text) : ('-' :: s).filter (· != '-') = s.filter (· != '-') := rfl
    simp only [uuidString, hh, append_assoc, cons_append, filter_append, hhyphen, hcut,
      hpart (take_subset 8 h), hpart (drop_subset 20 h), groups_append]
  intro a b h
  have hhex : hex 32 a.toNat = hex 32 b.toNat := by rw [← hread, ← hread, h]
  exact BitVec.eq_of_toNat_eq (hex_inj a.isLt b.isLt hhex)

theorem actorString_injective : Function.Injective actorString := by
  have hne (id : UuidBytes) : uuidString id ≠ [] := by simp [uuidString]
  intro a b h
  cases a with
  | none =>
    cases b with
    | none => rfl
    | some b => exact absurd h.symm (hne b)
  | some a =>
    cases b with
    | none => exact absurd h (hne a)
    | some b => rw [uuidString_injective h]

theorem formatCreatedAt_eq_iff {t u : Int} : formatCreatedAt t = formatCreatedAt u ↔ t / 1000 = u / 1000 :=
  (Calendar.instantText_injective (signed_injective 4)).eq_iff

theorem sortedFieldsAny_inj {l l' : List Text} (h : sortedFieldsAny l = sortedFieldsAny l') : l.Perm l' := by
  have hsort : sortStrings l = sortStrings l' :=
    map_injective_iff.mpr (fun _ _ => str.inj) (arr.inj h)
  exact (hsort ▸ (perm_insertionSort BytesLE l).symm : l.Perm (sortStrings l')).trans
    (perm_insertionSort BytesLE l')

def payloadJson (raw : Text) : Except Fault Json := do
  let v ← payloadValue raw
  formatted v

structure SameRow (e e' : Entry) : Prop where
  orgId : e.orgId = e'.orgId
  seq : e.seq = e'.seq
  prevHash : e.prevHash = e'.prevHash
  actorUserId : e.actorUserId = e'.actorUserId
  action : e.action = e'.action
  purpose : e.purpose = e'.purpose
  policyResult : e.policyResult = e'.policyResult
  objectType : e.objectType = e'.objectType
  objectId : e.objectId = e'.objectId
  fields : e.fields.Perm e'.fields
  approvalRef : e.approvalRef = e'.approvalRef
  beforeHash : e.beforeHash = e'.beforeHash
  afterHash : e.afterHash = e'.afterHash
  correlationId : e.correlationId = e'.correlationId
  requestId : e.requestId = e'.requestId
  payload : ∃ v, payloadJson e.payload = .ok v ∧ payloadJson e'.payload = .ok v
  createdAt : e.createdAt / 1000 = e'.createdAt / 1000

theorem formatted_strings (l : List Text) : formatted (.arr (l.map .str)) = .ok (.arr (l.map .str)) := by
  have helems : (formattedElems (l.map .str)).mapM id = .ok (l.map .str) := by
    induction l with
    | nil => rfl
    | cons s l ih =>
      rw [map_cons, formattedElems, mapM_cons, ih]
      rfl
  rw [formatted, helems]
  rfl

theorem formatJSONBNumber_signed (x : Int) : formatJSONBNumber (signed 0 x) = .ok (signed 0 x) := by
  refine formatJSONBNumber_of_no_exponent fun c hc => ?_
  have hdigit {c : Char} (hc : c ∈ padded 0 x.natAbs) : isExponentMark c = false := by
    have := isDigit_of_mem_padded hc
    by_contra hmark
    simp only [isExponentMark, Bool.or_eq_true, beq_iff_eq, Bool.not_eq_false] at hmark
    rcases hmark with rfl | rfl <;> simp at this
  unfold signed at hc
  split_ifs at hc
  · rcases mem_cons.mp hc with rfl | hc
    · rfl
    · exact hdigit hc
  · exact hdigit hc

theorem formatted_entryArray (e : Entry) (v : Json) :
    formatted (.arr (entryArray e v)) = (formatted v).map fun p => .arr (entryArray e p) := by
  have hfields : formatted (sortedFieldsAny e.fields) = .ok (sortedFieldsAny e.fields) := formatted_strings _
  rw [formatted]
  cases hv : formatted v <;>
    simp [entryArray, formattedElems, formatted, hfields, hv, formatJSONBNumber_signed, Except.map, bind,
      Except.bind, pure, Except.pure]

theorem canonicalString_eq (e : Entry) :
    canonicalString e = (payloadJson e.payload).map fun p => render (.arr (entryArray e p)) := by
  unfold canonicalString payloadJson
  cases payloadValue e.payload with
  | error f => rfl
  | ok v =>
    simp only [bind, Except.bind, writeJSONB_eq, formatted_entryArray]
    cases formatted v <;> rfl

theorem numbers_payloadJson {raw : Text} {p : Json} (h : payloadJson raw = .ok p) : p.Numbers Json.IsPlain := by
  obtain ⟨v, hv, hp⟩ := Except.bind_eq_ok.mp h
  refine numbers_formatted v ?_ hp
  unfold payloadValue at hv
  split_ifs at hv
  · cases hv
    trivial
  · cases hdecode : decodeJSONNumber raw with
    | none => simp [hdecode] at hv
    | some w =>
      simp only [hdecode, Except.ok.injEq] at hv
      obtain ⟨q, hq, rfl⟩ := Option.map_eq_some_iff.mp hdecode
      exact hv ▸ numbers_sortJSON _ (parseValue_plain hq)

theorem numbers_entryArray (e : Entry) {p : Json} (h : p.Numbers Json.IsPlain) :
    (arr (entryArray e p)).Numbers Json.IsPlain := by
  have hfields : (sortedFieldsAny e.fields).Numbers Json.IsPlain := by
    refine numbersElems_iff.mpr fun v hv => ?_
    obtain ⟨s, -, rfl⟩ := mem_map.mp hv
    trivial
  simp [entryArray, Json.Numbers, Json.NumbersElems, h, hfields, isPlain_signed]

theorem sameRow_of_canonicalString_eq {e e' : Entry} {t : Text} (h : canonicalString e = .ok t)
    (h' : canonicalString e' = .ok t) : SameRow e e' := by
  rw [canonicalString_eq] at h h'
  obtain ⟨p, hp, rfl⟩ := map_eq_ok h
  obtain ⟨p', hp', hrender⟩ := map_eq_ok h'
  have harr := arr.inj (render_injective (numbers_entryArray e' (numbers_payloadJson hp'))
    (numbers_entryArray e (numbers_payloadJson hp)) hrender)
  simp only [entryArray, List.cons.injEq, str.injEq, num.injEq, and_true] at harr
  obtain ⟨horg, hseq, hprev, hactor, haction, hpurpose, hpolicy, htype, hid, hfields, happroval, hbefore, hafter,
    hcorrelation, hrequest, hpayload, hcreated⟩ := harr
  exact
    { orgId := uuidString_injective horg.symm
      seq := signed_injective 0 hseq.symm
      prevHash := hprev.symm
      actorUserId := actorString_injective hactor.symm
      action := haction.symm
      purpose := hpurpose.symm
      policyResult := hpolicy.symm
      objectType := htype.symm
      objectId := hid.symm
      fields := sortedFieldsAny_inj hfields.symm
      approvalRef := happroval.symm
      beforeHash := hbefore.symm
      afterHash := hafter.symm
      correlationId := hcorrelation.symm
      requestId := hrequest.symm
      payload := ⟨p, hp, hpayload ▸ hp'⟩
      createdAt := formatCreatedAt_eq_iff.mp hcreated.symm }

section Hash

variable {sha256Hex : Text → Text}

structure Linked (sha256Hex : Text → Text) (i : Nat) (prev : Text) (e : Entry) : Prop where
  seq : e.seq = i + 1
  prevHash : e.prevHash = if 0 < i then prev else genesisPrevHash
  rowHash : rowHash sha256Hex e = .ok e.rowHash

variable {i : Nat} {prev : Text} {e : Entry} {es : List Entry}

theorem verifyFrom_cons : verifyFrom sha256Hex i prev (e :: es) = .ok () ↔
      Linked sha256Hex i prev e ∧ verifyFrom sha256Hex (i + 1) e.rowHash es = .ok () := by
  constructor
  · intro h
    obtain ⟨_, hseq, h⟩ := Except.bind_eq_ok.mp h
    obtain ⟨_, hprev, h⟩ := Except.bind_eq_ok.mp h
    obtain ⟨_, hrow, h⟩ := Except.bind_eq_ok.mp h
    refine ⟨⟨?_, ?_, ?_⟩, h⟩
    · simp only [checkSeq] at hseq
      split_ifs at hseq with heq
      exact heq
    · simp only [checkPrevHash] at hprev
      split_ifs at hprev <;> simp [*]
    · unfold checkRowHash at hrow
      split at hrow
      · simp at hrow
      · rename_i got hgot
        split_ifs at hrow with heq
        rw [hgot, heq]
  · rintro ⟨⟨hseq, hprev, hrow⟩, h⟩
    have hcheck : checkSeq i e = .ok () := by simp [checkSeq, hseq]
    have hcheck' : checkPrevHash i e prev = .ok () := by simp [checkPrevHash, hprev]
    have hcheck'' : checkRowHash sha256Hex i e = .ok () := by simp [checkRowHash, hrow]
    simp only [verifyFrom, hcheck, hcheck', hcheck'']
    exact h

def lastHash (prev : Text) (es : List Entry) : Text := (es.getLast?.map Entry.rowHash).getD prev

theorem verifyFrom_concat : verifyFrom sha256Hex i prev (es ++ [e]) = .ok () ↔
      verifyFrom sha256Hex i prev es = .ok () ∧ Linked sha256Hex (i + es.length) (lastHash prev es) e := by
  induction es generalizing i prev with
  | nil =>
    rw [nil_append, verifyFrom_cons]
    exact and_comm
  | cons d es ih =>
    have hlast : lastHash prev (d :: es) = lastHash d.rowHash es := by
      cases es with
      | nil => rfl
      | cons c es => simp [lastHash, List.getLast?_cons]
    rw [cons_append, verifyFrom_cons, ih, verifyFrom_cons, hlast, length_cons, Nat.add_assoc,
      Nat.add_comm 1, and_assoc]

theorem exists_canonicalString (h : Linked sha256Hex i prev e) :
    ∃ t, canonicalString e = .ok t ∧ sha256Hex t = e.rowHash :=
  map_eq_ok h.rowHash

theorem getLast_rowHash_eq {es' : List Entry} {e' : Entry} (hlength : es.length = es'.length)
    (h : Linked sha256Hex (0 + es.length) (lastHash [] es) e)
    (h' : Linked sha256Hex (0 + es'.length) (lastHash [] es') e') (hprev : e.prevHash = e'.prevHash) :
    es.getLast?.map Entry.rowHash = es'.getLast?.map Entry.rowHash := by
  obtain rfl | ⟨es, d, rfl⟩ := es.eq_nil_or_concat'
  · rw [length_eq_zero_iff.mp hlength.symm]
  · obtain rfl | ⟨es', d', rfl⟩ := es'.eq_nil_or_concat'
    · simp at hlength
    · rw [h.prevHash, h'.prevHash] at hprev
      simpa [lastHash] using hprev

end Hash

end

section

theorem isDigit_frac {n : Numeric} : ∀ c ∈ n.frac.map fun d => Nat.digitChar d.val, c.isDigit = true := by
  intro c hc
  obtain ⟨d, -, rfl⟩ := mem_map.mp hc
  rw [Nat.isDigit_digitChar]
  exact decide_eq_true d.isLt

theorem scanFrac_frac {n : Numeric} (hne : n.frac ≠ []) {s : Text} (hs : Json.NoDigit s) :
    scanFrac ('.' :: (n.frac.map fun d => Nat.digitChar d.val) ++ s) =
      some ('.' :: n.frac.map fun d => Nat.digitChar d.val, s) := by
  simp [scanFrac, scanDigits, takeWhile_digits isDigit_frac hs, dropWhile_digits isDigit_frac hs, hne]

theorem scanUnsigned_numeric (n : Numeric) {s : Text} (hs : Json.Ends s) :
    let frac := if n.frac.isEmpty then [] else '.' :: n.frac.map fun d => Nat.digitChar d.val
    scanUnsigned (Nat.toDigits 10 n.whole ++ frac ++ s) = some (Nat.toDigits 10 n.whole ++ frac, s) := by
  intro frac
  by_cases hne : n.frac = []
  · have hfrac : frac = [] := by simp [frac, hne]
    rw [hfrac]
    refine scanUnsigned_append ?_ (scanFrac_of_ends hs) hs
    exact scanInt_toDigits _ (noDigit_of_ends hs)
  · have hfrac : frac = '.' :: n.frac.map fun d => Nat.digitChar d.val := by simp [frac, hne]
    rw [hfrac]
    refine scanUnsigned_append ?_ (scanFrac_frac hne (noDigit_of_ends hs)) hs
    refine scanInt_toDigits _ fun c hc => ?_
    cases hc
    rfl

theorem scans_text (n : Numeric) : Json.Scans n.text := by
  have hscan : ∀ s, Json.Ends s → scanNumber (n.text ++ s) = some (n.text, s) := by
    intro s hs
    have hunsigned := scanUnsigned_numeric n hs
    unfold Numeric.text
    cases n.negative with
    | true => simpa [scanNumber] using hunsigned
    | false =>
      simp only [Bool.false_eq_true, if_false, nil_append]
      unfold scanNumber
      split
      · rename_i t ht
        exact absurd ht (by rw [append_assoc]; exact toDigits_ne_minus)
      · exact hunsigned
  exact ⟨scanNumber_plain (r := []) (by simpa using hscan [] fun _ hc => nomatch hc), hscan⟩

theorem noExponent_text (n : Numeric) : ∀ c ∈ n.text, isExponentMark c = false := by
  have hdigit {c : Char} (hc : c.isDigit = true) : isExponentMark c = false := by
    by_contra hmark
    simp only [isExponentMark, Bool.or_eq_true, beq_iff_eq, Bool.not_eq_false] at hmark
    rcases hmark with rfl | rfl <;> simp at hc
  intro c hc
  simp only [Numeric.text, mem_append] at hc
  rcases hc with (hc | hc) | hc
  · split_ifs at hc
    · rw [mem_singleton.mp hc]
      rfl
    · exact absurd hc not_mem_nil
  · exact hdigit (isDigit_of_mem_toDigits hc)
  · split_ifs at hc
    · exact absurd hc not_mem_nil
    · rcases mem_cons.mp hc with rfl | hc
      · rfl
      · exact hdigit (isDigit_frac c hc)

def IsNumericText (lit : Text) : Prop := ∃ n : Numeric, n.text = lit

theorem scans_of_isNumericText {lit : Text} (h : IsNumericText lit) : Json.Scans lit := by
  obtain ⟨n, rfl⟩ := h
  exact scans_text n

theorem sortedMembers_of_ordered {α : Type} {fs : List (Text × α)}
    (h : fs.Pairwise fun a b => KeyLE a.1 b.1 ∧ a.1 ≠ b.1) : sortedMembers fs = fs :=
  (h.imp And.left).insertionSort_eq

mutual

theorem distinctKeys_of_ordered : (v : Json) → OrderedMembers v → v.DistinctKeys
  | .null, _ | .bool _, _ | .num _, _ | .str _, _ => trivial
  | .arr vs, h => distinctKeysElems_of_ordered vs h
  | .obj fs, h => ⟨pairwise_map.mpr (h.1.imp And.right), distinctKeysFields_of_ordered fs h.2⟩

theorem distinctKeysElems_of_ordered : (vs : List Json) → OrderedMembersElems vs → Json.DistinctKeysElems vs
  | [], _ => trivial
  | v :: vs, h => ⟨distinctKeys_of_ordered v h.1, distinctKeysElems_of_ordered vs h.2⟩

theorem distinctKeysFields_of_ordered : (fs : List (Text × Json)) → OrderedMembersFields fs →
    Json.DistinctKeysFields fs
  | [], _ => trivial
  | (_, v) :: fs, h => ⟨distinctKeys_of_ordered v h.1, distinctKeysFields_of_ordered fs h.2⟩

end

mutual

theorem sortJSON_of_ordered : (v : Json) → OrderedMembers v → sortJSON v = v
  | .null, _ | .bool _, _ | .num _, _ | .str _, _ => rfl
  | .arr vs, h => by rw [sortJSON, sortJSONArray_of_ordered vs h]
  | .obj fs, h => by rw [sortJSON, sortJSONObject_of_ordered fs h.2, sortedMembers_of_ordered h.1]

theorem sortJSONArray_of_ordered : (vs : List Json) → OrderedMembersElems vs → sortJSONArray vs = vs
  | [], _ => rfl
  | v :: vs, h => by rw [sortJSONArray, sortJSON_of_ordered v h.1, sortJSONArray_of_ordered vs h.2]

theorem sortJSONObject_of_ordered : (fs : List (Text × Json)) → OrderedMembersFields fs → sortJSONObject fs = fs
  | [], _ => rfl
  | (k, v) :: fs, h => by rw [sortJSONObject, sortJSON_of_ordered v h.1, sortJSONObject_of_ordered fs h.2]

end

mutual

theorem formatted_of_stored : (v : Json) → v.Numbers IsNumericText → OrderedMembers v → formatted v = .ok v
  | .null, _, _ | .bool _, _, _ | .str _, _, _ => rfl
  | .num lit, hn, _ => by
    obtain ⟨n, rfl⟩ := hn
    rw [formatted, formatJSONBNumber_of_no_exponent (noExponent_text n)]
    rfl
  | .arr vs, hn, ho => by
    rw [formatted, formattedElems_of_stored vs hn ho]
    rfl
  | .obj fs, hn, ho => by
    have hsorted : sortedMembers (formattedFields fs) = fs.map fun f => (f.1, .ok f.2) := by
      rw [formattedFields_of_stored fs hn ho.2, map_sortedMembers, sortedMembers_of_ordered ho.1]
    have hmember : (fs.map fun f => (f.1, (.ok f.2 : Except Fault Json))).mapM member = .ok fs := by
      refine mapM_ok_map ?_
      exact fun _ => rfl
    rw [formatted, hsorted, hmember]
    rfl

theorem formattedElems_of_stored : (vs : List Json) → Json.NumbersElems IsNumericText vs →
    OrderedMembersElems vs → (formattedElems vs).mapM id = .ok vs
  | [], _, _ => rfl
  | v :: vs, hn, ho => by
    rw [formattedElems, mapM_cons, formatted_of_stored v hn.1 ho.1, formattedElems_of_stored vs hn.2 ho.2]
    rfl

theorem formattedFields_of_stored : (fs : List (Text × Json)) → Json.NumbersFields IsNumericText fs →
    OrderedMembersFields fs → formattedFields fs = fs.map fun f => (f.1, .ok f.2)
  | [], _, _ => rfl
  | (k, v) :: fs, hn, ho => by
    rw [formattedFields, formatted_of_stored v hn.1 ho.1, formattedFields_of_stored fs hn.2 ho.2, map_cons]

end

theorem payloadJson_text (v : Jsonb) (h : v.value.depth ≤ maxNestingDepth) : payloadJson v.text = .ok v.value := by
  have hscans := Json.Numbers.imp (fun _ => scans_of_isNumericText) v.value v.numbers
  have hread : decodeJSONNumber v.text = some v.value := by
    have hparse := render_writes.reads v.value hscans (distinctKeys_of_ordered v.value v.members)
      maxNestingDepth h [] fun _ hc => nomatch hc
    rw [append_nil] at hparse
    rw [decodeJSONNumber, Jsonb.text, hparse]
    rfl
  have hne : v.text.isEmpty = false := by
    obtain ⟨c, s, hs, -⟩ := render_eq_cons (Json.Numbers.imp (fun _ => Json.Scans.plain) v.value hscans)
    rw [Jsonb.text, hs]
    rfl
  have hvalue : payloadValue v.text = .ok v.value := by
    rw [payloadValue, hne, hread]
    exact congrArg Except.ok (sortJSON_of_ordered v.value v.members)
  rw [payloadJson, hvalue]
  exact formatted_of_stored v.value v.numbers v.members

instance : Std.Total BytesLE := ⟨fun s t => List.le_total (bytes s) (bytes t)⟩

instance : IsTrans Text BytesLE := ⟨fun _ _ _ => List.le_trans⟩

theorem sortStrings_fieldsSorted (fields : Option (List Text)) :
    sortStrings (fieldsSorted fields) = fieldsSorted fields := by
  cases fields with
  | none => rfl
  | some l => exact (pairwise_insertionSort BytesLE l).insertionSort_eq

theorem formatCreatedAt_eq_toChar (created : Nat) : formatCreatedAt (created * 1000) = toChar created := by
  have hyear : 1 ≤ (Calendar.yearDay (Calendar.dayNumber created)).year := by
    refine Calendar.one_le_year ?_
    unfold Calendar.dayNumber
    omega
  have htext {year : Int} (h : 1 ≤ year) : signed 4 year = toCharYear year := by
    have hneg : ¬ year < 0 := by omega
    have hzero : ¬ year ≤ 0 := by omega
    have habs : year.natAbs = year.toNat := by omega
    rw [signed, if_neg hneg, toCharYear, if_neg hzero, habs]
  rw [formatCreatedAt, toChar, Int.mul_ediv_cancel _ (by decide), Calendar.instantText, Calendar.instantText,
    htext hyear]

section Hash

variable (sha256Hex : Text → Text)

def Row.canonical (r : Row) : Text := Json.render (.arr (entryArray (scanEntry r) r.payload.value))

theorem rowHash_row (c : Call) (last : Option Row) :
    (c.row sha256Hex last).rowHash = sha256Hex (c.row sha256Hex last).canonical := by
  have hactor : (c.args.actorUserId.map uuidString).getD [] = actorString c.args.actorUserId := by
    cases c.args.actorUserId <;> rfl
  simp only [Call.row, Row.canonical, Call.canonical, entryArray, scanEntry, sortedFieldsAny, hactor,
    sortStrings_fieldsSorted, signed_natCast, formatCreatedAt_eq_toChar]

theorem canonicalString_scanEntry {r : Row} (h : r.payload.value.depth ≤ maxNestingDepth) :
    canonicalString (scanEntry r) = .ok r.canonical := by
  have hpayload : payloadJson (scanEntry r).payload = .ok r.payload.value := payloadJson_text r.payload h
  rw [canonicalString_eq, hpayload]
  rfl

end Hash

end

end IbexHarness.Audit
