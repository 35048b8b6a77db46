import IbexHarness.Audit.Canonical

/-! What `writeJSONB` writes determines the value. -/

namespace IbexHarness.Audit

open Lib List Json

variable {s t digits : Text}

theorem hex_control : ∀ n < 32, Digits.hex 4 n = ['0', '0', Nat.digitChar (n / 16), Nat.digitChar (n % 16)] := by
  decide

theorem writeJSONStringRune_eq_escape (r : Char) : writeJSONStringRune r = escape r := by
  unfold writeJSONStringRune jsonStringEscapes escape
  split_ifs <;> simp_all [hex_control]

theorem writeJSONString_eq_quote (s : Text) : writeJSONString s = quote s := by
  rw [writeJSONString, quote, funext writeJSONStringRune_eq_escape]

theorem isPlain_digits (hne : s ≠ []) (h : ∀ c ∈ s, c.isDigit = true) : Json.IsPlain s :=
  ⟨hne, fun c hc => isNumberChar_of_isDigit (h c hc)⟩

theorem isPlain_append_left (hs : ∀ c ∈ s, isNumberChar c = true) (ht : Json.IsPlain t) :
    Json.IsPlain (s ++ t) :=
  ⟨by simp [ht.1], fun c hc => (mem_append.mp hc).elim (hs c) (ht.2 c)⟩

theorem isPlain_signed (width : Nat) (x : Int) : Json.IsPlain (Digits.signed width x) := by
  have hpadded := isPlain_digits (Digits.padded_ne_nil width x.natAbs) fun _ => Digits.isDigit_of_mem_padded
  unfold Digits.signed
  split_ifs
  · exact isPlain_append_left (s := ['-']) (forall_mem_singleton.mpr rfl) hpadded
  · exact hpadded

theorem splitSignificand_spec {r : Significand} (h : splitSignificand s = .ok r) :
    (r.sign = ['-'] ∨ r.sign = []) ∧ r.digits ≠ [] ∧ ∀ c ∈ r.digits, c.isDigit = true := by
  simp only [splitSignificand] at h
  generalize (if (s.head? == some '+' || s.head? == some '-') = true then List.drop 1 s else s) = t at h
  generalize t.takeWhile (· != '.') ++ (t.dropWhile (· != '.')).drop 1 = digits at h
  split_ifs at h <;> obtain rfl := Except.ok.inj h <;> simp_all

theorem isDigit_padding (h : ∀ c ∈ digits, c.isDigit = true) (n : Nat) :
    ∀ c ∈ List.replicate n '0' ++ digits, c.isDigit = true := by
  intro c hc
  rcases mem_append.mp hc with hc | hc
  · rw [eq_of_mem_replicate hc]
    rfl
  · exact h c hc

theorem isPlain_point (h : ∀ c ∈ digits, c.isDigit = true) (i : Nat) :
    let intPart := (digits.take i).dropWhile (· == '0')
    Json.IsPlain ((if intPart.isEmpty then ['0'] else intPart) ++ '.' :: digits.drop i) := by
  intro intPart
  have hint : ∀ c ∈ intPart, c.isDigit = true := fun c hc =>
    h c (mem_of_mem_take ((dropWhile_suffix _).subset hc))
  have hfrac : ∀ c ∈ '.' :: digits.drop i, isNumberChar c = true :=
    forall_mem_cons.mpr ⟨rfl, fun c hc => isNumberChar_of_isDigit (h c (mem_of_mem_drop hc))⟩
  refine isPlain_append_left ?_ ⟨by simp, hfrac⟩
  split_ifs
  · exact forall_mem_singleton.mpr rfl
  · exact fun c hc => isNumberChar_of_isDigit (hint c hc)

theorem isPlain_placeDecimal (hne : digits ≠ []) (h : ∀ c ∈ digits, c.isDigit = true)
    (scale : Nat) : Json.IsPlain (placeDecimal digits scale) := by
  unfold placeDecimal
  split_ifs
  · exact isPlain_digits hne h
  · exact isPlain_point (isDigit_padding h _) _
  · exact isPlain_point h _

theorem isPlain_expandScientificDecimal {exp : Int} (h : expandScientificDecimal s exp = .ok t) : Json.IsPlain t := by
  unfold expandScientificDecimal at h
  cases hs : splitSignificand s with
  | error f => simp [hs, bind, Except.bind] at h
  | ok r =>
    obtain ⟨hsign, hne, hdigits⟩ := splitSignificand_spec hs
    have hsign : ∀ c ∈ r.sign, isNumberChar c = true := by
      rcases hsign with hsign | hsign
      · exact hsign ▸ forall_mem_singleton.mpr rfl
      · exact hsign ▸ forall_mem_nil _
    simp only [hs, bind, Except.bind] at h
    split_ifs at h
    · split at h
      · simp at h
      · cases h
        rw [append_assoc]
        refine isPlain_append_left hsign (isPlain_digits (by simp [hne]) fun c hc => ?_)
        rcases mem_append.mp hc with hc | hc
        · exact hdigits c hc
        · rw [eq_of_mem_replicate hc]
          rfl
    · split at h
      · simp at h
      · cases h
        exact isPlain_append_left hsign (isPlain_placeDecimal hne hdigits _)

theorem isPlain_formatJSONBNumber {lit : Text} (hlit : Json.IsPlain lit) (h : formatJSONBNumber lit = .ok t) :
    Json.IsPlain t := by
  unfold formatJSONBNumber at h
  simp only at h
  split at h
  · cases h
    exact hlit
  · split_ifs at h
    split at h
    · simp at h
    · exact isPlain_expandScientificDecimal h

theorem formatJSONBNumber_of_no_exponent {lit : Text} (h : ∀ c ∈ lit, isExponentMark c = false) :
    formatJSONBNumber lit = .ok lit := by
  have hdrop : lit.dropWhile (!isExponentMark ·) = [] :=
    dropWhile_eq_nil_iff.mpr fun c hc => by simp [h c hc]
  simp only [formatJSONBNumber, hdrop]

def member (m : Text × Except Fault Json) : Except Fault (Text × Json) := m.2.map (m.1, ·)

mutual

/-- The JSON value a payload stands for: numbers by their formatted text, members in order. -/
def formatted : Json → Except Fault Json
  | .null => .ok .null
  | .bool b => .ok (.bool b)
  | .num lit => (formatJSONBNumber lit).map .num
  | .str s => .ok (.str s)
  | .arr elems => ((formattedElems elems).mapM id).map .arr
  | .obj fields => ((sortedMembers (formattedFields fields)).mapM member).map .obj

def formattedElems : List Json → List (Except Fault Json)
  | [] => []
  | v :: vs => formatted v :: formattedElems vs

def formattedFields : List (Text × Json) → List (Text × Except Fault Json)
  | [] => []
  | (k, v) :: fs => (k, formatted v) :: formattedFields fs

end

section MapM

variable {ε α β γ δ : Type}

theorem mapM_map {h : α → β} {g : β → Except ε γ} {k : α → Except ε δ} {f : δ → γ}
    (heq : ∀ a, g (h a) = (k a).map f) (l : List α) : (l.map h).mapM g = (l.mapM k).map (List.map f) := by
  induction l with
  | nil => rfl
  | cons a l ih =>
    rw [map_cons, mapM_cons, mapM_cons, heq, ih]
    cases k a with
    | error e => rfl
    | ok b => cases l.mapM k <;> rfl

theorem mapM_ok_map {h : α → β} {g : β → Except ε α} (hg : ∀ a, g (h a) = .ok a) {l : List α} :
    (l.map h).mapM g = .ok l := by
  induction l with
  | nil => rfl
  | cons a l ih =>
    rw [map_cons, mapM_cons, hg, ih]
    rfl

theorem exists_of_mem_mapM {k : α → Except ε β} {l : List α} {bs : List β} (h : l.mapM k = .ok bs) {b : β}
    (hb : b ∈ bs) : ∃ a ∈ l, k a = .ok b := by
  induction l generalizing bs with
  | nil =>
    cases h
    exact absurd hb not_mem_nil
  | cons a l ih =>
    rw [mapM_cons] at h
    cases ha : k a with
    | error e => simp [ha, bind, Except.bind] at h
    | ok b' =>
      cases hl : l.mapM k with
      | error e => simp [ha, hl, bind, Except.bind] at h
      | ok bs' =>
        simp only [ha, hl, bind, Except.bind, pure, Except.pure, Except.ok.injEq] at h
        subst h
        rcases mem_cons.mp hb with rfl | hb
        · exact ⟨a, mem_cons_self, ha⟩
        · obtain ⟨a', ha', hk⟩ := ih hl hb
          exact ⟨a', mem_cons_of_mem _ ha', hk⟩

theorem map_sortedMembers (f : α → β) (l : List (Text × α)) :
    sortedMembers (l.map fun m => (m.1, f m.2)) = (sortedMembers l).map fun m => (m.1, f m.2) := by
  refine (map_insertionSort _ _ _ l ?_).symm
  exact fun _ _ _ _ => Iff.rfl

end MapM

theorem mem_sortedMembers {α : Type} {l : List (Text × α)} {m : Text × α} : m ∈ sortedMembers l ↔ m ∈ l :=
  mem_insertionSort _

theorem render_arr (vs : List Json) :
    render (.arr vs) = ['['] ++ [',', ' '].intercalate (vs.map render) ++ [']'] := by
  rw [render, renderElems_eq_map]

theorem render_obj (fs : List (Text × Json)) :
    render (.obj fs) = ['{'] ++ [',', ' '].intercalate (fs.map renderField) ++ ['}'] := by
  rw [render, renderFields_eq_map]

theorem writeMember_map (m : Text × Except Fault Json) :
    writeMember (m.1, m.2.map render) = (member m).map renderField := by
  obtain ⟨k, v⟩ := m
  cases v with
  | error f => rfl
  | ok v =>
    rw [writeMember, writeJSONString_eq_quote]
    rfl

mutual

theorem writeJSONB_eq : (v : Json) → writeJSONB v = (formatted v).map render
  | .null | .bool true | .bool false => rfl
  | .num lit => by
    rw [writeJSONB, formatted]
    cases formatJSONBNumber lit <;> rfl
  | .str s => by rw [writeJSONB, writeJSONString_eq_quote]; rfl
  | .arr vs => by
    have hmap : ∀ r : Except Fault Json, id (Except.map render r) = Except.map render (id r) :=
      fun _ => rfl
    rw [writeJSONB, formatted, writeJSONArray_eq vs, mapM_map hmap]
    cases (formattedElems vs).mapM id with
    | error f => rfl
    | ok ws => exact congrArg Except.ok (render_arr ws).symm
  | .obj fs => by
    rw [writeJSONB, formatted, writeJSONObject_eq fs, map_sortedMembers, mapM_map writeMember_map]
    cases (sortedMembers (formattedFields fs)).mapM member with
    | error f => rfl
    | ok gs => exact congrArg Except.ok (render_obj gs).symm

theorem writeJSONArray_eq : (vs : List Json) → writeJSONArray vs = (formattedElems vs).map (Except.map render)
  | [] => rfl
  | v :: vs => by rw [writeJSONArray, formattedElems, writeJSONB_eq v, writeJSONArray_eq vs, map_cons]

theorem writeJSONObject_eq : (fs : List (Text × Json)) →
    writeJSONObject fs = (formattedFields fs).map fun m => (m.1, m.2.map render)
  | [] => rfl
  | (k, v) :: fs => by rw [writeJSONObject, formattedFields, writeJSONB_eq v, writeJSONObject_eq fs, map_cons]

end

theorem map_eq_ok {ε α β : Type} {f : α → β} {x : Except ε α} {b : β} (h : x.map f = .ok b) :
    ∃ a, x = .ok a ∧ f a = b := by
  cases x with
  | error e => simp [Except.map] at h
  | ok a => exact ⟨a, rfl, Except.ok.inj h⟩

mutual

theorem numbers_formatted : (v : Json) → {w : Json} → v.Numbers Json.IsPlain → formatted v = .ok w →
    w.Numbers Json.IsPlain
  | .null, w, _, h | .bool _, w, _, h | .str _, w, _, h => by
    cases h
    trivial
  | .num lit, w, hv, h => by
    obtain ⟨t, ht, rfl⟩ := map_eq_ok h
    exact isPlain_formatJSONBNumber hv ht
  | .arr vs, w, hv, h => by
    obtain ⟨ws, hws, rfl⟩ := map_eq_ok h
    refine numbersElems_iff.mpr fun w hw => ?_
    obtain ⟨r, hr, hok⟩ := exists_of_mem_mapM hws hw
    exact numbers_formattedElems vs hv r hr hok
  | .obj fs, w, hv, h => by
    obtain ⟨gs, hgs, rfl⟩ := map_eq_ok h
    refine numbersFields_iff.mpr fun g hg => ?_
    obtain ⟨m, hm, hok⟩ := exists_of_mem_mapM hgs hg
    obtain ⟨w, hw, rfl⟩ := map_eq_ok hok
    exact numbers_formattedFields fs hv m (mem_sortedMembers.mp hm) hw

theorem numbers_formattedElems : (vs : List Json) → Json.NumbersElems Json.IsPlain vs →
    ∀ r ∈ formattedElems vs, {w : Json} → r = .ok w → w.Numbers Json.IsPlain
  | v :: vs, hv, r, hr, w, h => by
    rcases mem_cons.mp hr with rfl | hr
    · exact numbers_formatted v hv.1 h
    · exact numbers_formattedElems vs hv.2 r hr h

theorem numbers_formattedFields : (fs : List (Text × Json)) → Json.NumbersFields Json.IsPlain fs →
    ∀ m ∈ formattedFields fs, {w : Json} → m.2 = .ok w → w.Numbers Json.IsPlain
  | (k, v) :: fs, hv, m, hm, w, h => by
    rcases mem_cons.mp hm with rfl | hm
    · exact numbers_formatted v hv.1 h
    · exact numbers_formattedFields fs hv.2 m hm h

end

mutual

theorem numbers_sortJSON : (v : Json) → v.Numbers Json.IsPlain → (sortJSON v).Numbers Json.IsPlain
  | .null, _ | .bool _, _ | .str _, _ => trivial
  | .num _, h => h
  | .arr vs, h => numbersElems_iff.mpr (numbers_sortJSONArray vs h)
  | .obj fs, h => numbersFields_iff.mpr fun f hf => numbers_sortJSONObject fs h f (mem_sortedMembers.mp hf)

theorem numbers_sortJSONArray : (vs : List Json) → Json.NumbersElems Json.IsPlain vs →
    ∀ v ∈ sortJSONArray vs, v.Numbers Json.IsPlain
  | v :: vs, h, w, hw => by
    rcases mem_cons.mp hw with rfl | hw
    · exact numbers_sortJSON v h.1
    · exact numbers_sortJSONArray vs h.2 w hw

theorem numbers_sortJSONObject : (fs : List (Text × Json)) → Json.NumbersFields Json.IsPlain fs →
    ∀ f ∈ sortJSONObject fs, f.2.Numbers Json.IsPlain
  | (k, v) :: fs, h, f, hf => by
    rcases mem_cons.mp hf with rfl | hf
    · exact numbers_sortJSON v h.1
    · exact numbers_sortJSONObject fs h.2 f hf

end

end IbexHarness.Audit
