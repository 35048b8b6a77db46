import IbexHarness.Lib.Text

/-! `StreamAccumulator` of `packages/provider/openaicompatible/stream_accumulator.go`. -/

namespace IbexHarness.Stream

open List

abbrev Bytes := List UInt8

structure Usage where
  inputTokens : Int
  outputTokens : Int
  totalTokens : Int
deriving DecidableEq

/-- The usage and the contents of the choices of a `streamChunk`. -/
structure Chunk where
  usage : Option Usage
  contents : List Bytes

/-- What the accumulator takes from libraries. -/
structure Codec where
  trimSpace : Bytes → Bytes
  unmarshal : Bytes → Option Chunk
  validString : Bytes → Bool

structure Accumulator where
  buf : Bytes
  content : Bytes
  usage : Option Usage
  complete : Bool
  closed : Bool
  capped : Bool

def newStreamAccumulator : Accumulator := ⟨[], [], none, false, false, false⟩

def maxAccumulatedContentBytes : Nat := 2 ^ 20

def doneSentinel : Bytes := [91, 68, 79, 78, 69, 93]

def dataPrefix : Bytes := [100, 97, 116, 97, 58]

section
variable (c : Codec)

/-- The longest valid string of at most so many bytes. -/
def validUpTo (s : Bytes) : Nat → Bytes
  | 0 => []
  | n + 1 => if c.validString (s.take (n + 1)) then s.take (n + 1) else validUpTo s n

def appendContentLocked (a : Accumulator) (s : Bytes) : Accumulator :=
  if s.isEmpty || a.capped then a
  else
    let remaining := maxAccumulatedContentBytes - a.content.length
    if remaining = 0 then { a with capped := true }
    else if s.length ≤ remaining then { a with content := a.content ++ s }
    else { a with content := a.content ++ validUpTo c s remaining, capped := true }

def parseChunkLocked (a : Accumulator) (payload : Bytes) : Accumulator :=
  match c.unmarshal payload with
  | none => a
  | some chunk => chunk.contents.foldl (appendContentLocked c) { a with usage := chunk.usage.or a.usage }

def handleLineLocked (a : Accumulator) (line : Bytes) : Accumulator :=
  if dataPrefix.isPrefixOf line then
    let payload := c.trimSpace (line.drop dataPrefix.length)
    if payload = doneSentinel then { a with complete := true, closed := true } else parseChunkLocked c a payload
  else a

/-- A line feed ends the line in the buffer, any other byte is added to it. -/
def drainByte (a : Accumulator) (b : UInt8) : Accumulator :=
  if b = 10 then handleLineLocked c { a with buf := [] } (a.buf.rdropWhile (· == 13)) else
    { a with buf := a.buf ++ [b] }

def drainLocked (a : Accumulator) (p : Bytes) : Accumulator := p.foldl (drainByte c) a

/-- The loop takes no notice of `closed`: behind `[DONE]` it reads on to the end of the chunk. -/
def write (a : Accumulator) (p : Bytes) : Accumulator := if a.closed then a else drainLocked c a p

def writes (chunks : List Bytes) : Accumulator := chunks.foldl (write c) newStreamAccumulator

end

def Accumulator.result (a : Accumulator) : Bytes × Option Usage × Bool := (a.content, a.usage, a.complete)

variable {c : Codec} {a : Accumulator}

/-! ## Lines -/

/-- The lines that have ended, and the one that has begun. -/
def splitByte (s : List Bytes × Bytes) (b : UInt8) : List Bytes × Bytes :=
  if b = 10 then (s.1 ++ [s.2.rdropWhile (· == 13)], []) else (s.1, s.2 ++ [b])

def splitLines (p : Bytes) : List Bytes × Bytes := p.foldl splitByte ([], [])

section
variable (c)

def isDone (line : Bytes) : Bool :=
  dataPrefix.isPrefixOf line && c.trimSpace (line.drop dataPrefix.length) == doneSentinel

def lineChunk (line : Bytes) : Option Chunk :=
  if dataPrefix.isPrefixOf line && !isDone c line then c.unmarshal (c.trimSpace (line.drop dataPrefix.length)) else none

def lineContents (line : Bytes) : List Bytes := (lineChunk c line).elim [] Chunk.contents

def lineUsage (line : Bytes) : Option Usage := (lineChunk c line).bind Chunk.usage

def readLines (lines : List Bytes) : Accumulator := lines.foldl (handleLineLocked c) newStreamAccumulator

end

/-- Contents are appended without regard to the other fields. -/
theorem appendContents_with (contents : List Bytes) (a : Accumulator) (buf : Bytes) (usage : Option Usage)
    (complete closed : Bool) :
    contents.foldl (appendContentLocked c) { a with buf, usage, complete, closed } =
      { contents.foldl (appendContentLocked c) a with buf, usage, complete, closed } := by
  induction contents generalizing a with
  | nil => rfl
  | cons s contents ih =>
    have happend : appendContentLocked c { a with buf, usage, complete, closed } s =
        { appendContentLocked c a s with buf, usage, complete, closed } := by
      unfold appendContentLocked
      dsimp only
      split_ifs <;> rfl
    rw [foldl_cons, happend, ih, foldl_cons]

theorem handleLineLocked_eq (a : Accumulator) (line : Bytes) : handleLineLocked c a line =
    { (lineContents c line).foldl (appendContentLocked c) a with
      buf := a.buf, usage := (lineUsage c line).or a.usage
      complete := a.complete || isDone c line, closed := a.closed || isDone c line } := by
  unfold handleLineLocked lineContents lineUsage
  by_cases hdata : dataPrefix.isPrefixOf line = true
  · by_cases hdone : c.trimSpace (line.drop dataPrefix.length) = doneSentinel
    · simp [lineChunk, isDone, hdata, hdone]
    · simp only [lineChunk, isDone, hdata, hdone, parseChunkLocked, beq_eq_false_iff_ne.mpr hdone, if_true, if_false,
        Bool.and_false, Bool.not_false, Bool.and_self, Bool.or_false]
      cases c.unmarshal (c.trimSpace (line.drop dataPrefix.length)) with
      | none => rfl
      | some chunk => exact appendContents_with chunk.contents a a.buf _ a.complete a.closed
  · simp [lineChunk, isDone, hdata]

theorem handleLines_eq (lines : List Bytes) (a : Accumulator) : lines.foldl (handleLineLocked c) a =
    { (lines.flatMap (lineContents c)).foldl (appendContentLocked c) a with
      buf := a.buf, usage := lines.foldl (fun u line => (lineUsage c line).or u) a.usage
      complete := a.complete || lines.any (isDone c), closed := a.closed || lines.any (isDone c) } := by
  induction lines generalizing a with
  | nil => simp
  | cons line lines ih =>
    rw [foldl_cons, handleLineLocked_eq, ih, flatMap_cons, foldl_append, appendContents_with]
    simp [Bool.or_assoc]

theorem drainLocked_eq (p : Bytes) : drainLocked c newStreamAccumulator p =
    { readLines c (splitLines p).1 with buf := (splitLines p).2 } := by
  have hstep : ∀ s, drainLocked c { readLines c s.1 with buf := s.2 } p =
      { readLines c (p.foldl splitByte s).1 with buf := (p.foldl splitByte s).2 } := by
    induction p with
    | nil => exact fun _ => rfl
    | cons b p ih =>
      intro s
      have hbyte : drainByte c { readLines c s.1 with buf := s.2 } b =
          { readLines c (splitByte s b).1 with buf := (splitByte s b).2 } := by
        unfold drainByte splitByte
        split_ifs
        · simp only [readLines, foldl_append, foldl_cons, foldl_nil, handleLineLocked_eq,
            appendContents_with]
        · rfl
      rw [drainLocked, foldl_cons, hbyte, foldl_cons]
      exact ih _
  exact hstep ([], [])

theorem closed_drainLocked (p : Bytes) :
    (drainLocked c newStreamAccumulator p).closed = (splitLines p).1.any (isDone c) := by
  rw [drainLocked_eq, readLines, handleLines_eq]
  exact Bool.false_or _

/-! ## Chunks -/

/-- Chunks are read up to the one that brings the line of `[DONE]`, and that one to its end. -/
theorem writes_eq (c : Codec) (chunks : List Bytes) : ∃ read unread, read ++ unread = chunks ∧
    writes c chunks = drainLocked c newStreamAccumulator read.flatten ∧
      (splitLines read.dropLast.flatten).1.any (isDone c) = false ∧
      (unread = [] ∨ (splitLines read.flatten).1.any (isDone c) = true) := by
  induction chunks using reverseRecOn with
  | nil => exact ⟨[], [], rfl, rfl, rfl, .inl rfl⟩
  | append_singleton chunks p ih =>
    obtain ⟨read, unread, hchunks, heq, hbefore, hend⟩ := ih
    have hwrite : writes c (chunks ++ [p]) = write c (writes c chunks) p := by simp [writes]
    rw [← closed_drainLocked, ← heq] at hend
    rw [hwrite, write]
    cases hclosed : (writes c chunks).closed with
    | true =>
      refine ⟨read, unread ++ [p], by rw [← append_assoc, hchunks], heq, hbefore, .inr ?_⟩
      rw [← closed_drainLocked, ← heq, hclosed]
    | false =>
      obtain rfl : unread = [] := hend.resolve_right (by simp [hclosed])
      rw [append_nil] at hchunks
      subst hchunks
      refine ⟨read ++ [p], [], append_nil _, ?_, ?_, .inl rfl⟩
      · simp [heq, drainLocked, foldl_append]
      · rw [dropLast_concat, ← closed_drainLocked, ← heq, hclosed]

theorem splitLines_concat (p : Bytes) (b : UInt8) : (splitLines (p ++ [b])).1 = (splitLines p).1 ∨
    ∃ line, (splitLines (p ++ [b])).1 = (splitLines p).1 ++ [line] := by
  rw [splitLines, foldl_append]
  simp only [foldl_cons, foldl_nil, splitByte]
  split_ifs
  · exact .inr ⟨_, rfl⟩
  · exact .inl rfl

theorem splitLines_prefix (x y : Bytes) : (splitLines x).1 <+: (splitLines (x ++ y)).1 := by
  induction y using reverseRecOn with
  | nil => simp
  | append_singleton y b ih =>
    rw [← append_assoc]
    rcases splitLines_concat (x ++ y) b with heq | ⟨line, heq⟩ <;> rw [heq]
    · exact ih
    · exact ih.trans (prefix_append _ _)

/-- Every number of lines can be cut off. -/
theorem exists_splitLines {lines : List Bytes} {bytes : Bytes} (h : lines <+: (splitLines bytes).1) :
    ∃ x y, x ++ y = bytes ∧ (splitLines x).1 = lines := by
  induction bytes using reverseRecOn with
  | nil => exact ⟨[], [], rfl, (prefix_nil.mp h).symm⟩
  | append_singleton p b ih =>
    by_cases hp : lines <+: (splitLines p).1
    · obtain ⟨x, y, rfl, hx⟩ := ih hp
      exact ⟨x, y ++ [b], by simp, hx⟩
    · refine ⟨p ++ [b], [], by simp, ?_⟩
      rcases splitLines_concat p b with heq | ⟨line, heq⟩
      · exact absurd (heq ▸ h) hp
      · rw [heq] at h ⊢
        exact ((prefix_concat_iff.mp h).resolve_right hp).symm

theorem content_prefix_foldl (contents : List Bytes) (a : Accumulator) :
    a.content <+: (contents.foldl (appendContentLocked c) a).content := by
  induction contents generalizing a with
  | nil => exact prefix_rfl
  | cons s contents ih =>
    refine .trans ?_ (ih _)
    unfold appendContentLocked
    dsimp only
    split_ifs <;> simp

/-! ## Behind `[DONE]` -/

def Accumulator.room (a : Accumulator) : Nat := if a.capped then 0 else maxAccumulatedContentBytes - a.content.length

theorem appendContentLocked_of_ne {s : Bytes} (hs : s ≠ []) : (appendContentLocked c a s).content =
      a.content ++ (if s.length ≤ a.room then s else validUpTo c s a.room) ∧
    (a.room < s.length → (appendContentLocked c a s).capped = true) := by
  have hlen := length_pos_iff.mpr hs
  unfold appendContentLocked Accumulator.room
  by_cases hcap : a.capped = true
  · simp [hcap, validUpTo, hs]
  · by_cases hroom : maxAccumulatedContentBytes - a.content.length = 0
    · simp [hcap, hs, hroom, validUpTo]
    · by_cases hle : s.length ≤ maxAccumulatedContentBytes - a.content.length
      · simp [hcap, hs, hroom, hle]
      · simp [hcap, hs, hroom, hle]

theorem appendContents_capped (h : a.capped = true) (contents : List Bytes) :
    contents.foldl (appendContentLocked c) a = a := by
  induction contents with
  | nil => rfl
  | cons s contents ih => simpa [appendContentLocked, h] using ih

/-- The first content that is not empty decides: when nothing of it is taken, nothing of the others is. -/
theorem appendContents_eq_iff (contents : List Bytes) : (contents.foldl (appendContentLocked c) a).content = a.content ↔
    ∀ s, contents.find? (!·.isEmpty) = some s → a.room < s.length ∧ validUpTo c s a.room = [] := by
  induction contents with
  | nil => simp
  | cons s contents ih =>
    by_cases hs : s = []
    · simpa [hs, appendContentLocked] using ih
    · obtain ⟨hcontent, hcapped⟩ := appendContentLocked_of_ne (c := c) (a := a) hs
      simp only [foldl_cons, find?_cons, isEmpty_eq_false_iff.mpr hs, Bool.not_false, Option.some.injEq, forall_eq']
      constructor
      · intro heq
        have hle := content_prefix_foldl (c := c) contents (appendContentLocked c a s)
        rw [heq, hcontent] at hle
        have hnil := append_right_eq_self.mp ((prefix_append _ _).eq_of_length_le hle.length_le).symm
        split at hnil
        · exact absurd hnil hs
        · exact ⟨by omega, hnil⟩
      · rintro ⟨hlt, hnil⟩
        rw [appendContents_capped (hcapped hlt), hcontent, if_neg (by omega), hnil, append_nil]

/-- Behind `[DONE]` comes no usage other than that of the accumulator, and of the first content that is not empty
nothing fits under the limit. -/
structure NothingLate (c : Codec) (a : Accumulator) (behind : List Bytes) : Prop where
  usage : ∀ line ∈ behind, ∀ u, lineUsage c line = some u → a.usage = some u
  content : ∀ s, (behind.flatMap (lineContents c)).find? (!·.isEmpty) = some s →
    a.room < s.length ∧ validUpTo c s a.room = []

section
variable {before late behind : List Bytes} {done bytes : Bytes}

theorem foldl_usage_eq (lines : List Bytes) {usage : Option Usage}
    (h : ∀ line ∈ lines, ∀ u, lineUsage c line = some u → usage = some u) :
    lines.foldl (fun u line => (lineUsage c line).or u) usage = usage := by
  induction lines with
  | nil => rfl
  | cons line lines ih =>
    have hline : (lineUsage c line).or usage = usage := by
      cases hu : lineUsage c line with
      | none => rfl
      | some u => exact (h line (by simp) u hu).symm
    rw [foldl_cons, hline]
    exact ih fun l hl => h l (by simp [hl])

theorem result_readLines (hdone : isDone c done = true) (late : List Bytes) :
    (readLines c (before ++ done :: late)).result =
      (((late.flatMap (lineContents c)).foldl (appendContentLocked c) (readLines c before)).content,
        late.foldl (fun u line => (lineUsage c line).or u) (readLines c before).usage, true) := by
  have hline : handleLineLocked c (readLines c before) done =
      { readLines c before with complete := true, closed := true } := by
    simp only [isDone, Bool.and_eq_true, beq_iff_eq] at hdone
    simp [handleLineLocked, hdone]
  rw [readLines, foldl_append, foldl_cons, ← readLines, hline, handleLines_eq, appendContents_with]
  rfl

theorem NothingLate.result (h : NothingLate c (readLines c before) behind) (hdone : isDone c done = true)
    (hlate : late <+: behind) : (readLines c (before ++ done :: late)).result =
      ((readLines c before).content, (readLines c before).usage, true) := by
  obtain ⟨rest, rfl⟩ := hlate
  have husage := foldl_usage_eq late fun line hline => h.usage line (by simp [hline])
  have hle := content_prefix_foldl (c := c) (rest.flatMap (lineContents c))
    ((late.flatMap (lineContents c)).foldl (appendContentLocked c) (readLines c before))
  have hcontent := (appendContents_eq_iff _).mpr h.content
  rw [flatMap_append, foldl_append] at hcontent
  rw [hcontent] at hle
  rw [result_readLines hdone, husage, ← (content_prefix_foldl _ _).eq_of_length_le hle.length_le]

/-- A chunk may end behind any of the lines from `[DONE]` on. -/
theorem exists_writes (hdone : isDone c done = true) (h : before ++ done :: late <+: (splitLines bytes).1) :
    ∃ chunks, chunks.flatten = bytes ∧ (writes c chunks).result = (readLines c (before ++ done :: late)).result := by
  obtain ⟨x, y, hxy, hx⟩ := exists_splitLines h
  have hclosed : (drainLocked c newStreamAccumulator x).closed = true := by simp [closed_drainLocked, hx, hdone]
  have hstop : writes c [x, y] = drainLocked c newStreamAccumulator x := if_pos hclosed
  refine ⟨[x, y], by simpa using hxy, ?_⟩
  rw [hstop, drainLocked_eq, hx]
  rfl

/-- Whatever the chunks, either all lines are read, or `[DONE]` is among those that are. -/
theorem writes_lines (c : Codec) (chunks : List Bytes) : ∃ lines, lines <+: (splitLines chunks.flatten).1 ∧
    (writes c chunks).result = (readLines c lines).result ∧
      (lines = (splitLines chunks.flatten).1 ∨ lines.any (isDone c) = true) := by
  obtain ⟨read, unread, rfl, heq, -, hend⟩ := writes_eq c chunks
  refine ⟨(splitLines read.flatten).1, ?_, by rw [heq, drainLocked_eq]; rfl, hend.imp_left fun h => by simp [h]⟩
  rw [flatten_append]
  exact splitLines_prefix _ _

/-- The ways of splitting agree exactly if the lines behind the first `[DONE]` add nothing. -/
theorem writes_agree_iff (c : Codec) (bytes : Bytes) :
    (∀ chunks chunks', chunks.flatten = bytes → chunks'.flatten = bytes →
      (writes c chunks).result = (writes c chunks').result) ↔
    ∀ before done behind, (splitLines bytes).1 = before ++ done :: behind → isDone c done = true →
      before.any (isDone c) = false → NothingLate c (readLines c before) behind := by
  constructor
  · intro h before done behind hlines hdone _
    -- what has been collected behind any of the lines is what has been collected at the end
    have hcut : ∀ late rest, late ++ rest = behind → (readLines c (before ++ done :: late)).result =
        (writes c [bytes]).result := by
      rintro late rest rfl
      have hpre : before ++ done :: late <+: (splitLines bytes).1 := ⟨rest, by simp [hlines]⟩
      obtain ⟨chunks, hchunks, heq⟩ := exists_writes hdone hpre
      exact heq.symm.trans (h chunks [bytes] hchunks (by simp))
    have hsame : ∀ late rest, late ++ rest = behind → (readLines c (before ++ done :: late)).result =
        (readLines c (before ++ done :: [])).result := fun late rest hl =>
      (hcut late rest hl).trans (hcut [] behind rfl).symm
    simp only [result_readLines hdone, flatMap_nil, foldl_nil, Prod.mk.injEq, and_true] at hsame
    refine ⟨fun line hline u hu => ?_, (appendContents_eq_iff _).mp (hsame behind [] (append_nil _)).1⟩
    obtain ⟨late, rest, rfl⟩ := append_of_mem hline
    have hlast := (hsame (late ++ [line]) rest (by simp)).2
    simpa [hu] using hlast.symm
  · intro h
    have hall : ∀ chunks, chunks.flatten = bytes →
        (writes c chunks).result = (readLines c (splitLines bytes).1).result := by
      rintro chunks rfl
      obtain ⟨lines, hle, heq, hend⟩ := writes_lines c chunks
      rw [heq]
      rcases hend with rfl | hany
      · rfl
      · obtain ⟨done, hfind⟩ := Option.isSome_iff_exists.mp (find?_isSome.mpr (any_eq_true.mp hany))
        obtain ⟨hdone, before, late, rfl, hbefore⟩ := find?_eq_some_iff_append.mp hfind
        obtain ⟨rest, hrest⟩ := hle
        have hlines : before ++ done :: (late ++ rest) = (splitLines chunks.flatten).1 := by simpa using hrest
        have hnothing := h before done (late ++ rest) hlines.symm hdone (by simpa using hbefore)
        rw [← hlines, hnothing.result hdone (prefix_append _ _), hnothing.result hdone prefix_rfl]
    intro chunks chunks' hchunks hchunks'
    rw [hall chunks hchunks, hall chunks' hchunks']

end

def samplePayload : Bytes :=
  "\x7b\"choices\":[\x7b\"delta\":\x7b\"content\":\"x\"\x7d\x7d]\x7d".toList.map fun ch => .ofNat ch.toNat

/-- Knows one payload, as `encoding/json` decodes it. -/
def sampleCodec : Codec where
  trimSpace s := (s.dropWhile (· == 32)).rdropWhile (· == 32)
  unmarshal s := if s = samplePayload then some ⟨none, [[120]]⟩ else none
  validString _ := true

/-- The line of the chunk behind the line of `[DONE]`. -/
theorem writes_differ :
    (writes sampleCodec [dataPrefix ++ doneSentinel ++ [10] ++ dataPrefix ++ samplePayload ++ [10]]).result =
      ([120], none, true) ∧
    (writes sampleCodec [dataPrefix ++ doneSentinel ++ [10], dataPrefix ++ samplePayload ++ [10]]).result =
      ([], none, true) := by
  decide +kernel

/-! ## The content -/

/-- The accumulator has read `text` and the beginning of another line. -/
structure Keeps (text begun : Bytes) (a : Accumulator) : Prop where
  buf : a.buf = begun
  length_le : a.content.length ≤ maxAccumulatedContentBytes
  cut : a.content <+: text
  whole : a.capped = false → a.content = text

theorem validUpTo_eq_take (s : Bytes) (n : Nat) : ∃ k ≤ n, validUpTo c s n = s.take k := by
  induction n with
  | zero => exact ⟨0, Nat.le_refl 0, rfl⟩
  | succ n ih =>
    unfold validUpTo
    split
    · exact ⟨n + 1, Nat.le_refl _, rfl⟩
    · obtain ⟨k, hk, heq⟩ := ih
      exact ⟨k, Nat.le_succ_of_le hk, heq⟩

variable {text begun : Bytes}

theorem Keeps.append (h : Keeps text begun a) (s : Bytes) : Keeps (text ++ s) begun (appendContentLocked c a s) := by
  unfold appendContentLocked
  by_cases hcap : a.capped = true
  · simp only [hcap, Bool.or_true, if_true]
    exact { h with cut := h.cut.trans (prefix_append _ _), whole := by simp [hcap] }
  have hle := h.length_le
  obtain rfl := h.whole (by simpa using hcap)
  simp only [hcap, Bool.or_false]
  split_ifs with hs
  · exact ⟨h.buf, hle, prefix_append _ _, fun _ => by simpa using hs⟩
  · exact ⟨h.buf, hle, prefix_append _ _, by simp⟩
  · exact ⟨h.buf, by simp only [length_append]; omega, prefix_rfl, fun _ => rfl⟩
  · obtain ⟨k, hk, htake⟩ := validUpTo_eq_take (c := c) s (maxAccumulatedContentBytes - a.content.length)
    rw [htake]
    refine ⟨h.buf, ?_, (prefix_append_right_inj _).mpr ( take_prefix k s), by simp⟩
    simp only [length_append, length_take]
    omega

theorem Keeps.contents (h : Keeps text begun a) (contents : List Bytes) :
    Keeps (text ++ contents.flatten) begun (contents.foldl (appendContentLocked c) a) := by
  induction contents generalizing a text with
  | nil => simpa using h
  | cons s contents ih => simpa using ih (h.append s)

end IbexHarness.Stream
