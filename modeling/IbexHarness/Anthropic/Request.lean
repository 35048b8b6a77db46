import IbexHarness.Lib.Machine
import IbexHarness.PolicySnapshot.Snapshot

/-! `extractSystemAndTurns` of `packages/provider/anthropic/request.go`. -/

namespace IbexHarness.Anthropic

open Lib Lib.Text List PolicySnapshot.Claims

/-- What the adapter takes from `unicode.ToLower` and from the verb `%q`. -/
structure Unicode where
  toLower : Char → Char
  toLower_toLower : ∀ c, toLower (toLower c) = toLower c
  isWhiteSpace_toLower : ∀ c, isWhiteSpace (toLower c) = isWhiteSpace c
  quoted : Text → Text

structure Message where
  role : Text
  content : Text
deriving DecidableEq

def user : Text := "user".toList

def assistant : Text := "assistant".toList

def blankLine : Text := ['\n', '\n']

/-! ## System messages -/

/-- `strings.EqualFold`. -/
def isSystem (role : Text) : Bool := sameName role "system"

def peelSystemPrefix (messages : List Message) : Text × List Message :=
  (blankLine.intercalate (((messages.takeWhile (isSystem ·.role)).map (trimSpace ·.content)).filter (!·.isEmpty)),
    messages.dropWhile (isSystem ·.role))

def appendSystemPart (system content : Text) : Text :=
  let s := trimSpace content
  if s.isEmpty then system else if system.isEmpty then s else system ++ blankLine ++ s

def foldMidConversationSystem (system : Text) (messages : List Message) : Text × List Message :=
  messages.foldl (fun (system, out) m =>
    if isSystem (trimSpace m.role) then (appendSystemPart system m.content, out) else (system, out ++ [m])) (system, [])

/-! ## Turns -/

section
variable (u : Unicode)

def lowerRole (m : Message) : Text := (trimSpace m.role).map u.toLower

def appendCoalescedContent (b next : Text) : Text :=
  if next.isEmpty then b else if b.isEmpty then next else b ++ blankLine ++ next

/-- The loop of `coalesceTurns`, in a turn of the role. -/
def coalesceFrom (curRole content : Text) : List Message → List Message
  | [] => [⟨curRole, content⟩]
  | m :: ms =>
    if lowerRole u m = curRole then coalesceFrom curRole (appendCoalescedContent content m.content) ms
    else ⟨curRole, content⟩ :: coalesceFrom (lowerRole u m) m.content ms

def coalesceTurns : List Message → List Message
  | [] => []
  | m :: ms => coalesceFrom u (lowerRole u m) m.content ms

def mapAnthropicTurn (m : Message) : Except Text Message :=
  if lowerRole u m = user ∨ lowerRole u m = assistant then
    if (trimSpace m.content).isEmpty then .error "anthropic turn content must be non-empty".toList
    else .ok ⟨lowerRole u m, m.content⟩
  else if lowerRole u m = "tool".toList then
    .error "anthropic tool-role messages are not supported in this adapter".toList
  else .error ("unsupported message role ".toList ++ u.quoted m.role ++ " for anthropic".toList)

def buildAnthropicTurns (system : Text) (rest : List Message) : Except Text (Text × List Message) :=
  match coalesceTurns u rest with
  | [] => .error "anthropic requires at least one non-system message".toList
  | first :: coalesced =>
    if sameName first.role "user" then do
      let turns ← (first :: coalesced).mapM (mapAnthropicTurn u)
      .ok (system, turns)
    else .error "anthropic conversation must start with a user turn after system messages".toList

def extractSystemAndTurns (messages : List Message) : Except Text (Text × List Message) :=
  let (system, rest) := peelSystemPrefix messages
  let (system, rest) := foldMidConversationSystem system rest
  buildAnthropicTurns u system rest

end

/-! ## What a conversation is translated to -/

/-- The parts that are not empty, with a blank line between two of them. -/
def join (parts : List Text) : Text := blankLine.intercalate (parts.filter (!·.isEmpty))

def Message.isSystem (m : Message) : Bool := Anthropic.isSystem (trimSpace m.role)

/-- A turn for a run of messages of its role. -/
structure TurnOf (u : Unicode) (run : List Message) (turn : Message) : Prop where
  ne_nil : run ≠ []
  role : ∀ m ∈ run, lowerRole u m = turn.role
  content : turn.content = join (run.map (·.content))

theorem join_concat (parts : List Text) (s : Text) : join (parts ++ [s]) = appendCoalescedContent (join parts) s := by
  unfold appendCoalescedContent
  cases hs : s.isEmpty with
  | true => simp [join, hs]
  | false =>
    have hfilter : (parts ++ [s]).filter (!·.isEmpty) = parts.filter (!·.isEmpty) ++ [s] := by simp [hs]
    rw [join, hfilter]
    cases hparts : parts.filter (!·.isEmpty) with
    | nil => simp [join, hparts]
    | cons p ps =>
      have hp : p ∈ parts.filter (!·.isEmpty) := hparts ▸ mem_cons_self
      have hne : ¬(join parts).isEmpty = true := by
        rw [join, hparts, Code.intercalate_cons]
        simpa using fun hnil => absurd (of_mem_filter hp) (by simp [hnil])
      rw [if_neg (by simp), if_neg hne, join, hparts, cons_append, Code.intercalate_cons, Code.intercalate_cons]
      simp

theorem trimSpace_of_isSystem {role : Text} (h : isSystem role = true) : trimSpace role = role := by
  have hspace : ∀ c ∈ role, ¬isWhiteSpace c = true := by
    intro c hc hsp
    have hrole : role.map foldChar = ['S', 'Y', 'S', 'T', 'E', 'M'] := (of_decide_eq_true h).trans (by decide)
    have hmem := hrole ▸ mem_map_of_mem (f := foldChar) hc
    simp only [isWhiteSpace, Bool.or_eq_true, Bool.and_eq_true, decide_eq_true_eq, beq_iff_eq] at hsp
    have hup : c.toUpper = c := by
      refine dif_neg fun hlow => ?_
      have hlo : 97 ≤ c.toNat := hlow.1
      have hhi : c.toNat ≤ 122 := hlow.2
      omega
    -- no white space folds to a letter
    have hfold : foldChar c = c := by
      unfold foldChar
      split_ifs with hlong hkelvin
      · simp [hlong] at hsp
      · simp [hkelvin] at hsp
      · exact hup
    rw [hfold] at hmem
    simp only [mem_cons, not_mem_nil, or_false] at hmem
    rcases hmem with rfl | rfl | rfl | rfl | rfl | rfl <;> simp at hsp
  rw [trimSpace, stripBy, dropWhile_eq_self_iff.mpr fun _ => hspace _ (getElem_mem _),
    rdropWhile_eq_self_iff.mpr fun _ => hspace _ (getLast_mem _)]

variable {u : Unicode} {ms run : List Message} {turn : Message}

theorem TurnOf.concat (h : TurnOf u run turn) {m : Message} (hm : lowerRole u m = turn.role) :
    TurnOf u (run ++ [m]) ⟨turn.role, appendCoalescedContent turn.content m.content⟩ where
  ne_nil := by simp
  role := forall_mem_append.mpr ⟨h.role, by simpa using hm⟩
  content := by rw [map_append, map_singleton, join_concat, h.content]

theorem TurnOf.single (m : Message) : TurnOf u [m] ⟨lowerRole u m, m.content⟩ := by
  refine ⟨by simp, by simp, ?_⟩
  cases hc : m.content <;> simp [join, List.intercalate, hc]

theorem coalesceFrom_runs (h : TurnOf u run turn) (ms : List Message) :
    ∃ runs, runs.flatten = run ++ ms ∧ Forall₂ (TurnOf u) runs (coalesceFrom u turn.role turn.content ms) ∧
      ((coalesceFrom u turn.role turn.content ms).map (·.role)).IsChain (· ≠ ·) ∧
      ((coalesceFrom u turn.role turn.content ms).map (·.role)).head? = some turn.role := by
  induction ms generalizing run turn with
  | nil => exact ⟨[run], by simp, .cons h .nil, .singleton _, rfl⟩
  | cons m ms ih =>
    rw [coalesceFrom]
    split_ifs with hm
    · obtain ⟨runs, hflat, hturns, hchain, hhead⟩ := ih (h.concat hm)
      exact ⟨runs, by simpa using hflat, hturns, hchain, hhead⟩
    · obtain ⟨runs, hflat, hturns, hchain, hhead⟩ := ih (.single m)
      refine ⟨run :: runs, by simpa using hflat, .cons h hturns, ?_, rfl⟩
      obtain ⟨roles, hroles⟩ := head?_eq_some_iff.mp hhead
      rw [hroles] at hchain
      rw [map_cons, hroles]
      exact isChain_cons_cons.mpr ⟨Ne.symm hm, hchain⟩

theorem foldMidConversationSystem_eq (parts : List Text) (ms : List Message) :
    foldMidConversationSystem (join parts) ms =
      (join (parts ++ (ms.filter (·.isSystem)).map (trimSpace ·.content)), ms.filter (!·.isSystem)) := by
  unfold foldMidConversationSystem
  suffices h : ∀ out, ms.foldl _ (join parts, out) =
      (join (parts ++ (ms.filter (·.isSystem)).map (trimSpace ·.content)), out ++ ms.filter (!·.isSystem)) from h []
  induction ms generalizing parts with
  | nil => simp
  | cons m ms ih =>
    intro out
    cases hm : isSystem (trimSpace m.role) with
    | true =>
      have happend : appendSystemPart (join parts) m.content = join (parts ++ [trimSpace m.content]) :=
        (join_concat _ _).symm
      simp [hm, Message.isSystem, happend, ih]
    | false => simp [hm, Message.isSystem, ih]

theorem extract_eq (u : Unicode) (ms : List Message) : extractSystemAndTurns u ms =
      buildAnthropicTurns u (join ((ms.filter (·.isSystem)).map (trimSpace ·.content))) (ms.filter (!·.isSystem)) := by
  have hpeeled : ∀ m ∈ ms.takeWhile (isSystem ·.role), m.isSystem = true := by
    intro m hm
    have hsystem := mem_takeWhile_imp hm
    rwa [Message.isSystem, trimSpace_of_isSystem hsystem]
  have hsplit := takeWhile_append_dropWhile (p := (isSystem ·.role)) (l := ms)
  have hsystem := congrArg (filter (·.isSystem)) hsplit
  have hrest := congrArg (filter (!·.isSystem)) hsplit
  rw [filter_append, filter_eq_self.mpr hpeeled] at hsystem
  rw [filter_append, filter_eq_nil_iff.mpr fun m hm => by simp [hpeeled m hm], nil_append] at hrest
  have hfold := foldMidConversationSystem_eq ((ms.takeWhile (isSystem ·.role)).map (trimSpace ·.content))
    (ms.dropWhile (isSystem ·.role))
  rw [← map_append, hsystem, hrest] at hfold
  exact congrArg (fun p => buildAnthropicTurns u p.1 p.2) hfold

theorem lowerRole_of_turn (h : TurnOf u run turn) : lowerRole u turn = turn.role := by
  obtain ⟨m, hm⟩ := exists_mem_of_ne_nil _ h.ne_nil
  have hmap : ∀ s : Text, trimSpace (s.map u.toLower) = (trimSpace s).map u.toLower := by
    intro s
    have hspace : isWhiteSpace ∘ u.toLower = isWhiteSpace := funext u.isWhiteSpace_toLower
    simp only [trimSpace, stripBy, rdropWhile, dropWhile_map, ← map_reverse, hspace]
  have hlower : u.toLower ∘ u.toLower = u.toLower := funext u.toLower_toLower
  rw [lowerRole, ← h.role m hm, lowerRole, hmap, trimSpace_trimSpace, map_map, hlower]

theorem lowerRole_of_turns {runs : List (List Message)} {turns : List Message} (h : Forall₂ (TurnOf u) runs turns) :
    ∀ t ∈ turns, lowerRole u t = t.role := by
  induction h with
  | nil => simp
  | cons hturn _ ih => exact forall_mem_cons.mpr ⟨lowerRole_of_turn hturn, ih⟩

theorem mapM_turns {turns : List Message} (hrole : ∀ m ∈ ms, lowerRole u m = m.role)
    (h : ms.mapM (mapAnthropicTurn u) = .ok turns) : turns = ms ∧ ∀ m ∈ ms, m.role = user ∨ m.role = assistant := by
  induction ms generalizing turns with
  | nil => cases h; simp
  | cons m ms ih =>
    rw [mapM_cons] at h
    obtain ⟨t, ht, h⟩ := Except.bind_eq_ok.mp h
    obtain ⟨ts, hts, h⟩ := Except.bind_eq_ok.mp h
    cases h
    obtain ⟨rfl, hroles⟩ := ih (fun m hm => hrole m (mem_cons_of_mem _ hm)) hts
    unfold mapAnthropicTurn at ht
    rw [hrole m mem_cons_self] at ht
    split_ifs at ht with hu
    cases ht
    exact ⟨rfl, forall_mem_cons.mpr ⟨hu, hroles⟩⟩

/-- The system messages become one text, and the others turns that alternate and begin with the user, each from a run of
messages of one role. -/
theorem turns_of_conversation (u : Unicode) (ms : List Message) (system : Text) (turns : List Message)
    (h : extractSystemAndTurns u ms = .ok (system, turns)) :
    system = join ((ms.filter (·.isSystem)).map (trimSpace ·.content)) ∧
      (turns.map (·.role)).head? = some user ∧ (∀ t ∈ turns, t.role = user ∨ t.role = assistant) ∧
      (turns.map (·.role)).IsChain (· ≠ ·) ∧
      ∃ runs, runs.flatten = ms.filter (!·.isSystem) ∧ Forall₂ (TurnOf u) runs turns := by
  rw [extract_eq, buildAnthropicTurns] at h
  cases hrest : ms.filter (!·.isSystem) with
  | nil => simp [hrest, coalesceTurns] at h
  | cons m rest =>
    obtain ⟨runs, hflat, hruns, hchain, hhead⟩ := coalesceFrom_runs (u := u) (.single m) rest
    rw [hrest, coalesceTurns] at h
    cases hturns : coalesceFrom u (lowerRole u m) m.content rest with
    | nil => simp [hturns] at hhead
    | cons first coalesced =>
      simp only [hturns] at h hruns hchain
      split_ifs at h with huser
      obtain ⟨ts, hts, h⟩ := Except.bind_eq_ok.mp h
      cases h
      obtain ⟨rfl, hroles⟩ := mapM_turns (lowerRole_of_turns hruns) hts
      have hfirst : first.role = user := by
        refine (hroles first mem_cons_self).resolve_right fun hassistant => ?_
        rw [hassistant] at huser
        exact absurd huser (by decide)
      exact ⟨rfl, congrArg some hfirst, hroles, hchain, runs, hflat, hruns⟩

def sampleUnicode : Unicode := ⟨id, fun _ => rfl, fun _ => rfl, id⟩

/-- Two runs with an empty message, and a system message before and behind them. -/
theorem turns_of_conversation_sample :
    ∃ runs, runs.flatten = [⟨user, ['a']⟩, ⟨user, []⟩, ⟨user, ['b']⟩, ⟨assistant, ['c']⟩] ∧
      Forall₂ (TurnOf sampleUnicode) runs [⟨user, ['a', '\n', '\n', 'b']⟩, ⟨assistant, ['c']⟩] :=
  (turns_of_conversation sampleUnicode
    [⟨"System".toList, ['x', ' ']⟩, ⟨user, ['a']⟩, ⟨user, []⟩, ⟨user, ['b']⟩, ⟨assistant, ['c']⟩,
      ⟨" system".toList, ['y']⟩]
    ['x', '\n', '\n', 'y'] _ (by decide +kernel)).2.2.2.2

end IbexHarness.Anthropic
