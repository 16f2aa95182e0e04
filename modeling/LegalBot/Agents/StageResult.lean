/-
`agents/stage_result.py`: the handoff of a stage, made from its messages.

# The keys

The payload of a tool message is what its text says in JSON, or the
content as it is (`messagePayload`). `collectArtifactKeys` is what
`_collect_artifact_keys` adds for a value; a member is either taken for
the name of a key (`namedBy`) or looked into.

`Named` says where in a value a key is named; the collector finds
exactly those keys (`mem_collectArtifactKeys`).
-/
import LegalBot.Agents.Domain
import LegalBot.Agents.StageMessages
import LegalBot.Json.Loads
import Mathlib.Data.Finset.Sort
import Mathlib.Data.String.Basic

namespace LegalBot.Stages

open Tools (prefixOf)

-- ====================================================================== keys

/-- The strings of a list. -/
def stringsOf (items : List Json) : Finset String :=
  (items.filterMap fun item =>
    match item with
    | .str s => some s
    | _ => none).toFinset

/-- `key.endswith("_artifact_key")`. -/
def endsInArtifactKey (name : String) : Bool :=
  "_artifact_key".toList.isSuffixOf name.toList

/-- The keys a member names; `none` when it is looked into instead. -/
def namedBy (name : String) (child : Json) : Option (Finset String) :=
  match child with
  | .str s =>
      if name = "key" ∨ endsInArtifactKey name then some {s} else none
  | .arr items =>
      if name = "artifact_keys" then some (stringsOf items) else none
  | _ => none

mutual

/-- `_collect_artifact_keys`: the keys it adds. -/
def collectArtifactKeys : Json → Finset String
  | .obj members => collectMembers members
  | .arr items => collectItems items
  | _ => ∅

def collectMembers : List (String × Json) → Finset String
  | [] => ∅
  | (name, child) :: rest =>
      match namedBy name child with
      | some found => found ∪ collectMembers rest
      | none => collectArtifactKeys child ∪ collectMembers rest

def collectItems : List Json → Finset String
  | [] => ∅
  | item :: rest => collectArtifactKeys item ∪ collectItems rest

end

/-- The key is named somewhere in the value. -/
inductive Named : Json → String → Prop
  | member {members : List (String × Json)} {name : String} {child : Json}
      {found : Finset String} {k : String} :
      (name, child) ∈ members → namedBy name child = some found →
      k ∈ found → Named (.obj members) k
  | inside {members : List (String × Json)} {name : String} {child : Json}
      {k : String} :
      (name, child) ∈ members → namedBy name child = none →
      Named child k → Named (.obj members) k
  | item {items : List Json} {item : Json} {k : String} :
      item ∈ items → Named item k → Named (.arr items) k

-- ================================================================== messages

section Result

variable (floatRepr : String → String)

/-- `_message_payload`. -/
def messagePayload (message : Message) : Json :=
  match message.content with
  | .str text => (Json.loads floatRepr text).getD (.str text)
  | content => content

/-- `_artifact_keys_from_messages`. -/
def artifactKeysFromMessages : List Message → Finset String
  | [] => ∅
  | message :: rest =>
      if message.type = some "tool" then
        collectArtifactKeys (messagePayload floatRepr message)
          ∪ artifactKeysFromMessages rest
      else artifactKeysFromMessages rest

/-- `v or None`, of a text. -/
def nonEmpty (text : String) : Option String :=
  if text = "" then none else some text

/-- The texts of the blocks that have one. -/
def blockTexts (blocks : List Json) : List String :=
  blocks.filterMap fun block =>
    match Json.getMember block.members "text" with
    | some (.str text) => some text
    | _ => none

/-- `_text_content`. -/
def textContent : Json → Option String
  | .str text => nonEmpty (strip text)
  | .arr blocks => nonEmpty (strip ("\n".intercalate (blockTexts blocks)))
  | _ => none

/-- `_latest_ai_text`. -/
def latestAiText (messages : List Message) : Option String :=
  (messages.reverse.findSome? fun message =>
    if message.type = some "ai" ∨ message.type = some "assistant" then
      textContent message.content
    else none).map (prefixOf 500)

/-- `_HUMAN_TOOL_NAMES`. -/
def humanToolNames : List String := ["ask_human", "request_human_approval"]

/-- `_last_message_is_human_tool`. -/
def lastMessageIsHumanTool (messages : List Message) : Bool :=
  match messages.getLast? with
  | none => false
  | some last =>
      last.type = some "tool"
        ∧ humanToolNames.any fun name => last.name = .str name

/-- `_primary_artifact_key`; a single candidate is a list of one. -/
def primaryArtifactKey (candidates : Option (List String))
    (artifactKeys : List String) : Option String :=
  candidates.bind fun names => names.find? (· ∈ artifactKeys)

/-- `StageResult`. -/
structure StageResult where
  stage : String
  status : String
  summary : String
  primaryArtifactKey : Option String
  artifactKeys : List String
  needsHuman : Bool
  nextStage : Option String
  deriving DecidableEq, Repr

/-- `sorted(keys)`. -/
def sorted (keys : Finset String) : List String := keys.sort

/-- `build_stage_result`. -/
def buildStageResult (messages : List Message) (stage : String)
    (primary : Option (List String)) (nextStage : Option String) :
    StageResult :=
  let artifactKeys := sorted (artifactKeysFromMessages floatRepr messages)
  let needsHuman := lastMessageIsHumanTool messages
  { stage := stage
    status := if needsHuman then "awaiting_human" else "completed"
    summary := (latestAiText messages).getD (stage ++ " stage completed.")
    primaryArtifactKey := primaryArtifactKey primary artifactKeys
    artifactKeys := artifactKeys
    needsHuman := needsHuman
    nextStage := if needsHuman then none else nextStage }

end Result

-- ================================================================ what is found

section Found

variable {k : String} {floatRepr : String → String} {messages : List Message}

mutual

theorem named_of_collect : ∀ v : Json, k ∈ collectArtifactKeys v → Named v k
  | .obj members, h => by
      rw [collectArtifactKeys] at h
      obtain ⟨name, child, hmem, hnamed⟩ := named_of_collectMembers members h
      rcases hnamed with ⟨found, hfound, hk⟩ | ⟨hnone, hchild⟩
      · exact .member hmem hfound hk
      · exact .inside hmem hnone hchild
  | .arr items, h => by
      rw [collectArtifactKeys] at h
      obtain ⟨item, hmem, hitem⟩ := named_of_collectItems items h
      exact .item hmem hitem
  | .null, h | .bool _, h | .int _, h | .float _, h | .str _, h => by
      simp [collectArtifactKeys] at h

theorem named_of_collectMembers : ∀ members : List (String × Json),
    k ∈ collectMembers members → ∃ name child, (name, child) ∈ members
      ∧ ((∃ found, namedBy name child = some found ∧ k ∈ found)
        ∨ namedBy name child = none ∧ Named child k)
  | [], h => by simp [collectMembers] at h
  | (name, child) :: rest, h => by
      rw [collectMembers] at h
      cases hfound : namedBy name child with
      | some found =>
          rw [hfound] at h
          rcases Finset.mem_union.mp h with h | h
          · exact ⟨name, child, List.mem_cons_self,
              Or.inl ⟨found, hfound, h⟩⟩
          · obtain ⟨name', child', hmem, hnamed⟩ :=
              named_of_collectMembers rest h
            exact ⟨name', child', List.mem_cons_of_mem _ hmem, hnamed⟩
      | none =>
          rw [hfound] at h
          rcases Finset.mem_union.mp h with h | h
          · exact ⟨name, child, List.mem_cons_self,
              Or.inr ⟨hfound, named_of_collect child h⟩⟩
          · obtain ⟨name', child', hmem, hnamed⟩ :=
              named_of_collectMembers rest h
            exact ⟨name', child', List.mem_cons_of_mem _ hmem, hnamed⟩

theorem named_of_collectItems : ∀ items : List Json,
    k ∈ collectItems items → ∃ item ∈ items, Named item k
  | [], h => by simp [collectItems] at h
  | item :: rest, h => by
      rw [collectItems] at h
      rcases Finset.mem_union.mp h with h | h
      · exact ⟨item, List.mem_cons_self, named_of_collect item h⟩
      · obtain ⟨item', hmem, hitem⟩ := named_of_collectItems rest h
        exact ⟨item', List.mem_cons_of_mem _ hmem, hitem⟩

end

theorem collectMembers_mem {members : List (String × Json)} {name : String}
    {child : Json} (hmem : (name, child) ∈ members)
    (h : k ∈ (namedBy name child).getD (collectArtifactKeys child)) :
    k ∈ collectMembers members := by
  induction members with
  | nil => cases hmem
  | cons m rest ih =>
      obtain ⟨name', child'⟩ := m
      rw [collectMembers]
      rcases List.mem_cons.mp hmem with heq | hmem
      · injection heq with hname hchild
        subst hname hchild
        cases hfound : namedBy name child with
        | some found =>
            rw [hfound] at h
            exact Finset.mem_union_left _ h
        | none =>
            rw [hfound] at h
            exact Finset.mem_union_left _ h
      · have hrest := ih hmem
        split
        · exact Finset.mem_union_right _ hrest
        · exact Finset.mem_union_right _ hrest

theorem collectItems_mem {items : List Json} {item : Json}
    (hmem : item ∈ items) (h : k ∈ collectArtifactKeys item) :
    k ∈ collectItems items := by
  induction items with
  | nil => cases hmem
  | cons item' rest ih =>
      rw [collectItems]
      rcases List.mem_cons.mp hmem with rfl | hmem
      · exact Finset.mem_union_left _ h
      · exact Finset.mem_union_right _ (ih hmem)

/-- The collector finds the keys that are named. -/
theorem mem_collectArtifactKeys {v : Json} :
    k ∈ collectArtifactKeys v ↔ Named v k := by
  refine ⟨named_of_collect v, fun h => ?_⟩
  induction h with
  | member hmem hfound hk =>
      rw [collectArtifactKeys]
      refine collectMembers_mem hmem ?_
      rw [hfound]
      exact hk
  | inside hmem hnone _ ih =>
      rw [collectArtifactKeys]
      refine collectMembers_mem hmem ?_
      rw [hnone]
      exact ih
  | item hmem _ ih =>
      rw [collectArtifactKeys]
      exact collectItems_mem hmem ih

theorem mem_artifactKeysFromMessages :
    k ∈ artifactKeysFromMessages floatRepr messages
      ↔ ∃ m ∈ messages, m.type = some "tool"
        ∧ Named (messagePayload floatRepr m) k := by
  induction messages with
  | nil => simp [artifactKeysFromMessages]
  | cons m rest ih =>
      rw [artifactKeysFromMessages, List.exists_mem_cons_iff]
      by_cases htool : m.type = some "tool"
      · rw [if_pos htool, Finset.mem_union, mem_collectArtifactKeys, ih]
        simp only [htool, true_and]
      · rw [if_neg htool, ih]
        simp only [htool, false_and, false_or]

theorem mem_artifactKeys {stage : String} {primary : Option (List String)}
    {next : Option String} :
    k ∈ (buildStageResult floatRepr messages stage primary next).artifactKeys
      ↔ ∃ m ∈ messages, m.type = some "tool"
        ∧ Named (messagePayload floatRepr m) k :=
  (Finset.mem_sort _).trans mem_artifactKeysFromMessages

end Found

end LegalBot.Stages
