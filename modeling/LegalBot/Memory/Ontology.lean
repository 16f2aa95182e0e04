/-
`memory/ontology.py`: entity and relation types, the normalisation of
names, the canonical keys and the projection records.

# Texts

`Texts` is what the module calls of Python's `str` and `re` that depends
on the Unicode tables: `str.lower` and the search for an organisation
suffix. `str.strip`, `str.split` and the address expression are defined
here or in `Artifacts/Keys.lean`.
-/
import LegalBot.Artifacts.Keys
import LegalBot.Db.Types
import LegalBot.Json
import Mathlib.Data.List.Infix
import Mathlib.Data.List.Sort
import Mathlib.Data.Rat.Defs

namespace LegalBot.Memory

-- =================================================================== types

/-- `EntityType`. -/
inductive EntityType where
  | person | organization | case | contract | document | email
  | attachment | clause | court | jurisdiction | date | monetaryAmount
  deriving DecidableEq, Repr

/-- The value of a member. -/
def EntityType.value : EntityType → String
  | .person => "Person"
  | .organization => "Organization"
  | .case => "Case"
  | .contract => "Contract"
  | .document => "Document"
  | .email => "Email"
  | .attachment => "Attachment"
  | .clause => "Clause"
  | .court => "Court"
  | .jurisdiction => "Jurisdiction"
  | .date => "Date"
  | .monetaryAmount => "MonetaryAmount"

/-- The members, as the class lists them. -/
def EntityType.all : List EntityType :=
  [.person, .organization, .case, .contract, .document, .email,
    .attachment, .clause, .court, .jurisdiction, .date, .monetaryAmount]

/-- `EntityType(value)`; `none` is its `ValueError`. -/
def EntityType.ofValue (value : String) : Option EntityType :=
  EntityType.all.find? fun t => t.value = value

/-- `Relation`. -/
inductive Relation where
  | mentions | sentBy | sentTo | repliesTo | attachedTo | partyTo
  | represents | belongsToCase | supersedes | references | signedBy
  | governedBy | hasDeadline | employedBy | affiliatedWith | concerns
  deriving DecidableEq, Repr

-- =================================================================== texts

/-- What is read off Python's Unicode tables. -/
structure Texts where
  lower : String → String
  orgSuffix : String → Bool

/-- `str.lower` on ASCII. -/
def Texts.LowersAscii (tx : Texts) : Prop :=
  ∀ s, (∀ c ∈ s.toList, c.toNat < 128) →
    tx.lower s = String.ofList (s.toList.map Char.toLower)

/-- The texts of the scenarios: ASCII letters, and no company. -/
def Texts.sample : Texts :=
  ⟨fun s => String.ofList (s.toList.map Char.toLower), fun _ => false⟩

theorem sample_lowersAscii : Texts.sample.LowersAscii := fun _ _ => rfl

/-- `s.strip(chars)`. -/
def trimChars (p : Char → Bool) (cs : List Char) : List Char :=
  ((cs.dropWhile p).reverse.dropWhile p).reverse

/-- `s.split()`. -/
def splitSpaces (s : String) : List String :=
  ((s.toList.splitOnP isSpace).filter (· ≠ [])).map String.ofList

/-- `s[:n]`. -/
def takeChars (n : Nat) (s : String) : String :=
  String.ofList (s.toList.take n)

/-- `x in s`. -/
def contains (s x : String) : Bool := x.toList <:+: s.toList

/-- `s.startswith(x)`. -/
def startsWith (s x : String) : Bool := x.toList <+: s.toList

/-- `normalize_name`. -/
def normalizeName (tx : Texts) (value : String) : String :=
  tx.lower (" ".intercalate (splitSpaces (strip value)))

/-- The end of `_ADDR_RE`, `\s*<([^>]+)>$`: what is in the brackets. -/
def addrTail (rest : List Char) : Option (List Char) :=
  match rest.dropWhile isSpace with
  | '<' :: inner =>
      if inner.getLast? = some '>' ∧ inner.dropLast ≠ []
          ∧ '>' ∉ inner.dropLast then some inner.dropLast
      else none
  | _ => none

/-- `_ADDR_RE.match` on a stripped text: the shortest `.+?` after which
the rest of the expression matches. -/
def addrMatch (taken : List Char) :
    List Char → Option (List Char × List Char)
  | [] => none
  | c :: rest =>
      if c = '\n' then none
      else
        match addrTail rest with
        | some email => some (taken ++ [c], email)
        | none => addrMatch (taken ++ [c]) rest

/-- `parse_email_address`. -/
def parseEmailAddress (tx : Texts) (raw : String) :
    Option String × String :=
  let text := strip raw
  if text = "" then (none, "")
  else
    match addrMatch [] text.toList with
    | some (name, addr) =>
        let display := String.ofList (trimChars (· = Char.ofNat 0x27)
          (trimChars (· = Char.ofNat 0x22) (stripChars name)))
        (if display = "" then none else some display,
          tx.lower (strip (String.ofList addr)))
    | none => (none, tx.lower text)

/-- `infer_entity_type_from_name`. -/
def inferEntityTypeFromName (tx : Texts) (name : String) : EntityType :=
  if tx.orgSuffix name then .organization else .person

/-- `is_party_field_name`. -/
def isPartyFieldName (tx : Texts) (fieldName : String) : Bool :=
  let lower := tx.lower fieldName
  contains lower "party"
    || ["disclosing_party", "receiving_party"].contains lower

-- ==================================================================== keys

/-- `person_canonical_key`. -/
def personCanonicalKey (tx : Texts) (email : String) : String :=
  "email:" ++ tx.lower (strip email)

/-- `ingestion_item_canonical_key`. -/
def ingestionItemCanonicalKey (itemId : Uuid) : String :=
  "ingestion_item:" ++ toString itemId

/-- `ingestion_attachment_canonical_key`. -/
def ingestionAttachmentCanonicalKey (attachmentId : Uuid) : String :=
  "ingestion_attachment:" ++ toString attachmentId

/-- `artifact_canonical_key`. -/
def artifactCanonicalKey (sessionId : Uuid) (artifactKey : String) :
    String :=
  "artifact:" ++ toString sessionId ++ ":" ++ artifactKey

/-- `attachment_filename_key`. -/
def attachmentFilenameKey (tx : Texts) (filename : String) : String :=
  "__attachment__:" ++ normalizeName tx filename

/-- `person_canonical_name`; an empty display name counts as none. -/
def personCanonicalName (displayName : Option String) (email : String) :
    String :=
  match displayName with
  | some name => if name = "" then email else strip name
  | none => email

/-- `organization_canonical_key`. -/
def organizationCanonicalKey (tx : Texts) (name : String)
    (domain : Option String) : String :=
  match domain with
  | some domain =>
      if domain = "" then "name:" ++ normalizeName tx name
      else "domain:" ++ tx.lower (strip domain)
  | none => "name:" ++ normalizeName tx name

/-- `contract_canonical_key`. -/
def contractCanonicalKey (tx : Texts) (contractType : String)
    (parties : List String) : String :=
  let ctype := tx.lower (strip
    (if contractType = "" then "unknown" else contractType))
  let normalized := (((parties.filter fun p => strip p ≠ "").map
    (normalizeName tx)).dedup).insertionSort (· ≤ ·)
  "contract:" ++ ctype ++ "|" ++ "|".intercalate normalized

/-- `law_area_canonical_key`. -/
def lawAreaCanonicalKey (tx : Texts) (area : String) : String :=
  "law_area:" ++ normalizeName tx area

-- ============================================================= projections

/-- A dict with string keys. -/
abbrev Attributes := List (String × Json)

/-- `ProjectionEntity`. -/
structure ProjectionEntity where
  entityType : EntityType
  canonicalKey : String
  canonicalName : String
  attributes : Attributes
  aliases : List String
  snippet : Option String
  confidence : ℚ
  origin : String
  deriving DecidableEq

/-- `ProjectionEdge`. -/
structure ProjectionEdge where
  srcType : EntityType
  srcKey : String
  dstType : EntityType
  dstKey : String
  relation : Relation
  attributes : Attributes
  confidence : ℚ
  origin : String
  deriving DecidableEq

/-- `GraphProjection`. -/
structure GraphProjection where
  entities : List ProjectionEntity
  edges : List ProjectionEdge
  deriving DecidableEq

/-- `GraphProjection()`. -/
def GraphProjection.empty : GraphProjection := ⟨[], []⟩

/-- `LlmExtractedEntity`. -/
structure LlmExtractedEntity where
  entityType : EntityType
  name : String
  aliases : List String
  attributes : Attributes
  confidence : ℚ
  deriving DecidableEq

end LegalBot.Memory
