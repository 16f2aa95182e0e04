/-
`contracts/registry.py`: the supported contract types, their required
fields and templates, the check of the fields and the rendering.

# Texts

Both checks look at `str(value).strip()`; `reprOf` is Python's `repr` of
a JSON value, given the `repr` of a string, and says what `str` is of a
value that is no string.

# Templates

A template is read left to right into pieces (`pieces`), as both
`findall` and `sub` of `_PLACEHOLDER_RE` do. The text of a template file
is that of its parts below, one after the other.
-/
import LegalBot.Artifacts.Service

namespace LegalBot

-- ===================================================================== texts

namespace Json

/-- `repr` of a float, by what `json.dumps` prints of it. -/
def reprFloat (r : String) : String :=
  if r = "NaN" then "nan"
  else if r = "Infinity" then "inf"
  else if r = "-Infinity" then "-inf"
  else r

mutual

/-- `repr(v)`; `quoted` is the `repr` of a string. -/
def reprOf (quoted : String → String) : Json → String
  | .null => "None"
  | .bool true => "True"
  | .bool false => "False"
  | .int n => toString n
  | .float r => reprFloat r
  | .str s => quoted s
  | .arr xs => "[" ++ reprItems quoted xs ++ "]"
  | .obj ms => "\x7b" ++ reprMembers quoted ms ++ "\x7d"

def reprItems (quoted : String → String) : List Json → String
  | [] => ""
  | [x] => reprOf quoted x
  | x :: rest => reprOf quoted x ++ ", " ++ reprItems quoted rest

def reprMembers (quoted : String → String) :
    List (String × Json) → String
  | [] => ""
  | [(k, v)] => quoted k ++ ": " ++ reprOf quoted v
  | (k, v) :: rest =>
      quoted k ++ ": " ++ reprOf quoted v ++ ", " ++ reprMembers quoted rest

end

end Json

namespace Contracts

-- ================================================================== registry

/-- `FieldSpec`. -/
structure FieldSpec where
  name : String
  description : String
  example' : String
  deriving DecidableEq, Repr

/-- `ContractType`; the template is the text of its file. -/
structure ContractType where
  typeId : String
  displayName : String
  aliases : List String
  requiredFields : List FieldSpec
  template : String
  deriving DecidableEq, Repr

/-- `field_names`. -/
def ContractType.fieldNames (ct : ContractType) : List String :=
  ct.requiredFields.map (·.name)

/-- The text of `templates/nda.md`, in parts. -/
def ndaParts : List String :=
  ["# Non-Disclosure Agreement\n\n",
    "This Non-Disclosure Agreement (the \"Agreement\") is entered into ",
    "and made effective as of ",
    "\x7b\x7beffective_date\x7d\x7d",
    " (the \"Effective Date\") by and between ",
    "\x7b\x7bdisclosing_party\x7d\x7d",
    " (the \"Disclosing Party\") and ",
    "\x7b\x7breceiving_party\x7d\x7d",
    " (the \"Receiving Party\").\n\n",
    "## 1. Purpose\n\n",
    "The parties wish to explore ",
    "\x7b\x7bpurpose\x7d\x7d",
    ", in connection with which the Disclosing Party may disclose ",
    "certain confidential and proprietary information to the Receiving ",
    "Party.\n\n",
    "## 2. Definition of Confidential Information\n\n",
    "\"Confidential Information\" means any information disclosed by ",
    "the Disclosing Party to the Receiving Party, whether orally, in ",
    "writing, or in any other form, that is designated as confidential ",
    "or that reasonably should be understood to be confidential given ",
    "the nature of the information and the circumstances of ",
    "disclosure.\n\n",
    "## 3. Obligations of the Receiving Party\n\n",
    "The Receiving Party shall (a) hold the Confidential Information ",
    "in strict confidence, (b) not disclose the Confidential ",
    "Information to any third party, and (c) use the Confidential ",
    "Information solely for the purpose described in Section 1.\n\n",
    "## 4. Term\n\n",
    "The obligations of the Receiving Party under this Agreement shall ",
    "remain in effect for ",
    "\x7b\x7bterm_months\x7d\x7d",
    " months from the Effective Date.\n\n",
    "## 5. Governing Law\n\n",
    "This Agreement shall be governed by and construed in accordance ",
    "with the laws of ",
    "\x7b\x7bgoverning_law\x7d\x7d",
    ", without regard to its conflict of laws principles.\n\n",
    "## 6. Signatures\n\n",
    "Disclosing Party: ",
    "\x7b\x7bdisclosing_party\x7d\x7d",
    "\n\n",
    "Receiving Party: ",
    "\x7b\x7breceiving_party\x7d\x7d",
    "\n\n",
    "Effective Date: ",
    "\x7b\x7beffective_date\x7d\x7d",
    "\n"]

/-- The text of `templates/service_agreement.md`, in parts. -/
def serviceAgreementParts : List String :=
  ["# Services Agreement\n\n",
    "This Services Agreement (the \"Agreement\") is entered into and ",
    "made effective as of ",
    "\x7b\x7beffective_date\x7d\x7d",
    " (the \"Effective Date\") by and between ",
    "\x7b\x7bclient_name\x7d\x7d",
    " (the \"Client\") and ",
    "\x7b\x7bprovider_name\x7d\x7d",
    " (the \"Provider\").\n\n",
    "## 1. Services\n\n",
    "The Provider shall provide the following services to the Client: ",
    "\x7b\x7bservices_description\x7d\x7d",
    " (the \"Services\").\n\n",
    "## 2. Fees\n\n",
    "In consideration for the Services, the Client shall pay the ",
    "Provider ",
    "\x7b\x7bfee_amount\x7d\x7d",
    ". Payment terms are ",
    "\x7b\x7bpayment_terms\x7d\x7d",
    ".\n\n",
    "## 3. Term\n\n",
    "This Agreement shall commence on the Effective Date and continue ",
    "for ",
    "\x7b\x7bterm_months\x7d\x7d",
    " months, unless earlier terminated in accordance with this ",
    "Agreement.\n\n",
    "## 4. Independent Contractor\n\n",
    "The Provider is an independent contractor. Nothing in this ",
    "Agreement creates a partnership, joint venture, or employment ",
    "relationship between the parties.\n\n",
    "## 5. Governing Law\n\n",
    "This Agreement shall be governed by and construed in accordance ",
    "with the laws of ",
    "\x7b\x7bgoverning_law\x7d\x7d",
    ", without regard to its conflict of laws principles.\n\n",
    "## 6. Signatures\n\n",
    "Client: ",
    "\x7b\x7bclient_name\x7d\x7d",
    "\n\n",
    "Provider: ",
    "\x7b\x7bprovider_name\x7d\x7d",
    "\n\n",
    "Effective Date: ",
    "\x7b\x7beffective_date\x7d\x7d",
    "\n"]

def nda : ContractType :=
  { typeId := "nda"
    displayName := "Non-Disclosure Agreement"
    aliases := ["nda", "non-disclosure", "non disclosure", "nondisclosure",
      "confidentiality agreement", "acuerdo de confidencialidad"]
    requiredFields := [
      ⟨"disclosing_party", "Legal name of the party disclosing information",
        "Acme Corp."⟩,
      ⟨"receiving_party", "Legal name of the party receiving information",
        "Beta LLC"⟩,
      ⟨"effective_date", "Date the agreement takes effect",
        "January 1, 2026"⟩,
      ⟨"purpose", "Purpose for which confidential information is shared",
        "evaluating a potential partnership"⟩,
      ⟨"term_months", "Duration of confidentiality obligations in months",
        "24"⟩,
      ⟨"governing_law", "Governing law jurisdiction",
        "State of Delaware"⟩]
    template := String.join ndaParts }

def serviceAgreement : ContractType :=
  { typeId := "service_agreement"
    displayName := "Services Agreement"
    aliases := ["service agreement", "services agreement",
      "master services agreement", "msa", "consulting agreement",
      "contrato de servicios"]
    requiredFields := [
      ⟨"client_name", "Legal name of the client", "Acme Corp."⟩,
      ⟨"provider_name", "Legal name of the service provider", "Beta LLC"⟩,
      ⟨"effective_date", "Date the agreement takes effect",
        "January 1, 2026"⟩,
      ⟨"services_description", "Description of the services to be provided",
        "monthly bookkeeping and tax filing"⟩,
      ⟨"fee_amount", "Total or recurring fee, including currency",
        "USD 5,000 per month"⟩,
      ⟨"payment_terms", "When and how the provider is paid",
        "net 30 from invoice date"⟩,
      ⟨"term_months", "Duration of the agreement in months", "12"⟩,
      ⟨"governing_law", "Governing law jurisdiction",
        "State of Delaware"⟩]
    template := String.join serviceAgreementParts }

/-- `CONTRACT_TYPES.values()`. -/
def contractTypes : List ContractType := [nda, serviceAgreement]

/-- The required fields, as the tools show them. -/
def ContractType.fieldsJson (ct : ContractType) : Json :=
  .arr (ct.requiredFields.map fun f =>
    .obj [("name", .str f.name), ("description", .str f.description),
      ("example", .str f.example')])

/-- `list_contract_types`. -/
def listContractTypes : Json :=
  .arr (contractTypes.map fun ct =>
    .obj [("type_id", .str ct.typeId), ("display_name", .str ct.displayName),
      ("aliases", .arr (ct.aliases.map .str)),
      ("required_fields", ct.fieldsJson)])

-- ================================================================= templates

/-- `[a-zA-Z0-9_]`. -/
def isNameChar (c : Char) : Bool := c.isAlphanum || c = '_'

/-- `_PLACEHOLDER_RE` at the start of the text. -/
def matchPlaceholder : List Char → Option (String × List Char)
  | '\x7b' :: '\x7b' :: cs =>
      let cs := cs.dropWhile isSpace
      let name := cs.takeWhile isNameChar
      match (cs.dropWhile isNameChar).dropWhile isSpace with
      | '\x7d' :: '\x7d' :: rest =>
          if name = [] then none else some (String.ofList name, rest)
      | _ => none
  | _ => none

/-- A piece of a template. -/
inductive Piece where
  | char (c : Char)
  | placeholder (name : String)
  deriving DecidableEq, Repr

/-- The pieces of a text, from where the next `skip` characters belong to
a placeholder that was found. -/
def pieces : Nat → List Char → List Piece
  | _, [] => []
  | skip + 1, _ :: rest => pieces skip rest
  | 0, c :: rest =>
      match matchPlaceholder (c :: rest) with
      | some (name, after) =>
          .placeholder name :: pieces (rest.length - after.length) rest
      | none => .char c :: pieces 0 rest

/-- `_PLACEHOLDER_RE.findall`, of a template. -/
def placeholders (template : String) : List String :=
  (pieces 0 template.toList).filterMap fun piece =>
    match piece with
    | .placeholder name => some name
    | .char _ => none

-- =================================================================== values

section Values

variable (rt : Runtime) (lower repr : String → String)

/-- `get_contract_type`. -/
def getContractType (typeId : String) : Option ContractType :=
  contractTypes.find? fun ct => ct.typeId = lower (strip typeId)

/-- `str(provided.get(name, "")).strip()`. -/
def fieldText (provided : List (String × Json)) (name : String) : String :=
  strip (strOf rt ((Json.getMember provided name).getD (.str "")))

/-- `missing_fields`, of the type that was found. -/
def ContractType.missingFields (ct : ContractType)
    (provided : List (String × Json)) : List String :=
  ct.fieldNames.filter fun name => fieldText rt provided name = ""

/-- `missing_fields`; `none` is an `UnknownContractType`. -/
def missingFields (typeId : String) (provided : List (String × Json)) :
    Option (List String) :=
  (getContractType lower typeId).map fun ct => ct.missingFields rt provided

/-- `template_placeholders`. -/
def ContractType.templatePlaceholders (ct : ContractType) : List String :=
  (placeholders ct.template).foldl
    (fun found name => if name ∈ found then found else found ++ [name]) []

/-- `_PLACEHOLDER_RE.sub(_replace, template)`. -/
def substituted (template : String) (values : List (String × Json)) :
    String :=
  String.ofList ((pieces 0 template.toList).flatMap fun piece =>
    match piece with
    | .char c => [c]
    | .placeholder name => (fieldText rt values name).toList)

/-- `render_template`, of the type that was found under `typeId`; the
error is a `TemplateRenderError`. -/
def ContractType.render (ct : ContractType) (typeId : String)
    (values : List (String × Json)) : Except String String :=
  let unfilled := ct.templatePlaceholders.filter fun name =>
    fieldText rt values name = ""
  if unfilled ≠ [] then
    .error ("cannot render " ++ repr typeId ++ ": unfilled placeholders ["
      ++ ", ".intercalate (unfilled.map repr) ++ "]")
  else .ok (substituted rt ct.template values)

end Values

end Contracts

end LegalBot
