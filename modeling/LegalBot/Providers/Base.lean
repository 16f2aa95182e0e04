/-
What the adapters of `providers/` share: the values of a `Cursor`, the
conditions on strings that a reply may leave out, and the credentials of a
mailbox.

# Credentials

`providers/crypto.py` keeps credentials as an encrypted JSON text. The
cipher and the texts of a `datetime` are parameters (`Crypto`); what is
between them is not, and it gives the credentials back as they were
(`credentials_kept`).
-/
import LegalBot.Db.Types
import LegalBot.Json.Ascii

namespace LegalBot.Providers

-- ================================================================= cursors

/-- A string that a condition takes: there, and not empty. -/
def given : Option String → Option String
  | none => none
  | some s => if s = "" then none else some s

/-- `d.get(key)` of a dict of strings. -/
def memberText (members : List (String × Json)) (key : String) :
    Option String :=
  match Json.getMember members key with
  | some (.str value) => some value
  | _ => none

/-- `Cursor(value={key: text})`. -/
def cursorWith (key : String) (text : Option String) : Json :=
  .obj [(key, (text.map Json.str).getD .null)]

/-- `(cursor.value or {}).get(key)`, when a condition takes it. -/
def cursorText (key : String) (cursor : Json) : Option String :=
  given (memberText cursor.members key)

section Cursors

variable {key : String} {text : Option String} {s : String}

theorem cursorText_cursorWith :
    cursorText key (cursorWith key text) = given text := by
  have hget : Json.getMember (cursorWith key text).members key
      = some ((text.map Json.str).getD .null) := by
    simp [Json.getMember, cursorWith, Json.members]
  unfold cursorText memberText
  rw [hget]
  cases text with
  | none => rfl
  | some s => rfl

/-- What a condition takes it takes again. -/
theorem given_given (h : given text = some s) : given (some s) = some s := by
  unfold given at h
  split at h
  · cases h
  · split at h
    · cases h
    · rename_i hne
      cases h
      exact if_neg hne

end Cursors

-- ============================================================= credentials

open Json (dumpsAscii encodeUtf8 getMember loads)

/-- `MailboxCredentials`. -/
structure MailboxCredentials where
  accessToken : Option String
  refreshToken : Option String
  tokenUri : Option String
  scopes : List String
  expiresAt : Option Time
  extra : List (String × Json)
  deriving DecidableEq

/-- `Fernet` with the key of the settings, whose `encrypt` draws a time
and an initialization vector, and the texts of a `datetime`. -/
structure Crypto where
  encrypt : Nat → List UInt8 → List UInt8
  decrypt : List UInt8 → Option (List UInt8)
  isoformat : Time → String
  fromisoformat : String → Option Time

/-- What was encrypted is decrypted, and a time read as it was printed. -/
structure Crypto.Documented (lib : Crypto) : Prop where
  decrypts : ∀ draw data, lib.decrypt (lib.encrypt draw data) = some data
  parses : ∀ t, lib.fromisoformat (lib.isoformat t) = some t

/-- `data.decode("utf-8")`. -/
def decodeUtf8 (data : List UInt8) : Option String :=
  data.toByteArray.utf8Decode?.map fun cs => String.ofList cs.toList

/-- `encrypt_json`. -/
def encryptJson (lib : Crypto) (draw : Nat) (value : Json) : List UInt8 :=
  lib.encrypt draw (encodeUtf8 (dumpsAscii value))

/-- `decrypt_json`. -/
def decryptJson (lib : Crypto) (repr : String → String)
    (blob : List UInt8) : Option Json := do
  let data ← lib.decrypt blob
  let text ← decodeUtf8 data
  loads repr text

/-- A text, or `None`. -/
def textOrNone (text : Option String) : Json :=
  (text.map Json.str).getD .null

/-- `asdict(creds)`, with the text of `expires_at`. -/
def MailboxCredentials.payload (lib : Crypto) (creds : MailboxCredentials) :
    Json :=
  .obj [("access_token", textOrNone creds.accessToken),
    ("refresh_token", textOrNone creds.refreshToken),
    ("token_uri", textOrNone creds.tokenUri),
    ("scopes", .arr (creds.scopes.map .str)),
    ("expires_at", textOrNone (creds.expiresAt.map lib.isoformat)),
    ("extra", .obj creds.extra)]

/-- `encrypt_credentials`. -/
def encryptCredentials (lib : Crypto) (draw : Nat)
    (creds : MailboxCredentials) : List UInt8 :=
  encryptJson lib draw (creds.payload lib)

/-- A value of the type `str | None`. -/
def asText : Json → Option (Option String)
  | .null => some none
  | .str s => some (some s)
  | _ => none

/-- A value of the type `list[str]`. -/
def asTexts : Json → Option (List String)
  | .arr xs => xs.mapM fun x => (asText x).join
  | _ => none

/-- A value of the type `dict[str, Any]`. -/
def asMembers : Json → Option (List (String × Json))
  | .obj ms => some ms
  | _ => none

/-- `datetime.fromisoformat` of the text that is there. -/
def readTime (lib : Crypto) : Option String → Option (Option Time)
  | some text => (lib.fromisoformat text).map some
  | none => some none

/-- The fields of `MailboxCredentials`. -/
def credentialFields : List String :=
  ["access_token", "refresh_token", "token_uri", "scopes", "expires_at",
    "extra"]

/-- `decrypt_credentials`; `none` where it raises, and where a value is
not of the type that its field declares. -/
def decryptCredentials (lib : Crypto) (repr : String → String)
    (blob : List UInt8) : Option MailboxCredentials := do
  let raw ← asMembers (← decryptJson lib repr blob)
  let expiresAt ← readTime lib
    (← asText ((getMember raw "expires_at").getD .null))
  if raw.any fun m => m.1 ∉ credentialFields then none
  let accessToken ← asText ((getMember raw "access_token").getD .null)
  let refreshToken ← asText ((getMember raw "refresh_token").getD .null)
  let tokenUri ← asText ((getMember raw "token_uri").getD .null)
  let scopes ← asTexts ((getMember raw "scopes").getD (.arr []))
  let extra ← asMembers ((getMember raw "extra").getD (.obj []))
  return { accessToken := accessToken, refreshToken := refreshToken
           tokenUri := tokenUri, scopes := scopes, expiresAt := expiresAt
           extra := extra }

section Credentials

variable {lib : Crypto} {repr : String → String} {draw : Nat} {s : String}
  {value : Json} {creds : MailboxCredentials} {text : Option String}
  {texts : List String}

theorem decodeUtf8_encodeUtf8 : decodeUtf8 (encodeUtf8 s) = some s := by
  have hdecode : (encodeUtf8 s).toByteArray.utf8Decode?
      = some s.toList.toArray := List.utf8Decode?_utf8Encode
  unfold decodeUtf8
  rw [hdecode, Option.map_some, List.toList_toArray, String.ofList_toList]

/-- What was encrypted is decrypted. -/
theorem decryptJson_encryptJson (hlib : lib.Documented)
    (hvalue : Json.IsPython repr value) :
    decryptJson lib repr (encryptJson lib draw value) = some value := by
  unfold decryptJson encryptJson
  simp only [hlib.decrypts, decodeUtf8_encodeUtf8, Option.bind_eq_bind,
    Option.bind_some]
  exact Json.loads_dumpsAscii hvalue

theorem asText_textOrNone : asText (textOrNone text) = some text := by
  cases text with
  | none => rfl
  | some s => rfl

theorem asTexts_map : asTexts (.arr (texts.map .str)) = some texts := by
  show (texts.map Json.str).mapM (fun x => (asText x).join) = some texts
  induction texts with
  | nil => rfl
  | cons s texts ih =>
      rw [List.map_cons, List.mapM_cons, ih]
      rfl

theorem readTime_isoformat (hlib : lib.Documented) {time : Option Time} :
    readTime lib (time.map lib.isoformat) = some time := by
  cases time with
  | none => rfl
  | some t =>
      show (lib.fromisoformat (lib.isoformat t)).map some = _
      rw [hlib.parses]
      rfl

theorem isPython_texts : Json.IsPython repr (.arr (texts.map .str)) := by
  induction texts with
  | nil => exact ⟨trivial, trivial⟩
  | cons s texts ih => exact ⟨⟨trivial, ih.1⟩, trivial, ih.2⟩

theorem isPython_textOrNone : Json.IsPython repr (textOrNone text) := by
  cases text with
  | none => exact ⟨trivial, trivial⟩
  | some s => exact ⟨trivial, trivial⟩

theorem isPython_credentials
    (hextra : Json.IsPython repr (.obj creds.extra)) :
    Json.IsPython repr (creds.payload lib) := by
  have htext : ∀ text, Json.IsPython repr (textOrNone text) :=
    fun _ => isPython_textOrNone
  have hscopes : Json.IsPython repr (.arr (creds.scopes.map .str)) :=
    isPython_texts
  have hfields : credentialFields.Nodup := by decide
  refine ⟨⟨hfields, ?_⟩, ?_⟩
  · exact ⟨(htext _).1, (htext _).1, (htext _).1, hscopes.1, (htext _).1,
      hextra.1, trivial⟩
  · exact ⟨(htext _).2, (htext _).2, (htext _).2, hscopes.2, (htext _).2,
      hextra.2, trivial⟩

/-- The credentials that were stored are those that are used. -/
theorem credentials_kept (hlib : lib.Documented)
    (hextra : Json.IsPython repr (.obj creds.extra)) :
    decryptCredentials lib repr (encryptCredentials lib draw creds)
      = some creds := by
  have hblob : decryptJson lib repr (encryptCredentials lib draw creds)
      = some (creds.payload lib) :=
    decryptJson_encryptJson hlib (isPython_credentials hextra)
  unfold decryptCredentials
  rw [hblob]
  simp [MailboxCredentials.payload, asMembers, getMember,
    asText_textOrNone, asTexts_map, readTime_isoformat hlib,
    credentialFields]

end Credentials

/-- A token is the data behind the version byte, and a time is its
number. -/
def prefixed : Crypto where
  encrypt _ data := 0x80 :: data
  decrypt
    | 0x80 :: data => some data
    | _ => none
  isoformat t := toString t
  fromisoformat text :=
    match Json.numberOf id text.toList with
    | some (.int t) => some t
    | _ => none

theorem prefixed_documented : prefixed.Documented where
  decrypts _ _ := rfl
  parses t := by
    show (match Json.numberOf id (toString t).toList with
      | some (.int t) => some t
      | _ => none) = some t
    rw [(Json.numberOf_int id t).2]

/-- Credentials of a mailbox, with texts that are escaped. -/
def tenantCredentials : MailboxCredentials :=
  { accessToken := some "\"ñ😀\n", refreshToken := none
    tokenUri := some "u", scopes := ["mail.read", "mail.send"]
    expiresAt := some 1700000000
    extra := [("tenant", .str "t"), ("scale", .arr [.int 1, .null])] }

theorem tenant_credentials_kept :
    decryptCredentials prefixed id
      (encryptCredentials prefixed 0 tenantCredentials)
      = some tenantCredentials :=
  credentials_kept prefixed_documented (by decide)

end LegalBot.Providers
