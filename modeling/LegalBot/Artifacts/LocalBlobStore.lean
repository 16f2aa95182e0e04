/-
`LocalBlobStore` under the two services that put blobs there: artifact
writes and message ingestions share one directory tree.

# Paths

`_resolve` replaces `..`, strips leading slashes and joins the rest to
the root. `walk` is what the file system makes of the parts of a path,
where `..` goes up; no part that `_resolve` leaves does.

# The shared store

`StoreState` is the transactions of `Artifacts/Transactions.lean` and
the tasks of `Ingestion/Email.lean` over one store, the one the
ingestion model has. Artifacts read the files that are there
(`StoreState.seen`), and a write puts its payload as a file. `refs` are
the references artifacts have put: a fresh uuid4 makes a reference that
is none of them. A put may also fail, like any other in this model; the
statement raises and its transaction ends.
-/
import LegalBot.Artifacts.Transactions
import LegalBot.Ingestion.Email

namespace LegalBot

open Mail (BlobStore MailState MailAction Mailbox Path replaceDots)

-- =================================================================== paths

/-- `clean` of `_resolve`. -/
def cleanKey (key : String) : List Char :=
  (replaceDots key.toList).dropWhile (· = '/')

/-- The parts of a path, as `pathlib` keeps them. -/
def partsOf (path : List Char) : Path :=
  (path.splitOn '/').filter fun part => part ≠ [] ∧ part ≠ ['.']

/-- `self.root / clean`: an absolute path would replace the root. -/
def joinRoot (root : Path) (clean : List Char) : Path :=
  if clean.head? = some '/' then partsOf clean else root ++ partsOf clean

/-- Where the parts of a path lead from a directory. -/
def walk : Path → Path → Path
  | base, [] => base
  | base, part :: rest =>
      if part = ['.', '.'] then walk base.dropLast rest
      else walk (base ++ [part]) rest

section Paths

variable {l : List Char}

/-- Two dots in a row, somewhere. -/
def HasDots (l : List Char) : Prop := ['.', '.'] <:+: l

theorem hasDots_cons {c : Char} :
    HasDots (c :: l) ↔ (c = '.' ∧ l.head? = some '.') ∨ HasDots l := by
  unfold HasDots
  rw [List.infix_cons_iff]
  refine or_congr_left ?_
  cases l with
  | nil => simp
  | cons d rest =>
      simp only [List.cons_prefix_cons, List.nil_prefix, and_true,
        List.head?_cons, Option.some.injEq]
      exact and_congr eq_comm eq_comm

theorem replaceDots_cons {c : Char} (hc : c ≠ '.') (rest : List Char) :
    replaceDots (c :: rest) = c :: replaceDots rest := by
  rw [replaceDots]
  intro _ hdot _
  exact hc hdot

/-- No two dots in a row are left. -/
theorem replaceDots_noDots (l : List Char) : ¬ HasDots (replaceDots l) := by
  fun_induction replaceDots l with
  | case1 rest ih =>
      rw [hasDots_cons]
      rintro (⟨hdot, -⟩ | h)
      · cases hdot
      · exact ih h
  | case2 c rest hne ih =>
      rw [hasDots_cons]
      rintro (⟨rfl, hhead⟩ | h)
      · -- what follows a lone dot is no dot
        cases rest with
        | nil => cases hhead
        | cons d rest =>
            have hd : d ≠ '.' := fun hd => hne rest rfl (by rw [hd])
            rw [replaceDots_cons hd] at hhead
            exact hd (Option.some.inj hhead)
      · exact ih h
  | case3 => exact fun h => by simp [HasDots] at h

theorem HasDots.of_infix {l l' : List Char} (h : HasDots l)
    (hl : l <:+: l') : HasDots l' := h.trans hl

/-- What is joined lies in the whole. -/
theorem infix_intercalate {part sep : List Char} {parts : List (List Char)}
    (h : part ∈ parts) : part <:+: sep.intercalate parts := by
  induction parts with
  | nil => cases h
  | cons first rest ih =>
      cases rest with
      | nil =>
          rw [List.mem_singleton.mp h, List.intercalate_singleton]
      | cons second rest =>
          rw [List.intercalate_cons_cons]
          rcases List.mem_cons.mp h with rfl | h
          · rw [List.append_assoc]
            exact (List.prefix_append _ _).isInfix
          · exact (ih h).trans (List.suffix_append _ _).isInfix

/-- The parts of a path lie in it. -/
theorem infix_of_mem_partsOf {part : List Char} (h : part ∈ partsOf l) :
    part <:+: l := by
  have hparts : part ∈ l.splitOn '/' := (List.mem_filter.mp h).1
  have hjoined : part <:+: ['/'].intercalate (l.splitOn '/') :=
    infix_intercalate hparts
  rwa [List.intercalate_splitOn] at hjoined

theorem resolve_eq (key : String) :
    Mail.resolve key = partsOf (cleanKey key) := rfl

/-- No part of a resolved key is `..`. -/
theorem dots_notMem_resolve (key : String) :
    ['.', '.'] ∉ Mail.resolve key := by
  intro h
  have hclean : HasDots (cleanKey key) := infix_of_mem_partsOf h
  exact replaceDots_noDots key.toList
    (hclean.of_infix (List.dropWhile_suffix _).isInfix)

theorem cleanKey_head (key : String) : (cleanKey key).head? ≠ some '/' := by
  intro h
  have hhead := List.head?_dropWhile_not (· = '/') (replaceDots key.toList)
  unfold cleanKey at h
  rw [h] at hhead
  cases hhead

/-- A cleaned key stays below the root. -/
theorem joinRoot_cleanKey (root : Path) (key : String) :
    joinRoot root (cleanKey key) = root ++ Mail.resolve key :=
  if_neg (cleanKey_head key)

/-- Without `..` a path only leads down. -/
theorem walk_down {path : Path} (h : ['.', '.'] ∉ path) (base : Path) :
    walk base path = base ++ path := by
  induction path generalizing base with
  | nil => exact (List.append_nil base).symm
  | cons part rest ih =>
      have hpart : part ≠ ['.', '.'] :=
        fun heq => h (heq ▸ List.mem_cons_self)
      have hrest := fun hmem => h (List.mem_cons_of_mem part hmem)
      unfold walk
      rw [if_neg hpart, ih hrest, List.append_assoc]
      rfl

end Paths

-- ============================================================== references

section References

variable {sid sid' id id' : Uuid}

/-- The digits of an id. -/
def digits (id : Uuid) : List Char := (toString id).toList

theorem digits_eq (id : Uuid) : digits id = Nat.toDigits 10 id :=
  Nat.toList_repr

theorem digits_injective (h : digits id = digits id') : id = id' := by
  rw [digits_eq, digits_eq] at h
  have hvalue := congrArg (Nat.ofDigitChars 10 · 0) h
  simpa only [Nat.ofDigitChars_ten_toDigits] using hvalue

theorem notMem_digits {c : Char} (hc : c.isDigit = false) :
    c ∉ digits id := by
  intro h
  rw [digits_eq] at h
  have hdigit := Nat.isDigit_of_mem_toDigits (by decide) (by decide) h
  rw [hdigit] at hc
  cases hc

theorem digits_ne_nil : digits id ≠ [] := by
  rw [digits_eq]
  exact Nat.toDigits_ne_nil

theorem digits_ne_dot : digits id ≠ ['.'] := by
  intro h
  exact notMem_digits (by decide) (h ▸ List.mem_cons_self : '.' ∈ digits id)

theorem replaceDots_append {l : List Char} (hl : '.' ∉ l)
    (rest : List Char) :
    replaceDots (l ++ rest) = l ++ replaceDots rest := by
  induction l with
  | nil => rfl
  | cons c l ih =>
      have hc : c ≠ '.' := fun hc => hl (hc ▸ List.mem_cons_self)
      rw [List.cons_append, replaceDots_cons hc,
        ih fun hdot => hl (List.mem_cons_of_mem c hdot)]
      rfl

/-- The first part of a path. -/
theorem partsOf_below {name : List Char} (hslash : '/' ∉ name)
    (hnil : name ≠ []) (hdot : name ≠ ['.']) (rest : List Char) :
    partsOf (name ++ '/' :: rest) = name :: partsOf rest := by
  unfold partsOf
  rw [List.splitOn_append_cons_self_of_not_mem hslash]
  exact List.filter_cons_of_pos (by simp [hnil, hdot])

theorem partsOf_name {name : List Char} (hslash : '/' ∉ name)
    (hnil : name ≠ []) (hdot : name ≠ ['.']) : partsOf name = [name] := by
  unfold partsOf
  rw [List.splitOn_eq_singleton hslash]
  exact List.filter_cons_of_pos (by simp [hnil, hdot])

/-- Where the blob of an artifact is. -/
theorem resolve_blobRefOf (sid id : Uuid) :
    Mail.resolve (blobRefOf sid id)
      = ["sessions".toList, digits sid, "artifacts".toList, digits id] := by
  have hlist : (blobRefOf sid id).toList = "sessions".toList
      ++ '/' :: (digits sid ++ '/' :: ("artifacts".toList
        ++ '/' :: digits id)) := by
    simp [blobRefOf, digits]
  have hdots : '.' ∉ (blobRefOf sid id).toList := by
    rw [hlist]
    simp only [List.mem_append, List.mem_cons, not_or]
    refine ⟨by decide, by decide, notMem_digits (by decide), by decide,
      by decide, by decide, notMem_digits (by decide)⟩
  have hkept : replaceDots (blobRefOf sid id).toList
      = (blobRefOf sid id).toList := by
    have h := replaceDots_append hdots []
    rw [List.append_nil] at h
    exact h.trans (List.append_nil _)
  have hslash : '/' ∉ digits sid := notMem_digits (by decide)
  have hslash' : '/' ∉ digits id := notMem_digits (by decide)
  rw [resolve_eq, cleanKey, hkept, hlist]
  show partsOf ("sessions".toList ++ '/' :: _) = _
  rw [partsOf_below (by decide) (by decide) (by decide),
    partsOf_below hslash digits_ne_nil digits_ne_dot,
    partsOf_below (by decide) (by decide) (by decide),
    partsOf_name hslash' digits_ne_nil digits_ne_dot]

/-- Different ids, different files. -/
theorem resolve_blobRefOf_injective
    (h : Mail.resolve (blobRefOf sid id)
      = Mail.resolve (blobRefOf sid' id')) : sid = sid' ∧ id = id' := by
  rw [resolve_blobRefOf, resolve_blobRefOf] at h
  simp only [List.cons.injEq, true_and, and_true] at h
  exact ⟨digits_injective h.1, digits_injective h.2⟩

/-- Whatever the sender chooses, its blobs are under `ingestion`. -/
theorem resolve_blobRef (mapped : Mail.MappedItem) (name : String) :
    ∃ rest, Mail.resolve (Mail.blobRef mapped name)
      = "ingestion".toList :: rest := by
  let tail := (mapped.source ++ "/" ++ mapped.externalId ++ "/"
    ++ name).toList
  have hlist : (Mail.blobRef mapped name).toList
      = "ingestion/".toList ++ tail := by
    simp [Mail.blobRef, tail]
  refine ⟨partsOf (replaceDots tail), ?_⟩
  rw [resolve_eq, cleanKey, hlist, replaceDots_append (by decide)]
  show partsOf ("ingestion".toList ++ '/' :: replaceDots tail) = _
  exact partsOf_below (by decide) (by decide) (by decide) _

theorem resolve_blobRef_ne (mapped : Mail.MappedItem) (name : String) :
    Mail.resolve (Mail.blobRef mapped name)
      ≠ Mail.resolve (blobRefOf sid id) := by
  obtain ⟨rest, hrest⟩ := resolve_blobRef mapped name
  rw [hrest, resolve_blobRefOf]
  intro h
  injection h with h
  exact absurd h (by decide)

end References

-- ================================================================== states

/-- The files of a store, the references artifacts have put, and the
parties. -/
structure StoreState (n : Nat) where
  artifacts : ArtifactState n
  mail : MailState
  refs : List String

def StoreState.init (n : Nat) : StoreState n :=
  { artifacts := .init n, mail := .init, refs := [] }

inductive StoreAction (n : Nat) where
  | artifact (a : ArtifactAction n)
  | mail (a : MailAction)

/-- Who puts the blobs of artifacts. -/
def artifactWriter : Mailbox := ⟨0, ""⟩

section Steps

variable {n : Nat} (rt : Runtime) (svc : ArtifactService)

/-- The blobs of artifacts, as the files under their references. -/
def StoreState.seen (s : StoreState n) : Blobs :=
  fun ref => if ref ∈ s.refs then s.mail.blobs.get ref else none

/-- The transactions on the files. -/
def StoreState.onFiles (s : StoreState n) : ArtifactState n :=
  { s.artifacts with blobs := s.seen }

/-- What the next statement puts. -/
def WritePoint.puts (id : Uuid) : WritePoint → Option (String × List UInt8)
  | .storePayload a _ _ =>
      match payloadOf rt svc a with
      | .ok ⟨data, .blob⟩ => some (blobRefOf a.sessionId id, data)
      | _ => none
  | _ => none

/-- What an action puts, and for whom. -/
def ArtifactState.puts (s : ArtifactState n) :
    ArtifactAction n → Option (Fin n × String × List UInt8)
  | .statement t id => ((s.txs t).point.puts rt svc id).map (t, ·)
  | _ => none

/-- Take one step, or `none` when it is not enabled. -/
def StoreState.step (a : StoreAction n) (s : StoreState n) :
    Option (StoreState n) :=
  match a with
  | .mail a =>
      (MailState.step a s.mail).map fun mail => { s with mail := mail }
  | .artifact a =>
      (ArtifactState.step rt svc a s.onFiles).map fun artifacts =>
        match s.artifacts.puts rt svc a with
        | none => { s with artifacts := artifacts }
        | some (t, ref, data) =>
            match s.mail.blobs.put artifactWriter ref data with
            | none => { s with artifacts := s.onFiles.rollback t }
            | some blobs =>
                { artifacts := artifacts
                  mail := { s.mail with blobs := blobs }
                  refs := ref :: s.refs }

/-- The states that writes and ingestions reach. -/
abbrev StoreReaches : StoreState n → Prop :=
  Lts.Reachable (StoreState.step rt svc) Lts.Always (StoreState.init n)

end Steps

end LegalBot
