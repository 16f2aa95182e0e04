/-
The attachments of a thread in an inventory, against reads through the
thread.

# Two walks

`_collect_thread_attachment_rows` goes through the attachments of the
other sessions and keeps the first of each name, whatever was made of it
(`threadRows_named`). `read_resolved` goes through the same sessions for
one key and stops at the first that has the artifact
(`resolvesTo_sibling`).

# Where they meet

`thread_inventory_iff`: for each of the three keys that another session
has, the first one that has it has to be the first one with an attachment
of that name, and one of the keys of the attachment's kind must not be
null there.
-/
import LegalBot.Proofs.InventoryReads

namespace LegalBot.Inventory

open Json (getMember setMember)
open Memory (Attributes Found)
open Programs

-- ============================================================== statements

/-- The columns of an email are those of its row. -/
def Sources.Joined (src : Sources) : Prop :=
  ∀ itemId, (src.emails itemId).map (·.providerThreadId)
    = (src.db.items.get itemId).bind fun item =>
      (src.db.emailMetadata.get item.id).map (·.providerThreadId)

/-- The inventory lists the name as readable, from that session. -/
def Listed (inventory : Attributes) (name : String) (source : Uuid) :
    Prop :=
  ∃ entries entry, getMember inventory "thread_attachments"
      = some (.arr entries)
    ∧ .obj entry ∈ entries
    ∧ getMember entry "name" = some (.str name)
    ∧ getMember entry "readable" = some (.bool true)
    ∧ getMember entry "source_session_id"
      = some (.str (toString source))

/-- A read of the name under that prefix returns an artifact of the
session. -/
def ReadFrom (rt : Runtime) (src : Sources) (sid : Uuid)
    (name p : String) (source : Uuid) : Prop :=
  ∃ row content, readResolved rt src.db src.blobs sid (.key (p ++ name))
    none true = .ok (row, content) ∧ row.sessionId = source

/-- The inventory that is built lists the name as readable exactly if one
of the reads succeeds, from the session that each such read returns. -/
def ThreadAgrees (rt : Runtime) (src : Sources) (sid : Uuid)
    (name : String) (classification : Attributes) : Prop :=
  ∃ inventory, buildExtractInventory rt src sid classification
      = .ok inventory
    ∧ ((∃ source, Listed inventory name source)
      ↔ ∃ p ∈ artifactPrefixes, ∃ source, ReadFrom rt src sid name p source)
    ∧ ∀ source, Listed inventory name source →
      ∀ p ∈ artifactPrefixes, ∀ source',
        ReadFrom rt src sid name p source' → source = source'

/-- The attachments of the other sessions, each with its session and
subject, in order. -/
def occurrences (src : Sources) (ids : List Uuid) :
    List (Uuid × Option String × Attachment) :=
  ids.flatMap fun id =>
    match loadEmailForSession src id with
    | none => []
    | some email =>
        email.attachments.map fun att => (id, email.subject, att)

/-- The first of that name. -/
def firstNamed (src : Sources) (sid : Uuid) (name : String) :
    Option (Uuid × Option String × Attachment) :=
  (occurrences src (siblingsOf src.db sid)).find? fun o =>
    o.2.2.name = name

/-- The first other session that has the artifact. -/
def firstHolder (db : Db) (sid : Uuid) (key : String) : Option Uuid :=
  (siblingsOf db sid).find? fun id =>
    hasVersion db.artifacts.rows none (id, strip key)

/-- The first session with one of the artifacts of a name is the first
with an attachment of that name, and has one of its kind. -/
def FirstHolds (rt : Runtime) (src : Sources) (sid : Uuid)
    (name : String) : Prop :=
  ∀ p ∈ artifactPrefixes, ∀ id, firstHolder src.db sid (p ++ name) = some id →
    ∃ subject att, firstNamed src sid name = some (id, subject, att)
      ∧ KindFound rt src id name att.mimeType

-- ==================================================================== rows

section Rows

variable {rt : Runtime} {src : Sources} {sid : Uuid} {name : String}

/-- The walk is one loop over the attachments. -/
theorem collect_eq (ids : List Uuid) (rows : List ThreadRow) :
    ids.foldlM (fun rows sibling =>
        if sibling = sid then .ok rows
        else
          match loadEmailForSession src sibling with
          | none => .ok rows
          | some email => email.attachments.foldlM
              (threadRow rt src sibling email.subject) rows) rows
      = (occurrences src (ids.filter (· ≠ sid))).foldlM
        (fun rows o => threadRow rt src o.1 o.2.1 rows o.2.2) rows := by
  induction ids generalizing rows with
  | nil => rfl
  | cons id rest ih =>
      rw [List.foldlM_cons]
      by_cases hid : id = sid
      · rw [if_pos hid, List.filter_cons_of_neg (by simp [hid]), ok_bind]
        exact ih rows
      · rw [if_neg hid, List.filter_cons_of_pos (by simp [hid])]
        unfold occurrences at ih ⊢
        rw [List.flatMap_cons, List.foldlM_append]
        cases loadEmailForSession src id with
        | none => exact ih rows
        | some email =>
            simp only [List.foldlM_map]
            exact bind_congr fun rows' => ih rows'

/-- One round: the name is there, or its row is added. -/
theorem threadRow_returned {subject : Option String}
    {rows rows' : List ThreadRow} {att : Attachment}
    (h : threadRow rt src sid subject rows att = .ok rows') :
    (∃ row ∈ rows, row.name = att.name) ∧ rows' = rows
      ∨ (¬ ∃ row ∈ rows, row.name = att.name)
        ∧ ∃ row, rows' = rows ++ [row] ∧ row.name = att.name
          ∧ row.sourceSessionId = sid
          ∧ activeKeys rt src sid att.name att.mimeType = .ok row.keys := by
  unfold threadRow at h
  split at h
  · rename_i hthere
    exact Or.inl ⟨hthere, (Except.ok.inj h).symm⟩
  · rename_i hnew
    obtain ⟨keys, hkeys, h⟩ := returned_bind h
    obtain ⟨preview, -, h⟩ := returned_bind h
    exact Or.inr ⟨hnew, _, (Except.ok.inj h).symm, rfl, rfl, hkeys⟩

/-- The row that an attachment of the thread is given. -/
def RowOf (rt : Runtime) (src : Sources)
    (o : Uuid × Option String × Attachment) (row : ThreadRow) : Prop :=
  row.sourceSessionId = o.1
    ∧ activeKeys rt src o.1 o.2.2.name o.2.2.mimeType = .ok row.keys

section Walk

variable {occs : List (Uuid × Option String × Attachment)}
  {rows rows' : List ThreadRow}

/-- A name that is listed is left alone. -/
theorem threadRows_kept
    (h : occs.foldlM (fun rows o => threadRow rt src o.1 o.2.1 rows o.2.2)
      rows = .ok rows') (hthere : ∃ row ∈ rows, row.name = name) :
    rows'.filter (·.name = name) = rows.filter (·.name = name) := by
  induction occs generalizing rows with
  | nil =>
      cases h
      rfl
  | cons o rest ih =>
      rw [List.foldlM_cons] at h
      obtain ⟨next, hnext, hrest⟩ := returned_bind h
      rcases threadRow_returned hnext with
        ⟨-, rfl⟩ | ⟨hnew, row, rfl, hname, -⟩
      · exact ih hrest hthere
      · have hne : row.name ≠ name := by
          rintro rfl
          exact hnew (hname ▸ hthere)
        obtain ⟨there, hmem, hthere⟩ := hthere
        rw [ih hrest ⟨there, List.mem_append_left _ hmem, hthere⟩,
          List.filter_append, List.filter_singleton]
        simp [hne]

/-- A name that is not has the row of its first attachment. -/
theorem threadRows_first
    (h : occs.foldlM (fun rows o => threadRow rt src o.1 o.2.1 rows o.2.2)
      rows = .ok rows') (hnew : ¬ ∃ row ∈ rows, row.name = name) :
    match occs.find? fun o => o.2.2.name = name with
    | none => rows'.filter (·.name = name) = []
    | some o => ∃ row, rows'.filter (·.name = name) = [row]
        ∧ RowOf rt src o row := by
  have hnone : rows.filter (·.name = name) = [] :=
    List.filter_eq_nil_iff.mpr fun row hrow hname =>
      hnew ⟨row, hrow, of_decide_eq_true hname⟩
  induction occs generalizing rows with
  | nil =>
      cases h
      exact hnone
  | cons o rest ih =>
      rw [List.foldlM_cons] at h
      obtain ⟨next, hnext, hrest⟩ := returned_bind h
      by_cases hname : o.2.2.name = name
      · rw [List.find?_cons_of_pos (by simpa using hname)]
        rcases threadRow_returned hnext with
          ⟨hthere, -⟩ | ⟨-, row, rfl, hrow, hsource, hkeys⟩
        · exact absurd (hname ▸ hthere) hnew
        · have hrow : row.name = name := hrow.trans hname
          refine ⟨row, ?_, hsource, hkeys⟩
          rw [threadRows_kept hrest
            ⟨row, List.mem_append_right _ List.mem_cons_self, hrow⟩,
            List.filter_append, hnone]
          simp [hrow]
      · rw [List.find?_cons_of_neg (by simpa using hname)]
        rcases threadRow_returned hnext with
          ⟨-, rfl⟩ | ⟨-, row, rfl, hrow, -⟩
        · exact ih hrest hnew hnone
        · have hne : row.name ≠ name := fun e => hname (hrow ▸ e)
          refine ih hrest (fun ⟨r, hr, hname⟩ => ?_) ?_
          · rcases List.mem_append.mp hr with hr | hr
            · exact hnew ⟨r, hr, hname⟩
            · exact hne (List.mem_singleton.mp hr ▸ hname)
          · rw [List.filter_append, hnone]
            simp [hne]

end Walk

/-- The attachments are those of the other sessions of the thread. -/
theorem mem_occurrences {ids : List Uuid}
    {o : Uuid × Option String × Attachment} (h : o ∈ occurrences src ids) :
    o.1 ∈ ids := by
  obtain ⟨id, hid, ho⟩ := List.mem_flatMap.mp h
  cases hemail : loadEmailForSession src id with
  | none =>
      rw [hemail] at ho
      cases ho
  | some email =>
      rw [hemail] at ho
      obtain ⟨att, -, rfl⟩ := List.mem_map.mp ho
      exact hid

end Rows

-- ================================================================= listing

section Listing

variable {rt : Runtime} {src : Sources} {sid : Uuid} {name : String}
  {classification inventory : Attributes}

theorem listed_iff {rows : List ThreadRow}
    (h : getMember inventory "thread_attachments"
      = some (.arr (rows.map ThreadRow.json))) (source : Uuid) :
    Listed inventory name source ↔ ∃ row ∈ rows, row.name = name
      ∧ row.keys.ok = true ∧ row.sourceSessionId = source := by
  have hmembers : ∀ row : ThreadRow, ∃ entry, row.json = .obj entry
      ∧ getMember entry "name" = some (.str row.name)
      ∧ getMember entry "readable" = some (.bool row.keys.ok)
      ∧ getMember entry "source_session_id"
        = some (.str (toString row.sourceSessionId)) :=
    fun row => ⟨_, rfl, rfl, rfl, rfl⟩
  constructor
  · rintro ⟨entries, entry, hentries, hentry, hname, hread, hsource⟩
    rw [h] at hentries
    injection hentries with hentries
    injection hentries with hentries
    subst hentries
    obtain ⟨row, hrow, hjson⟩ := List.mem_map.mp hentry
    obtain ⟨entry', hjson', hname', hread', hsource'⟩ := hmembers row
    rw [hjson'] at hjson
    injection hjson with hjson
    subst hjson
    rw [hname'] at hname
    rw [hread'] at hread
    rw [hsource'] at hsource
    injection hname with hname
    injection hname with hname
    injection hread with hread
    injection hread with hread
    injection hsource with hsource
    injection hsource with hsource
    exact ⟨row, hrow, hname, hread,
      digits_injective (congrArg String.toList hsource)⟩
  · rintro ⟨row, hrow, rfl, hread, rfl⟩
    obtain ⟨entry, hjson, hname, hread', hsource⟩ := hmembers row
    rw [hread] at hread'
    exact ⟨_, entry, h, hjson ▸ List.mem_map_of_mem hrow, hname, hread',
      hsource⟩

/-- Where the thread of an inventory comes from. -/
theorem inventory_thread {email : SessionEmail}
    (hemail : loadEmailForSession src sid = some email)
    (hbuild : buildExtractInventory rt src sid classification
      = .ok inventory) :
    ∃ rows, collectThreadAttachmentRows rt src sid email.threadId = .ok rows
      ∧ getMember inventory "thread_attachments"
        = some (.arr (rows.map ThreadRow.json)) := by
  unfold buildExtractInventory at hbuild
  rw [hemail] at hbuild
  obtain ⟨existing, -, hbuild⟩ := returned_bind hbuild
  obtain ⟨rows, -, hbuild⟩ := returned_bind hbuild
  obtain ⟨threadRows, hthread, hbuild⟩ := returned_bind hbuild
  refine ⟨threadRows, hthread, ?_⟩
  rw [← Except.ok.inj hbuild]
  simp [Json.getMember_setMember]

/-- The thread of the email is the thread of the session. -/
theorem thread_joined (hjoined : src.Joined) :
    (loadEmailForSession src sid).bind (·.threadId)
      = (src.db.sessions.get sid).bind (providerThreadId src.db) := by
  unfold loadEmailForSession
  cases src.db.sessions.get sid with
  | none => rfl
  | some session =>
      simp only [Option.bind_eq_bind, Option.bind_some]
      unfold providerThreadId
      cases src.db.jobs.get session.jobId with
      | none => rfl
      | some job =>
          have hcolumn := hjoined job.ingestionItemId
          simp only [Option.bind_eq_bind, Option.bind_some]
          cases hrow : src.emails job.ingestionItemId with
          | none =>
              rw [hrow] at hcolumn
              cases hitem : src.db.items.get job.ingestionItemId with
              | none => rfl
              | some item =>
                  rw [hitem, Option.map_none, Option.bind_some] at hcolumn
                  rw [Option.bind_some,
                    Option.map_eq_none_iff.mp hcolumn.symm]
                  rfl
          | some row =>
              rw [hrow] at hcolumn
              cases hitem : src.db.items.get job.ingestionItemId with
              | none =>
                  rw [hitem] at hcolumn
                  cases hcolumn
              | some item =>
                  rw [hitem, Option.map_some, Option.bind_some] at hcolumn
                  obtain ⟨email, hemail, hthread⟩ :=
                    Option.map_eq_some_iff.mp hcolumn.symm
                  simp only [Option.bind_some, hemail]
                  exact hthread.symm

/-- Outside a thread there are no other sessions. -/
theorem siblings_nil
    (h : ((src.db.sessions.get sid).bind
      (providerThreadId src.db)).getD "" = "") :
    siblingsOf src.db sid = [] := by
  have hself : sessionIdsInEmailThread src.db sid = [sid] := by
    unfold sessionIdsInEmailThread
    cases hthread : (src.db.sessions.get sid).bind
        (providerThreadId src.db) with
    | none => rfl
    | some thread =>
        rw [hthread] at h
        simp only [show thread = "" from h, if_true]
  unfold siblingsOf
  rw [hself, List.filter_cons_of_neg (by simp)]
  rfl

theorem firstNamed_nil (h : siblingsOf src.db sid = []) :
    firstNamed src sid name = none := by
  unfold firstNamed occurrences
  rw [h]
  rfl

/-- The row of a name, after the walk. -/
theorem named_iff {rows : List ThreadRow}
    (h : (occurrences src (siblingsOf src.db sid)).foldlM
      (fun rows o => threadRow rt src o.1 o.2.1 rows o.2.2) [] = .ok rows)
    {source : Uuid} :
    (∃ row ∈ rows, row.name = name ∧ row.keys.ok = true
        ∧ row.sourceSessionId = source)
      ↔ ∃ subject att, firstNamed src sid name = some (source, subject, att)
        ∧ KindFound rt src source name att.mimeType := by
  have hempty : ¬ ∃ row ∈ ([] : List ThreadRow), row.name = name :=
    fun ⟨_, hrow, _⟩ => by cases hrow
  have hfirst := threadRows_first h hempty
  unfold firstNamed
  cases hfind : (occurrences src (siblingsOf src.db sid)).find? fun o =>
      o.2.2.name = name with
  | none =>
      rw [hfind] at hfirst
      constructor
      · rintro ⟨row, hrow, hname, -⟩
        have hmem : row ∈ rows.filter (·.name = name) :=
          List.mem_filter.mpr ⟨hrow, decide_eq_true hname⟩
        rw [hfirst] at hmem
        cases hmem
      · rintro ⟨subject, att, hsome, -⟩
        cases hsome
  | some o =>
      rw [hfind] at hfirst
      obtain ⟨row, hfilter, hsource, hkeys⟩ := hfirst
      have hname : o.2.2.name = name := by
        simpa using List.find?_some hfind
      rw [hname] at hkeys
      have hmem : ∀ r, r ∈ rows ∧ r.name = name ↔ r = row := by
        intro r
        have hiff : r ∈ rows.filter (·.name = name) ↔ r ∈ [row] := by
          rw [hfilter]
        simpa using hiff
      constructor
      · rintro ⟨r, hr, hrname, hok, rfl⟩
        obtain rfl := (hmem r).mp ⟨hr, hrname⟩
        rw [hsource]
        exact ⟨o.2.1, o.2.2, rfl, (activeKeys_ok hkeys).mp hok⟩
      · rintro ⟨subject, att, ho, hfound⟩
        injection ho with ho
        subst ho
        obtain ⟨hrow, hrname⟩ := (hmem row).mpr rfl
        exact ⟨row, hrow, hrname, (activeKeys_ok hkeys).mpr hfound,
          hsource⟩

/-- A name is listed as its first attachment was read. -/
theorem listed_source (hjoined : src.Joined)
    (hbuild : buildExtractInventory rt src sid classification
      = .ok inventory) (source : Uuid) :
    Listed inventory name source ↔ ∃ subject att,
      firstNamed src sid name = some (source, subject, att)
        ∧ KindFound rt src source name att.mimeType := by
  have hthread : _ = (src.db.sessions.get sid).bind _ :=
    thread_joined hjoined
  cases hemail : loadEmailForSession src sid with
  | none =>
      rw [hemail] at hthread
      have hempty : siblingsOf src.db sid = [] :=
        siblings_nil (by rw [← hthread]; rfl)
      rw [firstNamed_nil hempty]
      constructor
      · rintro ⟨entries, -, hentries, -⟩
        unfold buildExtractInventory at hbuild
        rw [hemail] at hbuild
        rw [← Except.ok.inj hbuild] at hentries
        cases hentries
      · rintro ⟨subject, att, hfirst, -⟩
        cases hfirst
  | some email =>
      rw [hemail, Option.bind_some] at hthread
      obtain ⟨rows, hrows, hmember⟩ := inventory_thread hemail hbuild
      rw [listed_iff hmember]
      unfold collectThreadAttachmentRows at hrows
      split at hrows
      · -- no thread, no rows
        rename_i hblank
        cases hrows
        rw [firstNamed_nil (siblings_nil (hthread ▸ hblank))]
        constructor
        · rintro ⟨row, hrow, -⟩
          cases hrow
        · rintro ⟨subject, att, hfirst, -⟩
          cases hfirst
      · exact named_iff ((collect_eq _ _).symm.trans hrows)

end Listing

-- =================================================================== reads

section Reads

variable {rt : Runtime} {src : Sources} {sid : Uuid} {name : String}
  {key : String}

theorem placesOf_one (ids : List Uuid) :
    placesOf [key] ids = ids.map fun id => (id, key) := by
  induction ids with
  | nil => rfl
  | cons id rest ih => rw [placesOf_cons, ih, List.map_cons]; rfl

/-- A session without the artifact reads that of the first session that
has it. -/
theorem resolvesTo_sibling (hslash : '/' ∈ key.toList)
    (hnone : hasVersion src.db.artifacts.rows none (sid, strip key)
      = false) :
    resolvesTo src.db sid key none
      = (firstHolder src.db sid key).map fun id => (id, strip key) := by
  unfold resolvesTo lookups firstHolder
  rw [artifactKeyCandidates_of_slash hslash, placesOf_one, List.map_cons,
    List.find?_cons_of_neg (by simp [hnone]), List.find?_map]
  rfl

/-- In a store without broken artifacts it returns it. -/
theorem readFrom_iff
    (hreads : ReadsUnbroken rt src.db.artifacts.rows src.blobs)
    {p : String} (hslash : '/' ∈ (p ++ name).toList)
    (hnone : hasVersion src.db.artifacts.rows none
      (sid, strip (p ++ name)) = false) {source : Uuid} :
    ReadFrom rt src sid name p source
      ↔ firstHolder src.db sid (p ++ name) = some source := by
  unfold ReadFrom
  rw [readResolved_eq, resolvesTo_sibling hslash hnone]
  cases hholder : firstHolder src.db sid (p ++ name) with
  | none =>
      constructor
      · rintro ⟨row, content, hread, -⟩
        cases hread
      · intro h
        cases h
  | some id =>
      have hhas : hasVersion src.db.artifacts.rows none
          (id, strip (p ++ name)) = true := by
        simpa using List.find?_some hholder
      simp only [Option.map_some, Option.some.injEq]
      cases hread : readAt rt src.db.artifacts.rows src.blobs none
          (id, strip (p ++ name)) with
      | error e =>
          rw [(hreads _ e hread).1] at hhas
          cases hhas
      | ok found =>
          have hsid := (read_key hread).2.1
          constructor
          · rintro ⟨row, content, hfound, rfl⟩
            cases hfound
            exact hsid.symm
          · rintro rfl
            exact ⟨found.1, found.2, rfl, hsid⟩

/-- A found artifact has a first holder. -/
theorem holder_of_found {p : String} (hslash : '/' ∈ (p ++ name).toList)
    {id : Uuid} (hid : id ∈ siblingsOf src.db sid)
    (hfound : Found rt src id (p ++ name)) :
    ∃ source, firstHolder src.db sid (p ++ name) = some source := by
  obtain ⟨row, content, hread, -⟩ := (found_iff_read hslash).mp hfound
  refine Option.isSome_iff_exists.mp (List.find?_isSome.mpr
    ⟨id, hid, ?_⟩)
  by_contra hnone
  rw [Bool.not_eq_true] at hnone
  rw [read_of_not_hasVersion hnone] at hread
  cases hread

end Reads

-- ===================================================================== law

/-- In the states that the writes of any number of transactions reach, for
a name that no artifact of the session uses: the inventory agrees with
the reads exactly if the first session with one of its artifacts is the
first with an attachment of that name, and has one of its kind. -/
theorem thread_inventory_iff {n : Nat} {rt : Runtime}
    {svc : ArtifactService} {s : ArtifactState n} {src : Sources}
    {sid : Uuid} {name : String} (classification : Attributes)
    (hreached : ArtifactReaches rt svc Lts.Always s)
    (hrows : src.db.artifacts.rows = s.committed)
    (hblobs : src.blobs = s.blobs)
    (hloads : StoredLoads rt s.committed s.blobs)
    (hjoined : src.Joined)
    (hunused : ∀ r ∈ src.db.artifacts.rows, r.sessionId = sid →
      ∀ p ∈ artifactPrefixes, r.key ∉ artifactKeyCandidates (p ++ name)) :
    ThreadAgrees rt src sid name classification
      ↔ FirstHolds rt src sid name := by
  have hreads : ReadsUnbroken rt src.db.artifacts.rows src.blobs := by
    rw [hrows, hblobs]
    exact reads_unbroken hreached hloads
  have hnone : ∀ p ∈ artifactPrefixes, hasVersion src.db.artifacts.rows
      none (sid, strip (p ++ name)) = false := by
    intro p hp
    refine List.any_eq_false.mpr fun r hr hmatch => ?_
    obtain ⟨hsid, hkey, -⟩ := of_decide_eq_true hmatch
    refine hunused r hr hsid p hp ?_
    rw [artifactKeyCandidates_of_slash (slash_mem_key hp)]
    exact List.mem_singleton.mpr hkey
  have hfrom : ∀ p ∈ artifactPrefixes, ∀ source,
      ReadFrom rt src sid name p source
        ↔ firstHolder src.db sid (p ++ name) = some source :=
    fun p hp source => readFrom_iff hreads (slash_mem_key hp) (hnone p hp)
  constructor
  · rintro ⟨inventory, hbuild, hlisted, hsource⟩ p hp id hholder
    have hread := (hfrom p hp id).mpr hholder
    obtain ⟨source, hsome⟩ := hlisted.mpr ⟨p, hp, id, hread⟩
    obtain rfl := hsource source hsome p hp id hread
    exact (listed_source hjoined hbuild source).mp hsome
  · intro hfirst
    obtain ⟨inventory, hbuild⟩ : Succeeds (buildExtractInventory rt src sid
      classification) := inventory_built hreads classification
    refine ⟨inventory, hbuild, ⟨?_, ?_⟩, ?_⟩
    · rintro ⟨source, hsome⟩
      obtain ⟨subject, att, hnamed, p, hp, hfound⟩ :=
        (listed_source hjoined hbuild source).mp hsome
      have hp := kindPrefixes_subset hp
      have hid : source ∈ siblingsOf src.db sid :=
        mem_occurrences (List.mem_of_find?_eq_some hnamed)
      obtain ⟨id, hholder⟩ := holder_of_found (slash_mem_key hp) hid hfound
      exact ⟨p, hp, id, (hfrom p hp id).mpr hholder⟩
    · rintro ⟨p, hp, id, hread⟩
      exact ⟨id, (listed_source hjoined hbuild id).mpr
        (hfirst p hp id ((hfrom p hp id).mp hread))⟩
    · intro source hsome p hp id hread
      obtain ⟨subject, att, hnamed, -⟩ :=
        (listed_source hjoined hbuild source).mp hsome
      obtain ⟨subject', att', hnamed', -⟩ :=
        hfirst p hp id ((hfrom p hp id).mp hread)
      exact (Prod.mk.inj
        (Option.some.inj (hnamed.symm.trans hnamed'))).1

-- =============================================================== scenarios

/-- Carol's session 30, the last of the thread. -/
def carol : TenantRows :=
  tenant 30 2 "carol" (some "thread") "extracted_data/nda.docx" 1

theorem carol_fresh : carol.Fresh
    ((Db.empty.join alice alice_fresh).join bob bob_fresh) := by
  constructor <;> decide

/-- What was extracted from `nda.pdf` in a session. -/
def extractedIn (sid : Uuid) : WriteArgs :=
  { writeOne with sessionId := sid, key := "extracted_data/nda.pdf" }

/-- The sessions 20, 10 and 30 of one thread; 20 and 30 have the
attachment `nda.pdf`. -/
def threadOf (artifacts : Relational.Table Artifact) : Sources :=
  let db := { ((Db.empty.join alice alice_fresh).join bob bob_fresh).join
    carol carol_fresh with artifacts := artifacts }
  { db := db
    blobs := fun _ => none
    emails := fun itemId =>
      ((db.items.get itemId).bind fun item =>
        db.emailMetadata.get item.id).map fun email =>
          { providerMessageId := none
            providerThreadId := email.providerThreadId
            fromAddr := none, title := none, receivedAt := none
            bodyText := none
            attachments := if itemId = 10 then []
              else [⟨itemId, "nda.pdf", some "application/pdf", none⟩] } }

theorem threadOf_joined (artifacts : Relational.Table Artifact) :
    (threadOf artifacts).Joined := by
  intro itemId
  unfold threadOf
  rw [Option.map_map, Option.map_bind]
  rfl

/-- The state after it was written. -/
def extracted (sid : Uuid) : ArtifactState 1 :=
  afterWrite Runtime.sample .default (extractedIn sid)

/-- No blobs, and nothing of session 10. -/
theorem extracted_inline {sid : Uuid}
    (h : (extracted sid).committed.all (fun r =>
      r.storage = .inline ∧ r.sessionId ≠ 10) = true) :
    StoredLoads Runtime.sample (extracted sid).committed
        (extracted sid).blobs
      ∧ ∀ r ∈ (extracted sid).committed, r.sessionId ≠ 10 := by
  refine ⟨fun r hr hblob => ?_, fun r hr => ?_⟩
  · have hinline := of_decide_eq_true (List.all_eq_true.mp h r hr)
    rw [hblob] at hinline
    cases hinline.1
  · exact (of_decide_eq_true (List.all_eq_true.mp h r hr)).2

/-- The thread when session 20 has its attachment extracted. -/
def firstDone : Sources :=
  threadOf ⟨(extracted 20).committed, by decide +kernel⟩

/-- The thread when only session 30 has. -/
def laterDone : Sources :=
  threadOf ⟨(extracted 30).committed, by decide +kernel⟩

/-- The first attachment of the name was extracted. -/
theorem first_done_agrees :
    ThreadAgrees Runtime.sample firstDone 10 "nda.pdf" [] := by
  obtain ⟨hloads, hother⟩ := @extracted_inline 20 (by decide +kernel)
  have hrows : firstDone.db.artifacts.rows = (extracted 20).committed := rfl
  have hblobs : firstDone.blobs = (extracted 20).blobs := rfl
  have hjoined : firstDone.Joined := threadOf_joined _
  refine (thread_inventory_iff [] (afterWrite_reached (by decide +kernel))
    hrows hblobs hloads hjoined
    (fun r hr hsid => absurd hsid (hother r hr))).mpr ?_
  intro p hp id hholder
  have hdata : p = "extracted_data/" ∧ id = 20 := by
    have hholders : artifactPrefixes.map (fun p =>
        (p, firstHolder firstDone.db 10 (p ++ "nda.pdf")))
        = [("extracted_data/", some 20), ("extracted_text/", none),
          ("image_analysis/", none)] := by
      decide +kernel
    have hmem : (p, some id) ∈ artifactPrefixes.map fun p =>
        (p, firstHolder firstDone.db 10 (p ++ "nda.pdf")) :=
      List.mem_map.mpr ⟨p, hp, Prod.ext rfl hholder⟩
    rw [hholders] at hmem
    simpa using hmem
  obtain ⟨rfl, rfl⟩ := hdata
  exact ⟨none, ⟨20, "nda.pdf", some "application/pdf", none⟩,
    by decide +kernel, "extracted_data/", by decide +kernel,
    .value (.int 1), by decide +kernel⟩

/-- The first was not, so the name is not listed as readable; the read
finds the later one. -/
theorem later_done_differs : ¬ ∀ (n : Nat) (rt : Runtime)
    (svc : ArtifactService) (s : ArtifactState n) (src : Sources)
    (sid : Uuid) (name : String) (classification : Attributes),
    ArtifactReaches rt svc Lts.Always s →
    src.db.artifacts.rows = s.committed → src.blobs = s.blobs →
    StoredLoads rt s.committed s.blobs → src.Joined →
    (∀ r ∈ src.db.artifacts.rows, r.sessionId = sid →
      ∀ p ∈ artifactPrefixes, r.key ∉ artifactKeyCandidates (p ++ name)) →
    ThreadAgrees rt src sid name classification := by
  intro h
  obtain ⟨hloads, hother⟩ := @extracted_inline 30 (by decide +kernel)
  obtain ⟨inventory, hbuild, hlisted, -⟩ := h 1 Runtime.sample .default
    (extracted 30) laterDone 10 "nda.pdf" []
    (afterWrite_reached (by decide +kernel)) rfl (by rfl) hloads
    (threadOf_joined _) (fun r hr hsid => absurd hsid (hother r hr))
  have hread : (readResolved Runtime.sample laterDone.db laterDone.blobs 10
      (.key ("extracted_data/" ++ "nda.pdf")) none true).map
      (fun found => found.1.sessionId) = .ok 30 := by
    decide +kernel
  have hnone : (buildExtractInventory Runtime.sample laterDone 10 []).map
      (fun inventory => (getMember inventory "thread_attachments").bind
        fun listed => (Memory.iterate listed).toOption.map fun entries =>
          entries.all fun entry =>
            getMember entry.members "readable" ≠ some (.bool true))
      = .ok (some true) := by
    decide +kernel
  rw [hbuild] at hnone
  have hnone := Except.ok.inj hnone
  have hfrom : ReadFrom Runtime.sample laterDone 10 "nda.pdf"
      "extracted_data/" 30 := by
    unfold ReadFrom
    cases hfound : readResolved Runtime.sample laterDone.db laterDone.blobs
        10 (.key ("extracted_data/" ++ "nda.pdf")) none true with
    | error e =>
        rw [hfound] at hread
        cases hread
    | ok found =>
        rw [hfound] at hread
        exact ⟨found.1, found.2, rfl, Except.ok.inj hread⟩
  obtain ⟨source, entries, entry, hentries, hentry, -, hreadable, -⟩ :=
    hlisted.mpr ⟨"extracted_data/", by decide +kernel, 30, hfrom⟩
  simp only [hentries] at hnone
  have hall := Option.some.inj hnone
  exact of_decide_eq_true (List.all_eq_true.mp hall _ hentry) hreadable

end LegalBot.Inventory
