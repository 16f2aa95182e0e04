/-
The transcript of a session is numbered without gaps, and a stream reads
it from the front.

# Why no larger index is visible first

An index is chosen by a `SELECT` that may be stale by the time of the
`INSERT`. What keeps the numbering dense is the order of the three
statements: the `UPDATE` of the counter locks the session, so of all the
transactions that have inserted into a session at most one is in
progress (`Inv.exclusive`), and its rows follow the committed ones
(`Sound.own`). A stale index is at most the next one (`Sound.index`), so
either it is the next one or `uq_session_message_idx` refuses it.

The committed rows of a session then only grow at their end
(`committed_grow`), and a stream that pages by the last index it has
sent has read a prefix of them (`Inv.streams`).

With no other transaction in progress the statements are the
`appendMessage` of the transactions modelled elsewhere (`lone_append`).
-/
import LegalBot.Services.Transcript

namespace LegalBot.Transcript

open Lts (Always Reachable)
open Relational (HasKey Table)

variable {n : Nat}

-- ================================================================ counters

/-- A counter is raised once for each time its session was counted. -/
theorem bumped_count {counted : List (Uuid × Time)} {sid : Uuid} :
    ∀ {sessions : Table Session} {r' : Session},
      (counted.foldl bump sessions).get sid = some r' →
      ∃ r, sessions.get sid = some r
        ∧ r'.messageCount
          = r.messageCount + (counted.map Prod.fst).count sid := by
  induction counted with
  | nil => exact fun h => ⟨_, h, rfl⟩
  | cons counter rest ih =>
      intro sessions r' h
      obtain ⟨r₁, hr₁, hcount⟩ := ih h
      unfold bump at hr₁
      rw [Table.get_updateWhere] at hr₁
      obtain ⟨r, hr, rfl⟩ := Option.map_eq_some_iff.mp hr₁
      have hid : r.id = sid := Table.key_of_get hr
      refine ⟨r, hr, ?_⟩
      rw [List.map_cons, List.count_cons, hcount]
      by_cases hc : counter.1 = sid
      · simp [hid, hc]
        omega
      · have hne : ¬ sid = counter.1 := fun e => hc e.symm
        simp [hid, hc, hne]

/-- An update of counters adds no session and removes none. -/
theorem bumped_isSome {counted : List (Uuid × Time)} {sid : Uuid} :
    ∀ {sessions : Table Session},
      ((counted.foldl bump sessions).get sid).isSome
        = (sessions.get sid).isSome := by
  induction counted with
  | nil => exact rfl
  | cons counter rest ih =>
      intro sessions
      rw [List.foldl_cons, ih]
      unfold bump
      rw [Table.get_updateWhere, Option.isSome_map]

-- =========================================================== the invariant

/-- The rows an append has counted and not yet inserted. -/
def Append.uninserted (sid : Uuid) : Append → Nat
  | .counted row => if row.sessionId = sid then 1 else 0
  | _ => 0

/-- What holds of a connection, next to the committed rows. -/
structure Sound (sessions : Table Session) (messages : List SessionMessage)
    (wr : Writer) : Prop where
  /-- Its rows follow the committed ones. -/
  own : ∀ sid, Numbered.From SessionMessage.messageIndex
    (sessionRows messages sid).length (sessionRows wr.rows sid)
  /-- It has counted each of its rows, and the one it is inserting. -/
  tally : ∀ sid, wr.locks.count sid
    = (sessionRows wr.rows sid).length + wr.append.uninserted sid
  homed : ∀ sid ∈ wr.locks, (sessions.get sid).isSome
  /-- The index it has chosen is the next one or stale. -/
  index : ∀ row, wr.append.row = some row →
    0 ≤ row.messageIndex ∧ row.messageIndex
      ≤ (sessionRows (messages ++ wr.rows) row.sessionId).length

structure Inv (s : State n) : Prop where
  numbered : ∀ sid, RowsNumbered s.messages sid
  counted : ∀ sid r, s.sessions.get sid = some r →
    r.messageCount = (sessionRows s.messages sid).length
  homed : ∀ m ∈ s.messages, (s.sessions.get m.sessionId).isSome
  writers : ∀ w, Sound s.sessions s.messages (s.writers w)
  exclusive : ∀ v w, v ≠ w → ∀ sid ∈ (s.writers v).locks,
    sid ∉ (s.writers w).locks
  streams : ∀ stream sid,
    s.seen stream sid <+: sessionRows s.messages sid

theorem mem_sessionRows {rows : List SessionMessage} {sid : Uuid}
    {m : SessionMessage} :
    m ∈ sessionRows rows sid ↔ m ∈ rows ∧ m.sessionId = sid := by
  simp [sessionRows]

theorem Sound.fresh (sessions : Table Session)
    (messages : List SessionMessage) :
    Sound sessions messages .fresh where
  own _ := Numbered.from_nil _
  tally _ := rfl
  homed _ h := absurd h List.not_mem_nil
  index _ h := nomatch h

theorem init_inv : Inv (init n) where
  numbered _ := Numbered.from_nil 0
  counted _ _ h := nomatch h
  homed _ h := absurd h List.not_mem_nil
  writers _ := Sound.fresh _ _
  exclusive _ _ _ _ h := absurd h List.not_mem_nil
  streams _ _ := List.nil_prefix

/-- A transaction that has a row of a session holds its lock. -/
theorem Sound.locked {sessions : Table Session}
    {messages : List SessionMessage} {wr : Writer}
    (h : Sound sessions messages wr) {m : SessionMessage}
    (hm : m ∈ wr.rows) : m.sessionId ∈ wr.locks := by
  have hmem : m ∈ sessionRows wr.rows m.sessionId :=
    mem_sessionRows.mpr ⟨hm, rfl⟩
  have hpos : 0 < (sessionRows wr.rows m.sessionId).length :=
    List.length_pos_of_mem hmem
  have htally := h.tally m.sessionId
  rw [← List.count_pos_iff]
  omega

/-- A transaction without the lock has no row of the session. -/
theorem Sound.no_rows {sessions : Table Session}
    {messages : List SessionMessage} {wr : Writer}
    (h : Sound sessions messages wr) {sid : Uuid} (hsid : sid ∉ wr.locks) :
    sessionRows wr.rows sid = [] := by
  refine List.eq_nil_iff_forall_not_mem.mpr fun m hm => ?_
  obtain ⟨hmem, rfl⟩ := mem_sessionRows.mp hm
  exact hsid (h.locked hmem)

/-- What a transaction sees of a session is numbered. -/
theorem Sound.visible {sessions : Table Session}
    {messages : List SessionMessage} {wr : Writer}
    (h : Sound sessions messages wr) {sid : Uuid}
    (hmessages : RowsNumbered messages sid) :
    RowsNumbered (messages ++ wr.rows) sid := by
  unfold RowsNumbered
  rw [sessionRows_append]
  refine hmessages.append ?_
  rw [Nat.zero_add]
  exact h.own sid

-- =============================================================== the steps

/-- A step of one connection that leaves the committed rows alone. -/
theorem Inv.setWriter {s : State n} (h : Inv s) {w : Fin n} {wr : Writer}
    (hwr : Sound s.sessions s.messages wr)
    (hlocks : ∀ v, v ≠ w → ∀ sid ∈ wr.locks,
      sid ∉ (s.writers v).locks) :
    Inv (s.setWriter w wr) where
  numbered := h.numbered
  counted := h.counted
  homed := h.homed
  writers v := by
    by_cases hv : v = w
    · subst hv
      rw [setWriter_self]
      exact hwr
    · rw [setWriter_of_ne s hv]
      exact h.writers v
  exclusive v v' hne sid := by
    by_cases hv : v = w
    · subst hv
      rw [setWriter_self, setWriter_of_ne s hne.symm]
      exact hlocks v' hne.symm sid
    · rw [setWriter_of_ne s hv]
      by_cases hv' : v' = w
      · subst hv'
        rw [setWriter_self]
        exact fun hmem hsid => hlocks v hv sid hsid hmem
      · rw [setWriter_of_ne s hv']
        exact h.exclusive v v' hne sid
  streams := h.streams

theorem Inv.fresh {s : State n} (h : Inv s) (w : Fin n) :
    Inv (s.setWriter w .fresh) :=
  h.setWriter (Sound.fresh _ _) fun _ _ _ hsid =>
    absurd hsid List.not_mem_nil

theorem Inv.createSession {s s' : State n} (h : Inv s) {row : Session}
    (hrow : row.messageCount = 0) (hstep : createSession s row = some s') :
    Inv s' := by
  obtain ⟨sessions, hins, rfl⟩ := Option.map_eq_some_iff.mp hstep
  have hkept : ∀ sid, (s.sessions.get sid).isSome →
      (sessions.get sid).isSome := by
    intro sid hsid
    obtain ⟨r, hr⟩ := Option.isSome_iff_exists.mp hsid
    rw [Table.get_insert_of_some hins hr]
    rfl
  refine ⟨h.numbered, fun sid r hr => ?_,
    fun m hm => hkept _ (h.homed m hm), fun w => ?_, h.exclusive,
    h.streams⟩
  · rw [Table.get_insert hins] at hr
    by_cases hid : HasKey.key row = sid
    · -- a new session has no rows yet
      rw [if_pos hid] at hr
      cases hr
      show row.messageCount = _
      rw [hrow]
      refine (List.length_eq_zero_iff.mpr ?_).symm
      refine List.eq_nil_iff_forall_not_mem.mpr fun m hm => ?_
      obtain ⟨hmem, hsid⟩ := mem_sessionRows.mp hm
      have hsome := h.homed m hmem
      rw [hsid, ← hid, Table.insert_fresh hins] at hsome
      cases hsome
    · rw [if_neg hid] at hr
      exact h.counted sid r hr
  · have hw := h.writers w
    exact ⟨hw.own, hw.tally, fun sid hsid => hkept sid (hw.homed sid hsid),
      hw.index⟩

theorem Inv.selectIndex {s s' : State n} (h : Inv s) {w : Fin n}
    {id sid : Uuid} {role content : String} {runId : Option Uuid}
    (hstep : selectIndex s w id sid role content runId = some s') :
    Inv s' := by
  unfold Transcript.selectIndex at hstep
  cases ha : (s.writers w).append with
  | idle =>
      rw [ha] at hstep
      cases hstep
      have hw := h.writers w
      refine h.setWriter ⟨hw.own, fun k => ?_, hw.homed, ?_⟩
        fun v hv k => h.exclusive w v hv.symm k
      · have htally := hw.tally k
        rw [ha] at htally
        exact htally
      · intro row hrow
        cases hrow
        have hnext := nextIndexOf_eq (hw.visible (h.numbered sid))
        show 0 ≤ nextIndexOf _ sid ∧ nextIndexOf _ sid ≤ _
        rw [hnext]
        exact ⟨Int.natCast_nonneg _, Int.le_refl _⟩
  | indexed row => simp [ha] at hstep
  | counted row => simp [ha] at hstep
  | orphan row => simp [ha] at hstep

theorem Inv.updateCounter {s s' : State n} (h : Inv s) {w : Fin n}
    {now : Time} (hstep : updateCounter s w now = some s') : Inv s' := by
  unfold Transcript.updateCounter at hstep
  have hw := h.writers w
  cases ha : (s.writers w).append with
  | idle => simp [ha] at hstep
  | counted row => simp [ha] at hstep
  | orphan row => simp [ha] at hstep
  | indexed row =>
      simp only [ha] at hstep
      have hindex := hw.index row (by rw [ha]; rfl)
      have htally := hw.tally
      rw [ha] at htally
      by_cases hbusy : ∃ v, v ≠ w ∧ row.sessionId ∈ (s.writers v).locks
      · rw [if_pos hbusy] at hstep
        cases hstep
      · rw [if_neg hbusy] at hstep
        by_cases hsome : (s.sessions.get row.sessionId).isSome
        · rw [if_pos hsome] at hstep
          cases hstep
          have hlocks : ∀ k, k ∈ (s.writers w).locks ++ [row.sessionId] →
              k ∈ (s.writers w).locks ∨ k = row.sessionId := by
            simp
          refine h.setWriter ⟨hw.own, fun k => ?_, fun k hk => ?_, ?_⟩
            fun v hv k hk => ?_
          · show (((s.writers w).counted ++ [(row.sessionId, now)]).map
              Prod.fst).count k = _
            rw [List.map_append, List.count_append]
            have hk := htally k
            unfold Writer.locks at hk
            rw [hk]
            show _ + 0 + [row.sessionId].count k = _ + ite _ _ _
            rw [List.count_singleton]
            simp
          · simp only [Writer.locks, List.map_append] at hk
            rcases hlocks k hk with hk | rfl
            · exact hw.homed k hk
            · exact hsome
          · intro row' hrow
            cases hrow
            exact hindex
          · simp only [Writer.locks, List.map_append] at hk
            rcases hlocks k hk with hk | rfl
            · exact h.exclusive w v hv.symm k hk
            · exact fun hv' => hbusy ⟨v, hv, hv'⟩
        · rw [if_neg hsome] at hstep
          cases hstep
          refine h.setWriter ⟨hw.own, htally, hw.homed, ?_⟩
            fun v hv k => h.exclusive w v hv.symm k
          intro row' hrow
          cases hrow
          exact hindex

/-- An index that is free when its row is inserted is the next one. -/
theorem Sound.insert {sessions : Table Session}
    {messages : List SessionMessage} {wr : Writer} {row : SessionMessage}
    (h : Sound sessions messages wr)
    (hmessages : RowsNumbered messages row.sessionId)
    (ha : wr.append = .counted row)
    (hfree : ¬ ∃ m ∈ messages ++ wr.rows, Clash m row) :
    Sound sessions messages
      { wr with rows := wr.rows ++ [row], append := .idle } := by
  obtain ⟨h₀, hle⟩ := h.index row (by rw [ha]; rfl)
  have hnext : row.messageIndex
      = (sessionRows (messages ++ wr.rows) row.sessionId).length := by
    refine Numbered.eq_length_of_free (h.visible hmessages) h₀ hle ?_
    rintro ⟨m, hm, hk⟩
    obtain ⟨hmem, hsid⟩ := mem_sessionRows.mp hm
    exact hfree ⟨m, hmem, .inr ⟨hsid, hk⟩⟩
  have hone : ∀ sid, sessionRows [row] sid
      = if row.sessionId = sid then [row] else [] := by
    intro sid
    by_cases hsid : row.sessionId = sid
    · simp [sessionRows, hsid]
    · simp [sessionRows, hsid]
  have htally := h.tally
  rw [ha] at htally
  refine ⟨fun sid => ?_, fun sid => ?_, h.homed, fun row' hrow => ?_⟩
  · rw [sessionRows_append, hone]
    by_cases hsid : row.sessionId = sid
    · rw [if_pos hsid]
      refine (h.own sid).append (Numbered.from_singleton ?_)
      rw [hnext, hsid, sessionRows_append, List.length_append]
    · rw [if_neg hsid, List.append_nil]
      exact h.own sid
  · show wr.locks.count sid = _ + 0
    rw [htally sid, sessionRows_append, hone, List.length_append]
    show _ + ite _ _ _ = _
    by_cases hsid : row.sessionId = sid
    · rw [if_pos hsid, if_pos hsid]
      rfl
    · rw [if_neg hsid, if_neg hsid]
      rfl
  · cases hrow

theorem Inv.insertRow {s s' : State n} (h : Inv s) {w : Fin n}
    (hstep : insertRow s w = some s') : Inv s' := by
  unfold Transcript.insertRow at hstep
  cases ha : (s.writers w).append with
  | idle => simp [ha] at hstep
  | indexed row => simp [ha] at hstep
  | orphan row =>
      simp only [ha] at hstep
      cases hstep
      exact h.fresh w
  | counted row =>
      simp only [ha] at hstep
      by_cases hbusy : ∃ v, v ≠ w ∧ ∃ m ∈ (s.writers v).rows, Clash m row
      · rw [if_pos hbusy] at hstep
        cases hstep
      · rw [if_neg hbusy] at hstep
        by_cases hclash : ∃ m ∈ s.messages ++ (s.writers w).rows,
            Clash m row
        · rw [if_pos hclash] at hstep
          cases hstep
          exact h.fresh w
        · rw [if_neg hclash] at hstep
          cases hstep
          exact h.setWriter
            ((h.writers w).insert (h.numbered row.sessionId) ha hclash)
            fun v hv k => h.exclusive w v hv.symm k

/-- What one transaction commits leaves the others as they were: they
have no row of a session it has written. -/
theorem Sound.committed {sessions : Table Session}
    {messages : List SessionMessage} {wr wr' : Writer}
    (h : Sound sessions messages wr) (h' : Sound sessions messages wr')
    (hlocks : ∀ sid ∈ wr.locks, sid ∉ wr'.locks) :
    Sound (wr.counted.foldl bump sessions) (messages ++ wr.rows) wr' := by
  refine ⟨fun sid => ?_, h'.tally, fun sid hsid => ?_,
    fun row hrow => ?_⟩
  · by_cases hsid : sid ∈ wr.locks
    · rw [h'.no_rows (hlocks sid hsid)]
      exact Numbered.from_nil _
    · rw [sessionRows_append, h.no_rows hsid, List.append_nil]
      exact h'.own sid
  · rw [bumped_isSome]
    exact h'.homed sid hsid
  · obtain ⟨h₀, hle⟩ := h'.index row hrow
    refine ⟨h₀, ?_⟩
    simp only [sessionRows_append, List.length_append] at hle ⊢
    omega

theorem Inv.commit {s s' : State n} (h : Inv s) {w : Fin n}
    (hstep : commit s w = some s') : Inv s' := by
  unfold Transcript.commit at hstep
  have hw := h.writers w
  cases ha : (s.writers w).append with
  | indexed row => simp [ha] at hstep
  | counted row => simp [ha] at hstep
  | orphan row => simp [ha] at hstep
  | idle =>
      simp only [ha] at hstep
      cases hstep
      have hgrown : ∀ sid, sessionRows (s.messages ++ (s.writers w).rows) sid
          = sessionRows s.messages sid
            ++ sessionRows (s.writers w).rows sid :=
        fun sid => sessionRows_append _ _ sid
      refine ⟨fun sid => hw.visible (h.numbered sid), fun sid r hr => ?_,
        fun m hm => ?_, fun v => ?_, fun v v' hne sid => ?_,
        fun stream sid => ?_⟩
      · obtain ⟨r₀, hr₀, hcount⟩ := bumped_count hr
        have htally := hw.tally sid
        rw [ha] at htally
        unfold Writer.locks at htally
        rw [hcount, htally, h.counted sid r₀ hr₀, hgrown,
          List.length_append]
        rfl
      · rw [bumped_isSome]
        rcases List.mem_append.mp hm with hold | hnew
        · exact h.homed m hold
        · exact hw.homed _ (hw.locked hnew)
      · show Sound _ _ (Function.update s.writers w .fresh v)
        by_cases hv : v = w
        · subst hv
          rw [Function.update_self]
          exact Sound.fresh _ _
        · rw [Function.update_of_ne hv]
          exact hw.committed (h.writers v) fun sid =>
            h.exclusive w v (fun e => hv e.symm) sid
      · show sid ∈ (Function.update s.writers w .fresh v).locks →
          sid ∉ (Function.update s.writers w .fresh v').locks
        by_cases hv : v = w
        · subst hv
          rw [Function.update_self]
          exact fun hsid => absurd hsid List.not_mem_nil
        · rw [Function.update_of_ne hv]
          by_cases hv' : v' = w
          · subst hv'
            rw [Function.update_self]
            exact fun _ => List.not_mem_nil
          · rw [Function.update_of_ne hv']
            exact h.exclusive v v' hne sid
      · rw [hgrown]
        exact (h.streams stream sid).trans (List.prefix_append _ _)

/-- A stream that has sent the first rows asks for those after them. -/
theorem afterIndex_eq {rows sent : List SessionMessage}
    (h : Numbered.FromZero SessionMessage.messageIndex rows)
    (hsent : sent <+: rows) : afterIndex sent = sent.length - 1 := by
  unfold afterIndex
  rcases List.eq_nil_or_concat sent with rfl | ⟨front, m, rfl⟩
  · rfl
  · obtain ⟨rest, rfl⟩ := hsent
    rw [List.concat_eq_append] at h ⊢
    rw [List.getLast?_concat, List.length_append]
    have hlast := Numbered.last_num (h.front (List.prefix_append _ rest))
    simp only [Option.map_some, Option.getD_some, List.length_singleton]
    omega

theorem Inv.read {s : State n} (h : Inv s) (stream : Nat) (sid : Uuid)
    (limit : Nat) : Inv (read s stream sid limit) := by
  refine ⟨h.numbered, h.counted, h.homed, h.writers, h.exclusive,
    fun stream' sid' => ?_⟩
  show Function.update s.seen stream _ stream' sid' <+: _
  by_cases hstream : stream' = stream
  · subst hstream
    rw [Function.update_self]
    by_cases hsid : sid' = sid
    · subst hsid
      have hseen := h.streams stream' sid'
      rw [Function.update_self, afterIndex_eq (h.numbered sid') hseen,
        listMessages_after (h.numbered sid')]
      obtain ⟨rest, hrest⟩ := hseen
      show _ <+: sessionRows s.messages sid'
      rw [← hrest, List.drop_left]
      exact (List.prefix_append_right_inj _).mpr (List.take_prefix _ _)
    · rw [Function.update_of_ne hsid]
      exact h.streams stream' sid'
  · rw [Function.update_of_ne hstream]
    exact h.streams stream' sid'

theorem step_inv {a : Action n} {s s' : State n} (h : Inv s)
    (hstep : step a s = some s') : Inv s' := by
  cases a with
  | createPrimary job id hex now => exact h.createSession rfl hstep
  | createReplay parent rid cid id hex now =>
      exact h.createSession rfl hstep
  | appendMessage w id sid role content runId => exact h.selectIndex hstep
  | postSystemMessage w id sid content => exact h.selectIndex hstep
  | update w now => exact h.updateCounter hstep
  | insert w => exact h.insertRow hstep
  | commit w => exact h.commit hstep
  | rollback w =>
      cases hstep
      exact h.fresh w
  | read stream sid limit =>
      cases hstep
      exact h.read stream sid limit

theorem reachable_inv {s : State n}
    (h : Reachable step Always (init n) s) : Inv s :=
  h.invariant init_inv fun _ _ _ _ hinv _ hstep => step_inv hinv hstep

-- ========================================================== a lone append

/-- The four statements of an append, with no other transaction in
progress, are `appendMessage`. -/
theorem lone_append {s : State n} {db db' : Db} {w : Fin n} {now : Time}
    {id sid : Uuid} {role content : String} {runId : Option Uuid}
    (hidle : s.writers = fun _ => .fresh)
    (hmessages : s.messages = db.messages.rows)
    (hsessions : s.sessions = db.sessions)
    (hsession : (db.sessions.get sid).isSome)
    (h : appendMessage db now id sid role content runId = some db') :
    ∃ s', Lts.run step s
        [.appendMessage w id sid role content runId, .update w now,
          .insert w, .commit w] = some s'
      ∧ s'.writers = s.writers
      ∧ s'.messages = db'.messages.rows ∧ s'.sessions = db'.sessions := by
  unfold appendMessage appendMessageAt at h
  split at h
  · cases h
  rename_i hfree
  obtain ⟨messages, hins, rfl⟩ := Option.map_eq_some_iff.mp h
  have hrows := Table.insert_rows hins
  have hnew := Table.insert_fresh hins
  have hclash : ¬ ∃ m ∈ s.messages, Clash m
      { id := id, sessionId := sid, runId := runId, role := role
        content := content
        messageIndex := nextMessageIndex db.messages sid } := by
    rintro ⟨m, hm, hid | ⟨hsid, hindex⟩⟩
    · rw [hmessages] at hm
      have hget := Table.get_of_mem hm
      rw [show HasKey.key m = id from hid] at hget
      rw [show db.messages.get id = none from hnew] at hget
      cases hget
    · refine hfree (List.any_eq_true.mpr ⟨m, hmessages ▸ hm, ?_⟩)
      simpa using ⟨hsid, hindex⟩
  rw [nextMessageIndex_eq, ← hmessages] at hclash hrows
  rw [← hsessions] at hsession
  have hwriter : s.writers w = .fresh := congrFun hidle w
  have hothers : ∀ v, v ≠ w → ∀ wr,
      (s.setWriter w wr).writers v = .fresh := by
    intro v hv wr
    rw [setWriter_of_ne s hv, hidle]
  have hlocks : ∀ wr, ¬ ∃ v, v ≠ w
      ∧ sid ∈ ((s.setWriter w wr).writers v).locks := by
    rintro wr ⟨v, hv, hmem⟩
    rw [hothers v hv] at hmem
    cases hmem
  have hinserts : ∀ wr row, ¬ ∃ v, v ≠ w
      ∧ ∃ m ∈ ((s.setWriter w wr).writers v).rows, Clash m row := by
    rintro wr row ⟨v, hv, m, hmem, -⟩
    rw [hothers v hv] at hmem
    cases hmem
  have hselect : step (.appendMessage w id sid role content runId) s
      = some (s.setWriter w
          { Writer.fresh with
            append := .indexed
              { id := id, sessionId := sid, runId := runId, role := role
                content := content
                messageIndex := nextIndexOf s.messages sid } }) := by
    simp [step, selectIndex, hwriter, Writer.fresh]
  refine ⟨{ s with
    sessions := bump s.sessions (sid, now)
    messages := messages.rows }, ?_, rfl, rfl, ?_⟩
  · rw [Lts.run, hselect]
    simp only [Lts.run, step, updateCounter, setWriter_self,
      setWriter_sessions]
    rw [if_neg (hlocks _), if_pos hsession]
    simp only [insertRow, setWriter_self, setWriter_setWriter]
    rw [if_neg (hinserts _ _)]
    simp only [setWriter_messages, Writer.fresh, List.append_nil]
    rw [if_neg hclash]
    simp only [commit, setWriter_self, List.nil_append]
    simp only [State.setWriter, Function.update_idem]
    rw [show Function.update s.writers w _ = s.writers from
      hwriter ▸ Function.update_eq_self w s.writers, hrows]
    rfl
  · rw [hsessions]
    rfl
-- ============================================================== the result

/-- Committed rows stay, in their order; new ones come after them. -/
theorem messages_grow {a : Action n} {s s' : State n}
    (hstep : step a s = some s') : s.messages <+: s'.messages := by
  cases a with
  | createPrimary job id hex now =>
      obtain ⟨_, -, rfl⟩ := Option.map_eq_some_iff.mp hstep
      exact List.prefix_rfl
  | createReplay parent rid cid id hex now =>
      obtain ⟨_, -, rfl⟩ := Option.map_eq_some_iff.mp hstep
      exact List.prefix_rfl
  | appendMessage w id sid role content runId =>
      simp only [step, selectIndex] at hstep
      split at hstep
      · cases hstep
        exact List.prefix_rfl
      · cases hstep
  | postSystemMessage w id sid content =>
      simp only [step, selectIndex] at hstep
      split at hstep
      · cases hstep
        exact List.prefix_rfl
      · cases hstep
  | update w now =>
      simp only [step, updateCounter] at hstep
      repeat' split at hstep
      all_goals cases hstep
      all_goals exact List.prefix_rfl
  | insert w =>
      simp only [step, insertRow] at hstep
      repeat' split at hstep
      all_goals cases hstep
      all_goals exact List.prefix_rfl
  | commit w =>
      simp only [step, commit] at hstep
      split at hstep
      · cases hstep
        exact List.prefix_append _ _
      · cases hstep
  | rollback w =>
      cases hstep
      exact List.prefix_rfl
  | read stream sid limit =>
      cases hstep
      exact List.prefix_rfl

theorem committed_grow {s s' : State n} (h : Reachable step Always s s') :
    s.messages <+: s'.messages :=
  h.invariant (P := fun t => s.messages <+: t.messages) List.prefix_rfl
    fun _ _ _ _ hgrown _ hstep => hgrown.trans (messages_grow hstep)

/-- In every committed state the rows of a session are numbered `0` to
`message_count - 1`, and what a stream has sent is a prefix of the
transcript of every later state. -/
theorem transcript_in_order {s s' : State n}
    (hs : Reachable step Always (init n) s)
    (hs' : Reachable step Always s s') :
    (∀ sid session, s.sessions.get sid = some session →
      (transcript s.messages sid).map (·.messageIndex)
        = (List.range session.messageCount).map Int.ofNat)
    ∧ ∀ stream sid, s.seen stream sid <+: transcript s'.messages sid := by
  have hinv := reachable_inv hs
  have hinv' := reachable_inv (hs.trans hs')
  refine ⟨fun sid session hget => ?_, fun stream sid => ?_⟩
  · rw [transcript_eq (hinv.numbered sid), hinv.counted sid session hget]
    exact Numbered.map_num (hinv.numbered sid)
  · rw [transcript_eq (hinv'.numbered sid)]
    exact (hinv.streams stream sid).trans
      ((committed_grow hs').filter _)

/-- Two writers on one session: the second takes the index the first has
read, the first is refused, and the second then appends twice in one
transaction. -/
def contended : List (Action 2) :=
  [ .createPrimary
      { id := 1, ingestionItemId := 1, state := .processing, priority := 0
        attempts := 0, lastError := none, errorKind := none
        dispatchedAt := none, processingStartedAt := none
        finishedAt := none, currentSessionId := none, ownerUserId := "u"
        createdAt := 0, updatedAt := 0 } 2 "0a" 0,
    .appendMessage 0 10 2 "user" "a" none,
    .appendMessage 1 11 2 "user" "b" none, .update 1 1, .insert 1,
    .read 0 2 100, .commit 1, .read 0 2 100, .update 0 2, .insert 0,
    .postSystemMessage 1 12 2 "c", .update 1 3, .insert 1,
    .appendMessage 1 13 2 "assistant" "d" none, .update 1 4, .insert 1,
    .commit 1, .read 0 2 1 ]

/-- The first writer tries again and gives up. -/
def abandoned : List (Action 2) :=
  [.appendMessage 0 10 2 "user" "a" none, .update 0 5, .insert 0,
    .rollback 0]

theorem contended_in_order : ∃ s s' : State 2,
    Lts.run step (init 2) contended = some s
    ∧ Lts.run step s abandoned = some s'
    ∧ (s.sessions.get 2).map (·.messageCount) = some 3
    ∧ (s.seen 0 2).length = 2
    ∧ (∀ sid session, s.sessions.get sid = some session →
      (transcript s.messages sid).map (·.messageIndex)
        = (List.range session.messageCount).map Int.ofNat)
    ∧ ∀ stream sid,
      s.seen stream sid <+: transcript s'.messages sid := by
  obtain ⟨s, hs⟩ := Option.isSome_iff_exists.mp
    (show (Lts.run step (init 2) contended).isSome by decide +kernel)
  have hboth : ((Lts.run step (init 2) contended).bind fun s =>
      Lts.run step s abandoned).isSome := by decide +kernel
  have hcount : ((Lts.run step (init 2) contended).bind fun s =>
      (s.sessions.get 2).map (·.messageCount)) = some 3 := by
    decide +kernel
  have hseen : ((Lts.run step (init 2) contended).map fun s =>
      (s.seen 0 2).length) = some 2 := by decide +kernel
  rw [hs, Option.bind_some] at hboth hcount
  rw [hs] at hseen
  obtain ⟨s', hs'⟩ := Option.isSome_iff_exists.mp hboth
  refine ⟨s, s', hs, hs', hcount, Option.some.inj hseen, ?_⟩
  exact transcript_in_order (Lts.reachable_of_run .init hs)
    (Lts.reachable_of_run .init hs')

end LegalBot.Transcript
