/-
The reply graph.

# Times

What an item refers to was ingested before it (`Sources.RefersBack`);
this is asked of the items, not of the code. A parent that a reference
finds is then earlier. One that the thread fallback finds is the first
other item of the thread, which for the first item of a thread is a later
one. `EarlierParents` asks that no call takes that branch.

# The invariant

`Dated`: a `REPLIES_TO` edge joins the entities of an item and of an
earlier one. Edges are only added, entities keep their ids and items
stay, so only the call that adds an edge has to be looked at
(`indexed_dated`). Along a path the time decreases (`path_earlier`), so no
path returns.
-/
import LegalBot.Memory.Parents

namespace LegalBot.Memory

-- ============================================================== statements

/-- An edge says that the first entity replies to the second. -/
def Graph.RepliesTo (g : Graph) (a b : Uuid) : Prop :=
  ∃ e ∈ g.edges, e.relation = .repliesTo ∧ e.srcId = a ∧ e.dstId = b

/-- What an item refers to was ingested before it. -/
def Sources.RefersBack (src : Sources) : Prop :=
  ∀ i ∈ src.items.rows, ∀ detail, i.emailMetadata = some detail →
    ∀ ref ∈ replyCandidates detail, ∀ p,
      findItemByMessageRef src i.ownerUserId ref = .ok (some p) →
      p.ingestedAt < i.ingestedAt

/-- When no reference of the item finds an item, the first other item of
its thread is an earlier one. -/
def ThreadEarlier (src : Sources) (item : IngestionItem) : Prop :=
  ∀ detail p, item.emailMetadata = some detail →
    findReplied src item.ownerUserId (replyCandidates detail) = .ok none →
    threadParent src item detail = some p →
    p.ingestedAt < item.ingestedAt

/-- Items are added, and stay as they are. -/
def Ingesting : IndexAction → GraphState → Prop
  | .store src, s =>
      src.RefersBack ∧ ∀ i ∈ s.sources.items.rows, i ∈ src.items.rows
  | _, _ => True

/-- No call falls back to a later item of the thread. -/
def EarlierParents : IndexAction → GraphState → Prop
  | .store _, _ => True
  | .item itemId, s => ∀ item, s.sources.items.get itemId = some item →
      ThreadEarlier s.sources item
  | .run runId _, s => ∀ run item,
      runTarget s.sources runId = .ok (run, item) →
      ThreadEarlier s.sources item

/-- What is asked of a history, and the condition. -/
def OrderedReplies (a : IndexAction) (s : GraphState) : Prop :=
  Ingesting a s ∧ EarlierParents a s

/-- The two are the entities of an item and of an earlier one. -/
def Earlier (src : Sources) (g : Graph) (a b : Uuid) : Prop :=
  ∃ i ∈ src.items.rows, ∃ p ∈ src.items.rows, ∃ x y,
    g.row i.emailKey = some x ∧ x.id = a
      ∧ g.row p.emailKey = some y ∧ y.id = b
      ∧ p.ingestedAt < i.ingestedAt

/-- Every reply is to an earlier item. -/
def Dated (src : Sources) (g : Graph) : Prop :=
  ∀ e ∈ g.edges, e.relation = .repliesTo → Earlier src g e.srcId e.dstId

-- =================================================================== steps

section Steps

variable {env : GraphEnv} {src src' : Sources} {g g' : Graph}
  {a b : Uuid} {item : IngestionItem}

theorem Earlier.later {P : GraphWrite → Prop} (h : g.Valid env)
    (hwrites : Writes env P g g') (he : Earlier src g a b) :
    Earlier src g' a b := by
  obtain ⟨i, hi, p, hp, x, y, hx, hxa, hy, hyb, htime⟩ := he
  obtain ⟨x', hx', hidx, -⟩ := hwrites.row h hx
  obtain ⟨y', hy', hidy, -⟩ := hwrites.row h hy
  exact ⟨i, hi, p, hp, x', y', hx', hidx.trans hxa, hy',
    hidy.trans hyb, htime⟩

theorem Earlier.sources
    (hkept : ∀ i ∈ src.items.rows, i ∈ src'.items.rows)
    (he : Earlier src g a b) : Earlier src' g a b := by
  obtain ⟨i, hi, p, hp, hrest⟩ := he
  exact ⟨i, hkept i hi, p, hkept p hp, hrest⟩

/-- Under the condition a parent is earlier. -/
theorem parent_earlier (ho : src.RefersBack) (hitem : item ∈ src.items.rows)
    (hthread : ThreadEarlier src item) {p : IngestionItem}
    (hparent : parentItem src item = .ok (some p)) :
    p.ingestedAt < item.ingestedAt := by
  obtain ⟨detail, hdetail, ⟨ref, href, hfound⟩ | ⟨hnone, hfirst⟩⟩ :=
    parentItem_cases hparent
  · exact ho item hitem detail hdetail ref href p hfound
  · exact hthread detail p hdetail hnone hfirst

theorem indexed_dated (h : g.Valid env) (ho : src.RefersBack)
    (hitem : item ∈ src.items.rows) (hthread : ThreadEarlier src item)
    {parent : Option IngestionItem} {email : KgEntity} {g₁ g₂ : Graph}
    (hparent : parentItem src item = .ok parent)
    (hi : Indexed env item parent g g' email g₁ g₂)
    (hd : Dated src g) : Dated src g' := by
  intro e he hrelation
  rcases hi.replies e he hrelation with hold | hadded
  · exact (hd e hold hrelation).later h (hi.writes h)
  · obtain ⟨p, row, rfl, hrow, hsrc, hdst⟩ := hadded
    obtain ⟨own, hown, hid⟩ := hi.indexedRow h
    rw [parentKey_eq hparent] at hrow
    exact ⟨item, hitem, p, (parentItem_mem hparent).1, own, row, hown,
      hid.trans hsrc.symm, hrow, hdst.symm,
      parent_earlier ho hitem hthread hparent⟩

theorem runTarget_mem {runId : Uuid} {run : Run}
    (h : runTarget src runId = .ok (run, item)) :
    item ∈ src.items.rows := by
  unfold runTarget at h
  split at h
  · cases h
  · split at h
    · cases h
    · split at h
      · cases h
      · split at h
        · cases h
        · split at h
          · cases h
          · rename_i found hget
            injection h with h
            injection h with _ hitem
            exact hitem ▸ (Relational.Table.get_some hget).1

/-- One action. -/
theorem apply_dated {a : IndexAction} {s : GraphState}
    (h : s.graph.Valid env) (hg : Ingesting a s) (hc : EarlierParents a s)
    (ho : s.sources.RefersBack) (hd : Dated s.sources s.graph) :
    (a.apply env s).sources.RefersBack
      ∧ Dated (a.apply env s).sources (a.apply env s).graph := by
  cases a with
  | store src =>
      exact ⟨hg.1, fun e he hrelation =>
        (hd e he hrelation).sources hg.2⟩
  | item itemId =>
      refine ⟨ho, ?_⟩
      rcases @item_committed env s.graph s.sources itemId h with
        hsame | hdone
      · rw [IndexAction.apply, hsame]
        exact hd
      · obtain ⟨item, parent, email, g₁, g₂, hget, hparent, hi⟩ := hdone
        exact indexed_dated h ho (Relational.Table.get_some hget).1
          (hc item hget) hparent hi hd
  | run runId reply =>
      refine ⟨ho, ?_⟩
      rcases @run_committed env s.graph s.sources runId reply h with
        hsame | hdone
      · rw [IndexAction.apply, hsame]
        exact hd
      · obtain ⟨run, item, r, projection, row, g₁, htarget, -, hi⟩ := hdone
        obtain ⟨parent, email, ga, gb, hparent, hindexed⟩ := hi.indexed
        have hd₁ := indexed_dated h ho (runTarget_mem htarget)
          (hc run item htarget) hparent hindexed hd
        have hplain := runProjection_plain projection hi.projected
        have hwrites := (hi.after h).1
        -- a projection has no replies
        have hkept := replies_kept hwrites fun e he => by
          obtain ⟨-, pe, hpe, hrelation⟩ := he
          exact hrelation ▸ hplain.edges pe hpe
        exact fun e he hrelation =>
          (hd₁ e (hkept e he hrelation) hrelation).later
            ((hi.before h).valid h) hwrites

end Steps

-- ==================================================================== runs

section Paths

variable {env : GraphEnv} {src : Sources} {g : Graph} {a b : Uuid}

/-- Two items with one entity are one. -/
theorem same_item (h : g.Valid env) {i p : IngestionItem}
    (hi : i ∈ src.items.rows) (hp : p ∈ src.items.rows) {x y : KgEntity}
    (hx : g.row i.emailKey = some x) (hy : g.row p.emailKey = some y)
    (hid : x.id = y.id) : i = p := by
  obtain ⟨hmem, hkey⟩ := h.row_iff.mp hx
  obtain ⟨hmem', hkey'⟩ := h.row_iff.mp hy
  have hrow := h.eq_of_id hmem hmem' hid
  exact emailKey_injective hi hp (by rw [← hkey, ← hkey', hrow])

theorem Earlier.trans (h : g.Valid env) {c : Uuid}
    (hab : Earlier src g a b) (hbc : Earlier src g b c) :
    Earlier src g a c := by
  obtain ⟨i, hi, p, hp, x, y, hx, hxa, hy, hyb, htime⟩ := hab
  obtain ⟨p', hp', q, hq, y', z, hy', hyb', hz, hzc, htime'⟩ := hbc
  obtain rfl := same_item h hp hp' hy hy' (hyb.trans hyb'.symm)
  exact ⟨i, hi, q, hq, x, z, hx, hxa, hz, hzc, htime'.trans htime⟩

theorem Earlier.irrefl (h : g.Valid env) : ¬ Earlier src g a a := by
  rintro ⟨i, hi, p, hp, x, y, hx, hxa, hy, hya, htime⟩
  obtain rfl := same_item h hi hp hx hy (hxa.trans hya.symm)
  exact lt_irrefl _ htime

/-- A path leads to an earlier item. -/
theorem path_earlier (h : g.Valid env) (hd : Dated src g)
    (hpath : Relation.TransGen g.RepliesTo a b) : Earlier src g a b := by
  have hedge : ∀ {a b}, g.RepliesTo a b → Earlier src g a b := by
    rintro a b ⟨e, he, hrelation, rfl, rfl⟩
    exact hd e he hrelation
  induction hpath with
  | single hstep => exact hedge hstep
  | tail _ hstep ih => exact ih.trans h (hedge hstep)

end Paths

theorem reaches_dated {env : GraphEnv} {s : GraphState}
    (hs : GraphReaches env OrderedReplies s) :
    s.sources.RefersBack ∧ Dated s.sources s.graph := by
  refine Lts.Reachable.invariant (P := fun s => s.sources.RefersBack
    ∧ Dated s.sources s.graph) ⟨fun _ hi => absurd hi List.not_mem_nil,
      fun _ he => absurd he List.not_mem_nil⟩ ?_ hs
  intro s a s' hr hinv hguard hstep
  injection hstep with hstep
  subst hstep
  exact apply_dated (reaches_valid hr) hguard.1 hguard.2 hinv.1 hinv.2

/-- While no call falls back to a later item of the thread, the reply
graph has no cycle and no item replies to a later one. -/
theorem replies_acyclic (env : GraphEnv) {s : GraphState}
    (hs : GraphReaches env OrderedReplies s) :
    (∀ a, ¬ Relation.TransGen s.graph.RepliesTo a a)
      ∧ ∀ i ∈ s.sources.items.rows, ∀ p ∈ s.sources.items.rows,
        ∀ x y, s.graph.row i.emailKey = some x →
          s.graph.row p.emailKey = some y →
          s.graph.RepliesTo x.id y.id → p.ingestedAt < i.ingestedAt := by
  have hv := reaches_valid hs
  obtain ⟨-, hd⟩ := reaches_dated hs
  constructor
  · exact fun a hcycle => (path_earlier hv hd hcycle).irrefl hv
  · intro i hi p hp x y hx hy hreplies
    obtain ⟨i', hi', p', hp', x', y', hx', hxx, hy', hyy, htime⟩ :=
      path_earlier hv hd (.single hreplies)
    obtain rfl := same_item hv hi hi' hx hx' hxx.symm
    obtain rfl := same_item hv hp hp' hy hy' hyy.symm
    exact htime

-- =============================================================== scenarios

/-- The first message of a thread. -/
def Sources.threadStart : Sources :=
  { Sources.empty with
    items := ⟨[.sample 1 "u1" none (some "t")], by decide⟩ }

/-- Another one has come. -/
def Sources.thread : Sources :=
  { Sources.empty with
    items := ⟨[.sample 1 "u1" none (some "t"),
      .sample 2 "u1" none (some "t")], by decide⟩ }

/-- Messages without references. -/
theorem samples_referBack {src : Sources}
    (h : ∀ i ∈ src.items.rows, ∃ id,
      i = .sample id "u1" none (some "t")) : src.RefersBack := by
  intro i hi detail hdetail ref href
  obtain ⟨id, rfl⟩ := h i hi
  cases hdetail
  cases href

theorem threadStart_refersBack : Sources.threadStart.RefersBack := by
  refine samples_referBack fun i hi => ⟨1, ?_⟩
  exact List.mem_singleton.mp hi

theorem thread_refersBack : Sources.thread.RefersBack := by
  refine samples_referBack fun i hi => ?_
  rcases List.mem_cons.mp hi with rfl | hi
  · exact ⟨1, rfl⟩
  · exact ⟨2, List.mem_singleton.mp hi⟩

/-- The first message is indexed, the second comes and is indexed. -/
theorem in_order_reaches :
    GraphReaches (.sample false) OrderedReplies
      (GraphState.init.after (.sample false)
        [.store .threadStart, .item 1, .store .thread, .item 2]) := by
  have hfirst : ∀ item, Sources.threadStart.items.get 1 = some item →
      ThreadEarlier .threadStart item := by
    rintro item ⟨⟩ detail p ⟨⟩ - hparent
    have hnone : ∀ detail,
        (IngestionItem.sample 1 "u1" none (some "t")).emailMetadata
          = some detail →
        threadParent .threadStart
          (.sample 1 "u1" none (some "t")) detail = none := by
      rintro detail ⟨⟩
      decide +kernel
    cases (hnone _ rfl).symm.trans hparent
  have hsecond : ∀ item, Sources.thread.items.get 2 = some item →
      ThreadEarlier .thread item := by
    rintro item ⟨⟩ detail p ⟨⟩ - hparent
    have hearlier : ∀ detail,
        (IngestionItem.sample 2 "u1" none (some "t")).emailMetadata
          = some detail →
        threadParent .thread (.sample 2 "u1" none (some "t")) detail
          = some (.sample 1 "u1" none (some "t")) := by
      rintro detail ⟨⟩
      decide +kernel
    cases (hearlier _ rfl).symm.trans hparent
    decide
  refine .step (.item 2) (.step (.store .thread) (.step (.item 1)
    (.step (.store .threadStart) .init ?_ rfl) ?_ rfl) ?_ rfl) ?_ rfl
  · exact ⟨⟨threadStart_refersBack,
      fun _ hi => absurd hi List.not_mem_nil⟩, trivial⟩
  · exact ⟨trivial, hfirst⟩
  · refine ⟨⟨thread_refersBack, fun i hi => ?_⟩, trivial⟩
    exact List.mem_cons.mpr (Or.inl (List.mem_singleton.mp hi))
  · exact ⟨trivial, hsecond⟩

/-- The second message replies to the first, and that is all. -/
theorem in_order_acyclic :
    let s := GraphState.init.after (.sample false)
      [.store .threadStart, .item 1, .store .thread, .item 2]
    s.graph.RepliesTo 2 0
      ∧ ∀ a, ¬ Relation.TransGen s.graph.RepliesTo a a := by
  refine ⟨?_, (replies_acyclic (.sample false) in_order_reaches).1⟩
  unfold Graph.RepliesTo
  decide +kernel

/-- Indexing the first again, once the second is there, closes a
cycle. -/
theorem thread_reply_cycle :
    ∃ s, GraphReaches (.sample false) Ingesting s
      ∧ s.graph.RepliesTo 0 2 ∧ s.graph.RepliesTo 2 0 := by
  let s := GraphState.init.after (.sample false)
    [.store .threadStart, .item 1, .store .thread, .item 2, .item 1]
  have hreaches : GraphReaches (.sample false) Ingesting s :=
    .step (.item 1) (in_order_reaches.mono fun _ _ h => h.1) trivial rfl
  have hedge : ∀ a b, (∃ e ∈ s.graph.edges,
      e.relation = .repliesTo ∧ e.srcId = a ∧ e.dstId = b) →
      s.graph.RepliesTo a b := fun _ _ h => h
  exact ⟨s, hreaches, hedge 0 2 (by decide +kernel),
    hedge 2 0 (by decide +kernel)⟩

end LegalBot.Memory
