/-
The key under which an entry of a file is projected to a person.

# Addresses

`_entity_key` would key a person by the `email` among the attributes.
`_parse_entity_entry` returns a type and a name, and the builder gives the
entity the file it was found in as its only attribute, so the address of
an entry is lost. Every person of a projection is keyed by a name
(`person_named`), and all entries of one name are one entity
(`one_person`).
-/
import LegalBot.Memory.Parts

namespace LegalBot.Memory

open Programs

-- ============================================================== statements

/-- An entry of a file of the bundle that is a person with an address. -/
structure PersonEntry (rt : Runtime) (tx : Texts) (artifacts : Attributes)
    (entry : Attributes) (name email : String) : Prop where
  listed : ∃ file content, (file, .obj content) ∈ artifacts
    ∧ startsWith file "extracted_data/" ∧ .obj entry ∈ entriesOf content
  person : parseEntityEntry rt tx (.obj entry) = some (.person, name)
  carried : Json.getMember entry "email" = some (.str email)
  nonblank : strip email ≠ ""

-- ================================================================= origins

/-- What a part adds a person for. -/
inductive PersonSource (tx : Texts) : ProjectionEntity → Prop
  | entry {content : Attributes} {snippet name : String} :
      PersonSource tx (entryEntity tx content snippet .person name)
  | party {snippets : Bool} {field : String × String} :
      PersonSource tx (partyEntity tx snippets field)

section Persons

variable {rt : Runtime} {tx : Texts} {artifacts report draft : Attributes}
  {e : ProjectionEntity}

/-- The parts of which every person is an entry or a party. -/
def PersonsFrom (tx : Texts) (parts : List GraphProjection) : Prop :=
  ∀ e ∈ (GraphProjection.concat parts).entities,
    e.entityType = .person → PersonSource tx e

theorem PersonsFrom.append {parts more : List GraphProjection}
    (h : PersonsFrom tx parts) (hmore : PersonsFrom tx more) :
    PersonsFrom tx (parts ++ more) := by
  intro e he
  unfold GraphProjection.concat at he
  rw [List.flatMap_append, List.mem_append] at he
  exact he.elim (h e) (hmore e)

theorem personsFrom_flatMap {α : Type} {f : α → List GraphProjection}
    {xs : List α} (h : ∀ x ∈ xs, PersonsFrom tx (f x)) :
    PersonsFrom tx (xs.flatMap f) := by
  intro e he
  obtain ⟨part, hpart, he⟩ := List.mem_flatMap.mp he
  obtain ⟨x, hx, hpart⟩ := List.mem_flatMap.mp hpart
  exact h x hx e (List.mem_flatMap.mpr ⟨part, hpart, he⟩)

/-- Parts without entities. -/
theorem personsFrom_edges {parts : List GraphProjection}
    (h : ∀ part ∈ parts, part.entities = []) : PersonsFrom tx parts := by
  intro e he
  obtain ⟨part, hpart, he⟩ := List.mem_flatMap.mp he
  rw [h part hpart] at he
  cases he

/-- An entity alone. -/
theorem personsFrom_entity {ent : ProjectionEntity}
    (h : ent.entityType = .person → PersonSource tx ent) :
    PersonsFrom tx [entityPart ent] := by
  intro e he
  rw [List.mem_singleton.mp he]
  exact h

theorem personsFrom_contract {snippets : Bool}
    {fields : List (String × String)} {contract : ProjectionEntity}
    (h : contract.entityType = .contract) :
    PersonsFrom tx ((fields.map (partyEntity tx snippets)).map entityPart
      ++ [entityPart contract]
      ++ partyParts (fields.map (partyEntity tx snippets)) contract) := by
  refine .append (.append ?_ ?_) ?_
  · intro e he _
    obtain ⟨part, hpart, he⟩ := List.mem_flatMap.mp he
    obtain ⟨ent, hent, rfl⟩ := List.mem_map.mp hpart
    obtain ⟨field, -, rfl⟩ := List.mem_map.mp hent
    rw [List.mem_singleton.mp he]
    exact .party
  · exact personsFrom_entity fun hperson => by
      rw [h] at hperson
      cases hperson
  · refine personsFrom_edges fun part hpart => ?_
    obtain ⟨ent, -, rfl⟩ := List.mem_map.mp hpart
    rfl

theorem personsFrom_link {ent : ProjectionEntity} {edge : ProjectionEdge}
    (h : ent.entityType = .person → PersonSource tx ent) :
    PersonsFrom tx
      [entityPart ent, GraphProjection.empty.edge edge] := by
  have hedge : PersonsFrom tx [GraphProjection.empty.edge edge] :=
    personsFrom_edges fun part hpart => by
      rw [List.mem_singleton.mp hpart]
      rfl
  exact (personsFrom_entity h).append hedge

theorem personsFrom_extracted {artifact : String × Json} :
    PersonsFrom tx (extractedParts rt tx artifact) := by
  unfold extractedParts
  split
  · split
    · refine personsFrom_flatMap fun raw _ => ?_
      unfold entryParts
      split
      · exact personsFrom_edges (by simp)
      · rename_i etype name _
        refine personsFrom_link fun hperson => ?_
        have hperson : etype = .person := hperson
        subst hperson
        exact .entry
    · exact personsFrom_edges (by simp)
  · exact personsFrom_edges (by simp)

/-- Every person of a projection is an entry or a party. -/
theorem personsFrom_artifacts :
    PersonsFrom tx (artifactParts rt tx artifacts) := by
  refine .append (.append (personsFrom_flatMap fun _ _ =>
    personsFrom_extracted) ?_) ?_
  · unfold reportParts
    split
    · refine .append ?_ ?_
      · unfold intentionParts
        simp only
        split
        · exact personsFrom_edges (by simp)
        · exact personsFrom_link (by simp)
      · unfold requestParts
        split
        · exact personsFrom_edges (by simp)
        · simp only
          split
          · refine .append (personsFrom_contract rfl)
              (personsFrom_edges fun part hpart => ?_)
            rw [List.mem_singleton.mp hpart]
            rfl
          · exact personsFrom_edges (by simp)
    · exact personsFrom_edges (by simp)
  · unfold contractParts
    split
    · refine .append (personsFrom_contract rfl) ?_
      unfold jurisdictionParts
      simp only
      split
      · exact personsFrom_link (by simp)
      · exact personsFrom_edges (by simp)
    · exact personsFrom_edges (by simp)

theorem PersonSource.named (h : PersonSource tx e) :
    ∃ name, e.canonicalKey = "name:" ++ name := by
  cases h with
  | entry => exact ⟨_, rfl⟩
  | party =>
      rename_i snippets field
      unfold partyEntity inferEntityTypeFromName
      dsimp only
      split <;> exact ⟨_, rfl⟩

/-- A person is keyed by a name. -/
theorem person_named {p : GraphProjection}
    (hp : buildProjectionFromArtifacts rt tx artifacts = .ok p)
    (he : e ∈ p.entities) (hperson : e.entityType = .person) :
    ∃ name, e.canonicalKey = "name:" ++ name := by
  rw [buildProjection_eq (buildProjection_succeeds.mp ⟨p, hp⟩)] at hp
  cases hp
  rw [merge_firsts] at he
  exact (personsFrom_artifacts e (Ranking.mem_of_mem_firsts he)
    hperson).named

theorem emailKey_ne {email name : String} :
    personCanonicalKey tx email ≠ "name:" ++ name := by
  intro h
  have hhead := congrArg (fun s => s.toList.head?) h
  unfold personCanonicalKey at hhead
  simp at hhead

/-- What the entries of a name are projected to. -/
theorem one_person {entry : Attributes} {name email : String}
    {p : GraphProjection} (h : PersonEntry rt tx artifacts entry name email)
    (hp : buildProjectionFromArtifacts rt tx artifacts = .ok p) :
    ∃ e, p.entities.filter (fun e =>
      e.bucket = (.person, "name:" ++ normalizeName tx name)) = [e] := by
  rw [buildProjection_eq (buildProjection_succeeds.mp ⟨p, hp⟩)] at hp
  cases hp
  rw [kept_under]
  obtain ⟨file, content, hmem, hkey, hentry⟩ := h.listed
  have hfound : entryEntity tx content (snippetOf rt file content) .person
      name ∈ (GraphProjection.concat
        (artifactParts rt tx artifacts)).entities := by
    have hpart : entityPart (entryEntity tx content
        (snippetOf rt file content) .person name)
          ∈ extractedParts rt tx (file, .obj content) := by
      unfold extractedParts
      dsimp only
      rw [if_pos hkey]
      refine List.mem_flatMap.mpr ⟨.obj entry, hentry, ?_⟩
      unfold entryParts
      rw [h.person]
      exact List.mem_cons_self
    have hall : entityPart (entryEntity tx content
        (snippetOf rt file content) .person name)
          ∈ artifactParts rt tx artifacts :=
      List.mem_append_left _ (List.mem_append_left _
        (List.mem_flatMap.mpr ⟨_, hmem, hpart⟩))
    exact List.mem_flatMap.mpr ⟨_, hall, List.mem_singleton_self _⟩
  have hsome : ((GraphProjection.concat
      (artifactParts rt tx artifacts)).entities.find? fun e =>
        e.bucket = (.person, "name:" ++ normalizeName tx name)).isSome :=
    List.find?_isSome.mpr ⟨_, hfound, decide_eq_true rfl⟩
  obtain ⟨e, he⟩ := Option.isSome_iff_exists.mp hsome
  exact ⟨e, by rw [he]; rfl⟩

end Persons

/-- No person has the key of the address of an entry, and the entries of
a name are one person, whatever their addresses. -/
theorem never_keyed_by_email {rt : Runtime} {tx : Texts}
    {artifacts entry : Attributes} {name email : String}
    (h : PersonEntry rt tx artifacts entry name email) :
    (¬ ∃ p, buildProjectionFromArtifacts rt tx artifacts = .ok p
        ∧ p.Holds (.person, personCanonicalKey tx email))
      ∧ ∀ p, buildProjectionFromArtifacts rt tx artifacts = .ok p →
        ∃ e, p.entities.filter (fun e =>
          e.bucket = (.person, "name:" ++ normalizeName tx name)) = [e] := by
  refine ⟨?_, fun p hp => one_person h hp⟩
  rintro ⟨p, hp, e, he, hbucket⟩
  obtain ⟨hperson, hkey⟩ := Prod.mk.inj hbucket
  obtain ⟨n, hnamed⟩ := person_named hp he hperson
  exact emailKey_ne (hkey.symm.trans hnamed)

-- =============================================================== scenarios

/-- An entry of a file. -/
def anaEntry (email : String) : Attributes :=
  [("name", .str "Ana Ruiz"), ("type", .str "Person"),
    ("email", .str email)]

/-- Two people of one name. -/
def twoAnas : Attributes :=
  [("extracted_data/a.pdf", .obj [("entities",
    .arr [.obj (anaEntry "ana@one.es"), .obj (anaEntry "ana@two.es")])])]

theorem anaEntry_listed : PersonEntry .sample .sample twoAnas
    (anaEntry "ana@one.es") "Ana Ruiz" "ana@one.es" :=
  ⟨⟨"extracted_data/a.pdf", _, List.mem_singleton_self _,
      by decide +kernel, List.mem_cons_self⟩,
    by decide +kernel, rfl, by decide +kernel⟩

theorem ana_never_keyed :
    ¬ ∃ p, buildProjectionFromArtifacts .sample .sample twoAnas = .ok p
      ∧ p.Holds (.person, personCanonicalKey .sample "ana@one.es") :=
  (never_keyed_by_email anaEntry_listed).1

/-- Both are one entity, keyed by their name. -/
theorem two_anas_one :
    ¬ ∀ artifacts entry name email,
      PersonEntry .sample .sample artifacts entry name email →
        ∃ p, buildProjectionFromArtifacts .sample .sample artifacts = .ok p
          ∧ p.Holds (.person, personCanonicalKey .sample email) := by
  intro h
  obtain ⟨p, hp, e, he, hbucket⟩ := h _ _ _ _ anaEntry_listed
  have hkeys : (buildProjectionFromArtifacts .sample .sample twoAnas).map
      (fun p => p.entities.map fun e => e.bucket)
      = .ok [(.person, "name:ana ruiz")] := by decide +kernel
  rw [hp] at hkeys
  injection hkeys with hkeys
  have hmem : e.bucket ∈ [(EntityType.person, "name:ana ruiz")] :=
    hkeys ▸ List.mem_map_of_mem he
  rw [hbucket, List.mem_singleton] at hmem
  exact absurd hmem (by decide +kernel)

end LegalBot.Memory
