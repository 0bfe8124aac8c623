import GraphqlStore.Proofs.CompiledShape

/-!
Cache keys of artifacts. The entry of a field is marked as paginated if one of
its selections is, but its key is that of the first selection. So the key
agrees with the mark exactly if the first selection is paginated when any is.
-/

set_option autoImplicit false

namespace GraphqlStore

namespace Field

def keyCall (field : Field) (paginated : Bool) : String :=
  let arguments := (field.keyArguments paginated).map argumentKey
  let call := if arguments.isEmpty then "" else "(" ++ ", ".intercalate arguments ++ ")"
  if paginated then call ++ paginatedSuffix else call

theorem cacheKey_eq (field : Field) (paginated : Bool) :
    field.cacheKey paginated = field.name ++ field.keyCall paginated := by
  unfold cacheKey keyCall
  generalize (field.keyArguments paginated).map argumentKey = arguments
  cases paginated <;> cases arguments <;> simp [String.append_assoc]

theorem suffix_keyCall_iff (field : Field) (paginated : Bool) :
    paginatedSuffix.toList <:+ (field.keyCall paginated).toList ↔ paginated = true := by
  unfold keyCall
  generalize (field.keyArguments paginated).map argumentKey = arguments
  cases paginated with
  | true => simp [String.toList_append, List.suffix_append]
  | false =>
      refine ⟨?_, fun absurd => by cases absurd⟩
      rintro ⟨before, same⟩
      cases arguments with
      | nil => simp [paginatedSuffix] at same
      | cons argument rest =>
          have letter : (before ++ paginatedSuffix.toList).getLast? = some 'd' := by
            simp [paginatedSuffix]
          have bracket : ("(" ++ ", ".intercalate (argument :: rest) ++ ")").toList.getLast? =
              some ')' := by
            rw [String.toList_append]
            exact List.getLast?_concat
          rw [same] at letter
          exact absurd (letter.symm.trans bracket) (by decide)

private theorem cacheKey_ne {first second : Field} (same : first.name = second.name) :
    first.cacheKey false ≠ second.cacheKey true := by
  intro equal
  rw [cacheKey_eq, cacheKey_eq, same] at equal
  have calls : first.keyCall false = second.keyCall true := (String.append_right_inj _).1 equal
  have ends := (second.suffix_keyCall_iff true).2 rfl
  rw [← calls] at ends
  cases (first.suffix_keyCall_iff false).1 ends

end Field

namespace Generation

variable {config : Config}

private theorem summary_first {first : Occurrence} {rest : List Occurrence}
    {entry : FieldInfo × Bool}
    {found : FieldRef} (selected : config.schema.field? first.parent first.head.name = some found)
    (summed : summary config (first :: rest) = some entry) :
    entry.1.keyRaw = first.head.cacheKey first.head.isPaginated ∧
      entry.1.marshal = if config.needsMarshal found.typeName then some found.typeName else none := by
  rw [summary, List.foldr_cons, single?, selected, ← summary] at summed
  cases later : summary config rest with
  | none =>
      rw [later] at summed
      cases summed
      exact ⟨rfl, rfl⟩
  | some other =>
      rw [later] at summed
      cases summed
      exact ⟨rfl, rfl⟩

namespace Records

variable {root : String} {items : List Selection} {shape : SelectionShape}

theorem infoAt?_first (records : Records config (placed config.schema root false items) shape)
    {path : ShapePath} {info : FieldInfo} (here : shape.infoAt? path = some info) :
    ∃ first rest, occurrencesAt path (placed config.schema root false items) = first :: rest ∧
      info.keyRaw = first.head.cacheKey first.head.isPaginated ∧
      info.marshal = if config.needsMarshal info.type then some info.type else none := by
  have sums := records.sumsUp here
  rcases records.infoAt?_cases path with
    ⟨_, none⟩ | ⟨place, name, field, rfl, named, found, tells, _⟩
  · cases none.symm.trans here
  cases found.symm.trans here
  have summed := (records place).entries name
  rw [named, ← occurrencesAt_field] at summed
  obtain ⟨occurrence, member, -⟩ := tells.first
  cases occurrences :
      occurrencesAt (place ++ [.field name]) (placed config.schema root false items) with
  | nil =>
      rw [occurrences] at member
      cases member
  | cons first rest =>
      rw [occurrences] at summed sums
      obtain ⟨declared, selected, -, type, -⟩ := sums.backed first List.mem_cons_self
      have own := summary_first selected summed.symm
      rw [← type] at own
      exact ⟨first, rest, rfl, own⟩

end Records

/-- Whether the key of an entry is that of one of its selections, under the mark of the entry. -/
def KeyAgrees (occurrences : List Occurrence) (info : FieldInfo) : Prop :=
  ∃ occurrence ∈ occurrences, info.keyRaw = occurrence.head.cacheKey info.paginated

theorem keyAgrees_iff {first : Occurrence} {rest : List Occurrence} {info : FieldInfo}
    (sums : SumsUp config (first :: rest) info)
    (key : info.keyRaw = first.head.cacheKey first.head.isPaginated) :
    KeyAgrees (first :: rest) info ↔ (info.paginated = true → first.head.isPaginated = true) := by
  constructor
  · rintro ⟨occurrence, member, agrees⟩ paginated
    obtain ⟨-, -, name, -⟩ := sums.backed first List.mem_cons_self
    obtain ⟨-, -, alike, -⟩ := sums.backed occurrence member
    by_contra plain
    rw [Bool.not_eq_true] at plain
    rw [key, paginated, plain] at agrees
    exact Field.cacheKey_ne (name.symm.trans alike) agrees
  · intro marked
    refine ⟨first, List.mem_cons_self, ?_⟩
    have same : info.paginated = first.head.isPaginated :=
      Bool.eq_iff_iff.2 ⟨marked, fun own => sums.paginated.2 ⟨first, List.mem_cons_self, own⟩⟩
    rw [key, same]

/-- The key of an entry is that of the selection which is met first. It agrees with the mark of the
entry exactly if the first selection is paginated when any is, and the same decides whether what
follows the name in the key tells the mark. -/
theorem generate_keyAgrees_iff {config : Config} {document : Document} {artifact : Artifact}
    (generates : generate config document = .ok artifact) {path : ShapePath} {info : FieldInfo}
    (here : artifact.selection.infoAt? path = some info) :
    ∃ selections first rest call,
      document.rootType? config.schema = some artifact.rootType ∧
      document.selections? = some selections ∧
      occurrencesAt path (placed config.schema artifact.rootType false selections.items) =
        first :: rest ∧
      info.keyRaw = first.head.cacheKey first.head.isPaginated ∧ info.keyRaw = info.field ++ call ∧
      (KeyAgrees (first :: rest) info ↔
        (info.paginated = true → first.head.isPaginated = true)) ∧
      ((Field.paginatedSuffix.toList <:+ call.toList ↔ info.paginated = true) ↔
        (info.paginated = true → first.head.isPaginated = true)) := by
  obtain ⟨selections, rooted, selected, records, -⟩ := records_of_generate generates
  obtain ⟨first, rest, occurrences, key, -⟩ := records.infoAt?_first here
  have sums := records.sumsUp here
  rw [occurrences] at sums
  obtain ⟨-, -, named, -⟩ := sums.backed first List.mem_cons_self
  refine ⟨selections, first, rest, first.head.keyCall first.head.isPaginated, rooted, selected,
    occurrences, key, ?_, keyAgrees_iff sums key, ?_⟩
  · rw [key, Field.cacheKey_eq, named]
  · rw [Field.suffix_keyCall_iff]
    have own : first.head.isPaginated = true → info.paginated = true := fun marked =>
      sums.paginated.2 ⟨first, List.mem_cons_self, marked⟩
    exact ⟨fun same => same.2, fun marked => ⟨own, marked⟩⟩

/-- The list of the catalog is paginated, and so says its key. -/
theorem generate_keyAgrees_iff_catalog :
    ∃ schema document artifact selections info,
      generate (.ofSchema schema) document = .ok artifact ∧
      document.selections? = some selections ∧
      artifact.selection.infoAt? [.field "items"] = some info ∧
      info.paginated = true ∧ info.keyRaw = "items::paginated" ∧
      KeyAgrees
        (occurrencesAt [.field "items"] (placed schema artifact.rootType false selections.items))
        info := by
  have ran : (Pipeline.runTexts? Pipeline.catalog Pipeline.catalogTexts).any (fun result =>
      result.2.any fun document =>
        (generate (.ofSchema result.1) document).toOption.any fun artifact =>
          (artifact.selection.infoAt? [.field "items"]).any fun info =>
            info.paginated && info.keyRaw == "items::paginated" &&
              document.selections?.all fun selections =>
                (occurrencesAt [.field "items"]
                  (placed result.1 artifact.rootType false selections.items)).all
                    fun occurrence => occurrence.head.isPaginated) = true := by
    decide +kernel
  obtain ⟨⟨schema, revised⟩, _, some⟩ := (Option.any_eq_true _ _).1 ran
  obtain ⟨document, _, made⟩ := List.any_eq_true.1 some
  obtain ⟨artifact, generates, entry⟩ := (Option.any_eq_true _ _).1 made
  obtain ⟨info, here, checked⟩ := (Option.any_eq_true _ _).1 entry
  simp only [Bool.and_eq_true, beq_iff_eq] at checked
  obtain ⟨⟨paginated, key⟩, marked⟩ := checked
  rw [toOption_eq_some_iff] at generates
  obtain ⟨selections, first, rest, _, _, selected, occurrences, _, _, agrees, _⟩ :=
    generate_keyAgrees_iff generates here
  refine ⟨schema, document, artifact, selections, info, generates, selected, here, paginated,
    key, ?_⟩
  have all := List.all_eq_true.1 ((Option.all_eq_true _ _).1 marked selections selected)
  have same : occurrencesAt [.field "items"]
      (placed schema artifact.rootType false selections.items) = first :: rest := occurrences
  rw [same] at all ⊢
  exact agrees.2 fun _ => all first List.mem_cons_self

def pagedList : List SchemaDefinition :=
  [.type "PageInfo" (.object [⟨"hasNextPage", .named "Boolean", []⟩] []),
    .type "Edge" (.object [⟨"node", .named "Int", []⟩] []),
    .type "Items" (.object [⟨"edges", .list (.named "Edge"), []⟩,
      ⟨"pageInfo", .named "PageInfo", []⟩] []),
    .type "Query" (.object [⟨"items", .named "Items",
      [⟨"first", .named "Int", false⟩, ⟨"after", .named "String", false⟩]⟩] [])]

/-- A list that is selected plainly before it is paginated keeps the plain key. -/
theorem key_of_plain_selection_kept :
    ∃ schema revised document artifact selections info,
      Pipeline.runTexts? pagedList
        ["query Q \x7b items(first: 1) \x7b edges \x7b node \x7d \x7d " ++
          "items(first: 1) @paginate \x7b edges \x7b node \x7d \x7d \x7d"] = some (schema, revised) ∧
      document ∈ revised ∧ generate (.ofSchema schema) document = .ok artifact ∧
      document.selections? = some selections ∧
      artifact.selection.infoAt? [.field "items"] = some info ∧
      info.paginated = true ∧ info.keyRaw = "items(first: 1)" ∧
      ¬ KeyAgrees
        (occurrencesAt [.field "items"] (placed schema artifact.rootType false selections.items))
        info := by
  have ran : (Pipeline.runTexts? pagedList
        ["query Q \x7b items(first: 1) \x7b edges \x7b node \x7d \x7d " ++
          "items(first: 1) @paginate \x7b edges \x7b node \x7d \x7d \x7d"]).any (fun result =>
      result.2.any fun document =>
        (generate (.ofSchema result.1) document).toOption.any fun artifact =>
          document.selections?.any fun selections =>
            (artifact.selection.infoAt? [.field "items"]).any fun info =>
              info.paginated && info.keyRaw == "items(first: 1)" &&
                (occurrencesAt [.field "items"]
                  (placed result.1 artifact.rootType false selections.items)).all
                    fun occurrence => info.keyRaw != occurrence.head.cacheKey info.paginated) =
      true := by
    decide +kernel
  obtain ⟨⟨schema, revised⟩, texts, some⟩ := (Option.any_eq_true _ _).1 ran
  obtain ⟨document, member, made⟩ := List.any_eq_true.1 some
  obtain ⟨artifact, generates, working⟩ := (Option.any_eq_true _ _).1 made
  obtain ⟨selections, selected, entry⟩ := (Option.any_eq_true _ _).1 working
  obtain ⟨info, here, checked⟩ := (Option.any_eq_true _ _).1 entry
  simp only [Bool.and_eq_true, beq_iff_eq] at checked
  refine ⟨schema, revised, document, artifact, selections, info, texts, member,
    toOption_eq_some_iff.1 generates, selected, here, checked.1.1, checked.1.2, ?_⟩
  rintro ⟨occurrence, inOccurrences, same⟩
  have other := List.all_eq_true.1 checked.2 occurrence inOccurrences
  rw [bne_iff_ne] at other
  exact other same

end Generation

end GraphqlStore
