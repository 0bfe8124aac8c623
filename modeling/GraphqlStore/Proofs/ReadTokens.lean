import GraphqlStore.Proofs.Conformance
import GraphqlStore.Schema.Definition
import Mathlib.Data.List.Infix

/-!
Reading takes tokens from the front only: what a step leaves is the end of what
it was given. So whatever a step gives was read from tokens of the text.

Values and selections are read by steps that call each other. Their inductions
are made once here, for any property that goes from the parts to the whole.
-/

set_option autoImplicit false

namespace GraphqlStore

namespace Parse

/-- What a step leaves is the end of some tokens. -/
def Leaves {α : Type} {fits : List Token → Prop} (tokens : List Token)
    (step : Except Obstacle (α × { rest : List Token // fits rest })) : Prop :=
  ∀ found rest, step = .ok (found, rest) → rest.val <:+ tokens

/-- What a step gives has a property, and what it leaves is the end of some tokens. -/
def Reads {α : Type} {fits : List Token → Prop} (tokens : List Token) (property : α → Prop)
    (step : Except Obstacle (α × { rest : List Token // fits rest })) : Prop :=
  ∀ found rest, step = .ok (found, rest) → rest.val <:+ tokens ∧ property found

theorem Reads.leaves {α : Type} {fits : List Token → Prop} {tokens : List Token} {property : α → Prop}
    {step : Except Obstacle (α × { rest : List Token // fits rest })}
    (reads : Reads tokens property step) : Leaves tokens step :=
  fun found rest read => (reads found rest read).1

/-- Something that holds of an entry and of the tokens from which on it is read, somewhere among
some tokens. -/
def Within {α : Type} (holds : List Token → α → Prop) (tokens : List Token) (entry : α) : Prop :=
  ∃ start, start <:+ tokens ∧ holds start entry

theorem Within.mono {α : Type} {holds : List Token → α → Prop} {tokens others : List Token} {entry : α}
    (within : Within holds tokens entry) (included : tokens <:+ others) :
    Within holds others entry := by
  obtain ⟨start, here, held⟩ := within
  exact ⟨start, here.trans included, held⟩

theorem Within.forall_mono {α : Type} {holds : List Token → α → Prop} {tokens others : List Token}
    {entries : List α} (within : ∀ entry ∈ entries, Within holds tokens entry)
    (included : tokens <:+ others) : ∀ entry ∈ entries, Within holds others entry :=
  fun entry member => (within entry member).mono included

/-! ## Single tokens -/

theorem leaves_name (tokens : List Token) : Leaves tokens (name tokens) := by
  intro found rest read
  unfold name at read
  split at read
  · cases read
    exact List.suffix_cons _ _
  · cases read

theorem leaves_keyword (word : String) (tokens : List Token) :
    Leaves tokens (keyword word tokens) := by
  intro found rest read
  unfold keyword at read
  split at read
  · split at read
    · cases read
      exact List.suffix_cons _ _
    · cases read
  · cases read

theorem leaves_mark (c : Char) (tokens : List Token) : Leaves tokens (mark c tokens) := by
  intro found rest read
  unfold mark at read
  split at read
  · split at read
    · cases read
      exact List.suffix_cons _ _
    · cases read
  · cases read

theorem optionalMark_suffix (c : Char) (tokens : List Token) :
    (optionalMark c tokens).2.val <:+ tokens := by
  unfold optionalMark
  split
  · split
    · exact List.suffix_cons _ _
    · exact List.suffix_refl _
  · exact List.suffix_refl _

theorem optionalWord_suffix (word : String) (tokens : List Token) :
    (optionalWord word tokens).2.val <:+ tokens := by
  unfold optionalWord
  split
  · split
    · exact List.suffix_cons _ _
    · exact List.suffix_refl _
  · exact List.suffix_refl _

theorem leaves_description (tokens : List Token) : Leaves tokens (description tokens) := by
  intro found rest read
  unfold description at read
  split at read
  · cases read
    exact List.suffix_cons _ _
  · cases read
  · cases read
    exact List.suffix_refl _

/-! ## Lists of items -/

section Items

variable {α : Type} {item : (tokens : List Token) → Step α tokens}

/-- An item that is read somewhere among some tokens. -/
def ReadWithin (item : (tokens : List Token) → Step α tokens) (tokens : List Token) (entry : α) :
    Prop :=
  Within (fun start entry => ∃ rest, item start = .ok (entry, rest)) tokens entry

theorem readWithin_here {tokens : List Token} {entry : α} {rest : Fewer tokens}
    (read : item tokens = .ok (entry, rest)) : ReadWithin item tokens entry :=
  ⟨tokens, List.suffix_refl _, rest, read⟩

variable (each : ∀ tokens, Leaves tokens (item tokens))
include each

theorem readWithin_itemsUntil {close : Char} {tokens : List Token} {found : List α}
    {left : Fewer tokens} (read : itemsUntil close item tokens = .ok (found, left)) :
    left.val <:+ tokens ∧ ∀ entry ∈ found, ReadWithin item tokens entry := by
  fun_induction itemsUntil close item tokens generalizing found with
  | case1 tokens _ rest closed =>
      cases read
      exact ⟨leaves_mark close tokens _ _ closed, List.forall_mem_nil _⟩
  | case2 => cases read
  | case3 => cases read
  | case4 tokens _ _ first rest here more last later ih =>
      cases read
      have after := each tokens _ _ here
      obtain ⟨ends, within⟩ := ih later
      exact ⟨ends.trans after,
        List.forall_mem_cons.2 ⟨readWithin_here here, Within.forall_mono within after⟩⟩

private theorem readWithin_between {opening close : Char} {tokens : List Token} {found : List α}
    {left : Fewer tokens} (read : between opening close item tokens = .ok (found, left)) :
    left.val <:+ tokens ∧ ∀ entry ∈ found, ReadWithin item tokens entry := by
  obtain ⟨⟨_, rest⟩, opened, read⟩ := bind_eq_ok_iff.1 read
  obtain ⟨⟨first, rest'⟩, here, read⟩ := bind_eq_ok_iff.1 read
  obtain ⟨⟨more, last⟩, later, read⟩ := bind_eq_ok_iff.1 read
  cases read
  have start := leaves_mark opening tokens _ _ opened
  have after := (each _ _ _ here).trans start
  obtain ⟨ends, within⟩ := readWithin_itemsUntil each later
  exact ⟨ends.trans after,
    List.forall_mem_cons.2 ⟨(readWithin_here here).mono start, Within.forall_mono within after⟩⟩

private theorem readWithin_optionalBetween {opening close : Char} {tokens : List Token}
    {found : List α}
    {left : AtMost tokens} (read : optionalBetween opening close item tokens = .ok (found, left)) :
    left.val <:+ tokens ∧ ∀ entry ∈ found, ReadWithin item tokens entry := by
  unfold optionalBetween at read
  split at read
  · split at read
    · rename_i items
      cases read
      exact readWithin_between each items
    · cases read
  · cases read
    exact ⟨List.suffix_refl _, List.forall_mem_nil _⟩

theorem leaves_optionalBetween (opening close : Char) (tokens : List Token) :
    Leaves tokens (optionalBetween opening close item tokens) := by
  intro found rest read
  exact (readWithin_optionalBetween each read).1

theorem leaves_separated (separator : Char) (tokens : List Token) :
    Leaves tokens (separated separator item tokens) := by
  intro found left read
  fun_induction separated separator item tokens generalizing found with
  | case1 => cases read
  | case2 tokens first rest here =>
      cases read
      exact each tokens _ _ here
  | case3 => cases read
  | case4 tokens first rest here _ following marked more last later ih =>
      cases read
      exact (ih _ _ later).trans ((leaves_mark separator _ _ _ marked).trans (each tokens _ _ here))

private theorem readWithin_itemsToEnd {tokens : List Token} {found : List α}
    (read : itemsToEnd item tokens = .ok found) : ∀ entry ∈ found, ReadWithin item tokens entry := by
  fun_induction itemsToEnd item tokens generalizing found with
  | case1 => cases read
  | case2 tokens first rest here =>
      cases read
      exact List.forall_mem_singleton.2 (readWithin_here here)
  | case3 => cases read
  | case4 tokens first rest here _ more later ih =>
      cases read
      have after := each tokens _ _ here
      exact List.forall_mem_cons.2 ⟨readWithin_here here, Within.forall_mono (ih later) after⟩

end Items

/-! ## Values -/

/-- A field of an object value: its name is read, and something holds of its value. -/
def FieldWithin (holds : List Token → Value → Prop) (tokens : List Token) (field : String × Value) :
    Prop :=
  ReadWithin name tokens field.1 ∧ Within holds tokens field.2

/-- Rules by which a property of values and of the tokens from which on they are read goes from the
values inside a value to the value itself. -/
structure ValueRules (constant : Bool) (holds : List Token → Value → Prop) : Prop where
  word : ∀ tokens text, ReadWithin name tokens text → holds tokens (wordValue text)
  int : ∀ tokens number, holds tokens (.int number)
  float : ∀ tokens number, holds tokens (.float number)
  string : ∀ tokens text, holds tokens (.string text)
  reference : ∀ tokens text, constant = false → ReadWithin name tokens text →
    holds tokens (.variable text)
  list : ∀ tokens items, (∀ item ∈ items, Within holds tokens item) → holds tokens (.list items)
  object : ∀ tokens fields, (∀ field ∈ fields, FieldWithin holds tokens field) →
    holds tokens (.object fields)

namespace ValueRules

variable {constant : Bool} {holds : List Token → Value → Prop} {tokens : List Token}

private theorem value_of_shorter (rules : ValueRules constant holds)
    (items : ∀ rest : List Token, rest.length < tokens.length →
      Reads rest (∀ item ∈ ·, Within holds rest item) (valueItems constant rest))
    (fields : ∀ rest : List Token, rest.length < tokens.length →
      Reads rest (∀ field ∈ ·, FieldWithin holds rest field) (valueFields constant rest)) :
    Reads tokens (holds tokens) (value constant tokens) := by
  intro found left read
  unfold value at read
  split at read
  case h_2 text place rest =>
    cases read
    exact ⟨List.suffix_cons _ _, rules.word _ _ (readWithin_here rfl)⟩
  case h_3 =>
    cases read
    exact ⟨List.suffix_cons _ _, rules.int _ _⟩
  case h_4 =>
    cases read
    exact ⟨List.suffix_cons _ _, rules.float _ _⟩
  case h_5 =>
    cases read
    exact ⟨List.suffix_cons _ _, rules.string _ _⟩
  case h_7 c place rest =>
    have inside : rest <:+ ⟨.mark c, place⟩ :: rest := List.suffix_cons _ _
    split at read
    · rename_i sign
      split at read
      · rename_i named
        cases read
        exact ⟨(leaves_name rest _ _ named).trans inside,
          rules.reference _ _ (by simpa using sign.2) ((readWithin_here named).mono inside)⟩
      · cases read
    · split at read
      · split at read
        · rename_i list
          cases read
          obtain ⟨ends, within⟩ := items rest (by simp) _ _ list
          exact ⟨ends.trans inside, rules.list _ _ (Within.forall_mono within inside)⟩
        · cases read
      · split at read
        · split at read
          · rename_i object
            cases read
            obtain ⟨ends, within⟩ := fields rest (by simp) _ _ object
            refine ⟨ends.trans inside, rules.object _ _ fun field member => ?_⟩
            obtain ⟨named, held⟩ := within field (NameMap.mem_of_mem_ofList member)
            exact ⟨named.mono inside, held.mono inside⟩
          · cases read
        · cases read
  all_goals cases read

private theorem valueItems_of_shorter (item : Reads tokens (holds tokens) (value constant tokens))
    (items : ∀ rest : List Token, rest.length < tokens.length →
      Reads rest (∀ item ∈ ·, Within holds rest item) (valueItems constant rest)) :
    Reads tokens (∀ item ∈ ·, Within holds tokens item) (valueItems constant tokens) := by
  intro found left read
  unfold valueItems at read
  split at read
  · cases read
  · split at read
    · cases read
      exact ⟨List.suffix_cons _ _, List.forall_mem_nil _⟩
    · split at read
      · cases read
      · rename_i first
        split at read
        · cases read
        · rename_i more
          cases read
          obtain ⟨after, held⟩ := item _ _ first
          obtain ⟨ends, within⟩ := items _ (by assumption) _ _ more
          exact ⟨ends.trans after, List.forall_mem_cons.2
            ⟨⟨_, List.suffix_refl _, held⟩, Within.forall_mono within after⟩⟩

private theorem valueFields_of_shorter
    (item : ∀ rest : List Token, rest.length < tokens.length →
      Reads rest (holds rest) (value constant rest))
    (fields : ∀ rest : List Token, rest.length < tokens.length →
      Reads rest (∀ field ∈ ·, FieldWithin holds rest field) (valueFields constant rest)) :
    Reads tokens (∀ field ∈ ·, FieldWithin holds tokens field) (valueFields constant tokens) := by
  intro found left read
  unfold valueFields at read
  split at read
  · cases read
  · split at read
    · cases read
      exact ⟨List.suffix_cons _ _, List.forall_mem_nil _⟩
    · split at read
      · cases read
      · rename_i named
        split at read
        · cases read
        · rename_i marked
          split at read
          · cases read
          · rename_i first
            split at read
            · cases read
            · rename_i more
              cases read
              have afterColon := (leaves_mark ':' _ _ _ marked).trans (leaves_name _ _ _ named)
              obtain ⟨after, held⟩ := item _ (by omega) _ _ first
              obtain ⟨ends, within⟩ := fields _ (by omega) _ _ more
              have afterItem := after.trans afterColon
              refine ⟨ends.trans afterItem, List.forall_mem_cons.2
                ⟨⟨readWithin_here named, _, afterColon, held⟩, fun field member => ?_⟩⟩
              obtain ⟨label, inner⟩ := within field member
              exact ⟨label.mono afterItem, inner.mono afterItem⟩

/-- A property with such rules holds of every value that is read, by induction on the tokens. -/
theorem reads (rules : ValueRules constant holds) (tokens : List Token) :
    Reads tokens (holds tokens) (value constant tokens) ∧
      Reads tokens (∀ item ∈ ·, Within holds tokens item) (valueItems constant tokens) ∧
      Reads tokens (∀ field ∈ ·, FieldWithin holds tokens field) (valueFields constant tokens) := by
  have shorter (rest : List Token) (fewer : rest.length < tokens.length) := rules.reads rest
  have item := rules.value_of_shorter (fun rest fewer => (shorter rest fewer).2.1)
    fun rest fewer => (shorter rest fewer).2.2
  exact ⟨item, valueItems_of_shorter item fun rest fewer => (shorter rest fewer).2.1,
    valueFields_of_shorter (fun rest fewer => (shorter rest fewer).1)
      fun rest fewer => (shorter rest fewer).2.2⟩
termination_by tokens.length

theorem value (rules : ValueRules constant holds) (tokens : List Token) :
    Reads tokens (holds tokens) (Parse.value constant tokens) := (rules.reads tokens).1

end ValueRules

private theorem leaves_value (constant : Bool) (tokens : List Token) :
    Leaves tokens (value constant tokens) := by
  have rules : ValueRules constant fun _ _ => True := by constructor <;> intros <;> trivial
  exact (rules.value tokens).leaves

/-- A default is read as a constant. -/
theorem reads_defaultValue (tokens : List Token) :
    Reads tokens (∀ default ∈ ·, ReadWithin (value true) tokens default) (defaultValue tokens) := by
  intro found rest read
  have sign := optionalMark_suffix '=' tokens
  unfold defaultValue at read
  split at read
  · rename_i here
    cases read
    rw [here] at sign
    exact ⟨sign, fun _ absurd => by cases absurd⟩
  · rename_i here
    rw [here] at sign
    split at read
    · cases read
    · rename_i given
      cases read
      refine ⟨(leaves_value true _ _ _ given).trans sign, ?_⟩
      rintro default ⟨⟩
      exact (readWithin_here given).mono sign

/-! ## Types, arguments and directives -/

theorem leaves_typeRef (tokens : List Token) : Leaves tokens (typeRef tokens) := by
  intro found rest read
  fun_induction typeRef tokens generalizing found with
  | case1 text place rest left here | case2 text place rest left here =>
      cases read
      have mark := optionalMark_suffix '!' rest
      rw [here] at mark
      exact mark.trans (List.suffix_cons _ _)
  | case3 => cases read
  | case4 => cases read
  | case5 place rest item afterItem inner _ afterClose closed left here ih
  | case6 place rest item afterItem inner _ afterClose closed left here ih =>
      cases read
      have mark := optionalMark_suffix '!' afterClose.val
      rw [here] at mark
      have close := leaves_mark ']' _ _ _ closed
      exact (mark.trans (close.trans (ih _ _ inner))).trans (List.suffix_cons _ _)
  | case7 => cases read

private theorem leaves_argument (constant : Bool) (tokens : List Token) :
    Leaves tokens (argument constant tokens) := by
  intro found rest read
  obtain ⟨⟨key, afterName⟩, named, read⟩ := bind_eq_ok_iff.1 read
  obtain ⟨⟨_, afterColon⟩, marked, read⟩ := bind_eq_ok_iff.1 read
  obtain ⟨⟨passed, left⟩, given, read⟩ := bind_eq_ok_iff.1 read
  cases read
  exact (leaves_value constant _ _ _ given).trans
    ((leaves_mark ':' _ _ _ marked).trans (leaves_name tokens _ _ named))

private theorem leaves_arguments (tokens : List Token) : Leaves tokens (arguments tokens) :=
  leaves_optionalBetween (leaves_argument false) '(' ')' tokens

theorem leaves_directives (tokens : List Token) : Leaves tokens (directives tokens) := by
  intro found rest read
  fun_induction directives tokens generalizing found with
  | case1 => cases read
  | case2 => cases read
  | case3 => cases read
  | case4 place rest text afterName _ named passed afterArguments _ given more left _ later ih =>
      cases read
      have passed := (leaves_arguments _ _ _ given).trans (leaves_name rest _ _ named)
      exact ((ih _ _ later).trans passed).trans (List.suffix_cons _ _)
  | case5 =>
      cases read
      exact List.suffix_refl _

/-- A declared variable: its name is read, and its default as a constant. -/
def VariableRead (tokens : List Token) (declared : VariableDefinition) : Prop :=
  ReadWithin name tokens declared.name ∧
    ∀ default ∈ declared.default, ReadWithin (value true) tokens default

private theorem reads_variableDefinition (tokens : List Token) :
    Reads tokens (VariableRead tokens) (variableDefinition tokens) := by
  intro found rest read
  unfold variableDefinition at read
  split at read
  · rename_i place rest
    split at read
    · cases read
    · rename_i named
      split at read
      · cases read
      · rename_i marked
        split at read
        · cases read
        · rename_i typed
          split at read
          · cases read
          · rename_i given
            cases read
            have inside := List.suffix_cons ⟨.mark '$', place⟩ rest
            have afterColon := (leaves_mark ':' _ _ _ marked).trans (leaves_name _ _ _ named)
            have afterType := ((leaves_typeRef _ _ _ typed).trans afterColon).trans inside
            obtain ⟨ends, constant⟩ := reads_defaultValue _ _ _ given
            exact ⟨ends.trans afterType, (readWithin_here named).mono inside,
              fun default same => (constant default same).mono afterType⟩
  · cases read

private theorem leaves_variableDefinition (tokens : List Token) :
    Leaves tokens (variableDefinition tokens) := (reads_variableDefinition tokens).leaves

/-! ## Selections -/

/-- A field has the name that is read first, or the one after it. -/
theorem reads_fieldName (first : String) (tokens : List Token) :
    Reads tokens (fun found => found.2 = first ∨ ReadWithin name tokens found.2)
      (fieldName first tokens) := by
  intro found rest read
  have colon := optionalMark_suffix ':' tokens
  unfold fieldName at read
  split at read
  · rename_i here
    cases read
    rw [here] at colon
    exact ⟨colon, .inl rfl⟩
  · rename_i here
    rw [here] at colon
    split at read
    · cases read
    · rename_i named
      cases read
      exact ⟨(leaves_name _ _ _ named).trans colon, .inr ((readWithin_here named).mono colon)⟩

/-- Rules by which a property of selections and of the tokens from which on they are read goes from
the selections inside a selection to the selection itself. -/
structure SelectionRules (holds : List Token → Selection → Prop) : Prop where
  field : ∀ tokens (head : Field) items, ReadWithin name tokens head.name →
    (∀ passed ∈ head.arguments, ReadWithin (argument false) tokens passed) →
    (∀ item ∈ items, Within holds tokens item) → holds tokens (.field head items)
  spread : ∀ tokens head, holds tokens (.spread head)
  inline : ∀ tokens head items, (∀ item ∈ items, Within holds tokens item) →
    holds tokens (.inline head items)

namespace SelectionRules

variable {holds : List Token → Selection → Prop} {tokens : List Token}

private theorem optionalSelections_of_set
    (set : Reads tokens (∀ item ∈ ·.items, Within holds tokens item) (selectionSet tokens))
    (place : Position) :
    Reads tokens (∀ item ∈ ·.items, Within holds tokens item) (optionalSelections place tokens) := by
  intro found left read
  unfold optionalSelections at read
  split at read
  · split at read
    · cases read
    · rename_i below
      cases read
      exact set _ _ below
  · cases read
    exact ⟨List.suffix_refl _, List.forall_mem_nil _⟩

private theorem inlineBody_of_atMost (rules : SelectionRules holds)
    (set : ∀ rest : List Token, rest.length ≤ tokens.length →
      Reads rest (∀ item ∈ ·.items, Within holds rest item) (selectionSet rest))
    (place : Position) (condition : Option String) {whole : List Token} (included : tokens <:+ whole) :
    Reads whole (holds whole) (inlineBody place condition tokens) := by
  intro found left read
  unfold inlineBody at read
  split at read
  · cases read
  · rename_i marks
    split at read
    · cases read
    · rename_i below
      cases read
      have after := (leaves_directives tokens _ _ marks).trans included
      obtain ⟨ends, within⟩ := set _ (by assumption) _ _ below
      exact ⟨ends.trans after, rules.inline _ _ _ (Within.forall_mono within after)⟩

private theorem selection_of_shorter (rules : SelectionRules holds)
    (set : ∀ rest : List Token, rest.length < tokens.length →
      Reads rest (∀ item ∈ ·.items, Within holds rest item) (selectionSet rest)) :
    Reads tokens (holds tokens) (selection tokens) := by
  intro found left read
  unfold selection at read
  split at read
  · rename_i first place rest
    split at read
    · cases read
    · rename_i named
      split at read
      · cases read
      · rename_i passed
        split at read
        · cases read
        · rename_i marks
          split at read
          · cases read
          · rename_i below
            cases read
            obtain ⟨afterName, label⟩ := reads_fieldName first rest _ _ named
            have inside := afterName.trans (List.suffix_cons ⟨.name first, place⟩ rest)
            obtain ⟨afterArguments, given⟩ :=
              readWithin_optionalBetween (leaves_argument false) passed
            have marked := (leaves_directives _ _ _ marks).trans (afterArguments.trans inside)
            obtain ⟨ends, within⟩ :=
              optionalSelections_of_set (set _ (by simp only [List.length_cons]; omega)) place _ _ below
            refine ⟨ends.trans marked, rules.field _ _ _ ?_ (Within.forall_mono given inside)
              (Within.forall_mono within marked)⟩
            rcases label with same | later
            · exact same ▸ readWithin_here rfl
            · exact later.mono (List.suffix_cons _ _)
  · rename_i here place rest
    split at read
    · cases read
    · rename_i named
      split at read
      · cases read
      · rename_i body
        cases read
        refine rules.inlineBody_of_atMost (fun rest atMost => set rest ?_) _ _
          ((leaves_name _ _ _ named).trans ((List.suffix_cons _ _).trans (List.suffix_cons _ _))) _ _ body
        simp only [List.length_cons] at atMost ⊢
        omega
  · split at read
    · cases read
    · rename_i marks
      cases read
      exact ⟨(leaves_directives _ _ _ marks).trans
        ((List.suffix_cons _ _).trans (List.suffix_cons _ _)), rules.spread _ _⟩
  · split at read
    · cases read
    · rename_i body
      cases read
      refine rules.inlineBody_of_atMost (fun rest atMost => set rest ?_) _ _
        (List.suffix_cons _ _) _ _ body
      simp only [List.length_cons] at atMost ⊢
      omega
  · cases read
  · cases read

private theorem selectionItems_of_shorter (item : Reads tokens (holds tokens) (selection tokens))
    (items : ∀ rest : List Token, rest.length < tokens.length →
      Reads rest (∀ item ∈ ·, Within holds rest item) (selectionItems rest)) :
    Reads tokens (∀ item ∈ ·, Within holds tokens item) (selectionItems tokens) := by
  intro found left read
  unfold selectionItems at read
  split at read
  · cases read
  · split at read
    · cases read
      exact ⟨List.suffix_cons _ _, List.forall_mem_nil _⟩
    · split at read
      · cases read
      · rename_i first
        split at read
        · cases read
        · rename_i more
          cases read
          obtain ⟨after, held⟩ := item _ _ first
          obtain ⟨ends, within⟩ := items _ (by assumption) _ _ more
          exact ⟨ends.trans after, List.forall_mem_cons.2
            ⟨⟨_, List.suffix_refl _, held⟩, Within.forall_mono within after⟩⟩

private theorem selectionSet_of_shorter
    (item : ∀ rest : List Token, rest.length < tokens.length →
      Reads rest (holds rest) (selection rest))
    (items : ∀ rest : List Token, rest.length < tokens.length →
      Reads rest (∀ item ∈ ·, Within holds rest item) (selectionItems rest)) :
    Reads tokens (∀ item ∈ ·.items, Within holds tokens item) (selectionSet tokens) := by
  intro found left read
  unfold selectionSet at read
  split at read
  · rename_i place rest
    split at read
    · cases read
    · rename_i first
      split at read
      · cases read
      · rename_i more
        cases read
        have inside := List.suffix_cons ⟨.mark '\x7b', place⟩ rest
        obtain ⟨after, held⟩ := item rest (by simp) _ _ first
        obtain ⟨ends, within⟩ := items _ (by simp only [List.length_cons]; omega) _ _ more
        have afterFirst := after.trans inside
        exact ⟨ends.trans afterFirst, List.forall_mem_cons.2
          ⟨⟨rest, inside, held⟩, Within.forall_mono within afterFirst⟩⟩
  · cases read

/-- A property with such rules holds of every selection that is read, by induction on the tokens. -/
theorem reads (rules : SelectionRules holds) (tokens : List Token) :
    Reads tokens (holds tokens) (selection tokens) ∧
      Reads tokens (∀ item ∈ ·, Within holds tokens item) (selectionItems tokens) ∧
      Reads tokens (∀ item ∈ ·.items, Within holds tokens item) (selectionSet tokens) := by
  have shorter (rest : List Token) (fewer : rest.length < tokens.length) := rules.reads rest
  have item := rules.selection_of_shorter fun rest fewer => (shorter rest fewer).2.2
  exact ⟨item, selectionItems_of_shorter item fun rest fewer => (shorter rest fewer).2.1,
    selectionSet_of_shorter (fun rest fewer => (shorter rest fewer).1)
      fun rest fewer => (shorter rest fewer).2.1⟩
termination_by tokens.length

theorem selectionSet (rules : SelectionRules holds) (tokens : List Token) :
    Reads tokens (∀ item ∈ ·.items, Within holds tokens item) (Parse.selectionSet tokens) :=
  (rules.reads tokens).2.2

end SelectionRules

private theorem leaves_selectionSet (tokens : List Token) :
    Leaves tokens (selectionSet tokens) := by
  have rules : SelectionRules fun _ _ => True := by constructor <;> intros <;> trivial
  exact (rules.selectionSet tokens).leaves

/-! ## Definitions -/

/-- The parts of a definition that are read among some tokens. -/
inductive DefinitionRead (tokens : List Token) : Definition → Prop where
  | operation {head : Operation} :
      (∀ declared ∈ head.variableDefinitions, Within VariableRead tokens declared) →
      ReadWithin selectionSet tokens head.selections → DefinitionRead tokens (.operation head)
  | fragment {head : Fragment} : ReadWithin selectionSet tokens head.selections →
      DefinitionRead tokens (.fragment head)
  | shorthand {below : SelectionSet} : ReadWithin selectionSet tokens below →
      DefinitionRead tokens (.shorthand below)

private theorem definitionRead_operation {whole start : List Token} (included : start <:+ whole)
    {declared : List VariableDefinition} {afterVariables : AtMost start}
    (typed : optionalBetween '(' ')' variableDefinition start = .ok (declared, afterVariables))
    {marks : List Directive} {afterDirectives : AtMost afterVariables.val}
    (marked : directives afterVariables.val = .ok (marks, afterDirectives))
    {below : SelectionSet} {left : Fewer afterDirectives.val}
    (selected : selectionSet afterDirectives.val = .ok (below, left)) (kind : OperationKind)
    (place : Position) (label : Option String) :
    left.val <:+ whole ∧
      DefinitionRead whole (.operation ⟨kind, place, label, declared, marks, below⟩) := by
  obtain ⟨ends, within⟩ := readWithin_optionalBetween leaves_variableDefinition typed
  have after := (leaves_directives _ _ _ marked).trans (ends.trans included)
  refine ⟨(leaves_selectionSet _ _ _ selected).trans after, .operation ?_
    ((readWithin_here selected).mono after)⟩
  intro entry member
  obtain ⟨first, here, rest, read⟩ := within entry member
  exact ⟨first, here.trans included, (reads_variableDefinition first _ _ read).2⟩

private theorem reads_operation (kind : OperationKind) (place : Position)
    {tokens whole : List Token} (included : tokens <:+ whole) :
    Reads whole (DefinitionRead whole) (operation kind place tokens) := by
  intro found rest read
  unfold operation at read
  simp only at read
  obtain ⟨⟨declared, afterVariables⟩, typed, read⟩ := bind_eq_ok_iff.1 read
  obtain ⟨⟨marks, afterDirectives⟩, marked, read⟩ := bind_eq_ok_iff.1 read
  obtain ⟨⟨below, left⟩, selected, read⟩ := bind_eq_ok_iff.1 read
  cases read
  refine definitionRead_operation (List.IsSuffix.trans ?_ included) typed marked selected _ _ _
  split
  · rename_i named
    exact leaves_name tokens _ _ named
  · exact List.suffix_refl _

private theorem reads_fragment (place : Position) {tokens whole : List Token}
    (included : tokens <:+ whole) :
    Reads whole (DefinitionRead whole) (fragment place tokens) := by
  intro found rest read
  obtain ⟨⟨text, afterName⟩, named, read⟩ := bind_eq_ok_iff.1 read
  obtain ⟨⟨_, afterOn⟩, on, read⟩ := bind_eq_ok_iff.1 read
  obtain ⟨⟨condition, afterCondition⟩, conditioned, read⟩ := bind_eq_ok_iff.1 read
  obtain ⟨⟨marks, afterDirectives⟩, marked, read⟩ := bind_eq_ok_iff.1 read
  obtain ⟨⟨below, left⟩, selected, read⟩ := bind_eq_ok_iff.1 read
  cases read
  have head := (leaves_keyword "on" _ _ _ on).trans ((leaves_name tokens _ _ named).trans included)
  have start := (leaves_name _ _ _ conditioned).trans head
  have after := (leaves_directives _ _ _ marked).trans start
  exact ⟨(leaves_selectionSet _ _ _ selected).trans after,
    .fragment ((readWithin_here selected).mono after)⟩

private theorem Reads.afterKeyword {property : Definition → Prop} {whole rest : List Token}
    {token : Token} {step : Step Definition rest} (reads : Reads whole property step) :
    Reads whole property (Parse.afterKeyword step : Step Definition (token :: rest)) := by
  intro found left read
  unfold Parse.afterKeyword at read
  split at read
  · cases read
    exact reads _ _ rfl
  · cases read

private theorem reads_definition (tokens : List Token) :
    Reads tokens (DefinitionRead tokens) (definition tokens) := by
  unfold definition
  split
  · exact (reads_operation _ _ (List.suffix_cons _ _)).afterKeyword
  · exact (reads_operation _ _ (List.suffix_cons _ _)).afterKeyword
  · exact (reads_operation _ _ (List.suffix_cons _ _)).afterKeyword
  · exact (reads_fragment _ (List.suffix_cons _ _)).afterKeyword
  · intro found left read
    split at read
    · rename_i below
      cases read
      exact ⟨leaves_selectionSet _ _ _ below, .shorthand (readWithin_here below)⟩
    · cases read

end Parse

theorem TokenStream.readWithin_of_parse {α : Type} {item : (tokens : List Token) → Step α tokens}
    (each : ∀ tokens, Parse.Leaves tokens (item tokens)) {stream : TokenStream} {found : List α}
    (read : stream.parse item = .ok found) :
    ∀ entry ∈ found, Parse.ReadWithin item stream.tokens entry := by
  unfold TokenStream.parse at read
  split at read
  · rename_i items
    cases read
    exact Parse.readWithin_itemsToEnd each items
  · cases read
  · cases read

/-- The definitions of a document are read among the tokens of its text. -/
theorem ExecutableDocument.definitionRead_of_parse {text : String} {definitions : ExecutableDocument}
    (read : parse text = .ok definitions) :
    ∀ definition ∈ definitions,
      Parse.Within Parse.DefinitionRead (TokenStream.ofText text).tokens definition := by
  intro definition member
  obtain ⟨start, here, rest, read⟩ := TokenStream.readWithin_of_parse
    (fun tokens => (Parse.reads_definition tokens).leaves) read definition member
  exact ⟨start, here, (Parse.reads_definition start _ _ read).2⟩

end GraphqlStore
