import Melody.Json.Writer
import Melody.Proofs.Json.Guarantee
import Melody.Proofs.Json.Numbers

/-! Strings, lists and records that are written are read back, whatever stands behind them. -/

namespace Melody.Json

variable {α : Type} [Numeric α] {β σ : Type}

section Strings

/-- A text stands in a string as it is. -/
def Plain (text : List Char) : Prop :=
  ∀ c ∈ text, c ≠ '"' ∧ c ≠ '\\' ∧ 0x20 ≤ c.toNat

instance (text : List Char) : Decidable (Plain text) :=
  List.decidableBAll _ text

/-- A plain character is read as it stands. -/
theorem scanString_cons {c : Char} (quoteless : c ≠ '"') (slashless : c ≠ '\\')
    (printed : 0x20 ≤ c.toNat) (paired : Bool) (text : List Char) :
    scanString paired (c :: text) = (do
      let (later, rest) ← scanString paired text
      return (c :: later, rest)) := by
  -- The character is none of those that are treated apart, which the reader tries before.
  rw [scanString]
  · exact if_neg (Nat.not_lt.mpr printed)
  · intro slash _
    exact slashless slash
  · exact quoteless
  · intro _ _ _ _ _ slash _
    exact slashless slash
  · intro _ slash _
    exact slashless slash
  · intro _ _ slash _
    exact slashless slash

/-- A plain text is read up to the quote behind it. -/
theorem scanString_plain {text : List Char} (plain : Plain text) (paired : Bool)
    (rest : List Char) : scanString paired (text ++ '"' :: rest) = .ok (text, rest) := by
  induction text with
  -- The quote ends the text at once.
  | nil =>
    rw [List.nil_append, scanString]
  | cons c later ih =>
    obtain ⟨⟨quoteless, slashless, printed⟩, others⟩ := List.forall_mem_cons.mp plain
    rw [List.cons_append, scanString_cons quoteless slashless printed, ih others]
    rfl

/-- A plain character is written as it is. -/
theorem escape_plain {c : Char} (quoteless : c ≠ '"') (slashless : c ≠ '\\')
    (printed : 0x20 ≤ c.toNat) : escape c = [c] := by
  -- Each escaped control character has a code below that of the blank.
  have apart : ∀ {other : Char}, other.toNat < 0x20 → c ≠ other := by
    rintro other small rfl
    omega
  rw [escape, if_neg quoteless, if_neg slashless, if_neg (apart (by decide)),
    if_neg (apart (by decide)), if_neg (apart (by decide)), if_neg (apart (by decide)),
    if_neg (apart (by decide)), if_neg (by omega), if_neg (by omega)]

/-- Plain characters are written as they are. -/
theorem flatMap_escape_plain {text : List Char} (plain : Plain text) :
    text.flatMap escape = text := by
  -- Each character is written as itself.
  induction text with
  | nil => rfl
  | cons c later ih =>
    obtain ⟨⟨quoteless, slashless, printed⟩, others⟩ := List.forall_mem_cons.mp plain
    rw [List.flatMap_cons, escape_plain quoteless slashless printed, ih others]
    rfl

/-- A plain text is written between quotes. -/
theorem toList_writeString {text : String} (plain : Plain text.toList) :
    (writeString text).toList = '"' :: (text.toList ++ ['"']) := by
  rw [writeString, String.toList_ofList, flatMap_escape_plain plain]
  rfl

variable {choices : List (String × β)} {name : String} {value : β}

/-- The plain name of a choice is read back as the choice. -/
theorem reads_choice (plain : Plain name.toList) (named : choose choices name.toList = .ok value) :
    Reads (readChoice α choices) (writeString name).toList value := by
  intro rest _
  -- A name is read up to its quote, and then looked up.
  rw [toList_writeString plain, List.cons_append, List.append_assoc]
  show (do
    let (name, rest) ← scanString true (name.toList ++ '"' :: rest)
    return (← choose choices name, rest)) = _
  rw [scanString_plain plain]
  show (do return (← choose choices name.toList, rest)) = _
  rw [named]
  rfl

end Strings

section Lists

/-- Texts behind a comma each. -/
def listed (texts : List (List Char)) : List Char :=
  texts.flatMap fun text => ',' :: text

/-- Each listed text stands behind a comma. -/
theorem listed_cons (text : List Char) (later : List (List Char)) :
    listed (text :: later) = ',' :: (text ++ listed later) :=
  rfl

/-- Texts with commas between them are the first one and the others behind a comma each. -/
theorem intercalate_comma (first : List Char) (later : List (List Char)) :
    [','].intercalate (first :: later) = first ++ listed later := by
  induction later generalizing first with
  | nil => simp [listed]
  | cons next others ih =>
    rw [List.intercalate_cons_cons, ih, listed_cons]
    simp

/-- What stands behind a value is closed by the comma of the next one, if there is one. -/
theorem closed_listed (texts : List (List Char)) {rest : List Char} (closed : Closed rest) :
    Closed (listed texts ++ rest) := by
  cases texts with
  | nil => exact closed
  | cons text later =>
    rintro c ⟨⟩
    exact Or.inl rfl

/-- There are at least as many characters as texts behind a comma. -/
theorem length_le_listed (texts : List (List Char)) : texts.length ≤ (listed texts).length := by
  induction texts with
  | nil => exact Nat.le_refl 0
  | cons text later ih =>
    rw [listed_cons, List.length_cons, List.length_cons, List.length_append]
    omega

/-- A text starts with a character that neither ends a list nor is white space. -/
def Opens (text : List Char) : Prop :=
  ∃ c behind, text = c :: behind ∧ isSpace c = false ∧ c ≠ ']'

/-- A text that opens a value does so in front of others. -/
theorem Opens.append {text : List Char} (opens : Opens text) (rest : List Char) :
    Opens (text ++ rest) := by
  obtain ⟨c, behind, rfl, spaceless, further⟩ := opens
  exact ⟨c, behind ++ rest, rfl, spaceless, further⟩

/-- A text that does not begin with a blank loses nothing. -/
theorem skipSpace_cons {c : Char} (spaceless : isSpace c = false) (behind : List Char) :
    skipSpace (c :: behind) = c :: behind :=
  List.dropWhile_cons_of_neg (Bool.eq_false_iff.mp spaceless)

variable {item : Reader β} {text : List Char} {steps : Nat}

/-- An item is read first in a list that does not end at once. -/
theorem readListFrom_first (opens : Opens text) :
    readListFrom item (steps + 1) true text = readListItem item steps text := by
  obtain ⟨c, behind, rfl, spaceless, further⟩ := opens
  rw [readListFrom_succ, skipSpace_cons spaceless]
  split <;> simp_all

/-- An item is read where one begins. -/
theorem readListItem_eq (opens : Opens text) :
    readListItem item steps text = (do
      let (value, rest) ← item text
      let (later, rest) ← readListFrom item steps false rest
      return (value :: later, rest)) := by
  -- An item does not begin with a space, nor with a bracket that would end the list.
  obtain ⟨c, behind, rfl, spaceless, further⟩ := opens
  unfold readListItem
  rw [skipSpace_cons spaceless]
  split
  · simp_all
  · rfl

/-- An item that is written is read back with the items behind it. -/
theorem readListItem_append {value : β} {later : List β} {tail rest : List Char}
    (opens : Opens text) (reads : Reads item text value) (closed : Closed tail)
    (behind : readListFrom item steps false tail = .ok (later, rest)) :
    readListItem item steps (text ++ tail) = .ok (value :: later, rest) := by
  -- The item is read up to the tail, and the tail is read as the rest of the list.
  rw [readListItem_eq (opens.append tail), reads tail closed]
  show (do
    let (later, rest) ← readListFrom item steps false tail
    return (value :: later, rest)) = _
  rw [behind]
  rfl

variable {write : β → String} {values : List β}

/-- The end of a list closes what stands in front of it. -/
theorem closed_bracket (rest : List Char) : Closed (']' :: rest) := by
  rintro c ⟨⟩
  exact Or.inr (Or.inl rfl)

/-- Items behind a comma each are read back to the end of their list. -/
theorem readListFrom_listed (opens : ∀ value ∈ values, Opens (write value).toList)
    (reads : ∀ value ∈ values, Reads item (write value).toList value)
    (enough : values.length < steps) (rest : List Char) :
    readListFrom item steps false (listed (values.map fun value => (write value).toList) ++
      ']' :: rest) = .ok (values, rest) := by
  induction values generalizing steps with
  | nil =>
    obtain ⟨further, rfl⟩ := Nat.exists_eq_add_one_of_ne_zero (Nat.ne_zero_of_lt enough)
    rw [readListFrom_succ]
    rfl
  | cons value later ih =>
    obtain ⟨further, rfl⟩ := Nat.exists_eq_add_one_of_ne_zero (Nat.ne_zero_of_lt enough)
    obtain ⟨opening, opens⟩ := List.forall_mem_cons.mp opens
    obtain ⟨read, reads⟩ := List.forall_mem_cons.mp reads
    -- Each item uses up one of the rounds, of which there are enough.
    have behind := ih opens reads (Nat.lt_of_succ_lt_succ enough)
    rw [List.map_cons, listed_cons, List.cons_append, List.append_assoc, readListFrom_succ]
    exact readListItem_append opening read (closed_listed _ (closed_bracket rest)) behind

/-- A list is read back if each of its items is. -/
theorem reads_list (opens : ∀ value ∈ values, Opens (write value).toList)
    (reads : ∀ value ∈ values, Reads item (write value).toList value) :
    Reads (readList α item) (writeArray (values.map write)).toList values := by
  intro rest _
  have text : (writeArray (values.map write)).toList ++ rest =
      '[' :: ([','].intercalate (values.map fun value => (write value).toList) ++ ']' :: rest) := by
    rw [writeArray, String.toList_append, String.toList_append, String.toList_intercalate,
      List.map_map, List.append_assoc, List.append_assoc]
    rfl
  rw [text]
  show readListFrom item _ true _ = _
  -- The first item has no comma before it, all others do.
  cases values with
  | nil =>
    rw [readListFrom_succ]
    rfl
  | cons value later =>
    obtain ⟨opening, opens⟩ := List.forall_mem_cons.mp opens
    obtain ⟨read, reads⟩ := List.forall_mem_cons.mp reads
    rw [List.map_cons, intercalate_comma, List.append_assoc, readListFrom_first (opening.append _)]
    refine readListItem_append opening read (closed_listed _ (closed_bracket rest)) ?_
    refine readListFrom_listed opens reads ?_ rest
    have few := length_le_listed (later.map fun value => (write value).toList)
    rw [List.length_map] at few
    simp only [List.length_append, List.length_cons]
    omega

end Lists

section Records

/-- A field with its name as it is written. -/
def member (field : String × String) : List Char :=
  (writeString field.1 ++ ":" ++ field.2).toList

/-- Written fields fill the slots of a record one after the other. -/
inductive Fills : List (Slot σ) → σ → List (String × String) → σ → Prop
  | nil {record : σ} : Fills [] record [] record
  | cons {slot : Slot σ} {later : List (Slot σ)} {record next last : σ} {name text : String}
      {fields : List (String × String)} (called : slot.name = name) (plain : Plain name.toList)
      (unfilled : slot.filled record = false) (reads : Reads (slot.read record) text.toList next)
      (more : Fills later next fields last) :
      Fills (slot :: later) record ((name, text) :: fields) last

/-- A field is read back from what its value is read back from. -/
theorem Slot.reads_of {name : String} {get : σ → Option β} {put : σ → β → σ} {read : Reader β}
    {optional : Bool} {text : List Char} {value : β} (reads : Reads read text value) (record : σ) :
    Reads ((Slot.of name get put read optional).read record) text (put record value) := by
  intro rest closed
  exact bind_eq_ok.mpr ⟨_, reads rest closed, rfl⟩

/-- The end of a record closes what stands in front of it. -/
theorem closed_brace (rest : List Char) : Closed (Char.ofNat 0x7d :: rest) := by
  rintro c ⟨⟩
  exact Or.inr (Or.inr rfl)

/-- A field with a plain name is its name between quotes, a colon and its value. -/
theorem member_append {name : String} (plain : Plain name.toList) (text : String)
    (tail : List Char) : member (name, text) ++ tail =
      '"' :: (name.toList ++ '"' :: ':' :: (text.toList ++ tail)) := by
  rw [member, String.toList_append, String.toList_append, toList_writeString plain]
  simp

/-- Each of the slots is found by its name. -/
def Named (slots : List (Slot σ)) : Prop :=
  ∀ slot ∈ slots, slots.find? (fun other => other.name.toList == slot.name.toList) = some slot

/-- Slots with different names are found by them. -/
theorem named_of_nodup {slots : List (Slot σ)} {names : List String}
    (called : slots.map (·.name) = names) (apart : names.Nodup) : Named slots := by
  subst called
  induction slots with
  | nil => exact List.forall_mem_nil _
  | cons slot later ih =>
    rw [List.map_cons, List.nodup_cons] at apart
    obtain ⟨new, apart⟩ := apart
    refine List.forall_mem_cons.mpr ⟨by simp, fun other member => ?_⟩
    -- A later slot has another name than the first, which is passed.
    have different : (slot.name.toList == other.name.toList) = false := by
      rw [beq_eq_false_iff_ne]
      intro same
      exact new (List.mem_map.mpr ⟨other, member, (String.toList_injective same).symm⟩)
    rw [List.find?_cons, different]
    exact ih apart other member

variable {slots later : List (Slot σ)} {record last : σ} {fields : List (String × String)}

/-- A field that is written is read back with the fields behind it. -/
theorem readNamedField_append {slot : Slot σ} {next : σ} {text : String} {steps : Nat}
    {tail rest : List Char} (named : Named slots) (known : slot ∈ slots)
    (plain : Plain slot.name.toList) (unfilled : slot.filled record = false)
    (reads : Reads (slot.read record) text.toList next) (closed : Closed tail)
    (behind : readNamed α slots steps false next tail = .ok (last, rest)) :
    readNamedField α slots steps record (member (slot.name, text) ++ tail) = .ok (last, rest) := by
  -- The name finds its slot, and the value is read up to what closes it.
  have filled : readField α slots record slot.name.toList (':' :: (text.toList ++ tail)) =
      .ok (next, tail) := by
    unfold readField
    rw [named slot known]
    dsimp only
    rw [unfilled]
    exact reads tail closed
  rw [member_append plain]
  refine bind_eq_ok.mpr ⟨((), _), rfl, ?_⟩
  refine bind_eq_ok.mpr ⟨_, scanString_plain plain true _, ?_⟩
  exact bind_eq_ok.mpr ⟨_, filled, behind⟩

/-- Fields behind a comma each are read back to the end of their record. -/
theorem Fills.readNamed_listed (fills : Fills later record fields last) (named : Named slots)
    (known : later ⊆ slots) {steps : Nat} (enough : fields.length < steps) (rest : List Char) :
    readNamed α slots steps false record
      (listed (fields.map member) ++ Char.ofNat 0x7d :: rest) = .ok (last, rest) := by
  induction fills generalizing steps with
  | nil =>
    obtain ⟨further, rfl⟩ := Nat.exists_eq_add_one_of_ne_zero (Nat.ne_zero_of_lt enough)
    rw [readNamed_succ]
    rfl
  | cons called plain unfilled reads more ih =>
    subst called
    obtain ⟨further, rfl⟩ := Nat.exists_eq_add_one_of_ne_zero (Nat.ne_zero_of_lt enough)
    obtain ⟨first, others⟩ := List.cons_subset.mp known
    -- Each field uses up one of the rounds, of which there are enough.
    have behind := ih others (Nat.lt_of_succ_lt_succ enough)
    rw [List.map_cons, listed_cons, List.cons_append, List.append_assoc, readNamed_succ]
    exact readNamedField_append named first plain unfilled reads
      (closed_listed _ (closed_brace rest)) behind

/-- The fields of a record are read back to its end. -/
theorem Fills.readNamed_intercalate (fills : Fills later record fields last)
    (named : Named slots) (known : later ⊆ slots) {steps : Nat} (enough : fields.length < steps)
    (rest : List Char) :
    readNamed α slots steps true record
      ([','].intercalate (fields.map member) ++ Char.ofNat 0x7d :: rest) = .ok (last, rest) := by
  obtain ⟨further, rfl⟩ := Nat.exists_eq_add_one_of_ne_zero (Nat.ne_zero_of_lt enough)
  -- The first field has no comma in front of it.
  cases fills with
  | nil =>
    rw [readNamed_succ]
    rfl
  | @cons slot _ _ next _ _ text fields called plain unfilled reads more =>
    subst called
    obtain ⟨first, others⟩ := List.cons_subset.mp known
    have behind : readNamed α slots further false next _ = _ :=
      more.readNamed_listed named others (Nat.lt_of_succ_lt_succ enough) rest
    have closed := closed_listed (fields.map member) (closed_brace rest)
    have whole := readNamedField_append named first plain unfilled reads closed behind
    rw [List.map_cons, intercalate_comma, List.append_assoc]
    rw [member_append plain] at whole ⊢
    rw [readNamed_succ]
    exact whole

/-- There are at most as many texts as characters in them and between them, with one more. -/
theorem length_le_intercalate (texts : List (List Char)) :
    texts.length ≤ ([','].intercalate texts).length + 1 := by
  -- Each text but the first has a comma before it.
  cases texts with
  | nil => exact Nat.zero_le _
  | cons first later =>
    have few := length_le_listed later
    rw [intercalate_comma, List.length_append, List.length_cons]
    omega

/-- A record is written as its fields between braces. -/
theorem writeRecord_append (fields : List (String × String)) (rest : List Char) :
    (writeRecord fields).toList ++ rest =
      Char.ofNat 0x7b :: ([','].intercalate (fields.map member) ++ Char.ofNat 0x7d :: rest) := by
  rw [writeRecord, String.toList_append, String.toList_append, String.toList_intercalate,
    List.map_map, List.append_assoc, List.append_assoc]
  rfl

/-- A record that is written opens with a brace. -/
theorem opens_writeRecord (fields : List (String × String)) :
    Opens (writeRecord fields).toList := by
  have text := writeRecord_append fields []
  rw [List.append_nil] at text
  exact ⟨_, _, text, rfl, by decide⟩

/-- A record is read back if its fields are. -/
theorem reads_record {empty : σ} {build : σ → Except Fault β} {value : β} (named : Named slots)
    (fills : Fills slots empty fields record) (built : build record = .ok value) :
    Reads (readRecord α slots empty build) (writeRecord fields).toList value := by
  intro rest _
  -- There are at least as many steps as characters, and so more than fields.
  have few := length_le_intercalate (fields.map member)
  rw [List.length_map] at few
  rw [writeRecord_append]
  refine bind_eq_ok.mpr ⟨_, fills.readNamed_intercalate named (List.Subset.refl _) ?_ rest, ?_⟩
  · simp only [List.length_append, List.length_cons]
    omega
  · exact bind_eq_ok.mpr ⟨_, built, rfl⟩

end Records

/-- A value that is read back from its text is read from it as a whole. -/
theorem readWhole_of_reads {read : Reader β} {text : String} {value : β}
    (reads : Reads read text.toList value) : readWhole read text = .ok value := by
  have whole := reads [] closed_nil
  rw [List.append_nil] at whole
  exact bind_eq_ok.mpr ⟨_, whole, rfl⟩

end Melody.Json
