import MethodGroups.Proofs.Report.JsonReader
import MethodGroups.Proofs.Splitting

/-!
# Written JSON is read back

What is written as a string, a number or an object is read as what it was written for, whatever
follows it.  An object is read back if its values are, so objects may be nested.
-/

namespace MethodGroups

namespace Report.Json

variable {Item : Type} {text rest : List Char}

/-- Something is found at the start of a text, and the rest is left. -/
def Reads (found : Option (Found Item text)) (item : Item) (rest : List Char) : Prop :=
  ∃ shorter, found = some ⟨item, rest, shorter⟩

theorem Reads.mapped {Other : Type} {found : Option (Found Item text)} {item : Item}
    (reads : Reads found item rest) (change : Item → Other) :
    Reads (found.map (Found.map change)) (change item) rest := by
  obtain ⟨shorter, rfl⟩ := reads
  exact ⟨shorter, rfl⟩

/-! ## Blanks and marks -/

theorem skip_cons {c : Char} (solid : isSpace c = false) (text : List Char) :
    skip (c :: text) = c :: text :=
  List.dropWhile_cons_of_neg (Bool.eq_false_iff.mp solid)

theorem reads_mark (mark : Char) (text : List Char) :
    Reads (mark? mark (mark :: text)) () (skip text) :=
  ⟨Nat.lt_succ_of_le (length_skip_le text), if_pos rfl⟩

theorem mark?_of_ne {c mark : Char} (other : c ≠ mark) (text : List Char) :
    mark? mark (c :: text) = none := if_neg other

/-! ## Strings -/

theorem hexNumber?_control : ∀ code < 0x20,
    hexNumber? ['0', '0', hexDigit (code / 16), hexDigit (code % 16)] = some code := by
  decide

/-- A character is read as its own code point, whether it is escaped or stands for itself. -/
theorem points_escape (c : Char) (text : List Char) :
    points (escape c ++ text) = (points text).map (prepend c.toNat) := by
  unfold escape
  split
  -- Without a short escape, control characters are left, and those that stand for themselves.
  case h_8 quote backslash _ _ _ _ _ =>
    split
    case isTrue control =>
      rw [List.cons_append, List.cons_append, List.cons_append, List.cons_append, List.cons_append,
        List.cons_append, List.nil_append, points, hexNumber?_control _ control]
      rfl
    case isFalse printable =>
      rw [List.cons_append, List.nil_append, points, if_neg printable]
      · exact quote
      · exact fun _ _ _ _ _ isBackslash _ => backslash isBackslash
      · exact fun _ _ isBackslash _ => backslash isBackslash
  all_goals simp [points, unescape]

theorem points_flatMap_escape (content rest : List Char) :
    points (content.flatMap escape ++ '"' :: rest) = some (content.map Char.toNat, rest) := by
  induction content with
  | nil => rfl
  | cons c content ih =>
    rw [List.flatMap_cons, List.append_assoc, points_escape, ih]
    rfl

/-- Characters have code points that are not surrogates, so they are read one by one. -/
theorem characters_map_toNat (content : List Char) :
    characters (content.map Char.toNat) = some content := by
  induction content with
  | nil => rfl
  | cons c content ih =>
    have valid : c.toNat.isValidChar := c.valid
    rw [List.map_cons, characters.eq_def]
    simp only [if_pos valid, ih, Char.ofNat_toNat]
    rfl

theorem toList_literal (content : String) :
    (literal content).toList = '"' :: (content.toList.flatMap escape ++ ['"']) := by
  simp [literal]

/-- A literal is read as the string that it denotes. -/
theorem reads_literal (content : String) (rest : List Char) :
    Reads (string? ((literal content).toList ++ rest)) content (skip rest) := by
  have written : (literal content).toList ++ rest =
      '"' :: (content.toList.flatMap escape ++ '"' :: rest) := by simp [toList_literal]
  rw [written, string?]
  split
  next failed => rw [points_flatMap_escape] at failed; cases failed
  next read after found =>
    rw [points_flatMap_escape] at found
    cases found
    rw [characters_map_toNat, Option.map_some, String.ofList_toList]
    exact ⟨_, rfl⟩

/-! ## Numbers -/

/-- No number but zero is written with a zero in front. -/
theorem eq_zero_of_head?_toDigits {number : Nat}
    (zero : (Nat.toDigits 10 number).head? = some '0') : number = 0 := by
  induction number using Nat.strongRecOn with
  | ind number ih =>
    -- Beyond one digit, the first digit is that of the number without its last digit.
    by_cases small : number < 10
    · have digits : ∀ digit < 10, Nat.digitChar digit = '0' → digit = 0 := by decide
      rw [Nat.toDigits_of_lt_base small, List.head?_singleton, Option.some_inj] at zero
      exact digits number small zero
    · rw [Nat.toDigits_of_base_le (by decide) (Nat.le_of_not_lt small),
        List.head?_append, Option.or_eq_some_iff] at zero
      rcases zero with zero | ⟨nothing, -⟩
      · have := ih (number / 10) (by omega) zero
        omega
      · exact absurd (List.head?_eq_none_iff.mp nothing) Nat.toDigits_ne_nil

theorem toString_ne_nil (number : Nat) : (toString number).toList ≠ [] := by
  rw [toList_toString]
  exact Nat.toDigits_ne_nil

theorem sign_of_isDigit {c : Char} (digit : c.isDigit) (text : List Char) :
    sign (c :: text) = (1, c :: text) := by
  rw [sign]
  rintro _ ⟨⟩
  cases digit

/-- Digits denote their number, if none of them is a leading zero. -/
theorem number?_digits {digits : List Char} (all : ∀ c ∈ digits, c.isDigit)
    (nonempty : digits ≠ []) (zero : digits.head? = some '0' → digits = ['0']) :
    number? digits = some (.number (Nat.ofDigitChars 10 digits 0) 0) := by
  have unsigned : sign digits = (1, digits) := by
    obtain ⟨c, others, rfl⟩ := List.exists_cons_of_ne_nil nonempty
    exact sign_of_isDigit (all c List.mem_cons_self) others
  have whole : digits.takeWhile Char.isDigit = digits := List.takeWhile_eq_self_iff.mpr all
  have nothing : digits.dropWhile Char.isDigit = [] := List.dropWhile_eq_nil_iff.mpr all
  simp [number?, unsigned, whole, nothing, nonempty, fraction?, power?]
  exact zero

/-- The digits of a number denote it. -/
theorem wordValue?_toString (number : Nat) :
    wordValue? (toString number).toList = some (.number number 0) := by
  have noName : ∀ name : String, (∃ c ∈ name.toList, c.isDigit = false) →
      (toString number).toList ≠ name.toList := by
    rintro name ⟨c, inside, letter⟩ same
    exact not_mem_toString letter number (same ▸ inside)
  rw [wordValue?, if_neg (noName _ (by simp)), if_neg (noName _ (by simp)),
    if_neg (noName _ (by simp)),
    number?_digits (fun _ => isDigit_of_mem_toString) (toString_ne_nil number)]
  · rw [toList_toString, Nat.ofDigitChars_ten_toDigits]
  · intro zero
    rw [toList_toString] at zero ⊢
    rw [eq_zero_of_head?_toDigits zero, Nat.toDigits_zero]

/-- A text at whose start no word goes on. -/
def EndsWord (text : List Char) : Prop := ∀ c ∈ text.head?, isWordChar c = false

theorem endsWord_cons {c : Char} (stop : isWordChar c = false) (text : List Char) :
    EndsWord (c :: text) := by
  rintro _ ⟨⟩
  exact stop

theorem EndsWord.takeWhile {text : List Char} (ends : EndsWord text) :
    text.takeWhile isWordChar = [] := by
  cases text with
  | nil => rfl
  | cons c text => exact List.takeWhile_cons_of_neg (Bool.eq_false_iff.mp (ends c rfl))

theorem EndsWord.dropWhile {text : List Char} (ends : EndsWord text) :
    text.dropWhile isWordChar = text := by
  cases text with
  | nil => rfl
  | cons c text => exact List.dropWhile_cons_of_neg (Bool.eq_false_iff.mp (ends c rfl))

/-- A word is read as what it denotes, if it ends there. -/
theorem reads_word {word rest : List Char} {value : Value} (solid : ∀ c ∈ word, isWordChar c)
    (ends : EndsWord rest) (nonempty : word ≠ []) (denotes : wordValue? word = some value) :
    Reads (word? (word ++ rest)) value (skip rest) := by
  obtain ⟨c, others, rfl⟩ := List.exists_cons_of_ne_nil nonempty
  rw [List.forall_mem_cons] at solid
  have taken : (others ++ rest).takeWhile isWordChar = others := by
    rw [List.takeWhile_append_of_pos solid.2, ends.takeWhile, List.append_nil]
  have left : (others ++ rest).dropWhile isWordChar = rest := by
    rw [List.dropWhile_append_of_pos solid.2, ends.dropWhile]
  rw [List.cons_append, word?, if_pos solid.1]
  simp only [taken, left, denotes]
  exact ⟨_, rfl⟩

/-! ## Values -/

/-- A text that is read as a value wherever no word goes on behind it. -/
structure Written (text : String) (value : Value) : Prop where
  /-- The text does not start with blanks. -/
  solid : ∃ c others, text.toList = c :: others ∧ isSpace c = false
  read : ∀ rest, EndsWord rest → Reads (value? (text.toList ++ rest)) value (skip rest)

theorem Written.skip_append {text : String} {value : Value} (written : Written text value)
    (rest : List Char) : skip (text.toList ++ rest) = text.toList ++ rest := by
  obtain ⟨c, others, start, solid⟩ := written.solid
  rw [start, List.cons_append, skip_cons solid]

/-- A text that is written as a value denotes it. -/
theorem Written.parse? {text : String} {value : Value} (written : Written text value) :
    Json.parse? text = some value := by
  have found := written.read [] (by simp [EndsWord])
  have start := written.skip_append []
  rw [List.append_nil] at found start
  obtain ⟨shorter, found⟩ := found
  rw [Json.parse?, start, found]
  rfl

theorem written_literal (content : String) : Written (literal content) (.string content) where
  solid := ⟨'"', _, toList_literal content, rfl⟩
  read rest _ := by
    have found := (reads_literal content rest).mapped Value.string
    rw [toList_literal] at found ⊢
    rwa [List.cons_append, value?]

theorem isWordChar_of_isDigit {c : Char} (digit : c.isDigit) : isWordChar c := by
  simp [isWordChar, Char.isAlphanum, digit]

theorem isSpace_of_isDigit {c : Char} (digit : c.isDigit) : isSpace c = false := by
  rw [isSpace, decide_eq_false_iff_not]
  intro blank
  simp only [List.mem_cons, List.not_mem_nil, or_false] at blank
  rcases blank with rfl | rfl | rfl | rfl <;> cases digit

/-- What starts with a digit is a word. -/
theorem value?_of_isDigit {c : Char} (digit : c.isDigit) (text : List Char) :
    value? (c :: text) = word? (c :: text) := by
  rw [value?]
  all_goals
    rintro _ ⟨⟩
    cases digit

theorem written_toString (number : Nat) : Written (toString number) (.number number 0) := by
  obtain ⟨c, others, start⟩ := List.exists_cons_of_ne_nil (toString_ne_nil number)
  have digit : c.isDigit := isDigit_of_mem_toString (start ▸ List.mem_cons_self)
  refine ⟨⟨c, others, start, isSpace_of_isDigit digit⟩, fun rest ends => ?_⟩
  have word := reads_word (fun _ inside => isWordChar_of_isDigit (isDigit_of_mem_toString inside))
    ends (toString_ne_nil number) (wordValue?_toString number)
  rw [start, List.cons_append] at word ⊢
  rwa [value?_of_isDigit digit]

/-! ## Objects -/

variable {after : List Char} {name : String} {value : Value} {member : String × Value}
  {members : List (String × Value)}

theorem Reads.named (nameRead : Reads (string? text) name (':' :: after))
    (valueRead : Reads (value? (skip after)) value rest) :
    Reads (member? text) (name, value) rest := by
  obtain ⟨_, nameRead⟩ := nameRead
  obtain ⟨_, valueRead⟩ := valueRead
  obtain ⟨_, colonRead⟩ := reads_mark ':' after
  rw [member?]
  simp only [nameRead, colonRead, valueRead, Option.bind_eq_bind, Option.bind_some]
  exact ⟨_, rfl⟩

theorem Reads.lastMember (memberRead : Reads (member? text) member ('\x7d' :: after)) :
    Reads (members? text) [member] (skip after) := by
  obtain ⟨_, memberRead⟩ := memberRead
  obtain ⟨_, braceRead⟩ := reads_mark '\x7d' after
  rw [members?]
  simp only [memberRead, braceRead, mark?_of_ne (by decide : '\x7d' ≠ ',') after,
    Option.bind_eq_bind, Option.bind_some]
  exact ⟨_, rfl⟩

theorem Reads.consMember (memberRead : Reads (member? text) member (',' :: after))
    (membersRead : Reads (members? (skip after)) members rest) :
    Reads (members? text) (member :: members) rest := by
  obtain ⟨_, memberRead⟩ := memberRead
  obtain ⟨_, commaRead⟩ := reads_mark ',' after
  obtain ⟨_, membersRead⟩ := membersRead
  rw [members?]
  simp only [memberRead, commaRead, membersRead, Option.bind_eq_bind, Option.bind_some]
  exact ⟨_, rfl⟩

theorem Reads.emptyObject (start : skip text = '\x7d' :: after) :
    Reads (value? ('\x7b' :: text)) (.object []) (skip after) := by
  have braceRead := reads_mark '\x7d' after
  rw [← start] at braceRead
  obtain ⟨_, braceRead⟩ := braceRead
  rw [value?]
  simp only [braceRead]
  exact ⟨_, rfl⟩

theorem Reads.object (goesOn : mark? '\x7d' (skip text) = none)
    (membersRead : Reads (members? (skip text)) members rest) :
    Reads (value? ('\x7b' :: text)) (.object members) rest := by
  obtain ⟨_, membersRead⟩ := membersRead
  rw [value?]
  simp only [membersRead, goesOn]
  exact ⟨_, rfl⟩

/-- A member of an object as it is written. -/
def memberText (field : String × String) : String := literal field.1 ++ ":" ++ field.2

/-- A field is written as a member. -/
def WritesMember (field : String × String) (member : String × Value) : Prop :=
  field.1 = member.1 ∧ Written field.2 member.2

variable {field : String × String}

theorem toList_memberText (field : String × String) :
    (memberText field).toList = (literal field.1).toList ++ ':' :: field.2.toList := by
  simp [memberText]

theorem reads_member (writes : WritesMember field member) (ends : EndsWord rest) :
    Reads (member? ((memberText field).toList ++ rest)) member (skip rest) := by
  obtain ⟨name, value⟩ := member
  obtain ⟨rfl, written⟩ := writes
  rw [toList_memberText, List.append_assoc, List.cons_append]
  refine Reads.named (reads_literal field.1 _) ?_
  rw [written.skip_append]
  exact written.read rest ends

/-- The fields of an object as they are written between its braces. -/
def membersText (fields : List (String × String)) : String :=
  ",".intercalate (fields.map memberText)

theorem toList_object (fields : List (String × String)) :
    (object fields).toList = '\x7b' :: ((membersText fields).toList ++ ['\x7d']) := by
  rw [object, String.toList_append, String.toList_append]
  rfl

theorem membersText_cons_cons (first second : String × String) (fields : List (String × String)) :
    (membersText (first :: second :: fields)).toList =
      (memberText first).toList ++ ',' :: (membersText (second :: fields)).toList := by
  simp [membersText, String.intercalate_cons_cons, String.toList_append]

/-- The first member begins with the quote of its name. -/
theorem exists_membersText_eq (field : String × String) (fields : List (String × String)) :
    ∃ others, (membersText (field :: fields)).toList = '"' :: others := by
  cases fields with
  | nil =>
    rw [membersText, List.map_singleton, String.intercalate_singleton, toList_memberText,
      toList_literal]
    exact ⟨_, rfl⟩
  | cons second fields =>
    rw [membersText_cons_cons, toList_memberText, toList_literal]
    exact ⟨_, rfl⟩

theorem skip_membersText (field : String × String) (fields : List (String × String))
    (rest : List Char) : skip ((membersText (field :: fields)).toList ++ rest) =
      (membersText (field :: fields)).toList ++ rest := by
  obtain ⟨others, start⟩ := exists_membersText_eq field fields
  rw [start, List.cons_append, skip_cons rfl]

/-- The members of an object are read up to the brace that closes it. -/
theorem reads_members (rest : List Char) : {fields : List (String × String)} →
    {members : List (String × Value)} → List.Forall₂ WritesMember fields members → fields ≠ [] →
    Reads (members? ((membersText fields).toList ++ '\x7d' :: rest)) members (skip rest)
  | [field], [member], .cons writes .nil, _ =>
      Reads.lastMember (reads_member writes (endsWord_cons rfl rest))
  | first :: second :: fields, member :: members, .cons writes others, _ => by
      have membersRead := reads_members rest others (List.cons_ne_nil _ _)
      rw [membersText_cons_cons, List.append_assoc, List.cons_append]
      refine Reads.consMember (reads_member writes (endsWord_cons rfl _)) ?_
      rwa [skip_membersText]

/-- An object is read as the members that its fields are written for, in their order. -/
theorem written_object {fields : List (String × String)} {members : List (String × Value)}
    (writes : List.Forall₂ WritesMember fields members) :
    Written (object fields) (.object members) := by
  refine ⟨⟨_, _, toList_object fields, rfl⟩, fun rest _ => ?_⟩
  rw [toList_object, List.cons_append, List.append_assoc]
  -- Only an empty object has its closing brace where a member would begin.
  cases fields with
  | nil =>
    cases writes
    exact Reads.emptyObject (skip_cons rfl rest)
  | cons field fields =>
    obtain ⟨others, start⟩ := exists_membersText_eq field fields
    have membersRead := reads_members rest writes (List.cons_ne_nil _ _)
    rw [← skip_membersText] at membersRead
    refine Reads.object ?_ membersRead
    rw [skip_membersText, start]
    exact mark?_of_ne (by decide) _

end Report.Json

end MethodGroups
