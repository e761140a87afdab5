import RouteMigration.Json.Basic

set_option autoImplicit false

namespace RouteMigration

namespace Json

def isBlank (c : Char) : Bool :=
  c = ' ' || c = '\n' || c = '\r' || c = '\t'

def skipBlanks (text : Text) : Text :=
  text.dropWhile isBlank

def hexValue? (c : Char) : Option Nat :=
  if '0' ≤ c ∧ c ≤ '9' then some (c.toNat - 0x30)
  else if 'a' ≤ c ∧ c ≤ 'f' then some (c.toNat - 0x61 + 10)
  else if 'A' ≤ c ∧ c ≤ 'F' then some (c.toNat - 0x41 + 10)
  else none

def shortEscape? : Char → Option Char
  | '"' => some '"'
  | '\\' => some '\\'
  | '/' => some '/'
  | 'b' => some '\x08'
  | 'f' => some '\x0c'
  | 'n' => some '\n'
  | 'r' => some '\r'
  | 't' => some '\t'
  | _ => none

-- A surrogate half is no character, and an escape of one is refused.
def codeEscape? (first second third fourth : Char) : Option Char :=
  match hexValue? first, hexValue? second, hexValue? third, hexValue? fourth with
  | some a, some b, some c, some d =>
    let code := ((a * 16 + b) * 16 + c) * 16 + d
    if code.isValidChar then some (Char.ofNat code) else none
  | _, _, _, _ => none

def readString : Text → Option (Text × Text)
  | [] => none
  | '"' :: rest => some ([], rest)
  | '\\' :: 'u' :: first :: second :: third :: fourth :: rest =>
    match codeEscape? first second third fourth, readString rest with
    | some c, some (content, later) => some (c :: content, later)
    | _, _ => none
  | '\\' :: mark :: rest =>
    match shortEscape? mark, readString rest with
    | some c, some (content, later) => some (c :: content, later)
    | _, _ => none
  | c :: rest =>
    if c = '\\' ∨ c.toNat < 0x20 then none
    else
      match readString rest with
      | some (content, later) => some (c :: content, later)
      | none => none

def readNumber (text : Text) : Option (Json × Text) :=
  let digits := text.takeWhile Char.isDigit
  if digits = [] ∨ digits ≠ ['0'] ∧ digits.head? = some '0' then none
  else some (.number (Nat.ofDigitChars 10 digits 0), text.dropWhile Char.isDigit)

mutual

-- Each call takes a character at least, so the length of a text is fuel enough.
def readValue : Nat → Text → Option (Json × Text)
  | 0, _ => none
  | fuel + 1, input =>
    match skipBlanks input with
    | '"' :: rest =>
      match readString rest with
      | some (value, later) => some (.text value, later)
      | none => none
    | '[' :: rest =>
      match skipBlanks rest with
      | ']' :: later => some (.list [], later)
      | _ =>
        match readItems fuel rest with
        | some (items, later) => some (.list items, later)
        | none => none
    | '\x7b' :: rest =>
      match skipBlanks rest with
      | '\x7d' :: later => some (.object [], later)
      | _ =>
        match readMembers fuel rest with
        | some (members, later) => some (.object members, later)
        | none => none
    | 't' :: 'r' :: 'u' :: 'e' :: later => some (.boolean true, later)
    | 'f' :: 'a' :: 'l' :: 's' :: 'e' :: later => some (.boolean false, later)
    | rest => readNumber rest

def readItems : Nat → Text → Option (List Json × Text)
  | 0, _ => none
  | fuel + 1, input =>
    match readValue fuel input with
    | none => none
    | some (item, rest) =>
      match skipBlanks rest with
      | ']' :: later => some ([item], later)
      | ',' :: more =>
        match readItems fuel more with
        | some (items, later) => some (item :: items, later)
        | none => none
      | _ => none

def readMembers : Nat → Text → Option (List (Text × Json) × Text)
  | 0, _ => none
  | fuel + 1, input =>
    match skipBlanks input with
    | '"' :: opened =>
      match readString opened with
      | none => none
      | some (key, closed) =>
        match skipBlanks closed with
        | ':' :: written =>
          match readValue fuel written with
          | none => none
          | some (value, rest) =>
            match skipBlanks rest with
            | '\x7d' :: later => some ([(key, value)], later)
            | ',' :: more =>
              match readMembers fuel more with
              | some (members, later) => some ((key, value) :: members, later)
              | none => none
            | _ => none
        | _ => none
    | _ => none

end

def decode? (text : Text) : Option Json :=
  match readValue text.length text with
  | some (value, rest) => if skipBlanks rest = [] then some value else none
  | none => none

theorem skipBlanks_cons (c : Char) (rest : Text) (shown : isBlank c = false) :
    skipBlanks (c :: rest) = c :: rest := by
  simp [skipBlanks, shown]

theorem skipBlanks_lineStart (depth : Nat) (text : Text) :
    skipBlanks (lineStart depth ++ text) = skipBlanks text := by
  have indent : ∀ count, (List.replicate count ' ' ++ text).dropWhile isBlank =
      text.dropWhile isBlank := by
    intro count
    induction count with
    | zero => rfl
    | succ count ih => exact ih
  exact indent (2 * depth)

theorem hexValue?_hexDigit (value : Nat) (small : value < 16) :
    hexValue? (hexDigit value) = some value := by
  revert value
  decide

theorem codeEscape?_hexDigits (c : Char) (control : c.toNat < 0x20) :
    codeEscape? '0' '0' (hexDigit (c.toNat / 16)) (hexDigit (c.toNat % 16)) = some c := by
  have first : hexValue? (hexDigit (c.toNat / 16)) = some (c.toNat / 16) :=
    hexValue?_hexDigit _ (by omega)
  have second : hexValue? (hexDigit (c.toNat % 16)) = some (c.toNat % 16) :=
    hexValue?_hexDigit _ (by omega)
  have zero : hexValue? '0' = some 0 := by decide
  have code : ((0 * 16 + 0) * 16 + c.toNat / 16) * 16 + c.toNat % 16 = c.toNat := by omega
  have valid : c.toNat.isValidChar := c.valid
  simp only [codeEscape?, zero, first, second, code, if_pos valid, Char.ofNat_toNat]

theorem readString_escaped (c : Char) (rest content later : Text)
    (read : readString rest = some (content, later)) :
    readString (escaped c ++ rest) = some (c :: content, later) := by
  unfold escaped
  -- One short escape after the other; a control character without one; a character as it is.
  iterate 7
    split
    next same => subst same; simp [readString, shortEscape?, read]
  split
  next control =>
    simp only [List.cons_append, List.nil_append, readString, codeEscape?_hexDigits c control, read]
  next mark bar _ _ _ _ _ visible =>
    rw [List.singleton_append, readString]
    · simp [bar, visible, read]
    all_goals simp_all

theorem readString_flatMap_escaped (content rest : Text) :
    readString (content.flatMap escaped ++ '"' :: rest) = some (content, rest) := by
  induction content with
  | nil => simp [readString]
  | cons c later ih =>
    rw [List.flatMap_cons, List.append_assoc]
    exact readString_escaped c _ later rest ih

def EndsNumber (rest : Text) : Prop :=
  rest.head?.all (fun c => !c.isDigit) = true

theorem ne_of_isDigit {c : Char} (digit : c.isDigit = true) (other : Char)
    (different : other.isDigit = false) : c ≠ other := by
  rintro rfl
  simp [digit] at different

theorem isBlank_of_isDigit (c : Char) (digit : c.isDigit = true) : isBlank c = false := by
  simp [isBlank, ne_of_isDigit digit ' ' rfl, ne_of_isDigit digit '\n' rfl,
    ne_of_isDigit digit '\r' rfl, ne_of_isDigit digit '\t' rfl]

theorem isDigit_of_mem_ofNat (number : Nat) (c : Char) (present : c ∈ Text.ofNat number) :
    c.isDigit = true :=
  Nat.isDigit_of_mem_toDigits (by omega) (by omega) present

theorem exists_ofNat_eq_cons (number : Nat) : ∃ c later,
    Text.ofNat number = c :: later ∧ c.isDigit = true := by
  cases digits : Text.ofNat number with
  | nil => exact absurd digits Nat.toDigits_ne_nil
  | cons c later =>
    have first : c ∈ Text.ofNat number := by simp [digits]
    exact ⟨c, later, rfl, isDigit_of_mem_ofNat number c first⟩

theorem head_ofNat (number : Nat) (zero : (Text.ofNat number).head? = some '0') : number = 0 := by
  induction number using Nat.strongRecOn with
  | ind number ih =>
    by_cases small : number < 10
    · have digit : ∀ value < 10, [Nat.digitChar value].head? = some '0' → value = 0 := by decide
      rw [Text.ofNat, Nat.toDigits_of_lt_base small] at zero
      exact digit number small zero
    · have shorter : (Text.ofNat (number / 10)).head? = some '0' := by
        rw [Text.ofNat, Nat.toDigits_of_base_le (by omega) (by omega)] at zero
        obtain ⟨c, later, digits, -⟩ := exists_ofNat_eq_cons (number / 10)
        rw [← Text.ofNat, digits] at zero
        simpa [digits] using zero
      have quotient : number / 10 = 0 := ih (number / 10) (by omega) shorter
      omega

theorem readNumber_ofNat (number : Nat) (rest : Text) (ends : EndsNumber rest) :
    readNumber (Text.ofNat number ++ rest) = some (.number number, rest) := by
  have digits := isDigit_of_mem_ofNat number
  have taken : (Text.ofNat number ++ rest).takeWhile Char.isDigit = Text.ofNat number := by
    rw [List.takeWhile_append_of_pos digits]
    cases rest with
    | nil => simp
    | cons c later => simp_all [EndsNumber]
  have dropped : (Text.ofNat number ++ rest).dropWhile Char.isDigit = rest := by
    rw [List.dropWhile_append_of_pos digits]
    cases rest with
    | nil => simp
    | cons c later => simp_all [EndsNumber]
  have usual : ¬ (Text.ofNat number = [] ∨
      Text.ofNat number ≠ ['0'] ∧ (Text.ofNat number).head? = some '0') := by
    rintro (empty | ⟨longer, zero⟩)
    · exact Nat.toDigits_ne_nil empty
    · rw [head_ofNat number zero] at longer
      exact longer rfl
  simp only [readNumber, taken, dropped, if_neg usual]
  rw [Text.ofNat, Nat.ofDigitChars_toDigits (by omega) (by omega)]

theorem readValue_lineStart (fuel depth : Nat) (input : Text) :
    readValue fuel (lineStart depth ++ input) = readValue fuel input := by
  cases fuel with
  | zero => rfl
  | succ fuel => simp only [readValue, skipBlanks_lineStart]

structure ReadsBack (fuel : Nat) : Prop where
  value : ∀ (json : Json) (depth : Nat) (rest : Text), (pretty depth json).length ≤ fuel →
    EndsNumber rest → readValue fuel (pretty depth json ++ rest) = some (json, rest)
  items : ∀ (items : List Json) (depth closing : Nat) (rest : Text), items ≠ [] →
    (prettyItems depth items).length ≤ fuel →
      readItems fuel (prettyItems depth items ++ (lineStart closing ++ ']' :: rest)) =
        some (items, rest)
  members : ∀ (members : List (Text × Json)) (depth closing : Nat) (rest : Text), members ≠ [] →
    (prettyMembers depth members).length ≤ fuel →
      readMembers fuel (prettyMembers depth members ++ (lineStart closing ++ '\x7d' :: rest)) =
        some (members, rest)

theorem exists_pretty_eq_cons (depth : Nat) (json : Json) : ∃ c later,
    pretty depth json = c :: later ∧ isBlank c = false ∧ c ≠ ']' := by
  cases json with
  | text content => exact ⟨'"', _, rfl, by decide, by decide⟩
  | number value =>
    obtain ⟨c, later, digits, digit⟩ := exists_ofNat_eq_cons value
    exact ⟨c, later, digits, isBlank_of_isDigit c digit, ne_of_isDigit digit _ rfl⟩
  | boolean value => cases value <;> exact ⟨_, _, rfl, by decide, by decide⟩
  | list items => unfold pretty; split <;> exact ⟨'[', _, rfl, by decide, by decide⟩
  | object members => unfold pretty; split <;> exact ⟨'\x7b', _, rfl, by decide, by decide⟩

theorem readsBack_zero : ReadsBack 0 where
  value json depth rest fits _ := by
    obtain ⟨c, later, laidOut, -, -⟩ := exists_pretty_eq_cons depth json
    simp [laidOut] at fits
  items items depth closing rest some_item fits := by
    cases items with
    | nil => exact absurd rfl some_item
    | cons item later => simp [prettyItems, lineStart] at fits
  members members depth closing rest some_member fits := by
    cases members with
    | nil => exact absurd rfl some_member
    | cons member later => simp [prettyMembers, lineStart] at fits

theorem readValue_digit (fuel : Nat) (c : Char) (later : Text) (digit : c.isDigit = true) :
    readValue (fuel + 1) (c :: later) = readNumber (c :: later) := by
  rw [readValue.eq_def]
  simp only [skipBlanks_cons c later (isBlank_of_isDigit c digit)]
  split
  all_goals first | rfl | (next same => cases same; exact absurd digit (by decide))

theorem skipBlanks_prettyItems (depth : Nat) (item : Json) (later : List Json) (rest : Text) :
    ∃ c behind, skipBlanks (prettyItems depth (item :: later) ++ rest) = c :: behind ∧ c ≠ ']' := by
  obtain ⟨c, behind, laidOut, shown, inner⟩ := exists_pretty_eq_cons depth item
  simp only [prettyItems, laidOut, List.append_assoc, skipBlanks_lineStart, List.cons_append,
    skipBlanks_cons c _ shown]
  exact ⟨c, _, rfl, inner⟩

theorem skipBlanks_prettyMembers (depth : Nat) (member : Text × Json)
    (later : List (Text × Json)) (rest : Text) : ∃ behind,
      skipBlanks (prettyMembers depth (member :: later) ++ rest) = '"' :: behind := by
  simp only [prettyMembers, quoted, List.append_assoc, skipBlanks_lineStart, List.cons_append,
    skipBlanks_cons '"' _ rfl]
  exact ⟨_, rfl⟩

theorem endsNumber_cons (c : Char) (rest : Text) (different : c.isDigit = false) :
    EndsNumber (c :: rest) := by
  simp [EndsNumber, different]

theorem pretty_list_cons (depth : Nat) (item : Json) (later : List Json) :
    pretty depth (.list (item :: later)) =
      '[' :: (prettyItems (depth + 1) (item :: later) ++ (lineStart depth ++ [']'])) := by
  simp [pretty]

theorem pretty_object_cons (depth : Nat) (member : Text × Json) (later : List (Text × Json)) :
    pretty depth (.object (member :: later)) =
      '\x7b' :: (prettyMembers (depth + 1) (member :: later) ++ (lineStart depth ++ ['\x7d'])) := by
  simp [pretty]

theorem ReadsBack.value_succ {fuel : Nat} (shorter : ReadsBack fuel) (json : Json) (depth : Nat)
    (rest : Text) (fits : (pretty depth json).length ≤ fuel + 1) (ends : EndsNumber rest) :
    readValue (fuel + 1) (pretty depth json ++ rest) = some (json, rest) := by
  cases json with
  | text content =>
    simp [pretty, quoted, readValue, skipBlanks_cons '"' _ rfl, readString_flatMap_escaped]
  | number value =>
    obtain ⟨c, later, digits, digit⟩ := exists_ofNat_eq_cons value
    rw [← readNumber_ofNat value rest ends, pretty, digits]
    exact readValue_digit fuel c (later ++ rest) digit
  | boolean value => cases value <;> simp [pretty, boolText, readValue, skipBlanks, isBlank]
  | list items =>
    cases items with
    | nil => simp [pretty, readValue, skipBlanks, isBlank]
    | cons item later =>
      have inside : (prettyItems (depth + 1) (item :: later)).length ≤ fuel := by
        simp only [pretty_list_cons, List.length_append, List.length_cons] at fits
        omega
      have read := shorter.items _ (depth + 1) depth rest (List.cons_ne_nil item later) inside
      obtain ⟨c, behind, opened, inner⟩ :=
        skipBlanks_prettyItems (depth + 1) item later (lineStart depth ++ ']' :: rest)
      simp only [pretty_list_cons, List.cons_append, List.append_assoc, List.nil_append,
        readValue, skipBlanks_cons '[' _ rfl, read]
      split
      next same => exact absurd (List.head_eq_of_cons_eq (opened.symm.trans same)) inner
      next => rfl
  | object members =>
    cases members with
    | nil => simp [pretty, readValue, skipBlanks, isBlank]
    | cons member later =>
      have inside : (prettyMembers (depth + 1) (member :: later)).length ≤ fuel := by
        simp only [pretty_object_cons, List.length_append, List.length_cons] at fits
        omega
      have read := shorter.members _ (depth + 1) depth rest (List.cons_ne_nil member later) inside
      obtain ⟨behind, opened⟩ :=
        skipBlanks_prettyMembers (depth + 1) member later (lineStart depth ++ '\x7d' :: rest)
      simp only [pretty_object_cons, List.cons_append, List.append_assoc, List.nil_append,
        readValue, skipBlanks_cons '\x7b' _ rfl, read]
      split
      next same => cases opened.symm.trans same
      next => rfl

theorem ReadsBack.items_succ {fuel : Nat} (shorter : ReadsBack fuel) (items : List Json)
    (depth closing : Nat) (rest : Text) (nonempty : items ≠ [])
    (fits : (prettyItems depth items).length ≤ fuel + 1) :
    readItems (fuel + 1) (prettyItems depth items ++ (lineStart closing ++ ']' :: rest)) =
      some (items, rest) := by
  cases items with
  | nil => exact absurd rfl nonempty
  | cons item later =>
    have lengths : (pretty depth item).length + (prettyItems depth later).length ≤ fuel := by
      simp only [prettyItems, lineStart, List.length_append, List.length_cons] at fits
      omega
    cases later with
    | nil =>
      have read := shorter.value item depth (lineStart closing ++ ']' :: rest) (by omega)
        (endsNumber_cons '\n' _ rfl)
      simp only [prettyItems, List.isEmpty_nil, if_true, List.append_nil, List.append_assoc,
        readItems, readValue_lineStart, read, skipBlanks_lineStart, skipBlanks_cons ']' _ rfl]
    | cons second others =>
      have first := shorter.value item depth
        (',' :: (prettyItems depth (second :: others) ++ (lineStart closing ++ ']' :: rest)))
        (by omega) (endsNumber_cons ',' _ rfl)
      have read := shorter.items _ depth closing rest (List.cons_ne_nil second others) (by omega)
      rw [prettyItems]
      simp only [List.isEmpty_cons, Bool.false_eq_true, if_false, List.append_assoc,
        List.cons_append, List.nil_append, readItems, readValue_lineStart, first,
        skipBlanks_cons ',' _ rfl, read]

theorem ReadsBack.members_succ {fuel : Nat} (shorter : ReadsBack fuel)
    (members : List (Text × Json)) (depth closing : Nat) (rest : Text) (nonempty : members ≠ [])
    (fits : (prettyMembers depth members).length ≤ fuel + 1) :
    readMembers (fuel + 1) (prettyMembers depth members ++ (lineStart closing ++ '\x7d' :: rest)) =
      some (members, rest) := by
  cases members with
  | nil => exact absurd rfl nonempty
  | cons member later =>
    obtain ⟨key, value⟩ := member
    have lengths : (pretty depth value).length + (prettyMembers depth later).length ≤ fuel := by
      simp only [prettyMembers, lineStart, List.length_append, List.length_cons] at fits
      omega
    have spaced : ∀ input, readValue fuel (' ' :: input) = readValue fuel input := by
      intro input
      cases fuel <;> rfl
    cases later with
    | nil =>
      have read := shorter.value value depth (lineStart closing ++ '\x7d' :: rest) (by omega)
        (endsNumber_cons '\n' _ rfl)
      simp only [prettyMembers, quoted, List.isEmpty_nil, if_true, List.append_nil,
        List.append_assoc, List.cons_append, List.nil_append, readMembers, skipBlanks_lineStart,
        skipBlanks_cons '"' _ rfl, readString_flatMap_escaped, skipBlanks_cons ':' _ rfl, spaced,
        read, skipBlanks_cons '\x7d' _ rfl]
    | cons second others =>
      have first := shorter.value value depth
        (',' :: (prettyMembers depth (second :: others) ++ (lineStart closing ++ '\x7d' :: rest)))
        (by omega) (endsNumber_cons ',' _ rfl)
      have read := shorter.members _ depth closing rest (List.cons_ne_nil second others) (by omega)
      rw [prettyMembers]
      simp only [quoted, List.isEmpty_cons, Bool.false_eq_true, if_false, List.append_assoc,
        List.cons_append, List.nil_append, readMembers, skipBlanks_lineStart,
        skipBlanks_cons '"' _ rfl, readString_flatMap_escaped, skipBlanks_cons ':' _ rfl, spaced,
        first, skipBlanks_cons ',' _ rfl, read]

theorem readsBack (fuel : Nat) : ReadsBack fuel := by
  induction fuel with
  | zero => exact readsBack_zero
  | succ fuel shorter => exact ⟨shorter.value_succ, shorter.items_succ, shorter.members_succ⟩

theorem decode?_pretty (json : Json) (depth : Nat) :
    decode? (pretty depth json ++ ['\n']) = some json := by
  have read := (readsBack (pretty depth json ++ ['\n']).length).value json depth ['\n'] (by simp)
    (endsNumber_cons '\n' [] rfl)
  have nothing : skipBlanks ['\n'] = [] := by decide
  simp only [decode?, read, nothing, if_true]

example : decode? "[ 10,\"\\u00e9\" ]".toList = some (.list [.number 10, .text ['é']]) := by cbv

example : decode? "[01]".toList = none := by cbv

end Json

end RouteMigration
