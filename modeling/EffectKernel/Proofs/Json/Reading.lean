import EffectKernel.Json.Reader
import Mathlib.Data.Nat.Digits.Defs

/-!
# Reading What Was Written

The reader gives back any document from its text, as long as the numbers in the document are natural
numbers and no text in it is missing. A floating point number may come back as another numeral, and
a text with half a surrogate pair in it is read but never written.

The reader takes characters from the front and leaves the rest, so the text of a part is always read
with something behind it. For most parts this may be anything. Only a number does not end where its
text ends: it would go on with a digit, a point or an exponent. What stands behind a value is a
comma or a bracket, though, and they stop a number (`Stops`).

The bound on the recursion of the reader falls with each value, item and character of a string,
and twice the length of the text is enough for all of them (`Document.Reads`).

## Main definitions

* `escaped`: What stands for a character inside a string.
* `Stops`: What may follow a value.
* `Document.Plain`: The documents that come back.
* `Document.Reads`: A document is read where its text stands.

## Theorems

* `readString_quoted`: A string is read up to its closing quote.
* `readNumeral_ofNat`: A natural number is read up to what stops it.
* `readItems_text`, `readMembers_text`: The inside of arrays and objects is read.
* `read?_text`: A plain document is read from its text.
* `Document.Plain.eq_of_text_eq`: Different plain documents have different texts.
-/

namespace EffectKernel

namespace Json

/-! ### Strings -/

/-- What stands for a character inside a string. -/
def escaped (c : Char) : List Char :=
  (quoteChar c).toList

/-- A text as a string, by its characters. -/
theorem toList_quote (s : String) :
    (quote s).toList = '"' :: (s.toList.flatMap escaped ++ ['"']) := by
  have inside (cs : List Char) (out : String) :
      (cs.foldl (fun out c => out ++ quoteChar c) out).toList =
        out.toList ++ cs.flatMap escaped := by
    induction cs generalizing out with
    | nil => simp
    | cons c cs ih => simp [ih, escaped]
  simp [quote, String.foldl_eq_foldl_toList, inside]

/-- Escaping does not make a text shorter. -/
theorem length_le_escaped (cs : List Char) : cs.length ≤ (cs.flatMap escaped).length := by
  induction cs with
  | nil => exact Nat.zero_le _
  | cons c cs ih =>
      have some : 0 < (escaped c).length := by
        unfold escaped quoteChar controlEscape
        repeat' split
        all_goals simp
      rw [List.flatMap_cons, List.length_append, List.length_cons]
      omega

/-- The four digits of a control character are read. -/
theorem readUnit_control : ∀ k < 32,
    readUnit (List.replicate (4 - (Nat.toDigits 16 k).length) '0' ++ Nat.toDigits 16 k) =
      some (k, []) := by
  decide

/-- What stands behind four digits does not change what they say. -/
theorem readUnit_append {cs : List Char} {unit : Nat} (read : readUnit cs = some (unit, []))
    (rest : List Char) : readUnit (cs ++ rest) = some (unit, rest) := by
  unfold readUnit at read ⊢
  split at read
  · next a b c d tail =>
    split at read
    · cases read
      simp [*]
    · cases read
  · cases read

/-- A character that need not be escaped is read as it stands. -/
theorem readString_plain {c : Char} (noQuote : ¬ c = '"') (noBackslash : ¬ c = '\\')
    (noControl : ¬ c.toNat < 0x20) (n : Nat) (done : Option (List Char)) (rest : List Char) :
    readString (n + 1) done (c :: rest) = readString n (done.map (c :: ·)) rest := by
  rw [readString]
  · rw [if_neg (not_or.2 ⟨noControl, noBackslash⟩)]
  · exact noQuote
  · exact fun _ backslash => absurd backslash noBackslash
  · exact fun _ _ backslash => absurd backslash noBackslash

/-- A character is read back from its escape. There is one case for each escape, and one for
    characters without. -/
theorem readString_escaped (n : Nat) (done : List Char) (c : Char) (rest : List Char) :
    readString (n + 1) (some done) (escaped c ++ rest) = readString n (some (c :: done)) rest := by
  unfold escaped quoteChar
  -- Seven characters have a letter that stands for them.
  iterate 7
    split
    · next same => subst same; rfl
  split
  · next control =>
    have read := readUnit_append (readUnit_control c.toNat control) rest
    have written : (controlEscape c).toList = '\\' :: 'u' ::
        (List.replicate (4 - (Nat.toDigits 16 c.toNat).length) '0' ++ Nat.toDigits 16 c.toNat) := by
      simp [controlEscape]
    rw [written, List.cons_append, List.cons_append, readString, read]
    simp only [Char.ofNat_toNat, Option.map_some]
    rw [if_pos (.inl (by omega))]
  · next noQuote noBackslash _ _ _ _ _ noControl =>
    have single : c.toString.toList = [c] := String.toList_singleton c
    rw [single, List.singleton_append]
    exact readString_plain noQuote noBackslash noControl n (some done) rest

/-- A string is read up to its closing quote. -/
theorem readString_quoted (cs done rest : List Char) {n : Nat} (enough : cs.length < n) :
    readString n (some done) (cs.flatMap escaped ++ '"' :: rest) =
      some (some (String.ofList (done.reverse ++ cs)), rest) := by
  induction cs generalizing n done with
  | nil =>
      obtain ⟨n, rfl⟩ := Nat.exists_eq_succ_of_ne_zero (Nat.ne_of_gt enough)
      simp [readString]
  | cons c cs ih =>
      obtain ⟨n, rfl⟩ := Nat.exists_eq_succ_of_ne_zero (Nat.ne_of_gt (Nat.zero_lt_of_lt enough))
      rw [List.flatMap_cons, List.append_assoc, Nat.succ_eq_add_one, readString_escaped,
        ih (c :: done) (Nat.lt_of_succ_lt_succ enough), List.reverse_cons, List.append_assoc,
        List.singleton_append]

/-- A text is read up to the quote behind it, if the reader may go as far as that. -/
theorem readString_text (s : String) (rest : List Char) {n : Nat}
    (enough : (s.toList.flatMap escaped).length < n) :
    readString n (some []) (s.toList.flatMap escaped ++ '"' :: rest) = some (some s, rest) := by
  rw [readString_quoted s.toList [] rest (Nat.lt_of_le_of_lt (length_le_escaped s.toList) enough),
    List.reverse_nil, List.nil_append, String.ofList_toList]

/-! ### Numerals -/

/-- What may follow a value inside another one, or at the end. -/
def Stops (rest : List Char) : Prop :=
  ∀ c ∈ rest.head?, c = ',' ∨ c = ']' ∨ c = '}'

/-- The digits end where something else begins. -/
theorem takeWhile_digits {ds rest : List Char} (digits : ∀ c ∈ ds, c.isDigit = true)
    (stops : ∀ c ∈ rest.head?, c.isDigit = false) :
    (ds ++ rest).takeWhile Char.isDigit = ds ∧ (ds ++ rest).dropWhile Char.isDigit = rest := by
  rw [List.takeWhile_append_of_pos digits, List.dropWhile_append_of_pos digits]
  cases rest with
  | nil => simp
  | cons c rest => simp [stops c rfl]

theorem isDigit_toDigits (n : Nat) : ∀ c ∈ Nat.toDigits 10 n, c.isDigit = true := fun _ =>
  Nat.isDigit_of_mem_toDigits (by decide) (by decide)

/-- A number has at least one digit. -/
theorem exists_toDigits (n : Nat) :
    ∃ d ds, Nat.toDigits 10 n = d :: ds ∧ d.isDigit = true := by
  rcases List.exists_cons_of_ne_nil (Nat.toDigits_ne_nil (b := 10) (n := n)) with ⟨d, ds, written⟩
  exact ⟨d, ds, written, isDigit_toDigits n d (by rw [written]; exact .head _)⟩

/-- No number but zero is written with a zero in front. -/
theorem head_toDigits (n : Nat) (pos : 0 < n) : ∀ c ∈ (Nat.toDigits 10 n).head?, c ≠ '0' := by
  induction n using Nat.base_induction 10 (by decide) with
  | single m small =>
      rw [Nat.toDigits_of_lt_base small]
      rintro c ⟨⟩ zero
      rw [Nat.digitChar_eq_zero] at zero
      omega
  | digit m k small positive ih =>
      rw [← Nat.toDigits_append_toDigits (by decide) positive small]
      rcases exists_toDigits m with ⟨d, ds, written, -⟩
      rw [written] at ih ⊢
      exact ih positive

/-- The digits of a number say the number. -/
theorem digitsValue_toDigits (n : Nat) : Numeral.digitsValue (Nat.toDigits 10 n) = n := by
  have value := @Nat.ofDigitChars_ten_toDigits n
  rw [Nat.ofDigitChars_eq_foldl] at value
  simpa only [Numeral.digitsValue, Nat.mul_comm 10] using value

@[simp] theorem toNat?_ofNat (n : Nat) : (Numeral.ofNat n).toNat? = some n :=
  congrArg some (digitsValue_toDigits n)

theorem chars_ofNat (n : Nat) : (Numeral.ofNat n).chars = Nat.toDigits 10 n := by
  simp [Numeral.chars, Numeral.ofNat]

section Numerals

variable {rest : List Char} (stops : Stops rest)
include stops

/-- Behind a numeral no digit stands. -/
theorem Stops.not_digit : ∀ c ∈ rest.head?, c.isDigit = false := by
  intro c first
  rcases stops c first with rfl | rfl | rfl <;> rfl

theorem Stops.readFraction : readFraction rest = some (none, rest) := by
  cases rest with
  | nil => rfl
  | cons c rest => rcases stops c rfl with rfl | rfl | rfl <;> rfl

theorem Stops.readExponent : readExponent rest = some (none, rest) := by
  cases rest with
  | nil => rfl
  | cons c rest => rcases stops c rfl with rfl | rfl | rfl <;> rfl

/-- The digits of a number are read back, up to where they end. A number that begins with a zero is
    zero. -/
theorem readWhole_toDigits (n : Nat) :
    readWhole (Nat.toDigits 10 n ++ rest) = some (Nat.toDigits 10 n, rest) := by
  have whole : readDigits (Nat.toDigits 10 n ++ rest) = some (Nat.toDigits 10 n, rest) := by
    rcases takeWhile_digits (isDigit_toDigits n) stops.not_digit with ⟨taken, left⟩
    unfold readDigits
    rw [taken, left]
    split
    · next none => exact absurd none Nat.toDigits_ne_nil
    · rfl
  -- A zero in front must be the only digit, and it is.
  rcases Nat.eq_zero_or_pos n with rfl | pos
  · rw [Nat.toDigits_zero] at whole ⊢
    cases rest with
    | nil => exact whole
    | cons c rest =>
        have stop := stops.not_digit c rfl
        simp [readWhole, stop]
  · have head := head_toDigits n pos
    rcases exists_toDigits n with ⟨d, ds, written, -⟩
    rw [written] at whole head ⊢
    rw [List.cons_append, readWhole]
    · exact whole
    · intro c tail zero
      exact head d rfl (List.cons.inj zero).1

/-- A whole number is read back. -/
theorem readNumeral_ofNat (n : Nat) :
    readNumeral ((Numeral.ofNat n).chars ++ rest) = some (Numeral.ofNat n, rest) := by
  have unsigned : readUnsigned false (Nat.toDigits 10 n ++ rest) =
      some (Numeral.ofNat n, rest) := by
    simp [readUnsigned, readWhole_toDigits stops, stops.readFraction, stops.readExponent,
      Numeral.ofNat]
  rw [chars_ofNat]
  rcases exists_toDigits n with ⟨d, ds, written, digit⟩
  rw [written] at unsigned ⊢
  -- A sign is looked for first, but there is none.
  rw [List.cons_append, readNumeral]
  · exact unsigned
  · intro tail minus
    rw [(List.cons.inj minus).1] at digit
    cases digit

end Numerals

/-! ### Documents -/

/-- A document whose numbers are natural numbers, and in which no text is missing. -/
inductive Document.Plain : Document → Prop where
  | null : Plain .null
  | bool {value} : Plain (.bool value)
  | number {n} : Plain (.ofNat n)
  | string {s} : Plain (.string (some s))
  | array {items} (each : ∀ d ∈ items, Plain d) : Plain (.array items)
  | object {members} (named : ∀ m ∈ members, m.1.isSome = true) (each : ∀ m ∈ members, Plain m.2) :
      Plain (.object members)

section Texts

variable {d : Document} {items : List Document} {members : List (Option String × Document)}

theorem toList_number (n : Numeral) : (Document.number n).text.toList = n.chars := by
  simp [Document.text]

theorem toList_string (s : String) : (Document.string (some s)).text.toList =
    '"' :: (s.toList.flatMap escaped ++ ['"']) := by
  simp [Document.text, toList_quote]

theorem toList_array : (Document.array items).text.toList =
    '[' :: ((itemsText items).toList ++ [']']) := by
  simp [Document.text]

theorem toList_object : (Document.object members).text.toList =
    '{' :: ((membersText members).toList ++ ['}']) := by
  simp [Document.text]

theorem toList_items {next : Document} : (itemsText (d :: next :: items)).toList =
    d.text.toList ++ ',' :: (itemsText (next :: items)).toList := by
  simp [itemsText]

theorem toList_member {s : String} : (membersText [(some s, d)]).toList =
    '"' :: (s.toList.flatMap escaped ++ '"' :: ':' :: d.text.toList) := by
  simp [membersText, toList_quote]

theorem toList_members {s : String} {next : Option String × Document} :
    (membersText ((some s, d) :: next :: members)).toList =
      '"' :: (s.toList.flatMap escaped ++ '"' :: ':' :: (d.text.toList ++
        ',' :: (membersText (next :: members)).toList)) := by
  simp [membersText, toList_quote]

end Texts

/-- A document is read where its text stands. -/
def Document.Reads (d : Document) : Prop :=
  ∀ n rest, 2 * d.text.toList.length ≤ n → Stops rest →
    readValue n (d.text.toList ++ rest) = some (d, rest)

/-- A numeral stops before what stands between items, or behind the last one. -/
theorem stops_cons {c : Char} (stop : c = ',' ∨ c = ']' ∨ c = '}') (rest : List Char) :
    Stops (c :: rest) := by
  rintro _ ⟨⟩
  exact stop

/-- Where something is to be read there are no blanks to skip. -/
theorem skipBlanks_cons {c : Char} (token : isBlank c = false) (rest : List Char) :
    skipBlanks (c :: rest) = c :: rest :=
  List.dropWhile_cons_of_neg (by rw [token]; exact Bool.false_ne_true)

section Steps

variable {n : Nat} {cs tail rest : List Char} {d : Document} {items : List Document} {s : String}
  {members : List (Option String × Document)}

/-- The last item of an array. -/
theorem readItems_last (read : readValue n cs = some (d, ']' :: rest)) :
    readItems (n + 1) cs = some ([d], rest) := by
  simp only [readItems, read, skipBlanks_cons (c := ']') rfl, Option.bind_eq_bind,
    Option.bind_some]
  rfl

/-- An item with others behind it. -/
theorem readItems_more (read : readValue n cs = some (d, ',' :: tail))
    (more : readItems n tail = some (items, rest)) :
    readItems (n + 1) cs = some (d :: items, rest) := by
  simp only [readItems, read, skipBlanks_cons (c := ',') rfl, more, Option.bind_eq_bind,
    Option.bind_some]
  rfl

/-- The last member of an object. -/
theorem readMembers_last (name : readString n (some []) cs = some (some s, ':' :: tail))
    (read : readValue n tail = some (d, '}' :: rest)) :
    readMembers (n + 1) ('"' :: cs) = some ([(some s, d)], rest) := by
  simp only [readMembers, skipBlanks_cons (c := '"') rfl, name, skipBlanks_cons (c := ':') rfl,
    read, skipBlanks_cons (c := '}') rfl, Option.bind_eq_bind, Option.bind_some]
  rfl

/-- A member with others behind it. -/
theorem readMembers_more {behind : List Char}
    (name : readString n (some []) cs = some (some s, ':' :: tail))
    (read : readValue n tail = some (d, ',' :: behind))
    (more : readMembers n behind = some (members, rest)) :
    readMembers (n + 1) ('"' :: cs) = some ((some s, d) :: members, rest) := by
  simp only [readMembers, skipBlanks_cons (c := '"') rfl, name, skipBlanks_cons (c := ':') rfl,
    read, skipBlanks_cons (c := ',') rfl, more, Option.bind_eq_bind, Option.bind_some]
  rfl

end Steps

/-- Items are read one after the other. -/
theorem readItems_text {items : List Document} (each : ∀ d ∈ items, d.Reads) (some : items ≠ [])
    {n : Nat} (rest : List Char) (enough : 2 * (itemsText items).toList.length + 1 ≤ n) :
    readItems n ((itemsText items).toList ++ ']' :: rest) = .some (items, rest) := by
  induction items generalizing n with
  | nil => exact absurd rfl some
  | cons d items ih =>
      rcases List.forall_mem_cons.1 each with ⟨first, others⟩
      obtain ⟨n, rfl⟩ := Nat.exists_eq_succ_of_ne_zero (Nat.ne_of_gt (Nat.zero_lt_of_lt enough))
      cases items with
      | nil =>
          rw [itemsText] at enough ⊢
          exact readItems_last (first n _ (by omega) (stops_cons (by simp) rest))
      | cons next items =>
          rw [toList_items] at enough ⊢
          simp only [List.length_append, List.length_cons] at enough
          rw [List.append_assoc, List.cons_append]
          -- The comma pays for the next item.
          exact readItems_more (first n _ (by omega) (stops_cons (by simp) _))
            (ih others (List.cons_ne_nil _ _) (by omega))

/-- So are members. -/
theorem readMembers_text {members : List (Option String × Document)}
    (named : ∀ m ∈ members, m.1.isSome = true) (each : ∀ m ∈ members, m.2.Reads)
    (some : members ≠ []) {n : Nat} (rest : List Char)
    (enough : 2 * (membersText members).toList.length + 1 ≤ n) :
    readMembers n ((membersText members).toList ++ '}' :: rest) = .some (members, rest) := by
  induction members generalizing n with
  | nil => exact absurd rfl some
  | cons member members ih =>
      rcases member with ⟨name, d⟩
      rcases List.forall_mem_cons.1 named with ⟨nameThere, namesThere⟩
      rcases List.forall_mem_cons.1 each with ⟨first, others⟩
      change d.Reads at first
      obtain ⟨s, rfl⟩ := Option.isSome_iff_exists.1 nameThere
      obtain ⟨n, rfl⟩ := Nat.exists_eq_succ_of_ne_zero (Nat.ne_of_gt (Nat.zero_lt_of_lt enough))
      -- The last member ends at the brace, any other one at the comma in front of the next.
      cases members with
      | nil =>
          rw [toList_member] at enough ⊢
          simp only [List.length_cons, List.length_append] at enough
          simp only [List.cons_append, List.append_assoc]
          exact readMembers_last (readString_text s _ (by omega))
            (first n _ (by omega) (stops_cons (by simp) rest))
      | cons next members =>
          rw [toList_members] at enough ⊢
          simp only [List.length_cons, List.length_append] at enough
          simp only [List.cons_append, List.append_assoc]
          exact readMembers_more (readString_text s _ (by omega))
            (first n _ (by omega) (stops_cons (by simp) _))
            (ih namesThere others (List.cons_ne_nil _ _) (by omega))

theorem isBlank_of_isDigit {c : Char} (digit : c.isDigit = true) : isBlank c = false := by
  by_contra blank
  simp only [isBlank, Bool.not_eq_false, Bool.or_eq_true, beq_iff_eq] at blank
  rcases blank with ((rfl | rfl) | rfl) | rfl <;> cases digit

/-- A text begins with a token, and not with the one that ends an array. -/
theorem Document.Plain.begins {d : Document} (plain : d.Plain) :
    ∃ c rest, d.text.toList = c :: rest ∧ isBlank c = false ∧ c ≠ ']' := by
  cases plain with
  | null => exact ⟨_, _, rfl, rfl, by decide⟩
  | @bool value => cases value <;> exact ⟨_, _, rfl, rfl, by decide⟩
  | @number n =>
      rcases exists_toDigits n with ⟨c, ds, written, digit⟩
      refine ⟨c, ds, by rw [Document.ofNat, toList_number, chars_ofNat, written],
        isBlank_of_isDigit digit, ?_⟩
      rintro rfl
      cases digit
  | string => exact ⟨_, _, toList_string _, rfl, by decide⟩
  | array => exact ⟨_, _, toList_array, rfl, by decide⟩
  | object => exact ⟨_, _, toList_object, rfl, by decide⟩

/-- What begins with a digit is a number. -/
theorem readValue_digit {c : Char} (digit : c.isDigit = true) (n : Nat) (rest : List Char) :
    readValue (n + 1) (c :: rest) =
      (readNumeral (c :: rest)).map fun (numeral, rest) => (.number numeral, rest) := by
  rw [readValue, skipBlanks_cons (isBlank_of_isDigit digit)]
  -- No value of another kind begins with a digit.
  split
  case h_8 => rfl
  all_goals next same => cases same <;> cases digit

/-- An array is read by its items. -/
theorem readValue_array {cs : List Char} {items : List Document} {n : Nat} {rest : List Char}
    (begins : ∃ c tail, cs = c :: tail ∧ isBlank c = false ∧ c ≠ ']')
    (read : readItems n cs = some (items, rest)) :
    readValue (n + 1) ('[' :: cs) = some (.array items, rest) := by
  rcases begins with ⟨c, tail, rfl, token, notClosed⟩
  simp only [readValue, skipBlanks_cons (c := '[') rfl, skipBlanks_cons token]
  split
  · next same => exact absurd (List.cons.inj same).1 notClosed
  · rw [read]
    rfl

/-- An object is read by its members. -/
theorem readValue_object {cs : List Char} {members : List (Option String × Document)} {n : Nat}
    {rest : List Char} (read : readMembers n ('"' :: cs) = some (members, rest)) :
    readValue (n + 1) ('{' :: '"' :: cs) = some (.object members, rest) := by
  simp only [readValue, skipBlanks_cons (c := '{') rfl, skipBlanks_cons (c := '"') rfl]
  show Option.map _ (readMembers n ('"' :: cs)) = _
  rw [read]
  rfl

/-- The text of items begins as the first of them does. -/
theorem begins_items {items : List Document} (each : ∀ d ∈ items, d.Plain) (some : items ≠ [])
    (rest : List Char) : ∃ c tail, (itemsText items).toList ++ rest = c :: tail ∧
      isBlank c = false ∧ c ≠ ']' := by
  cases items with
  | nil => exact absurd rfl some
  | cons d items =>
      rcases (each d List.mem_cons_self).begins with ⟨c, tail, written, token, begins⟩
      cases items with
      | nil => exact ⟨c, tail ++ rest, by rw [itemsText, written, List.cons_append], token, begins⟩
      | cons next items =>
          refine ⟨c, tail ++ ',' :: (itemsText (next :: items)).toList ++ rest, ?_, token, begins⟩
          rw [toList_items, written, List.cons_append, List.cons_append]

/-- The text of members begins with a name. -/
theorem begins_members {members : List (Option String × Document)}
    (named : ∀ m ∈ members, m.1.isSome = true) (some : members ≠ []) :
    ∃ cs, (membersText members).toList = '"' :: cs := by
  cases members with
  | nil => exact absurd rfl some
  | cons member members =>
      rcases member with ⟨name, d⟩
      obtain ⟨s, rfl⟩ := Option.isSome_iff_exists.1 (named _ List.mem_cons_self)
      cases members with
      | nil => exact ⟨_, toList_member⟩
      | cons next members => exact ⟨_, toList_members⟩

/-- There is something to read, so the reader may begin. -/
theorem Document.Plain.reads_of_succ {d : Document} (plain : d.Plain)
    (read : ∀ n rest, 2 * d.text.toList.length ≤ n + 1 → Stops rest →
      readValue (n + 1) (d.text.toList ++ rest) = some (d, rest)) : d.Reads := by
  intro n rest enough stops
  rcases plain.begins with ⟨c, tail, written, -⟩
  obtain ⟨n, rfl⟩ : ∃ m, n = m + 1 := by
    rw [written, List.length_cons] at enough
    exact Nat.exists_eq_succ_of_ne_zero (by omega)
  exact read n rest enough stops

/-- The text of a plain document is read, wherever it stands. -/
theorem Document.Plain.reads {d : Document} (plain : d.Plain) : d.Reads := by
  induction plain with
  | null => exact Plain.null.reads_of_succ fun _ _ _ _ => rfl
  | @bool value => exact Plain.bool.reads_of_succ fun _ _ _ _ => by cases value <;> rfl
  | @number k =>
      refine Plain.number.reads_of_succ fun n rest _ stops => ?_
      have read := readNumeral_ofNat stops k
      rcases exists_toDigits k with ⟨c, ds, written, digit⟩
      rw [Document.ofNat, toList_number]
      rw [chars_ofNat, written, List.cons_append] at read ⊢
      rw [readValue_digit digit, read]
      rfl
  | @string s =>
      refine Plain.string.reads_of_succ fun n rest enough _ => ?_
      rw [toList_string] at enough ⊢
      simp only [List.length_cons, List.length_append] at enough
      have read := readString_text s rest (n := n) (by omega)
      simp only [List.cons_append, List.append_assoc, List.nil_append, readValue,
        skipBlanks_cons (c := '"') rfl, read, Option.map_some]
  | @array items each ih =>
      refine (Plain.array each).reads_of_succ fun n rest enough _ => ?_
      rw [toList_array] at enough ⊢
      simp only [List.length_cons, List.length_append] at enough
      by_cases none : items = []
      · subst none
        rfl
      -- The bracket that opens it has paid for going one further down.
      · have read := readItems_text ih none (n := n) rest (by omega)
        rw [List.cons_append, List.append_assoc]
        exact readValue_array (begins_items each none _) read
  | @object members named each ih =>
      refine (Plain.object named each).reads_of_succ fun n rest enough _ => ?_
      rw [toList_object] at enough ⊢
      simp only [List.length_cons, List.length_append] at enough
      by_cases none : members = []
      · subst none
        rfl
      · have read := readMembers_text named ih none (n := n) rest (by omega)
        rcases begins_members named none with ⟨cs, written⟩
        rw [List.cons_append, List.append_assoc]
        rw [written, List.cons_append] at read ⊢
        exact readValue_object read

/-- A plain document is what its text says. -/
theorem read?_text {d : Document} (plain : d.Plain) : read? d.text = some d := by
  have read := plain.reads (2 * d.text.toList.length + 2) [] (by omega) nofun
  rw [List.append_nil] at read
  rw [read?]
  simp only [read]
  rfl

/-- No other plain document has the same text. -/
theorem Document.Plain.eq_of_text_eq {d e : Document} (left : d.Plain) (right : e.Plain)
    (same : d.text = e.text) : d = e := by
  apply Option.some.inj
  rw [← read?_text left, ← read?_text right, same]

end Json

end EffectKernel
