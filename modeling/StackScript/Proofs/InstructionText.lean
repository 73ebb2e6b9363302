import Mathlib
import StackScript.Text.Column
import StackScript.Instruction

/-!
# Reading instructions back

The text of an instruction in a listing says which instruction it is. A word without blanks opens
it, what follows is read as that word requires, and a quoted string gives up its characters one
after the other, whatever they are.
-/

namespace StackScript

namespace Text

/-! ## Numbers -/

/-- The value of a hexadecimal digit. -/
def hexDigitValue (c : Char) : Nat :=
  if c.isDigit then c.toNat - '0'.toNat else c.toNat - 'a'.toNat + 10

/-- The number that hexadecimal digits stand for. -/
def hexValue (digits : List Char) : Nat :=
  digits.foldl (fun n c => 16 * n + hexDigitValue c) 0

theorem hexDigitValue_digitChar : ∀ digit < 16, hexDigitValue digit.digitChar = digit := by
  decide

theorem hexValue_toDigits (n : Nat) : hexValue (Nat.toDigits 16 n) = n := by
  induction n using Nat.strongRecOn with
  | ind n ih =>
      by_cases hsmall : n < 16
      · rw [Nat.toDigits_of_lt_base hsmall]
        simpa [hexValue] using hexDigitValue_digitChar n hsmall
      · have hlast := hexDigitValue_digitChar (n % 16) (Nat.mod_lt _ (by decide))
        have hfront := ih (n / 16) (by omega)
        rw [hexValue] at hfront
        rw [Nat.toDigits_of_base_le (by decide) (by omega), hexValue, List.foldl_append, hfront]
        simp only [List.foldl_cons, List.foldl_nil, hlast]
        omega

theorem mem_toDigits_sixteen {n : Nat} {c : Char} (h : c ∈ Nat.toDigits 16 n) :
    ∃ digit < 16, c = digit.digitChar := by
  induction n using Nat.strongRecOn with
  | ind n ih =>
      by_cases hsmall : n < 16
      · rw [Nat.toDigits_of_lt_base hsmall, List.mem_singleton] at h
        exact ⟨n, hsmall, h⟩
      · rw [Nat.toDigits_of_base_le (by decide) (by omega), List.mem_append,
          List.mem_singleton] at h
        rcases h with h | h
        · exact ih (n / 16) (by omega) h
        · exact ⟨n % 16, Nat.mod_lt _ (by decide), h⟩

/-- A hexadecimal digit is neither a brace nor a line end. -/
theorem ne_of_mem_toDigits {n : Nat} {c : Char} (h : c ∈ Nat.toDigits 16 n) :
    c ≠ '\x7d' ∧ c ≠ '\n' := by
  have hdigits : ∀ digit < 16, digit.digitChar ≠ '\x7d' ∧ digit.digitChar ≠ '\n' := by decide
  obtain ⟨digit, hdigit, rfl⟩ := mem_toDigits_sixteen h
  exact hdigits digit hdigit

/-- A natural number is written with digits only. -/
theorem isDigit_of_mem_toString {n : Nat} {c : Char} (h : c ∈ (toString n).toList) :
    c.isDigit = true := by
  rw [Nat.toString_eq_ofList_toDigits, String.toList_ofList] at h
  exact Nat.isDigit_of_mem_toDigits (by decide) (by decide) h

theorem toNat?_ofList_toDigits (n : Nat) : (String.ofList (Nat.toDigits 10 n)).toNat? = some n := by
  rw [← Nat.repr_eq_ofList_toDigits, Nat.toNat?_repr]

/-- An integer is written with digits and a sign. -/
theorem isDigit_of_mem_int {n : Int} {c : Char} (h : c ∈ (toString n).toList) :
    c.isDigit = true ∨ c = '-' := by
  have hnat : ∀ {m : Nat}, c ∈ m.repr.toList → c.isDigit = true := isDigit_of_mem_toString
  rw [Int.toString_eq_repr, Int.repr_eq_if] at h
  split at h
  · exact .inl (hnat h)
  · rw [String.toList_append, List.mem_append] at h
    rcases h with h | h
    · exact .inr (List.mem_singleton.1 h)
    · exact .inl (hnat h)

/-- A position is written with digits only. -/
theorem isDigit_of_mem_position {n : Nat} {c : Char} (h : c ∈ (position n).toList) :
    c.isDigit = true := by
  rw [position, filled, String.toList_ofList, List.leftpad, List.mem_append] at h
  rcases h with h | h
  · rw [List.eq_of_mem_replicate h]
    rfl
  · exact Nat.isDigit_of_mem_toDigits (by decide) (by decide) h

theorem position_ne_nil (n : Nat) : (position n).toList ≠ [] := by
  simp [position, filled, List.leftpad]

/-! ## Quoted strings -/

/-- The character that a letter after a backslash stands for. -/
def unescapeLetter (letter : Char) : Char :=
  if letter = '0' then '\x00'
  else if letter = 't' then '\t'
  else if letter = 'r' then '\r'
  else if letter = 'n' then '\n'
  else letter

/-- The characters that an escaped text stands for. -/
def unescape : List Char → List Char
  | [] => []
  | '\\' :: 'u' :: '\x7b' :: rest =>
      Char.ofNat (hexValue (rest.takeWhile (· ≠ '\x7d'))) ::
        unescape (rest.dropWhile (· ≠ '\x7d')).tail
  | '\\' :: letter :: rest => unescapeLetter letter :: unescape rest
  | c :: rest => c :: unescape rest
termination_by text => text.length
decreasing_by
  · have hlength := List.length_dropWhile_le (· ≠ '\x7d') rest
    simp only [List.length_tail, List.length_cons]
    omega
  · simp only [List.length_cons]
    omega
  · simp

theorem unescape_code {digits : List Char} (h : '\x7d' ∉ digits) (rest : List Char) :
    unescape (['\\', 'u', '\x7b'] ++ digits ++ ['\x7d'] ++ rest) =
      Char.ofNat (hexValue digits) :: unescape rest := by
  have hdigits : ∀ c ∈ digits, decide (c ≠ '\x7d') = true :=
    fun c hc => decide_eq_true fun heq => h (heq ▸ hc)
  simp only [List.cons_append, List.nil_append, List.append_assoc]
  rw [unescape, List.takeWhile_append_of_pos hdigits, List.dropWhile_append_of_pos hdigits,
    List.takeWhile_cons_of_neg (by simp), List.dropWhile_cons_of_neg (by simp), List.append_nil,
    List.tail_cons]

theorem unescape_letter {letter : Char} (h : letter ≠ 'u') (rest : List Char) :
    unescape ('\\' :: letter :: rest) = unescapeLetter letter :: unescape rest := by
  rw [unescape]
  exact fun _ hu => absurd hu h

theorem unescape_plain {c : Char} (h : c ≠ '\\') (rest : List Char) :
    unescape (c :: rest) = c :: unescape rest := by
  rw [unescape.eq_def]
  split <;> simp_all

/-- The escaped form of a character is read as that character, whatever follows it. -/
theorem unescape_escape_append (c : Char) (rest : List Char) :
    unescape (escape c ++ rest) = c :: unescape rest := by
  -- all escapes but the numbers have one letter behind the backslash, which is not that of a number
  have hletter : ∀ letter, letter ≠ 'u' → unescapeLetter letter = c →
      unescape (['\\', letter] ++ rest) = c :: unescape rest := by
    rintro letter hu rfl
    exact unescape_letter hu rest
  unfold escape
  split_ifs with hnull htab hreturn hnewline hquote hbackslash hunprintable
  · exact hletter '0' (by decide) hnull.symm
  · exact hletter 't' (by decide) htab.symm
  · exact hletter 'r' (by decide) hreturn.symm
  · exact hletter 'n' (by decide) hnewline.symm
  · exact hletter '"' (by decide) hquote.symm
  · exact hletter '\\' (by decide) hbackslash.symm
  · have hdigits : '\x7d' ∉ Nat.toDigits 16 c.toNat := fun hmem => (ne_of_mem_toDigits hmem).1 rfl
    rw [unescape_code hdigits, hexValue_toDigits, Char.ofNat_toNat]
  · exact unescape_plain hbackslash rest

theorem unescape_flatMap_escape (text : List Char) : unescape (text.flatMap escape) = text := by
  induction text with
  | nil => rw [List.flatMap_nil, unescape]
  | cons c rest ih => rw [List.flatMap_cons, unescape_escape_append, ih]

/-- The text that a quoted text stands for. -/
def unquoted (text : List Char) : String :=
  String.ofList (unescape text.tail.dropLast)

theorem unquoted_quoted (text : String) : unquoted (quoted text).toList = text := by
  rw [unquoted, quoted, String.toList_ofList, List.cons_append, List.tail_cons,
    List.dropLast_concat, unescape_flatMap_escape, String.ofList_toList]

theorem newline_notMem_escape (c : Char) : '\n' ∉ escape c := by
  unfold escape
  split_ifs with hnull htab hreturn hnewline hquote hbackslash hunprintable
  · decide
  · decide
  · decide
  · decide
  · decide
  · decide
  · have hdigits : '\n' ∉ Nat.toDigits 16 c.toNat := fun hmem => (ne_of_mem_toDigits hmem).2 rfl
    simpa using hdigits
  · simpa using Ne.symm hnewline

/-- A quoted text stands on one line. -/
theorem newline_notMem_quoted (text : String) : '\n' ∉ (quoted text).toList := by
  have hescaped : '\n' ∉ text.toList.flatMap escape := by
    intro hmem
    obtain ⟨c, -, hc⟩ := List.mem_flatMap.1 hmem
    exact newline_notMem_escape c hc
  simpa [quoted] using hescaped

/-! ## Words -/

/-- The text in front of the first blank. -/
def firstWord (text : List Char) : List Char :=
  text.takeWhile (· ≠ ' ')

/-- The text behind the first blank. -/
def afterWord (text : List Char) : List Char :=
  (text.dropWhile (· ≠ ' ')).tail

variable {word : List Char}

theorem firstWord_append (h : ' ' ∉ word) (rest : List Char) :
    firstWord (word ++ ' ' :: rest) = word := by
  have hword : ∀ c ∈ word, decide (c ≠ ' ') = true :=
    fun c hc => decide_eq_true fun heq => h (heq ▸ hc)
  rw [firstWord, List.takeWhile_append_of_pos hword, List.takeWhile_cons_of_neg (by simp),
    List.append_nil]

theorem firstWord_eq_self (h : ' ' ∉ word) : firstWord word = word :=
  List.takeWhile_eq_self_iff.2 fun _ hc => decide_eq_true fun heq => h (heq ▸ hc)

theorem afterWord_append (h : ' ' ∉ word) (rest : List Char) :
    afterWord (word ++ ' ' :: rest) = rest := by
  have hword : ∀ c ∈ word, decide (c ≠ ' ') = true :=
    fun c hc => decide_eq_true fun heq => h (heq ▸ hc)
  rw [afterWord, List.dropWhile_append_of_pos hword, List.dropWhile_cons_of_neg (by simp),
    List.tail_cons]

end Text

open Text

/-! ## Instructions -/

/-- The literal that a text of a listing is. -/
def Literal.ofText? (text : List Char) : Option Literal :=
  if text.head? = some '"' then some (.str (unquoted text))
  else (String.ofList text).toInt?.map fun value => .int (Int64.ofInt value)

theorem Literal.ofText?_render (literal : Literal) :
    ofText? literal.render.toList = some literal := by
  cases literal with
  | int value =>
      have hhead : (toString value.toInt).toList.head? ≠ some '"' := by
        intro hquote
        have hmem := isDigit_of_mem_int (List.mem_of_head? hquote)
        exact absurd hmem (by decide)
      rw [render, ofText?, if_neg hhead, String.ofList_toList, Int.toString_eq_repr,
        Int.toInt?_repr, Option.map_some, Int64.ofInt_toInt]
  | str text =>
      have hhead : (quoted text).toList.head? = some '"' := by simp [quoted]
      rw [render, ofText?, if_pos hhead, unquoted_quoted]

/-- The operation that a word of a listing stands for. -/
def Operator.ofMnemonic? (word : String) : Option Operator :=
  [.add, .sub, .mul, .div, .eq, .gt, .lt].find? (·.mnemonic = word)

namespace Instruction

/-- The instruction that a word and what follows it stand for. -/
def ofWord? (word : String) (operands : List Char) : Option Instruction :=
  let slot? := (String.ofList (firstWord operands)).toNat?
  let type? := TypeTag.ofName? (String.ofList (afterWord operands))
  if word = "PUSH" then (Literal.ofText? operands).map .push
  else if word = "LOAD_GLOBAL" then some (.loadGlobal (String.ofList operands))
  else if word = "ASSIGN_GLOBAL" then some (.assignGlobal (String.ofList operands))
  else if word = "LOAD_LOCAL" then slot?.bind fun slot => type?.map (.loadLocal slot)
  else if word = "SET_LOCAL" then slot?.bind fun slot => type?.map (.setLocal slot)
  else if word = "INVOKE" then (String.ofList operands).toNat?.map .invoke
  else if word = "RETURN" then some .ret
  else if word = "JUMP_IF_ZERO" then (String.ofList operands).toNat?.map .jumpIfZero
  else if word = "POP" then some .pop
  else (Operator.ofMnemonic? word).map .binary

/-- The instruction that a text of a listing is. -/
def ofText? (text : List Char) : Option Instruction :=
  ofWord? (String.ofList (firstWord text)) (afterWord text)

theorem blank_notMem_mnemonic (instruction : Instruction) :
    ' ' ∉ instruction.mnemonic.toList := by
  cases instruction with
  | binary operator => cases operator <;> decide
  | _ => simp [mnemonic]

theorem ofText?_word (instruction : Instruction) :
    ofText? instruction.mnemonic.toList =
      ofWord? instruction.mnemonic (afterWord instruction.mnemonic.toList) := by
  rw [ofText?, firstWord_eq_self instruction.blank_notMem_mnemonic, String.ofList_toList]

theorem ofText?_append (instruction : Instruction) (operands : String) :
    ofText? (instruction.mnemonic ++ " " ++ operands).toList =
      ofWord? instruction.mnemonic operands.toList := by
  have hblank := instruction.blank_notMem_mnemonic
  have htext : (instruction.mnemonic ++ " " ++ operands).toList =
      instruction.mnemonic.toList ++ ' ' :: operands.toList := by simp
  rw [ofText?, htext, firstWord_append hblank, afterWord_append hblank, String.ofList_toList]

theorem ofText?_append_append (instruction : Instruction) (first second : String) :
    ofText? (instruction.mnemonic ++ " " ++ first ++ " " ++ second).toList =
      ofWord? instruction.mnemonic (first ++ " " ++ second).toList := by
  rw [← ofText?_append, ← String.append_assoc, ← String.append_assoc]

/-- The text of an instruction is read as that instruction. -/
theorem ofText?_render (instruction : Instruction) :
    ofText? instruction.render.toList = some instruction := by
  cases instruction with
  | push literal =>
      rw [render, ofText?_append]
      simp [ofWord?, mnemonic, Literal.ofText?_render]
  | loadGlobal name | assignGlobal name =>
      rw [render, ofText?_append]
      simp [ofWord?, mnemonic]
  | loadLocal slot type | setLocal slot type =>
      -- the slot ends at the blank in front of the type
      have hblank : ' ' ∉ (toString slot).toList := fun hmem =>
        absurd (isDigit_of_mem_toString hmem) (by decide)
      have hoperands : (toString slot ++ " " ++ type.name).toList =
          (toString slot).toList ++ ' ' :: type.name.toList := by simp
      rw [render, ofText?_append_append, hoperands]
      simp only [ofWord?, firstWord_append hblank, afterWord_append hblank]
      simp [mnemonic, toNat?_ofList_toDigits, TypeTag.ofName?_name]
  | invoke n | jumpIfZero n =>
      rw [render, ofText?_append]
      simp [ofWord?, mnemonic, toNat?_ofList_toDigits]
  | binary operator =>
      rw [render, ofText?_word]
      cases operator <;> decide
  | ret | pop =>
      rw [render, ofText?_word]
      decide

/-- Different instructions have different texts. -/
theorem render_injective {left right : Instruction} (h : left.render = right.render) :
    left = right := by
  have hleft := ofText?_render left
  rw [h, ofText?_render] at hleft
  exact (Option.some.inj hleft).symm

end Instruction

end StackScript
