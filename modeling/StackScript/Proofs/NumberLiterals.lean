import Mathlib
import StackScript.Proofs.Emitter
import StackScript.Proofs.LexicalGrammar

/-!
# Numbers in a script

A number is a digit with any digits and dots after it. It stands for the digits before its first
dot, however many there are: a value of at most 2^63 - 1 is pushed as it is, and any other one is an
error that shows the whole number. So the decimal text of such a value, with any fraction, is
compiled to that value.
-/

namespace StackScript

open Token

/-- The value of decimal digits. The last one counts once, the one before it ten times, and so
on. -/
def decimalValue (digits : List Char) : Nat :=
  Nat.ofDigits 10 (digits.reverse.map fun c => c.toNat - '0'.toNat)

/-- As a term, the token is compiled to the one instruction that pushes an integer. -/
def Token.PushedAs (token : Token) (value : Int64) : Prop :=
  (∀ state, Parser.term token state = .ok (.literal (.int value)) state) ∧
  ∀ emitter : Emitter, Emit.term token emitter =
    .ok () { emitter with code := emitter.code.push (.push (.int value)) }

/-- As a term, the token is refused as a number. The error holds its line and its whole text, and
nothing is written. -/
def Token.RefusedAsNumber (token : Token) : Prop :=
  (∀ state, Parser.term token state = .error (.invalidNumber token.line token.text) state) ∧
  ∀ emitter, Emit.term token emitter =
    .error (.error (.invalidNumber token.line token.text)) emitter

/-! ## Values -/

theorem decimalValue_concat (digits : List Char) (last : Char) :
    decimalValue (digits ++ [last]) = 10 * decimalValue digits + (last.toNat - '0'.toNat) := by
  simp only [decimalValue, List.reverse_append, List.reverse_singleton, List.singleton_append,
    List.map_cons, Nat.ofDigits_cons]
  exact Nat.add_comm _ _

/-- Digits are summed up from the first one on. -/
theorem ofDigitChars_eq_decimalValue (digits : List Char) :
    Nat.ofDigitChars 10 digits 0 = decimalValue digits := by
  induction digits using List.reverseRecOn with
  | nil => rfl
  | append_singleton digits last ih =>
      rw [Nat.ofDigitChars_append, ih, decimalValue_concat, Nat.ofDigitChars_cons]
      rfl

/-- The digits before the first dot are all that comes before it. -/
theorem takeWhile_isDigit {text : List Char} (h : ∀ c ∈ text, c.isDigit = true ∨ c = '.') :
    text.takeWhile Char.isDigit = text.takeWhile (· ≠ '.') := by
  induction text with
  | nil => rfl
  | cons first rest ih =>
      obtain ⟨hfirst, hrest⟩ := List.forall_mem_cons.1 h
      rcases hfirst with hdigit | rfl
      · have hdot : first ≠ '.' := by
          rintro rfl
          cases hdigit
        rw [List.takeWhile_cons_of_pos hdigit, List.takeWhile_cons_of_pos (by simpa using hdot),
          ih hrest]
      · rfl

/-! ## Terms -/

variable {first : Char} {more : List Char}

theorem Token.pushedAs_of_numberValue? {token : Token} {value : Int64}
    (hkind : token.kind = .number) (hvalue : Parser.numberValue? token.text = some value) :
    token.PushedAs value := by
  refine ⟨fun state => ?_, fun emitter => ?_⟩
  · unfold Parser.term
    simp only [hkind, hvalue]
    rfl
  · unfold Emit.term
    simp only [hkind, hvalue]
    simp [Emit.write, Emit.emit, bind, EStateM.bind, pure, EStateM.pure]

theorem Token.refusedAsNumber_of_numberValue? {token : Token} (hkind : token.kind = .number)
    (hvalue : Parser.numberValue? token.text = none) : token.RefusedAsNumber := by
  refine ⟨fun state => ?_, fun emitter => ?_⟩
  · unfold Parser.term
    simp only [hkind, hvalue]
    rfl
  · unfold Emit.term
    simp only [hkind, hvalue]
    rfl

/-- What a number is compiled to is told by the value of the digits before its first dot. -/
theorem number_compiled (hfirst : first.isDigit = true)
    (hmore : ∀ c ∈ more, c.isDigit = true ∨ c = '.') (line : Nat) :
    (decimalValue ((first :: more).takeWhile Char.isDigit) ≤ 2 ^ 63 - 1 →
      ∃ value : Int64, value.toInt = decimalValue ((first :: more).takeWhile Char.isDigit) ∧
        Token.PushedAs ⟨.number, String.ofList (first :: more), line⟩ value) ∧
    (2 ^ 63 - 1 < decimalValue ((first :: more).takeWhile Char.isDigit) →
      Token.RefusedAsNumber ⟨.number, String.ofList (first :: more), line⟩) := by
  have hvalue := Parser.numberValue?_eq hfirst fun c hc => isNumberPart_iff.2 (hmore c hc)
  rw [← takeWhile_isDigit (List.forall_mem_cons.2 ⟨.inl hfirst, hmore⟩),
    ofDigitChars_eq_decimalValue] at hvalue
  generalize decimalValue ((first :: more).takeWhile Char.isDigit) = whole at hvalue
  have hlimit : Parser.integerLimit = 2 ^ 63 := rfl
  refine ⟨fun hfits => ⟨Int64.ofNat whole, ?_, ?_⟩, fun hlarge => ?_⟩
  · exact Int64.toInt_ofNat_of_lt (by omega)
  · rw [if_pos (by omega)] at hvalue
    exact pushedAs_of_numberValue? rfl hvalue
  · rw [if_neg (by omega)] at hvalue
    exact refusedAsNumber_of_numberValue? rfl hvalue

/-- The decimal text of a number stands for it. -/
theorem decimalValue_toDigits (n : Nat) : decimalValue (Nat.toDigits 10 n) = n := by
  rw [← ofDigitChars_eq_decimalValue]
  exact Nat.ofDigitChars_toDigits (by decide) (by decide)

/-- A fraction after the decimal text of a number is left out. -/
theorem rendered_number_compiled {n : Nat} {fraction : List Char} (hn : n ≤ 2 ^ 63 - 1)
    (hfraction : ∀ c ∈ fraction, c.isDigit = true ∨ c = '.')
    (hdot : ∀ c ∈ fraction.head?, c = '.') (line : Nat) :
    ∃ value : Int64, value.toInt = n ∧
      Token.PushedAs ⟨.number, toString n ++ String.ofList fraction, line⟩ value := by
  have hdigits : ∀ c ∈ Nat.toDigits 10 n, c.isDigit = true := fun c hc =>
    Nat.isDigit_of_mem_toDigits (by decide) (by decide) hc
  have hends : ∀ c ∈ fraction.head?, ¬c.isDigit = true := by
    intro c hc
    rw [hdot c hc]
    decide
  have hwhole : (Nat.toDigits 10 n ++ fraction).takeWhile Char.isDigit = Nat.toDigits 10 n :=
    takeWhile_run hdigits hends
  rw [Nat.toString_eq_ofList_toDigits, ← String.ofList_append]
  cases htext : Nat.toDigits 10 n with
  | nil => exact absurd htext Nat.toDigits_ne_nil
  | cons first more =>
      rw [htext] at hdigits hwhole
      obtain ⟨hfirst, hmore⟩ := List.forall_mem_cons.1 hdigits
      have hparts : ∀ c ∈ more ++ fraction, c.isDigit = true ∨ c = '.' := by
        intro c hc
        exact (List.mem_append.1 hc).elim (fun hmem => .inl (hmore c hmem)) (hfraction c)
      have hcompiled := (number_compiled hfirst hparts line).1
      rw [← List.cons_append, hwhole, ← htext, decimalValue_toDigits] at hcompiled
      rw [← htext]
      exact hcompiled hn

/-- Numbers decode exactly. A digit with digits and dots after it is one token, on its line and with
its whole text. It is compiled to the value of the digits before the first dot if that is at most
2^63 - 1, and else refused with its whole text and its line. In particular every value up to
2^63 - 1 is what its decimal text is compiled to, with any fraction behind it. -/
theorem numbers_decode (line : Nat) :
    (∀ (first : Char) (more : List Char), first.isDigit = true →
      (∀ c ∈ more, c.isDigit = true ∨ c = '.') →
      (∀ after : List Char, (∀ c ∈ after.head?, ¬(c.isDigit = true ∨ c = '.')) →
        lexeme line first (more ++ after) =
          .ok (⟨.number, String.ofList (first :: more), line⟩, after)) ∧
      (decimalValue ((first :: more).takeWhile Char.isDigit) ≤ 2 ^ 63 - 1 →
        ∃ value : Int64, value.toInt = decimalValue ((first :: more).takeWhile Char.isDigit) ∧
          Token.PushedAs ⟨.number, String.ofList (first :: more), line⟩ value) ∧
      (2 ^ 63 - 1 < decimalValue ((first :: more).takeWhile Char.isDigit) →
        Token.RefusedAsNumber ⟨.number, String.ofList (first :: more), line⟩)) ∧
    (∀ (n : Nat) (fraction : List Char), n ≤ 2 ^ 63 - 1 →
      (∀ c ∈ fraction, c.isDigit = true ∨ c = '.') → (∀ c ∈ fraction.head?, c = '.') →
      ∃ value : Int64, value.toInt = n ∧
        Token.PushedAs ⟨.number, toString n ++ String.ofList fraction, line⟩ value) := by
  refine ⟨fun first more hfirst hmore => ⟨fun after hafter => ?_, ?_⟩, ?_⟩
  · obtain ⟨_, _, heq, hread⟩ := (Lexeme.number hfirst hmore hafter).read line
    obtain ⟨rfl, rfl⟩ := List.cons.inj heq
    exact hread
  · exact number_compiled hfirst hmore line
  · intro n fraction hn hfraction hdot
    exact rendered_number_compiled hn hfraction hdot line

/-- The largest value with a zero in front and two dots behind it, the first value that is too
large, and the text of a small value with a fraction. -/
theorem numbers_decode_at_limit :
    (∃ value : Int64, value.toInt = 9223372036854775807 ∧
      Token.PushedAs ⟨.number, "09223372036854775807.9.", 3⟩ value) ∧
    Token.RefusedAsNumber ⟨.number, "9223372036854775808.5", 3⟩ ∧
    ∃ value : Int64, value.toInt = 3 ∧ Token.PushedAs ⟨.number, "3.9", 3⟩ value := by
  let shared : List Char :=
    ['2', '2', '3', '3', '7', '2', '0', '3', '6', '8', '5', '4', '7', '7', '5', '8', '0']
  obtain ⟨hlexemes, hrendered⟩ := numbers_decode 3
  have hparts : ∀ text : List Char, text.all isNumberPart = true →
      ∀ c ∈ text, c.isDigit = true ∨ c = '.' :=
    fun text h c hc => isNumberPart_iff.1 (List.all_eq_true.1 h c hc)
  refine ⟨?_, ?_, ?_⟩
  · exact (hlexemes '0' ('9' :: (shared ++ ['7', '.', '9', '.'])) rfl (hparts _ rfl)).2.1
      (by cbv)
  · exact (hlexemes '9' (shared ++ ['8', '.', '5']) rfl (hparts _ rfl)).2.2 (by cbv)
  · exact hrendered 3 ['.', '9'] (by decide) (hparts _ rfl) (by simp)

end StackScript
