import Mathlib.Order.Basic
import StackScript.Proofs.Cursor
import StackScript.Proofs.Relocation
import StackScript.Proofs.Requests

/-!
# The parser goes forward and stops at the end

The compiler that keeps count does what the compiler without a count does: none of its checks of
progress ever fails. Besides, it asks the stream for nothing more once it was handed the end token,
a lexical error or nothing at all. What carries both is one invariant between the steps: if the
stream has ended, the end token was looked at and not taken, so it is what every reader meets next,
and there it stops. With what is known of code that is written in place, every block is compiled or
refused, and it takes no more rounds to do so than one more than there are items.
-/

namespace StackScript

/-! ## Records -/

/-- Nothing was asked after the stream had ended, and the items that were handed out and those that
are left make up the stream. -/
structure Meter.Orderly (items : List Item) (meter : Meter) : Prop where
  ended : ∀ answer ∈ meter.answers.tail, endsStream answer = false
  handed : meter.answers.reverse.filterMap id ++ meter.emitter.stream = items

/-- Between two steps at least `count` tokens were taken. If the stream has ended, its end was
looked at and not taken. -/
structure Meter.Past (items : List Item) (count : Nat) (meter : Meter) : Prop where
  orderly : meter.Orderly items
  waits : ∀ answer ∈ meter.answers.head?, endsStream answer = true →
    ∃ token ∈ meter.emitter.peeked, token.kind = .eof
  taken : count ≤ meter.taken

/-- A token was taken. Unless it is the end token, the next step can be made. -/
structure Meter.Took (items : List Item) (count : Nat) (token : Token) (meter : Meter) : Prop where
  orderly : meter.Orderly items
  past : token.kind ≠ .eof → meter.Past items count

/-- Two meters with the same record and the same input ahead. -/
structure Meter.Alike (meter meter' : Meter) : Prop where
  answers : meter'.answers = meter.answers
  taken : meter'.taken = meter.taken
  stream : meter'.emitter.stream = meter.emitter.stream
  peeked : meter'.emitter.peeked = meter.emitter.peeked

section Records

variable {items : List Item} {count count' : Nat} {meter meter' : Meter} {token : Token}

theorem Meter.Alike.orderly (h : meter.Alike meter') (horderly : meter.Orderly items) :
    meter'.Orderly items := by
  refine ⟨?_, ?_⟩
  · rw [h.answers]
    exact horderly.ended
  · rw [h.answers, h.stream]
    exact horderly.handed

theorem Meter.Alike.past (h : meter.Alike meter') (hpast : meter.Past items count) :
    meter'.Past items count := by
  refine ⟨h.orderly hpast.orderly, ?_, h.taken ▸ hpast.taken⟩
  rw [h.answers, h.peeked]
  exact hpast.waits

theorem Meter.Alike.took (h : meter.Alike meter') (htook : meter.Took items count token) :
    meter'.Took items count token :=
  ⟨h.orderly htook.orderly, fun hkind => h.past (htook.past hkind)⟩

namespace Meter.Past

variable (h : meter.Past items count)
include h

theorem mono (hcount : count' ≤ count) : meter.Past items count' :=
  ⟨h.orderly, h.waits, hcount.trans h.taken⟩

/-- The count may be taken as it stands. -/
theorem now : meter.Past items meter.taken :=
  ⟨h.orderly, h.waits, Nat.le_refl _⟩

/-- A place between two steps is one after any token. -/
theorem took (token : Token) : meter.Took items count token :=
  ⟨h.orderly, fun _ => h⟩

/-- While no token was looked at, no answer was the last one. -/
theorem unended (hpeeked : meter.emitter.peeked = none) :
    ∀ answer ∈ meter.answers, endsStream answer = false := by
  intro answer hanswer
  cases hanswers : meter.answers with
  | nil =>
      rw [hanswers] at hanswer
      cases hanswer
  | cons latest earlier =>
      have hwaits := h.waits
      have hended := h.orderly.ended
      rw [hanswers] at hanswer hwaits hended
      rcases List.mem_cons.1 hanswer with rfl | hearlier
      · by_contra hends
        obtain ⟨token, htoken, -⟩ := hwaits answer rfl (eq_true_of_ne_false hends)
        rw [hpeeked] at htoken
        cases htoken
      · exact hended answer hearlier

end Meter.Past

theorem Token.kind_ne_eof_of_isMark {symbol : String} (h : token.isMark symbol = true) :
    token.kind ≠ .eof :=
  fun hkind => Token.isMark_eq_false hkind symbol h

end Records

/-! ## Steps that ask for nothing -/

/-- The state that a computation ends in, with a result or without. -/
def stateAfter {ε σ α : Type} : EStateM.Result ε σ α → σ
  | .ok _ state => state
  | .error _ state => state

/-- A step that leaves the input as it is. -/
def Emit.Silent {α : Type} (step : Emit α) : Prop :=
  ∀ emitter, (stateAfter (step emitter)).stream = emitter.stream ∧
    (stateAfter (step emitter)).peeked = emitter.peeked

namespace Emit

variable {α β : Type}

theorem Silent.pure (value : α) : Silent (Pure.pure value) :=
  fun _ => ⟨rfl, rfl⟩

theorem Silent.get : Silent (MonadState.get : Emit Emitter) :=
  fun _ => ⟨rfl, rfl⟩

theorem Silent.fail (error : CompileError) : Silent (Checked.fail error : Emit α) :=
  fun _ => ⟨rfl, rfl⟩

theorem Silent.bind {step : Emit α} {next : α → Emit β} (h : Silent step)
    (hnext : ∀ value, Silent (next value)) : Silent (step >>= next) := by
  intro emitter
  obtain ⟨hstream, hpeeked⟩ := h emitter
  simp only [Bind.bind, EStateM.bind]
  cases hstep : step emitter with
  | error stop emitter' =>
      rw [hstep] at hstream hpeeked
      exact ⟨hstream, hpeeked⟩
  | ok value emitter' =>
      rw [hstep] at hstream hpeeked
      obtain ⟨hstream', hpeeked'⟩ := hnext value emitter'
      exact ⟨hstream'.trans hstream, hpeeked'.trans hpeeked⟩

theorem silent_enter (line : Nat) : Silent (enter line) := by
  intro emitter
  unfold enter
  split <;> exact ⟨rfl, rfl⟩

theorem silent_leave : Silent leave := by
  intro emitter
  unfold leave
  split <;> exact ⟨rfl, rfl⟩

theorem silent_emit (instruction : Instruction) : Silent (emit instruction) := by
  intro emitter
  simp only [emit, Array.size_push]
  exact ⟨rfl, rfl⟩

theorem silent_write (instruction : Instruction) : Silent (write instruction) :=
  (silent_emit instruction).bind fun _ => .pure ()

theorem silent_patch (index : Nat) : Silent (patch index) := by
  intro emitter
  simp only [patch, modify_eq, stateAfter]
  split <;> exact ⟨rfl, rfl⟩

theorem silent_find (table : IndexedTable) (name : String) :
    Silent (table.find name : Emit (Option Cell)) := by
  unfold IndexedTable.find
  cases table.byName[name]? with
  | none => exact .pure none
  | some slot =>
      change Silent (some <$> Checked.demand table.cells[slot]?)
      cases table.cells[slot]? <;> exact fun _ => ⟨rfl, rfl⟩

theorem silent_resolve (name : String) : Silent (resolve name) := by
  refine Silent.get.bind fun emitter => ?_
  split
  · exact .pure _
  · refine (silent_find _ name).bind fun found => ?_
    split <;> exact .pure _

theorem silent_term (token : Token) : Silent (term token) := by
  unfold term
  cases token.kind with
  | number =>
      simp only
      split
      · exact silent_write _
      · exact .fail _
  | string => exact silent_write _
  | identifier => exact (silent_resolve token.text).bind fun place => silent_write _
  | eof | operator | assign | punctuation => exact .fail _

theorem silent_declareLocal (line : Nat) (name : Token) (type : TypeTag) :
    Silent (declareLocal line name type) := by
  refine Silent.get.bind fun emitter => ?_
  split
  · exact .fail _
  · split
    · exact .fail _
    · exact fun _ => ⟨rfl, rfl⟩

end Emit

/-! ## With a count and without -/

namespace Metered

variable {α β : Type} {items : List Item}

/-- How the compiler that keeps count ends, beside the one that does not. Both succeed with the same
value, or both stop for the same reason, and they are left with the same emitter. -/
inductive Alongside (items : List Item) (good : α → Meter → Prop) :
    EStateM.Result (Stop CompileError) Emitter α → EStateM.Result (Stop CompileError) Meter α → Prop
  | ok {value : α} {meter : Meter} (h : good value meter) :
      Alongside items good (.ok value meter.emitter) (.ok value meter)
  | error {stop : Stop CompileError} {meter : Meter} (h : meter.Orderly items) :
      Alongside items good (.error stop meter.emitter) (.error stop meter)

/-- From here on, the compiler that keeps count does what the one without a count does. -/
def Follows (items : List Item) (metered : Metered α) (emit : Emit α) (good : α → Meter → Prop)
    (meter : Meter) : Prop :=
  Alongside items good (emit meter.emitter) (metered meter)

namespace Follows

variable {metered : Metered α} {emit : Emit α} {good good' : α → Meter → Prop} {meter : Meter}
  {count : Nat}

theorem of_ok {value : α} {meter' : Meter} (hmetered : metered meter = .ok value meter')
    (hemit : emit meter.emitter = .ok value meter'.emitter) (h : good value meter') :
    Follows items metered emit good meter := by
  unfold Follows
  rw [hmetered, hemit]
  exact .ok h

theorem of_error {stop : Stop CompileError} {meter' : Meter}
    (hmetered : metered meter = .error stop meter')
    (hemit : emit meter.emitter = .error stop meter'.emitter) (h : meter'.Orderly items) :
    Follows items metered emit good meter := by
  unfold Follows
  rw [hmetered, hemit]
  exact .error h

theorem pure {value : α} (h : good value meter) :
    Follows items (Pure.pure value) (Pure.pure value) good meter :=
  .ok h

theorem fail {error : CompileError} (h : meter.Orderly items) :
    Follows items (Checked.fail error) (Checked.fail error) good meter :=
  .error h

theorem undefined (h : meter.Orderly items) :
    Follows items Checked.undefined Checked.undefined good meter :=
  .error h

theorem bind {next : α → Metered β} {next' : α → Emit β} {post : β → Meter → Prop}
    (h : Follows items metered emit good meter)
    (hnext : ∀ value meter', good value meter' →
      Follows items (next value) (next' value) post meter') :
    Follows items (metered >>= next) (emit >>= next') post meter := by
  unfold Follows at h ⊢
  simp only [Bind.bind, EStateM.bind]
  generalize emit meter.emitter = plain, metered meter = counted at h
  cases h with
  | ok h => exact hnext _ _ h
  | error h => exact .error h

theorem mono (h : Follows items metered emit good meter)
    (himp : ∀ value meter', good value meter' → good' value meter') :
    Follows items metered emit good' meter := by
  unfold Follows at h ⊢
  generalize emit meter.emitter = plain, metered meter = counted at h
  cases h with
  | ok h => exact .ok (himp _ _ h)
  | error h => exact .error h

theorem ite {test : Prop} [Decidable test] {metered' : Metered α} {emit' : Emit α}
    (hyes : test → Follows items metered emit good meter)
    (hno : ¬test → Follows items metered' emit' good meter) :
    Follows items (if test then metered else metered') (if test then emit else emit') good
      meter := by
  by_cases htest : test
  · rw [if_pos htest, if_pos htest]
    exact hyes htest
  · rw [if_neg htest, if_neg htest]
    exact hno htest

/-- The count is looked at. -/
theorem counted {next : Meter → Metered α} (h : Follows items (next meter) emit good meter) :
    Follows items (get >>= next) emit good meter :=
  h

/-- Both look at their states. -/
theorem read {next : Meter → Metered α} {next' : Emitter → Emit α}
    (h : Follows items (next meter) (next' meter.emitter) good meter) :
    Follows items (get >>= next) (get >>= next') good meter :=
  h

/-- A check of progress passes. -/
theorem progressed {before : Nat} {next : Unit → Metered α} (hbefore : before < meter.taken)
    (h : Follows items (next ()) emit good meter) :
    Follows items (Metered.progressed before >>= next) emit good meter := by
  have hpasses : Metered.progressed before meter = .ok () meter := if_pos hbefore
  unfold Follows
  rw [bind_of_ok hpasses]
  exact h

theorem lift {step : Emit α} (hsilent : step.Silent) (h : meter.Orderly items) :
    Follows items (Metered.lift step) step (fun _ => meter.Alike) meter := by
  obtain ⟨hstream, hpeeked⟩ := hsilent meter.emitter
  cases hstep : step meter.emitter with
  | ok value emitter =>
      rw [hstep] at hstream hpeeked
      have hlift : Metered.lift step meter = .ok value { meter with emitter } := by
        simp only [Metered.lift, hstep]
      exact .of_ok hlift hstep ⟨rfl, rfl, hstream, hpeeked⟩
  | error stop emitter =>
      rw [hstep] at hstream hpeeked
      have hlift : Metered.lift step meter = .error stop { meter with emitter } := by
        simp only [Metered.lift, hstep]
      have halike : meter.Alike { meter with emitter } := ⟨rfl, rfl, hstream, hpeeked⟩
      exact .of_error hlift hstep (halike.orderly h)

/-- A step that asks for nothing keeps the place. -/
theorem keep {step : Emit α} (hsilent : step.Silent) (h : meter.Past items count) :
    Follows items (Metered.lift step) step (fun _ => Meter.Past items count) meter :=
  (lift hsilent h.orderly).mono fun _ _ halike => halike.past h

theorem attempt (h : Follows items metered emit (fun _ => Meter.Past items count) meter) :
    Follows items (Checked.attempt metered) (Checked.attempt emit)
      (fun result meter' => meter'.Orderly items ∧
        ∀ value, result = .ok value → meter'.Past items count) meter := by
  unfold Follows Checked.attempt at *
  generalize emit meter.emitter = plain, metered meter = counted at h
  cases h with
  | ok h => exact .ok ⟨h.orderly, fun _ _ => h⟩
  | @error stop meter' h =>
      cases stop with
      | error error =>
          refine .ok ⟨h, fun value hvalue => ?_⟩
          cases hvalue
      | undefined => exact .error h

/-- One level down, the record is the same. -/
theorem level {line : Nat} (horderly : meter.Orderly items)
    (h : ∀ meter', meter.Alike meter' →
      Follows items metered emit (fun _ => Meter.Past items count) meter') :
    Follows items (Metered.level line metered) (Emit.level line emit)
      (fun _ => Meter.Past items count) meter := by
  refine (lift (Emit.silent_enter line) horderly).bind fun _ entered hentered => ?_
  refine (h entered hentered).attempt.bind fun result reached hreached => ?_
  refine (lift Emit.silent_leave hreached.1).bind fun _ left hleft => ?_
  cases result with
  | ok value => exact .pure (hleft.past (hreached.2 value rfl))
  | error error => exact .fail (hleft.orderly hreached.1)

end Follows

end Metered

/-! ## Taking tokens -/

namespace Meter

open Metered

variable {items : List Item} {count : Nat} {meter : Meter} {token : Token}

/-- One more item is handed out. -/
theorem Orderly.pulled (h : meter.Orderly items)
    (hended : ∀ answer ∈ meter.answers, endsStream answer = false) (peeked : Option Token)
    (line taken : Nat) :
    Orderly items
      { meter with
        emitter := { meter.emitter with
          stream := meter.emitter.stream.tail, peeked, lastLine := line }
        answers := meter.emitter.stream.head? :: meter.answers
        taken } := by
  refine ⟨hended, ?_⟩
  have hhanded := h.handed
  cases hstream : meter.emitter.stream with
  | nil => simpa [hstream] using hhanded
  | cons item rest => simpa [hstream] using hhanded

namespace Past

variable (h : meter.Past items count)
include h

/-- The token that was looked at is taken. Unless it is the end token, it counts. -/
theorem took_peeked (hpeeked : meter.emitter.peeked = some token) :
    Took items (count + 1) token
      { meter with
        emitter := { meter.emitter with peeked := none }
        taken := meter.taken + if meter.isSpent then 0 else 1 } := by
  refine ⟨⟨h.orderly.ended, h.orderly.handed⟩, fun hkind => ?_⟩
  -- not the end token, so the latest answer is not the last one
  have hgoes : ∀ answer ∈ meter.answers.head?, endsStream answer = false := by
    intro answer hanswer
    by_contra hends
    obtain ⟨seen, hseen, heof⟩ := h.waits answer hanswer (eq_true_of_ne_false hends)
    rw [hpeeked] at hseen
    exact hkind (Option.some.inj hseen ▸ heof)
  have hspent : meter.isSpent = false := by
    unfold isSpent
    cases hlatest : meter.answers.head? with
    | none => rfl
    | some answer =>
        cases answer with
        | none => cases hgoes none hlatest
        | some item => rfl
  refine ⟨⟨h.orderly.ended, h.orderly.handed⟩, fun answer hanswer hends => ?_, ?_⟩
  · cases (hgoes answer hanswer).symm.trans hends
  · rw [hspent]
    exact Nat.succ_le_succ h.taken

theorem next :
    Follows items Metered.next Emit.next
      (fun token meter' => meter'.Took items (count + 1) token ∧
        ∀ seen ∈ meter.emitter.peeked, token = seen) meter := by
  obtain ⟨⟨stream, peeked, lastLine, depth, code, locals⟩, answers, taken⟩ := meter
  cases peeked with
  | some token => exact .of_ok rfl rfl ⟨h.took_peeked rfl, fun _ => Option.some.inj⟩
  | none =>
      have hpulled := h.orderly.pulled (h.unended rfl)
      have hunseen : ∀ token seen : Token, seen ∈ (none : Option Token) → token = seen := by
        intro token seen hseen
        cases hseen
      match stream with
      | [] =>
          refine .of_ok rfl rfl ⟨⟨hpulled none lastLine taken, ?_⟩, hunseen _⟩
          exact fun hkind => absurd rfl hkind
      | .error error :: rest => exact .of_error rfl rfl (hpulled none lastLine taken)
      | .ok token :: rest =>
          have horderly := hpulled none token.line (taken + 1)
          refine .of_ok rfl rfl ⟨⟨horderly, fun hkind => ⟨horderly, ?_, ?_⟩⟩, hunseen _⟩
          · intro answer hanswer hends
            cases hanswer
            exact absurd (of_decide_eq_true hends) hkind
          · exact Nat.succ_le_succ h.taken

/-- A token that was looked at is the one that is taken. -/
theorem next_peeked (hpeeked : meter.emitter.peeked = some token) (hkind : token.kind ≠ .eof) :
    Follows items Metered.next Emit.next (fun _ => Past items (count + 1)) meter := by
  refine h.next.mono fun taken meter' hnext => hnext.1.past ?_
  rw [hnext.2 token hpeeked]
  exact hkind

theorem peek :
    Follows items Metered.peek Emit.peek
      (fun token meter' => meter'.Past items count ∧ meter'.emitter.peeked = some token) meter := by
  obtain ⟨⟨stream, peeked, lastLine, depth, code, locals⟩, answers, taken⟩ := meter
  cases peeked with
  | some token => exact .of_ok rfl rfl ⟨h, rfl⟩
  | none =>
      have hpulled := h.orderly.pulled (h.unended rfl)
      match stream with
      | [] =>
          refine .of_ok rfl rfl ⟨⟨hpulled (some (.eof lastLine)) lastLine taken, ?_, h.taken⟩, rfl⟩
          exact fun _ _ _ => ⟨_, rfl, rfl⟩
      | .error error :: rest => exact .of_error rfl rfl (hpulled none lastLine taken)
      | .ok token :: rest =>
          refine .of_ok rfl rfl ⟨⟨hpulled (some token) token.line taken, ?_, h.taken⟩, rfl⟩
          intro answer hanswer hends
          cases hanswer
          exact ⟨token, rfl, of_decide_eq_true hends⟩

theorem mark (symbol : String) :
    Follows items (Checked.mark Metered.next symbol) (Checked.mark Emit.next symbol)
      (fun _ => Past items (count + 1)) meter := by
  refine h.next.bind fun token meter' hnext => .ite (fun hmark => ?_) fun _ => ?_
  · exact .pure (hnext.1.past (Token.kind_ne_eof_of_isMark hmark))
  · exact .fail hnext.1.orderly

theorem identifier (expected : Expected) :
    Follows items (Checked.identifier Metered.next expected)
      (Checked.identifier Emit.next expected) (fun _ => Past items (count + 1)) meter := by
  refine h.next.bind fun token meter' hnext => .ite (fun hkind => ?_) fun _ => ?_
  · refine .pure (hnext.1.past ?_)
    rw [hkind]
    decide
  · exact .fail hnext.1.orderly

theorem declarableType (token : Token) :
    Follows items (Checked.declarableType token) (Checked.declarableType token)
      (fun _ => Past items count) meter := by
  unfold Checked.declarableType
  cases TypeTag.ofName? token.text with
  | none => exact .fail h.orderly
  | some type => exact .ite (fun _ => .pure h) fun _ => .fail h.orderly

theorem typedName (expected : Expected) :
    Follows items (Checked.typedName Metered.next expected)
      (Checked.typedName Emit.next expected) (fun _ => Past items count) meter := by
  refine (h.identifier expected).bind fun name named hnamed => ?_
  refine (hnamed.identifier .typeName).bind fun word worded hworded => ?_
  refine (hworded.declarableType word).bind fun type typed htyped => ?_
  exact .pure (htyped.mono (by omega))

end Past

end Meter

/-! ## Expressions -/

namespace Metered

variable {items : List Item}

/-- A reader that takes a token, in any place past the one where the reader above it was entered. -/
def Takes (items : List Item) (entered : Nat) (metered : Metered Unit) (emit : Emit Unit) : Prop :=
  ∀ ⦃count : Nat⦄ ⦃meter : Meter⦄, entered < count → meter.Past items count →
    Follows items metered emit (fun _ => Meter.Past items (count + 1)) meter

/-- A reader that takes a token wherever it starts can be gone down into. -/
theorem Takes.descend {entered : Nat} {metered : Metered Unit} {emit : Emit Unit}
    (h : ∀ ⦃count : Nat⦄ ⦃meter : Meter⦄, meter.Past items count →
      Follows items metered emit (fun _ => Meter.Past items (count + 1)) meter) :
    Takes items entered (descend entered metered) emit := by
  intro count meter hentered hpast
  have hcount := hpast.taken
  rw [← bind_pure emit]
  refine .progressed (by omega) (.counted ?_)
  refine (h hpast.now).bind fun _ meter' hpast' => ?_
  have hcount' := hpast'.taken
  exact .progressed (by omega) (.pure (hpast'.mono (by omega)))

section Expressions

variable {entered count limit rounds : Nat} {meter : Meter} {argument : Metered Unit}
  {argument' : Emit Unit}

section Arguments

variable (htakes : Takes items entered argument argument')
include htakes

theorem arguments_follows {number : Nat} (hentered : entered < count)
    (h : meter.Past items count) :
    Follows items (arguments argument rounds number) (Emit.arguments argument' rounds number)
      (fun _ => Meter.Past items (count + 1)) meter := by
  induction rounds generalizing number count meter with
  | zero => exact .undefined h.orderly
  | succ rounds ih =>
      have hcount := h.taken
      refine .counted ((htakes (by omega) h.now).bind fun _ read hread => ?_)
      refine hread.next.bind fun token behind hnext => .ite (fun hcloses => ?_) fun _ =>
        .ite (fun hcomma => ?_) fun _ => .fail hnext.1.orderly
      · exact .pure ((hnext.1.past (Token.kind_ne_eof_of_isMark hcloses)).mono (by omega))
      · have hbehind := hnext.1.past (Token.kind_ne_eof_of_isMark hcomma)
        have hcount' := hbehind.taken
        refine .progressed (by omega) ?_
        exact (ih (by omega) hbehind).mono fun _ _ hpast => hpast.mono (by omega)

theorem callArguments_follows (hentered : entered < count) (h : meter.Past items count) :
    Follows items (callArguments argument limit) (Emit.callArguments argument' limit)
      (fun _ => Meter.Past items (count + 1)) meter := by
  refine h.peek.bind fun token ahead hpeek => .ite (fun hcloses => ?_) fun _ => ?_
  · refine (hpeek.1.next_peeked hpeek.2 (Token.kind_ne_eof_of_isMark hcloses)).bind
      fun _ behind hbehind => ?_
    exact .pure hbehind
  · exact arguments_follows htakes hentered hpeek.1

theorem calls_follows {called : Bool} (hentered : entered < count) (h : meter.Past items count) :
    Follows items (calls argument limit rounds called) (Emit.calls argument' limit rounds called)
      (fun _ => Meter.Past items count) meter := by
  induction rounds generalizing called count meter with
  | zero => exact .undefined h.orderly
  | succ rounds ih =>
      have hcount := h.taken
      refine .counted (h.now.peek.bind fun token ahead hpeek => .ite (fun hopens => ?_) fun _ => ?_)
      · refine (hpeek.1.next_peeked hpeek.2 (Token.kind_ne_eof_of_isMark hopens)).bind
          fun _ opened hopened => ?_
        refine (callArguments_follows htakes (by omega) hopened).bind
          fun number closed hclosed => ?_
        refine (Follows.keep (Emit.silent_write _) hclosed).bind fun _ written hwritten => ?_
        have hcount' := hwritten.taken
        refine .progressed (by omega) ?_
        exact (ih (by omega) hwritten).mono fun _ _ hpast => hpast.mono (by omega)
      · exact .pure (hpeek.1.mono hcount)

theorem callable_follows {token : Token} (hentered : entered < count)
    (h : meter.Took items count token) :
    Follows items (callable argument limit token) (Emit.callable argument' limit token)
      (fun _ => Meter.Past items count) meter := by
  by_cases hkind : token.kind = .eof
  · -- the end token is no term
    unfold callable Emit.callable Emit.term
    simp only [hkind]
    exact .of_error rfl rfl h.orderly
  · refine (Follows.keep (Emit.silent_term token) (h.past hkind)).bind fun _ written hwritten => ?_
    exact calls_follows htakes hentered hwritten

end Arguments

/-- An expression takes a token, and between the levels it always goes forward. -/
theorem expression_follows (limit levels : Nat) {count : Nat} {meter : Meter}
    (h : meter.Past items count) :
    Follows items (expression limit levels) (Emit.expression limit levels)
      (fun _ => Meter.Past items (count + 1)) meter := by
  induction levels generalizing count meter with
  | zero => exact .undefined h.orderly
  | succ levels ih =>
      have htakes : Takes items meter.taken (descend meter.taken (expression limit levels))
          (Emit.expression limit levels) := .descend fun _ _ => ih
      refine .counted (h.now.next.bind fun first begun hnext => ?_)
      refine .level hnext.1.orderly fun inside halike => ?_
      have hcount := h.taken
      refine (callable_follows htakes (Nat.lt_succ_self _) (halike.took hnext.1)).bind
        fun _ called hcalled => ?_
      refine hcalled.peek.bind fun token ahead hpeek => .ite (fun hoperator => ?_) fun _ => ?_
      · have hkind : token.kind ≠ .eof := by
          rw [hoperator]
          decide
        refine (hpeek.1.next_peeked hpeek.2 hkind).bind fun _ behind hbehind => ?_
        cases Operator.ofSymbol? token.text with
        | none => exact .fail hbehind.orderly
        | some operator =>
            refine (htakes (by omega) hbehind).bind fun _ read hread => ?_
            exact .keep (Emit.silent_write _) (hread.mono (by omega))
      · exact .pure (hpeek.1.mono (by omega))

end Expressions

/-! ## Statements -/

section Statements

variable {entered count limit rounds levels : Nat} {meter : Meter} {token : Token}

/-- The end token ends the input or is an error, so after it no statement is read. -/
theorem closes_follows {closing : Parser.Closing} (h : meter.Took items count token) :
    Follows items (lift (Emit.closes closing token)) (Emit.closes closing token)
      (fun closed meter' => meter'.Orderly items ∧
        (closed = false ∨ closing = .brace → meter'.Past items count)) meter := by
  unfold Emit.closes
  cases closing with
  | endOfInput =>
      by_cases hkind : token.kind = .eof
      · simp only [if_pos hkind]
        exact .of_ok rfl rfl ⟨h.orderly, by simp⟩
      · simp only [if_neg hkind]
        by_cases hbrace : token.isMark "\x7d" = true
        · simp only [if_pos hbrace]
          exact .of_error rfl rfl h.orderly
        · simp only [if_neg hbrace]
          exact .of_ok rfl rfl ⟨h.orderly, fun _ => h.past hkind⟩
  | brace =>
      by_cases hbrace : token.isMark "\x7d" = true
      · simp only [if_pos hbrace]
        exact .of_ok rfl rfl 
          ⟨h.orderly, fun _ => h.past (Token.kind_ne_eof_of_isMark hbrace)⟩
      · simp only [if_neg hbrace]
        by_cases hkind : token.kind = .eof
        · simp only [if_pos hkind]
          exact .of_error rfl rfl h.orderly
        · simp only [if_neg hkind]
          exact .of_ok rfl rfl ⟨h.orderly, fun _ => h.past hkind⟩

theorem statements_follows {statement : Token → Metered Unit} {statement' : Token → Emit Unit}
    {closing : Parser.Closing}
    (hstatement : ∀ ⦃token : Token⦄ ⦃count : Nat⦄ ⦃meter : Meter⦄, entered < count →
      meter.Past items count →
      Follows items (statement token) (statement' token) (fun _ => Meter.Past items count) meter)
    (hentered : entered ≤ count) (h : meter.Past items count) :
    Follows items (statements statement closing rounds)
      (Emit.statements statement' closing rounds)
      (fun _ meter' => meter'.Orderly items ∧ (closing = .brace → meter'.Past items count))
      meter := by
  induction rounds generalizing count meter with
  | zero => exact .undefined h.orderly
  | succ rounds ih =>
      have hcount := h.taken
      refine .counted (h.now.next.bind fun token begun hnext => ?_)
      refine (closes_follows hnext.1).bind fun closed tested htested => ?_
      cases closed with
      | true =>
          refine .pure ⟨htested.1, fun hbrace => ?_⟩
          exact (htested.2 (.inr hbrace)).mono (by omega)
      | false =>
          have hbegun := htested.2 (.inl rfl)
          refine (hstatement (by omega) hbegun).bind fun _ read hread => ?_
          have hcount' := hread.taken
          refine .progressed (by omega) ((ih (by omega) hread).mono fun _ _ hrest => ?_)
          exact ⟨hrest.1, fun hbrace => (hrest.2 hbrace).mono (by omega)⟩

section Statement

variable {expression' block' : Metered Unit} {written : Emit Unit}
  (hexpression : Takes items entered expression' (Emit.expression limit levels))
  (hblock : Takes items entered block' written)
include hexpression

/-- A statement that is a term with calls. -/
theorem evaluate_follows (hentered : entered < count) (h : meter.Past items count) :
    Follows items
      (do if ← callable expression' limit token then return () else lift (Emit.write .pop))
      (do
        if ← Emit.callable (Emit.expression limit levels) limit token then return ()
        else Emit.write .pop)
      (fun _ => Meter.Past items count) meter := by
  refine (callable_follows hexpression hentered (h.took token)).bind fun called read hread => ?_
  exact .ite (fun _ => .pure hread) fun _ => .keep (Emit.silent_write _) hread

include hblock

/-- A statement may be its first token alone. -/
theorem statement_follows (hentered : entered < count) (h : meter.Past items count) :
    Follows items (statement limit expression' block' token)
      (Emit.statement limit levels written token) (fun _ => Meter.Past items count) meter := by
  refine .ite (fun _ => .pure h) fun _ => .ite (fun _ => .keep (Emit.silent_write _) h) fun _ =>
    .ite (fun _ => ?_) fun _ => .ite (fun _ => ?_) fun _ => .ite (fun _ => ?_) fun _ =>
    .ite (fun _ => ?_) fun _ => evaluate_follows hexpression hentered h
  · -- a condition
    refine (hexpression hentered h).bind fun _ tested htested => ?_
    refine (Follows.keep (Emit.silent_emit _) htested).bind fun jump jumped hjumped => ?_
    refine (hblock (by omega) hjumped).bind fun _ read hread => ?_
    exact .keep (Emit.silent_patch _) (hread.mono (by omega))
  · -- a loop
    refine .read ((hexpression hentered h).bind fun _ tested htested => ?_)
    refine (Follows.keep (Emit.silent_emit _) htested).bind fun jump jumped hjumped => ?_
    refine (hblock (by omega) hjumped).bind fun _ read hread => ?_
    refine (Follows.keep (Emit.silent_write _) hread).bind fun _ pushed hpushed => ?_
    refine (Follows.keep (Emit.silent_write _) hpushed).bind fun _ back hback => ?_
    exact .keep (Emit.silent_patch _) (hback.mono (by omega))
  · -- a declaration
    refine (h.typedName .localName).bind fun ⟨name, type⟩ named hnamed => ?_
    exact .keep (Emit.silent_declareLocal token.line name type) hnamed
  · -- a name, and an assignment or a call
    refine h.peek.bind fun ahead looked hpeek => .ite (fun hassign => ?_) fun _ =>
      evaluate_follows hexpression hentered hpeek.1
    have hkind : ahead.kind ≠ .eof := by
      rw [hassign]
      decide
    refine (hpeek.1.next_peeked hpeek.2 hkind).bind fun _ assigned hassigned => ?_
    refine (hexpression (by omega) hassigned).bind fun _ read hread => ?_
    refine (Follows.keep (Emit.silent_resolve _) hread).bind fun place found hfound => ?_
    exact .keep (Emit.silent_write _) (hfound.mono (by omega))

end Statement

/-- A block takes its brace at least. -/
theorem block_follows (limit levels : Nat) {count : Nat} {meter : Meter}
    (h : meter.Past items count) :
    Follows items (block limit levels) (Emit.block limit levels)
      (fun _ => Meter.Past items (count + 1)) meter := by
  induction levels generalizing count meter with
  | zero => exact .undefined h.orderly
  | succ levels ih =>
      have hexpression : Takes items meter.taken
          (descend meter.taken (expression limit levels)) (Emit.expression limit levels) :=
        .descend fun _ _ => expression_follows limit levels
      have hblock : Takes items meter.taken (descend meter.taken (block limit levels))
          (Emit.block limit levels) := .descend fun _ _ => ih
      have hcount := h.taken
      refine .counted ((h.now.mark "\x7b").bind fun _ opened hopened => .read ?_)
      refine .level hopened.orderly fun inside halike => ?_
      refine (statements_follows ?_ (Nat.le_succ _) (halike.past hopened)).mono
        fun _ _ hclosed => (hclosed.2 rfl).mono (by omega)
      exact fun _ _ _ hentered => statement_follows hexpression hblock hentered

/-- Whole blocks end with the end of the input, so only the record is left. -/
theorem wholeBlock_follows (limit : Nat) (h : meter.Past items count) :
    Follows items (wholeBlock limit) (Emit.wholeBlock limit)
      (fun _ => Meter.Orderly items) meter := by
  have hexpression : Takes items meter.taken
      (descend meter.taken (expression limit (nestingLimit + 1)))
      (Emit.expression limit (nestingLimit + 1)) :=
    .descend fun _ _ => expression_follows limit (nestingLimit + 1)
  have hblock : Takes items meter.taken (descend meter.taken (block limit (nestingLimit + 1)))
      (Emit.block limit (nestingLimit + 1)) :=
    .descend fun _ _ => block_follows limit (nestingLimit + 1)
  refine .counted ((statements_follows ?_ (Nat.le_refl _) h.now).mono fun _ _ hend => hend.1)
  exact fun _ _ _ hentered => statement_follows hexpression hblock hentered

end Statements

/-! ## Whole blocks -/

/-- Compiling a stream of items, whatever they are, stops: with more rounds than there are items,
the compiler that keeps count ends in the same way however many there are, with a result or an error
to report. So every round of a loop takes a token before the next one, and so does every reader
before it goes down into another one and before it comes back from there. The stream was asked for
nothing after it had answered with the end token, a lexical error or nothing, and what it has handed
out and still holds are its items. The outcome is that of reading a tree. -/
theorem wholeBlock_stops (items : List Item) (declared : Option (List Variable))
    (code : Array Instruction) (events : Array Event) :
    let indexed := declared.map (IndexedTable.declareAll {})
    let locals := indexed.map IndexedTable.table
    let start : Meter := { emitter := { stream := items, code, locals := indexed } }
    ∃ meter : Meter, meter.Orderly items ∧
      ((∃ added locals' reported,
        (∀ limit, items.length < limit → wholeBlock limit start = .ok () meter) ∧
        Build.append code items locals events = .ok (code ++ added, locals') reported ∧
        meter.emitter.code = code ++ added ∧
        meter.emitter.locals.map IndexedTable.table = locals') ∨
      ∃ error reported,
        (∀ limit, items.length < limit → wholeBlock limit start = .error (.error error) meter) ∧
        Build.append code items locals events = .error error reported) := by
  intro indexed locals start
  have hstart : start.Past items 0 := by
    refine ⟨⟨?_, rfl⟩, ?_, Nat.le_refl 0⟩
    · intro answer hanswer
      cases hanswer
    · intro answer hanswer
      cases hanswer
  have hconsistent := IndexedTable.consistent_of_mem_declared declared
  have hfollows : Alongside items (fun _ => Meter.Orderly items) (Emit.behind items code indexed)
      (wholeBlock (items.length + 1) start) := wholeBlock_follows (items.length + 1) hstart
  have hlonger : ∀ limit, items.length < limit →
      Outlasts (wholeBlock limit) (wholeBlock (items.length + 1)) := fun _ => .wholeBlock
  cases hparser : Parser.behind items code locals events with
  | ok tree state =>
      obtain ⟨emitter, hemit, hcode, hlocals⟩ := Emit.behind_of_ok hconsistent hparser
      rw [hemit] at hfollows
      generalize hcounted : wholeBlock (items.length + 1) start = counted at hfollows
      cases hfollows with
      | @ok _ meter horderly =>
          refine ⟨meter, horderly, .inl ⟨_, _, _, fun limit hlimit => ?_,
            Build.append_of_ok hparser, hcode, hlocals⟩⟩
          rw [(hlonger limit hlimit).eq_of_defined (by simp [hcounted]), hcounted]
  | error error state =>
      obtain ⟨emitter, hemit, -⟩ := Emit.behind_of_error hconsistent hparser
      rw [hemit] at hfollows
      generalize hcounted : wholeBlock (items.length + 1) start = counted at hfollows
      cases hfollows with
      | @error _ meter horderly =>
          refine ⟨meter, horderly, .inr ⟨error, _, fun limit hlimit => ?_,
            Build.append_of_error hparser⟩⟩
          rw [(hlonger limit hlimit).eq_of_defined (by simp [hcounted]), hcounted]

end Metered

end StackScript
