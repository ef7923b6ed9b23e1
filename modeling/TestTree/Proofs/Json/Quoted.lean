import TestTree.Json.Parser
import Mathlib.Tactic.SplitIfs

/-! # Text within strings

Some characters stand in no token but a string (`IsForeign`). Where such a character is read without
a fault the scanner is within a string, and stays there up to the next quote (`feed_foreign`). From
this it follows what can stand around a foreign text without quotes:

* `feed_object`: a text that is an object leaves the scanner between tokens, so a foreign character
  after it is a fault (`parse?_append_foreign`), and no foreign text without quotes is its end;
* `parse?_front_of_foreign`: of a text that goes on with a foreign text without quotes, what stands
  before that is no value. -/

namespace TestTree.Json

/-! ### The end of an object -/

/-- A value that a token is by itself is the value that is complete after it. -/
theorem Awaiting.eq_of_step_toValue? {awaiting : Awaiting} {token : Token} {v w : Json}
    (hv : token.toValue? = some v) (h : awaiting.step token = some (.next w [])) : v = w := by
  cases awaiting <;> cases token <;>
    simp_all [Awaiting.step, stepValue, Token.toValue?]

/-- A token that is completed by the end of a text is a value by itself. -/
theorem Mode.finish_cases {mode : Mode} {tokens : List Token} (h : mode.finish = some tokens) :
    (mode = .between ∧ tokens = []) ∨
      ∃ token v, tokens = [token] ∧ token.toValue? = some v ∧ ∀ members, v ≠ .object members := by
  cases mode with
  | between => exact .inl ⟨rfl, by simpa [Mode.finish, eq_comm] using h⟩
  | word read =>
    obtain ⟨token, ht, rfl⟩ := Option.map_eq_some_iff.mp h
    unfold word? at ht
    split_ifs at ht <;> obtain rfl := Option.some.inj ht <;> exact .inr ⟨_, _, rfl, rfl, by simp⟩
  | number read =>
    obtain ⟨n, -, rfl⟩ := Option.map_eq_some_iff.mp h
    exact .inr ⟨_, _, rfl, rfl, by simp⟩
  | string read => simp [Mode.finish] at h
  | escape read progress => simp [Mode.finish] at h

/-- **After an object** the scanner is between tokens, and the object is complete. -/
theorem feed_object {text : List Char} {members : Members}
    (h : parse? text = some (.object members)) :
    Reader.start.feed text = some ⟨.between, .next (.object members) []⟩ := by
  obtain ⟨⟨mode, awaiting⟩, hf, hfin⟩ := Option.bind_eq_some_iff.mp h
  obtain ⟨tokens, ht, hr⟩ := Option.bind_eq_some_iff.mp hfin
  obtain ⟨done, hd, hv⟩ := Option.bind_eq_some_iff.mp hr
  obtain rfl : done = .next (.object members) [] := by
    cases done with
    | next v frames => cases frames <;> simp_all [Awaiting.value?]
    | _ => simp [Awaiting.value?] at hv
  -- A last token would have to be the object itself.
  rcases Mode.finish_cases ht with ⟨rfl, rfl⟩ | ⟨token, v, rfl, htv, hne⟩
  · obtain rfl : awaiting = .next (.object members) [] := by simpa [Awaiting.run] using hd
    exact hf
  · have hs : awaiting.step token = some (.next (.object members) []) := by
      simpa [Awaiting.run] using hd
    exact absurd (Awaiting.eq_of_step_toValue? htv hs) (hne members)

/-! ### Foreign characters -/

/-- A character that is neither a token nor part of one, except of a string. -/
structure IsForeign (c : Char) : Prop where
  between : stepBetween c = none
  letter : isLetter c = false
  numeric : isNumeric c = false

/-- The scanner is within a string. -/
def Mode.isInString : Mode → Bool
  | .string _ | .escape _ _ => true
  | .between | .word _ | .number _ => false

theorem Mode.finish_of_isInString {mode : Mode} (h : mode.isInString) : mode.finish = none := by
  cases mode <;> simp_all [Mode.isInString, Mode.finish]

theorem Mode.isInString_of_step {mode : Mode} {c : Char} {next : List Token × Mode}
    (hc : IsForeign c) (h : mode.step c = some next) : mode.isInString := by
  cases mode with
  | between => simp [Mode.step, hc.between] at h
  | word read => simp [Mode.step, hc.letter, stepAfter, hc.between] at h
  | number read => simp [Mode.step, hc.numeric, stepAfter, hc.between] at h
  | string read => rfl
  | escape read progress => rfl

theorem isInString_of_stepUnit {read : List Char} {unit : Nat} {mode : Mode}
    (h : stepUnit read unit = some mode) : mode.isInString := by
  unfold stepUnit at h
  split_ifs at h <;> obtain rfl := Option.some.inj h <;> rfl

theorem isInString_of_stepPair {read : List Char} {high low : Nat} {mode : Mode}
    (h : stepPair read high low = some mode) : mode.isInString := by
  unfold stepPair at h
  split_ifs at h
  obtain rfl := Option.some.inj h
  rfl

theorem isInString_of_stepEscape {read : List Char} {progress : Escape} {c : Char} {mode : Mode}
    (h : stepEscape read progress c = some mode) : mode.isInString := by
  cases progress with
  | begun =>
    simp only [stepEscape] at h
    split_ifs at h
    · obtain rfl := Option.some.inj h
      rfl
    · obtain ⟨e, -, rfl⟩ := Option.map_eq_some_iff.mp h
      rfl
  | unit missing value =>
    obtain ⟨digit, -, h⟩ := Option.bind_eq_some_iff.mp h
    simp only at h
    split_ifs at h
    · exact isInString_of_stepUnit h
    · obtain rfl := Option.some.inj h
      rfl
  | half high =>
    simp only [stepEscape] at h
    split_ifs at h
    obtain rfl := Option.some.inj h
    rfl
  | halfBegun high =>
    simp only [stepEscape] at h
    split_ifs at h
    obtain rfl := Option.some.inj h
    rfl
  | halfUnit high missing value =>
    obtain ⟨digit, -, h⟩ := Option.bind_eq_some_iff.mp h
    simp only at h
    split_ifs at h
    · exact isInString_of_stepPair h
    · obtain rfl := Option.some.inj h
      rfl

theorem Mode.step_isInString {mode mode' : Mode} {c : Char} {tokens : List Token}
    (hq : c ≠ '"') (hi : mode.isInString) (h : mode.step c = some (tokens, mode')) :
    mode'.isInString := by
  cases mode with
  | string read =>
    simp only [Mode.step, if_neg hq] at h
    split_ifs at h <;> obtain ⟨-, rfl⟩ := Prod.mk.inj (Option.some.inj h) <;> rfl
  | escape read progress =>
    obtain ⟨m, hm, he⟩ := Option.map_eq_some_iff.mp h
    obtain ⟨-, rfl⟩ := Prod.mk.inj he
    exact isInString_of_stepEscape hm
  | _ => simp [Mode.isInString] at hi

/-! ### Foreign texts -/

theorem Reader.feed_isInString {reader after : Reader} {text : List Char} (hq : '"' ∉ text)
    (hi : reader.mode.isInString) (h : reader.feed text = some after) : after.mode.isInString := by
  induction text generalizing reader with
  | nil =>
    obtain rfl := Option.some.inj h
    exact hi
  | cons c rest ih =>
    simp only [List.mem_cons, not_or] at hq
    simp only [Reader.feed] at h
    split at h
    · next r hr =>
      obtain ⟨⟨tokens, mode⟩, hm, hr⟩ := Option.bind_eq_some_iff.mp hr
      obtain ⟨awaiting, -, he⟩ := Option.bind_eq_some_iff.mp hr
      obtain rfl := Option.some.inj he
      exact ih hq.2 (Mode.step_isInString (Ne.symm hq.1) hi hm) h
    · simp at h

/-- **A foreign text** that is read without a fault stands within a string, which goes on after it.
-/
theorem Reader.feed_foreign {reader after : Reader} {c : Char} {text : List Char}
    (hc : IsForeign c) (hq : '"' ∉ c :: text) (h : reader.feed (c :: text) = some after) :
    reader.mode.isInString ∧ after.mode.isInString := by
  have hi : reader.mode.isInString := by
    simp only [Reader.feed] at h
    split at h
    · next r hr =>
      obtain ⟨next, hm, -⟩ := Option.bind_eq_some_iff.mp hr
      exact Mode.isInString_of_step hc hm
    · simp at h
  exact ⟨hi, Reader.feed_isInString hq hi h⟩

theorem parse?_append_foreign {text : List Char} {members : Members} {c : Char}
    (h : parse? text = some (.object members)) (hc : IsForeign c) (rest : List Char) :
    parse? (text ++ c :: rest) = none := by
  have hs : Reader.step ⟨.between, .next (.object members) []⟩ c = none := by
    simp [Reader.step, Mode.step, hc.between]
  simp [parse?, Reader.feed_append, feed_object h, Reader.feed, hs]

/-- No foreign text without quotes is the end of an object. -/
theorem not_suffix_foreign {text foreign : List Char} {members : Members} {c : Char}
    (h : parse? text = some (.object members)) (hc : IsForeign c) (hq : '"' ∉ c :: foreign) :
    ¬ c :: foreign <:+ text := by
  rintro ⟨front, rfl⟩
  have hf := feed_object h
  rw [Reader.feed_append] at hf
  obtain ⟨r, -, hr⟩ := Option.bind_eq_some_iff.mp hf
  have hi := (Reader.feed_foreign hc hq hr).2
  simp [Mode.isInString] at hi

/-- What stands before a foreign text within an object is no value. -/
theorem parse?_front_of_foreign {front foreign rest : List Char} {members : Members} {c : Char}
    (h : parse? (front ++ c :: foreign ++ rest) = some (.object members)) (hc : IsForeign c)
    (hq : '"' ∉ c :: foreign) : parse? front = none := by
  have hf := feed_object h
  rw [List.append_assoc, Reader.feed_append] at hf
  obtain ⟨r, hr, hf⟩ := Option.bind_eq_some_iff.mp hf
  rw [Reader.feed_append] at hf
  obtain ⟨r', hr', -⟩ := Option.bind_eq_some_iff.mp hf
  have hi := (Reader.feed_foreign hc hq hr').1
  simp [parse?, hr, Reader.finish, Mode.finish_of_isInString hi]

end TestTree.Json
