import TestTree.Json.Parser
import TestTree.Json.Printer
import TestTree.Proofs.Text.Numeral
import Mathlib.Tactic.SplitIfs

/-! # Scanning written tokens

`Mode.scan` gives all tokens of a text at once, and `parse?_eq_scan` takes reading apart into
scanning and running the machine on the tokens. Then, for each kind of token, what scanning its text
and then more text gives: white space nothing (`scan_space`), a mark, a word, a number or a string
its one token (`scan_mark`, `scan_word`, `scan_number`, `scan_writeString`). Words and numbers end
only with a character that is not part of them (`IsDelimited`). -/

namespace TestTree.Json

/-! ### Scanning and running -/

/-- The tokens of a text. -/
def Mode.scan (mode : Mode) : List Char → Option (List Token)
  | [] => mode.finish
  | c :: rest => (mode.step c).bind fun (tokens, next) => (next.scan rest).map (tokens ++ ·)

theorem Awaiting.run_append (awaiting : Awaiting) (s t : List Token) :
    awaiting.run (s ++ t) = (awaiting.run s).bind (·.run t) := by
  induction s generalizing awaiting with
  | nil => rfl
  | cons token rest ih =>
    simp only [List.cons_append, Awaiting.run]
    cases awaiting.step token with
    | none => rfl
    | some next => exact ih next

theorem Reader.feed_finish (reader : Reader) (text : List Char) :
    (reader.feed text).bind Reader.finish =
      (reader.mode.scan text).bind fun tokens => (reader.awaiting.run tokens).bind (·.value?) := by
  induction text generalizing reader with
  | nil => rfl
  | cons c rest ih =>
    simp only [Reader.feed, Reader.step, Mode.scan]
    rcases hs : reader.mode.step c with - | ⟨tokens, mode⟩
    · rfl
    rcases hr : reader.awaiting.run tokens with - | awaiting
    · simp [hr, Option.map_eq_bind, Option.bind_assoc, Awaiting.run_append]
    · simp [hr, ih, Option.map_eq_bind, Option.bind_assoc, Awaiting.run_append]

/-- **Reading is scanning and running.** -/
theorem parse?_eq_scan (text : List Char) :
    parse? text = (Mode.between.scan text).bind fun tokens =>
      ((Awaiting.value []).run tokens).bind (·.value?) :=
  Reader.feed_finish .start text

/-! ### Steps -/

/-- A character that completes no token. -/
theorem scan_silent {mode : Mode} (next : Mode) {c : Char} (h : mode.step c = some ([], next))
    (rest : List Char) : mode.scan (c :: rest) = next.scan rest := by
  rw [Mode.scan, h, Option.bind_some]
  simp

/-- A run of characters that the mode keeps. -/
theorem scan_run (mode : List Char → Mode) {p : Char → Bool}
    (hm : ∀ read c, p c → (mode read).step c = some ([], mode (c :: read))) {run : List Char}
    (hp : ∀ c ∈ run, p c) (read rest : List Char) :
    (mode read).scan (run ++ rest) = (mode (run.reverse ++ read)).scan rest := by
  induction run generalizing read with
  | nil => rfl
  | cons c run ih =>
    rw [List.cons_append, scan_silent _ (hm read c (hp c List.mem_cons_self)),
      ih fun d hd => hp d (List.mem_cons_of_mem c hd), List.reverse_cons, List.append_assoc,
      List.singleton_append]

theorem scan_space {blank : List Char} (hb : ∀ c ∈ blank, isSpace c) (rest : List Char) :
    Mode.between.scan (blank ++ rest) = Mode.between.scan rest :=
  scan_run (fun _ => .between) (fun _ _ hc => if_pos hc) hb [] rest

theorem scan_mark {c : Char} {token : Token} (h : Mode.between.step c = some ([token], .between))
    (rest : List Char) :
    Mode.between.scan (c :: rest) = (Mode.between.scan rest).map (token :: ·) := by
  rw [Mode.scan, h]
  rfl

/-! ### Words and numbers -/

/-- No word and no number goes on with the text. -/
def IsDelimited : List Char → Prop
  | [] => True
  | c :: _ => isLetter c = false ∧ isNumeric c = false

/-- A token that the end of the text or the next character completes. -/
theorem scan_delimited {mode : Mode} {token : Token} {rest : List Char} (hd : IsDelimited rest)
    (hf : mode.finish = some [token])
    (hs : ∀ c, isLetter c = false → isNumeric c = false → mode.step c = stepAfter (some token) c) :
    mode.scan rest = (Mode.between.scan rest).map (token :: ·) := by
  cases rest with
  | nil => exact hf
  | cons c rest =>
    rw [Mode.scan, Mode.scan, hs c hd.1 hd.2, Mode.step, stepAfter]
    rcases stepBetween c with - | ⟨tokens, mode⟩
    · rfl
    · simp [Option.map_map, Function.comp_def]

theorem scan_word {c : Char} {letters : List Char} {token : Token}
    (hc : Mode.between.step c = some ([], .word [c])) (hl : letters.all isLetter)
    (ht : word? (c :: letters) = some token) {rest : List Char} (hd : IsDelimited rest) :
    Mode.between.scan (c :: (letters ++ rest)) = (Mode.between.scan rest).map (token :: ·) := by
  have hr : (letters.reverse ++ [c]).reverse = c :: letters := by simp
  rw [scan_silent _ hc, scan_run .word (fun _ _ hc => if_pos hc) (List.all_eq_true.mp hl)]
  refine scan_delimited hd ?_ fun d hl hn => ?_
  · rw [Mode.finish, hr, ht]
    rfl
  · rw [Mode.step, if_neg (by simp [hl]), hr, ht]

/-- A number whose text is scanned as one token and is read as the number. -/
structure Number.IsReadable (n : Number) : Prop where
  read : Number.read? n.write = some n
  numeric : ∀ c ∈ n.write, isNumeric c
  start : ∃ c digits, n.write = c :: digits ∧ startsNumber c

theorem step_of_startsNumber {c : Char} (h : startsNumber c) :
    Mode.between.step c = some ([], .number [c]) := by
  have hs : ¬ isSpace c := by
    intro hs
    simp only [isSpace, Bool.or_eq_true, decide_eq_true_eq] at hs
    rcases hs with ((rfl | rfl) | rfl) | rfl <;> exact absurd h (by decide)
  have hq : c ≠ '"' := by
    rintro rfl
    exact absurd h (by decide)
  rw [Mode.step, stepBetween, if_neg hs, if_neg hq, if_pos h]

theorem scan_number {n : Number} (h : n.IsReadable) {rest : List Char} (hd : IsDelimited rest) :
    Mode.between.scan (n.write ++ rest) = (Mode.between.scan rest).map (.number n :: ·) := by
  obtain ⟨c, digits, hw, hc⟩ := h.start
  have hn : ∀ d ∈ digits, isNumeric d := fun d hd => h.numeric d (by simp [hw, hd])
  have hr : (digits.reverse ++ [c]).reverse = n.write := by simp [hw]
  rw [hw, List.cons_append, scan_silent _ (step_of_startsNumber hc),
    scan_run .number (fun _ _ hc => if_pos hc) hn]
  refine scan_delimited hd ?_ fun d hl hnum => ?_
  · rw [Mode.finish, hr, h.read]
    rfl
  · rw [Mode.step, if_neg (by simp [hnum]), hr, h.read]
    rfl

theorem isNumeric_of_startsNumber {c : Char} (h : startsNumber c) : isNumeric c := by
  simp only [startsNumber, isNumeric, Bool.or_eq_true] at h ⊢
  rcases h with h | h <;> simp [h]

theorem startsNumber_of_mem_write {n : Int} {c : Char} (hc : c ∈ (Number.integer n).write) :
    startsNumber c := by
  rw [Number.write, List.mem_append] at hc
  rcases hc with hc | hc
  · split_ifs at hc
    · rw [List.mem_singleton.mp hc]
      rfl
    · exact absurd hc List.not_mem_nil
  · have hd : c.isDigit := Text.Numeral.isDigit_of_mem_digits hc
    simp [startsNumber, show '0' ≤ c ∧ c ≤ '9' by simpa [Char.isDigit, Char.le_def] using hd]

/-- **An integer of 64 bits** is readable. -/
theorem Number.isReadable_integer {n : Int} (hl : -Nat.pow 2 63 ≤ n) (hh : n < Nat.pow 2 64) :
    (Number.integer n).IsReadable := by
  have h63 : Nat.pow 2 63 = 9223372036854775808 := rfl
  have h64 : Nat.pow 2 64 = 18446744073709551616 := rfl
  have hw : (Number.integer n).write =
      (if decide (n < 0) then ['-'] else []) ++ Nat.toDigits 10 n.natAbs := by
    simp only [Number.write, decide_eq_true_eq]
  have hne : (Number.integer n).write ≠ [] := by
    rw [hw]
    exact List.append_ne_nil_of_right_ne_nil _ Nat.toDigits_ne_nil
  obtain ⟨c, digits, hc⟩ := List.exists_cons_of_ne_nil hne
  refine ⟨?_, fun d hd => isNumeric_of_startsNumber (startsNumber_of_mem_write hd),
    ⟨c, digits, hc, startsNumber_of_mem_write (n := n) (by simp [hc])⟩⟩
  rw [Number.read?, hw, Decimal.Literal.read_toDigits, Option.bind_some, Number.ofLiteral?]
  simp only [Decimal.ofDigits_valuesOf]
  by_cases hn : n < 0
  · have hp : decide (0 < n.natAbs) = true := decide_eq_true (by omega)
    have hb : decide (n.natAbs ≤ Nat.pow 2 63) = true := decide_eq_true (by omega)
    have hv : -(n.natAbs : Int) = n := by omega
    rw [decide_eq_true hn, hp, hb, hv]
    rfl
  · have hb : decide (n.natAbs < Nat.pow 2 64) = true := decide_eq_true (by omega)
    have hv : (n.natAbs : Int) = n := by omega
    rw [decide_eq_false hn, hb, hv]
    rfl

/-! ### Strings -/

theorem hexValue?_hexDigit : ∀ n < 16, hexValue? (hexDigit n) = some n := by decide

/-- A character with a short escape. -/
theorem scan_shortEscape {d c : Char} (h : shortEscape? d = some c) (hu : d ≠ 'u')
    (read rest : List Char) :
    (Mode.string read).scan ('\\' :: d :: rest) = (Mode.string (c :: read)).scan rest := by
  have he : (Mode.escape read .begun).step d = some ([], .string (c :: read)) := by
    rw [Mode.step, stepEscape, if_neg hu, h]
    rfl
  rw [scan_silent (.escape read .begun) rfl, scan_silent _ he]

/-- A character below U+0020 as four hexadecimal digits. -/
theorem scan_unicodeEscape {c : Char} (h : c.toNat < 0x20) (read rest : List Char) :
    (Mode.string read).scan ('\\' :: 'u' :: '0' :: '0' ::
        hexDigit (c.toNat / 16) :: hexDigit (c.toNat % 16) :: rest) =
      (Mode.string (c :: read)).scan rest := by
  have h1 := hexValue?_hexDigit (c.toNat / 16) (by omega)
  have h2 := hexValue?_hexDigit (c.toNat % 16) (by omega)
  have hv : c.toNat / 16 * 16 + c.toNat % 16 = c.toNat := by omega
  have hs : stepUnit read c.toNat = some (.string (c :: read)) := by
    rw [stepUnit, if_neg (by omega), if_neg (by omega), Char.ofNat_toNat]
  have he1 : (Mode.escape read (.unit 2 0)).step (hexDigit (c.toNat / 16)) =
      some ([], .escape read (.unit 1 (c.toNat / 16))) := by
    simp [Mode.step, stepEscape, h1]
  have he2 : (Mode.escape read (.unit 1 (c.toNat / 16))).step (hexDigit (c.toNat % 16)) =
      some ([], .string (c :: read)) := by
    simp [Mode.step, stepEscape, h2, hv, hs]
  rw [scan_silent (.escape read .begun) rfl,
    scan_silent (.escape read (.unit 4 0)) rfl,
    scan_silent (.escape read (.unit 3 0)) rfl,
    scan_silent (.escape read (.unit 2 0)) rfl, scan_silent _ he1, scan_silent _ he2]

/-- **An escaped character** is read as that character. -/
theorem scan_escapeChar (read : List Char) (c : Char) (rest : List Char) :
    (Mode.string read).scan (escapeChar c ++ rest) = (Mode.string (c :: read)).scan rest := by
  unfold escapeChar
  split_ifs with hq hb hf hn hr ht hc
  · rcases (by simpa using hq : c = '"' ∨ c = '\\') with rfl | rfl <;>
      exact scan_shortEscape rfl (by decide) read rest
  · exact hb ▸ scan_shortEscape rfl (by decide) read rest
  · exact hf ▸ scan_shortEscape rfl (by decide) read rest
  · exact hn ▸ scan_shortEscape rfl (by decide) read rest
  · exact hr ▸ scan_shortEscape rfl (by decide) read rest
  · exact ht ▸ scan_shortEscape rfl (by decide) read rest
  · exact scan_unicodeEscape hc read rest
  · simp only [Bool.or_eq_true, decide_eq_true_eq, not_or] at hq
    refine scan_silent _ ?_ rest
    rw [Mode.step, if_neg hq.1, if_neg hq.2, if_neg hc]

/-- **A string literal** is read as the string. -/
theorem scan_writeString (s : String) (rest : List Char) :
    Mode.between.scan (writeString s ++ rest) = (Mode.between.scan rest).map (.string s :: ·) := by
  have chars (text read : List Char) :
      (Mode.string read).scan (text.flatMap escapeChar ++ '"' :: rest) =
        (Mode.string (text.reverse ++ read)).scan ('"' :: rest) := by
    induction text generalizing read with
    | nil => rfl
    | cons c text ih =>
      rw [List.flatMap_cons, List.append_assoc, scan_escapeChar, ih, List.reverse_cons,
        List.append_assoc, List.singleton_append]
  rw [writeString, List.cons_append, scan_silent (.string []) rfl, List.append_assoc,
    List.singleton_append, chars, Mode.scan, Mode.step, if_pos rfl]
  simp

end TestTree.Json
