import TestTree.Text.Utf8

/-! # UTF-8: reading what was written

* `opens`: what an octet between two characters gives.
* `first_of_encodeChar`: the first octet of a character opens it, with ranges that its other octets
  fit.
* `pieces_encodeChar_append`: the octets of a character are one piece, whatever follows them. Hence
  `decode_encode` and `read_encode`: both ways of reading give back a text that was written. -/

namespace TestTree.Text.Utf8

/-! ### Steps -/

theorem toNat_toUInt8 {n : Nat} (h : n < 256) : n.toUInt8.toNat = n :=
  UInt8.toNat_ofNat_of_lt h

theorem toNat_ofNat {n : Nat} (h : n < 0xD800 ∨ 0xDFFF < n ∧ n < 0x110000) :
    (Char.ofNat n).toNat = n := by
  rw [Char.ofNat, dif_pos (show n.isValidChar from h)]
  rfl

theorem piecesFrom_cons (pending : Option Pending) (b : UInt8) (rest : List UInt8) :
    piecesFrom [] pending (b :: rest) =
      (step pending b).1 ++ piecesFrom [] (step pending b).2 rest := by
  rw [piecesFrom, piecesFrom_eq_append]; simp

/-- An octet that lies in the range of the next one continues a character. -/
theorem step_of_mem {p : Pending} {b : UInt8} (h : p.next.low ≤ b.toNat ∧ b.toNat ≤ p.next.high) :
    step (some p) b =
      match p.later with
      | [] => ([.char (Char.ofNat (p.value * 64 + b.toNat % 64))], none)
      | next :: later => ([], some ⟨p.value * 64 + b.toNat % 64, p.length + 1, next, later⟩) := by
  have : p.next.contains b = true := by simp [Range.contains, h.1, h.2]
  cases hl : p.later <;> simp [step, this, hl]

/-! ### Open characters -/

/-- The ranges of the octets that an open character needs. -/
def Pending.ranges (p : Pending) : List Range := p.next :: p.later

/-- Octets that lie in ranges, one in each. -/
def Fits : List Range → List UInt8 → Prop
  | [], [] => True
  | r :: ranges, b :: octets => (r.low ≤ b.toNat ∧ b.toNat ≤ r.high) ∧ Fits ranges octets
  | _, _ => False

/-- The value of an open character with more octets. -/
def valueFrom (value : Nat) : List UInt8 → Nat
  | [] => value
  | b :: octets => valueFrom (value * 64 + b.toNat % 64) octets

theorem fits_one {r : Range} {tail : List UInt8} :
    Fits [r] tail ↔ ∃ t, tail = [t] ∧ r.low ≤ t.toNat ∧ t.toNat ≤ r.high := by
  match tail with
  | [] => simp [Fits]
  | [t] => simp [Fits]
  | t :: u :: rest => simp [Fits]

theorem fits_cons {r : Range} {ranges : List Range} {tail : List UInt8} :
    Fits (r :: ranges) tail ↔
      ∃ t rest, tail = t :: rest ∧ (r.low ≤ t.toNat ∧ t.toNat ≤ r.high) ∧ Fits ranges rest := by
  cases tail with
  | nil => simp [Fits]
  | cons t rest =>
    refine ⟨fun h => ⟨t, rest, rfl, h⟩, ?_⟩
    rintro ⟨_, _, he, h⟩
    cases he
    exact h

/-- **An open character ends** with octets in its ranges. -/
theorem piecesFrom_of_fits {p : Pending} {tail : List UInt8} (h : Fits p.ranges tail)
    (rest : List UInt8) :
    piecesFrom [] (some p) (tail ++ rest) =
      .char (Char.ofNat (valueFrom p.value tail)) :: pieces rest := by
  induction tail generalizing p with
  | nil => exact h.elim
  | cons b tail ih =>
    obtain ⟨hb, ht⟩ := h
    rw [List.cons_append, piecesFrom_cons, step_of_mem hb]
    rcases hl : p.later with _ | ⟨next, later⟩
    · cases tail with
      | nil => rfl
      | cons => rw [hl] at ht; exact ht.elim
    · rw [hl] at ht
      exact ih (p := ⟨_, _, next, later⟩) ht

/-- What an octet between two characters gives: a character, a faulty part, or the start of a
character of two, three or four octets. The second octet of the longer ones has a range `r`, which
excludes overlong forms, surrogates and values that are too large. -/
inductive Opens (b : UInt8) : Prop where
  | ascii (hb : b.toNat < 0x80) (hf : first b = ([.char (Char.ofNat b.toNat)], none))
  | broken (hb : 0x80 ≤ b.toNat ∧ b.toNat < 0xC2 ∨ 0xF5 ≤ b.toNat)
    (hf : first b = ([.broken 1], none))
  | two (hb : 0xC2 ≤ b.toNat ∧ b.toNat < 0xE0)
    (hf : first b = ([], some ⟨b.toNat % 32, 1, .tail, []⟩))
  | three (hb : 0xE0 ≤ b.toNat ∧ b.toNat < 0xF0) (r : Range)
    (hf : first b = ([], some ⟨b.toNat % 16, 1, r, [.tail]⟩))
    (hr : ∀ n, r.low ≤ n ∧ n ≤ r.high ↔ (0x80 ≤ n ∧ n ≤ 0xBF) ∧ (b.toNat = 0xE0 → 0xA0 ≤ n) ∧
      (b.toNat = 0xED → n ≤ 0x9F))
  | four (hb : 0xF0 ≤ b.toNat ∧ b.toNat < 0xF5) (r : Range)
    (hf : first b = ([], some ⟨b.toNat % 8, 1, r, [.tail, .tail]⟩))
    (hr : ∀ n, r.low ≤ n ∧ n ≤ r.high ↔ (0x80 ≤ n ∧ n ≤ 0xBF) ∧ (b.toNat = 0xF0 → 0x90 ≤ n) ∧
      (b.toNat = 0xF4 → n ≤ 0x8F))

theorem opens (b : UInt8) : Opens b := by
  obtain ⟨opened, hf⟩ : ∃ opened, first b = opened := ⟨_, rfl⟩
  have hcases := hf
  unfold first at hcases
  dsimp only at hcases
  -- The cases of `first`, in its order.
  split at hcases
  · next hb => exact .ascii hb (hf.trans hcases.symm)
  split at hcases
  · exact .broken (by omega) (hf.trans hcases.symm)
  split at hcases
  · exact .two (by omega) (hf.trans hcases.symm)
  split at hcases
  · next hb =>
    exact .three (by omega) ⟨0xA0, 0xBF⟩ (by rw [hf, ← hcases, hb]) fun _ => by dsimp only; omega
  split at hcases
  · next hb =>
    exact .three (by omega) ⟨0x80, 0x9F⟩ (by rw [hf, ← hcases, hb]) fun _ => by dsimp only; omega
  split at hcases
  · exact .three (by omega) .tail (hf.trans hcases.symm)
      fun _ => by dsimp only [Range.tail]; omega
  split at hcases
  · next hb =>
    exact .four (by omega) ⟨0x90, 0xBF⟩ (by rw [hf, ← hcases, hb]) fun _ => by dsimp only; omega
  split at hcases
  · exact .four (by omega) .tail (hf.trans hcases.symm) fun _ => by dsimp only [Range.tail]; omega
  split at hcases
  · next hb =>
    exact .four (by omega) ⟨0x80, 0x8F⟩ (by rw [hf, ← hcases, hb]) fun _ => by dsimp only; omega
  · exact .broken (by omega) (hf.trans hcases.symm)

/-! ### Characters -/

/-- **The octets of a character**: the first one is the character, or it opens a character whose
ranges the others fit. -/
theorem first_of_encodeChar {c : Char} {b : UInt8} {tail : List UInt8}
    (h : encodeChar c = b :: tail) :
    (tail = [] ∧ first b = ([.char c], none)) ∨ ∃ p, first b = ([], some p) ∧
      Fits p.ranges tail ∧ Char.ofNat (valueFrom p.value tail) = c := by
  have hv : c.toNat < 0xD800 ∨ 0xDFFF < c.toNat ∧ c.toNat < 0x110000 := c.valid
  have hc : Char.ofNat c.toNat = c := Char.ofNat_toNat c
  generalize hn : c.toNat = n at hv hc
  unfold encodeChar at h
  simp only [hn] at h
  split at h
  · next hlt =>
    obtain ⟨rfl, rfl⟩ := List.cons.inj h
    have hb := toNat_toUInt8 (show n < 256 by omega)
    cases opens n.toUInt8 with
    | ascii _ hf => exact Or.inl ⟨rfl, by rw [hf, hb, hc]⟩
    | broken | two | three | four => omega
  split at h
  · next h1 h2 =>
    obtain ⟨rfl, rfl⟩ := List.cons.inj h
    have e0 := toNat_toUInt8 (show 0xC0 + n / 64 < 256 by omega)
    have e1 := toNat_toUInt8 (show 0x80 + n % 64 < 256 by omega)
    cases opens (0xC0 + n / 64).toUInt8 with
    | two _ hf =>
      refine Or.inr ⟨_, hf, fits_one.mpr ⟨_, rfl, ?_⟩, ?_⟩
      · rw [e1]; simp only [Range.tail]; omega
      · simp only [valueFrom, e0, e1]
        rw [show (0xC0 + n / 64) % 32 * 64 + (0x80 + n % 64) % 64 = n by omega, hc]
    | ascii | broken | three | four => omega
  split at h
  · next h1 h2 h3 =>
    obtain ⟨rfl, rfl⟩ := List.cons.inj h
    have e0 := toNat_toUInt8 (show 0xE0 + n / 4096 < 256 by omega)
    have e1 := toNat_toUInt8 (show 0x80 + n / 64 % 64 < 256 by omega)
    have e2 := toNat_toUInt8 (show 0x80 + n % 64 < 256 by omega)
    cases opens (0xE0 + n / 4096).toUInt8 with
    | three _ r hf hr =>
      refine Or.inr ⟨_, hf, fits_cons.mpr ⟨_, _, rfl, (hr _).mpr ?_, fits_one.mpr ⟨_, rfl, ?_⟩⟩, ?_⟩
      · rw [e0, e1]; omega
      · rw [e2]; simp only [Range.tail]; omega
      · simp only [valueFrom, e0, e1, e2]
        rw [show ((0xE0 + n / 4096) % 16 * 64 + (0x80 + n / 64 % 64) % 64) * 64
          + (0x80 + n % 64) % 64 = n by omega, hc]
    | ascii | broken | two | four => omega
  · next h1 h2 h3 =>
    obtain ⟨rfl, rfl⟩ := List.cons.inj h
    have e0 := toNat_toUInt8 (show 0xF0 + n / 262144 < 256 by omega)
    have e1 := toNat_toUInt8 (show 0x80 + n / 4096 % 64 < 256 by omega)
    have e2 := toNat_toUInt8 (show 0x80 + n / 64 % 64 < 256 by omega)
    have e3 := toNat_toUInt8 (show 0x80 + n % 64 < 256 by omega)
    cases opens (0xF0 + n / 262144).toUInt8 with
    | four _ r hf hr =>
      refine Or.inr ⟨_, hf, fits_cons.mpr ⟨_, _, rfl, (hr _).mpr ?_, fits_cons.mpr ⟨_, _, rfl, ?_,
        fits_one.mpr ⟨_, rfl, ?_⟩⟩⟩, ?_⟩
      · rw [e0, e1]; omega
      · rw [e2]; simp only [Range.tail]; omega
      · rw [e3]; simp only [Range.tail]; omega
      · simp only [valueFrom, e0, e1, e2, e3]
        rw [show (((0xF0 + n / 262144) % 8 * 64 + (0x80 + n / 4096 % 64) % 64) * 64
          + (0x80 + n / 64 % 64) % 64) * 64 + (0x80 + n % 64) % 64 = n by omega, hc]
    | ascii | broken | two | three => omega

theorem encodeChar_ne_nil (c : Char) : encodeChar c ≠ [] := by
  unfold encodeChar
  dsimp only
  split
  · exact List.cons_ne_nil _ _
  split
  · exact List.cons_ne_nil _ _
  split <;> exact List.cons_ne_nil _ _

/-- **The octets of a character are one piece.** -/
theorem pieces_encodeChar_append (c : Char) (rest : List UInt8) :
    pieces (encodeChar c ++ rest) = .char c :: pieces rest := by
  obtain ⟨b, tail, h⟩ := List.exists_cons_of_ne_nil (encodeChar_ne_nil c)
  rw [h, List.cons_append, pieces, piecesFrom_cons, step]
  rcases first_of_encodeChar h with ⟨rfl, hf⟩ | ⟨p, hf, hfit, hc⟩
  · rw [hf]
    rfl
  · rw [hf, piecesFrom_of_fits hfit, hc]
    rfl

/-! ### Texts -/

theorem pieces_encode (text : List Char) : pieces (encode text) = text.map .char := by
  induction text with
  | nil => rfl
  | cons c rest ih => rw [encode_cons, pieces_encodeChar_append, ih, List.map_cons]

/-- **Reading gives back what was written.** -/
theorem decode_encode (text : List Char) : decode (encode text) = text := by
  simp [decode, pieces_encode, Piece.toChar, Function.comp_def]

theorem firstFault?_map_char (index : Nat) (text : List Char) :
    firstFault? index (text.map .char) = none := by
  induction text generalizing index with
  | nil => rfl
  | cons c rest ih => exact ih _

theorem read_encode (text : List Char) : read (encode text) = .ok text := by
  simp [read, pieces_encode, firstFault?_map_char, decode_encode]

end TestTree.Text.Utf8
