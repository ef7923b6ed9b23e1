import TestTree.Proofs.Text.Ascii

/-! # UTF-8: reading any octets

`Lenient octets text` says without the machine what lenient reading makes of octets: a character
where the octets of one stand, and U+FFFD for each faulty part, which is as long as it can be.

* `encodeChar_of_fits`: octets that fit the ranges of an open character are those of a character, so
  that the machine goes on just as long as some character has the octets that it has read.
* `pieces_cases`: a character or a faulty part stands in front, and is the first piece.
* `lenient_iff`: lenient reading is `decode`.
* `encode_toList`, `isValidUTF8_iff`: the octets of texts are those that strings have, and these are
  what is known as valid UTF-8. -/

namespace TestTree.Text.Utf8

/-! ### Characters and faulty parts -/

theorem encodeChar_eq_utf8EncodeChar (c : Char) : encodeChar c = String.utf8EncodeChar c := by
  have hv : c.toNat < 0xD800 ∨ 0xDFFF < c.toNat ∧ c.toNat < 0x110000 := c.valid
  unfold encodeChar String.utf8EncodeChar
  rw [show c.val.toNat = c.toNat from rfl]
  generalize c.toNat = n at hv ⊢
  dsimp only
  split
  · rw [if_pos (by omega)]
  split
  · rw [if_neg (by omega), if_pos (by omega), show n / 64 % 32 + 192 = 0xC0 + n / 64 by omega,
      Nat.add_comm (n % 64)]
  split
  · rw [if_neg (by omega), if_neg (by omega), if_pos (by omega),
      show n / 4096 % 16 + 224 = 0xE0 + n / 4096 by omega, Nat.add_comm (n / 64 % 64),
      Nat.add_comm (n % 64)]
  · rw [if_neg (by omega), if_neg (by omega), if_neg (by omega),
      show n / 262144 % 8 + 240 = 0xF0 + n / 262144 by omega, Nat.add_comm (n / 4096 % 64),
      Nat.add_comm (n / 64 % 64), Nat.add_comm (n % 64)]

/-- A character starts with the octets, or has no others. -/
def StartsChar (part : List UInt8) : Prop := ∃ c, part <+: String.utf8EncodeChar c

/-- **A faulty part** of octets, in front of the rest. No character stands there. The part is one
octet or the start of a character, and nothing that is longer starts a character. -/
structure IsFaulty (part rest : List UInt8) : Prop where
  ne_nil : part ≠ []
  no_char : ∀ c, ¬ String.utf8EncodeChar c <+: part ++ rest
  start : part.length = 1 ∨ StartsChar part
  longest : ∀ longer, longer <+: part ++ rest → part.length < longer.length → ¬ StartsChar longer

/-- **Lenient reading**: each character as it is, and U+FFFD for each faulty part. -/
inductive Lenient : List UInt8 → List Char → Prop
  | nil : Lenient [] []
  | char (c : Char) {rest : List UInt8} {text : List Char} (h : Lenient rest text) :
    Lenient (String.utf8EncodeChar c ++ rest) (c :: text)
  | faulty {part rest : List UInt8} {text : List Char} (hp : IsFaulty part rest)
    (h : Lenient rest text) : Lenient (part ++ rest) ('\uFFFD' :: text)

/-- A faulty part is known from the octets. -/
theorem IsFaulty.unique {part rest part' rest' : List UInt8} (h : IsFaulty part rest)
    (h' : IsFaulty part' rest') (he : part ++ rest = part' ++ rest') :
    part = part' ∧ rest = rest' := by
  have hstart {p q r s : List UInt8} (hp : IsFaulty p r) (hq : IsFaulty q s)
      (hpq : p ++ r = q ++ s) : p.length ≤ q.length := by
    refine Nat.le_of_not_lt fun hlt => ?_
    have hq1 : 0 < q.length := List.length_pos_iff.mpr hq.ne_nil
    rcases hp.start with h1 | hs
    · omega
    · exact hq.longest p (hpq ▸ List.prefix_append p r) (by omega) hs
  exact List.append_inj he (Nat.le_antisymm (hstart h h' he) (hstart h' h he.symm))

/-! ### Octets in the ranges -/

theorem eq_toUInt8 {n : Nat} {b : UInt8} (h : n = b.toNat) : n.toUInt8 = b := by
  subst h
  exact UInt8.ofNat_toNat

theorem encodeChar_two {b t : UInt8} (hb : 0xC2 ≤ b.toNat ∧ b.toNat < 0xE0)
    (ht : 0x80 ≤ t.toNat ∧ t.toNat ≤ 0xBF) :
    encodeChar (Char.ofNat (b.toNat % 32 * 64 + t.toNat % 64)) = [b, t] := by
  generalize hv : b.toNat % 32 * 64 + t.toNat % 64 = v
  have hn : (Char.ofNat v).toNat = v := toNat_ofNat (by omega)
  simp only [encodeChar, hn]
  rw [if_neg (by omega), if_pos (by omega), eq_toUInt8 (b := b) (by omega),
    eq_toUInt8 (b := t) (by omega)]

theorem encodeChar_three {b t u : UInt8} (hb : 0xE0 ≤ b.toNat ∧ b.toNat < 0xF0)
    (ht : 0x80 ≤ t.toNat ∧ t.toNat ≤ 0xBF) (hu : 0x80 ≤ u.toNat ∧ u.toNat ≤ 0xBF)
    (h0 : b.toNat = 0xE0 → 0xA0 ≤ t.toNat) (hd : b.toNat = 0xED → t.toNat ≤ 0x9F) :
    encodeChar (Char.ofNat ((b.toNat % 16 * 64 + t.toNat % 64) * 64 + u.toNat % 64)) =
      [b, t, u] := by
  generalize hv : (b.toNat % 16 * 64 + t.toNat % 64) * 64 + u.toNat % 64 = v
  have hn : (Char.ofNat v).toNat = v := toNat_ofNat (by omega)
  simp only [encodeChar, hn]
  rw [if_neg (by omega), if_neg (by omega), if_pos (by omega), eq_toUInt8 (b := b) (by omega),
    eq_toUInt8 (b := t) (by omega), eq_toUInt8 (b := u) (by omega)]

theorem encodeChar_four {b t u w : UInt8} (hb : 0xF0 ≤ b.toNat ∧ b.toNat < 0xF5)
    (ht : 0x80 ≤ t.toNat ∧ t.toNat ≤ 0xBF) (hu : 0x80 ≤ u.toNat ∧ u.toNat ≤ 0xBF)
    (hw : 0x80 ≤ w.toNat ∧ w.toNat ≤ 0xBF)
    (h0 : b.toNat = 0xF0 → 0x90 ≤ t.toNat) (h4 : b.toNat = 0xF4 → t.toNat ≤ 0x8F) :
    encodeChar (Char.ofNat
      (((b.toNat % 8 * 64 + t.toNat % 64) * 64 + u.toNat % 64) * 64 + w.toNat % 64)) =
      [b, t, u, w] := by
  generalize hv : ((b.toNat % 8 * 64 + t.toNat % 64) * 64 + u.toNat % 64) * 64 + w.toNat % 64 = v
  have hn : (Char.ofNat v).toNat = v := toNat_ofNat (by omega)
  simp only [encodeChar, hn]
  rw [if_neg (by omega), if_neg (by omega), if_neg (by omega), eq_toUInt8 (b := b) (by omega),
    eq_toUInt8 (b := t) (by omega), eq_toUInt8 (b := u) (by omega), eq_toUInt8 (b := w) (by omega)]

/-- **Octets in the ranges** of an open character are its other octets. -/
theorem encodeChar_of_fits {b : UInt8} {p : Pending} (h : first b = ([], some p))
    {tail : List UInt8} (hfit : Fits p.ranges tail) :
    encodeChar (Char.ofNat (valueFrom p.value tail)) = b :: tail := by
  cases opens b with
  | ascii _ hf | broken _ hf =>
    rw [hf] at h
    cases h
  | two hb hf =>
    rw [hf] at h
    cases h
    obtain ⟨t, rfl, ht⟩ := fits_one.mp hfit
    exact encodeChar_two hb ht
  | three hb r hf hr =>
    rw [hf] at h
    cases h
    obtain ⟨t, _, rfl, ht, hlast⟩ := fits_cons.mp hfit
    obtain ⟨u, rfl, hu⟩ := fits_one.mp hlast
    obtain ⟨ht, h0, hd⟩ := (hr _).mp ht
    exact encodeChar_three hb ht hu h0 hd
  | four hb r hf hr =>
    rw [hf] at h
    cases h
    obtain ⟨t, _, rfl, ht, hlater⟩ := fits_cons.mp hfit
    obtain ⟨u, _, rfl, hu, hlast⟩ := fits_cons.mp hlater
    obtain ⟨w, rfl, hw⟩ := fits_one.mp hlast
    obtain ⟨ht, h0, h4⟩ := (hr _).mp ht
    exact encodeChar_four hb ht hu hw h0 h4

/-- An open character can be ended. -/
theorem exists_fits {b : UInt8} {p : Pending} (h : first b = ([], some p)) :
    ∃ tail, Fits p.ranges tail := by
  have htail : Range.tail.low ≤ (0x80 : UInt8).toNat ∧ (0x80 : UInt8).toNat ≤ Range.tail.high := by
    decide
  cases opens b with
  | ascii _ hf | broken _ hf =>
    rw [hf] at h
    cases h
  | two hb hf =>
    rw [hf] at h
    cases h
    exact ⟨[0x80], htail, trivial⟩
  | three hb r hf hr =>
    rw [hf] at h
    cases h
    by_cases h0 : b.toNat = 0xE0
    · have hnext := (hr (0xA0 : UInt8).toNat).mpr ⟨by decide, fun _ => by decide, by omega⟩
      exact ⟨[0xA0, 0x80], hnext, htail, trivial⟩
    · have hnext := (hr (0x80 : UInt8).toNat).mpr ⟨by decide, by omega, fun _ => by decide⟩
      exact ⟨[0x80, 0x80], hnext, htail, trivial⟩
  | four hb r hf hr =>
    rw [hf] at h
    cases h
    by_cases h0 : b.toNat = 0xF0
    · have hnext := (hr (0x90 : UInt8).toNat).mpr ⟨by decide, fun _ => by decide, by omega⟩
      exact ⟨[0x90, 0x80, 0x80], hnext, htail, htail, trivial⟩
    · have hnext := (hr (0x80 : UInt8).toNat).mpr ⟨by decide, by omega, fun _ => by decide⟩
      exact ⟨[0x80, 0x80, 0x80], hnext, htail, htail, trivial⟩

/-! ### The machine -/

/-- Of the octets after an open character, `tail` fits as a start of what it needs, and with the
next octet nothing does. -/
structure Breaks (p : Pending) (tail rest : List UInt8) : Prop where
  start : ∃ more, Fits p.ranges (tail ++ more)
  not_fits : ∀ whole, Fits p.ranges whole → ¬ whole <+: tail ++ rest
  longest : ∀ b more, rest.head? = some b → ¬ Fits p.ranges (tail ++ b :: more)

/-- **After an open character** its other octets stand, or it breaks off as one piece. -/
theorem piecesFrom_some_cases (p : Pending) (octets : List UInt8)
    (hp : ∃ more, Fits p.ranges more) :
    (∃ tail rest, octets = tail ++ rest ∧ Fits p.ranges tail) ∨
    ∃ tail rest piece, octets = tail ++ rest ∧ Breaks p tail rest ∧ piece.toChar = '\uFFFD' ∧
      piecesFrom [] (some p) octets = piece :: pieces rest := by
  induction octets generalizing p with
  | nil =>
    refine Or.inr ⟨[], [], .truncated p.length, rfl, ⟨hp, ?_, by simp⟩, rfl, rfl⟩
    intro whole hwhole hpre
    rw [List.prefix_nil.mp hpre] at hwhole
    exact hwhole
  | cons b rest ih =>
    obtain ⟨more, hmore⟩ := hp
    obtain ⟨m, others, rfl, -, hothers⟩ := fits_cons.mp hmore
    by_cases hb : p.next.low ≤ b.toNat ∧ b.toNat ≤ p.next.high
    · rw [piecesFrom_cons, step_of_mem hb]
      rcases hl : p.later with _ | ⟨next, later⟩
      · exact Or.inl ⟨[b], rest, rfl, hb, by rw [hl]; trivial⟩
      have hfits {octets : List UInt8} :
          Fits p.ranges (b :: octets) ↔ Fits (next :: later) octets := by
        rw [Pending.ranges, hl]
        exact and_iff_right hb
      rw [hl] at hothers
      rcases ih ⟨p.value * 64 + b.toNat % 64, p.length + 1, next, later⟩ ⟨others, hothers⟩ with
        ⟨tail, rest', rfl, ht⟩ | ⟨tail, rest', piece, rfl, hbreaks, hc, he⟩
      · exact Or.inl ⟨b :: tail, rest', rfl, hfits.mpr ht⟩
      · obtain ⟨more', hm'⟩ := hbreaks.start
        refine Or.inr ⟨b :: tail, rest', piece, rfl, ⟨⟨more', hfits.mpr hm'⟩, ?_, ?_⟩, hc, he⟩
        · intro whole hwhole hpre
          obtain ⟨b', whole, rfl, -, -⟩ := fits_cons.mp hwhole
          obtain ⟨rfl, htail⟩ := List.cons_prefix_cons.mp hpre
          exact hbreaks.not_fits whole (hfits.mp hwhole) htail
        · exact fun b' more hb' hmore => hbreaks.longest b' more hb' (hfits.mp hmore)
    · have hcontains : p.next.contains b = false := by
        simpa [Range.contains] using hb
      refine Or.inr ⟨[], b :: rest, .broken p.length, rfl, ⟨⟨_, hmore⟩, ?_, ?_⟩, rfl, ?_⟩
      · intro whole hwhole hpre
        obtain ⟨b', whole, rfl, hb', -⟩ := fits_cons.mp hwhole
        obtain ⟨rfl, -⟩ := List.cons_prefix_cons.mp hpre
        exact hb hb'
      · intro b' more hb' hmore
        obtain rfl : b = b' := Option.some.inj hb'
        exact hb hmore.1
      · rw [piecesFrom_cons, step, hcontains, pieces, piecesFrom_cons, step]
        rfl

/-- An octet that opens a character leads the octets of a character or a faulty part. -/
theorem pieces_cases_of_open {b : UInt8} {p : Pending} (h : first b = ([], some p))
    (octets : List UInt8) :
    (∃ c rest, b :: octets = encodeChar c ++ rest) ∨
    ∃ part rest piece, b :: octets = part ++ rest ∧ IsFaulty part rest ∧
      piece.toChar = '\uFFFD' ∧ pieces (b :: octets) = piece :: pieces rest := by
  have hfits {c : Char} {tail : List UInt8} (hc : encodeChar c = b :: tail) :
      Fits p.ranges tail := by
    rcases first_of_encodeChar hc with ⟨-, hf⟩ | ⟨q, hf, hq, -⟩
    · rw [h] at hf
      cases hf
    · rw [h] at hf
      cases hf
      exact hq
  rcases piecesFrom_some_cases p octets (exists_fits h) with
    ⟨tail, rest, rfl, ht⟩ | ⟨tail, rest, piece, rfl, hbreaks, hc, he⟩
  · exact Or.inl ⟨_, rest, by rw [encodeChar_of_fits h ht, List.cons_append]⟩
  · refine Or.inr ⟨b :: tail, rest, piece, rfl,
      ⟨List.cons_ne_nil b tail, ?_, Or.inr ?_, ?_⟩, hc, ?_⟩
    · intro c hpre
      obtain ⟨b', whole, hc'⟩ := List.exists_cons_of_ne_nil (encodeChar_ne_nil c)
      rw [← encodeChar_eq_utf8EncodeChar, hc'] at hpre
      obtain ⟨rfl, hwhole⟩ := List.cons_prefix_cons.mp hpre
      exact hbreaks.not_fits whole (hfits hc') hwhole
    · obtain ⟨more, hmore⟩ := hbreaks.start
      have hchar := encodeChar_of_fits h hmore
      rw [encodeChar_eq_utf8EncodeChar] at hchar
      exact ⟨_, more, hchar.symm⟩
    · rintro longer ⟨last, hlonger⟩ hlt ⟨c, more, hmore⟩
      rw [← encodeChar_eq_utf8EncodeChar] at hmore
      -- What is longer has the next octet as well.
      have hpre : b :: tail <+: longer :=
        List.prefix_of_prefix_length_le ⟨rest, rfl⟩ ⟨last, hlonger⟩ (by omega)
      obtain ⟨added, rfl⟩ := hpre
      obtain ⟨b', added, rfl⟩ : ∃ b' others, added = b' :: others := by
        refine List.exists_cons_of_ne_nil ?_
        rintro rfl
        simp at hlt
      have hrest : b' :: added ++ last = rest := by simpa using hlonger
      refine hbreaks.longest b' (added ++ more) (by rw [← hrest]; rfl) (hfits (c := c) ?_)
      rw [← hmore]
      simp
    · rw [pieces, piecesFrom_cons, step, h]
      exact he

/-- **In front of octets** stands a character, or a faulty part as the first piece. -/
theorem pieces_cases (b : UInt8) (octets : List UInt8) :
    (∃ c rest, b :: octets = encodeChar c ++ rest) ∨
    ∃ part rest piece, b :: octets = part ++ rest ∧ IsFaulty part rest ∧
      piece.toChar = '\uFFFD' ∧ pieces (b :: octets) = piece :: pieces rest := by
  cases opens b with
  | ascii hb hf =>
    have hn : (Char.ofNat b.toNat).toNat = b.toNat := toNat_ofNat (by omega)
    refine Or.inl ⟨Char.ofNat b.toNat, octets, ?_⟩
    rw [encodeChar_of_lt (by rw [hn]; exact hb), hn, eq_toUInt8 rfl]
    rfl
  | broken hb hf =>
    have hnone (c : Char) (tail : List UInt8) : encodeChar c ≠ b :: tail := by
      intro hc
      rcases first_of_encodeChar hc with ⟨-, hf'⟩ | ⟨p, hf', -⟩ <;> rw [hf] at hf' <;> cases hf'
    refine Or.inr ⟨[b], octets, .broken 1, rfl,
      ⟨List.cons_ne_nil b [], ?_, Or.inl rfl, ?_⟩, rfl, ?_⟩
    · intro c hpre
      obtain ⟨b', tail, hc⟩ := List.exists_cons_of_ne_nil (encodeChar_ne_nil c)
      rw [← encodeChar_eq_utf8EncodeChar, hc] at hpre
      obtain ⟨rfl, -⟩ := List.cons_prefix_cons.mp hpre
      exact hnone c tail hc
    · rintro longer hpre hlt ⟨c, more, hmore⟩
      rw [← encodeChar_eq_utf8EncodeChar] at hmore
      rcases longer with _ | ⟨b', longer⟩
      · simp at hlt
      obtain ⟨rfl, -⟩ := List.cons_prefix_cons.mp hpre
      exact hnone c _ hmore.symm
    · rw [pieces, piecesFrom_cons, step, hf]
      rfl
  | two _ hf | three _ _ hf | four _ _ hf => exact pieces_cases_of_open hf octets

/-! ### Lenient reading -/

theorem decode_encodeChar_append (c : Char) (rest : List UInt8) :
    decode (encodeChar c ++ rest) = c :: decode rest := by
  rw [decode, pieces_encodeChar_append]
  rfl

theorem decode_of_isFaulty {part rest : List UInt8} (h : IsFaulty part rest) :
    decode (part ++ rest) = '\uFFFD' :: decode rest := by
  obtain ⟨b, part', rfl⟩ := List.exists_cons_of_ne_nil h.ne_nil
  rcases pieces_cases b (part' ++ rest) with
    ⟨c, rest', hc⟩ | ⟨part, rest', piece, he, hf, hp, hpieces⟩
  · rw [encodeChar_eq_utf8EncodeChar] at hc
    exact absurd ⟨rest', hc.symm⟩ (h.no_char c)
  · obtain ⟨-, rfl⟩ := h.unique hf he
    rw [decode, List.cons_append, hpieces, List.map_cons, hp]
    rfl

theorem lenient_decode (octets : List UInt8) : Lenient octets (decode octets) := by
  match octets with
  | [] => exact .nil
  | b :: octets' =>
    rcases pieces_cases b octets' with ⟨c, rest, he⟩ | ⟨part, rest, piece, he, hf, -, -⟩
    · have hpos := List.length_pos_iff.mpr (encodeChar_ne_nil c)
      have hlt : rest.length < (b :: octets').length := by rw [he, List.length_append]; omega
      rw [he, decode_encodeChar_append, encodeChar_eq_utf8EncodeChar]
      exact .char c (lenient_decode rest)
    · have hpos := List.length_pos_iff.mpr hf.ne_nil
      have hlt : rest.length < (b :: octets').length := by rw [he, List.length_append]; omega
      rw [he, decode_of_isFaulty hf]
      exact .faulty hf (lenient_decode rest)
termination_by octets.length
decreasing_by all_goals exact hlt

/-- **Lenient reading** is what `decode` does. -/
theorem lenient_iff {octets : List UInt8} {text : List Char} :
    Lenient octets text ↔ decode octets = text := by
  constructor
  · intro h
    induction h with
    | nil => rfl
    | char c _ ih => rw [← encodeChar_eq_utf8EncodeChar, decode_encodeChar_append, ih]
    | faulty hp _ ih => rw [decode_of_isFaulty hp, ih]
  · rintro rfl
    exact lenient_decode octets

/-! ### Valid octets -/

theorem utf8Encode_eq (text : List Char) : text.utf8Encode = (encode text).toByteArray := by
  rw [List.utf8Encode, encode, funext encodeChar_eq_utf8EncodeChar]

/-- The octets of a text. -/
theorem encode_toList (s : String) : encode s.toList = s.toUTF8.data.toList := by
  rw [String.toUTF8, ← String.utf8Encode_toList, utf8Encode_eq, List.toList_data_toByteArray]

/-- **Valid octets** are those of a text. -/
theorem isValidUTF8_iff {octets : List UInt8} :
    octets.toByteArray.IsValidUTF8 ↔ ∃ text, encode text = octets := by
  constructor
  · rintro ⟨text, h⟩
    rw [utf8Encode_eq] at h
    have hdata := congrArg (fun bytes : ByteArray => bytes.data.toList) h
    simp only [List.toList_data_toByteArray] at hdata
    exact ⟨text, hdata.symm⟩
  · rintro ⟨text, rfl⟩
    exact ⟨text, (utf8Encode_eq text).symm⟩

end TestTree.Text.Utf8
