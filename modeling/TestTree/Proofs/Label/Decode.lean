import TestTree.Proofs.Label
import TestTree.Proofs.Text.Utf8

/-! # What any text is decoded to

A label is read from a form whose separators are escaped first, in two passes for plus signs and for
escapes. For any text this comes to the plain decoder, which knows no separators and takes the
octets once from left to right.

* `unescape_map_plusToSpace`: the two passes are one.
* `plain_flatMap_escapeSeparatorOctet`: the plain decoder undoes the escapes of separators, and
  these never join with what stands before them, since no hexadecimal digit is a separator or a
  percent sign.
* `decode_eq_iff_lenient_plain`: a label is decoded to the text of the octets that the plain decoder
  gives. -/

namespace TestTree.Text.Form

/-- The value of a hexadecimal digit: its place among the digits, in either case. -/
def digitValue? (b : UInt8) : Option Nat :=
  ("0123456789ABCDEF".toList.map Char.toUInt8).idxOf? b <|>
    ("0123456789abcdef".toList.map Char.toUInt8).idxOf? b

/-- **The plain decoder**, from left to right: a percent sign with two hexadecimal digits after it
is their octet, a plus sign is a space, and every other octet is kept. -/
def plain : List UInt8 → List UInt8
  | [] => []
  | b :: high :: low :: rest =>
    match digitValue? high, digitValue? low with
    | some h, some l =>
      if b = '%'.toUInt8 then (16 * h + l).toUInt8 :: plain rest
      else plusToSpace b :: plain (high :: low :: rest)
    | _, _ => plusToSpace b :: plain (high :: low :: rest)
  | b :: rest => plusToSpace b :: plain rest

/-! ### Digits after a percent sign -/

theorem digitValue?_eq_hexValue? : digitValue? = hexValue? := by
  have hall : ∀ n < 256, digitValue? n.toUInt8 = hexValue? n.toUInt8 := by decide +kernel
  funext b
  have hb := hall b.toNat b.toNat_lt
  rwa [show b.toNat.toUInt8 = b from UInt8.ofNat_toNat] at hb

/-- The octets of a text, taken as the plain decoder takes them: an escape at once, and otherwise
one by one. -/
theorem plain_induction {motive : List UInt8 → Prop} (nil : motive [])
    (escape : ∀ high low rest h l, hexValue? high = some h → hexValue? low = some l →
      motive rest → motive (0x25 :: high :: low :: rest))
    (single : ∀ b rest, (b = 0x25 → ¬ StartsHex rest) → motive rest → motive (b :: rest))
    (octets : List UInt8) : motive octets := by
  induction octets using plain.induct with
  | case1 => exact nil
  | case2 high low rest h l hl hh ih =>
    rw [digitValue?_eq_hexValue?] at hl hh
    exact escape high low rest h l hh hl ih
  | case3 b high low rest h l hl hh hb ih => exact single b _ (fun he => absurd he hb) ih
  | case4 b high low rest hnone ih =>
    refine single b _ (fun _ => ?_) ih
    rintro ⟨_, _, _, h, l, he, hh, hl⟩
    cases he
    rw [digitValue?_eq_hexValue?] at hnone
    exact hnone h l hh hl
  | case5 b rest hshort ih =>
    refine single b rest (fun _ => ?_) ih
    rintro ⟨high, low, rest', h, l, he, -, -⟩
    exact hshort high low rest' he

theorem plain_escape {high low : UInt8} {h l : Nat} (hh : hexValue? high = some h)
    (hl : hexValue? low = some l) (rest : List UInt8) :
    plain (0x25 :: high :: low :: rest) = (16 * h + l).toUInt8 :: plain rest := by
  rw [plain, digitValue?_eq_hexValue?, hh, hl]
  exact if_pos rfl

theorem plain_single {b : UInt8} {rest : List UInt8} (h : b = 0x25 → ¬ StartsHex rest) :
    plain (b :: rest) = plusToSpace b :: plain rest := by
  match rest with
  | [] => rfl
  | [_] => rfl
  | high :: low :: rest =>
    rw [plain, digitValue?_eq_hexValue?]
    split
    · next x y hh hl => exact if_neg fun hb => h hb ⟨high, low, rest, x, y, rfl, hh, hl⟩
    · rfl

/-! ### One pass -/

/-- A plus sign and a space are no digits. -/
theorem hexValue?_plusToSpace (b : UInt8) : hexValue? (plusToSpace b) = hexValue? b := by
  unfold plusToSpace
  split
  · next hb =>
    subst hb
    rfl
  · rfl

theorem plusToSpace_eq_percent_iff {b : UInt8} : plusToSpace b = 0x25 ↔ b = 0x25 := by
  unfold plusToSpace
  split
  · next hb =>
    subst hb
    decide
  · rfl

theorem startsHex_map_plusToSpace {octets : List UInt8} :
    StartsHex (octets.map plusToSpace) ↔ StartsHex octets := by
  constructor
  · rintro ⟨high, low, rest, h, l, he, hh, hl⟩
    obtain ⟨high, later, rfl, rfl, hlater⟩ := List.map_eq_cons_iff.mp he
    obtain ⟨low, rest, rfl, rfl, -⟩ := List.map_eq_cons_iff.mp hlater
    rw [hexValue?_plusToSpace] at hh hl
    exact ⟨high, low, rest, h, l, rfl, hh, hl⟩
  · rintro ⟨high, low, rest, h, l, rfl, hh, hl⟩
    exact ⟨_, _, _, h, l, rfl, by rwa [hexValue?_plusToSpace], by rwa [hexValue?_plusToSpace]⟩

/-- **Two passes are one**: no plus sign and no space takes part in an escape. -/
theorem unescape_map_plusToSpace (octets : List UInt8) :
    unescape (octets.map plusToSpace) = plain octets := by
  induction octets using plain_induction with
  | nil => rfl
  | escape high low rest h l hh hl ih =>
    have he : escape? 0x25 (plusToSpace high) (plusToSpace low) = some (16 * h + l).toUInt8 := by
      rw [escape?, hexValue?_plusToSpace, hexValue?_plusToSpace, hh, hl]
      rfl
    rw [plain_escape hh hl, ← ih]
    exact unescape_escape he _
  | single b rest hb ih =>
    rw [plain_single hb, ← ih, List.map_cons, unescape_single]
    rw [plusToSpace_eq_percent_iff, startsHex_map_plusToSpace]
    exact hb

/-! ### Separators -/

/-- An octet, with the separators of forms escaped. -/
def escapeSeparatorOctet (b : UInt8) : List UInt8 :=
  if b = 0x26 then [0x25, 0x32, 0x36] else if b = 0x3D then [0x25, 0x33, 0x44] else [b]

/-- In front of octets whose separators are escaped stands a digit only if it was there. -/
theorem exists_of_flatMap_eq_cons {octets rest : List UInt8} {b : UInt8} {n : Nat}
    (h : octets.flatMap escapeSeparatorOctet = b :: rest) (hb : hexValue? b = some n) :
    ∃ later, octets = b :: later ∧ later.flatMap escapeSeparatorOctet = rest := by
  cases octets with
  | nil => cases h
  | cons a later =>
    rw [List.flatMap_cons, escapeSeparatorOctet] at h
    split at h
    · cases h
      cases hb
    split at h
    · cases h
      cases hb
    · cases h
      exact ⟨later, rfl, rfl⟩

theorem startsHex_of_flatMap {octets : List UInt8}
    (h : StartsHex (octets.flatMap escapeSeparatorOctet)) : StartsHex octets := by
  obtain ⟨high, low, rest, h, l, he, hh, hl⟩ := h
  obtain ⟨later, rfl, hlater⟩ := exists_of_flatMap_eq_cons he hh
  obtain ⟨rest, rfl, -⟩ := exists_of_flatMap_eq_cons hlater hl
  exact ⟨high, low, rest, h, l, rfl, hh, hl⟩

theorem escapeSeparatorOctet_of_hexValue? {b : UInt8} {n : Nat} (h : hexValue? b = some n) :
    escapeSeparatorOctet b = [b] := by
  unfold escapeSeparatorOctet
  split
  · next hb =>
    subst hb
    cases h
  split
  · next hb =>
    subst hb
    cases h
  · rfl

theorem flatMap_escapeSeparatorOctet {octets : List UInt8} (ha : 0x26 ∉ octets)
    (he : 0x3D ∉ octets) : octets.flatMap escapeSeparatorOctet = octets := by
  induction octets with
  | nil => rfl
  | cons b rest ih =>
    simp only [List.mem_cons, not_or] at ha he
    rw [List.flatMap_cons, ih ha.2 he.2, escapeSeparatorOctet, if_neg (Ne.symm ha.1),
      if_neg (Ne.symm he.1)]
    rfl

/-- **Escapes of separators are undone**, and nothing else is changed by them. -/
theorem plain_flatMap_escapeSeparatorOctet (octets : List UInt8) :
    plain (octets.flatMap escapeSeparatorOctet) = plain octets := by
  have h2 : hexValue? 0x32 = some 2 := rfl
  have h3 : hexValue? 0x33 = some 3 := rfl
  have h6 : hexValue? 0x36 = some 6 := rfl
  have hD : hexValue? 0x44 = some 13 := rfl
  induction octets using plain_induction with
  | nil => rfl
  | escape high low rest h l hh hl ih =>
    rw [plain_escape hh hl, ← ih]
    simp only [List.flatMap_cons, escapeSeparatorOctet_of_hexValue? hh,
      escapeSeparatorOctet_of_hexValue? hl]
    exact plain_escape hh hl _
  | single b rest hb ih =>
    rw [plain_single hb, ← ih, List.flatMap_cons, escapeSeparatorOctet]
    split
    · next hsep =>
      subst hsep
      exact plain_escape h2 h6 _
    split
    · next hsep =>
      subst hsep
      exact plain_escape h3 hD _
    · exact plain_single fun he hhex => hb he (startsHex_of_flatMap hhex)

end TestTree.Text.Form

namespace TestTree.Label

open Text

/-! ### Labels -/

theorem encode_escapeSeparator (c : Char) :
    Utf8.encode (escapeSeparator c) = (Utf8.encode [c]).flatMap Form.escapeSeparatorOctet := by
  unfold escapeSeparator
  split
  · next hc =>
    subst hc
    rfl
  split
  · next hc =>
    subst hc
    rfl
  · next ha he =>
    refine (Form.flatMap_escapeSeparatorOctet (Utf8.notMem_encode (by decide) ?_)
      (Utf8.notMem_encode (by decide) ?_)).symm
    · exact fun h => ha (List.mem_singleton.mp h).symm
    · exact fun h => he (List.mem_singleton.mp h).symm

/-- The separators are escaped in the octets of a text as they are in the text. -/
theorem encode_flatMap_escapeSeparator (form : List Char) :
    Utf8.encode (form.flatMap escapeSeparator) =
      (Utf8.encode form).flatMap Form.escapeSeparatorOctet := by
  induction form with
  | nil => rfl
  | cons c rest ih =>
    rw [← List.singleton_append, List.flatMap_append, Utf8.encode_append, Utf8.encode_append,
      List.flatMap_append, ih, List.flatMap_singleton, encode_escapeSeparator]

theorem notMem_flatMap_escapeSeparator {d : Char} (hd : d = '&' ∨ d = '=') (form : List Char) :
    d ∉ form.flatMap escapeSeparator := by
  intro h
  obtain ⟨c, -, hc⟩ := List.mem_flatMap.mp h
  unfold escapeSeparator at hc
  split_ifs at hc with ha he
  · rcases hd with rfl | rfl <;> revert hc <;> decide
  · rcases hd with rfl | rfl <;> revert hc <;> decide
  · obtain rfl := List.mem_singleton.mp hc
    exact hd.elim ha he

/-- A label is the text of what the plain decoder gives. -/
theorem toList_decode (form : String) :
    (decode form).toList = Utf8.decode (Form.plain (Utf8.encode form.toList)) := by
  have ha := notMem_flatMap_escapeSeparator (.inl rfl) form.toList
  have he := notMem_flatMap_escapeSeparator (.inr rfl) form.toList
  have hpasses := Form.unescape_map_plusToSpace (Utf8.encode (form.toList.flatMap escapeSeparator))
  unfold Form.plusToSpace at hpasses
  rw [decode, String.toList_ofList, Form.parse_of_notMem (Utf8.notMem_encode (by decide) ha)
    (Utf8.notMem_encode (by decide) he), Form.decodePart, hpasses, encode_flatMap_escapeSeparator,
    Form.plain_flatMap_escapeSeparatorOctet]

/-- **Any text is decoded** as the plain decoder decodes its octets, which are then read as UTF-8
with U+FFFD for each faulty part. -/
theorem decode_eq_iff_lenient_plain (form label : String) :
    decode form = label ↔
      Utf8.Lenient (Form.plain form.toUTF8.data.toList) label.toList := by
  rw [Utf8.lenient_iff, ← Utf8.encode_toList, ← toList_decode, String.toList_inj]

end TestTree.Label
