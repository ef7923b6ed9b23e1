import TestTree.Path.Label
import TestTree.Proofs.Text.Ascii
import TestTree.Proofs.Text.Split
import Mathlib.Tactic.SplitIfs

/-! # Labels are read back

* `isPlain_of_mem_encode`: the form of a text has only characters that are plain in a form, so none
  of the separators `&`, `=` and `/`.
* `decodePart_encode`: undoing plus signs and escapes gives back the octets, one by one.
* `decode_encode`: a label is read back from its form.
* `fields_encode`: an encoded path is cut at its slashes into the forms of its labels. -/

namespace TestTree.Text.Form

/-! ### The characters of forms -/

/-- A character that a form has: one that stands for itself, or one of an escape. -/
def isPlain (c : Char) : Bool :=
  c = '%' || c = '+' || (c.toNat < 0x80 && isUnreserved c.toNat.toUInt8)

theorem isPlain_hexDigit : ∀ n < 16, isPlain (hexDigit n) = true := by decide

/-- A hexadecimal digit is one octet, with its value, and neither a plus nor a percent sign. -/
theorem hexValue?_hexDigit : ∀ n < 16, (hexDigit n).toNat < 0x80 ∧
    hexValue? (hexDigit n).toNat.toUInt8 = some n ∧ (hexDigit n).toNat.toUInt8 ≠ 0x2B := by
  decide

/-- An octet that stands for itself is ASCII, and neither a plus nor a percent sign. -/
theorem of_isUnreserved {b : UInt8} (h : isUnreserved b = true) :
    b.toNat < 0x80 ∧ b ≠ 0x2B ∧ b ≠ 0x25 := by
  refine ⟨?_, by rintro rfl; revert h; decide, by rintro rfl; revert h; decide⟩
  simp only [isUnreserved, Bool.or_eq_true, Bool.and_eq_true, decide_eq_true_eq] at h
  omega

theorem isPlain_of_mem_encodeOctet {b : UInt8} {c : Char} (h : c ∈ encodeOctet b) :
    isPlain c = true := by
  have hb : b.toNat < 256 := b.toNat_lt
  unfold encodeOctet at h
  split_ifs at h with hu hs
  · obtain ⟨hlt, -, -⟩ := of_isUnreserved hu
    have hn : (Char.ofNat b.toNat).toNat = b.toNat := Utf8.toNat_ofNat (by omega)
    rw [List.mem_singleton] at h
    simp [isPlain, h, hn, hlt, hu]
  · rw [List.mem_singleton] at h
    subst h; rfl
  · simp only [List.mem_cons, List.not_mem_nil, or_false] at h
    rcases h with rfl | rfl | rfl
    · rfl
    · exact isPlain_hexDigit _ (by omega)
    · exact isPlain_hexDigit _ (by omega)

/-- **The form of a text has plain characters only.** -/
theorem isPlain_of_mem_encode {text : List Char} {c : Char} (h : c ∈ encode text) :
    isPlain c = true := by
  obtain ⟨b, -, hc⟩ := List.mem_flatMap.mp h
  exact isPlain_of_mem_encodeOctet hc

theorem notMem_encode {text : List Char} {c : Char} (h : isPlain c = false) : c ∉ encode text :=
  fun hc => by simp [isPlain_of_mem_encode hc] at h

/-! ### Undoing escapes -/

/-- A plus sign is a space. -/
def plusToSpace (b : UInt8) : UInt8 := if b = 0x2B then 0x20 else b

/-- Two hexadecimal digits stand in front. -/
def StartsHex (octets : List UInt8) : Prop :=
  ∃ high low rest h l, octets = high :: low :: rest ∧ hexValue? high = some h ∧
    hexValue? low = some l

/-- An octet that begins no escape stays. -/
theorem unescape_single {b : UInt8} {rest : List UInt8} (h : b = 0x25 → ¬ StartsHex rest) :
    unescape (b :: rest) = b :: unescape rest := by
  match rest with
  | [] => rfl
  | [_] => rfl
  | high :: low :: rest =>
    have he : escape? b high low = none := by
      unfold escape?
      split
      · next x y hh hl => exact if_neg fun hb => h hb ⟨high, low, rest, x, y, rfl, hh, hl⟩
      · rfl
    rw [unescape, he]

theorem unescape_cons_of_ne {a : UInt8} (h : a ≠ 0x25) (rest : List UInt8) :
    unescape (a :: rest) = a :: unescape rest :=
  unescape_single fun ha => absurd ha h

theorem unescape_escape {a b c octet : UInt8} (h : escape? a b c = some octet)
    (rest : List UInt8) : unescape (a :: b :: c :: rest) = octet :: unescape rest := by
  rw [unescape, h]

/-- **One octet is read back.** -/
theorem unescape_encodeOctet (b : UInt8) (rest : List UInt8) :
    unescape ((Utf8.encode (encodeOctet b) ++ rest).map plusToSpace) =
      b :: unescape (rest.map plusToSpace) := by
  have hb : b.toNat < 256 := b.toNat_lt
  unfold encodeOctet
  split_ifs with hu hs
  · obtain ⟨hlt, hplus, hpercent⟩ := of_isUnreserved hu
    have hn : (Char.ofNat b.toNat).toNat = b.toNat := Utf8.toNat_ofNat (by omega)
    have he : Utf8.encode [Char.ofNat b.toNat] = [b] := by
      simp [Utf8.encodeChar_of_lt, hn, hlt]
    rw [he, List.singleton_append, List.map_cons, plusToSpace, if_neg hplus,
      unescape_cons_of_ne hpercent]
  · subst hs
    exact unescape_cons_of_ne (by decide) _
  · obtain ⟨hl1, hv1, hp1⟩ := hexValue?_hexDigit (b.toNat / 16) (by omega)
    obtain ⟨hl2, hv2, hp2⟩ := hexValue?_hexDigit (b.toNat % 16) (by omega)
    have he : Utf8.encode ['%', hexDigit (b.toNat / 16), hexDigit (b.toNat % 16)] =
        [0x25, (hexDigit (b.toNat / 16)).toNat.toUInt8,
          (hexDigit (b.toNat % 16)).toNat.toUInt8] := by
      simp only [Utf8.encode_cons, Utf8.encode_nil, Utf8.encodeChar_of_lt hl1,
        Utf8.encodeChar_of_lt hl2]
      rfl
    have hx : escape? 0x25 (hexDigit (b.toNat / 16)).toNat.toUInt8
        (hexDigit (b.toNat % 16)).toNat.toUInt8 = some b := by
      rw [escape?, hv1, hv2]
      simp only [if_true, Option.some.injEq]
      rw [show 16 * (b.toNat / 16) + b.toNat % 16 = b.toNat by omega]
      simp
    rw [he]
    simp only [List.cons_append, List.nil_append, List.map_cons, plusToSpace, if_neg hp1,
      if_neg hp2]
    exact unescape_escape hx _

theorem unescape_encode (octets : List UInt8) :
    unescape ((Utf8.encode (octets.flatMap encodeOctet)).map plusToSpace) = octets := by
  induction octets with
  | nil => rfl
  | cons b rest ih => rw [List.flatMap_cons, Utf8.encode_append, unescape_encodeOctet, ih]

/-- **A part is read back.** -/
theorem decodePart_encode (text : List Char) : decodePart (Utf8.encode (encode text)) = text := by
  have h := unescape_encode (Utf8.encode text)
  unfold plusToSpace at h
  rw [decodePart, encode, h, Utf8.decode_encode]

/-- A form without separators has one name at most, which is all of it. -/
theorem parse_of_notMem {octets : List UInt8} (ha : 0x26 ∉ octets) (he : 0x3D ∉ octets) :
    (parse octets).flatMap (·.1) = decodePart octets := by
  have hc : cutFirst [0x3D] octets = none := by
    rw [cutFirst_eq_none_iff]
    exact fun hi => he (hi.subset (by simp))
  rw [parse, fields_of_notMem ha]
  cases octets with
  | nil => rfl
  | cons b rest => simp [parseField, hc]

end TestTree.Text.Form

namespace TestTree

/-! ### Labels -/

theorem Label.flatMap_escapeSeparator {form : List Char} (ha : '&' ∉ form) (he : '=' ∉ form) :
    form.flatMap Label.escapeSeparator = form := by
  induction form with
  | nil => rfl
  | cons c rest ih =>
    simp only [List.mem_cons, not_or] at ha he
    rw [List.flatMap_cons, ih ha.2 he.2, Label.escapeSeparator, if_neg (Ne.symm ha.1),
      if_neg (Ne.symm he.1)]
    rfl

/-- **A label is read back.** -/
theorem Label.decode_encode (label : String) : Label.decode (Label.encode label) = label := by
  have ha : '&' ∉ Text.Form.encode label.toList := Text.Form.notMem_encode (by decide)
  have he : '=' ∉ Text.Form.encode label.toList := Text.Form.notMem_encode (by decide)
  rw [Label.decode, Label.encode, String.toList_ofList, flatMap_escapeSeparator ha he,
    Text.Form.parse_of_notMem (Text.Utf8.notMem_encode (by decide) ha)
    (Text.Utf8.notMem_encode (by decide) he), Text.Form.decodePart_encode, String.ofList_toList]

theorem Label.slash_notMem_encode (label : String) : '/' ∉ (Label.encode label).toList := by
  rw [Label.encode, String.toList_ofList]
  exact Text.Form.notMem_encode (by decide)

/-! ### Paths -/

/-- **An encoded path is cut at its slashes** into the forms of its labels. The root is written like
the path with one blank label. -/
theorem Path.fields_encode (p : Path) :
    Text.fields '/' p.encode.toList =
      ((Label.encode (p.labels.headD "")).toList,
        p.labels.tail.map fun label => (Label.encode label).toList) := by
  unfold Path.encode
  cases p.labels with
  | nil => rfl
  | cons first later =>
    simp only [List.map_cons, String.toList_ofList]
    refine Text.fields_join (Label.slash_notMem_encode first) fun f hf => ?_
    obtain ⟨label, -, rfl⟩ := List.mem_map.mp hf
    exact Label.slash_notMem_encode label

end TestTree
