import TestTree.Event.ServiceMessage
import TestTree.Location
import TestTree.Proofs.Label
import TestTree.Proofs.Text.Utf8

/-! # How labels are spelled

A label has one form, and which texts are forms can be said without the encoding: `Spells` gives the
octets of a text of plain characters and escapes in which nothing is escaped that need not be.

* `spells_iff`: a text spells octets just if they are written so.
* `exists_encode_eq_iff`, `isForm_iff`: the forms of labels are the texts that spell UTF-8, and the
  texts that are written again as they are read.
* `escape_identifier`: an identifier has no character that is escaped in a service message.
* `forms_of_labels`: all of this for labels and for the places in service messages. -/

namespace TestTree

namespace Text.Form

/-- The characters that stand for themselves. -/
def isKept (c : Char) : Bool := c.isAlphanum || c = '*' || c = '-' || c = '.' || c = '_'

/-- The upper-case hexadecimal digits, each at its value. -/
def hexDigits : List Char := "0123456789ABCDEF".toList

/-- **A text spells octets**: characters that stand for themselves, a plus sign for a space, and an
escape of two upper-case hexadecimal digits for any other octet, and for no octet of the former. -/
inductive Spells : List Char → List UInt8 → Prop
  | nil : Spells [] []
  | kept {c : Char} {form : List Char} {octets : List UInt8} (hc : isKept c = true)
    (h : Spells form octets) : Spells (c :: form) (c.toUInt8 :: octets)
  | space {form : List Char} {octets : List UInt8} (h : Spells form octets) :
    Spells ('+' :: form) (0x20 :: octets)
  | escape {b : UInt8} {high low : Char} {form : List Char} {octets : List UInt8}
    (hk : ∀ c, isKept c = true → c.toUInt8 ≠ b) (hs : b ≠ 0x20)
    (hhigh : hexDigits[b.toNat / 16]? = some high) (hlow : hexDigits[b.toNat % 16]? = some low)
    (h : Spells form octets) : Spells ('%' :: high :: low :: form) (b :: octets)

/-! ### One octet -/

theorem isUnreserved_toUInt8 : ∀ n < 0x80, isUnreserved n.toUInt8 = isKept (Char.ofNat n) := by
  decide

theorem getElem?_hexDigits : ∀ n < 16, hexDigits[n]? = some (hexDigit n) := by decide

theorem lt_of_isKept {c : Char} (h : isKept c = true) : c.toNat < 0x80 := by
  simp only [isKept, Bool.or_eq_true, decide_eq_true_eq] at h
  rcases h with (((h | rfl) | rfl) | rfl) | rfl
  · delta Char.isAlphanum Char.isAlpha Char.isUpper Char.isLower Char.isDigit at h
    simp only [Bool.or_eq_true, Bool.and_eq_true, decide_eq_true_eq, UInt32.le_iff_toNat_le,
      ge_iff_le] at h
    have hc : c.val.toNat = c.toNat := rfl
    have hZ : 'Z'.val.toNat = 0x5A := rfl
    have hz : 'z'.val.toNat = 0x7A := rfl
    have h9 : '9'.val.toNat = 0x39 := rfl
    omega
  all_goals decide

theorem toNat_toUInt8_of_isKept {c : Char} (h : isKept c = true) : c.toUInt8.toNat = c.toNat := by
  have hlt := lt_of_isKept h
  exact Utf8.toNat_toUInt8 (show c.toNat < 256 by omega)

/-- An octet is written as itself if it is that of a character which stands for itself. -/
theorem isUnreserved_iff {b : UInt8} :
    isUnreserved b = true ↔ ∃ c, isKept c = true ∧ c.toUInt8 = b := by
  constructor
  · intro h
    have hlt := (of_isUnreserved h).1
    have hb : b.toNat.toUInt8 = b := UInt8.ofNat_toNat
    have hk : isKept (Char.ofNat b.toNat) = true := by rw [← isUnreserved_toUInt8 _ hlt, hb, h]
    refine ⟨Char.ofNat b.toNat, hk, UInt8.toNat_inj.mp ?_⟩
    rw [toNat_toUInt8_of_isKept hk, Utf8.toNat_ofNat (by omega)]
  · rintro ⟨c, hc, rfl⟩
    have h := isUnreserved_toUInt8 c.toNat (lt_of_isKept hc)
    rw [Char.ofNat_toNat, hc] at h
    exact h

theorem encodeOctet_of_isKept {c : Char} (h : isKept c = true) : encodeOctet c.toUInt8 = [c] := by
  rw [encodeOctet, if_pos (isUnreserved_iff.mpr ⟨c, h, rfl⟩), toNat_toUInt8_of_isKept h,
    Char.ofNat_toNat]

/-! ### All octets -/

/-- **What spells octets** is the way they are written. -/
theorem spells_iff {form : List Char} {octets : List UInt8} :
    Spells form octets ↔ octets.flatMap encodeOctet = form := by
  constructor
  · intro h
    induction h with
    | nil => rfl
    | kept hc _ ih => rw [List.flatMap_cons, encodeOctet_of_isKept hc, ih]; rfl
    | space _ ih => rw [List.flatMap_cons, ih]; rfl
    | @escape b high low _ _ hk hs hhigh hlow _ ih =>
      have hb : b.toNat < 256 := b.toNat_lt
      have hu : ¬ isUnreserved b = true := by
        rintro hu
        obtain ⟨c, hc, he⟩ := isUnreserved_iff.mp hu
        exact hk c hc he
      rw [getElem?_hexDigits _ (by omega), Option.some.injEq] at hhigh hlow
      rw [List.flatMap_cons, encodeOctet, if_neg hu, if_neg hs, hhigh, hlow, ih]
      rfl
  · rintro rfl
    induction octets with
    | nil => exact .nil
    | cons b rest ih =>
      have hb : b.toNat < 256 := b.toNat_lt
      rw [List.flatMap_cons]
      by_cases hu : isUnreserved b = true
      · obtain ⟨c, hc, rfl⟩ := isUnreserved_iff.mp hu
        rw [encodeOctet_of_isKept hc]
        exact .kept hc ih
      by_cases hs : b = 0x20
      · subst hs
        exact .space ih
      · rw [encodeOctet, if_neg hu, if_neg hs]
        exact .escape (fun c hc he => hu (isUnreserved_iff.mpr ⟨c, hc, he⟩)) hs
          (getElem?_hexDigits _ (by omega)) (getElem?_hexDigits _ (by omega)) ih

end Text.Form

namespace Label

/-- **The forms of labels**: what spells UTF-8. -/
def IsForm (form : String) : Prop :=
  ∃ octets, Text.Form.Spells form.toList octets ∧ octets.toByteArray.IsValidUTF8

theorem exists_encode_eq_iff {form : String} : (∃ label, encode label = form) ↔ IsForm form := by
  unfold IsForm encode
  constructor
  · rintro ⟨label, rfl⟩
    refine ⟨Text.Utf8.encode label.toList, ?_, Text.Utf8.isValidUTF8_iff.mpr ⟨_, rfl⟩⟩
    rw [Text.Form.spells_iff, String.toList_ofList, Text.Form.encode]
  · rintro ⟨octets, hs, hv⟩
    obtain ⟨text, rfl⟩ := Text.Utf8.isValidUTF8_iff.mp hv
    refine ⟨String.ofList text, ?_⟩
    rw [String.toList_ofList, Text.Form.encode, Text.Form.spells_iff.mp hs, String.ofList_toList]

/-- The forms of labels are the texts that are written again as they are read. -/
theorem isForm_iff {form : String} : IsForm form ↔ encode (decode form) = form := by
  rw [← exists_encode_eq_iff]
  constructor
  · rintro ⟨label, rfl⟩
    rw [decode_encode]
  · exact fun h => ⟨_, h⟩

end Label

/-! ### Identifiers in service messages -/

/-- A character of an encoded path is a slash or one of a form. -/
theorem Path.eq_slash_or_isPlain {p : Path} {c : Char} (h : c ∈ p.encode.toList) :
    c = '/' ∨ Text.Form.isPlain c = true := by
  have hform {form : List Char} (hf : form ∈ p.labels.map fun label => (Label.encode label).toList)
      (hc : c ∈ form) : Text.Form.isPlain c = true := by
    obtain ⟨label, -, rfl⟩ := List.mem_map.mp hf
    rw [Label.encode, String.toList_ofList] at hc
    exact Text.Form.isPlain_of_mem_encode hc
  unfold Path.encode at h
  split at h
  · cases h
  · next first later he =>
    rw [he] at hform
    rw [String.toList_ofList, Text.join, List.mem_append] at h
    rcases h with h | h
    · exact Or.inr (hform List.mem_cons_self h)
    · obtain ⟨form, hf, hc⟩ := List.mem_flatMap.mp h
      rcases List.mem_cons.mp hc with rfl | hc
      · exact Or.inl rfl
      · exact Or.inr (hform (List.mem_cons_of_mem _ hf) hc)

namespace ServiceMessage

/-- A character that is escaped is none of a form. -/
theorem escapeLetter?_of_isPlain {c : Char} (h : Text.Form.isPlain c = true) :
    escapeLetter? c = none := by
  have hne (d : Char) (hd : Text.Form.isPlain d = false) : c ≠ d := by
    rintro rfl
    rw [h] at hd
    cases hd
  have hself : ¬ (c = '|' || c = '\'' || c = '[' || c = ']') = true := by
    simp [hne '|' rfl, hne '\'' rfl, hne '[' rfl, hne ']' rfl]
  rw [escapeLetter?, if_neg hself, if_neg (hne _ rfl), if_neg (hne _ rfl), if_neg (hne _ rfl),
    if_neg (hne _ rfl), if_neg (hne _ rfl)]

theorem flatMap_escapeChar {value : List Char} (h : ∀ c ∈ value, escapeLetter? c = none) :
    value.flatMap escapeChar = value := by
  induction value with
  | nil => rfl
  | cons c rest ih =>
    obtain ⟨hc, hrest⟩ := List.forall_mem_cons.mp h
    rw [List.flatMap_cons, ih hrest, escapeChar, hc]
    rfl

/-- A path is not changed within a service message. -/
theorem flatMap_escapeChar_encode (p : Path) :
    p.encode.toList.flatMap escapeChar = p.encode.toList := by
  refine flatMap_escapeChar fun c hc => ?_
  rcases Path.eq_slash_or_isPlain hc with rfl | h
  · rfl
  · exact escapeLetter?_of_isPlain h

/-- **An identifier stands as it is** in a service message, if its scheme does. -/
theorem escape_identifier {scheme : String}
    (hscheme : scheme.toList.flatMap escapeChar = scheme.toList) (p : Path) :
    escape (scheme ++ "://" ++ p.encode) = scheme ++ "://" ++ p.encode := by
  have hmark : "://".toList.flatMap escapeChar = "://".toList := rfl
  rw [escape, ← String.toList_inj]
  simp only [String.toList_ofList, String.toList_append, List.flatMap_append, hscheme, hmark,
    flatMap_escapeChar_encode]

/-- The text of a message with a name and one more attribute. -/
theorem write_pair (kind key first second value : String) :
    (ServiceMessage.mk kind [(key, first), (second, value)]).write =
      ("##teamcity[" ++ kind ++ " " ++ key ++ "='") ++ escape first ++
        ("' " ++ second ++ "='") ++ escape value ++ "']" := by
  have hopening : opening = "##teamcity[".toList := rfl
  have hspace : " ".toList = [' '] := rfl
  have hequal : "='".toList = ['=', '\''] := rfl
  have hnext : "' ".toList = ['\'', ' '] := rfl
  have hend : "']".toList = ['\'', ']'] := rfl
  refine String.toList_inj.mp ?_
  simp only [write, writeAttribute, escape, List.flatMap_cons, List.flatMap_nil,
    String.toList_ofList, String.toList_append, hopening, hspace, hequal, hnext, hend,
    List.append_assoc, List.cons_append, List.nil_append, List.append_nil]

end ServiceMessage

namespace Label

open ServiceMessage (escape)
open Location (suiteIdentifier testIdentifier)

/-- **The forms of labels.** A label is read back from its form. The forms are the texts that spell
valid UTF-8, and these are the texts that are written again as they are read. So an identifier of a
suite or a test needs no escape in a service message, and the location there is the identifier
itself. -/
theorem forms_of_labels :
    (∀ label, decode (encode label) = label) ∧
      (∀ form, (∃ label, encode label = form) ↔ IsForm form) ∧
      (∀ form, IsForm form ↔ encode (decode form) = form) ∧
      ∀ (p : Path) (name : String),
        escape (suiteIdentifier p) = suiteIdentifier p ∧
        escape (testIdentifier p) = testIdentifier p ∧
        (Event.suiteStarted name (suiteIdentifier p)).toServiceMessage.write =
          "##teamcity[testSuiteStarted name='" ++ escape name ++ "' locationHint='" ++
            suiteIdentifier p ++ "']" ∧
        (Event.testStarted name (some (testIdentifier p))).toServiceMessage.write =
          "##teamcity[testStarted name='" ++ escape name ++ "' locationHint='" ++
            testIdentifier p ++ "']" := by
  refine ⟨decode_encode, fun form => exists_encode_eq_iff, fun form => isForm_iff, fun p name => ?_⟩
  have hsuite : escape (suiteIdentifier p) = suiteIdentifier p :=
    ServiceMessage.escape_identifier rfl p
  have htest : escape (testIdentifier p) = testIdentifier p :=
    ServiceMessage.escape_identifier rfl p
  refine ⟨hsuite, htest, ?_, ?_⟩
  · rw [Event.toServiceMessage, ServiceMessage.write_pair, hsuite]
    rfl
  · rw [Event.toServiceMessage, Event.locationAttribute, ServiceMessage.write_pair, htest]
    rfl

end Label

end TestTree
