import TestTree.Event.ServiceMessage.Reader
import TestTree.Proofs.Text.Numeral
import Mathlib.Tactic.SplitIfs

/-! # Service messages are read back

A message whose kind and keys are words is read back from its text, with the values as they were
before they were escaped (`read?_write`), and its text has no line break (`notMem_write`). The
messages of events are such messages. So an event is known from the text of its message, but for the
half of a comparison, which is not shown (`message_read_back`). -/

namespace TestTree.ServiceMessage

/-- A text of letters, such as the kind and the keys of a message. -/
def isWord (s : String) : Bool := s.toList.all Char.isAlpha

/-- A message whose kind and keys are words. -/
structure IsPlain (m : ServiceMessage) : Prop where
  kind : isWord m.kind = true
  keys : ∀ a ∈ m.attributes, isWord a.1 = true

/-- The characters that end a line. -/
def lineBreaks : List Char := ['\n', '\r', '\u0085', '\u2028', '\u2029']

theorem ne_of_isWord {s : String} (h : isWord s = true) {c d : Char} (hc : c ∈ s.toList)
    (hd : d.isAlpha = false) : c ≠ d := by
  rintro rfl
  rw [List.all_eq_true.mp h c hc] at hd
  cases hd

theorem notMem_lineBreaks_of_isWord {s : String} (h : isWord s = true) {c : Char}
    (hc : c ∈ s.toList) : c ∉ lineBreaks := by
  simp only [lineBreaks, List.mem_cons, List.not_mem_nil, or_false, not_or]
  exact ⟨ne_of_isWord h hc rfl, ne_of_isWord h hc rfl, ne_of_isWord h hc rfl,
    ne_of_isWord h hc rfl, ne_of_isWord h hc rfl⟩

/-! ### Escapes -/

/-- **A letter stands for one character**, and neither ends a line. -/
theorem of_escapeLetter?_eq_some {c letter : Char} (h : escapeLetter? c = some letter) :
    unescapeLetter? letter = some c ∧ letter ∉ lineBreaks := by
  unfold escapeLetter? at h
  split_ifs at h with hs hn hr hx hl hp <;> obtain rfl := Option.some.inj h
  · -- The four characters whose letters they are themselves.
    refine ⟨if_pos hs, ?_⟩
    simp only [Bool.or_eq_true, decide_eq_true_eq] at hs
    rcases hs with ((rfl | rfl) | rfl) | rfl <;> decide
  all_goals subst_vars; decide

/-- A character without a letter stands for itself: it ends no value, escape or line. -/
theorem of_escapeLetter?_eq_none {c : Char} (h : escapeLetter? c = none) :
    c ≠ '\'' ∧ c ≠ '|' ∧ c ∉ lineBreaks := by
  unfold escapeLetter? at h
  split_ifs at h with hs hn hr hx hl hp
  simp only [Bool.or_eq_true, decide_eq_true_eq, not_or] at hs
  refine ⟨hs.1.1.2, hs.1.1.1, ?_⟩
  simp [lineBreaks, hn, hr, hx, hl, hp]

theorem notMem_lineBreaks_of_mem_escapeChar {c d : Char} (h : d ∈ escapeChar c) :
    d ∉ lineBreaks := by
  unfold escapeChar at h
  cases he : escapeLetter? c with
  | none =>
    rw [he] at h
    obtain rfl := List.mem_singleton.mp h
    exact (of_escapeLetter?_eq_none he).2.2
  | some letter =>
    rw [he] at h
    rcases List.mem_cons.mp h with rfl | h
    · decide
    · obtain rfl := List.mem_singleton.mp h
      exact (of_escapeLetter?_eq_some he).2

/-! ### Line breaks -/

theorem notMem_lineBreaks_of_mem_writeAttribute {a : String × String} (h : isWord a.1 = true)
    {c : Char} (hc : c ∈ writeAttribute a) : c ∉ lineBreaks := by
  obtain ⟨key, value⟩ := a
  simp only [writeAttribute, List.mem_cons, List.mem_append, List.mem_flatMap, List.not_mem_nil,
    or_false] at hc
  rcases hc with rfl | hc | rfl | rfl | ⟨d, -, hc⟩ | rfl
  · decide
  · exact notMem_lineBreaks_of_isWord h hc
  · decide
  · decide
  · exact notMem_lineBreaks_of_mem_escapeChar hc
  · decide

/-- **The text of a message** has no line break. -/
theorem notMem_write {m : ServiceMessage} (h : m.IsPlain) {c : Char} (hc : c ∈ lineBreaks) :
    c ∉ m.write.toList := by
  intro hm
  have ho : opening.all (· ∉ lineBreaks) = true := by decide
  simp only [write, String.toList_ofList, List.mem_append, List.mem_flatMap,
    List.mem_singleton] at hm
  rcases hm with ((hm | hm) | ⟨a, ha, hm⟩) | rfl
  · exact of_decide_eq_true (List.all_eq_true.mp ho c hm) hc
  · exact notMem_lineBreaks_of_isWord h.kind hm hc
  · exact notMem_lineBreaks_of_mem_writeAttribute (h.keys a ha) hm hc
  · revert hc
    decide

/-! ### Reading -/

theorem Reader.feed_append (r : Reader) (s t : List Char) :
    r.feed (s ++ t) = (r.feed s).bind (·.feed t) := by
  induction s generalizing r with
  | nil => rfl
  | cons c s ih =>
    rw [List.cons_append, Reader.feed, Reader.feed]
    cases r.step c with
    | none => rfl
    | some next => exact ih next

variable (kind : String) (attributes : List (String × String))

theorem Reader.feed_kind {word : List Char} (h : ∀ c ∈ word, c ≠ ' ' ∧ c ≠ ']')
    (read : List Char) :
    Reader.feed ⟨kind, attributes, .kind read⟩ word =
      some ⟨kind, attributes, .kind (word.reverse ++ read)⟩ := by
  induction word generalizing read with
  | nil => rfl
  | cons c word ih =>
    obtain ⟨⟨hs, hb⟩, hw⟩ := List.forall_mem_cons.mp h
    have hc : Reader.step ⟨kind, attributes, .kind read⟩ c =
        some ⟨kind, attributes, .kind (c :: read)⟩ := by
      simp [Reader.step, hs, hb]
    rw [Reader.feed, hc]
    dsimp only
    rw [ih hw, List.reverse_cons, List.append_assoc, List.singleton_append]

theorem Reader.feed_key {word : List Char} (h : '=' ∉ word) (read : List Char) :
    Reader.feed ⟨kind, attributes, .key read⟩ word =
      some ⟨kind, attributes, .key (word.reverse ++ read)⟩ := by
  induction word generalizing read with
  | nil => rfl
  | cons c word ih =>
    rw [List.mem_cons, not_or] at h
    have hc : Reader.step ⟨kind, attributes, .key read⟩ c =
        some ⟨kind, attributes, .key (c :: read)⟩ := by
      simp [Reader.step, Ne.symm h.1]
    rw [Reader.feed, hc]
    dsimp only
    rw [ih h.2, List.reverse_cons, List.append_assoc, List.singleton_append]

theorem Reader.feed_escapeChar (key : String) (read : List Char) (c : Char) :
    Reader.feed ⟨kind, attributes, .value key read⟩ (escapeChar c) =
      some ⟨kind, attributes, .value key (c :: read)⟩ := by
  unfold escapeChar
  cases he : escapeLetter? c with
  | none =>
    obtain ⟨hq, hb, -⟩ := of_escapeLetter?_eq_none he
    simp [Reader.feed, Reader.step, hq, hb]
  | some letter =>
    obtain ⟨hl, -⟩ := of_escapeLetter?_eq_some he
    simp [Reader.feed, Reader.step, hl]

/-- **A value is read back** as it was before it was escaped. -/
theorem Reader.feed_value (key : String) (value read : List Char) :
    Reader.feed ⟨kind, attributes, .value key read⟩ (value.flatMap escapeChar) =
      some ⟨kind, attributes, .value key (value.reverse ++ read)⟩ := by
  induction value generalizing read with
  | nil => rfl
  | cons c value ih =>
    rw [List.flatMap_cons, Reader.feed_append, Reader.feed_escapeChar, Option.bind_some, ih,
      List.reverse_cons, List.append_assoc, List.singleton_append]

theorem Reader.feed_attribute {a : String × String} (h : '=' ∉ a.1.toList) :
    Reader.feed ⟨kind, attributes, .between⟩ (writeAttribute a) =
      some ⟨kind, a :: attributes, .between⟩ := by
  obtain ⟨key, value⟩ := a
  have hspace : Reader.step ⟨kind, attributes, .between⟩ ' ' =
      some ⟨kind, attributes, .key []⟩ := rfl
  have hequals (read : List Char) : Reader.step ⟨kind, attributes, .key read⟩ '=' =
      some ⟨kind, attributes, .quote (String.ofList read.reverse)⟩ := rfl
  have hquote (key : String) : Reader.step ⟨kind, attributes, .quote key⟩ '\'' =
      some ⟨kind, attributes, .value key []⟩ := rfl
  have hend (key : String) (read : List Char) :
      Reader.step ⟨kind, attributes, .value key read⟩ '\'' =
        some ⟨kind, (key, String.ofList read.reverse) :: attributes, .between⟩ := rfl
  simp only [writeAttribute, Reader.feed, hspace, Reader.feed_append, Reader.feed_key _ _ h,
    Option.bind_some, hequals, hquote, Reader.feed_value, hend, List.append_nil,
    List.reverse_reverse, String.ofList_toList]

theorem Reader.feed_attributes {more : List (String × String)}
    (h : ∀ a ∈ more, '=' ∉ a.1.toList) :
    Reader.feed ⟨kind, attributes, .between⟩ (more.flatMap writeAttribute) =
      some ⟨kind, more.reverse ++ attributes, .between⟩ := by
  induction more generalizing attributes with
  | nil => rfl
  | cons a more ih =>
    obtain ⟨ha, hm⟩ := List.forall_mem_cons.mp h
    rw [List.flatMap_cons, Reader.feed_append, Reader.feed_attribute _ _ ha, Option.bind_some,
      ih _ hm, List.reverse_cons, List.append_assoc, List.singleton_append]

/-- The kind ends where an attribute or the end comes. -/
theorem Reader.feed_kind_end (read : List Char) (more : List (String × String)) :
    Reader.feed ⟨kind, attributes, .kind read⟩ (more.flatMap writeAttribute ++ [']']) =
      Reader.feed ⟨String.ofList read.reverse, attributes, .between⟩
        (more.flatMap writeAttribute ++ [']']) := by
  cases more <;> rfl

/-- **A message is read back.** -/
theorem read?_write {m : ServiceMessage} (h : m.IsPlain) : read? m.write = some m := by
  have hkind : ∀ c ∈ m.kind.toList, c ≠ ' ' ∧ c ≠ ']' := fun c hc =>
    ⟨ne_of_isWord h.kind hc rfl, ne_of_isWord h.kind hc rfl⟩
  have hkeys : ∀ a ∈ m.attributes, '=' ∉ a.1.toList := fun a ha hm =>
    ne_of_isWord (h.keys a ha) hm rfl rfl
  have hend (kind : String) (attributes : List (String × String)) :
      Reader.feed ⟨kind, attributes, .between⟩ [']'] = some ⟨kind, attributes, .closed⟩ := rfl
  have hp : opening.isPrefixOf m.write.toList = true := by
    rw [List.isPrefixOf_iff_prefix, write, String.toList_ofList, List.append_assoc,
      List.append_assoc]
    exact List.prefix_append _ _
  have hd : m.write.toList.drop opening.length =
      m.kind.toList ++ (m.attributes.flatMap writeAttribute ++ [']']) := by
    rw [write, String.toList_ofList, List.append_assoc, List.append_assoc, List.drop_left]
  rw [read?, if_pos hp, hd, Reader.feed_append, Reader.feed_kind _ _ hkind, Option.bind_some,
    Reader.feed_kind_end, Reader.feed_append, Reader.feed_attributes _ _ hkeys, Option.bind_some,
    hend, Option.bind_some, List.append_nil, List.append_nil, List.reverse_reverse,
    String.ofList_toList]
  simp [Reader.finish]

theorem write_inj {m n : ServiceMessage} (hm : m.IsPlain) (hn : n.IsPlain) :
    m.write = n.write ↔ m = n := by
  refine ⟨fun h => Option.some.inj ?_, congrArg write⟩
  rw [← read?_write hm, ← read?_write hn, h]

end TestTree.ServiceMessage

namespace TestTree.Event

/-! ### Events -/

/-- The kinds of the messages for events and the keys of their attributes. -/
def messageWords : List String :=
  ["testSuiteStarted", "testSuiteFinished", "testStarted", "testFinished", "testFailed",
    "testIgnored", "name", "locationHint", "duration", "message", "type", "actual", "expected",
    "error"]

theorem kind_mem_messageWords (e : Event) : e.toServiceMessage.kind ∈ messageWords := by
  cases e <;> simp [toServiceMessage, messageWords]

theorem key_mem_messageWords (e : Event) :
    ∀ a ∈ e.toServiceMessage.attributes, a.1 ∈ messageWords := by
  cases e with
  | testStarted name location =>
    cases location <;> simp [toServiceMessage, locationAttribute, messageWords]
  | testFailed name message actual expected isError =>
    cases actual <;> cases expected <;> cases isError <;>
      simp [toServiceMessage, comparisonAttributes, messageWords]
  | _ => simp [toServiceMessage, messageWords]

theorem isPlain_toServiceMessage (e : Event) : e.toServiceMessage.IsPlain := by
  have hw := List.all_eq_true.mp (by decide : messageWords.all ServiceMessage.isWord = true)
  exact ⟨hw _ (kind_mem_messageWords e), fun a ha => hw _ (key_mem_messageWords e a ha)⟩

/-- An event as a message shows it: without the half of a comparison. -/
def shown : Event → Event
  | testFailed name message actual expected isError =>
    match actual, expected with
    | some actual, some expected =>
      testFailed name message (some actual) (some expected) isError
    | _, _ => testFailed name message none none isError
  | e => e

theorem toServiceMessage_shown (e : Event) : e.shown.toServiceMessage = e.toServiceMessage := by
  cases e with
  | testFailed name message actual expected isError =>
    cases actual <;> cases expected <;> rfl
  | _ => rfl

theorem digits_inj {m n : Nat} (h : Text.Numeral.digits m = Text.Numeral.digits n) : m = n := by
  have hm : Text.Numeral.read (m + n) (Text.Numeral.digits m) = .ok m :=
    Text.Numeral.read_digits (by omega)
  have hn : Text.Numeral.read (m + n) (Text.Numeral.digits n) = .ok n :=
    Text.Numeral.read_digits (by omega)
  rw [h, hn] at hm
  exact (Except.ok.inj hm).symm

theorem locationAttribute_inj {l l' : Option String}
    (h : locationAttribute l = locationAttribute l') : l = l' := by
  cases l <;> cases l' <;> simp_all [locationAttribute]

/-- **What is shown of a failed test** is known from the attributes that not every message for one
has: those of a comparison are told from the one of an error by their keys. -/
theorem shown_testFailed_eq {actual expected actual' expected' : Option String}
    {isError isError' : Bool}
    (h : (comparisonAttributes actual expected ++ if isError then [("error", "true")] else []) =
      comparisonAttributes actual' expected' ++ if isError' then [("error", "true")] else [])
    (name message : String) :
    (testFailed name message actual expected isError).shown =
      (testFailed name message actual' expected' isError').shown := by
  cases actual <;> cases expected <;> cases actual' <;> cases expected' <;> cases isError <;>
    cases isError' <;> simp_all [comparisonAttributes, shown]

theorem shown_eq_of_toServiceMessage_eq {d e : Event}
    (h : d.toServiceMessage = e.toServiceMessage) : d.shown = e.shown := by
  -- Events of two kinds have messages of two kinds.
  cases d <;> cases e <;>
    simp only [toServiceMessage, ServiceMessage.mk.injEq, List.cons_append, List.nil_append,
      List.cons.injEq, Prod.mk.injEq, String.reduceEq, true_and, and_true, false_and] at h
  case suiteStarted.suiteStarted => rw [h.1, h.2]
  case suiteFinished.suiteFinished => rw [h]
  case testStarted.testStarted =>
    obtain ⟨rfl, hl⟩ := h
    rw [locationAttribute_inj hl]
  case testFinished.testFinished =>
    obtain ⟨rfl, hd⟩ := h
    have hm := digits_inj (String.ofList_injective hd)
    rw [UInt64.toNat_inj.mp hm]
  case testFailed.testFailed =>
    obtain ⟨rfl, rfl, ha⟩ := h
    exact shown_testFailed_eq ha _ _
  case testIgnored.testIgnored => rw [h.1, h.2]

/-- **A message is one line** that is read back as the kind and the attributes of the event, so
messages are the same just if the events are, but for the half of a comparison. -/
theorem message_read_back :
    (∀ e : Event,
      (∀ c ∈ ['\n', '\r', '\u0085', '\u2028', '\u2029'], c ∉ e.toServiceMessage.write.toList) ∧
        ServiceMessage.read? e.toServiceMessage.write = some e.toServiceMessage) ∧
      ∀ d e : Event,
        d.toServiceMessage.write = e.toServiceMessage.write ↔ d.shown = e.shown := by
  refine ⟨fun e => ⟨fun c hc => ?_, ?_⟩, fun d e => ?_⟩
  · exact ServiceMessage.notMem_write (isPlain_toServiceMessage e) hc
  · exact ServiceMessage.read?_write (isPlain_toServiceMessage e)
  · rw [ServiceMessage.write_inj (isPlain_toServiceMessage d) (isPlain_toServiceMessage e)]
    refine ⟨shown_eq_of_toServiceMessage_eq, fun h => ?_⟩
    rw [← toServiceMessage_shown d, h, toServiceMessage_shown]

end TestTree.Event
