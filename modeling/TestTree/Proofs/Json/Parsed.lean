import TestTree.Proofs.Json.Arrangement

/-! # What the values of texts are like

A value that is read from a text has numbers that were read themselves, the members of its objects
are in order with each key once, and its arrays and objects are nested no deeper than a text may be
(`IsParsed`). The open frames of the machine that puts values together have as many levels left as
are not open (`AreOpen`), and with this every token keeps what the machine has in hand as it should
be (`isParsed_step`).

`isParsed_of_parse?`: the value of a text is such a value. Hence, if its numbers are integers only,
it is read back from the text that it is written as (`parse?_pretty`). -/

namespace TestTree.Json

/-- A number that is read from some text. -/
def Number.IsRead (n : Number) : Prop := ∃ text, Number.read? text = some n

/-- **A value as it is read from a text**, with at most so many levels. -/
inductive IsParsed : Nat → Json → Prop
  | null (n : Nat) : IsParsed n .null
  | bool (n : Nat) (b : Bool) : IsParsed n (.bool b)
  | number (n : Nat) {x : Number} (h : x.IsRead) : IsParsed n (.number x)
  | string (n : Nat) (s : String) : IsParsed n (.string s)
  | array {n : Nat} {items : List Json} (h : ∀ v ∈ items, IsParsed n v) :
    IsParsed (n + 1) (.array items)
  | object {n : Nat} {members : Members} (hk : (members.map Prod.fst).Pairwise (· < ·))
    (h : ∀ m ∈ members, IsParsed n m.2) : IsParsed (n + 1) (.object members)

theorem IsParsed.succ {n : Nat} {v : Json} (h : IsParsed n v) : IsParsed (n + 1) v := by
  induction h with
  | null n => exact .null _
  | bool n b => exact .bool _ b
  | number n h => exact .number _ h
  | string n s => exact .string _ s
  | array _ ih => exact .array ih
  | object hk _ ih => exact .object hk ih

/-- What is found in an object has one level less. -/
theorem IsParsed.find? {n : Nat} {members : Members} {key : String} {v : Json}
    (h : IsParsed n (.object members)) (hv : members.find? key = some v) :
    ∃ k, n = k + 1 ∧ IsParsed k v := by
  cases h with
  | object _ h => exact ⟨_, rfl, h (key, v) (Members.mem_of_find? hv)⟩

/-! ### The tokens of a text -/

/-- A token whose number, if it is one, was read. -/
def Token.IsRead (token : Token) : Prop := ∀ n, token = .number n → n.IsRead

theorem isRead_of_mark? {c : Char} {token : Token} (h : mark? c = some token) : token.IsRead := by
  unfold mark? at h
  split_ifs at h <;> cases h <;> exact nofun

theorem isRead_of_word? {word : List Char} {token : Token} (h : word? word = some token) :
    token.IsRead := by
  unfold word? at h
  split_ifs at h <;> cases h <;> exact nofun

theorem isRead_number {text : List Char} {n : Number} (h : Number.read? text = some n) :
    (Token.number n).IsRead := by
  rintro _ ⟨⟩
  exact ⟨text, h⟩

theorem isRead_string (s : String) : (Token.string s).IsRead := nofun

variable {mode next : Mode} {c : Char} {tokens : List Token}

theorem isRead_stepBetween (h : stepBetween c = some (tokens, next)) :
    ∀ token ∈ tokens, token.IsRead := by
  unfold stepBetween at h
  split_ifs at h
  iterate 4
    cases h
    exact List.forall_mem_nil _
  obtain ⟨token, ht, he⟩ := Option.map_eq_some_iff.mp h
  cases he
  exact List.forall_mem_singleton.mpr (isRead_of_mark? ht)

theorem isRead_stepAfter {token? : Option Token} (ht : ∀ token ∈ token?, token.IsRead)
    (h : stepAfter token? c = some (tokens, next)) : ∀ token ∈ tokens, token.IsRead := by
  obtain ⟨token, htoken, h⟩ := Option.bind_eq_some_iff.mp h
  obtain ⟨⟨others, mode⟩, hothers, he⟩ := Option.bind_eq_some_iff.mp h
  cases he
  exact List.forall_mem_cons.mpr ⟨ht token htoken, isRead_stepBetween hothers⟩

/-- **The tokens that a character completes** have numbers that were read. -/
theorem isRead_step (h : mode.step c = some (tokens, next)) : ∀ token ∈ tokens, token.IsRead := by
  cases mode with
  | between => exact isRead_stepBetween h
  | word read =>
    rw [Mode.step] at h
    split_ifs at h
    · cases h
      exact List.forall_mem_nil _
    · exact isRead_stepAfter (fun token ht => isRead_of_word? ht) h
  | number read =>
    rw [Mode.step] at h
    split_ifs at h
    · cases h
      exact List.forall_mem_nil _
    · refine isRead_stepAfter (fun token ht => ?_) h
      obtain ⟨n, hn, rfl⟩ := Option.map_eq_some_iff.mp ht
      exact isRead_number hn
  | string read =>
    rw [Mode.step] at h
    split_ifs at h <;> cases h
    · exact List.forall_mem_singleton.mpr (isRead_string _)
    · exact List.forall_mem_nil _
    · exact List.forall_mem_nil _
  | escape read progress =>
    obtain ⟨mode, -, he⟩ := Option.map_eq_some_iff.mp h
    cases he
    exact List.forall_mem_nil _

theorem isRead_finish (h : mode.finish = some tokens) : ∀ token ∈ tokens, token.IsRead := by
  cases mode with
  | between =>
    cases h
    exact List.forall_mem_nil _
  | word read =>
    obtain ⟨token, ht, rfl⟩ := Option.map_eq_some_iff.mp h
    exact List.forall_mem_singleton.mpr (isRead_of_word? ht)
  | number read =>
    obtain ⟨n, hn, rfl⟩ := Option.map_eq_some_iff.mp h
    exact List.forall_mem_singleton.mpr (isRead_number hn)
  | string read => cases h
  | escape read progress => cases h

theorem isRead_scan {text : List Char} (h : mode.scan text = some tokens) :
    ∀ token ∈ tokens, token.IsRead := by
  induction text generalizing mode tokens with
  | nil => exact isRead_finish h
  | cons c rest ih =>
    obtain ⟨⟨first, next⟩, hs, h⟩ := Option.bind_eq_some_iff.mp h
    obtain ⟨others, ho, rfl⟩ := Option.map_eq_some_iff.mp h
    exact List.forall_mem_append.mpr ⟨isRead_step hs, ih ho⟩

/-! ### The values that tokens make up -/

/-- An open array or object whose values have at most so many levels. -/
def Frame.IsParsed (n : Nat) : Frame → Prop
  | .array items => ∀ v ∈ items, Json.IsParsed n v
  | .object members _ =>
    (members.map Prod.fst).Pairwise (· < ·) ∧ ∀ m ∈ members, Json.IsParsed n m.2

/-- **Open frames** with so many levels left within the innermost one. -/
inductive AreOpen : Nat → List Frame → Prop
  | nil : AreOpen maxDepth []
  | cons {n : Nat} {frame : Frame} {frames : List Frame} (hf : frame.IsParsed n)
    (h : AreOpen (n + 1) frames) : AreOpen n (frame :: frames)

theorem areOpen_cons_iff {n : Nat} {frame : Frame} {frames : List Frame} :
    AreOpen n (frame :: frames) ↔ frame.IsParsed n ∧ AreOpen (n + 1) frames := by
  constructor
  · rintro (- | ⟨hf, h⟩)
    exact ⟨hf, h⟩
  · rintro ⟨hf, h⟩
    exact .cons hf h

theorem AreOpen.add_length {n : Nat} {frames : List Frame} (h : AreOpen n frames) :
    n + frames.length = maxDepth := by
  induction h with
  | nil => rfl
  | cons _ _ ih =>
    rw [List.length_cons]
    omega

/-- What the machine has in hand is as it is read from a text. -/
def Awaiting.IsParsed : Awaiting → Prop
  | .value frames => ∃ n, AreOpen n frames
  | .item frames | .member frames => ∃ n, AreOpen (n + 1) frames
  | .key members frames | .colon members _ frames =>
    ∃ n, (Frame.object members "").IsParsed n ∧ AreOpen (n + 1) frames
  | .next v frames => ∃ n, Json.IsParsed n v ∧ AreOpen n frames

theorem isParsed_insert {n : Nat} {members : Members} {k : String}
    (h : (Frame.object members k).IsParsed n) (key : String) {v : Json} (hv : IsParsed n v) :
    (Frame.object (members.insert key v) k).IsParsed n := by
  refine ⟨Members.pairwise_insert h.1 key v, fun m hm => ?_⟩
  rcases Members.mem_of_mem_insert hm with rfl | hm
  · exact hv
  · exact h.2 m hm

theorem isParsed_of_toValue? {token : Token} {v : Json} (ht : token.IsRead)
    (h : token.toValue? = some v) (n : Nat) : IsParsed n v := by
  cases token with
  | null => exact Option.some.inj h ▸ .null n
  | bool b => exact Option.some.inj h ▸ .bool n b
  | number x => exact Option.some.inj h ▸ .number n (ht x rfl)
  | string s => exact Option.some.inj h ▸ .string n s
  | _ => cases h

theorem isParsed_stepValue {n : Nat} {frames : List Frame} {token : Token} {next : Awaiting}
    (hf : AreOpen n frames) (ht : token.IsRead) (h : stepValue frames token = some next) :
    next.IsParsed := by
  have hlength := hf.add_length
  -- there is a level left, so one more array or object may be open
  have hlevel (hlt : frames.length < maxDepth) : ∃ k, AreOpen (k + 1) frames := by
    obtain ⟨k, rfl⟩ : ∃ k, n = k + 1 := ⟨n - 1, by omega⟩
    exact ⟨k, hf⟩
  unfold stepValue at h
  split at h
  · split_ifs at h with hlt
    cases h
    exact hlevel hlt
  · split_ifs at h with hlt
    cases h
    exact hlevel hlt
  · obtain ⟨v, hv, rfl⟩ := Option.map_eq_some_iff.mp h
    exact ⟨n, isParsed_of_toValue? ht hv n, hf⟩

/-- **One token** keeps what the machine has in hand as it should be. -/
theorem isParsed_step {awaiting next : Awaiting} {token : Token} (h : awaiting.IsParsed)
    (ht : token.IsRead) (hs : awaiting.step token = some next) : next.IsParsed := by
  unfold Awaiting.step at hs
  split at hs
  -- a value, the first item of an array, or the end of an empty one
  · obtain ⟨n, hf⟩ := h
    exact isParsed_stepValue hf ht hs
  · cases hs
    obtain ⟨n, hf⟩ := h
    exact ⟨n + 1, .array (List.forall_mem_nil _), hf⟩
  · obtain ⟨n, hf⟩ := h
    have hitems : (Frame.array []).IsParsed n := List.forall_mem_nil _
    exact isParsed_stepValue (.cons hitems hf) ht hs
  -- the end of an empty object, a key, or the colon after it
  · cases hs
    obtain ⟨n, hf⟩ := h
    exact ⟨n + 1, .object .nil (List.forall_mem_nil _), hf⟩
  · cases hs
    obtain ⟨n, hf⟩ := h
    exact ⟨n, ⟨.nil, List.forall_mem_nil _⟩, hf⟩
  · cases hs
    exact h
  · cases hs
    obtain ⟨n, hm, hf⟩ := h
    exact ⟨n, .cons hm hf⟩
  -- a comma or the end after an item, and then after a member
  · cases hs
    obtain ⟨n, hv, ho⟩ := h
    obtain ⟨hi, hf⟩ := areOpen_cons_iff.mp ho
    exact ⟨n, .cons (List.forall_mem_cons.mpr ⟨hv, hi⟩) hf⟩
  · cases hs
    obtain ⟨n, hv, ho⟩ := h
    obtain ⟨hi, hf⟩ := areOpen_cons_iff.mp ho
    refine ⟨n + 1, .array fun w hw => ?_, hf⟩
    exact List.forall_mem_cons.mpr ⟨hv, hi⟩ w (List.mem_reverse.mp hw)
  · cases hs
    obtain ⟨n, hv, ho⟩ := h
    obtain ⟨hm, hf⟩ := areOpen_cons_iff.mp ho
    exact ⟨n, isParsed_insert hm _ hv, hf⟩
  · cases hs
    obtain ⟨n, hv, ho⟩ := h
    obtain ⟨hm, hf⟩ := areOpen_cons_iff.mp ho
    exact ⟨n + 1, .object (isParsed_insert hm _ hv).1 (isParsed_insert hm _ hv).2, hf⟩
  · cases hs

theorem isParsed_run {awaiting last : Awaiting} (h : awaiting.IsParsed) {tokens : List Token}
    (ht : ∀ token ∈ tokens, token.IsRead) (hr : awaiting.run tokens = some last) :
    last.IsParsed := by
  induction tokens generalizing awaiting with
  | nil =>
    cases hr
    exact h
  | cons token rest ih =>
    obtain ⟨next, hs, hr⟩ := Option.bind_eq_some_iff.mp hr
    obtain ⟨htoken, hrest⟩ := List.forall_mem_cons.mp ht
    exact ih (isParsed_step h htoken hs) hrest hr

/-- **The value of a text** is as it should be. -/
theorem isParsed_of_parse? {text : List Char} {v : Json} (h : parse? text = some v) :
    IsParsed maxDepth v := by
  rw [parse?_eq_scan] at h
  obtain ⟨tokens, hs, h⟩ := Option.bind_eq_some_iff.mp h
  obtain ⟨last, hr, hv⟩ := Option.bind_eq_some_iff.mp h
  have hstart : (Awaiting.value []).IsParsed := ⟨maxDepth, .nil⟩
  have hlast := isParsed_run hstart (isRead_scan hs) hr
  unfold Awaiting.value? at hv
  split at hv
  · cases hv
    obtain ⟨n, hp, hf⟩ := hlast
    cases hf
    exact hp
  · cases hv

/-! ### Reading back what was read -/

/-- **Integers only**: no number in a value is a double. -/
inductive OnlyIntegers : Json → Prop
  | null : OnlyIntegers .null
  | bool (b : Bool) : OnlyIntegers (.bool b)
  | integer (n : Int) : OnlyIntegers (.number (.integer n))
  | string (s : String) : OnlyIntegers (.string s)
  | array {items : List Json} (h : ∀ v ∈ items, OnlyIntegers v) : OnlyIntegers (.array items)
  | object {members : Members} (h : ∀ m ∈ members, OnlyIntegers m.2) :
    OnlyIntegers (.object members)

/-- An integer that was read has at most 64 bits. -/
theorem Number.isReadable_of_isRead {n : Int} (h : (Number.integer n).IsRead) :
    (Number.integer n).IsReadable := by
  obtain ⟨text, h⟩ := h
  obtain ⟨l, -, h⟩ := Option.bind_eq_some_iff.mp h
  have h63 : Nat.pow 2 63 = 9223372036854775808 := rfl
  have h64 : Nat.pow 2 64 = 18446744073709551616 := rfl
  unfold ofLiteral? at h
  simp only [Bool.and_eq_true, decide_eq_true_eq] at h
  split_ifs at h with hnatural hnegative
  · obtain rfl := Number.integer.inj (Option.some.inj h)
    exact isReadable_integer (by omega) (by omega)
  · obtain rfl := Number.integer.inj (Option.some.inj h)
    exact isReadable_integer (by omega) (by omega)
  · obtain ⟨x, -, he⟩ := Option.map_eq_some_iff.mp h
    cases he

theorem readable_of_isParsed {n : Nat} {v : Json} (h : IsParsed n v) (hi : OnlyIntegers v) :
    Readable n v := by
  induction h with
  | null n => exact .null n
  | bool n b => exact .bool n b
  | number n hr =>
    cases hi with
    | integer k => exact .number n (Number.isReadable_of_isRead hr)
  | string n s => exact .string n s
  | array _ ih =>
    cases hi with
    | array hi => exact .array fun v hv => ih v hv (hi v hv)
  | object _ _ ih =>
    cases hi with
    | object hi => exact .object fun m hm => ih m hm (hi m hm)

theorem normalizeMembers_eq_self {members : Members} (h : ∀ m ∈ members, normalize m.2 = m.2) :
    normalizeMembers members = members := by
  induction members with
  | nil => rfl
  | cons m rest ih =>
    obtain ⟨hm, hrest⟩ := List.forall_mem_cons.mp h
    rw [normalizeMembers, hm, ih hrest]

/-- A value that was read has its members in order. -/
theorem normalize_of_isParsed {n : Nat} {v : Json} (h : IsParsed n v) : normalize v = v := by
  induction h with
  | array _ ih => rw [normalize, normalizeItems_eq_map, List.map_congr_left ih, List.map_id']
  | object hk _ ih => rw [normalize, normalizeMembers_eq_self ih, Members.sorted_eq_self hk]
  | _ => rfl

/-- **What was read is read back** from the text that it is written as, over several lines. -/
theorem parse?_pretty {v : Json} (h : IsParsed maxDepth v) (hi : OnlyIntegers v) :
    parse? v.pretty.toList = some v := by
  rw [pretty, String.toList_ofList, parse?_write Style.isBlank_pretty (readable_of_isParsed h hi),
    normalize_of_isParsed h]

end TestTree.Json
