import TestTree.Proofs.Json.Scan

/-! # Reading back written values

A value is readable within a number of levels (`Readable`) if its numbers are and its arrays and
objects are nested no deeper. Its text, in any style of white space, is scanned as its tokens
(`scan_write`), and these take the machine to the value with the members of each object in order
(`run_tokens`). Both are by induction on the value, with any text and any tokens behind it.
`parse?_write`: what is read back is the value with its members in order (`normalize`). -/

namespace TestTree.Json

/-! ### Readable values -/

/-- A value of numbers that can be read back, with at most so many levels. -/
inductive Readable : Nat → Json → Prop where
  | null (n : Nat) : Readable n .null
  | bool (n : Nat) (b : Bool) : Readable n (.bool b)
  | number (n : Nat) {x : Number} (h : x.IsReadable) : Readable n (.number x)
  | string (n : Nat) (s : String) : Readable n (.string s)
  | array {n : Nat} {items : List Json} (h : ∀ v ∈ items, Readable n v) :
    Readable (n + 1) (.array items)
  | object {n : Nat} {members : Members} (h : ∀ m ∈ members, Readable n m.2) :
    Readable (n + 1) (.object members)

mutual

/-- A value with the members of all its objects in order, of several with one key the last. -/
def normalize : Json → Json
  | .array items => .array (normalizeItems items)
  | .object members => .object (Members.sorted (normalizeMembers members))
  | .null => .null
  | .bool b => .bool b
  | .number n => .number n
  | .string s => .string s

/-- Each of several items. -/
def normalizeItems : List Json → List Json
  | [] => []
  | item :: items => normalize item :: normalizeItems items

/-- The value of each of several members. -/
def normalizeMembers : List (String × Json) → List (String × Json)
  | [] => []
  | (key, value) :: members => (key, normalize value) :: normalizeMembers members

end

/-! ### Scanning -/

mutual

/-- The tokens of a value. -/
def tokens : Json → List Token
  | .null => [.null]
  | .bool b => [.bool b]
  | .number n => [.number n]
  | .string s => [.string s]
  | .array [] => [.openArray, .closeArray]
  | .array (item :: items) => .openArray :: (tokens item ++ (itemsTokens items ++ [.closeArray]))
  | .object [] => [.openObject, .closeObject]
  | .object ((key, value) :: members) =>
    .openObject :: .string key :: .colon ::
      (tokens value ++ (membersTokens members ++ [.closeObject]))

/-- The tokens of the items that follow another one. -/
def itemsTokens : List Json → List Token
  | [] => []
  | item :: items => .comma :: (tokens item ++ itemsTokens items)

/-- The tokens of the members that follow another one. -/
def membersTokens : List (String × Json) → List Token
  | [] => []
  | (key, value) :: members =>
    .comma :: .string key :: .colon :: (tokens value ++ membersTokens members)

end

/-- A style of nothing but white space. -/
structure Style.IsBlank (style : Style) : Prop where
  lineBreak : ∀ level, ∀ c ∈ style.lineBreak level, isSpace c
  afterColon : ∀ c ∈ style.afterColon, isSpace c

theorem Style.isBlank_compact : Style.compact.IsBlank :=
  ⟨fun _ _ hc => absurd hc List.not_mem_nil, fun _ hc => absurd hc List.not_mem_nil⟩

theorem Style.isBlank_pretty : Style.pretty.IsBlank := by
  refine ⟨fun level c hc => ?_, fun c hc => ?_⟩
  · rcases List.mem_cons.mp hc with rfl | hc
    · rfl
    · rw [(List.mem_replicate.mp hc).2]
      rfl
  · rw [List.mem_singleton.mp hc]
    rfl

variable {style : Style}

theorem isDelimited_space_append {blank : List Char} (hb : ∀ c ∈ blank, isSpace c)
    {rest : List Char} (hd : IsDelimited rest) : IsDelimited (blank ++ rest) := by
  cases blank with
  | nil => exact hd
  | cons c blank =>
    have hc : isSpace c := hb c List.mem_cons_self
    simp only [isSpace, Bool.or_eq_true, decide_eq_true_eq] at hc
    rcases hc with ((rfl | rfl) | rfl) | rfl <;> exact ⟨rfl, rfl⟩

theorem isDelimited_writeItems (style : Style) (level : Nat) (items : List Json) {rest : List Char}
    (hd : IsDelimited rest) : IsDelimited (writeItems style level items ++ rest) := by
  cases items with
  | nil => exact hd
  | cons item items => exact ⟨rfl, rfl⟩

theorem isDelimited_writeMembers (style : Style) (level : Nat) (members : Members)
    {rest : List Char} (hd : IsDelimited rest) :
    IsDelimited (writeMembers style level members ++ rest) := by
  cases members with
  | nil => exact hd
  | cons member members => exact ⟨rfl, rfl⟩

mutual

/-- **The text of a value** is scanned as its tokens. -/
theorem scan_write (hs : style.IsBlank) : ∀ {n : Nat} {v : Json} (level : Nat), Readable n v →
    ∀ {rest : List Char}, IsDelimited rest →
      Mode.between.scan (write style level v ++ rest) =
        (Mode.between.scan rest).map (tokens v ++ ·)
  | _, .null, _, _, rest, hd => by
    rw [write]
    exact scan_word (c := 'n') rfl rfl rfl hd
  | _, .bool true, _, _, rest, hd => by
    rw [write]
    exact scan_word (c := 't') rfl rfl rfl hd
  | _, .bool false, _, _, rest, hd => by
    rw [write]
    exact scan_word (c := 'f') rfl rfl rfl hd
  | _, .number x, _, .number _ hx, rest, hd => by
    rw [write, scan_number hx hd]
    rfl
  | _, .string s, _, _, rest, hd => by
    rw [write, scan_writeString]
    rfl
  | _, .array [], _, _, rest, hd => by
    rw [write, List.cons_append, scan_mark (c := '[') rfl, List.cons_append,
      scan_mark (c := ']') rfl, Option.map_map]
    rfl
  | _, .array (item :: items), level, .array h, rest, hd => by
    have hclose : IsDelimited (style.lineBreak level ++ ']' :: rest) :=
      isDelimited_space_append (hs.lineBreak level) ⟨rfl, rfl⟩
    have hitem := scan_write hs (level + 1) (h item List.mem_cons_self)
      (isDelimited_writeItems style (level + 1) items hclose)
    have hitems := scan_writeItems hs (level + 1)
      (fun v hv => h v (List.mem_cons_of_mem item hv)) hclose
    simp only [write, List.cons_append, List.append_assoc, List.nil_append]
    rw [scan_mark (c := '[') rfl, scan_space (hs.lineBreak _), hitem, hitems,
      scan_space (hs.lineBreak _), scan_mark (c := ']') rfl]
    simp [tokens, Option.map_map, Function.comp_def]
  | _, .object [], _, _, rest, hd => by
    rw [write, List.cons_append, scan_mark (c := '\x7b') rfl, List.cons_append,
      scan_mark (c := '\x7d') rfl, Option.map_map]
    rfl
  | _, .object ((key, value) :: members), level, .object h, rest, hd => by
    have hclose : IsDelimited (style.lineBreak level ++ '\x7d' :: rest) :=
      isDelimited_space_append (hs.lineBreak level) ⟨rfl, rfl⟩
    have hvalue := scan_write hs (level + 1) (h (key, value) List.mem_cons_self)
      (isDelimited_writeMembers style (level + 1) members hclose)
    have hmembers := scan_writeMembers hs (level + 1)
      (fun m hm => h m (List.mem_cons_of_mem _ hm)) hclose
    simp only [write, List.cons_append, List.append_assoc, List.nil_append]
    rw [scan_mark (c := '\x7b') rfl, scan_space (hs.lineBreak _), scan_writeString,
      scan_mark (c := ':') rfl, scan_space hs.afterColon, hvalue, hmembers,
      scan_space (hs.lineBreak _), scan_mark (c := '\x7d') rfl]
    simp [tokens, Option.map_map, Function.comp_def]

theorem scan_writeItems (hs : style.IsBlank) : ∀ {n : Nat} {items : List Json} (level : Nat),
    (∀ v ∈ items, Readable n v) → ∀ {rest : List Char}, IsDelimited rest →
      Mode.between.scan (writeItems style level items ++ rest) =
        (Mode.between.scan rest).map (itemsTokens items ++ ·)
  | _, [], _, _, rest, _ => by simp [writeItems, itemsTokens]
  | _, item :: items, level, h, rest, hd => by
    have hitem := scan_write hs level (h item List.mem_cons_self)
      (isDelimited_writeItems style level items hd)
    have hitems := scan_writeItems hs level (fun v hv => h v (List.mem_cons_of_mem item hv)) hd
    simp only [writeItems, List.cons_append, List.append_assoc]
    rw [scan_mark (c := ',') rfl, scan_space (hs.lineBreak _), hitem, hitems]
    simp [itemsTokens, Option.map_map, Function.comp_def]

theorem scan_writeMembers (hs : style.IsBlank) : ∀ {n : Nat} {members : Members} (level : Nat),
    (∀ m ∈ members, Readable n m.2) → ∀ {rest : List Char}, IsDelimited rest →
      Mode.between.scan (writeMembers style level members ++ rest) =
        (Mode.between.scan rest).map (membersTokens members ++ ·)
  | _, [], _, _, rest, _ => by simp [writeMembers, membersTokens]
  | _, (key, value) :: members, level, h, rest, hd => by
    have hvalue := scan_write hs level (h (key, value) List.mem_cons_self)
      (isDelimited_writeMembers style level members hd)
    have hmembers := scan_writeMembers hs level (fun m hm => h m (List.mem_cons_of_mem _ hm)) hd
    simp only [writeMembers, List.cons_append, List.append_assoc]
    rw [scan_mark (c := ',') rfl, scan_space (hs.lineBreak _), scan_writeString,
      scan_mark (c := ':') rfl, scan_space hs.afterColon, hvalue, hmembers]
    simp [membersTokens, Option.map_map, Function.comp_def]

end

/-! ### Running -/

theorem Awaiting.run_cons {awaiting : Awaiting} (next : Awaiting) {token : Token}
    (h : awaiting.step token = some next) (rest : List Token) :
    awaiting.run (token :: rest) = next.run rest := by
  rw [Awaiting.run, h]
  rfl

/-- No value begins with the end of an array, so a value may come for the first item. -/
theorem run_item (frames : List Frame) (v : Json) (rest : List Token) :
    (Awaiting.item frames).run (tokens v ++ rest) =
      (Awaiting.value (.array [] :: frames)).run (tokens v ++ rest) := by
  cases v with
  | array items => cases items <;> rfl
  | object members => cases members <;> rfl
  | _ => rfl

theorem stepValue_openArray {frames : List Frame} {n : Nat}
    (h : frames.length + (n + 1) ≤ maxDepth) :
    (Awaiting.value frames).step .openArray = some (.item frames) :=
  if_pos (by omega)

theorem stepValue_openObject {frames : List Frame} {n : Nat}
    (h : frames.length + (n + 1) ≤ maxDepth) :
    (Awaiting.value frames).step .openObject = some (.member frames) :=
  if_pos (by omega)

mutual

/-- **The tokens of a value** take the machine to the value. -/
theorem run_tokens : ∀ {n : Nat} {v : Json} (frames : List Frame), Readable n v →
    frames.length + n ≤ maxDepth → ∀ rest : List Token,
      (Awaiting.value frames).run (tokens v ++ rest) = (Awaiting.next (normalize v) frames).run rest
  | _, .null, _, _, _, rest => rfl
  | _, .bool b, _, _, _, rest => rfl
  | _, .number x, _, _, _, rest => rfl
  | _, .string s, _, _, _, rest => rfl
  | _, .array [], _, .array _, hn, rest => Awaiting.run_cons _ (stepValue_openArray hn) _
  | _, .array (item :: items), frames, .array h, hn, rest => by
    have hitem := run_tokens (.array [] :: frames) (h item List.mem_cons_self)
      (by simp only [List.length_cons]; omega)
    have hitems := run_itemsTokens [] (normalize item)
      (fun v hv => h v (List.mem_cons_of_mem item hv)) hn
    simp only [tokens, List.cons_append, List.append_assoc, List.nil_append]
    rw [Awaiting.run_cons _ (stepValue_openArray hn), run_item, hitem, hitems]
    rfl
  | _, .object [], _, .object _, hn, rest => Awaiting.run_cons _ (stepValue_openObject hn) _
  | _, .object ((key, value) :: members), frames, .object h, hn, rest => by
    have hvalue := run_tokens (.object [] key :: frames)
      (h (key, value) List.mem_cons_self) (by simp only [List.length_cons]; omega)
    have hmembers := run_membersTokens [] key (normalize value)
      (fun m hm => h m (List.mem_cons_of_mem _ hm)) hn
    simp only [tokens, List.cons_append, List.append_assoc, List.nil_append]
    rw [Awaiting.run_cons _ (stepValue_openObject hn),
      Awaiting.run_cons (.colon [] key frames) rfl,
      Awaiting.run_cons (.value (.object [] key :: frames)) rfl, hvalue, hmembers]
    rfl

theorem run_itemsTokens : ∀ {n : Nat} {items : List Json} {frames : List Frame}
    (done : List Json) (last : Json), (∀ v ∈ items, Readable n v) →
    frames.length + (n + 1) ≤ maxDepth → ∀ rest : List Token,
      (Awaiting.next last (.array done :: frames)).run (itemsTokens items ++ .closeArray :: rest) =
        (Awaiting.next (.array ((last :: done).reverse ++ normalizeItems items)) frames).run rest
  | _, [], frames, done, last, _, _, rest => by
    rw [itemsTokens, List.nil_append, normalizeItems, List.append_nil]
    exact Awaiting.run_cons _ rfl rest
  | _, item :: items, frames, done, last, h, hn, rest => by
    have hitem := run_tokens (.array (last :: done) :: frames) (h item List.mem_cons_self)
      (by simp only [List.length_cons]; omega)
    have hitems := run_itemsTokens (last :: done) (normalize item)
      (fun v hv => h v (List.mem_cons_of_mem item hv)) hn
    simp only [itemsTokens, List.cons_append, List.append_assoc]
    rw [Awaiting.run_cons (.value (.array (last :: done) :: frames)) rfl, hitem, hitems]
    simp [normalizeItems]

theorem run_membersTokens : ∀ {n : Nat} {members : Members} {frames : List Frame}
    (done : Members) (key : String) (last : Json), (∀ m ∈ members, Readable n m.2) →
    frames.length + (n + 1) ≤ maxDepth → ∀ rest : List Token,
      (Awaiting.next last (.object done key :: frames)).run
          (membersTokens members ++ .closeObject :: rest) =
        (Awaiting.next (.object ((normalizeMembers members).foldl
          (fun sorted (k, v) => Members.insert k v sorted) (done.insert key last))) frames).run rest
  | _, [], frames, done, key, last, _, _, rest => Awaiting.run_cons _ rfl rest
  | _, (k, value) :: members, frames, done, key, last, h, hn, rest => by
    have hvalue := run_tokens (.object (done.insert key last) k :: frames)
      (h (k, value) List.mem_cons_self) (by simp only [List.length_cons]; omega)
    have hmembers := run_membersTokens (done.insert key last) k (normalize value)
      (fun m hm => h m (List.mem_cons_of_mem _ hm)) hn
    simp only [membersTokens, List.cons_append, List.append_assoc]
    rw [Awaiting.run_cons (.key (done.insert key last) frames) rfl,
      Awaiting.run_cons (.colon (done.insert key last) k frames) rfl,
      Awaiting.run_cons (.value (.object (done.insert key last) k :: frames)) rfl,
      hvalue, hmembers]
    rfl

end

/-- **What was written is read back**, with the members of each object in order. -/
theorem parse?_write {v : Json} (hs : style.IsBlank) (h : Readable maxDepth v) :
    parse? (write style 0 v) = some (normalize v) := by
  have hscan : Mode.between.scan (write style 0 v ++ []) = _ := scan_write hs 0 h trivial
  have hrun := run_tokens [] h (by simp) []
  rw [List.append_nil] at hscan hrun
  rw [parse?_eq_scan, hscan]
  simp only [Mode.scan, Mode.finish, Option.map_some, Option.bind_some, List.append_nil, hrun]
  rfl

end TestTree.Json
