import TestTree.Proofs.Accept
import TestTree.Proofs.Json.Quoted
import TestTree.Proofs.Text.Split

/-! # The banner after a report

What an object is accepted as when the banner follows it directly. The banner is looked for in the
raw text, and the object itself may hold it, in a string. `accept_of_banner_outside`: if it does
not, the object counts as if it stood alone. `accept_of_banner_within`: if it does, the text is cut
within that string, what stands before the cut is no JSON, and the object is lost. -/

namespace TestTree.Progress

variable {text : List Char} {members : Json.Members}

theorem isForeign_banner : Json.IsForeign 'C' := ⟨rfl, rfl, rfl⟩

theorem quote_notMem_banner : '"' ∉ banner.toList := by decide

/-- A text with the banner after it is no JSON as a whole. -/
theorem parse?_append_banner (h : Json.parse? text = some (.object members)) (rest : List Char) :
    Json.parse? (text ++ (banner.toList ++ rest)) = none :=
  Json.parse?_append_foreign h isForeign_banner _

/-- The banner does not begin within an object and end after it. -/
theorem cutFirst_banner (h : Json.parse? text = some (.object members))
    (hn : ¬ banner.toList <:+: text) (rest : List Char) :
    Text.cutFirst banner.toList (text ++ (banner.toList ++ rest)) = some (text, rest) := by
  refine Text.cutFirst_append_mark fun s hs hl hp => ?_
  -- A banner that begins with the end `s` of the object stops within it, or `s` is its beginning.
  rcases List.prefix_or_prefix_of_prefix hp (List.prefix_append s _) with hb | hb
  · exact hn (hb.isInfix.trans hl.isInfix)
  · obtain ⟨c, s, rfl⟩ := List.exists_cons_of_ne_nil hs
    have hq : '"' ∉ c :: s := fun hm => quote_notMem_banner (hb.subset hm)
    obtain rfl : c = 'C' := (List.cons_prefix_cons.mp hb).1
    exact Json.not_suffix_foreign h isForeign_banner hq hl

/-- An object without the banner counts as if it stood alone. -/
theorem accept_of_banner_outside (h : Json.parse? text = some (.object members))
    (hn : ¬ banner.toList <:+: text) (current : Path) (rest : List Char) :
    (accept current (text ++ (banner.toList ++ rest))).outcome = (accept current text).outcome ∧
      (accept current (text ++ (banner.toList ++ rest))).path = (accept current text).path := by
  have hr : (readValue (text ++ (banner.toList ++ rest))).1 = (readValue text).1 := by
    unfold readValue
    rw [parse?_append_banner h, cutFirst_banner h hn, h]
    exact h
  exact accept_congr hr current

/-- An object with the banner in it is lost. -/
theorem accept_of_banner_within (h : Json.parse? text = some (.object members))
    (hi : banner.toList <:+: text) (current : Path) (rest : List Char) :
    (accept current (text ++ (banner.toList ++ rest))).outcome = .console ∧
      (accept current (text ++ (banner.toList ++ rest))).path = current := by
  rcases hc : Text.cutFirst banner.toList text with - | ⟨front, after⟩
  · exact absurd hi (Text.cutFirst_eq_none_iff.mp hc)
  have hf : Json.parse? front = none := by
    rw [Text.eq_of_cutFirst hc] at h
    exact Json.parse?_front_of_foreign h isForeign_banner quote_notMem_banner
  have hr : (readValue (text ++ (banner.toList ++ rest))).1 = none := by
    unfold readValue
    rw [parse?_append_banner h, Text.cutFirst_append_right hc]
    exact hf
  exact accept_of_readValue_eq_none hr current

/-- **The banner after an object**, with any text behind it, makes no difference to what the object
is accepted as and to the path just if the banner is not in the object too, or the object is
ordinary output by itself. With the banner in it any object becomes ordinary output. -/
theorem accept_append_banner (h : Json.parse? text = some (.object members)) (current : Path)
    (rest : List Char) :
    let alone := accept current text
    let followed := accept current (text ++ (banner.toList ++ rest))
    (followed.outcome = alone.outcome ∧ followed.path = alone.path ↔
        ¬ banner.toList <:+: text ∨ alone.outcome = .console) ∧
      (banner.toList <:+: text → followed.outcome = .console ∧ followed.path = current) := by
  intro alone followed
  refine ⟨⟨fun ⟨ho, _⟩ => ?_, fun hor => ?_⟩, fun hi => accept_of_banner_within h hi current rest⟩
  · by_cases hi : banner.toList <:+: text
    · exact .inr (ho ▸ (accept_of_banner_within h hi current rest).1)
    · exact .inl hi
  · by_cases hi : banner.toList <:+: text
    · have hc : alone.outcome = .console := hor.resolve_left fun hn => hn hi
      obtain ⟨ho, hp⟩ := accept_of_banner_within h hi current rest
      exact ⟨ho.trans hc.symm, hp.trans (path_of_outcome_eq_console hc).symm⟩
    · exact accept_of_banner_outside h hi current rest

/-- A compiler problem with the banner for its title. -/
def bannerProblem : String :=
  "\x7b\"type\":\"error\",\"path\":null,\"title\":\"Compilation failed\",\"message\":[]\x7d"

theorem parse?_bannerProblem :
    ∃ members, Json.parse? bannerProblem.toList = some (.object members) := ⟨_, rfl⟩

theorem outcome_bannerProblem : (accept .root bannerProblem.toList).outcome =
    .report [.testStarted "Compilation failed" none,
      .testFailed "Compilation failed" "" none none true] := by
  rfl

theorem banner_within_bannerProblem : banner.toList <:+: bannerProblem.toList :=
  ⟨"\x7b\"type\":\"error\",\"path\":null,\"title\":\"".toList, "\",\"message\":[]\x7d".toList, rfl⟩

theorem bannerProblem_append_banner :
    let alone := accept .root bannerProblem.toList
    let followed := accept .root (bannerProblem.toList ++ (banner.toList ++ ['!']))
    ¬ (followed.outcome = alone.outcome ∧ followed.path = alone.path) ∧
      followed.outcome = .console ∧ followed.path = .root := by
  intro alone followed
  obtain ⟨members, hp⟩ := parse?_bannerProblem
  obtain ⟨hiff, hc⟩ := accept_append_banner hp .root ['!']
  have ha : alone.outcome ≠ .console := by
    rw [outcome_bannerProblem]
    exact Outcome.noConfusion
  refine ⟨fun h => ?_, hc banner_within_bannerProblem⟩
  rcases hiff.mp h with hn | hcon
  · exact hn banner_within_bannerProblem
  · exact ha hcon

/-- The problem is reported if it stands alone, and lost if the banner follows it. -/
theorem bannerProblem_lost :
    ¬ ∀ (current : Path) (text rest : List Char) (members : Json.Members),
      Json.parse? text = some (.object members) →
        (accept current (text ++ (banner.toList ++ rest))).outcome =
            (accept current text).outcome ∧
          (accept current (text ++ (banner.toList ++ rest))).path = (accept current text).path := by
  intro h
  obtain ⟨members, hp⟩ := parse?_bannerProblem
  have ho := (h .root bannerProblem.toList [] members hp).1
  have hf := (accept_of_banner_within hp banner_within_bannerProblem .root []).1
  rw [outcome_bannerProblem, hf] at ho
  cases ho

end TestTree.Progress
