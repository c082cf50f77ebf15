import ReviewAgent.Evaluation.JudgeScores

/-! A code fence around the judge's answer does not change the verdict. -/
namespace ReviewAgent

open Json (CodePoint Text Value points)

def backtick : CodePoint := 0x60

/-- An answer in a code fence, behind the fence's tag. -/
def fenced (tag body : Text) : Text := fence ++ tag ++ lineFeed :: (body ++ lineFeed :: fence)

/-- The tags that are taken off with a fence. -/
def FenceTag (tag : Text) : Prop := tag = [] ∨ tag = points "json"

section

variable {tag body text core space tail : Text} {atStart : Bool}

theorem not_isPrefixOf_fence (h : ¬ fence <+: text) : fence.isPrefixOf text = false := by
  rw [← Bool.not_eq_true, List.isPrefixOf_iff_prefix]
  exact h

/-- No fence begins in a text and ends in what comes behind it. -/
theorem not_fence_append (h : ¬ fence <+: text) (htail : tail.head? ≠ some backtick) :
    ¬ fence <+: text ++ tail := by
  rw [fence, backtick] at *
  match text with
  | [] =>
    rintro ⟨rest, rfl⟩
    exact htail rfl
  | [c] =>
    rintro ⟨rest, heq⟩
    obtain ⟨-, rfl⟩ := List.cons.inj heq
    exact htail rfl
  | [c, d] =>
    rintro ⟨rest, heq⟩
    obtain ⟨-, rfl⟩ := List.cons.inj (List.cons.inj heq).2
    exact htail rfl
  | c :: d :: e :: text =>
    simpa using h

theorem drop_takeWhile (p : CodePoint → Bool) (text : Text) :
    text.drop (text.takeWhile p).length = text.dropWhile p := by
  calc text.drop (text.takeWhile p).length
      = (text.takeWhile p ++ text.dropWhile p).drop (text.takeWhile p).length := by
        rw [List.takeWhile_append_dropWhile]
    _ = text.dropWhile p := List.drop_left

theorem takeWhile_space_append (hspace : ∀ c ∈ space, isWhitespace c = true)
    (htail : ∀ c ∈ tail.head?, isWhitespace c = false) :
    (space ++ tail).takeWhile isWhitespace = space := by
  rw [List.takeWhile_append_of_pos hspace]
  cases tail with
  | nil => simp
  | cons c tail => simp [htail c rfl]

/-- The space inside of a text is not the space before a fence. -/
theorem closingFence_append (hcore : ¬ fence <:+: core)
    (hmore : ∃ c ∈ core, isWhitespace c = false) (htail : tail.head? ≠ some backtick) :
    closingFence (core ++ tail) = 0 := by
  have hne : core.dropWhile isWhitespace ≠ [] := by
    obtain ⟨c, hc, hspace⟩ := hmore
    intro hdrop
    rw [List.dropWhile_eq_nil_iff.mp hdrop c hc] at hspace
    cases hspace
  have hrest : ¬ fence <+: core.dropWhile isWhitespace ++ tail := by
    refine not_fence_append (fun hprefix => hcore ?_) htail
    exact hprefix.isInfix.trans (List.dropWhile_suffix _).isInfix
  have hdrop : (core ++ tail).dropWhile isWhitespace = core.dropWhile isWhitespace ++ tail := by
    rw [List.dropWhile_append, if_neg (by simpa using hne)]
  simp only [closingFence]
  rw [drop_takeWhile, hdrop, not_isPrefixOf_fence hrest]
  rfl

theorem fenceLength_append (hcore : ¬ fence <:+: core)
    (hmore : ∃ c ∈ core, isWhitespace c = false) (htail : tail.head? ≠ some backtick) :
    fenceLength atStart (core ++ tail) = 0 := by
  have hprefix : ¬ fence <+: core ++ tail := not_fence_append (fun h => hcore h.isInfix) htail
  rw [fenceLength, openingFence, not_isPrefixOf_fence hprefix, Bool.and_false,
    closingFence_append hcore hmore htail]
  rfl

/-- A text without a fence, that does not end in space, is kept. -/
theorem subFences_core {c : CodePoint} (hcore : ¬ fence <:+: c :: core)
    (hlast : ∀ d ∈ (c :: core).getLast?, isWhitespace d = false)
    (htail : tail.head? ≠ some backtick) :
    subFences atStart 0 (c :: core ++ tail) = c :: core ++ subFences false 0 tail := by
  induction core generalizing atStart c with
  | nil =>
    have hc : isWhitespace c = false := hlast c rfl
    have hline : (c == lineFeed) = false := by
      rw [← Bool.not_eq_true, beq_iff_eq]
      rintro rfl
      cases hc
    have hnone : fenceLength atStart ([c] ++ tail) = 0 :=
      fenceLength_append hcore ⟨c, List.mem_singleton_self c, hc⟩ htail
    rw [List.singleton_append] at hnone ⊢
    rw [subFences, if_pos rfl, if_pos hnone, hline]
    rfl
  | cons d core ih =>
    have hmore : ∃ e ∈ c :: d :: core, isWhitespace e = false :=
      ⟨_, List.getLast_mem (by simp), hlast _ (List.getLast?_eq_some_getLast (by simp))⟩
    have hnone : fenceLength atStart (c :: d :: core ++ tail) = 0 :=
      fenceLength_append hcore hmore htail
    rw [List.cons_append] at hnone ⊢
    rw [subFences, if_pos rfl, if_pos hnone, ih]
    · rfl
    · exact fun h => hcore (h.trans (List.suffix_cons c _).isInfix)
    · simpa using hlast

theorem subFences_skip {skipped : Text} (h : skipped ≠ []) (tail : Text) :
    subFences atStart skipped.length (skipped ++ tail) =
      subFences (skipped.getLast h == lineFeed) 0 tail := by
  induction skipped generalizing atStart with
  | nil => exact absurd rfl h
  | cons c rest ih =>
    cases rest with
    | nil => simp [subFences]
    | cons d rest =>
      rw [List.cons_append, subFences, if_neg (by simp), if_neg (by simp)]
      simpa using ih (by simp)

/-- A match is taken off. -/
theorem subFences_matched {matched : Text} (h : matched ≠ [])
    (hlength : fenceLength atStart (matched ++ tail) = matched.length) :
    subFences atStart 0 (matched ++ tail) =
      subFences (matched.getLast h == lineFeed) 0 tail := by
  rw [← @subFences_skip atStart matched h]
  cases matched with
  | nil => exact absurd rfl h
  | cons c matched =>
    rw [List.cons_append] at hlength ⊢
    simp [subFences, hlength]

/-- The space behind a fence goes with it. -/
theorem fenceLength_opening (htag : FenceTag tag) (hspace : ∀ c ∈ space, isWhitespace c = true)
    (htail : ∀ c ∈ tail.head?, isWhitespace c = false) :
    fenceLength true ((fence ++ tag ++ lineFeed :: space) ++ tail) =
      (fence ++ tag ++ lineFeed :: space).length := by
  have hwhole : ∀ c ∈ lineFeed :: space, isWhitespace c = true :=
    List.forall_mem_cons.mpr ⟨rfl, hspace⟩
  have htaken := takeWhile_space_append hwhole htail
  have hopening : openingFence true ((fence ++ tag ++ lineFeed :: space) ++ tail) =
      (fence ++ tag).length + ((lineFeed :: space ++ tail).takeWhile isWhitespace).length := by
    obtain rfl | rfl := htag <;> rfl
  rw [htaken, ← List.length_append] at hopening
  rw [fenceLength, hopening, if_neg (by simp)]

/-- The space before the last fence goes with it. -/
theorem subFences_closing (hspace : ∀ c ∈ space, isWhitespace c = true) :
    subFences false 0 (space ++ lineFeed :: fence) = [] := by
  have hwhole : ∀ c ∈ space ++ [lineFeed], isWhitespace c = true :=
    List.forall_mem_append.mpr ⟨hspace, List.forall_mem_singleton.mpr rfl⟩
  have htaken := @takeWhile_space_append _ fence hwhole (by decide)
  rw [List.append_assoc, List.singleton_append] at htaken
  have hdropped := @List.drop_left _ (space ++ [lineFeed]) fence
  rw [List.append_assoc, List.singleton_append] at hdropped
  have hclosing : closingFence (space ++ lineFeed :: fence) = (space ++ [lineFeed]).length + 3 := by
    simp only [closingFence]
    rw [htaken, hdropped]
    rfl
  have hlength : fenceLength false ((space ++ lineFeed :: fence) ++ []) =
      (space ++ lineFeed :: fence).length := by
    rw [List.append_nil, fenceLength, openingFence, hclosing]
    simp [fence]
  rw [← List.append_nil (space ++ lineFeed :: fence), subFences_matched (by simp) hlength]
  rfl

/-- A fenced answer begins and ends in a backtick. -/
theorem strip_fenced (tag body : Text) : strip (fenced tag body) = fenced tag body := by
  have hlast : fenced tag body =
      fence ++ tag ++ lineFeed :: (body ++ [lineFeed, backtick, backtick]) ++ [backtick] := by
    simp [fenced, fence, backtick]
  have hhead : (fenced tag body).dropWhile isWhitespace = fenced tag body := rfl
  rw [strip, hhead, hlast, List.rdropWhile_concat_neg _ _ _ (by decide)]

theorem head_space_append (hspace : ∀ c ∈ space, isWhitespace c = true) :
    (space ++ lineFeed :: tail).head? ≠ some backtick := by
  cases space with
  | nil => exact fun h => absurd (Option.some.inj h) (by decide)
  | cons c space =>
    intro h
    obtain rfl : c = backtick := Option.some.inj h
    exact absurd (hspace backtick List.mem_cons_self) (by decide)

/-- What is left of a fenced answer is what is left of the answer. -/
theorem stripCodeFence_fenced (htag : FenceTag tag) (hbody : ¬ fence <:+: body) :
    stripCodeFence (fenced tag body) = stripCodeFence body := by
  obtain ⟨before, after, hparts, hbefore, hafter⟩ := strip_eq body
  rw [stripCodeFence, stripCodeFence, strip_fenced]
  cases hcore : strip body with
  | nil =>
    rw [hcore, List.append_nil] at hparts
    have hblank : ∀ c ∈ body ++ [lineFeed], isWhitespace c = true := by
      rw [hparts]
      exact List.forall_mem_append.mpr ⟨List.forall_mem_append.mpr ⟨hbefore, hafter⟩,
        List.forall_mem_singleton.mpr rfl⟩
    have hfenced : fenced tag body =
        (fence ++ tag ++ lineFeed :: (body ++ [lineFeed])) ++ fence := by
      simp [fenced]
    have hlast : (fence ++ tag ++ lineFeed :: (body ++ [lineFeed])).getLast (by simp) =
        lineFeed := by
      simp
    rw [hfenced, subFences_matched (by simp) (fenceLength_opening htag hblank (by decide)), hlast]
    rfl
  | cons c core =>
    rw [hcore] at hparts
    have hfree : ¬ fence <:+: c :: core := fun h => hbody (h.trans ⟨before, after, hparts.symm⟩)
    have hlast : ∀ d ∈ (c :: core).getLast?, isWhitespace d = false := hcore ▸ strip_getLast
    have hhead : ∀ d ∈ (c :: core ++ (after ++ lineFeed :: fence)).head?,
        isWhitespace d = false := by
      intro d hd
      cases hd
      exact strip_head hcore
    have hfenced : fenced tag body =
        (fence ++ tag ++ lineFeed :: before) ++ (c :: core ++ (after ++ lineFeed :: fence)) := by
      rw [fenced, hparts]
      simp
    have hplain := @subFences_core core [] true c hfree hlast (by simp)
    rw [List.append_nil] at hplain
    rw [hfenced, subFences_matched (by simp) (fenceLength_opening htag hbefore hhead),
      subFences_core hfree hlast (head_space_append hafter), subFences_closing hafter, hplain]
    rfl

end

section

variable {py : Interpreter} {rawText rawText' : Text} {verdict : JudgeVerdict}

/-- A verdict does not show the raw text, only an error does. -/
theorem verdictOf_raw {members : List (Text × Value)}
    (h : verdictOf py rawText members = .ok verdict) :
    verdictOf py rawText' members = .ok verdict := by
  unfold verdictOf at h ⊢
  split at h
  · cases h
  · split at h
    · cases h
    · rename_i hne
      rw [if_neg hne]
      cases hconverted : floatOf py (getMember "score" members) >>= clampScore with
      | ok score =>
        rw [hconverted] at h
        exact h
      | error e =>
        rw [hconverted] at h
        simp only at h
        split at h <;> cases h
  · cases h

theorem parseJudgeResponse_raw (hcleaned : stripCodeFence rawText = stripCodeFence rawText')
    (h : parseJudgeResponse py rawText = .ok verdict) :
    parseJudgeResponse py rawText' = .ok verdict := by
  unfold parseJudgeResponse at h ⊢
  rw [← hcleaned]
  cases hload : Json.loads py.limits (stripCodeFence rawText) with
  | error failure =>
    simp only [hload] at h
    split at h <;> cases h
  | ok payload =>
    cases payload with
    | object members =>
      simp only [hload] at h ⊢
      exact verdictOf_raw h
    | _ =>
      simp only [hload] at h
      cases h

/-- An answer that has no fence in itself gets the same verdict in one. -/
theorem parseJudgeResponse_fenced {tag body : Text} (htag : FenceTag tag)
    (hbody : ¬ fence <:+: body) :
    parseJudgeResponse py (fenced tag body) = .ok verdict ↔
      parseJudgeResponse py body = .ok verdict := by
  have hcleaned := stripCodeFence_fenced htag hbody
  exact ⟨parseJudgeResponse_raw hcleaned, parseJudgeResponse_raw hcleaned.symm⟩

end

/-- An answer with a code span in its rationale. -/
def halfAnswer : Text := points "\x7b\"score\": 0.5, \"rationale\": \"names `x`\"\x7d"

theorem loads_halfAnswer : Json.loads Interpreter.sample.limits (stripCodeFence halfAnswer) =
    .ok (.object [(points "score", .float (points "0.5")),
      (points "rationale", .str (points "names `x`"))]) := rfl

theorem numeral_half : numeral? (points "0.5") = some (.number (1 / 2)) := by
  have hdigits : numeral? (points "0.5") = some (.number ((5 : ℤ) / 10 ^ 1 * 1)) := rfl
  rw [hdigits]
  norm_num

theorem clampScore_half : clampScore (Binary64.ofRat (1 / 2)) = .ok 500 := by
  have hplaces := not_roundsUp_of_places 500000000000000
  norm_num at hplaces
  rw [clampScore_ofRat, (score_eq_iff _).mpr hplaces]
  norm_num [Rounding.toPlaces]

theorem parseJudgeResponse_half :
    parseJudgeResponse .sample halfAnswer = .ok ⟨500, points "names `x`"⟩ := by
  have hscore : getMember "score" [(points "score", Value.float (points "0.5")),
      (points "rationale", .str (points "names `x`"))] = .float (points "0.5") := rfl
  have hrationale : getMember "rationale" [(points "score", Value.float (points "0.5")),
      (points "rationale", .str (points "names `x`"))] = .str (points "names `x`") := rfl
  have hconverted : floatOf .sample (.float (points "0.5")) >>= clampScore = .ok 500 := by
    rw [floatOf, floatOfText_some numeral_half]
    exact clampScore_half
  rw [parseJudgeResponse_object loads_halfAnswer,
    verdictOf_explained (by rw [hscore]; simp) hrationale (by decide), hscore, hconverted]
  rfl

theorem parseJudgeResponse_fenced_half :
    parseJudgeResponse .sample (fenced (points "json") halfAnswer) =
      .ok ⟨500, points "names `x`"⟩ :=
  (parseJudgeResponse_fenced (.inr rfl) (by decide)).mpr parseJudgeResponse_half

end ReviewAgent
