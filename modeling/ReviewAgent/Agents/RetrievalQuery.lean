import ReviewAgent.Agents.ResponseParsing
import ReviewAgent.KeywordSearch

/-! The query that grounds a review: the names that the added lines of a diff define. -/
namespace ReviewAgent

open KeywordSearch (Lexis MatchesAt Pattern search)

/-- `[A-Za-z_]`. -/
def startsName (c : Char) : Bool :=
  ('A' ≤ c && c ≤ 'Z') || ('a' ≤ c && c ≤ 'z') || c == '_'

/-- `[A-Za-z0-9_]`. -/
def isNamePart (c : Char) : Bool := startsName c || ('0' ≤ c && c ≤ '9')

/-- `\s`. -/
def isBlank (c : Char) : Bool := isWhitespace c.toNat

/-- What `\w` matches: the characters of names and no blank. -/
structure WordChars where
  isWord : Char → Bool
  isWord_of_part : ∀ c, isNamePart c = true → isWord c = true
  not_isWord_of_blank : ∀ c, isBlank c = true → isWord c = false

theorem isNamePart_of_starts (c : Char) (h : startsName c = true) : isNamePart c = true := by
  rw [isNamePart, h, Bool.true_or]

def WordChars.lexis (words : WordChars) : Lexis Char where
  word := words.isWord
  space := isBlank
  start := startsName
  part := isNamePart
  part_of_start := isNamePart_of_starts
  word_of_part := words.isWord_of_part
  not_word_of_space := words.not_isWord_of_blank

/-- `_DEFINITION_PATTERNS`. -/
def definitionPatterns : List (Pattern Char) :=
  [⟨["def".toList], none⟩, ⟨["class".toList], none⟩, ⟨["function".toList], none⟩,
    ⟨["const".toList, "let".toList, "var".toList], some '='⟩, ⟨["interface".toList], none⟩]

def maxQuerySymbols : ℕ := 12

def fallbackQueryChars : ℕ := 500

section

variable (words : WordChars)

/-- What the first pattern that matches at all finds in a line. -/
def declaredName (line : List Char) : Option (List Char) :=
  definitionPatterns.findSome? fun pattern => search words.lexis pattern true line

/-- A line that the diff adds, and not the header of a file. -/
def isAddedLine (line : List Char) : Bool :=
  "+".toList.isPrefixOf line && !"+++".toList.isPrefixOf line

/-- The symbols so far, with the one that a line declares. -/
def addSymbol (symbols : List (List Char)) (line : List Char) : List (List Char) :=
  match declaredName words line with
  | some name => if name ∈ symbols then symbols else symbols ++ [name]
  | none => symbols

/-- The loop over the lines, which stops once there are enough symbols. -/
def querySymbols (symbols : List (List Char)) : List (List Char) → List (List Char)
  | [] => symbols
  | line :: lines =>
    if isAddedLine line then
      let more := addSymbol words symbols line
      if maxQuerySymbols ≤ more.length then more else querySymbols more lines
    else querySymbols symbols lines

/-- `extract_retrieval_query`. -/
def extractRetrievalQuery (diff : String) : String :=
  let symbols := querySymbols words [] (splitLines diff.toList)
  if symbols ≠ [] then " ".intercalate ((symbols.take maxQuerySymbols).map String.ofList)
  else String.ofList (diff.toList.take fallbackQueryChars)

/-- The names that the added lines declare, in their order. -/
def declaredNames (diff : String) : List (List Char) :=
  ((splitLines diff.toList).filter isAddedLine).filterMap (declaredName words)

/-- The name is what the first of the patterns with a match anywhere in the line finds there, at its
leftmost match. -/
def Declares (line name : List Char) : Prop :=
  ∃ earlier pattern later, definitionPatterns = earlier ++ pattern :: later ∧
    (∀ other ∈ earlier, ∀ n name', ¬ MatchesAt words.lexis other true line n name') ∧
    ∃ n, MatchesAt words.lexis pattern true line n name ∧
      ∀ m < n, ∀ name', ¬ MatchesAt words.lexis pattern true line m name'

end

variable {words : WordChars} {line name : List Char} {symbols : List (List Char)}

theorem definitionPatterns_words (words : WordChars) :
    ∀ pattern ∈ definitionPatterns, pattern.WordsOf words.lexis := by
  have hwords : (definitionPatterns.all fun pattern => pattern.keywords.all fun keyword =>
      !keyword.isEmpty && keyword.all fun c => !isBlank c) = true := by decide +kernel
  intro pattern hpattern keyword hkeyword
  have hkeywords := List.all_eq_true.mp (List.all_eq_true.mp hwords pattern hpattern) keyword hkeyword
  obtain ⟨hne, hblank⟩ := Bool.and_eq_true_iff.mp hkeywords
  refine ⟨fun hempty => ?_, fun c hc => ?_⟩
  · rw [hempty] at hne
    cases hne
  · exact Bool.not_eq_true' _ ▸ List.all_eq_true.mp hblank c hc

theorem declaredName_eq_some_iff : declaredName words line = some name ↔ Declares words line name := by
  rw [declaredName, List.findSome?_eq_some_iff]
  constructor
  · rintro ⟨earlier, pattern, later, hsplit, hfound, hnone⟩
    have hall := hsplit ▸ definitionPatterns_words words
    refine ⟨earlier, pattern, later, hsplit, fun other hother => ?_, ?_⟩
    · exact (KeywordSearch.search_eq_none_iff (hall other (List.mem_append_left _ hother))).mp
        (hnone other hother)
    · exact (KeywordSearch.search_eq_some_iff (hall pattern (by simp))).mp hfound
  · rintro ⟨earlier, pattern, later, hsplit, hnone, hfound⟩
    have hall := hsplit ▸ definitionPatterns_words words
    refine ⟨earlier, pattern, later, hsplit, ?_, fun other hother => ?_⟩
    · exact (KeywordSearch.search_eq_some_iff (hall pattern (by simp))).mpr hfound
    · exact (KeywordSearch.search_eq_none_iff (hall other (List.mem_append_left _ hother))).mpr
        (hnone other hother)

/-- A declared name is a name. -/
theorem isName_of_declaredName (h : declaredName words line = some name) :
    words.lexis.IsName name := by
  obtain ⟨earlier, pattern, later, -, -, n, ⟨-, hmatches⟩, -⟩ := declaredName_eq_some_iff.mp h
  obtain ⟨keyword, -, behind, -, hnames⟩ := hmatches
  exact hnames.isName

theorem foldl_addSymbol (lines : List (List Char)) :
    lines.foldl (addSymbol words) symbols = symbols ++
      ((lines.filterMap (declaredName words)).filter fun name => name ∉ symbols).eraseDups := by
  induction lines generalizing symbols with
  | nil => simp
  | cons line lines ih =>
    rw [List.foldl_cons, ih, addSymbol]
    cases hname : declaredName words line with
    | none => rw [List.filterMap_cons_none hname]
    | some name =>
      rw [List.filterMap_cons_some hname]
      by_cases hmem : name ∈ symbols
      · simp [hmem]
      · have hrest : ∀ names : List (List Char),
            (names.filter fun other => other ∉ symbols ++ [name]) =
              (names.filter fun other => other ∉ symbols).filter fun other => !other == name := by
          intro names
          rw [List.filter_filter]
          refine List.filter_congr fun other _ => ?_
          by_cases hsame : other = name <;> simp [hsame]
        simp only [hmem, if_false]
        rw [List.filter_cons_of_pos (by simpa using hmem), List.eraseDups_cons, hrest,
          List.append_assoc, List.singleton_append]

theorem addSymbol_eq (words : WordChars) (symbols : List (List Char)) (line : List Char) :
    ∃ added, addSymbol words symbols line = symbols ++ added ∧ added.length ≤ 1 := by
  unfold addSymbol
  split
  · split
    · exact ⟨[], (List.append_nil _).symm, Nat.zero_le _⟩
    · exact ⟨[_], rfl, le_rfl⟩
  · exact ⟨[], (List.append_nil _).symm, Nat.zero_le _⟩

/-- Stopping early loses nothing of the first twelve. -/
theorem querySymbols_eq {lines : List (List Char)} (hfew : symbols.length < maxQuerySymbols) :
    querySymbols words symbols lines =
      ((lines.filter isAddedLine).foldl (addSymbol words) symbols).take maxQuerySymbols := by
  induction lines generalizing symbols with
  | nil => exact (List.take_of_length_le hfew.le).symm
  | cons line lines ih =>
    rw [querySymbols]
    by_cases hadded : isAddedLine line = true
    · rw [if_pos hadded, List.filter_cons_of_pos hadded, List.foldl_cons]
      obtain ⟨added, hmore, hone⟩ := addSymbol_eq words symbols line
      have hlength := congrArg List.length hmore
      rw [List.length_append] at hlength
      show (if maxQuerySymbols ≤ (addSymbol words symbols line).length then _ else _) = _
      split
      · rename_i hmany
        rw [foldl_addSymbol, List.take_append_of_le_length hmany, List.take_of_length_le]
        omega
      · exact ih (by omega)
    · rw [if_neg hadded, List.filter_cons_of_neg hadded, ih hfew]

theorem symbols_eq (diff : String) : querySymbols words [] (splitLines diff.toList) =
    (declaredNames words diff).eraseDups.take maxQuerySymbols := by
  rw [querySymbols_eq (by decide), foldl_addSymbol]
  simp [declaredNames]

/-- The query is the first twelve distinct names that the added lines declare, and can be taken apart
into them again; only a diff that declares none is quoted itself, up to 500 characters. -/
theorem retrieval_query_names (words : WordChars) (diff : String) :
    (declaredNames words diff = [] → extractRetrievalQuery words diff =
      String.ofList (diff.toList.take fallbackQueryChars)) ∧
    (declaredNames words diff ≠ [] → (extractRetrievalQuery words diff).toList.splitOn ' ' =
      (declaredNames words diff).eraseDups.take maxQuerySymbols) ∧
    ∀ name, name ∈ declaredNames words diff ↔
      ∃ line ∈ splitLines diff.toList, isAddedLine line = true ∧ Declares words line name := by
  have hnames : ∀ name, name ∈ declaredNames words diff ↔
      ∃ line ∈ splitLines diff.toList, isAddedLine line = true ∧ Declares words line name := by
    intro name
    rw [declaredNames, List.mem_filterMap]
    simp only [List.mem_filter, and_assoc, declaredName_eq_some_iff]
  refine ⟨fun hnone => ?_, fun hsome => ?_, hnames⟩
  · simp only [extractRetrievalQuery, symbols_eq, hnone]
    rfl
  · obtain ⟨name, names, hcons⟩ := List.exists_cons_of_ne_nil hsome
    have hne : (declaredNames words diff).eraseDups.take maxQuerySymbols ≠ [] := by
      rw [hcons, List.eraseDups_cons]
      exact List.cons_ne_nil _ _
    have hspaces : ∀ symbol ∈ (declaredNames words diff).eraseDups.take maxQuerySymbols,
        ' ' ∉ symbol := by
      intro symbol hsymbol hspace
      have hmem := List.mem_eraseDups.mp (List.mem_of_mem_take hsymbol)
      obtain ⟨line, -, hline⟩ := List.mem_filterMap.mp hmem
      have hpart := (isName_of_declaredName hline).parts ' ' hspace
      have hno : ¬ isNamePart ' ' = true := by decide
      exact hno hpart
    simp only [extractRetrievalQuery, symbols_eq]
    rw [if_pos hne, List.take_take, Nat.min_self, String.toList_intercalate, List.map_map]
    have hback : (String.toList ∘ String.ofList) = (id : List Char → List Char) := by
      funext chars
      exact String.toList_ofList
    rw [hback, List.map_id]
    exact List.splitOn_intercalate _ hspaces hne

end ReviewAgent
