import Assertions.Proofs.FoundPaths
import Assertions.Proofs.WordPositions

/-!
# Whole paths in templates

A path in a template reaches as far as it can: behind it there is neither a word character nor a dot
with a word character behind. So no path is found inside a longer one. And none is passed over: each
symbol of the model or the state that has a word character behind it starts a path, unless its word
starts with the name of a function. Such a word has one reference, to that function, and all other
text in it is plain.

The references that start in a word are those that reading the word gives (`referencesOf_eq`), so
what is known of the paths in a word without a name holds in the template. A blank or nothing stands
behind the word, and neither continues a path.
-/

namespace Assertions.Template

/-! ### References and their words -/

/-- The references that start in a word. -/
def referencesOf (word : PlacedWord) (found : List (Span × Reference)) : List (Span × Reference) :=
  found.filter fun placed => word.Covers placed.1.start

/-- Whether a word begins with one of the given names: it is the name alone, or no word character
follows the name. -/
def BeginsWithName (names : Text → Bool) (word : Text) : Prop :=
  ∃ name rest, word = name ++ rest ∧ names name = true ∧ EndsName rest

variable {names : Text → Bool}

/-- The names that a word can begin with are identifiers. -/
theorem beginsWithName_iff {word : Text} :
    BeginsWithName (fun name => isIdentifier name && names name) word ↔
      (isIdentifier (word.takeWhile isWordChar) && names (word.takeWhile isWordChar)) = true := by
  constructor
  · intro h
    obtain ⟨name, rest, rfl, hname, hrest⟩ := h
    obtain ⟨hidentifier, -⟩ := Bool.and_eq_true_iff.1 hname
    obtain ⟨htake, -⟩ :=
      takeWhile_dropWhile_append (fun _ => isWordChar_of_mem_name hidentifier) hrest
    rwa [htake]
  · intro h
    refine ⟨word.takeWhile isWordChar, word.dropWhile isWordChar, by simp, h, ?_⟩
    intro c rest heq
    have hhead := List.head?_dropWhile_not isWordChar word
    rw [heq] at hhead
    simpa using hhead

/-- A word that begins with a name has one reference, which is at its start. -/
theorem placedReferences_readWord {offset : Nat} {word : Text} {here : List Piece}
    (hword : BeginsWithName (fun name => isIdentifier name && names name) word)
    (h : readWord names offset word = .ok here) :
    ∃ span r, placedReferences offset here = [(span, r)] ∧ span.start = offset ∧
      (r.referent = .call ∨ ∃ name, r.referent = .statement name) := by
  rw [readWord, if_pos (beginsWithName_iff.1 hword)] at h
  split at h
  · cases h
    exact ⟨_, _, rfl, rfl, .inr ⟨_, rfl⟩⟩
  · split at h
    · split at h
      · cases h
      · cases h
        exact ⟨_, _, rfl, rfl, .inl rfl⟩
    · cases h
      exact ⟨_, _, rfl, rfl, .inr ⟨_, rfl⟩⟩

theorem readWord_eq_paths {word : Text}
    (hword : ¬BeginsWithName (fun name => isIdentifier name && names name) word) (offset : Nat) :
    readWord names offset word = .ok (paths word) := by
  rw [readWord, if_neg (mt beginsWithName_iff.2 hword)]

/-- A reference with a text has a span that is not empty. -/
theorem start_lt_stop {offset : Nat} {list : List Piece} {placed : Span × Reference}
    (hplaced : placed ∈ placedReferences offset list) (hne : placed.2.text ≠ []) :
    placed.1.start < placed.1.stop := by
  obtain ⟨start, hspan, -⟩ := standsAt_of_mem_placedReferences hplaced
  have hpos := Text.size_pos hne
  rw [hspan]
  show offset + start < offset + start + Text.size placed.2.text
  omega

/-- The references in a word of a template are those that reading the word gives. -/
theorem referencesOf_eq {template : Text} {found : List (Span × Reference)} {word : PlacedWord}
    (h : references names template = .ok found) (hword : word ∈ words template) :
    ∃ here, readWord names word.start word.text = .ok here ∧
      referencesOf word found = placedReferences word.start here := by
  obtain ⟨pieces, hread, rfl⟩ := exists_pieces_of_references h
  obtain ⟨front, back, hsegments, hstart⟩ := mem_placedWords.1 hword
  have hne : ∀ r, .reference r ∈ pieces → r.text ≠ [] :=
    fun r hr => (isSpelled_of_mem_readSegments hread hr).text_ne_nil
  rw [read, hsegments] at hread
  obtain ⟨a, others, ha, hothers, rfl⟩ := readSegments_append_eq_ok.1 hread
  obtain ⟨here, b, hhere, -, rfl⟩ := readSegments_cons_eq_ok.1 hothers
  rw [← hstart] at hhere
  have htext : here.flatMap Piece.text = word.text := text_readWord hhere
  have hfront : referencesOf word (placedReferences 0 a) = [] := by
    apply List.filter_eq_nil_iff.2
    intro placed hplaced hcovers
    obtain ⟨hfrom, -⟩ := of_decide_eq_true hcovers
    have hlt := start_lt_stop hplaced (hne _ (by simp [mem_of_mem_placedReferences hplaced]))
    obtain ⟨-, hstop⟩ := placedReferences_bounds hplaced
    rw [text_readSegments ha, ← hstart] at hstop
    omega
  have hhere' : referencesOf word (placedReferences word.start here) =
      placedReferences word.start here := by
    apply List.filter_eq_self.2
    intro placed hplaced
    have hlt := start_lt_stop hplaced (hne _ (by simp [mem_of_mem_placedReferences hplaced]))
    obtain ⟨hfrom, hstop⟩ := placedReferences_bounds hplaced
    rw [htext] at hstop
    exact decide_eq_true ⟨hfrom, by omega⟩
  have hback : referencesOf word (placedReferences (word.start + Text.size word.text) b) = [] := by
    apply List.filter_eq_nil_iff.2
    intro placed hplaced hcovers
    obtain ⟨-, hbefore⟩ := of_decide_eq_true hcovers
    obtain ⟨hfrom, -⟩ := placedReferences_bounds hplaced
    omega
  refine ⟨here, hhere, ?_⟩
  rw [referencesOf] at hfront hhere' hback ⊢
  rw [placedReferences_append, placedReferences_append, text_readSegments ha, ← hstart, htext,
    List.filter_append, List.filter_append, hfront, hhere', hback, List.nil_append, List.append_nil]

/-- A reference is found in reading a word. -/
theorem exists_word_of_mem {list : List Segment} {placed : Span × Reference} :
    ∀ {offset : Nat} {pieces : List Piece}, readSegments names offset list = .ok pieces →
      placed ∈ placedReferences offset pieces →
      ∃ front word back here, list = front ++ .word word :: back ∧
        readWord names (offset + Text.size (front.flatMap Segment.text)) word = .ok here ∧
        placed ∈ placedReferences (offset + Text.size (front.flatMap Segment.text)) here := by
  induction list with
  | nil =>
    intro offset pieces h hplaced
    cases h
    cases hplaced
  | cons segment others ih =>
    intro offset pieces h hplaced
    obtain ⟨here, more, hhere, hmore, rfl⟩ := readSegments_cons_eq_ok.1 h
    have htext : here.flatMap Piece.text = segment.text := by
      cases segment with
      | gap c =>
        cases hhere
        rfl
      | word text => exact text_readWord hhere
    rw [placedReferences_append, htext] at hplaced
    rcases List.mem_append.1 hplaced with hmem | hmem
    · cases segment with
      | gap c =>
        cases hhere
        cases hmem
      | word text => exact ⟨[], text, others, here, rfl, hhere, hmem⟩
    · obtain ⟨front, word, back, here', rfl, hword, hmem'⟩ := ih hmore hmem
      refine ⟨segment :: front, word, back, here', rfl, ?_⟩
      rw [List.flatMap_cons, Text.size_append, ← Nat.add_assoc]
      exact ⟨hword, hmem'⟩

/-! ### Templates -/

/-- Whether a reference of a template is a path that reaches as far as it can, so that no path from
the same position is longer. -/
structure IsWholePath (template : Text) (placed : Span × Reference) (side : Side) (path : Path) :
    Prop where
  reference_eq : placed.2 = ⟨.path side path, side.symbol :: path.toText⟩
  isProper : path.IsProper
  stands : ∃ before after, template = before ++ placed.2.text ++ after ∧
    placed.1 = ⟨Text.size before, Text.size before + Text.size placed.2.text⟩ ∧
    ¬ContinuesPath after ∧
    ∀ other : Path, other.IsProper → side.symbol :: other.toText <+: placed.2.text ++ after →
      side.symbol :: other.toText <+: placed.2.text

/-- No path is longer than one that is not continued. -/
theorem isPrefix_of_not_continuesPath {symbol : Char} {path after : Text} {other : Path}
    (h : ¬ContinuesPath after) (hother : other.IsProper)
    (hstarts : symbol :: other.toText <+: symbol :: path ++ after) :
    symbol :: other.toText <+: symbol :: path := by
  obtain ⟨rest, hrest⟩ := hstarts
  have hjoin : other.toText ++ rest = path ++ after := (List.cons.inj hrest).2
  rcases List.append_eq_append_iff.1 hjoin with ⟨x, hx, -⟩ | ⟨x, hx, rfl⟩
  · exact ⟨x, by rw [hx]; rfl⟩
  · by_cases hnil : x = []
    · rw [hnil, List.append_nil] at hx
      exact ⟨[], by rw [hx, List.append_nil]⟩
    · exact absurd ((continuesPath_of_joinDots hother.word hx hnil).append rest) h

theorem isWholePath_of_mem {template : Text} {found : List (Span × Reference)}
    {placed : Span × Reference} {side : Side} {path : Path}
    (h : references names template = .ok found) (hplaced : placed ∈ found)
    (hreferent : placed.2.referent = .path side path) : IsWholePath template placed side path := by
  obtain ⟨pieces, hread, rfl⟩ := exists_pieces_of_references h
  obtain ⟨front, word, back, here, hsegments, hword, hmem⟩ := exists_word_of_mem hread hplaced
  have hunnamed : ¬BeginsWithName (fun name => isIdentifier name && names name) word := by
    intro hname
    obtain ⟨span, r, hhere, -, hfunction⟩ := placedReferences_readWord hname hword
    rw [hhere] at hmem
    cases List.mem_singleton.1 hmem
    rw [hreferent] at hfunction
    rcases hfunction with heq | ⟨name, heq⟩ <;> cases heq
  cases (readWord_eq_paths hunnamed _).symm.trans hword
  obtain ⟨side', path', before, after, hr, hproper, htext, hspan, hafter⟩ :=
    exists_of_mem_paths hmem
  rw [hr] at hreferent
  cases hreferent
  have hcontinues := not_continuesPath_append hafter (isBlank_after_word hsegments)
  refine ⟨hr, hproper, front.flatMap Segment.text ++ before, after ++ back.flatMap Segment.text,
    ?_, ?_, hcontinues, ?_⟩
  · rw [← text_segments [] template, hsegments, List.flatMap_append, List.flatMap_cons,
      Segment.text, htext]
    simp only [List.append_assoc]
  · rw [hspan, Nat.zero_add, Text.size_append]
  · intro other hother
    rw [hr]
    exact isPrefix_of_not_continuesPath hcontinues hother

/-- **Whole paths.** Each path that is found in a template reaches as far as it can. Each symbol of
the model or the state with a word character behind it is in a word, and if the word does not begin
with the name of a function a path is found that starts with the symbol. In a word that begins with
such a name a single reference is found, which is to a function. -/
theorem references_whole {template : Text} {found : List (Span × Reference)}
    (h : references names template = .ok found) :
    (∀ placed ∈ found, ∀ side path, placed.2.referent = .path side path →
        IsWholePath template placed side path) ∧
      (∀ before side after, template = before ++ side.symbol :: after →
        after.head?.any isWordChar = true →
        (∃ word ∈ words template, word.Covers (Text.size before)) ∧
          ∀ word ∈ words template, word.Covers (Text.size before) →
            ¬BeginsWithName (fun name => isIdentifier name && names name) word.text →
            ∃ placed ∈ found, ∃ path, IsWholePath template placed side path ∧
              placed.1.start = Text.size before) ∧
      ∀ word ∈ words template,
        BeginsWithName (fun name => isIdentifier name && names name) word.text →
        ∃ placed, referencesOf word found = [placed] ∧ placed.1.start = word.start ∧
          (placed.2.referent = .call ∨ ∃ name, placed.2.referent = .statement name) := by
  refine ⟨?_, ?_, ?_⟩
  · intro placed hplaced side path hreferent
    exact isWholePath_of_mem h hplaced hreferent
  · intro before side after htemplate hafter
    refine ⟨exists_covers htemplate (by cases side <;> decide), ?_⟩
    intro word hword hcovers hunnamed
    obtain ⟨front, back, x, y, hsegments, hstart, hx, rfl, rfl⟩ :=
      exists_of_covers htemplate hword hcovers
    obtain ⟨here, hhere, hfound⟩ := referencesOf_eq h hword
    cases (readWord_eq_paths hunnamed _).symm.trans hhere
    have hy : y.head?.any isWordChar = true := by
      cases y with
      | cons c y => exact hafter
      | nil =>
        obtain ⟨c, hc, hchar⟩ := (Option.any_eq_true _ _).1 hafter
        have hblank := isBlank_after_word hsegments c hc
        rw [(isMark_of_isWordChar hchar).not_isBlank] at hblank
        cases hblank
    obtain ⟨path, text, hmem⟩ := exists_mem_paths hy word.start hx
    rw [← hfound] at hmem
    have hplaced := (List.mem_filter.1 hmem).1
    refine ⟨_, hplaced, path, isWholePath_of_mem h hplaced rfl, ?_⟩
    rw [Text.size_append, hstart]
  · intro word hword hname
    obtain ⟨here, hhere, hfound⟩ := referencesOf_eq h hword
    obtain ⟨span, r, hsingle, hstart, hfunction⟩ := placedReferences_readWord hname hhere
    exact ⟨(span, r), hfound.trans hsingle, hstart, hfunction⟩

/-- A word with a path that is glued to the name of a function, and one with two paths. -/
theorem references_whole_glued :
    ∃ found, references (fun name => name == ['f']) ['f', '$', 'a', ' ', '#', 'b', '.', '$', 'c'] =
        .ok found ∧
      found.map Prod.fst = [⟨0, 1⟩, ⟨4, 6⟩, ⟨7, 9⟩] ∧
      (∃ placed ∈ found, ∃ path,
        IsWholePath ['f', '$', 'a', ' ', '#', 'b', '.', '$', 'c'] placed .model path ∧
          placed.1.start = 7) ∧
      ∃ placed, referencesOf ⟨0, ['f', '$', 'a']⟩ found = [placed] ∧
        (placed.2.referent = .call ∨ ∃ name, placed.2.referent = .statement name) := by
  have hwords : words ['f', '$', 'a', ' ', '#', 'b', '.', '$', 'c'] =
      [⟨0, ['f', '$', 'a']⟩, ⟨4, ['#', 'b', '.', '$', 'c']⟩] := rfl
  have hunnamed : ¬BeginsWithName (fun name => isIdentifier name && name == ['f'])
      ['#', 'b', '.', '$', 'c'] := fun h => Bool.false_ne_true (beginsWithName_iff.1 h)
  have hpaths : paths ['#', 'b', '.', '$', 'c'] = [.reference ⟨.path .state ⟨[['b']]⟩, ['#', 'b']⟩,
      .plain ['.'], .reference ⟨.path .model ⟨[['c']]⟩, ['$', 'c']⟩] := by
    rw [paths_cons_of_symbol rfl rfl]
    show _ :: paths ['.', '$', 'c'] = _
    rw [paths_cons_of_other rfl, paths_cons_of_symbol rfl rfl]
    show _ :: _ :: _ :: paths [] = _
    rw [paths_nil]
    rfl
  have hread : read (fun name => name == ['f']) ['f', '$', 'a', ' ', '#', 'b', '.', '$', 'c'] =
      .ok [.reference ⟨.statement ['f'], ['f']⟩, .plain ['$', 'a'], .plain [' '],
        .reference ⟨.path .state ⟨[['b']]⟩, ['#', 'b']⟩, .plain ['.'],
        .reference ⟨.path .model ⟨[['c']]⟩, ['$', 'c']⟩] := by
    refine readSegments_cons_eq_ok.2 ⟨_, _, rfl, readSegments_cons_eq_ok.2 ⟨_, _, rfl,
      readSegments_cons_eq_ok.2 ⟨_, _, readWord_eq_paths hunnamed 4, rfl, rfl⟩, rfl⟩, ?_⟩
    rw [hpaths]
    rfl
  have hfound : references (fun name => name == ['f'])
      ['f', '$', 'a', ' ', '#', 'b', '.', '$', 'c'] =
        .ok [(⟨0, 1⟩, ⟨.statement ['f'], ['f']⟩), (⟨4, 6⟩, ⟨.path .state ⟨[['b']]⟩, ['#', 'b']⟩),
          (⟨7, 9⟩, ⟨.path .model ⟨[['c']]⟩, ['$', 'c']⟩)] := by
    rw [references, hread]
    rfl
  obtain ⟨-, hcomplete, hnamed⟩ := references_whole hfound
  obtain ⟨-, hpath⟩ := hcomplete ['f', '$', 'a', ' ', '#', 'b', '.'] .model ['c'] rfl rfl
  obtain ⟨placed, hsingle, -, hfunction⟩ := hnamed ⟨0, ['f', '$', 'a']⟩ (by simp [hwords])
    (beginsWithName_iff.2 rfl)
  have hlast := hpath ⟨4, ['#', 'b', '.', '$', 'c']⟩ (by simp [hwords]) (by decide) hunnamed
  exact ⟨_, hfound, rfl, hlast, placed, hsingle, hfunction⟩

/-- A registered name that is no identifier is not looked for: the path behind it is found. -/
theorem path_found_behind_digit :
    ∃ found, references (fun name => name == ['1']) ['1', '$', 'a'] = .ok found ∧
      ∃ word ∈ words ['1', '$', 'a'], BeginsWithName (fun name => name == ['1']) word.text ∧
        ¬∃ placed, referencesOf word found = [placed] ∧
          (placed.2.referent = .call ∨ ∃ name, placed.2.referent = .statement name) := by
  have hunnamed : ¬BeginsWithName (fun name => isIdentifier name && name == ['1'])
      ['1', '$', 'a'] := fun h => Bool.false_ne_true (beginsWithName_iff.1 h)
  have hpaths : paths ['1', '$', 'a'] =
      [.plain ['1'], .reference ⟨.path .model ⟨[['a']]⟩, ['$', 'a']⟩] := by
    rw [paths_cons_of_other rfl, paths_cons_of_symbol rfl rfl]
    show _ :: _ :: paths [] = _
    rw [paths_nil]
    rfl
  have hread : read (fun name => name == ['1']) ['1', '$', 'a'] =
      .ok [.plain ['1'], .reference ⟨.path .model ⟨[['a']]⟩, ['$', 'a']⟩] := by
    refine readSegments_cons_eq_ok.2 ⟨_, _, readWord_eq_paths hunnamed 0, rfl, ?_⟩
    rw [hpaths]
    rfl
  have hfound : references (fun name => name == ['1']) ['1', '$', 'a'] =
      .ok [(⟨1, 3⟩, ⟨.path .model ⟨[['a']]⟩, ['$', 'a']⟩)] := by
    rw [references, hread]
    rfl
  have hends : EndsName ['$', 'a'] := by
    intro c rest heq
    cases heq
    decide
  refine ⟨_, hfound, ⟨0, ['1', '$', 'a']⟩, List.mem_cons_self, ⟨['1'], ['$', 'a'], rfl, rfl, hends⟩,
    ?_⟩
  intro h
  obtain ⟨placed, hsingle, hfunction⟩ := h
  cases hsingle
  rcases hfunction with heq | ⟨name, heq⟩ <;> cases heq

end Assertions.Template
