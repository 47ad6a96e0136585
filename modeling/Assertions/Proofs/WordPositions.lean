import Assertions.Proofs.MessageFaults

/-!
# Positions of words

`words` gives the words of a template with the positions at which they start. A template is made up
of its words and of the blanks between them. So each character that is no blank belongs to a word
(`exists_covers`), and behind a word there is a blank or nothing (`isBlank_after_word`).
-/

namespace Assertions.Template

/-- A word of a template and the position at which it starts. -/
structure PlacedWord where
  start : Nat
  text : Text

/-- Whether a position is one of a word. -/
def PlacedWord.Covers (word : PlacedWord) (position : Nat) : Prop :=
  word.start ≤ position ∧ position < word.start + Text.size word.text

instance (word : PlacedWord) (position : Nat) : Decidable (word.Covers position) :=
  inferInstanceAs (Decidable (_ ∧ _))

/-- The words among segments at position `offset`. -/
def placedWords (offset : Nat) : List Segment → List PlacedWord
  | [] => []
  | .gap c :: others => placedWords (offset + Text.size [c]) others
  | .word text :: others => ⟨offset, text⟩ :: placedWords (offset + Text.size text) others

/-- The words of a template, each with its position. -/
def words (template : Text) : List PlacedWord := placedWords 0 (segments [] template)

theorem mem_placedWords {list : List Segment} {word : PlacedWord} :
    ∀ {offset : Nat}, word ∈ placedWords offset list ↔
      ∃ front back, list = front ++ .word word.text :: back ∧
        word.start = offset + Text.size (front.flatMap Segment.text) := by
  induction list with
  | nil => simp [placedWords]
  | cons segment others ih =>
    intro offset
    -- A word stands at the front or among the other segments, whatever the first segment is.
    have hlater : word ∈ placedWords (offset + Text.size segment.text) others ↔
        ∃ front back, others = front ++ .word word.text :: back ∧ word.start =
          offset + Text.size ((segment :: front).flatMap Segment.text) := by
      simp only [ih, List.flatMap_cons, Text.size_append, Nat.add_assoc]
    have hsplit : (∃ front back, segment :: others = front ++ .word word.text :: back ∧
          word.start = offset + Text.size (front.flatMap Segment.text)) ↔
        (segment = .word word.text ∧ word.start = offset) ∨
          word ∈ placedWords (offset + Text.size segment.text) others := by
      rw [hlater]
      constructor
      · intro h
        obtain ⟨front, back, heq, hstart⟩ := h
        cases front with
        | nil =>
          obtain ⟨rfl, -⟩ := List.cons.inj heq
          exact .inl ⟨rfl, hstart⟩
        | cons first front =>
          obtain ⟨rfl, hothers⟩ := List.cons.inj heq
          exact .inr ⟨front, back, hothers, hstart⟩
      · intro h
        rcases h with ⟨rfl, hstart⟩ | ⟨front, back, hothers, hstart⟩
        · exact ⟨[], others, rfl, hstart⟩
        · exact ⟨segment :: front, back, by rw [hothers]; rfl, hstart⟩
    rw [hsplit]
    cases segment with
    | gap c => simp [placedWords, Segment.text]
    | word text =>
      simp only [placedWords, List.mem_cons, Segment.text, Segment.word.injEq]
      refine or_congr_left ?_
      constructor
      · intro h
        rw [h]
        exact ⟨rfl, rfl⟩
      · intro h
        rw [h.1, ← h.2]

/-- Gaps are blanks. -/
theorem isBlank_of_gap_mem {text : Text} {c : Char} :
    ∀ {before : Text}, .gap c ∈ segments before text → Text.isBlank c = true := by
  induction text with
  | nil =>
    intro before h
    cases h
  | cons d rest ih =>
    intro before h
    rw [segments] at h
    split at h
    · rename_i hgap
      simp only [isGap, Bool.and_eq_true] at hgap
      rcases List.mem_cons.1 h with heq | hmem
      · cases heq
        exact hgap.1
      · exact ih hmem
    · apply ih
      unfold joinWord at h
      split at h
      · rename_i word others hword
        rw [hword]
        rcases List.mem_cons.1 h with heq | hmem
        · cases heq
        · exact List.mem_cons_of_mem _ hmem
      · rcases List.mem_cons.1 h with heq | hmem
        · cases heq
        · exact hmem

/-- A word is followed by the end of the text or by a gap. -/
theorem exists_gap_of_word {text : Text} :
    ∀ {before : Text} {front rest : List Segment} {word : Text},
      segments before text = front ++ .word word :: rest →
      rest = [] ∨ ∃ c others, rest = .gap c :: others := by
  induction text with
  | nil =>
    intro before front rest word h
    cases front <;> cases h
  | cons d tail ih =>
    intro before front rest word h
    rw [segments] at h
    split at h
    · cases front with
      | nil => cases h
      | cons segment front => exact ih (List.cons.inj h).2
    · rcases exists_of_joinWord h with rfl | ⟨others, -, htail, -⟩
      · unfold joinWord at h
        split at h
        · rename_i text others hword
          obtain ⟨-, rfl⟩ := List.cons.inj h
          have htail : segments (d :: before) tail = [] ++ .word text :: others := hword
          exact ih htail
        · rename_i hword
          obtain ⟨-, hrest⟩ := List.cons.inj h
          rw [← hrest]
          generalize segments (d :: before) tail = list at hword
          rcases list with - | ⟨c | text, others⟩
          · exact .inl rfl
          · exact .inr ⟨c, others, rfl⟩
          · exact absurd rfl (hword text others)
      · exact ih htail

/-- What stands behind a word starts with a blank. -/
theorem isBlank_after_word {before text word : Text} {front back : List Segment}
    (h : segments before text = front ++ .word word :: back) :
    ∀ c ∈ (back.flatMap Segment.text).head?, Text.isBlank c = true := by
  intro c hc
  rcases exists_gap_of_word h with rfl | ⟨d, others, rfl⟩
  · cases hc
  · cases hc
    exact isBlank_of_gap_mem (by rw [h]; simp)

/-- A character that is no blank is one of a word. -/
theorem exists_word_of_char {list : List Segment} {c : Char} {after : Text}
    (hgap : ∀ d, .gap d ∈ list → Text.isBlank d = true) (hc : Text.isBlank c = false) :
    ∀ {before : Text}, list.flatMap Segment.text = before ++ c :: after →
      ∃ front back x y, list = front ++ .word (x ++ c :: y) :: back ∧
        before = front.flatMap Segment.text ++ x := by
  induction list with
  | nil =>
    intro before h
    simp at h
  | cons segment others ih =>
    intro before h
    rw [List.flatMap_cons] at h
    rcases List.append_eq_append_iff.1 h with ⟨x, rfl, hx⟩ | ⟨x, hx, hlater⟩
    · obtain ⟨front, back, y, z, rfl, rfl⟩ :=
        ih (fun d hd => hgap d (List.mem_cons_of_mem _ hd)) hx
      exact ⟨segment :: front, back, y, z, rfl, by simp⟩
    · cases x with
      | nil =>
        rw [List.append_nil] at hx
        have hothers : others.flatMap Segment.text = [] ++ c :: after := hlater.symm
        obtain ⟨front, back, y, z, rfl, hy⟩ :=
          ih (fun d hd => hgap d (List.mem_cons_of_mem _ hd)) hothers
        exact ⟨segment :: front, back, y, z, rfl, by
          rw [List.flatMap_cons, List.append_assoc, ← hy, List.append_nil, hx]⟩
      | cons d x =>
        obtain ⟨rfl, -⟩ := List.cons.inj hlater
        cases segment with
        | gap e =>
          have he : [e] = before ++ c :: x := hx
          rcases List.append_eq_singleton_iff.1 he.symm with ⟨-, heq⟩ | ⟨-, heq⟩
          · obtain ⟨rfl, -⟩ := List.cons.inj heq
            rw [hgap c List.mem_cons_self] at hc
            cases hc
          · cases heq
        | word text =>
          have htext : text = before ++ c :: x := hx
          exact ⟨[], others, before, x, by rw [htext]; rfl, rfl⟩

/-- A position of a word is one of its characters. -/
theorem exists_of_covers {template before after : Text} {c : Char} {word : PlacedWord}
    (htemplate : template = before ++ c :: after) (hword : word ∈ words template)
    (hcovers : word.Covers (Text.size before)) :
    ∃ front back x y, segments [] template = front ++ .word word.text :: back ∧
      word.start = Text.size (front.flatMap Segment.text) ∧ word.text = x ++ c :: y ∧
      before = front.flatMap Segment.text ++ x ∧ after = y ++ back.flatMap Segment.text := by
  obtain ⟨front, back, hsegments, hstart⟩ := mem_placedWords.1 hword
  rw [Nat.zero_add] at hstart
  obtain ⟨hfrom, hto⟩ := hcovers
  have htext : front.flatMap Segment.text ++ (word.text ++ back.flatMap Segment.text) =
      before ++ c :: after := by
    rw [← htemplate, ← text_segments [] template, hsegments, List.flatMap_append, List.flatMap_cons,
      Segment.text]
  obtain ⟨x, rfl, hrest⟩ : ∃ x, before = front.flatMap Segment.text ++ x ∧
      word.text ++ back.flatMap Segment.text = x ++ c :: after := by
    rcases List.append_eq_append_iff.1 htext with ⟨x, hx, hrest⟩ | ⟨x, hx, hrest⟩
    · exact ⟨x, hx, hrest⟩
    · -- Nothing is left of the text in front of the word behind the position.
      have hnil : x = [] := by
        by_cases hne : x = []
        · exact hne
        · have hpos := Text.size_pos hne
          rw [hx, Text.size_append] at hstart
          omega
      rw [hnil, List.append_nil] at hx
      rw [hnil, List.nil_append] at hrest
      exact ⟨[], by rw [hx, List.append_nil], hrest.symm⟩
  rw [Text.size_append, hstart] at hto
  rcases List.append_eq_append_iff.1 hrest with ⟨y, hy, -⟩ | ⟨y, hy, hafter⟩
  · rw [hy, Text.size_append] at hto
    omega
  · cases y with
    | nil =>
      rw [hy, List.append_nil] at hto
      omega
    | cons d y =>
      obtain ⟨rfl, hbehind⟩ := List.cons.inj hafter
      exact ⟨front, back, x, y, hsegments, hstart, hy, rfl, hbehind⟩

/-- Each position of a template that holds no blank is one of a word. -/
theorem exists_covers {template before after : Text} {c : Char}
    (htemplate : template = before ++ c :: after) (hc : Text.isBlank c = false) :
    ∃ word ∈ words template, word.Covers (Text.size before) := by
  have hgap : ∀ d, .gap d ∈ segments [] template → Text.isBlank d = true :=
    fun d hd => isBlank_of_gap_mem hd
  obtain ⟨front, back, x, y, hsegments, rfl⟩ :=
    exists_word_of_char hgap hc ((text_segments [] template).trans htemplate)
  refine ⟨⟨Text.size (front.flatMap Segment.text), x ++ c :: y⟩,
    mem_placedWords.2 ⟨front, back, hsegments, (Nat.zero_add _).symm⟩, ?_⟩
  have hpos := Text.size_pos (List.cons_ne_nil c y)
  show Text.size (front.flatMap Segment.text) ≤ Text.size (front.flatMap Segment.text ++ x) ∧
    Text.size (front.flatMap Segment.text ++ x) <
      Text.size (front.flatMap Segment.text) + Text.size (x ++ c :: y)
  rw [Text.size_append, Text.size_append]
  omega

end Assertions.Template
