import Assertions.Proofs.Expansion
import Assertions.Proofs.Parts

/-!
# Spans and kept characters

`keptChars` lists the characters of a text that condensing keeps, each with its position in the
text. Without the positions they are the condensed text.

`expandSpan` passes over everything else, so it is a search among the kept characters
(`expandStart_eq`, `expandStop_eq`). A span of the condensed text is taken back to a tight span: it
starts where the first of its characters starts, it ends where the last one ends, and the kept
characters in it are those that the span marks (`isTight_expandSpan`).
-/

namespace Assertions

/-- The characters that condensing keeps of a text that starts at `at'`, inside a literal or not,
each with its position. -/
def keptFrom (quoted : Bool) (at' : Nat) : Text → List (Nat × Char)
  | [] => []
  | c :: rest =>
    if isKept quoted c then (at', c) :: keptFrom (quotedAfter quoted c) (at' + c.utf8Size) rest
    else keptFrom (quotedAfter quoted c) (at' + c.utf8Size) rest

/-- The characters that condensing keeps of a text, each with its position. -/
def keptChars (source : Text) : List (Nat × Char) := keptFrom false 0 source

theorem map_snd_keptFrom (quoted : Bool) (at' : Nat) (text : Text) :
    (keptFrom quoted at' text).map Prod.snd = condense.go quoted text := by
  induction text generalizing quoted at' with
  | nil => rfl
  | cons c rest ih =>
    simp only [keptFrom, condense.go]
    split
    · rw [List.map_cons, ih]
    · exact ih _ _

/-- Without their positions, the kept characters are the condensed text. -/
theorem map_snd_keptChars (source : Text) : (keptChars source).map Prod.snd = condense source :=
  map_snd_keptFrom false 0 source

/-- A kept character stands in the text at its position. -/
theorem exists_of_mem_keptFrom {quoted : Bool} {at' : Nat} {text : Text} {kept : Nat × Char}
    (h : kept ∈ keptFrom quoted at' text) :
    ∃ before after, text = before ++ kept.2 :: after ∧ kept.1 = at' + Text.size before := by
  induction text generalizing quoted at' with
  | nil => cases h
  | cons c rest ih =>
    have hrest : kept ∈ keptFrom (quotedAfter quoted c) (at' + c.utf8Size) rest →
        ∃ before after, c :: rest = before ++ kept.2 :: after ∧
          kept.1 = at' + Text.size before := by
      intro hmem
      obtain ⟨before, after, rfl, hat⟩ := ih hmem
      refine ⟨c :: before, after, rfl, ?_⟩
      rw [hat, Text.size_cons, Nat.add_assoc]
    rw [keptFrom] at h
    split at h
    · rcases List.mem_cons.1 h with rfl | hmem
      · exact ⟨[], rest, rfl, rfl⟩
      · exact hrest hmem
    · exact hrest h

/-- The kept characters are in the order of their positions, and apart from each other. -/
theorem pairwise_keptFrom (quoted : Bool) (at' : Nat) (text : Text) :
    (keptFrom quoted at' text).Pairwise fun a b => a.1 + a.2.utf8Size ≤ b.1 := by
  induction text generalizing quoted at' with
  | nil => exact .nil
  | cons c rest ih =>
    rw [keptFrom]
    split
    · refine .cons ?_ (ih _ _)
      intro kept hkept
      obtain ⟨before, after, -, hat⟩ := exists_of_mem_keptFrom hkept
      show at' + c.utf8Size ≤ kept.1
      omega
    · exact ih _ _

/-! ### The search for the ends of a span -/

/-- The position of the first of some kept characters that at least `target` bytes of kept ones
precede, or `stop`. -/
def startAmong (target stop kept : Nat) : List (Nat × Char) → Nat
  | [] => stop
  | (at', c) :: rest =>
    if target ≤ kept then at' else startAmong target stop (kept + c.utf8Size) rest

/-- The end of the first of some kept characters with which the kept ones make up at least `target`
bytes, or `stop`. -/
def stopAmong (target stop kept : Nat) : List (Nat × Char) → Nat
  | [] => stop
  | (at', c) :: rest =>
    if target ≤ kept + c.utf8Size then at' + c.utf8Size
    else stopAmong target stop (kept + c.utf8Size) rest

theorem expandStart_go_eq (target : Nat) (quoted : Bool) (at' kept : Nat) (text : Text) :
    expandStart.go target quoted at' kept text =
      startAmong target (at' + Text.size text) kept (keptFrom quoted at' text) := by
  induction text generalizing quoted at' kept with
  | nil => rfl
  | cons c rest ih =>
    rw [expandStart.go, keptFrom, Text.size_cons, ← Nat.add_assoc]
    by_cases hkept : isKept quoted c = true
    · simp only [hkept, Bool.not_true, Bool.false_eq_true, if_false, if_true, startAmong, ih]
    · simp only [hkept, Bool.not_false, if_true, Bool.false_eq_true, if_false, ih]

theorem expandStop_go_eq (target : Nat) (quoted : Bool) (at' kept : Nat) (text : Text) :
    expandStop.go target quoted at' kept text =
      stopAmong target (at' + Text.size text) kept (keptFrom quoted at' text) := by
  induction text generalizing quoted at' kept with
  | nil => rfl
  | cons c rest ih =>
    rw [expandStop.go, keptFrom, Text.size_cons, ← Nat.add_assoc]
    by_cases hkept : isKept quoted c = true
    · simp only [hkept, Bool.not_true, Bool.false_eq_true, if_false, if_true, stopAmong, ih]
    · simp only [hkept, Bool.not_false, if_true, Bool.false_eq_true, if_false, ih]

/-- The start of a span is searched among the kept characters. -/
theorem expandStart_eq (source : Text) (target : Nat) :
    expandStart source target = startAmong target (Text.size source) 0 (keptChars source) := by
  have h := expandStart_go_eq target false 0 0 source
  rwa [Nat.zero_add] at h

/-- The end of a span is searched among the kept characters. -/
theorem expandStop_eq (source : Text) (target : Nat) :
    expandStop source target = stopAmong target (Text.size source) 0 (keptChars source) := by
  have h := expandStop_go_eq target false 0 0 source
  rwa [Nat.zero_add] at h

/-- The bytes of the text that kept characters make up. -/
def keptSize (list : List (Nat × Char)) : Nat := Text.size (list.map Prod.snd)

@[simp] theorem keptSize_nil : keptSize [] = 0 := rfl

@[simp] theorem keptSize_cons (at' : Nat) (c : Char) (rest : List (Nat × Char)) :
    keptSize ((at', c) :: rest) = c.utf8Size + keptSize rest := rfl

@[simp] theorem keptSize_append (a b : List (Nat × Char)) :
    keptSize (a ++ b) = keptSize a + keptSize b := by
  rw [keptSize, List.map_append, Text.size_append]
  rfl

/-- After as many bytes as some kept characters make up, the search stops behind them. -/
theorem startAmong_append (stop kept : Nat) (front rest : List (Nat × Char)) :
    startAmong (kept + keptSize front) stop kept (front ++ rest) =
      (rest.head?.map Prod.fst).getD stop := by
  induction front generalizing kept with
  | nil =>
    cases rest with
    | nil => rfl
    | cons first others => simp [startAmong]
  | cons first others ih =>
    obtain ⟨at', c⟩ := first
    have hpos : 0 < c.utf8Size := c.utf8Size_pos
    have hmore : ¬kept + keptSize ((at', c) :: others) ≤ kept := by
      rw [keptSize_cons]
      omega
    rw [List.cons_append, startAmong, if_neg hmore, keptSize_cons, ← Nat.add_assoc, ih]

/-- With as many bytes as kept characters make up with the last of them, the search stops at the end
of that one. -/
theorem stopAmong_append (stop kept at' : Nat) (c : Char) (front rest : List (Nat × Char)) :
    stopAmong (kept + keptSize (front ++ [(at', c)])) stop kept (front ++ (at', c) :: rest) =
      at' + c.utf8Size := by
  induction front generalizing kept with
  | nil => simp [stopAmong]
  | cons first others ih =>
    obtain ⟨at'', d⟩ := first
    have hpos : 0 < c.utf8Size := c.utf8Size_pos
    have hmore : ¬kept + keptSize ((at'', d) :: others ++ [(at', c)]) ≤ kept + d.utf8Size := by
      simp only [List.cons_append, keptSize_cons, keptSize_append, keptSize_nil]
      omega
    show stopAmong _ stop kept ((at'', d) :: (others ++ (at', c) :: rest)) = at' + c.utf8Size
    rw [stopAmong, if_neg hmore, List.cons_append, keptSize_cons, ← Nat.add_assoc, ih]

/-- Whatever is looked for, the search stops where a kept character starts or at the end. -/
theorem startAmong_mem (target stop kept : Nat) (list : List (Nat × Char)) :
    startAmong target stop kept list = stop ∨
      ∃ found ∈ list, startAmong target stop kept list = found.1 := by
  induction list generalizing kept with
  | nil => exact .inl rfl
  | cons first others ih =>
    obtain ⟨at', c⟩ := first
    rw [startAmong]
    split
    · exact .inr ⟨(at', c), List.mem_cons_self, rfl⟩
    · rcases ih (kept + c.utf8Size) with hstop | ⟨found, hmem, hfound⟩
      · exact .inl hstop
      · exact .inr ⟨found, List.mem_cons_of_mem _ hmem, hfound⟩

theorem stopAmong_mem (target stop kept : Nat) (list : List (Nat × Char)) :
    stopAmong target stop kept list = stop ∨
      ∃ found ∈ list, stopAmong target stop kept list = found.1 + found.2.utf8Size := by
  induction list generalizing kept with
  | nil => exact .inl rfl
  | cons first others ih =>
    obtain ⟨at', c⟩ := first
    rw [stopAmong]
    split
    · exact .inr ⟨(at', c), List.mem_cons_self, rfl⟩
    · rcases ih (kept + c.utf8Size) with hstop | ⟨found, hmem, hfound⟩
      · exact .inl hstop
      · exact .inr ⟨found, List.mem_cons_of_mem _ hmem, hfound⟩

/-! ### Character boundaries -/

/-- A text can be cut before and after each of its kept characters. -/
theorem isBoundary_of_mem_keptChars {source : Text} {kept : Nat × Char}
    (h : kept ∈ keptChars source) :
    IsBoundary source kept.1 ∧ IsBoundary source (kept.1 + kept.2.utf8Size) := by
  obtain ⟨before, after, htext, hat⟩ := exists_of_mem_keptFrom h
  rw [Nat.zero_add] at hat
  refine ⟨⟨before, kept.2 :: after, htext, hat.symm⟩, before ++ [kept.2], after, ?_, ?_⟩
  · rw [htext, List.append_assoc, List.singleton_append]
  · rw [hat, Text.size_append]
    rfl

theorem isBoundary_expandStart (source : Text) (target : Nat) :
    IsBoundary source (expandStart source target) := by
  rw [expandStart_eq]
  rcases startAmong_mem target (Text.size source) 0 (keptChars source) with
    hstop | ⟨found, hmem, hfound⟩
  · rw [hstop]
    exact isBoundary_size source
  · rw [hfound]
    exact (isBoundary_of_mem_keptChars hmem).1

theorem isBoundary_expandStop (source : Text) (target : Nat) :
    IsBoundary source (expandStop source target) := by
  rw [expandStop_eq]
  rcases stopAmong_mem target (Text.size source) 0 (keptChars source) with
    hstop | ⟨found, hmem, hfound⟩
  · rw [hstop]
    exact isBoundary_size source
  · rw [hfound]
    exact (isBoundary_of_mem_keptChars hmem).2

/-- The span that any span is taken back to lies in the source, between two of its characters. -/
theorem isBoundary_expandSpan (source : Text) (span : Span) :
    (expandSpan source span).start ≤ (expandSpan source span).stop ∧
      IsBoundary source (expandSpan source span).start ∧
      IsBoundary source (expandSpan source span).stop := by
  have hstart := isBoundary_expandStart source span.start
  have hstop := isBoundary_expandStop source span.stop
  unfold expandSpan
  dsimp only
  split
  · exact ⟨Nat.le_refl _, hstart, hstart⟩
  · refine ⟨Nat.le_max_left _ _, hstart, ?_⟩
    rcases Nat.le_total (expandStart source span.start) (expandStop source span.stop) with hle | hle
    · rwa [Nat.max_eq_right hle]
    · rwa [Nat.max_eq_left hle]

/-! ### Tight spans -/

/-- A span of a source that holds a part of its condensed text, and nothing at its ends that
condensing drops. -/
structure Span.IsTight (span : Span) (source marked : Text) : Prop where
  start_lt_stop : span.start < span.stop
  spells : ((keptChars source).filter fun kept =>
    span.start ≤ kept.1 && kept.1 < span.stop).map Prod.snd = marked
  first_kept : ∃ c, (span.start, c) ∈ keptChars source
  last_kept : ∃ at' c, (at', c) ∈ keptChars source ∧ at' + c.utf8Size = span.stop

/-- The kept characters in front of, in and behind a part of a condensed text. -/
theorem exists_keptChars_of_condense_eq {source before marked after : Text}
    (h : condense source = before ++ marked ++ after) :
    ∃ front middle rest, keptChars source = front ++ middle ++ rest ∧
      front.map Prod.snd = before ∧ middle.map Prod.snd = marked ∧ rest.map Prod.snd = after := by
  rw [← map_snd_keptChars] at h
  obtain ⟨first, rest, hsplit, hfirst, hrest⟩ := List.map_eq_append_iff.1 h
  obtain ⟨front, middle, rfl, hfront, hmiddle⟩ := List.map_eq_append_iff.1 hfirst
  exact ⟨front, middle, rest, hsplit, hfront, hmiddle, hrest⟩

/-- Characters that follow each other lie between the start of the first and the end of the last. -/
theorem bounds_of_pairwise {list init : List (Nat × Char)} {first last : Nat × Char}
    (hpairwise : (first :: list).Pairwise fun a b => a.1 + a.2.utf8Size ≤ b.1)
    (hlast : first :: list = init ++ [last]) :
    ∀ kept ∈ first :: list, first.1 ≤ kept.1 ∧ kept.1 < last.1 + last.2.utf8Size := by
  intro kept hkept
  constructor
  · rcases List.mem_cons.1 hkept with rfl | hmem
    · exact Nat.le_refl _
    · have hle := (List.pairwise_cons.1 hpairwise).1 kept hmem
      omega
  · have hpos : 0 < last.2.utf8Size := last.2.utf8Size_pos
    rw [hlast] at hkept hpairwise
    rcases List.mem_append.1 hkept with hmem | hmem
    · have hle := (List.pairwise_append.1 hpairwise).2.2 kept hmem last (List.mem_singleton_self _)
      omega
    · cases List.mem_singleton.1 hmem
      omega

/-- The span of kept characters goes from the start of the first one to the end of the last. -/
theorem expandSpan_of_keptChars {source : Text} {front others init rest : List (Nat × Char)}
    {first last : Nat × Char} (hkept : keptChars source = front ++ first :: others ++ rest)
    (hlast : first :: others = init ++ [last]) :
    expandSpan source ⟨keptSize front, keptSize front + keptSize (first :: others)⟩ =
      ⟨first.1, last.1 + last.2.utf8Size⟩ := by
  obtain ⟨at', c⟩ := first
  have hpos : 0 < c.utf8Size := c.utf8Size_pos
  have hstart : expandStart source (keptSize front) = at' := by
    have hsearch := startAmong_append (Text.size source) 0 front ((at', c) :: others ++ rest)
    rw [Nat.zero_add] at hsearch
    rw [expandStart_eq, hkept, List.append_assoc, hsearch]
    rfl
  have hstop : expandStop source (keptSize front + keptSize ((at', c) :: others)) =
      last.1 + last.2.utf8Size := by
    have hsearch := stopAmong_append (Text.size source) 0 last.1 last.2 (front ++ init) rest
    rw [Nat.zero_add, List.append_assoc] at hsearch
    rw [expandStop_eq, hkept, hlast, ← keptSize_append, ← hsearch]
    congr 1
    simp
  have hempty : ¬keptSize front + keptSize ((at', c) :: others) ≤ keptSize front := by
    rw [keptSize_cons]
    omega
  have hle : at' ≤ last.1 + last.2.utf8Size := by
    have hpairwise := pairwise_keptFrom false 0 source
    rw [show keptFrom false 0 source = _ from hkept, List.append_assoc] at hpairwise
    have hmiddle := (List.pairwise_append.1 (List.pairwise_append.1 hpairwise).2.1).1
    exact Nat.le_of_lt (bounds_of_pairwise hmiddle hlast (at', c) List.mem_cons_self).2
  simp only [expandSpan, Span.isEmpty, hempty, hstart, hstop, decide_false, Bool.false_eq_true,
    if_false, Nat.max_eq_right hle]

/-- The kept characters between two positions, for those that start and end there. -/
theorem filter_keptChars {source : Text} {front middle rest : List (Nat × Char)} {start stop : Nat}
    (hkept : keptChars source = front ++ middle ++ rest)
    (hfront : ∀ kept ∈ front, kept.1 < start)
    (hmiddle : ∀ kept ∈ middle, start ≤ kept.1 ∧ kept.1 < stop)
    (hrest : ∀ kept ∈ rest, stop ≤ kept.1) :
    ((keptChars source).filter fun kept => start ≤ kept.1 && kept.1 < stop) = middle := by
  have hbefore : (front.filter fun kept => start ≤ kept.1 && kept.1 < stop) = [] := by
    refine List.filter_eq_nil_iff.2 fun kept hmem => ?_
    have hlt := hfront kept hmem
    simp only [Bool.and_eq_true, decide_eq_true_eq]
    omega
  have hall : (middle.filter fun kept => start ≤ kept.1 && kept.1 < stop) = middle := by
    refine List.filter_eq_self.2 fun kept hmem => ?_
    simpa only [Bool.and_eq_true, decide_eq_true_eq] using hmiddle kept hmem
  have hafter : (rest.filter fun kept => start ≤ kept.1 && kept.1 < stop) = [] := by
    refine List.filter_eq_nil_iff.2 fun kept hmem => ?_
    have hle := hrest kept hmem
    simp only [Bool.and_eq_true, decide_eq_true_eq]
    omega
  rw [hkept, List.filter_append, List.filter_append, hbefore, hall, hafter, List.nil_append,
    List.append_nil]

/-- A part of the condensed text that is not empty is taken back to a tight span. -/
theorem isTight_expandSpan {source before marked after : Text}
    (h : condense source = before ++ marked ++ after) (hne : marked ≠ []) :
    (expandSpan source ⟨Text.size before, Text.size before + Text.size marked⟩).IsTight source
      marked := by
  obtain ⟨front, middle, rest, hkept, rfl, rfl, rfl⟩ := exists_keptChars_of_condense_eq h
  obtain ⟨first, others, rfl⟩ := List.exists_cons_of_ne_nil (show middle ≠ [] by simpa using hne)
  obtain ⟨init, last, hlast⟩ : ∃ init last, first :: others = init ++ [last] :=
    ⟨_, _, (List.dropLast_concat_getLast (List.cons_ne_nil first others)).symm⟩
  have hpairwise := pairwise_keptFrom false 0 source
  rw [show keptFrom false 0 source = _ from hkept] at hpairwise
  obtain ⟨hfirst, -, hacross⟩ := List.pairwise_append.1 hpairwise
  obtain ⟨-, hmiddle, hbefore⟩ := List.pairwise_append.1 hfirst
  have hbounds := bounds_of_pairwise hmiddle hlast
  have hmem : ∀ kept ∈ first :: others, kept ∈ keptChars source := by
    intro kept hin
    rw [hkept]
    exact List.mem_append_left _ (List.mem_append_right _ hin)
  have hlastmem : last ∈ first :: others := by
    rw [hlast]
    exact List.mem_append_right _ (List.mem_singleton_self last)
  show (expandSpan source
    ⟨keptSize front, keptSize front + keptSize (first :: others)⟩).IsTight source _
  rw [expandSpan_of_keptChars hkept hlast]
  constructor
  · exact (hbounds first List.mem_cons_self).2
  · rw [filter_keptChars hkept ?_ hbounds ?_]
    · intro kept hin
      have hle := hbefore kept hin first List.mem_cons_self
      have hpos : 0 < kept.2.utf8Size := kept.2.utf8Size_pos
      omega
    · intro kept hin
      exact hacross last (List.mem_append_right _ hlastmem) kept hin
  · exact ⟨first.2, hmem first List.mem_cons_self⟩
  · exact ⟨last.1, last.2, hmem last hlastmem, rfl⟩

/-- An empty span is taken back to the kept character that its position is that of. -/
theorem expandSpan_empty {source : Text} {front rest : List (Nat × Char)}
    (h : keptChars source = front ++ rest) :
    expandSpan source ⟨keptSize front, keptSize front⟩ =
      ⟨(rest.head?.map Prod.fst).getD (Text.size source),
        (rest.head?.map Prod.fst).getD (Text.size source)⟩ := by
  have hsearch := startAmong_append (Text.size source) 0 front rest
  rw [Nat.zero_add] at hsearch
  have hempty : keptSize front ≤ keptSize front := Nat.le_refl _
  simp only [expandSpan, Span.isEmpty, hempty, decide_true, if_true, expandStart_eq, h, hsearch]

/-- Parts of the condensed text that do not overlap are taken back to spans that do not. -/
theorem expandSpan_stop_le_start {source before marked between next after : Text}
    (h : condense source = before ++ marked ++ between ++ next ++ after) (hmarked : marked ≠ [])
    (hnext : next ≠ []) :
    (expandSpan source ⟨Text.size before, Text.size before + Text.size marked⟩).stop ≤
      (expandSpan source ⟨Text.size (before ++ marked ++ between),
        Text.size (before ++ marked ++ between) + Text.size next⟩).start := by
  obtain ⟨most, middle', rest, hkept, hmost, rfl, rfl⟩ := exists_keptChars_of_condense_eq h
  obtain ⟨front, gap, rfl, hfront, rfl⟩ := List.map_eq_append_iff.1 hmost
  obtain ⟨front, middle, rfl, rfl, rfl⟩ := List.map_eq_append_iff.1 hfront
  obtain ⟨first, others, rfl⟩ :=
    List.exists_cons_of_ne_nil (show middle ≠ [] by simpa using hmarked)
  obtain ⟨first', others', rfl⟩ :=
    List.exists_cons_of_ne_nil (show middle' ≠ [] by simpa using hnext)
  obtain ⟨init, last, hlast⟩ : ∃ init last, first :: others = init ++ [last] :=
    ⟨_, _, (List.dropLast_concat_getLast (List.cons_ne_nil first others)).symm⟩
  obtain ⟨init', last', hlast'⟩ : ∃ init last, first' :: others' = init ++ [last] :=
    ⟨_, _, (List.dropLast_concat_getLast (List.cons_ne_nil first' others')).symm⟩
  have hpairwise := pairwise_keptFrom false 0 source
  rw [show keptFrom false 0 source = _ from hkept] at hpairwise
  have hacross := (List.pairwise_append.1 (List.pairwise_append.1 hpairwise).1).2.2
  have hlastmem : last ∈ front ++ first :: others ++ gap := by
    rw [hlast]
    simp
  have hkept' : keptChars source =
      front ++ (first :: others) ++ (gap ++ (first' :: others' ++ rest)) := by
    rw [hkept]
    simp
  have hfirst := expandSpan_of_keptChars hkept' hlast
  have hsecond := expandSpan_of_keptChars hkept hlast'
  rw [← List.map_append, ← List.map_append]
  show (expandSpan source ⟨keptSize front, keptSize front + keptSize (first :: others)⟩).stop ≤
    (expandSpan source ⟨keptSize (front ++ first :: others ++ gap),
      keptSize (front ++ first :: others ++ gap) + keptSize (first' :: others')⟩).start
  rw [hfirst, hsecond]
  exact hacross last hlastmem first' List.mem_cons_self

/-- A span that is not empty marks a part that is not. -/
theorem Span.exists_of_text? {span : Span} {source marked : Text}
    (h : span.text? source = some marked) (hlt : span.start < span.stop) :
    ∃ before after, source = before ++ marked ++ after ∧ marked ≠ [] ∧
      span = ⟨Text.size before, Text.size before + Text.size marked⟩ := by
  obtain ⟨start, stop⟩ := span
  obtain ⟨before, after, htext, rfl, hstop⟩ := Text.exists_of_slice? h
  obtain rfl : stop = Text.size before + Text.size marked := hstop
  refine ⟨before, after, htext, ?_, rfl⟩
  rintro rfl
  exact absurd hlt (Nat.lt_irrefl _)

/-- **Spans taken back exactly.** The span that marks a part of the condensed text is taken back to a
tight span of that part. An empty span goes to the start of the kept character at its position, and
to the end of the source behind the last one. Every span at all goes to one in the source, between
two of its characters, and parts that do not overlap go to spans that do not. -/
theorem expandSpan_exact (source : Text) :
    (∀ span marked, span.text? (condense source) = some marked → span.start < span.stop →
      (expandSpan source span).IsTight source marked) ∧
    (∀ front at' c rest, keptChars source = front ++ (at', c) :: rest →
      expandSpan source ⟨keptSize front, keptSize front⟩ = ⟨at', at'⟩) ∧
    expandSpan source ⟨Text.size (condense source), Text.size (condense source)⟩ =
      ⟨Text.size source, Text.size source⟩ ∧
    (∀ span, (expandSpan source span).start ≤ (expandSpan source span).stop ∧
      (expandSpan source span).stop ≤ Text.size source ∧
      IsBoundary source (expandSpan source span).start ∧
      IsBoundary source (expandSpan source span).stop) ∧
    (∀ a b marked next, a.text? (condense source) = some marked → a.start < a.stop →
      b.text? (condense source) = some next → b.start < b.stop → a.stop ≤ b.start →
      (expandSpan source a).stop ≤ (expandSpan source b).start) := by
  refine ⟨?_, ?_, ?_, ?_, ?_⟩
  · intro span marked hmarked hlt
    obtain ⟨before, after, htext, hne, rfl⟩ := Span.exists_of_text? hmarked hlt
    exact isTight_expandSpan htext hne
  · intro front at' c rest hkept
    exact expandSpan_empty hkept
  · rw [← map_snd_keptChars]
    exact expandSpan_empty (List.append_nil _).symm
  · intro span
    obtain ⟨hle, hstart, hstop⟩ := isBoundary_expandSpan source span
    exact ⟨hle, hstop.le_size, hstart, hstop⟩
  · intro a b marked next hmarked hlt hnext hlt' hle
    obtain ⟨before, after, htext, hmarked', rfl⟩ := Span.exists_of_text? hmarked hlt
    obtain ⟨before', after', htext', hnext', rfl⟩ := Span.exists_of_text? hnext hlt'
    -- What precedes the second part starts with the first part and all in front of that.
    obtain ⟨between, rfl⟩ : before ++ marked <+: before' := by
      refine Text.isPrefix_of_size_le (htext ▸ List.prefix_append _ _) ?_ ?_
      · rw [htext', List.append_assoc]
        exact List.prefix_append _ _
      · rw [Text.size_append]
        exact hle
    exact expandSpan_stop_le_start htext' hmarked' hnext'

/-- An argument behind a literal with a blank in it and a blank that is dropped. -/
theorem expandSpan_exact_argument :
    expandSpan ['f', '(', '\x27', 'a', ' ', 'b', '\x27', ',', ' ', 'x', ')'] ⟨8, 9⟩ =
      ⟨9, 10⟩ ∧
    (expandSpan ['f', '(', '\x27', 'a', ' ', 'b', '\x27', ',', ' ', 'x', ')'] ⟨8, 9⟩).IsTight
      ['f', '(', '\x27', 'a', ' ', 'b', '\x27', ',', ' ', 'x', ')'] ['x'] :=
  ⟨by decide, (expandSpan_exact _).1 ⟨8, 9⟩ ['x'] (by decide) (by decide)⟩

end Assertions
