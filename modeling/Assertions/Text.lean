/-!
# Text and positions in it

A text is a list of characters. A position is the number of bytes that the UTF-8 form of the
characters before it takes, so a character outside ASCII moves the position by more than one and
some positions fall inside a character.

* `size`: the length of a text in bytes;
* `dropBytes?`, `slice?`: the rest of a text from a position, and the text between two positions,
  where both lie on character boundaries;
* `dropWord?`: the rest of a text after a word that it starts with;
* `splitBefore`: the characters that start before a position, nearest first, and the others.
-/

namespace Assertions

/-- A piece of text, character by character. -/
abbrev Text := List Char

namespace Text

/-- The length of a text in bytes of its UTF-8 form. -/
def size : Text → Nat
  | [] => 0
  | c :: rest => c.utf8Size + size rest

@[simp] theorem size_nil : size [] = 0 := rfl

@[simp] theorem size_cons (c : Char) (rest : Text) : size (c :: rest) = c.utf8Size + size rest :=
  rfl

@[simp] theorem size_append (a b : Text) : size (a ++ b) = size a + size b := by
  induction a with
  | nil => simp
  | cons c rest ih => simp [ih, Nat.add_assoc]

theorem size_pos {text : Text} (h : text ≠ []) : 0 < size text := by
  cases text with
  | nil => exact absurd rfl h
  | cons c rest =>
    have hpos : 0 < c.utf8Size := c.utf8Size_pos
    rw [size_cons]
    omega

/-- What is left of a text from a position on, unless that position lies past the end or inside
a character. -/
def dropBytes? : Text → Nat → Option Text
  | text, 0 => some text
  | [], _ + 1 => none
  | c :: rest, n + 1 => if c.utf8Size ≤ n + 1 then dropBytes? rest (n + 1 - c.utf8Size) else none

/-- The beginning of a text up to a position, unless that position lies past the end or inside
a character. -/
def takeBytes? : Text → Nat → Option Text
  | _, 0 => some []
  | [], _ + 1 => none
  | c :: rest, n + 1 =>
    if c.utf8Size ≤ n + 1 then (takeBytes? rest (n + 1 - c.utf8Size)).map (c :: ·) else none

/-- The text between two positions. -/
def slice? (text : Text) (start stop : Nat) : Option Text :=
  if start ≤ stop then (dropBytes? text start).bind (takeBytes? · (stop - start)) else none

/-- The text after `word`, if it starts with it. -/
def dropWord? : (word text : Text) → Option Text
  | [], text => some text
  | _ :: _, [] => none
  | w :: word, c :: text => if w == c then dropWord? word text else none

/-- What follows a word is the end of the text. -/
theorem eq_of_dropWord? {word text rest : Text} (h : dropWord? word text = some rest) :
    text = word ++ rest := by
  induction word generalizing text with
  | nil => simpa [dropWord?] using h
  | cons w word ih =>
    cases text with
    | nil => simp [dropWord?] at h
    | cons c text =>
      simp only [dropWord?] at h
      split at h
      · next hc => simp [beq_iff_eq.1 hc, ih h]
      · simp at h

/-- What follows a word is found again behind it. -/
theorem dropWord?_append (word rest : Text) : dropWord? word (word ++ rest) = some rest := by
  induction word with
  | nil => rfl
  | cons w word ih => simpa [dropWord?] using ih

/-- The characters that start before position `index`, the nearest one first, and the rest. -/
def splitBefore (index : Nat) : Text → Text × Text :=
  go 0 []
where
  /-- The walk to `index` from position `at'`, with the characters passed so far. -/
  go (at' : Nat) (before : Text) : Text → Text × Text
    | [] => (before, [])
    | c :: rest =>
      if at' < index then go (at' + c.utf8Size) (c :: before) rest else (before, c :: rest)

/-! ### Texts put together -/

/-- The rest of a text from the end of its first part on is its second part. -/
theorem dropBytes?_append (before text : Text) :
    dropBytes? (before ++ text) (size before) = some text := by
  induction before with
  | nil => cases text <;> rfl
  | cons c rest ih =>
    have hpos : 0 < c.utf8Size := c.utf8Size_pos
    obtain ⟨n, hn⟩ : ∃ n, c.utf8Size + size rest = n + 1 := ⟨c.utf8Size + size rest - 1, by omega⟩
    simp only [List.cons_append, size_cons, hn, dropBytes?]
    rw [if_pos (by omega), show n + 1 - c.utf8Size = size rest by omega]
    exact ih

/-- The beginning of a text up to the end of its first part is that part. -/
theorem takeBytes?_append (before text : Text) :
    takeBytes? (before ++ text) (size before) = some before := by
  induction before with
  | nil => cases text <;> rfl
  | cons c rest ih =>
    have hpos : 0 < c.utf8Size := c.utf8Size_pos
    obtain ⟨n, hn⟩ : ∃ n, c.utf8Size + size rest = n + 1 := ⟨c.utf8Size + size rest - 1, by omega⟩
    simp only [List.cons_append, size_cons, hn, takeBytes?]
    rw [if_pos (by omega), show n + 1 - c.utf8Size = size rest by omega, ih]
    rfl

/-- Texts that are put together are the same if they are and the first ones take the same bytes. -/
theorem append_inj_of_size {a b c d : Text} (h : a ++ b = c ++ d) (hsize : size a = size c) :
    a = c ∧ b = d := by
  have htake := takeBytes?_append a b
  rw [h, hsize, takeBytes?_append] at htake
  cases htake
  exact ⟨rfl, List.append_cancel_left h⟩

/-- A part of a text lies between the end of what precedes it and its own end. -/
theorem slice?_append (before middle after : Text) :
    slice? (before ++ middle ++ after) (size before) (size before + size middle) = some middle := by
  rw [slice?, if_pos (by omega), List.append_assoc, dropBytes?_append, Option.bind_some,
    Nat.add_sub_cancel_left, takeBytes?_append]

/-! ### Texts taken apart -/

/-- A position that can be cut at is the size of the text before it. -/
theorem exists_of_dropBytes? {text rest : Text} {n : Nat} (h : dropBytes? text n = some rest) :
    ∃ front, text = front ++ rest ∧ size front = n := by
  fun_induction dropBytes? text n with
  | case1 text => exact ⟨[], Option.some.inj h, rfl⟩
  | case2 n => cases h
  | case3 c tail n hle ih =>
    obtain ⟨front, rfl, hsize⟩ := ih h
    refine ⟨c :: front, rfl, ?_⟩
    rw [size_cons, hsize]
    omega
  | case4 c tail n hle => cases h

theorem exists_of_takeBytes? {text front : Text} {n : Nat} (h : takeBytes? text n = some front) :
    ∃ rest, text = front ++ rest ∧ size front = n := by
  fun_induction takeBytes? text n generalizing front with
  | case1 text =>
    cases h
    exact ⟨text, rfl, rfl⟩
  | case2 n => cases h
  | case3 c tail n hle ih =>
    obtain ⟨front, hfront, rfl⟩ := Option.map_eq_some_iff.1 h
    obtain ⟨rest, rfl, hsize⟩ := ih hfront
    refine ⟨rest, rfl, ?_⟩
    rw [size_cons, hsize]
    omega
  | case4 c tail n hle => cases h

/-- What can be cut out of a text stands in it, between what precedes it and what follows. -/
theorem exists_of_slice? {text middle : Text} {start stop : Nat}
    (h : slice? text start stop = some middle) :
    ∃ before after, text = before ++ middle ++ after ∧ size before = start ∧
      stop = start + size middle := by
  unfold slice? at h
  split at h
  · rename_i hle
    obtain ⟨rest, hdrop, htake⟩ := Option.bind_eq_some_iff.1 h
    obtain ⟨before, rfl, hbefore⟩ := exists_of_dropBytes? hdrop
    obtain ⟨after, rfl, hmiddle⟩ := exists_of_takeBytes? htake
    exact ⟨before, after, (List.append_assoc _ _ _).symm, hbefore, by omega⟩
  · cases h

/-- Of two beginnings of a text, the one with more bytes is the longer one. -/
theorem isPrefix_of_size_le {source x x' : Text} (hx : x <+: source) (hx' : x' <+: source)
    (hle : size x ≤ size x') : x <+: x' := by
  rcases List.prefix_or_prefix_of_prefix hx hx' with h | ⟨w, rfl⟩
  · exact h
  · by_cases hw : w = []
    · exact ⟨[], by rw [hw, List.append_nil, List.append_nil]⟩
    · have hpos := size_pos hw
      rw [size_append] at hle
      omega

end Text

end Assertions
