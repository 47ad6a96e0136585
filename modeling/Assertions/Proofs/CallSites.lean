import Assertions.Nesting.CallSite
import Assertions.Proofs.Spelling

/-!
# Blanks inside calls

The walk that `isWithinCall` makes from a position of a text goes to the left over brackets as they
stand, and from a bracket it stops at it goes to the right past literals. Text without brackets on
either side makes no difference to it (`isWithinCallFrom_append`). Where no bracket stands in a
literal both directions see the same brackets, and then every blank between the brackets of a call
is found to be within it (`isWithinCall_of_bracketsOutside`).
-/

namespace Assertions

/-- Whether there is no bracket in a text. -/
structure NoBrackets (text : Text) : Prop where
  openBracket_not_mem : Symbol.openBracket ∉ text
  closeBracket_not_mem : Symbol.closeBracket ∉ text

@[simp] theorem Text.size_reverse (text : Text) : Text.size text.reverse = Text.size text := by
  induction text with
  | nil => rfl
  | cons c rest ih => simp [ih, Nat.add_comm]

/-! ### Text around a call -/

/-- A position is cut at if the text before it has that size. -/
theorem splitBefore_append (x y : Text) :
    Text.splitBefore (Text.size x) (x ++ y) = (x.reverse, y) := by
  have hgo : ∀ (at' : Nat) (before : Text),
      Text.splitBefore.go (at' + Text.size x) at' before (x ++ y) = (x.reverse ++ before, y) := by
    induction x with
    | nil =>
      intro at' before
      cases y with
      | nil => rfl
      | cons c rest => simp [Text.splitBefore.go]
    | cons c rest ih =>
      intro at' before
      have hpos : 0 < c.utf8Size := c.utf8Size_pos
      have hlt : at' < at' + Text.size (c :: rest) := by
        rw [Text.size_cons]
        omega
      have hnext := ih (at' + c.utf8Size) (c :: before)
      rw [Nat.add_assoc] at hnext
      rw [List.cons_append, Text.splitBefore.go, if_pos hlt]
      simpa using hnext
  have h := hgo 0 []
  rwa [Nat.zero_add, List.append_nil] at h

theorem isWithinCall_append (x y : Text) :
    isWithinCall (x ++ y) (Text.size x) = isWithinCallFrom (Text.size x) 0 x.reverse y := by
  rw [isWithinCall, splitBefore_append]

/-- The search for a closing bracket does not find one where there is none. -/
theorem enclosed?_go_eq_none {n : Nesting} {text : Text} (h : Symbol.closeBracket ∉ text) :
    enclosed?.go n text = none := by
  induction text generalizing n with
  | nil => rfl
  | cons c rest ih =>
    simp only [List.mem_cons, not_or] at h
    have hc : ¬(c == Symbol.closeBracket && n.isOutermost) = true := by simp [Ne.symm h.1]
    rw [enclosed?.go, if_neg hc, ih h.2]
    rfl

/-- Text without closing brackets after a text does not change what a bracket encloses. -/
theorem enclosed?_go_append_right {n : Nesting} {text later : Text}
    (h : Symbol.closeBracket ∉ later) :
    enclosed?.go n (text ++ later) =
      (enclosed?.go n text).map fun (inside, rest) => (inside, rest ++ later) := by
  induction text generalizing n with
  | nil => rw [List.nil_append, enclosed?_go_eq_none h, enclosed?.go, Option.map_none]
  | cons c rest ih =>
    simp only [List.cons_append, enclosed?.go]
    split
    · rfl
    · rw [ih, Option.map_map, Option.map_map]
      rfl

/-- Whether a bracket is closed after position `index`, where `start` is the position after the
bracket and `after` the text from there on. -/
def closesAfter (index start : Nat) (after : Text) : Bool :=
  (enclosed? after).any fun (inside, _) => index < start + Text.size inside

theorem closesAfter_append {p q after : Text} (hq : Symbol.closeBracket ∉ q) (index start : Nat) :
    closesAfter (Text.size p + index) (Text.size p + start) (after ++ q) =
      closesAfter index start after := by
  have h : enclosed? (after ++ q) =
      (enclosed? after).map fun (inside, rest) => (inside, rest ++ q) :=
    enclosed?_go_append_right hq
  rw [closesAfter, closesAfter, h]
  cases enclosed? after with
  | none => rfl
  | some cut =>
    show decide (Text.size p + index < Text.size p + start + Text.size cut.1) =
      decide (index < start + Text.size cut.1)
    congr 1
    rw [eq_iff_iff]
    omega

/-- No bracket is closed after a position that no closing bracket follows. -/
theorem closesAfter_eq_false {middle tail : Text} (h : Symbol.closeBracket ∉ tail) (start : Nat) :
    closesAfter (start + Text.size middle) start (middle ++ tail) = false := by
  have hclose : enclosed? (middle ++ tail) =
      (enclosed? middle).map fun (inside, rest) => (inside, rest ++ tail) :=
    enclosed?_go_append_right h
  rw [closesAfter, hclose]
  cases hinside : enclosed? middle with
  | none => rfl
  | some cut =>
    have hsize := congrArg Text.size (eq_of_enclosed? hinside)
    rw [Text.size_append] at hsize
    show decide (start + Text.size middle < start + Text.size cut.1) = false
    rw [decide_eq_false_iff_not]
    omega

/-! ### The walk -/

section

variable {index closed : Nat} {before after : Text}

theorem walk_closeBracket :
    isWithinCallFrom index closed (Symbol.closeBracket :: before) after =
      isWithinCallFrom index (closed + 1) before (Symbol.closeBracket :: after) := by
  cases closed <;> rfl

theorem walk_openBracket_succ :
    isWithinCallFrom index (closed + 1) (Symbol.openBracket :: before) after =
      isWithinCallFrom index closed before (Symbol.openBracket :: after) := rfl

theorem walk_openBracket_zero :
    isWithinCallFrom index 0 (Symbol.openBracket :: before) after =
      if followsWord before then closesAfter index (Text.size before + 1) after
      else isWithinCallFrom index 0 before (Symbol.openBracket :: after) := rfl

theorem walk_other {c : Char} (hopen : c ≠ Symbol.openBracket) (hclose : c ≠ Symbol.closeBracket) :
    isWithinCallFrom index closed (c :: before) after =
      isWithinCallFrom index closed before (c :: after) := by
  cases closed <;> simp [isWithinCallFrom, hopen, hclose]

end

/-- In a text without brackets nothing is within a call. -/
theorem isWithinCallFrom_of_noBrackets {index closed : Nat} {before : Text} (after : Text)
    (h : NoBrackets before) : isWithinCallFrom index closed before after = false := by
  induction before generalizing after with
  | nil => cases closed <;> rfl
  | cons c rest ih =>
    obtain ⟨hopen, hclose⟩ := h
    simp only [List.mem_cons, not_or] at hopen hclose
    rw [walk_other (Ne.symm hopen.1) (Ne.symm hclose.1)]
    exact ih (c :: after) ⟨hopen.2, hclose.2⟩

/-- The walk does not depend on text without brackets on either side, unless a word ends there. -/
theorem isWithinCallFrom_append {p q : Text} (hp : NoBrackets p)
    (hword : followsWord p.reverse = false) (hq : Symbol.closeBracket ∉ q) (index : Nat) :
    ∀ (before after : Text) (closed : Nat),
      isWithinCallFrom (Text.size p + index) closed (before ++ p.reverse) (after ++ q) =
        isWithinCallFrom index closed before after := by
  intro before
  induction before with
  | nil =>
    intro after closed
    have hnone : NoBrackets p.reverse := by
      constructor
      · simpa using hp.openBracket_not_mem
      · simpa using hp.closeBracket_not_mem
    rw [List.nil_append, isWithinCallFrom_of_noBrackets _ hnone]
    cases closed <;> rfl
  | cons c rest ih =>
    intro after closed
    have hnext := ih (c :: after)
    rw [List.cons_append] at hnext ⊢
    by_cases hclose : c = Symbol.closeBracket
    · subst hclose
      rw [walk_closeBracket, walk_closeBracket, hnext]
    by_cases hopen : c = Symbol.openBracket
    · subst hopen
      cases closed with
      | succ closed => rw [walk_openBracket_succ, walk_openBracket_succ, hnext]
      | zero =>
        have hfollows : followsWord (rest ++ p.reverse) = followsWord rest := by
          cases rest with
          | nil => exact hword
          | cons d others => rfl
        have hstart : Text.size (rest ++ p.reverse) + 1 = Text.size p + (Text.size rest + 1) := by
          rw [Text.size_append, Text.size_reverse]
          omega
        rw [walk_openBracket_zero, walk_openBracket_zero, hfollows, hnext, hstart,
          closesAfter_append hq]
    · rw [walk_other hopen hclose, walk_other hopen hclose, hnext]

/-- A position with no closing bracket after it is not within a call. -/
theorem isWithinCallFrom_of_not_mem {tail : Text} (htail : Symbol.closeBracket ∉ tail) :
    ∀ (before middle : Text) (closed : Nat),
      isWithinCallFrom (Text.size before + Text.size middle) closed before (middle ++ tail) =
        false := by
  intro before
  induction before with
  | nil =>
    intro middle closed
    cases closed <;> rfl
  | cons c rest ih =>
    intro middle closed
    have hindex : Text.size (c :: rest) + Text.size middle =
        Text.size rest + Text.size (c :: middle) := by
      simp only [Text.size_cons]
      omega
    have hnext := ih (c :: middle)
    rw [← hindex, List.cons_append] at hnext
    by_cases hclose : c = Symbol.closeBracket
    · subst hclose
      rw [walk_closeBracket, hnext]
    by_cases hopen : c = Symbol.openBracket
    · subst hopen
      cases closed with
      | succ closed => rw [walk_openBracket_succ, hnext]
      | zero =>
        have hsize : Text.size (Symbol.openBracket :: rest) = Text.size rest + 1 :=
          Nat.add_comm _ _
        rw [walk_openBracket_zero, hnext, hsize, closesAfter_eq_false htail, ite_self]
    · rw [walk_other hopen hclose, hnext]

/-! ### Deeper positions -/

namespace Nesting

/-- Whether a position is at most as deep as another one, both in a literal or both in none. -/
structure AtMost (m n : Nesting) : Prop where
  quoted_eq : m.quoted = n.quoted
  depth_le : m.depth ≤ n.depth

namespace AtMost

variable {m n : Nesting}

theorem isOutermost (h : m.AtMost n) (hn : n.isOutermost = true) : m.isOutermost = true := by
  obtain ⟨hquoted, hdepth⟩ := h
  simp only [Nesting.isOutermost, Bool.and_eq_true, beq_iff_eq, Bool.not_eq_true'] at hn ⊢
  rw [hquoted]
  exact ⟨by omega, hn.2⟩

theorem step (h : m.AtMost n) (c : Char) : (m.step c).AtMost (n.step c) := by
  obtain ⟨hquoted, hdepth⟩ := h
  unfold Nesting.step
  rw [hquoted]
  split
  · exact ⟨rfl, hdepth⟩
  · split
    · exact ⟨hquoted, hdepth⟩
    · split
      · exact ⟨rfl, Nat.succ_le_succ hdepth⟩
      · split
        · exact ⟨rfl, Nat.sub_le_sub_right hdepth 1⟩
        · exact ⟨hquoted, hdepth⟩

theorem after (h : m.AtMost n) (text : Text) : (m.after text).AtMost (n.after text) := by
  induction text generalizing m n with
  | nil => exact h
  | cons c rest ih => exact ih (h.step c)

/-- What hides a character hides it deeper as well. -/
theorem shields {stop : Char} (h : m.AtMost n) {text : Text} (hm : Shields stop m text) :
    Shields stop n text := by
  induction text generalizing m n with
  | nil => trivial
  | cons c rest ih =>
    obtain ⟨hc, hrest⟩ := hm
    exact ⟨fun hn => hc ⟨hn.1, h.isOutermost hn.2⟩, ih (h.step c) hrest⟩

/-- Of two positions the one that is less deep is closed as well. -/
theorem isSome_enclosed?_go (h : m.AtMost n) {text : Text}
    (hn : (enclosed?.go n text).isSome = true) : (enclosed?.go m text).isSome = true := by
  induction text generalizing m n with
  | nil => cases hn
  | cons c rest ih =>
    simp only [enclosed?.go] at hn ⊢
    split
    · rfl
    · rename_i hm
      split at hn
      · rename_i hc
        simp only [Bool.and_eq_true] at hc hm
        exact absurd ⟨hc.1, h.isOutermost hc.2⟩ hm
      · rw [Option.isSome_map] at hn ⊢
        exact ih (h.step c) hn

end AtMost

/-- Characters that are no brackets leave the depth as it is. -/
theorem step_of_ne {c : Char} (hopen : c ≠ Symbol.openBracket) (hclose : c ≠ Symbol.closeBracket)
    (n : Nesting) : n.step c = ⟨n.depth, quotedAfter n.quoted c⟩ := by
  unfold step quotedAfter
  split
  · rfl
  · simp [hopen, hclose]

theorem step_openBracket {n : Nesting} (h : n.quoted = false) :
    n.step Symbol.openBracket = ⟨n.depth + 1, false⟩ := by
  obtain ⟨depth, quoted⟩ := n
  cases h
  rfl

theorem step_closeBracket {n : Nesting} (h : n.quoted = false) :
    n.step Symbol.closeBracket = ⟨n.depth - 1, false⟩ := by
  obtain ⟨depth, quoted⟩ := n
  cases h
  rfl

end Nesting

/-! ### Brackets outside literals -/

/-- Whether no bracket of a text lies in a literal, where the text starts inside one or not. -/
def BracketsOutside : (quoted : Bool) → Text → Prop
  | _, [] => True
  | quoted, c :: rest =>
    (c = Symbol.openBracket ∨ c = Symbol.closeBracket → quoted = false) ∧
      BracketsOutside (quotedAfter quoted c) rest

instance decidableBracketsOutside :
    (quoted : Bool) → (text : Text) → Decidable (BracketsOutside quoted text)
  | _, [] => isTrue trivial
  | quoted, c :: rest =>
    have := decidableBracketsOutside (quotedAfter quoted c) rest
    inferInstanceAs (Decidable ((_ → _) ∧ _))

theorem bracketsOutside_append {quoted : Bool} {a b : Text} :
    BracketsOutside quoted (a ++ b) ↔
      BracketsOutside quoted a ∧ BracketsOutside (quotedThrough quoted a) b := by
  induction a generalizing quoted with
  | nil => simp [BracketsOutside]
  | cons c rest ih =>
    simp only [List.cons_append, BracketsOutside, ih, quotedThrough_cons, and_assoc]

/-- A bracket that closes neither before nor at a character is closed after the positions in that
character, if they are in some bracket that is. -/
theorem closesAfter_of_shields {segment rest : Text} {c : Char} {index start : Nat}
    (hc : c ≠ Symbol.closeBracket) (hlt : index < start + Text.size segment + c.utf8Size)
    (hsegment : Nesting.Shields Symbol.closeBracket .outermost segment)
    (hclosed : (enclosed?.go (Nesting.outermost.after segment) (c :: rest)).isSome = true) :
    closesAfter index start (segment ++ c :: rest) = true := by
  obtain ⟨⟨inside, later⟩, hinside⟩ := Option.isSome_iff_exists.1 hclosed
  -- The character is no closing bracket, so it is enclosed too.
  have hsize : c.utf8Size ≤ Text.size inside := by
    cases inside with
    | nil => exact absurd (List.cons.inj (eq_of_enclosed?_go hinside)).1 hc
    | cons d tail =>
      rw [(List.cons.inj (eq_of_enclosed?_go hinside)).1, Text.size_cons]
      exact Nat.le_add_right _ _
  rw [closesAfter, enclosed?, enclosed?_go_append hsegment, hinside]
  show decide (index < start + Text.size (segment ++ inside)) = true
  rw [decide_eq_true_iff, Text.size_append]
  omega

/-- The walk from a position in the brackets of a call finds the call, or one inside it. `before`
is what it has still to pass inside these brackets, `segment` what it has passed, and the invariant
is that `closed` brackets make up for everything that closes in `segment`. -/
theorem walk_of_bracketsOutside {name rest : Text} {c : Char}
    (hname : followsWord name.reverse = true) (hc : c ≠ Symbol.closeBracket) :
    ∀ (before segment : Text) (closed : Nat),
      BracketsOutside false before.reverse →
      Nesting.Shields Symbol.closeBracket .outermost before.reverse →
      closed ≤ (Nesting.outermost.after before.reverse).depth →
      Nesting.Shields Symbol.closeBracket
        ⟨closed, (Nesting.outermost.after before.reverse).quoted⟩ segment →
      (enclosed?.go ((Nesting.outermost.after before.reverse).after segment)
        (c :: rest)).isSome = true →
      isWithinCallFrom (Text.size name + 1 + Text.size before + Text.size segment) closed
        (before ++ Symbol.openBracket :: name.reverse) (segment ++ c :: rest) = true := by
  intro before
  induction before with
  | nil =>
    intro segment closed _ _ hdepth hsegment hclosed
    cases Nat.le_zero.1 hdepth
    have hsize : Text.size name.reverse + 1 = Text.size name + 1 := by rw [Text.size_reverse]
    rw [List.nil_append, walk_openBracket_zero, if_pos hname, hsize]
    exact closesAfter_of_shields hc (Nat.lt_add_of_pos_right c.utf8Size_pos) hsegment hclosed
  | cons b before ih =>
    intro segment closed houtside hshields hdepth hsegment hclosed
    rw [List.reverse_cons] at houtside hshields hdepth hsegment hclosed
    rw [bracketsOutside_append] at houtside
    rw [Nesting.shields_append] at hshields
    rw [Nesting.after_append] at hdepth hsegment hclosed
    obtain ⟨houtside, hb, -⟩ := houtside
    obtain ⟨hshields, hopen, -⟩ := hshields
    have hquoted : (Nesting.outermost.after before.reverse).quoted =
        quotedThrough false before.reverse := Nesting.quoted_after _ _
    rw [← hquoted] at hb
    have hindex : Text.size name + 1 + Text.size (b :: before) + Text.size segment =
        Text.size name + 1 + Text.size before + Text.size (b :: segment) := by
      simp only [Text.size_cons]
      omega
    have hnext := ih (b :: segment)
    rw [← hindex, List.cons_append] at hnext
    rw [List.cons_append]
    generalize Nesting.outermost.after before.reverse = n at hnext hb hopen hdepth hsegment hclosed
    rw [Nesting.after_cons, Nesting.after_nil] at hdepth hsegment hclosed
    by_cases hclose : b = Symbol.closeBracket
    · subst hclose
      have hn := hb (.inr rfl)
      have hpos : 0 < n.depth := by
        rw [Nat.pos_iff_ne_zero]
        intro hzero
        exact hopen ⟨rfl, by simp [Nesting.isOutermost, hzero, hn]⟩
      rw [walk_closeBracket]
      refine hnext (closed + 1) houtside hshields ?_ ?_ hclosed
      · rw [Nesting.step_closeBracket hn] at hdepth
        simp only at hdepth
        omega
      · rw [Nesting.step_closeBracket hn] at hsegment
        rw [hn]
        exact ⟨by simp [Nesting.isOutermost], hsegment⟩
    by_cases hopen' : b = Symbol.openBracket
    · subst hopen'
      have hn := hb (.inl rfl)
      rw [Nesting.step_openBracket hn] at hdepth hsegment hclosed
      have hdeeper : Nesting.AtMost .outermost ⟨n.depth + 1, false⟩ := ⟨rfl, Nat.zero_le _⟩
      cases closed with
      | succ closed =>
        rw [walk_openBracket_succ]
        refine hnext closed houtside hshields (Nat.le_of_succ_le_succ hdepth) ?_ ?_
        · rw [hn]
          exact ⟨fun heq => absurd heq.1 (by decide), hsegment⟩
        · rw [Nesting.after_cons, Nesting.step_openBracket hn]
          exact hclosed
      | zero =>
        rw [walk_openBracket_zero]
        split
        · have hstart : Text.size (before ++ Symbol.openBracket :: name.reverse) + 1 =
              Text.size name + 1 + Text.size (Symbol.openBracket :: before) := by
            simp only [Text.size_append, Text.size_cons, Text.size_reverse]
            have : Symbol.openBracket.utf8Size = 1 := rfl
            omega
          rw [hstart]
          exact closesAfter_of_shields hc (Nat.lt_add_of_pos_right c.utf8Size_pos) hsegment
            ((hdeeper.after segment).isSome_enclosed?_go hclosed)
        · refine hnext 0 houtside hshields (Nat.zero_le _) ?_ ?_
          · have hinner : Nesting.AtMost .outermost ⟨1, false⟩ := ⟨rfl, Nat.zero_le _⟩
            rw [hn]
            exact ⟨fun heq => absurd heq.1 (by decide), hinner.shields hsegment⟩
          · rw [Nesting.after_cons, Nesting.step_openBracket hn]
            exact hclosed
    · rw [walk_other hopen' hclose]
      have hstep := Nesting.step_of_ne hopen' hclose
      rw [hstep] at hdepth hsegment
      refine hnext closed houtside hshields hdepth ⟨fun heq => hclose heq.1, ?_⟩ ?_
      · rw [hstep]
        exact hsegment
      · rw [Nesting.after_cons]
        exact hclosed

/-- **Calls without brackets in literals.** Every position between the brackets of such a call at
which there is no closing bracket is within a call. -/
theorem isWithinCall_of_bracketsOutside {name body : Text} {x y : Text} {c : Char}
    (hname : followsWord name.reverse = true) (hbody : Balanced body)
    (houtside : BracketsOutside false body)
    (hx : body ++ [Symbol.closeBracket] = x ++ c :: y) (hc : c ≠ Symbol.closeBracket) :
    isWithinCall (name ++ Symbol.openBracket :: body ++ [Symbol.closeBracket])
      (Text.size (name ++ Symbol.openBracket :: x)) = true := by
  obtain ⟨z, rfl⟩ : ∃ z, body = x ++ c :: z := by
    rcases List.eq_nil_or_concat y with rfl | ⟨z, d, rfl⟩
    · exact absurd (List.append_inj' hx rfl).2 (by simpa using Ne.symm hc)
    · refine ⟨z, ?_⟩
      have h : body ++ [Symbol.closeBracket] = (x ++ c :: z) ++ [d] := by simpa using hx
      exact (List.append_inj' h rfl).1
  obtain ⟨-, hshields⟩ := hbody 0
  have hprefix : Nesting.Shields Symbol.closeBracket .outermost x :=
    (Nesting.shields_append.1 hshields).1
  have htext : name ++ Symbol.openBracket :: (x ++ c :: z) ++ [Symbol.closeBracket] =
      (name ++ Symbol.openBracket :: x) ++ c :: (z ++ [Symbol.closeBracket]) := by simp
  have hsome : (enclosed?.go (Nesting.outermost.after x)
      (c :: (z ++ [Symbol.closeBracket]))).isSome = true := by
    have hclosed := enclosed?_of_balanced hbody []
    rw [List.append_assoc, List.cons_append, enclosed?, enclosed?_go_append hprefix,
      Option.map_eq_some_iff] at hclosed
    obtain ⟨cut, hcut, -⟩ := hclosed
    rw [hcut]
    rfl
  have hwalk := walk_of_bracketsOutside hname hc x.reverse [] 0
    (by rw [List.reverse_reverse]; exact (bracketsOutside_append.1 houtside).1)
    (by rw [List.reverse_reverse]; exact hprefix) (Nat.zero_le _) trivial
    (by rw [List.reverse_reverse]; exact hsome)
  have hsize : Text.size (name ++ Symbol.openBracket :: x) =
      Text.size name + 1 + Text.size x.reverse + Text.size [] := by
    rw [Text.size_append, Text.size_reverse, Text.size_nil, Nat.add_zero, Nat.add_assoc]
    rfl
  rw [htext, isWithinCall_append, hsize]
  simpa using hwalk

end Assertions
