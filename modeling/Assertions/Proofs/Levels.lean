import Assertions.Proofs.Grammar

/-!
# Levels of operators

A reader of operands is `Exact` at a strength if it reads the accepted trees that bind at least as
much, and those only. It has to read such a tree wherever no operator of that strength follows, and
it must not care what else follows.

`exact_level` goes from a strength to the one below: operands joined by the operators of one
strength. `exact_expression` goes down the whole ladder. The groups of the ladder are the classes of
operators of equal precedence (`mem_ladder`), which is the only place where the two meet.
-/

namespace Assertions

/-! ### Outcomes -/

/-- An outcome with a result, and with `rest` left. -/
def Outcome.Gives {α : Type u} {bound : List PlacedToken} (outcome : Outcome α bound) (value : α)
    (rest : List PlacedToken) : Prop :=
  outcome.result = .ok value ∧ outcome.rest = rest

theorem Outcome.Gives.isSuffix {α : Type u} {bound rest : List PlacedToken}
    {outcome : Outcome α bound} {value : α} (h : outcome.Gives value rest) : rest <:+ bound := by
  rw [← h.2]
  exact outcome.isSuffix

section

variable {ops : List Operator} {operand : OperandReader}

/-- Nothing is put on an expression that no operator of `ops` follows. -/
theorem extend_of_stop {left : Expr} {tokens : List PlacedToken}
    (hstop : ∀ op span more, tokens = ⟨.operator op, span⟩ :: more → op ∉ ops) :
    extend ops operand left tokens = .done left := by
  rw [extend.eq_def]
  split
  · rename_i op span more
    have hop : op ∉ ops := hstop op span more rfl
    rw [if_neg (by simpa using hop)]
  · rfl

/-- An operator of `ops` is put on with the operand after it. -/
theorem extend_gives_iff {left e : Expr} {op : Operator} {span : Span}
    {more last : List PlacedToken} (hop : op ∈ ops) :
    (extend ops operand left (⟨.operator op, span⟩ :: more)).Gives e last ↔
      ∃ right rest, (operand more).Gives right rest ∧
        (extend ops operand (.binary op left right) rest).Gives e last := by
  rw [extend.eq_def]
  simp only [List.contains_iff_mem, hop, if_true]
  rcases hmore : operand more with ⟨_ | right, rest, hsuffix⟩
  · simp [Outcome.Gives]
  · constructor
    · intro h
      exact ⟨right, rest, ⟨rfl, rfl⟩, h⟩
    · rintro ⟨_, _, ⟨hright, hrest⟩, h⟩
      cases hright
      cases hrest
      exact h

/-- A level reads an operand and puts on it what follows. -/
theorem level_gives_iff {tokens last : List PlacedToken} {e : Expr} :
    (level ops operand tokens).Gives e last ↔
      ∃ left rest, (operand tokens).Gives left rest ∧
        (extend ops operand left rest).Gives e last := by
  unfold level
  rcases htokens : operand tokens with ⟨_ | left, rest, hsuffix⟩
  · simp [Outcome.Gives]
  · constructor
    · intro h
      exact ⟨left, rest, ⟨rfl, rfl⟩, h⟩
    · rintro ⟨_, _, ⟨hleft, hrest⟩, h⟩
      cases hleft
      cases hrest
      exact h

end

/-! ### Failures -/

/-- Whether tokens are read from the place of an operand on: all of them, or what an operator stands
in front of. -/
def AtOperand (tokens more : List PlacedToken) : Prop :=
  more = tokens ∨ ∃ front op span, tokens = front ++ ⟨.operator op, span⟩ :: more

namespace AtOperand

variable {tokens middle more : List PlacedToken}

theorem isSuffix (h : AtOperand tokens more) : more <:+ tokens := by
  obtain rfl | ⟨front, op, span, rfl⟩ := h
  · exact List.suffix_refl more
  · exact (List.suffix_cons _ more).trans (List.suffix_append front _)

theorem trans (h : AtOperand tokens middle) (hmore : AtOperand middle more) :
    AtOperand tokens more := by
  obtain rfl | ⟨front, op, span, rfl⟩ := h
  · exact hmore
  · obtain rfl | ⟨later, op', span', rfl⟩ := hmore
    · exact .inr ⟨front, op, span, rfl⟩
    · exact .inr ⟨front ++ ⟨.operator op, span⟩ :: later, op', span', by simp⟩

end AtOperand

section

variable {ops : List Operator} {operand : OperandReader} {fault : Fault}

/-- Operands between operators fail where one of them does. -/
theorem exists_of_extend_eq_error {left : Expr} {tokens : List PlacedToken}
    (h : (extend ops operand left tokens).result = .error fault) :
    ∃ front op span more, tokens = front ++ ⟨.operator op, span⟩ :: more ∧
      (operand more).result = .error fault := by
  fun_induction extend ops operand left tokens with
  | case1 left op span more hop first rest hsuffix hfault =>
    cases h
    exact ⟨[], op, span, more, rfl, by rw [hfault]⟩
  | case2 left op span more hop right rest hsuffix hright ih =>
    obtain ⟨between, op', span', later, rfl, hfault⟩ := ih h
    obtain ⟨front, hfront⟩ := suffix_cons_of_tail ⟨.operator op, span⟩ hsuffix
    exact ⟨front ++ between, op', span', later, by rw [← hfront, List.append_assoc], hfault⟩
  | case3 | case4 => cases h

theorem exists_of_level_eq_error {tokens : List PlacedToken}
    (h : (level ops operand tokens).result = .error fault) :
    ∃ more, AtOperand tokens more ∧ (operand more).result = .error fault := by
  unfold level at h
  split at h
  · rename_i first rest hsuffix hfault
    cases h
    exact ⟨tokens, .inl rfl, by rw [hfault]⟩
  · rename_i left rest hsuffix hleft
    obtain ⟨between, op, span, more, rfl, hfault⟩ :=
      exists_of_extend_eq_error (show (extend ops operand left rest).result = _ from h)
    obtain ⟨front, hfront⟩ := hsuffix.trans (List.tail_suffix tokens)
    exact ⟨more, .inr ⟨front ++ between, op, span, by rw [← hfront, List.append_assoc]⟩, hfault⟩

/-- An expression fails where one of its operands does, whatever the levels are. -/
theorem exists_of_foldr_level_eq_error {levels : List (List Operator)} :
    ∀ {tokens : List PlacedToken},
      (levels.foldr level operand tokens).result = .error fault →
      ∃ more, AtOperand tokens more ∧ (operand more).result = .error fault := by
  induction levels with
  | nil => exact fun {tokens} h => ⟨tokens, .inl rfl, h⟩
  | cons ops others ih =>
    intro tokens h
    obtain ⟨middle, hmiddle, hfault⟩ := exists_of_level_eq_error h
    obtain ⟨more, hmore, hfault⟩ := ih hfault
    exact ⟨more, hmiddle.trans hmore, hfault⟩

end

/-! ### Accepted trees, put together -/

namespace Accepted

variable {names : Text → Bool} {room : Nat}

/-- Two accepted trees and an operator that may stand between them. -/
theorem binary {front back : List PlacedToken} {left right : Expr} {op : Operator} {span : Span}
    (hleft : Accepted names room front left) (hright : Accepted names room back right)
    (hl : left.BindsAtLeast op.precedence) (hr : right.BindsAtLeast (op.precedence + 1)) :
    Accepted names room (front ++ ⟨.operator op, span⟩ :: back) (.binary op left right) where
  yields := .binary op span hleft.yields hright.yields
  ordered := Expr.isOrdered_binary.2 ⟨⟨hl, hr⟩, hleft.ordered, hright.ordered⟩
  nesting_le := Nat.max_le.2 ⟨hleft.nesting_le, hright.nesting_le⟩

/-- The operands of an accepted binary expression are accepted. -/
theorem of_binary {tokens : List PlacedToken} {left right : Expr} {op : Operator}
    (h : Accepted names room tokens (.binary op left right)) :
    ∃ front span back, tokens = front ++ ⟨.operator op, span⟩ :: back ∧
      Accepted names room front left ∧ Accepted names room back right ∧
      left.BindsAtLeast op.precedence ∧ right.BindsAtLeast (op.precedence + 1) := by
  obtain ⟨⟨hl, hr⟩, hleft, hright⟩ := Expr.isOrdered_binary.1 h.ordered
  obtain ⟨hnl, hnr⟩ := Nat.max_le.1 h.nesting_le
  cases h.yields with
  | binary _ span hyl hyr =>
    exact ⟨_, span, _, rfl, ⟨hyl, hleft, hnl⟩, ⟨hyr, hright, hnr⟩, hl, hr⟩

end Accepted

/-- A weaker bound on the strength of an expression. -/
theorem Expr.BindsAtLeast.mono {e : Expr} {low high : Nat} (h : e.BindsAtLeast high)
    (hle : low ≤ high) : e.BindsAtLeast low := by
  cases e with
  | binary op left right => exact Nat.le_trans hle h
  | _ => trivial

/-- Whether no operator of a given strength, or of a greater one, is the next token. -/
def StopsBelow (strength : Nat) (tokens : List PlacedToken) : Prop :=
  ∀ op span more, tokens = ⟨.operator op, span⟩ :: more → op.precedence < strength

/-! ### Exact readers -/

/-- A reader that reads exactly the accepted trees that bind at least as much as `strength`. -/
structure Exact (names : Text → Bool) (room strength : Nat) (reader : OperandReader) : Prop where
  sound : ∀ tokens e rest, (reader tokens).Gives e rest →
    ∃ front, tokens = front ++ rest ∧ Accepted names room front e ∧ e.BindsAtLeast strength
  complete : ∀ front e rest, Accepted names room front e → e.BindsAtLeast strength →
    StopsBelow strength rest → (reader (front ++ rest)).Gives e rest

section

variable {names : Text → Bool} {room strength : Nat} {ops : List Operator} {operand : OperandReader}

/-- What is put on an accepted tree makes up an accepted tree with it. The induction is on the
number of tokens, as for `extend` itself. -/
theorem extend_sound (hops : ∀ op, op ∈ ops ↔ op.precedence = strength)
    (hoperand : Exact names room (strength + 1) operand) :
    ∀ (size : Nat) (tokens : List PlacedToken), tokens.length ≤ size →
      ∀ front left e rest, Accepted names room front left → left.BindsAtLeast strength →
        (extend ops operand left tokens).Gives e rest →
        ∃ back, tokens = back ++ rest ∧ Accepted names room (front ++ back) e ∧
          e.BindsAtLeast strength := by
  intro size
  induction size with
  | zero =>
    intro tokens hsize front left e rest hleft hbinds hgives
    have hnil : tokens = [] := List.eq_nil_of_length_eq_zero (by omega)
    subst hnil
    rw [extend_of_stop (by simp)] at hgives
    obtain ⟨hvalue, hrest⟩ := hgives
    cases hvalue
    cases hrest
    exact ⟨[], by simp [Outcome.done], by simpa using hleft, hbinds⟩
  | succ size ih =>
    intro tokens hsize front left e rest hleft hbinds hgives
    by_cases hnext : ∃ op span more, tokens = ⟨.operator op, span⟩ :: more ∧ op ∈ ops
    · obtain ⟨op, span, more, rfl, hop⟩ := hnext
      obtain ⟨right, after, hright, hafter⟩ := (extend_gives_iff hop).1 hgives
      obtain ⟨middle, rfl, haccepted, hbindsr⟩ := hoperand.sound _ _ _ hright
      have hprec : op.precedence = strength := (hops op).1 hop
      have hjoined : Accepted names room (front ++ ⟨.operator op, span⟩ :: middle)
          (.binary op left right) :=
        hleft.binary haccepted (by rwa [hprec]) (by rwa [hprec])
      have hlength : after.length ≤ size := by
        simp only [List.length_cons, List.length_append] at hsize
        omega
      obtain ⟨back, rfl, hall, hbindsall⟩ :=
        ih after hlength _ _ _ _ hjoined (Nat.le_of_eq hprec.symm) hafter
      refine ⟨⟨.operator op, span⟩ :: middle ++ back, ?_, ?_, hbindsall⟩
      · simp
      · simpa using hall
    · rw [extend_of_stop fun op span more htokens hop => hnext ⟨op, span, more, htokens, hop⟩]
        at hgives
      obtain ⟨hvalue, hrest⟩ := hgives
      cases hvalue
      cases hrest
      exact ⟨[], by simp [Outcome.done], by simpa using hleft, hbinds⟩

/-- A level comes past an accepted tree and goes on to put on what follows, whatever that is. The
induction goes down the left operands: those of the level's own strength have been put on one by
one, and the first that binds more was read as an operand. -/
theorem level_gives_extend (hops : ∀ op, op ∈ ops ↔ op.precedence = strength)
    (hoperand : Exact names room (strength + 1) operand) (e : Expr) :
    ∀ front rest last value, Accepted names room front e → e.BindsAtLeast strength →
      StopsBelow (strength + 1) rest →
      (extend ops operand e rest).Gives value last →
      (level ops operand (front ++ rest)).Gives value last := by
  induction e with
  | binary op left right ihl ihr =>
    intro front rest last value haccepted hbinds hstop hgives
    by_cases hprec : op.precedence = strength
    · obtain ⟨fl, span, fr, rfl, hleft, hright, hbl, hbr⟩ := haccepted.of_binary
      rw [hprec] at hbl hbr
      have hright' := hoperand.complete fr right rest hright hbr hstop
      have hop : op ∈ ops := (hops op).2 hprec
      have hstop' : StopsBelow (strength + 1) (⟨.operator op, span⟩ :: (fr ++ rest)) := by
        intro o s m heq
        cases heq
        omega
      rw [List.append_assoc, List.cons_append]
      exact ihl fl _ last value hleft hbl hstop'
        ((extend_gives_iff hop).2 ⟨right, rest, hright', hgives⟩)
    · have hmore : (Expr.binary op left right).BindsAtLeast (strength + 1) :=
        Nat.lt_of_le_of_ne hbinds (Ne.symm hprec)
      exact level_gives_iff.2 ⟨_, rest, hoperand.complete _ _ _ haccepted hmore hstop, hgives⟩
  | _ =>
    intro front rest last value haccepted hbinds hstop hgives
    exact level_gives_iff.2 ⟨_, rest, hoperand.complete _ _ _ haccepted trivial hstop, hgives⟩

/-- **One level.** Operands that bind more than `strength`, joined by the operators of that
strength, are the trees that bind at least as much. -/
theorem exact_level (hops : ∀ op, op ∈ ops ↔ op.precedence = strength)
    (hoperand : Exact names room (strength + 1) operand) :
    Exact names room strength (level ops operand) where
  sound := by
    intro tokens e rest hgives
    obtain ⟨left, after, hleft, hafter⟩ := level_gives_iff.1 hgives
    obtain ⟨front, rfl, haccepted, hbinds⟩ := hoperand.sound _ _ _ hleft
    obtain ⟨back, rfl, hall, hbindsall⟩ :=
      extend_sound hops hoperand after.length after (Nat.le_refl _) front left e rest haccepted
        (hbinds.mono (Nat.le_succ _)) hafter
    exact ⟨front ++ back, by simp, hall, hbindsall⟩
  complete := by
    intro front e rest haccepted hbinds hstop
    have hstop' : StopsBelow (strength + 1) rest := by
      intro op span more heq
      exact Nat.lt_succ_of_lt (hstop op span more heq)
    apply level_gives_extend hops hoperand e front rest rest e haccepted hbinds hstop'
    rw [extend_of_stop]
    · exact ⟨rfl, rfl⟩
    · intro op span more heq hop
      exact absurd ((hops op).1 hop) (Nat.ne_of_lt (hstop op span more heq))

end

/-! ### The ladder -/

/-- Each group of the ladder holds the operators of one precedence: the first those of the least,
and so on. -/
theorem mem_ladder (i : Fin 6) (op : Operator) :
    op ∈ Operator.ladder[i] ↔ op.precedence = i.val + 1 := by
  revert i
  cases op <;> decide

/-- **Expressions.** If a reader reads exactly the accepted operands, then `expression` reads
exactly the accepted trees. -/
theorem exact_expression {names : Text → Bool} {room : Nat} {operand : OperandReader}
    (h : Exact names room 7 operand) : Exact names room 1 (expression operand) :=
  exact_level (mem_ladder 0) <| exact_level (mem_ladder 1) <| exact_level (mem_ladder 2) <|
    exact_level (mem_ladder 3) <| exact_level (mem_ladder 4) <| exact_level (mem_ladder 5) h

end Assertions
