import Assertions.Proofs.AssertionGrammar
import Assertions.Proofs.Grouping
import Assertions.Proofs.Origin

/-!
# Added brackets

Brackets may be put around any node of a text that is read. The text with the brackets is that of a
written expression again, in which the part at the place of the node is in a group
(`Phrase.GroupedAt`), and so it is read as the tree with a group at that place. It can be too long
only where the brackets are, since the tokens of other arguments are as before, and too deep only if
the tree is.
-/

namespace Assertions

/-- The text with brackets around what a span marks, where both ends of the span are character
boundaries. -/
def Span.bracketed? (span : Span) (text : Text) : Option Text :=
  (text.takeBytes? span.start).bind fun before =>
    (span.text? text).bind fun inside =>
      (text.dropBytes? span.stop).map fun after =>
        before ++ Symbol.openBracket :: inside ++ Symbol.closeBracket :: after

theorem Span.bracketed?_append (before inside after : Text) :
    (Span.mk (Text.size before) (Text.size before + Text.size inside)).bracketed?
        (before ++ inside ++ after) =
      some (before ++ Symbol.openBracket :: inside ++ Symbol.closeBracket :: after) := by
  have htake : (before ++ inside ++ after).takeBytes? (Text.size before) = some before := by
    rw [List.append_assoc]
    exact Text.takeBytes?_append before (inside ++ after)
  have hdrop : (before ++ inside ++ after).dropBytes? (Text.size before + Text.size inside) =
      some after := by
    rw [← Text.size_append]
    exact Text.dropBytes?_append (before ++ inside) after
  rw [bracketed?, htake, text?, Text.slice?_append, hdrop]
  rfl

namespace Phrase

/-- Whether one phrase is another one with a group around the part at a place. -/
inductive GroupedAt : Place → Phrase → Phrase → Prop
  | here (p : Phrase) : GroupedAt [] p (.group p)
  | arg (name : Text) (front back : List Phrase) {rest : Place} {p p' : Phrase}
    (h : GroupedAt rest p p') :
    GroupedAt (front.length :: rest) (.call name (front ++ p :: back))
      (.call name (front ++ p' :: back))
  | left (op : Operator) (right : Phrase) {rest : Place} {p p' : Phrase}
    (h : GroupedAt rest p p') : GroupedAt (0 :: rest) (.binary op p right) (.binary op p' right)
  | right (op : Operator) (left : Phrase) {rest : Place} {p p' : Phrase}
    (h : GroupedAt rest p p') : GroupedAt (1 :: rest) (.binary op left p) (.binary op left p')
  | inner {rest : Place} {p p' : Phrase} (h : GroupedAt rest p p') :
    GroupedAt (0 :: rest) (.group p) (.group p')

/-! ### Argument lists -/

theorem length_exprs (offset : Nat) (list : List Phrase) :
    (exprs offset list).length = list.length := by
  induction list generalizing offset with
  | nil => rfl
  | cons p rest ih => rw [exprs, List.length_cons, ih, List.length_cons]

/-- What stands around one argument does not depend on it. -/
theorem exists_around (front back : List Phrase) : ∃ before after, ∀ p : Phrase,
    joinCommas (texts (front ++ p :: back)) = before ++ p.text ++ after ∧
      ∀ offset, ∃ next, exprs offset (front ++ p :: back) =
        exprs offset front ++ p.expr (offset + Text.size before) :: exprs next back := by
  induction front with
  | nil =>
    cases back with
    | nil => exact ⟨[], [], fun p => ⟨by simp [texts, joinCommas], fun offset => ⟨_, rfl⟩⟩⟩
    | cons next others =>
      exact ⟨[], Symbol.comma :: joinCommas (texts (next :: others)),
        fun p => ⟨rfl, fun offset => ⟨_, rfl⟩⟩⟩
  | cons first others ih =>
    obtain ⟨before, after, hbetween⟩ := ih
    refine ⟨first.text ++ Symbol.comma :: before, after, fun p => ⟨?_, fun offset => ?_⟩⟩
    · have hjoin : joinCommas (texts (first :: others ++ p :: back)) =
          first.text ++ Symbol.comma :: joinCommas (texts (others ++ p :: back)) := by
        cases others <;> rfl
      rw [hjoin, (hbetween p).1]
      simp only [List.append_assoc, List.cons_append]
    · obtain ⟨next, hexprs⟩ := (hbetween p).2 (offset + Text.size first.text + 1)
      have hstart : offset + Text.size first.text + 1 + Text.size before =
          offset + Text.size (first.text ++ Symbol.comma :: before) := by
        have hcomma : Symbol.comma.utf8Size = 1 := rfl
        rw [Text.size_append, Text.size_cons]
        omega
      refine ⟨next, ?_⟩
      rw [List.cons_append, exprs, hexprs, hstart]
      rfl

theorem getElem?_exprs {front back : List Phrase} {p : Phrase} {offset start next : Nat}
    (h : exprs offset (front ++ p :: back) =
      exprs offset front ++ p.expr start :: exprs next back) :
    (exprs offset (front ++ p :: back))[front.length]? = some (p.expr start) := by
  have hlength := length_exprs offset front
  rw [h, List.getElem?_append_right (by omega), hlength, Nat.sub_self]
  rfl

/-- The arguments around the one with a number. -/
theorem exists_split_of_getElem?_exprs {offset i : Nat} {args : List Phrase} {e : Expr}
    (h : (exprs offset args)[i]? = some e) :
    ∃ front p back, args = front ++ p :: back ∧ front.length = i := by
  have hlt : i < args.length := by
    rw [← length_exprs offset args]
    exact (List.getElem?_eq_some_iff.1 h).1
  obtain ⟨front, p, back, hargs, hfront, -⟩ := List.exists_of_modify id hlt
  exact ⟨front, p, back, hargs, hfront⟩

/-- Brackets can be put around the node at every place. -/
theorem exists_groupedAt {place : Place} {p : Phrase} {offset : Nat} {n : Expr}
    (h : (p.expr offset).at? place = some n) : ∃ p', GroupedAt place p p' := by
  induction place generalizing p offset with
  | nil => exact ⟨.group p, .here p⟩
  | cons i rest ih =>
    obtain ⟨child, hchild, hn⟩ := Expr.at?_cons_eq_some_iff.1 h
    cases p with
    | ref | string | number | statement => cases hchild
    | call name args =>
      have hargs : (exprs (offset + Text.size name + 1) args)[i]? = some child := hchild
      obtain ⟨front, p, back, rfl, rfl⟩ := exists_split_of_getElem?_exprs hargs
      obtain ⟨before, after, haround⟩ := exists_around front back
      obtain ⟨next, hexprs⟩ := (haround p).2 (offset + Text.size name + 1)
      rw [getElem?_exprs hexprs] at hargs
      cases hargs
      obtain ⟨p', hp⟩ := ih hn
      exact ⟨_, .arg name front back hp⟩
    | binary op left right =>
      match i with
      | 0 =>
        cases hchild
        obtain ⟨left', hleft⟩ := ih hn
        exact ⟨_, .left op right hleft⟩
      | 1 =>
        cases hchild
        obtain ⟨right', hright⟩ := ih hn
        exact ⟨_, .right op left hright⟩
      | _ + 2 => cases hchild
    | group inner =>
      match i with
      | 0 =>
        cases hchild
        obtain ⟨inner', hinner⟩ := ih hn
        exact ⟨_, .inner hinner⟩
      | _ + 1 => cases hchild

/-! ### Texts -/

/-- Whether the text of one phrase is that of another one with brackets around the text of the
part at a place. -/
def BracketsAt (place : Place) (p p' : Phrase) : Prop :=
  ∃ (part : Phrase) (before after : Text),
    (∀ offset, (p.expr offset).at? place = some (part.expr (offset + Text.size before))) ∧
    p.text = before ++ part.text ++ after ∧
    p'.text = before ++ Symbol.openBracket :: part.text ++ Symbol.closeBracket :: after

/-- Brackets in a part stand in the whole where they stand in the part, behind what comes before
it. -/
theorem BracketsAt.of_part (outer beyond : Text) {i : Nat} {rest : Place} {p p' q q' : Phrase}
    (hat : ∀ offset n, (p.expr (offset + Text.size outer)).at? rest = some n →
      (q.expr offset).at? (i :: rest) = some n)
    (htext : q.text = outer ++ p.text ++ beyond) (htext' : q'.text = outer ++ p'.text ++ beyond)
    (h : BracketsAt rest p p') : BracketsAt (i :: rest) q q' := by
  obtain ⟨part, before, after, hpart, hp, hp'⟩ := h
  refine ⟨part, outer ++ before, after ++ beyond, fun offset => ?_, ?_, ?_⟩
  · rw [Text.size_append, ← Nat.add_assoc]
    exact hat offset _ (hpart _)
  · rw [htext, hp]
    simp
  · rw [htext', hp']
    simp

/-- A phrase with a group has brackets around the text of the node. -/
theorem GroupedAt.bracketsAt {place : Place} {p p' : Phrase} (h : GroupedAt place p p') :
    BracketsAt place p p' := by
  induction h with
  | here p => exact ⟨p, [], [], fun _ => rfl, (List.append_nil _).symm, rfl⟩
  | arg name front back _ ih =>
    rename_i rest p p' _
    obtain ⟨before, after, haround⟩ := exists_around front back
    refine ih.of_part (name ++ Symbol.openBracket :: before) (after ++ [Symbol.closeBracket])
      ?_ ?_ ?_
    · intro offset n hn
      obtain ⟨next, hexprs⟩ := (haround p).2 (offset + Text.size name + 1)
      have hbracket : Symbol.openBracket.utf8Size = 1 := rfl
      have hstart : offset + Text.size (name ++ Symbol.openBracket :: before) =
          offset + Text.size name + 1 + Text.size before := by
        rw [Text.size_append, Text.size_cons]
        omega
      rw [hstart] at hn
      exact Expr.at?_cons_eq_some_iff.2 ⟨_, getElem?_exprs hexprs, hn⟩
    · rw [text, (haround p).1]
      simp
    · rw [text, (haround p').1]
      simp
  | left op right _ ih =>
    refine ih.of_part [] (op.spelling ++ right.text) (fun _ _ hn => hn) ?_ ?_
    · rw [text, List.append_assoc, List.nil_append]
    · rw [text, List.append_assoc, List.nil_append]
  | right op left _ ih =>
    refine ih.of_part (left.text ++ op.spelling) [] ?_ ?_ ?_
    · intro offset n hn
      rw [Text.size_append, ← Nat.add_assoc] at hn
      exact hn
    · rw [text, List.append_nil]
    · rw [text, List.append_nil]
  | inner _ ih =>
    exact ih.of_part [Symbol.openBracket] [Symbol.closeBracket] (fun _ _ hn => hn) rfl rfl

/-! ### Trees -/

theorem bare_expr (p : Phrase) (a b : Nat) : (p.expr a).bare = (p.expr b).bare := by
  have hmoved : ∀ offset, (p.expr offset).bare = (p.expr 0).bare := by
    intro offset
    rw [← Nat.zero_add offset, ← shift_expr, Expr.bare_shift]
  rw [hmoved a, hmoved b]

theorem map_bare_exprs (list : List Phrase) (a b : Nat) :
    (exprs a list).map Expr.bare = (exprs b list).map Expr.bare := by
  induction list generalizing a b with
  | nil => rfl
  | cons p rest ih => rw [exprs, exprs, List.map_cons, List.map_cons, bare_expr p a b, ih]

/-- The tree of the phrase with the brackets is the tree with the group, but for spans. -/
theorem GroupedAt.bare_expr_eq {place : Place} {p p' : Phrase} (h : GroupedAt place p p')
    (offset : Nat) : (p'.expr offset).bare = ((p.expr offset).groupAt place).bare := by
  induction h generalizing offset with
  | here p =>
    show Expr.group ⟨0, 0⟩ (p.expr (offset + 1)).bare = Expr.group ⟨0, 0⟩ (p.expr offset).bare
    rw [bare_expr p (offset + 1) offset]
  | arg name front back _ ih =>
    rename_i rest p p' _
    obtain ⟨before, after, haround⟩ := exists_around front back
    obtain ⟨next, hexprs⟩ := (haround p).2 (offset + Text.size name + 1)
    obtain ⟨next', hexprs'⟩ := (haround p').2 (offset + Text.size name + 1)
    have hlength := length_exprs (offset + Text.size name + 1) front
    have hmodify : (exprs (offset + Text.size name + 1) (front ++ p :: back)).modify front.length
        (Expr.groupAt · rest) = exprs (offset + Text.size name + 1) front ++
          (p.expr (offset + Text.size name + 1 + Text.size before)).groupAt rest ::
            exprs next back := by
      rw [hexprs, ← hlength, List.modify_eq_take_drop, List.take_left, List.drop_left]
      rfl
    rw [expr, expr, Expr.groupAt, Expr.bare_call, Expr.bare_call, hmodify, hexprs', List.map_append,
      List.map_append, List.map_cons, List.map_cons, ih, map_bare_exprs back next' next]
  | left op right _ ih =>
    rw [expr, expr, Expr.groupAt, Expr.bare_binary, Expr.bare_binary, ih, bare_expr right]
  | right op left _ ih =>
    rw [expr, expr, Expr.groupAt, Expr.bare_binary, Expr.bare_binary, ih]
  | inner _ ih =>
    rw [expr, expr, Expr.groupAt, Expr.bare_group, Expr.bare_group, ih]

/-! ### Tokens -/

/-- Whether brackets at a place add to the tokens of the whole phrase, as the node is in no
argument. -/
structure WidensWhole (names : Text → Bool) (place : Place) (p p' : Phrase) : Prop where
  fragmentAt_eq : ∀ whole offset, Expr.fragmentAt whole (p.expr offset) place = whole
  tokenCount_eq : p'.tokenCount = p.tokenCount + 2
  isSpelled : p'.IsSpelled names

/-- Whether brackets at a place add to the tokens of an argument, which stands at a position of the
phrase. -/
structure WidensArgument (names : Text → Bool) (place : Place) (p p' argument : Phrase)
    (start : Nat) : Prop where
  fragmentAt_eq : ∀ whole offset,
    Expr.fragmentAt whole (p.expr offset) place = argument.expr (offset + start)
  standsAt : StandsAt argument.text start p.text
  argument_isSpelled : argument.IsSpelled names
  argument_le : argument.tokenCount ≤ maxTokens
  tokenCount_eq : p'.tokenCount = p.tokenCount
  isSpelled : argument.tokenCount + 2 ≤ maxTokens → p'.IsSpelled names

/-- Brackets at a place add to the tokens of the phrase or of one argument. -/
def Widens (names : Text → Bool) (place : Place) (p p' : Phrase) : Prop :=
  WidensWhole names place p p' ∨
    ∃ argument start, WidensArgument names place p p' argument start

variable {names : Text → Bool}

/-- Brackets in an operand or in a group add to the tokens that they add to by themselves. -/
theorem Widens.of_operand {i : Nat} {rest : Place} {p p' q q' : Phrase} {k m : Nat}
    (hfragment : ∀ whole offset, Expr.fragmentAt whole (q.expr offset) (i :: rest) =
      Expr.fragmentAt whole (p.expr (offset + k)) rest)
    (hstands : StandsAt p.text k q.text) (hcount : q.tokenCount = p.tokenCount + m)
    (hcount' : q'.tokenCount = p'.tokenCount + m)
    (hspelled : p'.IsSpelled names → q'.IsSpelled names) (h : Widens names rest p p') :
    Widens names (i :: rest) q q' := by
  rcases h with hwhole | ⟨argument, start, hargument⟩
  · refine .inl ⟨fun whole offset => ?_, ?_, hspelled hwhole.isSpelled⟩
    · rw [hfragment, hwhole.fragmentAt_eq]
    · have htokens := hwhole.tokenCount_eq
      omega
  · refine .inr ⟨argument, k + start, ?_, hargument.standsAt.trans hstands,
      hargument.argument_isSpelled, hargument.argument_le, ?_,
      fun hroom => hspelled (hargument.isSpelled hroom)⟩
    · intro whole offset
      rw [hfragment, hargument.fragmentAt_eq, Nat.add_assoc]
    · have htokens := hargument.tokenCount_eq
      omega

/-- What holds of all arguments holds of them with one replaced if it holds of the new one. -/
theorem forall_mem_replaced {P : Phrase → Prop} {front back : List Phrase} {p p' : Phrase}
    (h : ∀ arg ∈ front ++ p :: back, P arg) (hp' : P p') : ∀ arg ∈ front ++ p' :: back, P arg := by
  obtain ⟨hfront, hback⟩ := List.forall_mem_append.1 h
  exact List.forall_mem_append.2
    ⟨hfront, List.forall_mem_cons.2 ⟨hp', (List.forall_mem_cons.1 hback).2⟩⟩

/-- Brackets in an argument add to the tokens of that argument, or of one inside it. -/
theorem Widens.of_argument {name : Text} {front back : List Phrase} {rest : Place} {p p' : Phrase}
    (hcall : (call name (front ++ p :: back)).IsSpelled names) (h : Widens names rest p p') :
    Widens names (front.length :: rest) (.call name (front ++ p :: back))
      (.call name (front ++ p' :: back)) := by
  obtain ⟨before, after, haround⟩ := exists_around front back
  have hfragment : ∀ whole offset,
      Expr.fragmentAt whole ((call name (front ++ p :: back)).expr offset)
          (front.length :: rest) =
        Expr.fragmentAt (p.expr (offset + (Text.size name + 1 + Text.size before)))
          (p.expr (offset + (Text.size name + 1 + Text.size before))) rest := by
    intro whole offset
    obtain ⟨next, hexprs⟩ := (haround p).2 (offset + Text.size name + 1)
    have hget := getElem?_exprs hexprs
    rw [expr, Expr.fragmentAt, hget]
    simp only [Nat.add_assoc]
  have hstands : StandsAt p.text (Text.size name + 1 + Text.size before)
      (call name (front ++ p :: back)).text := by
    have hinside : StandsAt p.text (Text.size before) (joinCommas (texts (front ++ p :: back))) :=
      ⟨before, after, (haround p).1, rfl⟩
    exact hinside.trans (standsAt_args name _)
  cases hcall with
  | call hname hknown hargs hcounts =>
    have hspelled : p'.IsSpelled names → p'.tokenCount ≤ maxTokens →
        (call name (front ++ p' :: back)).IsSpelled names := fun hp' hcount' =>
      .call hname hknown (forall_mem_replaced hargs hp') (forall_mem_replaced hcounts hcount')
    have hmem : p ∈ front ++ p :: back := List.mem_append_right _ List.mem_cons_self
    rcases h with hwhole | ⟨argument, start, hargument⟩
    · refine .inr ⟨p, Text.size name + 1 + Text.size before, ?_, hstands, hargs p hmem,
        hcounts p hmem, rfl, fun hroom => hspelled hwhole.isSpelled ?_⟩
      · intro whole offset
        rw [hfragment, hwhole.fragmentAt_eq]
      · have htokens := hwhole.tokenCount_eq
        omega
    · refine .inr ⟨argument, Text.size name + 1 + Text.size before + start, ?_,
        hargument.standsAt.trans hstands, hargument.argument_isSpelled, hargument.argument_le, rfl,
        fun hroom => hspelled (hargument.isSpelled hroom) ?_⟩
      · intro whole offset
        rw [hfragment, hargument.fragmentAt_eq, Nat.add_assoc]
      · rw [hargument.tokenCount_eq]
        exact hcounts p hmem

/-- What brackets add to, by induction on the way to the node. -/
theorem GroupedAt.widens {place : Place} {p p' : Phrase} (h : GroupedAt place p p')
    (hp : p.IsSpelled names) : Widens names place p p' := by
  induction h with
  | here p => exact .inl ⟨fun _ _ => rfl, rfl, .group hp⟩
  | arg name front back _ ih =>
    refine .of_argument hp (ih ?_)
    cases hp with
    | call _ _ hargs _ => exact hargs _ (List.mem_append_right _ List.mem_cons_self)
  | left op right _ ih =>
    cases hp with
    | binary _ hleft hright =>
      refine .of_operand (k := 0) (m := 1 + right.tokenCount) (fun _ _ => rfl)
        (standsAt_left op _ right) ?_ ?_ (fun hleft' => .binary op hleft' hright) (ih hleft) <;>
        rw [tokenCount, Nat.add_assoc]
  | right op left _ ih =>
    cases hp with
    | binary _ hleft hright =>
      refine .of_operand (m := left.tokenCount + 1) ?_
        (standsAt_right op left _) ?_ ?_ (fun hright' => .binary op hleft hright') (ih hright)
      · intro whole offset
        rw [← Nat.add_assoc]
        rfl
      · rw [tokenCount, Nat.add_comm]
      · rw [tokenCount, Nat.add_comm]
  | inner _ ih =>
    cases hp with
    | group hinner =>
      exact .of_operand (k := 1) (m := 2) (fun _ _ => rfl) (standsAt_inner _) rfl rfl
        (fun hinner' => .group hinner') (ih hinner)

theorem length_tokens (offset : Nat) (p : Phrase) : (p.tokens offset).length = p.tokenCount := by
  induction p generalizing offset with
  | ref | string | statement | call => rfl
  | number sign digits => cases sign <;> rfl
  | binary op left right ihl ihr =>
    rw [tokens, List.length_append, List.length_cons, ihl, ihr, tokenCount]
    omega
  | group inner ih =>
    rw [tokens, List.cons_append, List.length_cons, List.length_append, ih, tokenCount]
    rfl

/-- The tokens that brackets add to are those of one part of the phrase. With room for two more of
them there, the phrase with the brackets can be written. -/
theorem Widens.exists_fragment {place : Place} {p p' : Phrase} (h : Widens names place p p')
    (hp : p.IsSpelled names) (hcount : p.tokenCount ≤ maxTokens) :
    ∃ (part : Phrase) (start : Nat),
      Expr.fragmentAt (p.expr 0) (p.expr 0) place = part.expr start ∧
      StandsAt part.text start p.text ∧ part.IsSpelled names ∧ part.tokenCount ≤ maxTokens ∧
      (part.tokenCount + 2 ≤ maxTokens → p'.IsSpelled names ∧ p'.tokenCount ≤ maxTokens) := by
  rcases h with hwhole | ⟨argument, start, hargument⟩
  · refine ⟨p, 0, hwhole.fragmentAt_eq _ _, .refl _, hp, hcount, fun hroom => ?_⟩
    rw [hwhole.tokenCount_eq]
    exact ⟨hwhole.isSpelled, hroom⟩
  · refine ⟨argument, start, ?_, hargument.standsAt, hargument.argument_isSpelled,
      hargument.argument_le, fun hroom => ?_⟩
    · rw [hargument.fragmentAt_eq, Nat.zero_add]
    · rw [hargument.tokenCount_eq]
      exact ⟨hargument.isSpelled hroom, hcount⟩

/-- The phrase with the brackets is readable if it can be written and is not too deep. -/
theorem GroupedAt.isReadable {place : Place} {p p' : Phrase} (h : GroupedAt place p p')
    (hp : p.IsReadable names) (hspelled : p'.IsSpelled names)
    (hnesting : ((p.expr 0).groupAt place).nesting ≤ maxNesting)
    (hcount : p'.tokenCount ≤ maxTokens) : p'.IsReadable names := by
  have hbare := h.bare_expr_eq 0
  have hordered := Expr.isOrdered_of_bare_eq hbare (hp.ordered.groupAt place)
  rw [← Expr.nesting_eq_of_bare_eq hbare] at hnesting
  exact ⟨hspelled, hordered, hnesting, hcount⟩

end Phrase

/-! ### Reading -/

/-- The text with brackets around a node is read as the tree with a group at the place of the node,
unless the tree is too deep then or the tokens around the node are too many. -/
theorem exists_ofText_bracketed {names : Text → Bool} {source : Text} {e n : Expr} {place : Place}
    (he : Expr.ofText names source = .ok e) (hn : e.at? place = some n) :
    ∃ bracketed fragment tokens,
      n.span.bracketed? (condense source) = some bracketed ∧
      (Expr.fragmentAt e e place).span.text? (condense source) = some fragment ∧
      tokenize names 0 fragment = .ok tokens ∧
      ((e.groupAt place).nesting ≤ maxNesting → tokens.length + 2 ≤ maxTokens →
        ∃ grouped, Expr.ofText names bracketed = .ok grouped ∧
          grouped.bare = (e.groupAt place).bare) := by
  obtain ⟨p, hp, htext, rfl⟩ := exists_phrase_of_ofText he
  obtain ⟨p', hgrouped⟩ := Phrase.exists_groupedAt hn
  obtain ⟨q, before, after, hat, hbefore, hafter⟩ := hgrouped.bracketsAt
  obtain ⟨part, start, hfragment, hstands, hpart, hparts, hroom⟩ :=
    (hgrouped.widens hp.spelled).exists_fragment hp.spelled hp.tokenCount_le
  rw [← htext, hfragment, Phrase.span_expr]
  refine ⟨p'.text, part.text, part.tokens 0, ?_, hstands.text?,
    Phrase.tokenize_text hpart hparts 0, ?_⟩
  · rw [hat, Option.some.injEq] at hn
    rw [← hn, Phrase.span_expr, hbefore, hafter, Nat.zero_add]
    exact Span.bracketed?_append before q.text after
  · intro hnesting htokens
    rw [Phrase.length_tokens] at htokens
    obtain ⟨hspelled, hcount⟩ := hroom htokens
    have hreadable := hgrouped.isReadable hp hspelled hnesting hcount
    exact ⟨p'.expr 0, hreadable.ofText_of_spaced (.refl false _), hgrouped.bare_expr_eq 0⟩

/-- **Redundant brackets.** Take a formula that is compiled and the node at any place of it, and put
brackets around what the span of the node marks in the text without blanks. Unless the expression
with a group at that place is too deep, or the tokens that are read together with the node leave no
room for two more, this text is compiled to that expression, but for its spans, and evaluates with
the same value and the same events in every world, whichever functions there are. -/
theorem exists_compile_bracketed {functions : Repertoire} {source : Text} {formula : Formula}
    (hformula : (Formula.compile functions source).result = .ok formula) :
    (∀ n ∈ formula.expr.nodes, ∃ place, formula.expr.at? place = some n) ∧
    ∀ place n, formula.expr.at? place = some n →
      ∃ bracketed fragment tokens,
        n.span.bracketed? (condense source) = some bracketed ∧
        (Expr.fragmentAt formula.expr formula.expr place).span.text? (condense source) =
          some fragment ∧
        tokenize functions.contains 0 fragment = .ok tokens ∧
        ((formula.expr.groupAt place).nesting ≤ maxNesting → tokens.length + 2 ≤ maxTokens →
          ∃ grouped, (Formula.compile functions bracketed).result = .ok grouped ∧
            grouped.expr.bare = (formula.expr.groupAt place).bare ∧
            ∀ others world,
              grouped.expr.evaluate others world = formula.expr.evaluate others world) := by
  obtain ⟨e, he, rfl⟩ := Formula.result_compile_eq_ok_iff.1 hformula
  refine ⟨fun n hn => Expr.exists_at?_of_mem_nodes hn, fun place n hn => ?_⟩
  obtain ⟨bracketed, fragment, tokens, hbracketed, hfragment, htokens, hread⟩ :=
    exists_ofText_bracketed he hn
  refine ⟨bracketed, fragment, tokens, hbracketed, hfragment, htokens, fun hnesting hroom => ?_⟩
  obtain ⟨grouped, hgrouped, hbare⟩ := hread hnesting hroom
  refine ⟨⟨bracketed, grouped, functions⟩,
    Formula.result_compile_eq_ok_iff.2 ⟨grouped, hgrouped, rfl⟩, hbare, fun others world => ?_⟩
  exact (Expr.evaluate_eq_of_bare_eq hbare).trans (Expr.evaluate_groupAt e place)

/-- Brackets around the argument of a call. -/
theorem exists_compile_bracketed_argument :
    ∃ functions : Repertoire,
      Repertoire.empty.register ['f'] (.function fun _ args => .bool args.isEmpty) =
        .ok functions ∧
      ∃ formula grouped,
        (Formula.compile functions ['f', '(', ' ', '$', 'a', ')']).result = .ok formula ∧
        (Formula.compile functions ['f', '(', '(', '$', 'a', ')', ')']).result = .ok grouped ∧
        ∀ world, grouped.expr.evaluate functions world = formula.expr.evaluate functions world := by
  obtain ⟨functions, hfunctions⟩ : ∃ functions, Repertoire.empty.register ['f']
    (.function fun _ args => .bool args.isEmpty) = .ok functions := ⟨_, rfl⟩
  have hname : functions.contains ['f'] = true := by
    rw [Repertoire.contains_of_register hfunctions]
    rfl
  have hpath : (Path.mk [['a']]).IsPlain :=
    ⟨List.forall_mem_singleton.2 (List.forall_mem_singleton.2 rfl), by decide⟩
  have hargument : (Phrase.ref .model ⟨[['a']]⟩).IsSpelled functions.contains := .ref .model hpath
  have hspelled : (Phrase.call ['f'] [.ref .model ⟨[['a']]⟩]).IsSpelled functions.contains := by
    refine .call rfl hname (List.forall_mem_singleton.2 hargument) ?_
    exact List.forall_mem_singleton.2 (by decide : 1 ≤ maxTokens)
  have hordered : ((Phrase.call ['f'] [.ref .model ⟨[['a']]⟩]).expr 0).IsOrdered := by
    refine Expr.isOrdered_call.2 (List.forall_mem_singleton.2 ?_)
    exact Expr.isOrdered_of_nodes_eq rfl nofun
  have hreadable : (Phrase.call ['f'] [.ref .model ⟨[['a']]⟩]).IsReadable functions.contains :=
    ⟨hspelled, hordered, by decide, by decide⟩
  have hread := hreadable.ofText_of_spaced
    (.keep _ (.keep _ (.blank ' ' rfl (.refl _ _))) : Spaced false _ ['f', '(', ' ', '$', 'a', ')'])
  have hformula := Formula.result_compile_eq_ok_iff.2 ⟨_, hread, rfl⟩
  obtain ⟨bracketed, fragment, tokens, hbracketed, hfragment, htokens, hgrouped⟩ :=
    (exists_compile_bracketed hformula).2 [0] (.ref ⟨2, 4⟩ .model ⟨[['a']]⟩) rfl
  cases (show some ['f', '(', '(', '$', 'a', ')', ')'] = some bracketed from hbracketed)
  cases (show some ['$', 'a'] = some fragment from hfragment)
  have hone : tokens = [⟨.ref .model ⟨[['a']]⟩, ⟨0, 2⟩⟩] := by
    have hexpected := Phrase.tokenize_text hargument (by decide) 0
    exact (Except.ok.inj (hexpected.symm.trans htokens)).symm
  obtain ⟨grouped, hcompiled, -, hevaluate⟩ := hgrouped
    (by decide : 2 ≤ maxNesting) (by rw [hone]; decide)
  exact ⟨functions, hfunctions, _, grouped, hformula, hcompiled, fun world => hevaluate _ world⟩

end Assertions
