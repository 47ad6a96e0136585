import Assertions.Proofs.FaultSpans
import Assertions.Proofs.Limited
import Assertions.Proofs.Openings
import Assertions.Proofs.Tiling

/-!
# Reading without a limit on the nesting

Every bracket and every call that is read inside another one takes up some of the tokens or of an
argument list, so there is an amount of room, `weight`, that tokens cannot use up.
`unlimitedOperand` reads with more than that. It goes by the rules of `operand` without the one for
brackets and calls that find no room left, and no other reader does (`eq_unlimitedOperand_iff`).
These rules are `operandStep`, in which what stands inside brackets is read by a reader that is
given.

`operand_limited` compares readers with different amounts of room, by induction on the room.
-/

namespace Assertions

variable {names : Text → Bool}

/-! ### Rules without a limit -/

/-- The operand at the front of the tokens, where `inner` reads operands in groups and in
arguments. -/
def operandStep (names : Text → Bool) (inner : (stop : Nat) → OperandReader) (stop : Nat) :
    OperandReader
  | [] => .fail .endOfExpression ⟨stop, stop⟩
  | ⟨.ref side path, span⟩ :: _ => .done (.ref span side path)
  | ⟨.string content, span⟩ :: _ => .done (.string span content)
  | ⟨.number value, span⟩ :: _ => .done (.number span value)
  | ⟨.statement name, span⟩ :: _ => .done (.statement span name)
  | ⟨.call name args argsAt, span⟩ :: rest =>
    match arguments (fragment inner names) name argsAt (splitArguments args) with
    | .error fault => ⟨.error fault, rest, List.suffix_refl _⟩
    | .ok args => .done (.call span name args)
  | ⟨.operator op, span⟩ :: rest => signedNumber op span rest
  | ⟨.openBracket, span⟩ :: rest =>
    (closeGroup span (expression (inner stop) rest)).widen (List.tail_suffix rest)
  | ⟨.closeBracket, span⟩ :: _ => .fail .strayClose span

/-- With room left the limit makes no difference. -/
theorem operand_succ (names : Text → Bool) (room stop : Nat) (tokens : List PlacedToken) :
    operand names (room + 1) stop tokens = operandStep names (operand names room) stop tokens := by
  cases tokens with
  | nil => rfl
  | cons first rest =>
    obtain ⟨token, span⟩ := first
    cases token <;> rfl

section

variable {room stop : Nat} {span : Span} {rest : List PlacedToken}

theorem operand_nil :
    operand names room stop [] = .fail .endOfExpression ⟨stop, stop⟩ := by
  cases room <;> rfl

theorem operand_operator {op : Operator} :
    operand names room stop (⟨.operator op, span⟩ :: rest) = signedNumber op span rest := by
  cases room <;> rfl

theorem operand_closeBracket :
    operand names room stop (⟨.closeBracket, span⟩ :: rest) = .fail .strayClose span := by
  cases room <;> rfl

end

/-! ### Weight -/

/-- The brackets and calls inside each other that a token may lead to: one for a bracket, and for a
call also those in its arguments. -/
def Token.weight : Token → Nat
  | .openBracket => 1
  | .call _ args _ => args.length + 1
  | _ => 0

/-- The brackets and calls inside each other that there may be in tokens. -/
def weight : List PlacedToken → Nat
  | [] => 0
  | first :: others => first.token.weight + weight others

@[simp] theorem weight_cons (first : PlacedToken) (others : List PlacedToken) :
    weight (first :: others) = first.token.weight + weight others :=
  rfl

theorem weight_le_of_suffix {more tokens : List PlacedToken} (h : more <:+ tokens) :
    weight more ≤ weight tokens := by
  obtain ⟨front, rfl⟩ := h
  induction front with
  | nil => exact Nat.le_refl _
  | cons first others ih =>
    rw [List.cons_append, weight_cons]
    exact Nat.le_trans ih (Nat.le_add_left _ _)

/-- Whether every opening bracket takes up one position, as it does in a text. -/
def HasNarrowBrackets (tokens : List PlacedToken) : Prop :=
  ∀ placed ∈ tokens, placed.token = .openBracket → placed.span.stop = placed.span.start + 1

theorem HasNarrowBrackets.of_suffix {more tokens : List PlacedToken} (h : HasNarrowBrackets tokens)
    (hmore : more <:+ tokens) : HasNarrowBrackets more :=
  fun placed hmem => h placed (hmore.subset hmem)

theorem IsLexeme.weight_le {offset : Nat} {token : Token} {text : Text}
    (h : IsLexeme names offset token text) : token.weight ≤ text.length := by
  cases h with
  | call =>
    simp only [Token.weight, List.length_append, List.length_cons]
    omega
  | openBracket => exact Nat.le_refl 1
  | _ => exact Nat.zero_le _

/-- The tokens of a text weigh no more than it has characters, and its brackets are narrow. -/
theorem Reads.weight_le {offset : Nat} {text rest : Text} {tokens : List PlacedToken}
    (h : Reads names offset text tokens rest) :
    weight tokens ≤ text.length ∧ HasNarrowBrackets tokens := by
  induction h with
  | done offset text => exact ⟨Nat.zero_le _, List.forall_mem_nil _⟩
  | next hread h ih =>
    rename_i offset text rest lexeme tokens
    obtain ⟨htext, hlexeme⟩ := Token.isLexeme_read hread
    obtain ⟨hweight, hnarrow⟩ := ih
    have hfirst := hlexeme.weight_le
    constructor
    · rw [htext, List.length_append, weight_cons]
      exact Nat.add_le_add hfirst hweight
    · refine List.forall_mem_cons.2 ⟨?_, hnarrow⟩
      intro (htoken : lexeme.token = .openBracket)
      have hspelled : lexeme.token.toText = lexeme.text :=
        hlexeme.toText_eq (by rw [htoken]; exact nofun)
      have hone : Text.size lexeme.text = 1 := by
        rw [← hspelled, htoken]
        rfl
      show offset + Text.size lexeme.text = offset + 1
      rw [hone]

theorem length_le_of_mem_splitArguments {args text : Text} {start : Nat}
    (h : (start, text) ∈ splitArguments args) : text.length ≤ args.length := by
  unfold splitArguments at h
  split at h
  · cases h
  · obtain ⟨before, after, hargs, -⟩ := exists_of_mem_placed h
    rw [joinCommas_pieces] at hargs
    rw [hargs, List.length_append, List.length_append]
    omega

/-! ### Less and more room -/

/-- Whether a search in an expression goes on with another one inside groups and calls, and in the
operands of operators with itself. -/
structure Descends (deep? inner? : Expr → Option Span) : Prop where
  leaf : ∀ e, e.children = [] → deep? e = none
  call : ∀ span name args, deep? (.call span name args) = args.findSome? inner?
  group : ∀ span e, deep? (.group span e) = inner? e

/-- A step is limited if what it reads inside a group or in arguments is. -/
theorem operandStep_limited {deep? inner? : Expr → Option Span} {overfull narrow : Prop}
    {reader free : Nat → OperandReader} {stop : Nat} {tokens : List PlacedToken}
    (hdeep : Descends deep? inner?)
    (hcall : ∀ name args argsAt span rest, tokens = ⟨.call name args argsAt, span⟩ :: rest →
      Limited (List.findSome? inner?) overfull narrow
        (arguments (fragment reader names) name argsAt (splitArguments args))
        (arguments (fragment free names) name argsAt (splitArguments args)))
    (hgroup : ∀ span rest, tokens = ⟨.openBracket, span⟩ :: rest →
      (expression (reader stop) rest).Limited inner? overfull narrow
        (expression (free stop) rest)) :
    (operandStep names reader stop tokens).Limited deep? overfull narrow
      (operandStep names free stop tokens) := by
  cases tokens with
  | nil => exact .error rfl
  | cons first rest =>
    obtain ⟨token, span⟩ := first
    cases token with
    | ref | string | number | statement => exact .done (hdeep.leaf _ rfl)
    | closeBracket => exact .error rfl
    | operator op =>
      refine .inl ⟨rfl, ?_⟩
      intro e he
      obtain ⟨-, value, digits, -, rfl⟩ := signedNumber_gives_iff.1 ⟨he, rfl⟩
      exact hdeep.leaf _ rfl
    | openBracket =>
      exact (closeGroup_limited span hdeep.group (hgroup span rest rfl)).widen
        (List.tail_suffix rest)
    | call name args argsAt =>
      simp only [operandStep]
      rcases hcall name args argsAt span rest rfl with ⟨heq, hnone⟩ | hstops
      · rw [heq]
        cases hfree : arguments (fragment free names) name argsAt (splitArguments args) with
        | error fault => exact .error rfl
        | ok es => exact .done ((hdeep.call span name es).trans (hnone es hfree))
      · refine .inr (hstops.lift ?_ ?_)
        · intro fault herror
          rw [herror]
        · intro e he
          cases hfree : arguments (fragment free names) name argsAt (splitArguments args) with
          | error fault =>
            rw [hfree] at he
            cases he
          | ok es =>
            rw [hfree] at he
            cases he
            exact ⟨es, rfl, fun at' hat => (hdeep.call span name es).trans hat⟩

theorem descends_tooDeep? (room : Nat) :
    Descends (Expr.tooDeep? (room + 1)) (Expr.tooDeep? room) where
  leaf _ he := Expr.tooDeep?_eq_none_iff.2
    (Nat.le_trans (Expr.nesting_le_one_of_children_eq_nil he) (Nat.le_add_left 1 room))
  call := Expr.tooDeep?_call_succ room
  group := Expr.tooDeep?_group_succ room

/-- The search that never finds anything. -/
def nowhere? (_ : Expr) : Option Span := none

theorem descends_nowhere? : Descends nowhere? nowhere? where
  leaf _ _ := rfl
  call _ _ _ := (List.findSome?_eq_none_iff.2 fun _ _ => rfl).symm
  group _ _ := rfl

/-- Readers of operands give limited arguments if they do so for tokens that weigh no more than the
argument list is long. -/
theorem arguments_limited_of_weight {deep? : Expr → Option Span} {overfull : Prop}
    {reader free : Nat → OperandReader} {args : Text}
    (hbinary : ∀ op left right, deep? (.binary op left right) = (deep? left).or (deep? right))
    (h : ∀ stop tokens, weight tokens ≤ args.length → HasNarrowBrackets tokens →
      (reader stop tokens).Limited deep? overfull True (free stop tokens))
    (name : Text) (argsAt : Nat) :
    Limited (List.findSome? deep?) overfull True
      (arguments (fragment reader names) name argsAt (splitArguments args))
      (arguments (fragment free names) name argsAt (splitArguments args)) := by
  refine arguments_limited ?_ name argsAt
  rintro ⟨start, text⟩ hpiece offset
  refine fragment_limited hbinary ?_
  intro tokens htokens stop more hmore
  obtain ⟨hweight, hnarrow⟩ := (tokenizeWithin_eq_ok_iff.1 htokens).1.weight_le
  have hlength : (start, text).2.length ≤ args.length := length_le_of_mem_splitArguments hpiece
  have hsuffix := weight_le_of_suffix hmore
  exact h stop more (by omega) (hnarrow.of_suffix hmore)

/-- **Room.** An operand that is read with less room is the same as with more, and nothing in it is
too deep, or reading stops at the first group or call that is. The induction is on the lesser
room. -/
theorem operand_limited (names : Text → Bool) (room : Nat) :
    ∀ (ample : Nat), room ≤ ample → ∀ (stop : Nat) (tokens : List PlacedToken),
      (operand names room stop tokens).Limited (Expr.tooDeep? room) (room < weight tokens)
        (HasNarrowBrackets tokens) (operand names ample stop tokens) := by
  induction room with
  | zero =>
    intro ample _ stop tokens
    cases tokens with
    | nil =>
      rw [operand_nil, operand_nil]
      exact .error rfl
    | cons first rest =>
      obtain ⟨token, span⟩ := first
      cases token with
      | ref =>
        rw [operand_ref, operand_ref]
        exact .done rfl
      | string =>
        rw [operand_string, operand_string]
        exact .done rfl
      | number =>
        rw [operand_number, operand_number]
        exact .done rfl
      | statement =>
        rw [operand_statement, operand_statement]
        exact .done rfl
      | closeBracket =>
        rw [operand_closeBracket, operand_closeBracket]
        exact .error rfl
      | operator op =>
        rw [operand_operator, operand_operator]
        refine .inl ⟨rfl, ?_⟩
        intro e he
        obtain ⟨-, value, digits, -, rfl⟩ := signedNumber_gives_iff.1 ⟨he, rfl⟩
        rfl
      | openBracket =>
        refine .inr ⟨?_, span, rfl, ?_⟩
        · simp only [weight_cons, Token.weight]
          omega
        · intro e he
          obtain ⟨inner, body, closing, -, -, rfl⟩ := operand_openBracket_gives_iff.1 ⟨he, rfl⟩
          refine ⟨_, Expr.tooDeep?_group_zero _ body, ?_⟩
          intro hnarrow
          have hwidth : span.stop = span.start + 1 := hnarrow _ List.mem_cons_self rfl
          rw [← hwidth]
      | call name args argsAt =>
        refine .inr ⟨?_, span, rfl, ?_⟩
        · simp only [weight_cons, Token.weight]
          omega
        · intro e he
          obtain ⟨inner, es, -, -, rfl, -⟩ := operand_call_gives_iff.1 ⟨he, rfl⟩
          exact ⟨span, Expr.tooDeep?_call_zero span name es, fun _ => rfl⟩
  | succ room ih =>
    intro ample hample stop tokens
    obtain ⟨more, rfl⟩ : ∃ more, ample = more + 1 := ⟨ample - 1, by omega⟩
    have hroom := ih more (Nat.le_of_succ_le_succ hample)
    have hbinary := Expr.tooDeep?_binary room
    rw [operand_succ, operand_succ]
    refine operandStep_limited (descends_tooDeep? room) ?_ ?_
    · rintro name args argsAt span rest rfl
      have hargs : Limited (List.findSome? (Expr.tooDeep? room)) (room < args.length) True
          (arguments (fragment (operand names room) names) name argsAt (splitArguments args))
          (arguments (fragment (operand names more) names) name argsAt (splitArguments args)) := by
        refine arguments_limited_of_weight hbinary ?_ name argsAt
        intro stop tokens hweight hnarrow
        exact (hroom stop tokens).mono (fun hlt => Nat.lt_of_lt_of_le hlt hweight) fun _ => hnarrow
      refine hargs.mono ?_ fun _ => trivial
      intro hlt
      simp only [weight_cons, Token.weight]
      omega
    · rintro span rest rfl
      refine expression_limited hbinary ?_
      intro later hlater
      have hweight := weight_le_of_suffix hlater
      refine (hroom stop later).mono ?_ ?_
      · intro hlt
        simp only [weight_cons, Token.weight]
        omega
      · intro hnarrow
        exact hnarrow.of_suffix (hlater.trans (List.suffix_cons _ _))

/-- Room that tokens cannot use up is as good as any more. -/
theorem operand_eq_of_weight_le {room ample stop : Nat} {tokens : List PlacedToken}
    (hroom : weight tokens ≤ room) (hample : weight tokens ≤ ample) :
    operand names room stop tokens = operand names ample stop tokens := by
  rcases Nat.le_total room ample with hle | hle
  · exact (operand_limited names room ample hle stop tokens).eq (Nat.not_lt.2 hroom)
  · exact ((operand_limited names ample room hle stop tokens).eq (Nat.not_lt.2 hample)).symm

/-! ### No limit -/

/-- The operand at the front of the tokens, with any number of brackets and calls inside each
other. -/
def unlimitedOperand (names : Text → Bool) (stop : Nat) : OperandReader := fun tokens =>
  operand names (weight tokens + 1) stop tokens

theorem operand_eq_unlimited {room stop : Nat} {tokens : List PlacedToken}
    (h : weight tokens ≤ room) :
    operand names room stop tokens = unlimitedOperand names stop tokens :=
  operand_eq_of_weight_le h (Nat.le_succ _)

/-- What is read by a step depends on readers for lighter tokens only. -/
theorem operandStep_congr {reader free : Nat → OperandReader} {stop : Nat}
    {tokens : List PlacedToken}
    (h : ∀ stop more, weight more < weight tokens → reader stop more = free stop more) :
    operandStep names reader stop tokens = operandStep names free stop tokens := by
  have hlimited : (operandStep names reader stop tokens).Limited nowhere? False True
      (operandStep names free stop tokens) := by
    refine operandStep_limited descends_nowhere? ?_ ?_
    · rintro name args argsAt span rest rfl
      refine arguments_limited_of_weight (fun _ _ _ => rfl) ?_ name argsAt
      intro stop more hmore _
      refine .inl ⟨h stop more ?_, fun _ _ => rfl⟩
      simp only [weight_cons, Token.weight]
      omega
    · rintro span rest rfl
      refine expression_limited (fun _ _ _ => rfl) ?_
      intro more hmore
      have hweight := weight_le_of_suffix hmore
      refine .inl ⟨h stop more ?_, fun _ _ => rfl⟩
      simp only [weight_cons, Token.weight]
      omega
  exact hlimited.eq not_false

/-- What stands inside brackets and in arguments is read without a limit as well. -/
theorem unlimitedOperand_eq (names : Text → Bool) (stop : Nat) (tokens : List PlacedToken) :
    unlimitedOperand names stop tokens =
      operandStep names (unlimitedOperand names) stop tokens := by
  rw [unlimitedOperand, operand_succ]
  exact operandStep_congr fun stop more hmore => operand_eq_unlimited (Nat.le_of_lt hmore)

/-- **No limit.** There is one reader of operands that goes by the rules of the steps at every level,
and it reads without a limit. -/
theorem eq_unlimitedOperand_iff {reader : Nat → OperandReader} :
    (∀ stop tokens, reader stop tokens = operandStep names reader stop tokens) ↔
      reader = unlimitedOperand names := by
  constructor
  · intro h
    have hlight : ∀ bound stop tokens, weight tokens < bound →
        reader stop tokens = unlimitedOperand names stop tokens := by
      intro bound
      induction bound with
      | zero =>
        intro stop tokens hlt
        exact absurd hlt (Nat.not_lt_zero _)
      | succ bound ih =>
        intro stop tokens hlt
        rw [h, unlimitedOperand_eq]
        exact operandStep_congr fun stop more hmore => ih stop more (by omega)
    funext stop tokens
    exact hlight _ stop tokens (Nat.lt_succ_self _)
  · rintro rfl
    exact unlimitedOperand_eq names

/-- A limit compared with none. -/
theorem operand_limited_unlimited (names : Text → Bool) (room stop : Nat)
    (tokens : List PlacedToken) :
    (operand names room stop tokens).Limited (Expr.tooDeep? room) (room < weight tokens)
      (HasNarrowBrackets tokens) (unlimitedOperand names stop tokens) := by
  have h := operand_limited names room (max room (weight tokens)) (Nat.le_max_left _ _) stop tokens
  rwa [operand_eq_unlimited (Nat.le_max_right _ _)] at h

end Assertions
