import Assertions.Expr
import Assertions.Nesting.Arguments
import Assertions.Token.Reading

/-!
# Reading expressions

An expression is an operand, or several operands with binary operators between them. An operand is
a token, a signed number, a call or an expression in brackets.

Readers take tokens from the front of a list and say in their type what is left: an `Outcome` holds
the result and the tokens that were not read, with a proof that these are the end of a given list.
A reader of operands leaves the end of what follows the first token, so it always gets on.

Brackets and calls use up `room`. A bracket that opens with no room left is an error, and so are
the brackets of a call. The arguments of a call are texts, which are tokenized and read on their
own with less room, and that is what the recursion of `operand` goes by.
-/

namespace Assertions

/-- A result of reading, and the tokens after it, which are the end of `bound`. They are known also
when there is no result. -/
structure Outcome (α : Type u) (bound : List PlacedToken) where
  result : Except Fault α
  rest : List PlacedToken
  isSuffix : rest <:+ bound

namespace Outcome

variable {α : Type u} {bound wider : List PlacedToken}

/-- The same outcome with respect to a longer list. -/
def widen (outcome : Outcome α bound) (h : bound <:+ wider) : Outcome α wider :=
  ⟨outcome.result, outcome.rest, outcome.isSuffix.trans h⟩

/-- A result that leaves all of `bound`. -/
def done (value : α) : Outcome α bound := ⟨.ok value, bound, List.suffix_refl _⟩

/-- An error that leaves all of `bound`. -/
def fail (cause : Cause) (span : Span) : Outcome α bound :=
  ⟨.error ⟨cause, span⟩, bound, List.suffix_refl _⟩

end Outcome

/-- A reader of operands. It reads the first token of a list that is not empty. -/
abbrev OperandReader := (tokens : List PlacedToken) → Outcome Expr tokens.tail

/-- The end of what follows a token is the end of the list that the token starts. -/
theorem suffix_cons_of_tail {rest more : List PlacedToken} (token : PlacedToken)
    (h : rest <:+ more.tail) : rest <:+ token :: more :=
  (h.trans (List.tail_suffix more)).trans (List.suffix_cons token more)

/-- Operators of `ops` at the front of the tokens, each with an operand after it, put on `left` one
after the other. -/
def extend (ops : List Operator) (operand : OperandReader) (left : Expr)
    (tokens : List PlacedToken) : Outcome Expr tokens :=
  match tokens with
  | ⟨.operator op, span⟩ :: more =>
    if ops.contains op then
      match operand more with
      | ⟨.error fault, rest, h⟩ => ⟨.error fault, rest, suffix_cons_of_tail _ h⟩
      | ⟨.ok right, rest, h⟩ =>
        (extend ops operand (.binary op left right) rest).widen (suffix_cons_of_tail _ h)
    else .done left
  | _ => .done left
termination_by tokens.length
decreasing_by
  have := (h.trans (List.tail_suffix more)).length_le
  simp only [List.length_cons]
  omega

/-- Operands with operators of `ops` between them, at the front of the tokens. They group to the
left. -/
def level (ops : List Operator) (operand : OperandReader) : OperandReader := fun tokens =>
  match operand tokens with
  | ⟨.error fault, rest, h⟩ => ⟨.error fault, rest, h⟩
  | ⟨.ok left, rest, h⟩ => (extend ops operand left rest).widen h

/-- An expression at the front of the tokens: the operands of each group of operators are what the
next group makes up, and those of the last group are operands by themselves. -/
def expression (operand : OperandReader) : OperandReader := Operator.ladder.foldr level operand

/-- The position after the last token. -/
def endOf (tokens : List PlacedToken) : Nat := (tokens.getLast?.map (·.span.stop)).getD 0

/-- The expression that all the tokens make up. The reader of operands is given the position after
the last token, for operands that are missing there. -/
def complete (operandUpTo : (stop : Nat) → OperandReader) (tokens : List PlacedToken) :
    Except Fault Expr :=
  match tokens with
  | [] => .error ⟨.emptyExpression, ⟨0, 0⟩⟩
  | first :: others =>
    match expression (operandUpTo (endOf (first :: others))) (first :: others) with
    | ⟨.error fault, _, _⟩ => .error fault
    | ⟨.ok e, [], _⟩ => .ok e
    | ⟨.ok _, ⟨.closeBracket, span⟩ :: _, _⟩ => .error ⟨.strayClose, span⟩
    | ⟨.ok _, ⟨token, span⟩ :: _, _⟩ => .error ⟨.strayToken token, span⟩

/-- The expression that a condensed text at position `offset` holds. -/
def fragment (operandUpTo : (stop : Nat) → OperandReader) (names : Text → Bool) (offset : Nat)
    (text : Text) : Except Fault Expr :=
  match tokenize names offset text with
  | .error fault => .error fault
  | .ok tokens => complete operandUpTo tokens

/-- A text is cut into tokens, and then they are read. -/
theorem fragment_eq_bind (operandUpTo : (stop : Nat) → OperandReader) (names : Text → Bool)
    (offset : Nat) (text : Text) :
    fragment operandUpTo names offset text =
      (tokenize names offset text).bind (complete operandUpTo) := by
  unfold fragment
  cases tokenize names offset text <;> rfl

/-- The arguments in an argument list at position `offset`, each read as a text of its own. The
first fault in the order of the arguments counts. -/
def arguments (readText : (offset : Nat) → Text → Except Fault Expr) (name : Text)
    (offset : Nat) : List (Nat × Text) → Except Fault (List Expr)
  | [] => .ok []
  | (start, text) :: others =>
    let at' := offset + start
    if text.isEmpty then .error ⟨.emptyArgument name, ⟨at', at'⟩⟩
    else
      match readText at' text with
      | .error fault => .error fault
      | .ok e =>
        match arguments readText name offset others with
        | .error fault => .error fault
        | .ok es => .ok (e :: es)

/-- The first argument is read, and then the others. -/
theorem arguments_cons (readText : (offset : Nat) → Text → Except Fault Expr) (name : Text)
    (offset start : Nat) {text : Text} (htext : text ≠ []) (others : List (Nat × Text)) :
    arguments readText name offset ((start, text) :: others) =
      (readText (offset + start) text).bind fun e =>
        (arguments readText name offset others).map (e :: ·) := by
  rw [arguments, if_neg (by simpa using htext)]
  cases readText (offset + start) text with
  | error fault => rfl
  | ok e =>
    show (match arguments readText name offset others with
      | .error fault => _
      | .ok es => _) = Except.map _ _
    cases arguments readText name offset others <;> rfl

/-- A number with an operator in front of it as its sign. -/
def Operator.signed (op : Operator) (value : Float) : Float :=
  if op == .sub then -value else value

/-- The operand that starts with an operator at `sign`. It has to be a signed number. -/
def signedNumber (op : Operator) (sign : Span) (tokens : List PlacedToken) :
    Outcome Expr tokens :=
  match tokens with
  | ⟨.number value, digits⟩ :: more =>
    if op.isSign then
      ⟨.ok (.number ⟨sign.start, digits.stop⟩ (op.signed value)), more, List.suffix_cons _ _⟩
    else .fail (.operatorForOperand op) sign
  | _ => .fail (.operatorForOperand op) sign

/-- The group that a bracket at `opening` starts, given what was read after it. The token after the
expression is passed over also when it does not close the group. -/
def closeGroup (opening : Span) {bound : List PlacedToken} (inner : Outcome Expr bound) :
    Outcome Expr bound :=
  match inner with
  | ⟨.error fault, rest, h⟩ => ⟨.error fault, rest, h⟩
  | ⟨.ok _, [], h⟩ => ⟨.error ⟨.openGroup, opening⟩, [], h⟩
  | ⟨.ok e, ⟨token, span⟩ :: more, h⟩ =>
    match token with
    | .closeBracket =>
      ⟨.ok (.group ⟨opening.start, span.stop⟩ e), more, (List.suffix_cons _ _).trans h⟩
    | _ => ⟨.error ⟨.openGroup, opening⟩, more, (List.suffix_cons _ _).trans h⟩

/-- The operand at the front of the tokens, with at most `room` brackets and calls inside each
other. `stop` is the position after the last token. -/
def operand (names : Text → Bool) : (room stop : Nat) → OperandReader
  | _, stop, [] => .fail .endOfExpression ⟨stop, stop⟩
  | _, _, ⟨.ref side path, span⟩ :: _ => .done (.ref span side path)
  | _, _, ⟨.string content, span⟩ :: _ => .done (.string span content)
  | _, _, ⟨.number value, span⟩ :: _ => .done (.number span value)
  | _, _, ⟨.statement name, span⟩ :: _ => .done (.statement span name)
  | 0, _, ⟨.call .., span⟩ :: _ => .fail .tooDeep span
  | room + 1, _, ⟨.call name args argsAt, span⟩ :: rest =>
    match arguments (fragment (operand names room) names) name argsAt (splitArguments args) with
    | .error fault => ⟨.error fault, rest, List.suffix_refl _⟩
    | .ok args => .done (.call span name args)
  | _, _, ⟨.operator op, span⟩ :: rest => signedNumber op span rest
  | 0, _, ⟨.openBracket, span⟩ :: _ => .fail .tooDeep span
  | room + 1, stop, ⟨.openBracket, span⟩ :: rest =>
    (closeGroup span (expression (operand names room stop) rest)).widen (List.tail_suffix rest)
  | _, _, ⟨.closeBracket, span⟩ :: _ => .fail .strayClose span

/-! ### Whole texts -/

/-- The room inside `depth` brackets and calls. -/
def roomAt (depth : Nat) : Nat := maxNesting - depth

/-- The expression that all the tokens make up. -/
def Expr.ofTokens (names : Text → Bool) (tokens : List PlacedToken) : Except Fault Expr :=
  complete (operand names (roomAt 0)) tokens

/-- The expression that a condensed text at position `offset` holds, inside `depth` brackets and
calls. -/
def Expr.ofFragment (names : Text → Bool) (depth offset : Nat) (text : Text) :
    Except Fault Expr :=
  fragment (operand names (roomAt depth)) names offset text

/-- The expression that a text holds. Spans are positions in the condensed text. -/
def Expr.ofText (names : Text → Bool) (source : Text) : Except Fault Expr :=
  Expr.ofFragment names 0 0 (condense source)

/-- The tokens of a text, without its blanks outside literals. -/
def lex (names : Text → Bool) (source : Text) : Except Fault (Text × List PlacedToken) :=
  let normalized := condense source
  match tokenize names 0 normalized with
  | .error fault => .error fault
  | .ok tokens => .ok (normalized, tokens)

theorem lex_eq_map (names : Text → Bool) (source : Text) :
    lex names source = (tokenize names 0 (condense source)).map (condense source, ·) := by
  unfold lex
  cases h : tokenize names 0 (condense source) <;> simp only [h] <;> rfl

end Assertions
