import Assertions.Expr.Reading
import Assertions.Proofs.Tree

/-!
# The grammar of expressions

`Yields names tokens e` says that `e` is a tree over `tokens`: read from left to right, its leaves,
operators and brackets are those tokens, and each argument of a call is in turn a tree over the
tokens of its own text. It says nothing about which operator binds its operands first. That is
`Expr.IsOrdered`, and `Accepted` puts both together with the limit on nesting.
-/

namespace Assertions

mutual

/-- A tree over tokens. -/
inductive Yields (names : Text → Bool) : List PlacedToken → Expr → Prop
  | ref (side : Side) (path : Path) (span : Span) :
    Yields names [⟨.ref side path, span⟩] (.ref span side path)
  | string (content : Text) (span : Span) :
    Yields names [⟨.string content, span⟩] (.string span content)
  | number (value : Float) (span : Span) :
    Yields names [⟨.number value, span⟩] (.number span value)
  | statement (name : Text) (span : Span) :
    Yields names [⟨.statement name, span⟩] (.statement span name)
  /-- A sign and a number are one literal, which reaches over both. A minus negates the number. -/
  | signed {op : Operator} (hsign : op.isSign = true) (sign : Span) (value : Float)
    (digits : Span) :
    Yields names [⟨.operator op, sign⟩, ⟨.number value, digits⟩]
      (.number ⟨sign.start, digits.stop⟩ (if op == .sub then -value else value))
  | call (name text : Text) (argsAt : Nat) (span : Span) {args : List Expr}
    (hargs : YieldsAll names argsAt (splitArguments text) args) :
    Yields names [⟨.call name text argsAt, span⟩] (.call span name args)
  | group (opening closing : Span) {tokens : List PlacedToken} {e : Expr}
    (h : Yields names tokens e) :
    Yields names (⟨.openBracket, opening⟩ :: tokens ++ [⟨.closeBracket, closing⟩])
      (.group ⟨opening.start, closing.stop⟩ e)
  | binary (op : Operator) (span : Span) {front back : List PlacedToken} {left right : Expr}
    (hleft : Yields names front left) (hright : Yields names back right) :
    Yields names (front ++ ⟨.operator op, span⟩ :: back) (.binary op left right)

/-- Trees over the texts of an argument list that starts at `argsAt`. No text is empty, and each is
cut into tokens by itself, which are then moved to where the text stands. -/
inductive YieldsAll (names : Text → Bool) : Nat → List (Nat × Text) → List Expr → Prop
  | nil (argsAt : Nat) : YieldsAll names argsAt [] []
  | cons {argsAt start : Nat} {text : Text} {tokens : List PlacedToken} {e : Expr}
    {others : List (Nat × Text)} {rest : List Expr} (htext : text ≠ [])
    (htokens : tokenize names 0 text = .ok tokens)
    (h : Yields names (tokens.map (·.shift (argsAt + start))) e)
    (hothers : YieldsAll names argsAt others rest) :
    YieldsAll names argsAt ((start, text) :: others) (e :: rest)

end

/-- What the reader of expressions accepts where at most `room` brackets and calls may be inside
each other. -/
structure Accepted (names : Text → Bool) (room : Nat) (tokens : List PlacedToken) (e : Expr) :
    Prop where
  yields : Yields names tokens e
  ordered : e.IsOrdered
  nesting_le : e.nesting ≤ room

end Assertions
