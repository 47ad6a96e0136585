import Assertions.Expr.Reading
import Assertions.Proofs.Spelling
import Assertions.Proofs.Tree

/-!
# Written expressions

A `Phrase` is an expression as one writes it down: a number is a sign and digits instead of a value,
and no part has a position. From a phrase come

* `Phrase.text`, its text without any blanks;
* `Phrase.tokens`, the tokens of that text;
* `Phrase.expr`, its tree, in which every node has the span of its own text.

`Phrase.IsSpelled` says that names are registered, that paths, strings and numbers are written in a
way that can be read, and that no argument has more tokens than a text may have.
-/

namespace Assertions

/-- The sign in front of a number. -/
inductive Sign where
  | plus
  | minus
deriving DecidableEq, Repr

/-- The operator that a sign is written with. -/
def Sign.operator : Sign → Operator
  | .plus => .add
  | .minus => .sub

/-- An expression as it is written. -/
inductive Phrase where
  | ref (side : Side) (path : Path)
  | string (content : Text)
  | number (sign : Option Sign) (digits : Text)
  | statement (name : Text)
  | call (name : Text) (args : List Phrase)
  | binary (op : Operator) (left right : Phrase)
  | group (inner : Phrase)

namespace Phrase

/-- Induction over phrases. The arguments of a call are known one by one. -/
@[elab_as_elim, induction_eliminator]
theorem inductionOn {motive : Phrase → Prop}
    (ref : ∀ side path, motive (.ref side path))
    (string : ∀ content, motive (.string content))
    (number : ∀ sign digits, motive (.number sign digits))
    (statement : ∀ name, motive (.statement name))
    (call : ∀ name args, (∀ arg ∈ args, motive arg) → motive (.call name args))
    (binary : ∀ op left right, motive left → motive right → motive (.binary op left right))
    (group : ∀ inner, motive inner → motive (.group inner)) :
    (p : Phrase) → motive p
  | .ref side path => ref side path
  | .string content => string content
  | .number sign digits => number sign digits
  | .statement name => statement name
  | .call name args =>
    call name args fun arg _ => inductionOn ref string number statement call binary group arg
  | .binary op left right =>
    binary op left right (inductionOn ref string number statement call binary group left)
      (inductionOn ref string number statement call binary group right)
  | .group inner =>
    group inner (inductionOn ref string number statement call binary group inner)

mutual

/-- The text of a phrase. -/
def text : Phrase → Text
  | .ref side path => side.symbol :: path.toText
  | .string content => Symbol.quote :: content ++ [Symbol.quote]
  | .number none digits => digits
  | .number (some sign) digits => sign.operator.spelling ++ digits
  | .statement name => name
  | .call name args =>
    name ++ Symbol.openBracket :: joinCommas (texts args) ++ [Symbol.closeBracket]
  | .binary op left right => text left ++ op.spelling ++ text right
  | .group inner => Symbol.openBracket :: text inner ++ [Symbol.closeBracket]

/-- The texts of several phrases. -/
def texts : List Phrase → List Text
  | [] => []
  | p :: rest => text p :: texts rest

end

/-- The span of a phrase at position `offset`. -/
def spanAt (offset : Nat) (p : Phrase) : Span := ⟨offset, offset + Text.size p.text⟩

/-- The value of a number with or without a sign. -/
def value (sign : Option Sign) (digits : Text) : Float :=
  match sign with
  | none | some .plus => Decimal.literalValue digits
  | some .minus => -Decimal.literalValue digits

theorem value_some (sign : Sign) (digits : Text) :
    value (some sign) digits =
      if sign.operator == .sub then -Decimal.literalValue digits
      else Decimal.literalValue digits := by
  cases sign <;> rfl

mutual

/-- The tree of a phrase at position `offset`. -/
def expr (offset : Nat) : Phrase → Expr
  | .ref side path => .ref (spanAt offset (.ref side path)) side path
  | .string content => .string (spanAt offset (.string content)) content
  | .number sign digits => .number (spanAt offset (.number sign digits)) (value sign digits)
  | .statement name => .statement (spanAt offset (.statement name)) name
  | .call name args =>
    .call (spanAt offset (.call name args)) name (exprs (offset + Text.size name + 1) args)
  | .binary op left right =>
    .binary op (expr offset left)
      (expr (offset + Text.size left.text + Text.size op.spelling) right)
  | .group inner => .group (spanAt offset (.group inner)) (expr (offset + 1) inner)

/-- The trees of phrases from position `offset` on, with a comma after each but the last. -/
def exprs (offset : Nat) : List Phrase → List Expr
  | [] => []
  | p :: rest => expr offset p :: exprs (offset + Text.size p.text + 1) rest

end

/-- The tokens of a phrase at position `offset`. -/
def tokens (offset : Nat) : Phrase → List PlacedToken
  | .ref side path => [⟨.ref side path, spanAt offset (.ref side path)⟩]
  | .string content => [⟨.string content, spanAt offset (.string content)⟩]
  | .number none digits =>
    [⟨.number (Decimal.literalValue digits), ⟨offset, offset + Text.size digits⟩⟩]
  | .number (some sign) digits =>
    let start := offset + Text.size sign.operator.spelling
    [⟨.operator sign.operator, ⟨offset, start⟩⟩,
      ⟨.number (Decimal.literalValue digits), ⟨start, start + Text.size digits⟩⟩]
  | .statement name => [⟨.statement name, spanAt offset (.statement name)⟩]
  | .call name args =>
    [⟨.call name (joinCommas (texts args)) (offset + Text.size name + 1),
      spanAt offset (.call name args)⟩]
  | .binary op left right =>
    let start := offset + Text.size left.text
    let stop := start + Text.size op.spelling
    tokens offset left ++ ⟨.operator op, ⟨start, stop⟩⟩ :: tokens stop right
  | .group inner =>
    let stop := offset + 1 + Text.size inner.text
    ⟨.openBracket, ⟨offset, offset + 1⟩⟩ :: tokens (offset + 1) inner ++
      [⟨.closeBracket, ⟨stop, stop + 1⟩⟩]

/-- The number of tokens of a phrase. The arguments of a call do not count, as they are read apart
from it. -/
def tokenCount : Phrase → Nat
  | .ref .. | .string .. | .statement .. | .call .. => 1
  | .number none _ => 1
  | .number (some _) _ => 2
  | .binary _ left right => tokenCount left + 1 + tokenCount right
  | .group inner => tokenCount inner + 2

/-- Whether a phrase can be read with a given set of names, as far as its leaves, its names and the
number of tokens of its arguments go. -/
inductive IsSpelled (names : Text → Bool) : Phrase → Prop
  | ref (side : Side) {path : Path} (hpath : path.IsPlain) : IsSpelled names (.ref side path)
  | string {content : Text} (hquote : Symbol.quote ∉ content)
    (hforbidden : Symbol.forbidden ∉ content) : IsSpelled names (.string content)
  | number (sign : Option Sign) {digits : Text} (hdigits : IsNumeral digits) :
    IsSpelled names (.number sign digits)
  | statement {name : Text} (hname : isIdentifier name = true) (hknown : names name = true) :
    IsSpelled names (.statement name)
  | call {name : Text} {args : List Phrase} (hname : isIdentifier name = true)
    (hknown : names name = true) (hargs : ∀ arg ∈ args, IsSpelled names arg)
    (hcount : ∀ arg ∈ args, tokenCount arg ≤ maxTokens) : IsSpelled names (.call name args)
  | binary (op : Operator) {left right : Phrase} (hleft : IsSpelled names left)
    (hright : IsSpelled names right) : IsSpelled names (.binary op left right)
  | group {inner : Phrase} (hinner : IsSpelled names inner) : IsSpelled names (.group inner)

/-- A phrase that can be read: besides being spelled, its operators need no more brackets than it
has, its brackets and calls are not inside each other too often, and it has not too many tokens. -/
structure IsReadable (names : Text → Bool) (p : Phrase) : Prop where
  spelled : p.IsSpelled names
  ordered : (p.expr 0).IsOrdered
  nesting_le : (p.expr 0).nesting ≤ maxNesting
  tokenCount_le : p.tokenCount ≤ maxTokens

/-! ### Texts of spelled phrases -/

theorem texts_eq_map (list : List Phrase) : texts list = list.map text := by
  induction list with
  | nil => rfl
  | cons p rest ih => rw [texts, ih, List.map_cons]

variable {names : Text → Bool} {p : Phrase}

/-- A phrase with nothing below its root is readable if it is spelled. -/
theorem IsSpelled.isReadable_of_leaf (h : p.IsSpelled names) (hleaf : (p.expr 0).children = []) :
    p.IsReadable names := by
  have hordered : (p.expr 0).IsOrdered := by
    refine Expr.isOrdered_of_nodes_eq (Expr.nodes_of_children_eq_nil hleaf) ?_
    intro op left right heq
    rw [heq] at hleaf
    cases hleaf
  have hnesting := Expr.nesting_le_one_of_children_eq_nil hleaf
  have hcount : p.tokenCount ≤ 2 := by
    cases p with
    | ref | string | statement | call => exact Nat.le_succ 1
    | number sign digits => cases sign <;> simp [tokenCount]
    | binary | group => cases hleaf
  exact ⟨h, hordered, Nat.le_trans hnesting (by decide), Nat.le_trans hcount (by decide)⟩

/-- The first character of a phrase is no blank, and none that makes an operator in front of it
longer. -/
theorem IsSpelled.head_text (h : p.IsSpelled names) :
    ∃ c rest, p.text = c :: rest ∧ Text.isBlank c = false ∧ c ≠ '=' := by
  have hname : ∀ {name : Text}, isIdentifier name = true → ∃ c rest, name = c :: rest ∧
      Text.isBlank c = false ∧ c ≠ '=' := by
    intro name hname
    cases name with
    | nil => cases hname
    | cons c rest =>
      simp only [isIdentifier, Bool.and_eq_true] at hname
      have hword := isWordChar_of_isNameStart c hname.1
      refine ⟨c, rest, rfl, (isMark_of_isWordChar hword).not_isBlank, ?_⟩
      intro heq
      rw [heq] at hword
      exact absurd hword (by decide)
  induction h with
  | ref side hpath =>
    refine ⟨side.symbol, _, rfl, ?_⟩
    cases side <;> decide
  | string => exact ⟨Symbol.quote, _, rfl, by decide, by decide⟩
  | number sign hdigits =>
    rename_i digits
    cases sign with
    | none =>
      cases digits with
      | nil => exact absurd rfl hdigits.ne_nil
      | cons c rest =>
        have hc := hdigits.isNumberChar c List.mem_cons_self
        refine ⟨c, rest, rfl, (isMark_of_isNumberChar hc).not_isBlank, ?_⟩
        intro heq
        rw [heq] at hc
        exact absurd hc (by decide)
    | some sign =>
      cases sign with
      | plus => exact ⟨'+', digits, rfl, by decide, by decide⟩
      | minus => exact ⟨'-', digits, rfl, by decide, by decide⟩
  | statement hidentifier => exact hname hidentifier
  | call hidentifier =>
    obtain ⟨c, rest, rfl, hc⟩ := hname hidentifier
    exact ⟨c, _, rfl, hc⟩
  | binary op _ _ ihl =>
    obtain ⟨c, rest, htext, hc⟩ := ihl
    exact ⟨c, rest ++ op.spelling ++ _, by rw [text, htext]; rfl, hc⟩
  | group => exact ⟨Symbol.openBracket, _, rfl, by decide, by decide⟩

theorem IsSpelled.text_ne_nil (h : p.IsSpelled names) : p.text ≠ [] := by
  obtain ⟨c, rest, htext, -⟩ := h.head_text
  rw [htext]
  exact List.cons_ne_nil c rest

/-- The text of a phrase stays in one piece wherever it stands. -/
theorem IsSpelled.selfContained_text (h : p.IsSpelled names) : SelfContained p.text := by
  induction h with
  | ref side hpath =>
    exact side.selfContained_symbol.append (.of_marks fun c hc =>
      isMark_of_isPathChar (Path.isPathChar_of_mem_toText hpath c hc))
  | string hquote => exact .literal hquote
  | number sign hdigits =>
    cases sign with
    | none => exact .of_marks hdigits.isMark
    | some sign => exact sign.operator.selfContained_spelling.append (.of_marks hdigits.isMark)
  | statement hname => exact .of_isIdentifier hname
  | call hname _ _ _ ih =>
    have hargs := SelfContained.bracketed (List.forall_mem_map.2 ih)
    rw [text, texts_eq_map, List.append_assoc]
    exact (SelfContained.of_isIdentifier hname).append hargs
  | binary op _ _ ihl ihr => exact (ihl.append op.selfContained_spelling).append ihr
  | group _ ih => exact .bracketed (List.forall_mem_singleton.2 ih)

end Phrase

end Assertions
