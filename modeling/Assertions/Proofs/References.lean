import Assertions.Proofs.Printing
import Assertions.Proofs.CallReferences

/-!
# References as expressions

References of a template are found without the reader of expressions: words are cut, names are
looked up and paths are followed by rules of their own. `Reference.IsSpelled` lists the texts that
are found in this way. Still each of them is read as an expression of the same kind: a path as that
path and a name as that function. A call is read as a call that reaches over all of its text, if it
can be read at all.
-/

namespace Assertions

/-- Whether the text of a reference is read as what the reference refers to. Only a call may fail to
be read. -/
def Reference.Agrees (names : Text → Bool) (r : Reference) : Prop :=
  match r.referent with
  | .path side path => Expr.ofText names r.text = .ok (.ref ⟨0, Text.size r.text⟩ side path)
  | .statement name => Expr.ofText names r.text = .ok (.statement ⟨0, Text.size r.text⟩ name)
  | .call => ∀ e, Expr.ofText names r.text = .ok e →
    ∃ name args, e = .call ⟨0, Text.size (condense r.text)⟩ name args

/-- What the text of a reference is, by what the reference refers to. A call has its brackets around
a text in which brackets and literals are closed. -/
inductive Reference.IsSpelled (names : Text → Bool) : Reference → Prop
  | path (side : Side) {path : Text} (hpath : ∀ c ∈ path, Token.isPathChar c = true) :
    IsSpelled names ⟨.path side (.ofText path), side.symbol :: path⟩
  | statement {name : Text} (hname : isIdentifier name = true) (hknown : names name = true) :
    IsSpelled names ⟨.statement name, name⟩
  | call {name args : Text} (hname : isIdentifier name = true) (hknown : names name = true)
    (hargs : Balanced args) :
    IsSpelled names ⟨.call, name ++ Symbol.openBracket :: args ++ [Symbol.closeBracket]⟩

variable {names : Text → Bool}

/-- A reference can be read if it can in case it is a call. -/
theorem Reference.Agrees.exists_of_call {r : Reference} (h : r.Agrees names)
    (hcall : r.referent = .call → ∃ e, Expr.ofText names r.text = .ok e) :
    ∃ e, Expr.ofText names r.text = .ok e := by
  obtain ⟨referent, text⟩ := r
  cases referent with
  | path side path => exact ⟨_, h⟩
  | statement name => exact ⟨_, h⟩
  | call => exact hcall rfl

/-! ### Paths and names -/

/-- The characters of a path behind its symbol denote that path. -/
theorem ofText_path (side : Side) {path : Text} (h : ∀ c ∈ path, Token.isPathChar c = true) :
    Expr.ofText names (side.symbol :: path) =
      .ok (.ref ⟨0, Text.size (side.symbol :: path)⟩ side (.ofText path)) := by
  have hspelled : (Phrase.ref side (.ofText path)).IsSpelled names :=
    .ref side (Path.isPlain_ofText h)
  have hread := (hspelled.isReadable_of_leaf rfl).ofText_of_spaced (.refl false _)
  simp only [Phrase.text, Phrase.expr, Phrase.spanAt, Path.toText_ofText, Nat.zero_add] at hread
  exact hread

theorem ofText_statement {name : Text} (hname : isIdentifier name = true)
    (hknown : names name = true) :
    Expr.ofText names name = .ok (.statement ⟨0, Text.size name⟩ name) := by
  have hspelled : (Phrase.statement name).IsSpelled names := .statement hname hknown
  have hread := (hspelled.isReadable_of_leaf rfl).ofText_of_spaced (.refl false _)
  rwa [Phrase.text, Phrase.expr, Phrase.spanAt, Phrase.text, Nat.zero_add] at hread

/-! ### Calls -/

/-- A tree over the token of a call is a call. -/
theorem eq_call_of_yields {name args : Text} {argsAt : Nat} {span : Span} {e : Expr}
    (h : Yields names [⟨.call name args argsAt, span⟩] e) : ∃ es, e = .call span name es := by
  generalize htokens : [PlacedToken.mk (.call name args argsAt) span] = tokens at h
  cases h with
  | call =>
    cases htokens
    exact ⟨_, rfl⟩
  | binary op hop hleft hright =>
    rename_i front back left right
    cases front with
    | nil => cases htokens
    | cons first rest =>
      have hlength := congrArg List.length htokens
      simp at hlength
  | _ => cases htokens

/-- A text with a name and its brackets around all the rest has one token. -/
theorem tokenize_call {name args : Text} (hname : isIdentifier name = true)
    (hknown : names name = true) (hargs : Balanced args) :
    tokenize names 0 (name ++ Symbol.openBracket :: args ++ [Symbol.closeBracket]) =
      .ok [⟨.call name args (Text.size name + 1),
        ⟨0, Text.size (name ++ Symbol.openBracket :: args ++ [Symbol.closeBracket])⟩⟩] := by
  have hread : Token.read names 0
      (name ++ Symbol.openBracket :: args ++ [Symbol.closeBracket] ++ []) = _ :=
    Token.read_call hname hknown hargs
  rw [List.append_nil, Nat.zero_add] at hread
  show tokenizeWithin names (maxTokens - 1 + 1) 0 _ = _
  rw [tokenizeWithin_of_read hread, Nat.zero_add]
  rfl

/-- What is read from a text with a name and its brackets around all the rest is a call. -/
theorem eq_call_of_ofText {name args : Text} {e : Expr} (hname : isIdentifier name = true)
    (hknown : names name = true) (hargs : Balanced args)
    (h : Expr.ofText names (name ++ Symbol.openBracket :: args ++ [Symbol.closeBracket]) = .ok e) :
    ∃ es, e = .call ⟨0, Text.size (condense
      (name ++ Symbol.openBracket :: args ++ [Symbol.closeBracket]))⟩ name es := by
  obtain ⟨tokens, htokens, hcomplete⟩ := fragment_eq_ok.1 h
  rw [condense_call hname] at htokens ⊢
  rw [tokenize_call hname hknown hargs.condense] at htokens
  cases htokens
  obtain ⟨es, rfl⟩ := eq_call_of_yields (complete_eq_ok_iff.1 hcomplete).yields
  exact ⟨es, rfl⟩

/-! ### References -/

namespace Reference.IsSpelled

variable {r : Reference} (h : r.IsSpelled names)
include h

/-- A reference is read as what it refers to. -/
theorem agrees : r.Agrees names := by
  cases h with
  | path side hpath => exact ofText_path side hpath
  | statement hname hknown => exact ofText_statement hname hknown
  | call hname hknown hargs => exact fun e he => ⟨_, eq_call_of_ofText hname hknown hargs he⟩

theorem text_ne_nil : r.text ≠ [] := by
  cases h with
  | path | call => simp
  | statement hname =>
    rintro rfl
    cases hname

end Reference.IsSpelled

/-! ### Words -/

namespace Template

theorem eq_symbol_of_sideOf? {c : Char} {side : Side} (h : sideOf? c = some side) :
    c = side.symbol := by
  unfold sideOf? at h
  split at h
  · rename_i hc
    cases h
    exact beq_iff_eq.1 hc
  · split at h
    · rename_i hc
      cases h
      exact beq_iff_eq.1 hc
    · cases h

theorem isPathChar_of_mem_splitPath {text : Text} :
    ∀ c ∈ (splitPath text).1, Token.isPathChar c = true := by
  induction text with
  | nil => simp [splitPath]
  | cons c rest ih =>
    simp only [splitPath]
    split
    · rename_i hc
      refine List.forall_mem_cons.2 ⟨?_, ih⟩
      simp only [Bool.or_eq_true, Bool.and_eq_true] at hc
      simp only [Token.isPathChar, Bool.or_eq_true]
      exact hc.imp_right And.left
    · simp

theorem isSpelled_of_mem_paths {text : Text} {r : Reference} (h : .reference r ∈ paths text) :
    r.IsSpelled names := by
  fun_induction paths text with
  | case1 => cases h
  | case2 c rest side hhead hside path ih =>
    rcases List.mem_cons.1 h with heq | hmem
    · cases heq
      rw [eq_symbol_of_sideOf? hside]
      exact .path side isPathChar_of_mem_splitPath
    · exact ih hmem
  | case3 c rest hother ih =>
    rcases List.mem_cons.1 h with heq | hmem
    · cases heq
    · exact ih hmem

theorem isSpelled_of_mem_readWord {offset : Nat} {word : Text} {found : List Piece} {r : Reference}
    (h : readWord names offset word = .ok found) (hr : .reference r ∈ found) :
    r.IsSpelled names := by
  unfold readWord at h
  dsimp only at h
  split at h
  · rename_i hname
    simp only [Bool.and_eq_true] at hname
    split at h
    · cases h
      cases List.mem_singleton.1 hr
      exact .statement hname.1 hname.2
    · split at h
      · split at h
        · cases h
        · rename_i args after hclose
          cases h
          simp only [List.mem_cons, Piece.reference.injEq, reduceCtorEq, List.not_mem_nil,
            or_false] at hr
          subst hr
          exact .call hname.1 hname.2 (balanced_of_enclosed? hclose)
      · cases h
        simp only [List.mem_cons, Piece.reference.injEq, reduceCtorEq, List.not_mem_nil,
          or_false] at hr
        subst hr
        exact .statement hname.1 hname.2
  · cases h
    exact isSpelled_of_mem_paths hr

theorem isSpelled_of_mem_readSegments {offset : Nat} {list : List Segment} {found : List Piece}
    {r : Reference} (h : readSegments names offset list = .ok found) (hr : .reference r ∈ found) :
    r.IsSpelled names := by
  induction list generalizing offset found with
  | nil =>
    cases h
    cases hr
  | cons segment others ih =>
    obtain ⟨here, more, hhere, hmore, rfl⟩ := readSegments_cons_eq_ok.1 h
    rcases List.mem_append.1 hr with hmem | hmem
    · cases segment with
      | gap c =>
        cases hhere
        cases List.mem_singleton.1 hmem
      | word text => exact isSpelled_of_mem_readWord hhere hmem
    · exact ih hmore hmem

theorem mem_of_mem_placedReferences {offset : Nat} {list : List Piece} {span : Span}
    {r : Reference} (h : (span, r) ∈ placedReferences offset list) : .reference r ∈ list := by
  induction list generalizing offset with
  | nil => cases h
  | cons piece others ih =>
    cases piece with
    | plain text => exact List.mem_cons_of_mem _ (ih h)
    | reference first =>
      rcases List.mem_cons.1 h with heq | hmem
      · cases heq
        exact List.mem_cons_self
      · exact List.mem_cons_of_mem _ (ih hmem)

/-- The references of a template are those among its pieces. -/
theorem exists_pieces_of_references {template : Text} {found : List (Span × Reference)}
    (h : references names template = .ok found) :
    ∃ pieces, read names template = .ok pieces ∧ found = placedReferences 0 pieces := by
  unfold references at h
  split at h
  · cases h
  · rename_i pieces hread
    cases h
    exact ⟨pieces, hread, rfl⟩

theorem isSpelled_of_mem_references {template : Text} {found : List (Span × Reference)}
    {span : Span} {r : Reference} (h : references names template = .ok found)
    (hr : (span, r) ∈ found) : r.IsSpelled names := by
  obtain ⟨pieces, hread, rfl⟩ := exists_pieces_of_references h
  exact isSpelled_of_mem_readSegments hread (mem_of_mem_placedReferences hr)

/-- **References as expressions.** Every reference of a template is read as what it refers to. -/
theorem agrees_of_mem_references {template : Text} {found : List (Span × Reference)} {span : Span}
    {r : Reference} (h : references names template = .ok found) (hr : (span, r) ∈ found) :
    r.Agrees names :=
  (isSpelled_of_mem_references h hr).agrees

end Template

end Assertions
