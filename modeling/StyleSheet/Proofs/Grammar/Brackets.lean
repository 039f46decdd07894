import Mathlib
import StyleSheet.Proofs.Brackets

/-!
# Values pair their brackets

The rules of values open and close groups in pairs, and outside of these they take no token that
ends a value. So whatever is read as a value without a fault is a whole row of tokens and groups
(`whole_of_expression`).
-/

namespace StyleSheet.Grammar

open Rule Brackets TokenKind

/-- The nonterminals that values are made of. -/
def InValue : Nonterminal → Prop
  | .expression _ | .binary _ | .term | .unsignedTerm | .arguments | .argument | .ident
  | .interpolation
  | .variableName | .moduleMember | .escapedValue => True
  | _ => False

attribute [local simp] InValue Nonterminal.Due Nonterminal.Seen StartsShortName step closer?
    isCloser endsValue

section

variable {d e : Dialect} {v : View} {due : List TokenKind} {post : Bool → List TokenKind → Prop}

/-! ## Names -/

@[simp] lemma pairs_identPiece (h : startsPiece d 0 v = true) (hpost : ∀ m, post m due) :
    Pairs e InValue (identPiece d) v due post := by
  by_cases hopens : opensInterpolation d 0 v = true
  · simp [identPiece, hopens, hpost]
  · have hident : v.kind 0 = .ident := by simpa [startsPiece, hopens] using h
    simp [identPiece, hopens, hident, hpost]

@[simp] lemma pairs_furtherPiece (hpost : ∀ m, post m due) :
    Pairs e InValue (furtherPiece d) v due post := by
  simp +contextual [furtherPiece, hpost]

@[simp] lemma pairs_identPieces (hpost : ∀ m, post m due) :
    Pairs e InValue (identPieces d) v due post := by
  simp +contextual [identPieces, startsIdent, hpost]

lemma pairs_ident : Pairs d InValue (ident d) v due fun _ due' => due' = due := by
  simp [ident]

lemma pairs_interpolation : Pairs d InValue (interpolation d) v due fun _ due' => due' = due := by
  cases d <;> simp +contextual [interpolation]

/-! ## Values -/

lemma pairs_expression (single : Bool) :
    Pairs d InValue (expression d single) v due fun _ due' => due' = due := by
  simp +contextual [expression]

lemma step_of_precedence? (h : (precedence? d v).isSome = true) :
    step due (v.kind 0) = some due := by
  unfold precedence? at h
  split at h <;> simp_all

lemma pairs_binary (level : Nat) :
    Pairs d InValue (binary d level) v due fun _ due' => due' = due := by
  have hoperator : ∀ v, (precedence? d v).any (level ≤ ·) = true → step due (v.kind 0) = some due :=
    fun v h => step_of_precedence? (Option.isSome_of_any h)
  simp +contextual [-step, binary, operator, hoperator]

lemma pairs_term : Pairs d InValue (term d) v due fun _ due' => due' = due := by
  simp +contextual [term, operator, startsUnary, View.isWord, or_imp]

@[simp] lemma pairs_hexColor (h : v.kind 0 = .hash) :
    Pairs d InValue hexColor v due fun _ due' => due' = due := by
  simp +contextual [hexColor, h]

@[simp] lemma pairs_uriLiteral (h : v.kind 0 = .ident) (h' : v.kind 1 = .leftParen) :
    Pairs d InValue uriLiteral v due fun _ due' => due' = due := by
  simp +contextual [uriLiteral, h, h']

@[simp] lemma pairs_progid (h : v.kind 0 = .ident) (h' : v.kind 1 = .colon) :
    Pairs d InValue progid v due fun _ due' => due' = due := by
  simp +contextual [progid, h, h', View.opensCall]

@[simp] lemma pairs_identOrCall : Pairs d InValue identOrCall v due fun _ due' => due' = due := by
  simp +contextual [identOrCall, View.opensCall]

@[simp] lemma pairs_named : Pairs d InValue (named d) v due fun _ due' => due' = due := by
  simp +contextual [named, View.isWord, View.callFollows]

@[simp] lemma pairs_bracketed (h : v.kind 0 = .leftBracket) :
    Pairs d InValue bracketed v due fun _ due' => due' = due := by
  simp [bracketed, h]

@[simp] lemma pairs_parenthesized (h : v.kind 0 = .leftParen) :
    Pairs d InValue (parenthesized d) v due fun _ due' => due' = due := by
  cases d <;> simp [parenthesized, listEntry, h]

lemma pairs_unsignedTerm : Pairs d InValue (unsignedTerm d) v due fun _ due' => due' = due := by
  simp only [unsignedTerm, Pairs]
  split <;> simp_all

lemma pairs_argument : Pairs d InValue (argument d) v due fun _ due' => due' = due := by
  cases d <;> simp +contextual [argument, startsNamedArgument, operator]

lemma pairs_arguments (h : v.kind 0 = .leftParen) :
    Pairs d InValue (arguments d) v due fun _ due' => due' = due := by
  cases d <;> simp [arguments, h]

lemma pairs_variableName : Pairs d InValue variableName v due fun _ due' => due' = due := by
  simp +contextual [variableName]

lemma pairs_escapedValue : Pairs d InValue escapedValue v due fun _ due' => due' = due := by
  simp +contextual [escapedValue, or_imp]

lemma pairs_moduleMember : Pairs d InValue moduleMember v due fun _ due' => due' = due := by
  simp +contextual [moduleMember, startsModuleCall, or_imp]

/-- The rules of values leave as due what was due before them. -/
lemma pairs_rule {name : Nonterminal} (hname : InValue name) (hdue : name.Due v) :
    Pairs d InValue (rule d name) v due fun _ due' => due' = due := by
  cases name with
  | expression single => exact pairs_expression single
  | binary level => exact pairs_binary level
  | term => exact pairs_term
  | unsignedTerm => exact pairs_unsignedTerm
  | arguments => exact pairs_arguments hdue
  | argument => exact pairs_argument
  | ident => exact pairs_ident
  | interpolation => exact pairs_interpolation
  | variableName => exact pairs_variableName
  | moduleMember => exact pairs_moduleMember
  | escapedValue => exact pairs_escapedValue
  | _ => cases hname

end

/-- What is read of a value without a fault pairs its brackets. -/
theorem follows_of_value {d : Dialect} {depth : Nat} : ∀ name s m y s', InValue name →
    Yields d depth name s m y s' → s.Sound → name.Due s.view → y.faults = [] →
      ∀ due, s.Follows due y.tokens due s' := by
  induction depth with
  | zero =>
      intro name s m y s' _ h
      cases h
  | succ depth ih =>
      intro name s m y s' hname h hs hdue hclean due
      obtain ⟨due', hfollows, rfl⟩ :=
        Reads.pairs (honest_yields d depth) ih h hs hclean due _ (pairs_rule hname hdue)
      exact hfollows

/-- An expression that is read without a fault is a whole row of tokens and groups. -/
theorem whole_of_expression {d : Dialect} {depth : Nat} {single m : Bool} {s s' : Spot} {y : Yield}
    (h : Yields d depth (.expression single) s m y s') (hs : s.Sound) (hclean : y.faults = []) :
    s.ahead = y.tokens ++ s'.ahead ∧ Whole true (y.tokens.map Token.kind) := by
  have hfollows := follows_of_value (.expression single) _ _ _ _ trivial h hs trivial hclean []
  exact ⟨hfollows.ahead, whole_of_follow hfollows.follow⟩

end StyleSheet.Grammar
