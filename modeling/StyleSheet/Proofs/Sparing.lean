import Mathlib
import StyleSheet.Proofs.Lookahead

/-!
# Rules that spare braces

A rule may close the groups in braces that it has opened, and it should spare all other braces.
`Rule.Spares` says so about the tokens that a rule takes by itself, in two ways. Inside of a block
any run counts, and no closing brace is taken: so a rule never leaves the block it stands in,
whatever goes wrong. In CSS no brace is taken there at all. Of a run without a fault (`clean`) more
is asked: there no brace is taken at all. Rules that take braces, which are those of blocks,
interpolated values and skipped groups, are treated on their own.

A clean run may still leave groups open, where it skips over a group that the end of the input cuts
off. `Rule.MayOpen` tells which rules may end like that without a fault. `Reads.weighs` says what
follows from both for the braces of a yield.
-/

namespace StyleSheet

open Braces

/-! ## What nonterminals rely on -/

namespace Nonterminal

/-- Whether a nonterminal is used inside of blocks. -/
def isInner : Nonterminal → Bool
  | .stylesheet | .statement => false
  | .ruleset nested | .atRule nested | .dialectAtRule nested | .ifRest nested
  | .mixinStatement nested | .mixinDeclaration nested => nested
  | _ => true

/-- What has been seen before a nonterminal is used. -/
def Due (v : View) : Nonterminal → Prop
  | .arguments | .parameterList => v.kind 0 = .leftParen
  | .guard => v.kind 0 = .ident
  | .balanced => v.kind 0 ≠ .rightBrace
  | .mixinDeclaration _ | .mixinReference => Grammar.startsMixinName v = true
  | .dialectAtRule _ => v.kind 0 = .atKeyword
  | _ => True

/-- Whether a nonterminal may leave groups open at the end of the input, without a fault. -/
def isLoose (matched : Bool) : Nonterminal → Bool
  | .balanced => !matched
  | .declaration | .blockItem => true
  | _ => false

end Nonterminal

namespace NodeKind

/-- Whether the rules of such nodes may take a brace for another token. The name of a query function
and the namespace of an attribute may be interpolated, and their rules do not expect it. -/
def isRash (d : Dialect) : NodeKind → Bool
  | .function => d = .scss
  | .attributeSelector => d ≠ .css
  | _ => false

/-- Whether such a node may be left with a group open, without a fault. -/
def isPrelude : NodeKind → Bool
  | .atRulePrelude => true
  | _ => false

@[simp] lemma isRash_function (d : Dialect) : function.isRash d = decide (d = .scss) := rfl

@[simp] lemma isRash_attributeSelector (d : Dialect) :
    attributeSelector.isRash d = decide (d ≠ .css) := rfl

@[simp] lemma isRash_eq_true {d : Dialect} {kind : NodeKind} :
    kind.isRash d = true ↔
      (kind = .function ∧ d = .scss) ∨ (kind = .attributeSelector ∧ d ≠ .css) := by
  cases kind <;> simp [isRash]

@[simp] lemma isRash_eq_false {d : Dialect} {kind : NodeKind} :
    kind.isRash d = false ↔
      (kind = .function → d ≠ .scss) ∧ (kind = .attributeSelector → d = .css) := by
  cases kind <;> simp [isRash]

@[simp] lemma isPrelude_eq_true {kind : NodeKind} :
    kind.isPrelude = true ↔ kind = .atRulePrelude := by
  cases kind <;> decide

@[simp] lemma isPrelude_eq_false {kind : NodeKind} :
    kind.isPrelude = false ↔ kind ≠ .atRulePrelude := by
  cases kind <;> decide

end NodeKind

@[simp] lemma TokenKind.isBrace_eq_false {kind : TokenKind} :
    kind.isBrace = false ↔
      kind ≠ .leftBrace ∧ kind ≠ .hashBrace ∧ kind ≠ .atBrace ∧ kind ≠ .rightBrace := by
  cases kind <;> decide

/-! ## The analysis -/

namespace Rule

/-- From where `v` is seen, the rule spares the braces that are not its own. If it is `free`, it may
take any token in a clean run. -/
def Spares (d : Dialect) (clean : Bool) : Rule → Bool → View → Prop
  | done _, _, _ | report _, _, _ | cutRange, _, _ => True
  | look next, free, v => Spares d clean (next v) free v
  | take, free, v =>
      if clean then free = true ∨ (v.kind 0).isBrace = false
      else v.kind 0 ≠ .rightBrace ∧ (d = .css → (v.kind 0).isBrace = false)
  | seq first next, free, v =>
      Spares d clean first free v ∧
        ∀ m v', After d clean first v m v' → Spares d clean (next m) free v'
  | many body, free, _ => ∀ v, Spares d clean body free v
  | node kind body, _, v =>
      (clean = true → kind.isRash d = true ∨ kind.isPrelude = true → Accepts body) ∧
        Spares d clean body (clean && kind.isRash d) v
  | wrap _ first more body, _, v =>
      Spares d clean first false v ∧
        (∀ v', After d clean first v true v' → more 0 v' = true → Spares d clean body false v') ∧
        ∀ k v, more (k + 1) v = true → Spares d clean body false v
  | attempt body, free, v => Spares d clean body free v
  | call name, _, v => name.Due v ∧ (clean = false → name.isInner = true)

/-- In a clean run the rule may match or not and leave groups open at the end of the input. -/
def MayOpen (d : Dialect) : Rule → View → Bool → Prop
  | done _, _, _ | take, _, _ | report _, _, _ | cutRange, _, _ => False
  | look next, v, m => MayOpen d (next v) v m
  | seq first next, v, m =>
      (∃ m₁ v₁ v₂, MayOpen d first v m₁ ∧ v₁.kind 0 = .endOfInput ∧
        After d true (next m₁) v₁ m v₂) ∨
        ∃ m₁ v₁, After d true first v m₁ v₁ ∧ MayOpen d (next m₁) v₁ m
  | many body, _, m => m = true ∧ ∃ v m, MayOpen d body v m
  | node kind body, v, m => kind.isPrelude = false ∧ MayOpen d body v m
  | wrap _ first _ body, v, m => MayOpen d first v m ∨ (m = true ∧ ∃ v m, MayOpen d body v m)
  | attempt body, v, m => m = true ∧ MayOpen d body v true
  | call name, _, m => name.isLoose m = true

section

variable {d : Dialect} {clean free : Bool} {v : View} {m : Bool}

@[simp] lemma isAny_eq_true {kinds : List TokenKind} : v.isAny kinds = true ↔ v.kind 0 ∈ kinds := by
  simp [View.isAny]

@[simp] lemma isAny_eq_false {kinds : List TokenKind} :
    v.isAny kinds = false ↔ v.kind 0 ∉ kinds := by
  simp [View.isAny]

@[simp] lemma spares_done (matched : Bool) : Spares d clean (done matched) free v := trivial

@[simp] lemma spares_report (fault : Fault) : Spares d clean (report fault) free v := trivial

@[simp] lemma spares_cutRange : Spares d clean cutRange free v := trivial

@[simp] lemma spares_look (next : View → Rule) :
    Spares d clean (look next) free v ↔ Spares d clean (next v) free v := Iff.rfl

@[simp] lemma spares_take :
    Spares d clean take free v ↔
      if clean then free = true ∨ (v.kind 0).isBrace = false
      else v.kind 0 ≠ .rightBrace ∧ (d = .css → (v.kind 0).isBrace = false) := Iff.rfl

@[simp] lemma spares_seq (first : Rule) (next : Bool → Rule) :
    Spares d clean (seq first next) free v ↔
      Spares d clean first free v ∧
        ∀ m v', After d clean first v m v' → Spares d clean (next m) free v' := Iff.rfl

@[simp] lemma spares_many (body : Rule) :
    Spares d clean (many body) free v ↔ ∀ v, Spares d clean body free v := Iff.rfl

@[simp] lemma spares_node (kind : NodeKind) (body : Rule) :
    Spares d clean (node kind body) free v ↔
      (clean = true → kind.isRash d = true ∨ kind.isPrelude = true → Accepts body) ∧
        Spares d clean body (clean && kind.isRash d) v := Iff.rfl

@[simp] lemma spares_wrap (kind : NodeKind) (first : Rule) (more : Nat → View → Bool)
    (body : Rule) :
    Spares d clean (wrap kind first more body) free v ↔
      Spares d clean first false v ∧
        (∀ v', After d clean first v true v' → more 0 v' = true → Spares d clean body false v') ∧
        ∀ k v, more (k + 1) v = true → Spares d clean body false v := Iff.rfl

@[simp] lemma spares_attempt (body : Rule) :
    Spares d clean (attempt body) free v ↔ Spares d clean body free v := Iff.rfl

@[simp] lemma spares_call (name : Nonterminal) :
    Spares d clean (call name) free v ↔ name.Due v ∧ (clean = false → name.isInner = true) :=
  Iff.rfl

@[simp] lemma spares_ite (c : Prop) [Decidable c] (a b : Rule) :
    Spares d clean (if c then a else b) free v ↔
      (c → Spares d clean a free v) ∧ (¬ c → Spares d clean b free v) := by
  split <;> simp_all

@[simp] lemma spares_accept : Spares d clean accept free v := trivial

@[simp] lemma spares_fail : Spares d clean fail free v := trivial

@[simp] lemma spares_test (c : View → Bool) : Spares d clean (test c) free v := trivial

@[simp] lemma spares_choose (c : View → Bool) (a b : Rule) :
    Spares d clean (choose c a b) free v ↔
      (c v = true → Spares d clean a free v) ∧ (c v = false → Spares d clean b free v) := by
  simp [choose]

@[simp] lemma spares_when (c : View → Bool) (a : Rule) :
    Spares d clean (when c a) free v ↔ (c v = true → Spares d clean a free v) := by
  simp [when]

@[simp] lemma spares_then (a b : Rule) :
    Spares d clean (a >> b) free v ↔
      Spares d clean a free v ∧ ∀ m v', After d clean a v m v' → Spares d clean b free v' := Iff.rfl

@[simp] lemma spares_or (a b : Rule) :
    Spares d clean (a ||| b) free v ↔
      Spares d clean a free v ∧ ∀ v', After d clean a v false v' → Spares d clean b free v' := by
  change Spares d clean a free v ∧ (∀ m v', After d clean a v m v' →
    Spares d clean (if m = true then accept else b) free v') ↔ _
  simp [Bool.forall_bool]

@[simp] lemma spares_and (a b : Rule) :
    Spares d clean (a &&& b) free v ↔
      Spares d clean a free v ∧ ∀ v', After d clean a v true v' → Spares d clean b free v' := by
  change Spares d clean a free v ∧ (∀ m v', After d clean a v m v' →
    Spares d clean (if m = true then b else fail) free v') ↔ _
  simp [Bool.forall_bool]

@[simp] lemma spares_token {kind : TokenKind} (hkind : kind.isBrace = false) :
    Spares d clean (token kind) free v := by
  rw [token, spares_when, spares_take]
  intro h
  rw [is_eq_true.1 h]
  cases clean with
  | true => exact .inr hkind
  | false => exact ⟨(TokenKind.isBrace_eq_false.1 hkind).2.2.2, fun _ => hkind⟩

@[simp] lemma spares_word (w : String) : Spares d clean (word w) free v := by
  rw [word, spares_when, spares_take]
  intro h
  rw [kind_of_isWord h]
  cases clean <;> simp

@[simp] lemma spares_group (kind : NodeKind) (body : Rule) :
    Spares d clean (group kind body) free v ↔ Spares d clean body (clean && kind.isRash d) v := by
  simp [group]

@[simp] lemma spares_leaf {kind : NodeKind} (hkind : kind.isRash d = false) :
    Spares d clean (leaf kind) free v ↔ Spares d clean take false v := by
  simp [leaf, hkind]

/-! ### Rules that leave nothing open -/

@[simp] lemma mayOpen_done (matched : Bool) : ¬ MayOpen d (done matched) v m := id

@[simp] lemma mayOpen_take : ¬ MayOpen d take v m := id

@[simp] lemma mayOpen_report (fault : Fault) : ¬ MayOpen d (report fault) v m := id

@[simp] lemma mayOpen_cutRange : ¬ MayOpen d cutRange v m := id

@[simp] lemma mayOpen_look (next : View → Rule) :
    MayOpen d (look next) v m ↔ MayOpen d (next v) v m := Iff.rfl

@[simp] lemma mayOpen_seq (first : Rule) (next : Bool → Rule) :
    MayOpen d (seq first next) v m ↔
      (∃ m₁ v₁ v₂, MayOpen d first v m₁ ∧ v₁.kind 0 = .endOfInput ∧
        After d true (next m₁) v₁ m v₂) ∨
        ∃ m₁ v₁, After d true first v m₁ v₁ ∧ MayOpen d (next m₁) v₁ m := Iff.rfl

@[simp] lemma mayOpen_many (body : Rule) :
    MayOpen d (many body) v m ↔ m = true ∧ ∃ v m, MayOpen d body v m := Iff.rfl

@[simp] lemma mayOpen_node (kind : NodeKind) (body : Rule) :
    MayOpen d (node kind body) v m ↔ kind.isPrelude = false ∧ MayOpen d body v m := Iff.rfl

@[simp] lemma mayOpen_wrap (kind : NodeKind) (first : Rule) (more : Nat → View → Bool)
    (body : Rule) :
    MayOpen d (wrap kind first more body) v m ↔
      MayOpen d first v m ∨ (m = true ∧ ∃ v m, MayOpen d body v m) := Iff.rfl

@[simp] lemma mayOpen_attempt (body : Rule) :
    MayOpen d (attempt body) v m ↔ m = true ∧ MayOpen d body v true := Iff.rfl

@[simp] lemma mayOpen_call (name : Nonterminal) :
    MayOpen d (call name) v m ↔ name.isLoose m = true := Iff.rfl

@[simp] lemma mayOpen_ite (c : Prop) [Decidable c] (a b : Rule) :
    MayOpen d (if c then a else b) v m ↔ (c ∧ MayOpen d a v m) ∨ (¬ c ∧ MayOpen d b v m) := by
  split <;> simp_all

@[simp] lemma mayOpen_accept : ¬ MayOpen d accept v m := id

@[simp] lemma mayOpen_fail : ¬ MayOpen d fail v m := id

@[simp] lemma mayOpen_test (c : View → Bool) : ¬ MayOpen d (test c) v m := id

@[simp] lemma mayOpen_choose (c : View → Bool) (a b : Rule) :
    MayOpen d (choose c a b) v m ↔
      (c v = true ∧ MayOpen d a v m) ∨ (c v = false ∧ MayOpen d b v m) := by
  simp [choose]

@[simp] lemma mayOpen_when (c : View → Bool) (a : Rule) :
    MayOpen d (when c a) v m ↔ c v = true ∧ MayOpen d a v m := by
  simp [when]

@[simp] lemma mayOpen_then (a b : Rule) :
    MayOpen d (a >> b) v m ↔
      (∃ m₁ v₁ v₂, MayOpen d a v m₁ ∧ v₁.kind 0 = .endOfInput ∧ After d true b v₁ m v₂) ∨
        ∃ m₁ v₁, After d true a v m₁ v₁ ∧ MayOpen d b v₁ m := Iff.rfl

@[simp] lemma mayOpen_or (a b : Rule) :
    MayOpen d (a ||| b) v m ↔
      (m = true ∧ MayOpen d a v true) ∨
        (∃ v₁ v₂, MayOpen d a v false ∧ v₁.kind 0 = .endOfInput ∧ After d true b v₁ m v₂) ∨
        ∃ v₁, After d true a v false v₁ ∧ MayOpen d b v₁ m := by
  change MayOpen d (seq a fun m => if m = true then accept else b) v m ↔ _
  have hend : ∃ v : View, v.kind 0 = .endOfInput :=
    ⟨⟨fun _ => .endOfInput, fun _ => [], fun _ => true, none⟩, rfl⟩
  simp only [mayOpen_seq, Bool.exists_bool]
  simp only [Bool.false_eq_true, if_false, if_true, after_accept, mayOpen_accept, and_false,
    exists_false, or_false]
  constructor
  · rintro ((⟨v₁, v₂, h⟩ | ⟨v₁, v₂, ha, -, rfl, -⟩) | h)
    · exact .inr (.inl ⟨v₁, v₂, h⟩)
    · exact .inl ⟨rfl, ha⟩
    · exact .inr (.inr h)
  · rintro (⟨rfl, ha⟩ | ⟨v₁, v₂, h⟩ | h)
    · obtain ⟨v₁, hv⟩ := hend
      exact .inl (.inr ⟨v₁, v₁, ha, hv, rfl, rfl⟩)
    · exact .inl (.inl ⟨v₁, v₂, h⟩)
    · exact .inr h

@[simp] lemma mayOpen_and (a b : Rule) :
    MayOpen d (a &&& b) v m ↔
      (m = false ∧ MayOpen d a v false) ∨
        (∃ v₁ v₂, MayOpen d a v true ∧ v₁.kind 0 = .endOfInput ∧ After d true b v₁ m v₂) ∨
        ∃ v₁, After d true a v true v₁ ∧ MayOpen d b v₁ m := by
  change MayOpen d (seq a fun m => if m = true then b else fail) v m ↔ _
  have hend : ∃ v : View, v.kind 0 = .endOfInput :=
    ⟨⟨fun _ => .endOfInput, fun _ => [], fun _ => true, none⟩, rfl⟩
  simp only [mayOpen_seq, Bool.exists_bool]
  simp only [Bool.false_eq_true, if_false, if_true, after_fail, mayOpen_fail, and_false,
    exists_false, false_or]
  constructor
  · rintro ((⟨v₁, v₂, ha, -, rfl, -⟩ | ⟨v₁, v₂, h⟩) | h)
    · exact .inl ⟨rfl, ha⟩
    · exact .inr (.inl ⟨v₁, v₂, h⟩)
    · exact .inr (.inr h)
  · rintro (⟨rfl, ha⟩ | ⟨v₁, v₂, h⟩ | h)
    · obtain ⟨v₁, hv⟩ := hend
      exact .inl (.inl ⟨v₁, v₁, ha, hv, rfl, rfl⟩)
    · exact .inl (.inr ⟨v₁, v₂, h⟩)
    · exact .inr h

@[simp] lemma mayOpen_token (kind : TokenKind) : ¬ MayOpen d (token kind) v m := by simp [token]

@[simp] lemma mayOpen_word (w : String) : ¬ MayOpen d (word w) v m := by simp [word]

@[simp] lemma mayOpen_expect (kind : TokenKind) (fault : Fault) :
    ¬ MayOpen d (expect kind fault) v m := by
  simp [expect]

@[simp] lemma mayOpen_group {kind : NodeKind} (body : Rule) :
    MayOpen d (group kind body) v m ↔
      m = true ∧ kind.isPrelude = false ∧ ∃ m, MayOpen d body v m := by
  have hend : ∃ v : View, v.kind 0 = .endOfInput :=
    ⟨⟨fun _ => .endOfInput, fun _ => [], fun _ => true, none⟩, rfl⟩
  simp only [group, mayOpen_node, mayOpen_then, after_accept, mayOpen_accept, and_false,
    exists_false, or_false]
  constructor
  · rintro ⟨hkind, m₁, v₁, v₂, h, -, hm, -⟩
    exact ⟨hm, hkind, m₁, h⟩
  · rintro ⟨hm, hkind, m₁, h⟩
    obtain ⟨v₁, hv⟩ := hend
    exact ⟨hkind, m₁, v₁, v₁, h, hv, hm, rfl⟩

@[simp] lemma mayOpen_leaf (kind : NodeKind) : ¬ MayOpen d (leaf kind) v m := by simp [leaf]

end

end Rule

/-! ## What rules do to the number of open groups -/

namespace Yield

/-- No brace stands directly in a node whose rule may take one for another token. With `direct`, no
brace stands outside of all nodes. -/
def Tidy (d : Dialect) : Yield → Bool → Prop
  | nil, _ => True
  | token t rest, direct => (direct = true → t.kind.isBrace = false) ∧ rest.Tidy d direct
  | fault _ rest, direct => rest.Tidy d direct
  | node kind inner rest, direct => inner.Tidy d (kind.isRash d) ∧ rest.Tidy d direct

/-- In every prelude of an unknown at-rule, as many braces are closed as are opened. -/
def Even : Yield → Prop
  | nil => True
  | token _ rest => rest.Even
  | fault _ rest => rest.Even
  | node kind inner rest =>
      (kind.isPrelude = true →
        inner.braces.countP TokenKind.opensBrace = inner.braces.count .rightBrace) ∧
      inner.Even ∧ rest.Even

variable {d : Dialect} {clean direct : Bool} {y z : Yield} {kind : NodeKind}

@[simp] lemma tidy_append : (y ++ z).Tidy d direct ↔ y.Tidy d direct ∧ z.Tidy d direct := by
  induction y with
  | nil => simp [Tidy]
  | token t rest ih => simp [Tidy, ih, and_assoc]
  | fault f rest ih => simp [Tidy, ih]
  | node kind inner rest _ ih => simp [Tidy, ih, and_assoc]

@[simp] lemma even_append : (y ++ z).Even ↔ y.Even ∧ z.Even := by
  induction y with
  | nil => simp [Even]
  | token t rest ih => simp [Even, ih]
  | fault f rest ih => simp [Even, ih]
  | node kind inner rest _ ih => simp [Even, ih, and_assoc]

lemma Tidy.indirect (h : y.Tidy d direct) : y.Tidy d false := by
  induction y with
  | nil => trivial
  | token t rest ih => exact ⟨by simp, ih h.2⟩
  | fault f rest ih => exact ih h
  | node kind inner rest _ ih => exact ⟨h.1, ih h.2⟩

/-- What is asked of a yield if only clean runs count. -/
def Fair (d : Dialect) (clean direct : Bool) (y : Yield) : Prop :=
  clean = true → y.faults = [] ∧ y.Tidy d direct

lemma Fair.left (h : (y ++ z).Fair d clean direct) : y.Fair d clean direct := fun hclean => by
  have := h hclean
  simp only [faults_append, List.append_eq_nil_iff, tidy_append] at this
  exact ⟨this.1.1, this.2.1⟩

lemma Fair.right (h : (y ++ z).Fair d clean direct) : z.Fair d clean direct := fun hclean => by
  have := h hclean
  simp only [faults_append, List.append_eq_nil_iff, tidy_append] at this
  exact ⟨this.1.2, this.2.2⟩

lemma Fair.indirect (h : y.Fair d clean direct) : y.Fair d clean false :=
  fun hclean => ⟨(h hclean).1, (h hclean).2.indirect⟩

lemma Fair.inner (h : (Yield.node kind y .nil).Fair d clean direct) :
    y.Fair d clean (clean && kind.isRash d) := fun hclean => by
  obtain ⟨hfaults, htidy⟩ := h hclean
  rw [hclean, Bool.true_and]
  exact ⟨by simpa [faults] using hfaults, htidy.1⟩

@[simp] lemma braces_nil : braces nil = [] := rfl

@[simp] lemma braces_node : (node kind y .nil).braces = y.braces := by simp [braces, tokens]

end Yield

namespace Rule

variable {d : Dialect} {clean : Bool} {C : Calls} {s s' s'' : Spot} {y z : Yield}
  {opened open₁ open₂ : Prop}

/-- A yield closes no group that it has not opened. In a clean run it leaves none open, unless it is
`opened` and the input has ended. In CSS it never leaves one open before the end of the input. -/
def Balance (d : Dialect) (clean : Bool) (opened : Prop) (y : Yield) (s' : Spot) : Prop :=
  ∃ count, climb 0 y.braces = some count ∧
    (clean = true → y.Even → count = 0 ∨ (opened ∧ s'.ahead = [])) ∧
    (d = .css → count = 0 ∨ s'.ahead = [])

namespace Balance

lemma of_nil (h : y.braces = []) : Balance d clean opened y s' :=
  ⟨0, by simp [h], fun _ _ => .inl rfl, fun _ => .inl rfl⟩

lemma imp (h : Balance d clean open₁ y s') (himp : open₁ → open₂) : Balance d clean open₂ y s' := by
  obtain ⟨count, hclimb, hcount, hcss⟩ := h
  exact ⟨count, hclimb, fun hclean heven =>
    (hcount hclean heven).imp_right fun h => ⟨himp h.1, h.2⟩, hcss⟩

/-- One yield behind another. If the first one is left open, nothing can follow. -/
lemma append (h : Balance d clean open₁ y s') (h' : Balance d clean open₂ z s'')
    (hidle : s'.ahead = [] → s'' = s' ∧ z.braces = [])
    (hfirst : clean = true → s'.ahead = [] → open₁ → opened)
    (hsecond : clean = true → open₂ → opened) : Balance d clean opened (y ++ z) s'' := by
  obtain ⟨count, hclimb, hcount, hcss⟩ := h
  obtain ⟨count', hclimb', hcount', hcss'⟩ := h'
  have hboth := climb_add hclimb' count
  rw [Nat.zero_add] at hboth
  refine ⟨count' + count, ?_, fun hclean heven => ?_, fun hd => ?_⟩
  · rw [Yield.braces_append, climb_append_of_eq hclimb hboth]
  · rw [Yield.even_append] at heven
    rcases hcount hclean heven.1 with rfl | ⟨hopen, hnil⟩
    · exact (hcount' hclean heven.2).imp (by simp) fun h => ⟨hsecond hclean h.1, h.2⟩
    · obtain ⟨rfl, -⟩ := hidle hnil
      exact .inr ⟨hfirst hclean hnil hopen, hnil⟩
  · rcases hcss hd with rfl | hnil
    · exact hcss' hd
    · obtain ⟨rfl, -⟩ := hidle hnil
      exact .inr hnil

lemma node (h : Balance d clean opened y s') (kind : NodeKind) :
    Balance d clean (kind.isPrelude = false ∧ opened) (.node kind y .nil) s' := by
  obtain ⟨count, hclimb, hcount, hcss⟩ := h
  refine ⟨count, by rwa [Yield.braces_node], fun hclean heven => ?_, hcss⟩
  cases hprelude : kind.isPrelude with
  | true =>
      have hcounts := (climb_eq_some_iff.1 hclimb).2
      rw [heven.1 hprelude] at hcounts
      exact .inl (by omega)
  | false => exact (hcount hclean heven.2.1).imp_right fun h => ⟨⟨rfl, h.1⟩, h.2⟩

end Balance

/-- How nonterminals must treat braces. -/
def Balances (d : Dialect) (clean : Bool) (C : Calls) : Prop :=
  ∀ name s m y s', C name s m y s' → s.Sound → name.Due s.view →
    (clean = false → name.isInner = true) →
    y.Fair d clean false → Balance d clean (name.isLoose m = true) y s'

/-- What follows for the braces of a phase if its rule spares those of others. -/
def Weighs (d : Dialect) (clean : Bool) : Phase → Spot → Bool → Yield → Spot → Prop
  | .rule r, s, m, y, s' => ∀ free, Spares d clean r free s.view → (free = true → clean = true) →
      y.Fair d clean free → Balance d clean (MayOpen d r s.view m) y s'
  | .layers _ more body layers inner, s, _, y, s' => ∀ opened : Prop,
      (layers = 0 → more 0 s.view = true → Spares d clean body false s.view) →
      (∀ k v, more (k + 1) v = true → Spares d clean body false v) → y.Fair d clean false →
      Balance d clean opened inner s → Balance d clean (opened ∨ ∃ v m, MayOpen d body v m) y s'

/-- What has been read before the rest of a `wrap` is part of its yield. -/
lemma fair_inner {phase : Phase} {m : Bool} (h : Reads d C phase s m y s') :
    ∀ kind more body layers inner, phase = .layers kind more body layers inner →
      y.Fair d clean false → inner.Fair d clean false := by
  induction h with
  | layer _ _ _ _ ih =>
      rintro kind more body layers inner ⟨⟩ hfair
      exact (ih _ _ _ _ _ rfl hfair).inner.indirect.left
  | enough _ =>
      rintro kind more body layers inner ⟨⟩ hfair
      exact hfair
  | _ => rintro kind more body layers inner ⟨⟩

lemma Honest.idle (hC : Honest d C) {r : Rule} {m : Bool} (h : Reads d C (.rule r) s m y s')
    (hs : s.Sound) (hnil : s.ahead = []) : s' = s ∧ y.braces = [] := by
  obtain ⟨hspot, htokens⟩ := (hC.reads h hs).idle hnil
  exact ⟨hspot, by simp [Yield.braces, htokens]⟩

lemma weighs_take : Weighs d clean (.rule take) s true s.taken s.next := by
  intro free hspares hfree hfair
  cases hahead : s.ahead with
  | nil =>
      rw [Spot.taken_of_nil hahead]
      exact .of_nil rfl
  | cons t rest =>
      have hkind : s.view.kind 0 = t.kind := by simp [Spot.kind_view, hahead]
      rw [spares_take, hkind] at hspares
      rw [Spot.taken_of_cons hahead] at hfair ⊢
      have hclimb : climb 0 (Yield.token t .nil).braces = climb 0 [t.kind] :=
        climb_filter 0 [t.kind]
      rw [Balance, hclimb]
      cases clean with
      | true =>
          have hbrace : t.kind.isBrace = false := hspares.elim (hfair rfl).2.1 id
          exact ⟨0, by rw [climb_cons_of_not_isBrace hbrace, climb_nil], fun _ _ => .inl rfl,
            fun _ => .inl rfl⟩
      | false =>
          cases hopens : t.kind.opensBrace with
          | true =>
              refine ⟨1, by rw [climb_cons_of_opens hopens, climb_nil], by simp, fun hd => ?_⟩
              have hbrace := hspares.2 hd
              rw [TokenKind.isBrace, hopens] at hbrace
              cases hbrace
          | false =>
              have hbrace : t.kind.isBrace = false := by
                rw [TokenKind.isBrace, hopens, Bool.false_or]
                simpa using hspares.1
              exact ⟨0,
                by rw [climb_cons_of_not_isBrace hbrace, climb_nil], by simp, fun _ => .inl rfl⟩

lemma weighs_drop {kind : NodeKind} {body : Rule} (h : Reads d C (.rule body) s false y s')
    (hbody : Weighs d clean (.rule body) s false y s') :
    Weighs d clean (.rule (node kind body)) s false y s' := by
  intro free hspares hfree hfair
  -- Nodes that are exempt from something always match, so this is none of them.
  have hplain : clean = true → kind.isRash d = false ∧ kind.isPrelude = false := by
    intro hclean
    by_contra hspecial
    have haccepts := hspares.1 hclean (by
      cases hrash : kind.isRash d <;> cases hprelude : kind.isPrelude <;> simp_all)
    cases matched_of_accepts haccepts h
  have hrash : (clean && kind.isRash d) = false := by
    cases clean with
    | false => rfl
    | true => exact (hplain rfl).1
  have hsub := hspares.2
  rw [hrash] at hsub
  obtain ⟨count, hclimb, hcount, hcss⟩ := hbody false hsub (by simp) hfair.indirect
  exact ⟨count, hclimb, fun hclean heven => (hcount hclean heven).imp_right fun h =>
    ⟨⟨(hplain hclean).2, h.1⟩, h.2⟩, hcss⟩

/-- A rule that spares the braces of others closes no group that it has not opened. -/
theorem Reads.weighs (hC : Honest d C) (hcalls : Balances d clean C) {phase : Phase} {m : Bool}
    (h : Reads d C phase s m y s') (hs : s.Sound) : Weighs d clean phase s m y s' := by
  induction h with
  | done matched s => exact fun _ _ _ _ => .of_nil rfl
  | look _ ih => exact ih hs
  | take s => exact weighs_take
  | report f s => exact fun _ _ _ _ => .of_nil rfl
  | cutRange s => exact fun _ _ _ _ => .of_nil rfl
  | @seq first next s s' s'' m m' y z h h' ih ih' =>
      intro free hspares hfree hfair
      have hs' := (hC.reads h hs).sound
      have hsees : After d clean first s.view m s'.view :=
        h.sees clean hC hs fun hclean => (hfair.left hclean).1
      refine (ih hs free hspares.1 hfree hfair.left).append
        (ih' hs' free (hspares.2 m _ hsees) hfree hfair.right) (hC.idle h' hs')
        (fun hclean hnil hopen => ?_) (fun hclean hopen => ?_)
      · exact .inl ⟨m, _, s''.view, hopen, hs'.kind_eq_end.2 hnil,
          h'.sees true hC hs' fun _ => (hfair.right hclean).1⟩
      · rw [hclean] at hsees
        exact .inr ⟨m, _, hsees, hopen⟩
  | again h h' ih ih' =>
      intro free hspares hfree hfair
      have hs' := (hC.reads h hs).sound
      exact (ih hs free (hspares _) hfree hfair.left).append
        (ih' hs' free hspares hfree hfair.right) (hC.idle h' hs')
        (fun _ _ hopen => ⟨rfl, _, _, hopen⟩) (fun _ hopen => hopen)
  | stop _ ih =>
      intro free hspares hfree hfair
      exact (ih hs free (hspares _) hfree hfair).imp fun h => ⟨rfl, _, _, h⟩
  | @node kind body s s' y _ ih =>
      intro free hspares hfree hfair
      exact (ih hs _ hspares.2 (by simp +contextual) hfair.inner).node kind
  | drop h ih => exact weighs_drop h (ih hs)
  | @wrap kind first more body s s' s'' y z h h' ih ih' =>
      intro free hspares hfree hfair
      have hinner := fair_inner h' _ _ _ _ _ rfl hfair.indirect
      have hsees : After d clean first s.view true s'.view :=
        h.sees clean hC hs fun hclean => (hinner hclean).1
      exact (ih' (hC.reads h hs).sound _ (fun _ => hspares.2.1 _ hsees) hspares.2.2 hfair.indirect
        (ih hs false hspares.1 (by simp) hinner)).imp (Or.imp_right fun h => ⟨rfl, h⟩)
  | unwrapped _ ih =>
      intro free hspares hfree hfair
      exact (ih hs false hspares.1 (by simp) hfair.indirect).imp .inl
  | attempt _ _ ih =>
      intro free hspares hfree hfair
      exact (ih hs free hspares hfree hfair).imp fun h => ⟨rfl, h⟩
  | back _ _ _ => exact fun _ _ _ _ => .of_nil rfl
  | call h =>
      intro free hspares hfree hfair
      exact hcalls _ _ _ _ _ h hs hspares.1 hspares.2 hfair.indirect
  | @layer kind more body count inner y z s s' s'' m hmore h h' ih ih' =>
      intro opened hfirst hlater hfair hinner
      have hs' := (hC.reads h hs).sound
      have hbody : y.Fair d clean false := (fair_inner h' _ _ _ _ _ rfl hfair).inner.indirect.right
      have hspares : Spares d clean body false s.view := by
        cases count with
        | zero => exact hfirst rfl hmore
        | succ count => exact hlater count _ hmore
      have hboth : Balance d clean (opened ∨ ∃ v m, MayOpen d body v m) (inner ++ y) s' :=
        hinner.append (ih hs false hspares (by simp) hbody) (hC.idle h hs)
          (fun _ _ => .inl) (fun _ hopen => .inr ⟨_, _, hopen⟩)
      refine (ih' hs' _ (by simp) hlater hfair ((hboth.node kind).imp And.right)).imp ?_
      rintro (hopen | hopen)
      · exact hopen
      · exact .inr hopen
  | enough _ => exact fun opened _ _ _ hinner => hinner.imp .inl

end Rule

end StyleSheet
