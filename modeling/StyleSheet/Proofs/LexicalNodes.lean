import Mathlib
import StyleSheet.Proofs.Isolation
import StyleSheet.Proofs.LeafTexts

/-!
# Nodes by their tokens

Some nodes are read through their tokens: a string literal is one token, a flag of a variable is a
bang and a word, and what a module is called follows an at-keyword. What is seen at the cursor
decides about these nodes, so that what a rule builds is followed together with the view
(`Rule.Shapes`).
-/

namespace StyleSheet

open Token

/-- What a node is made of, for the kinds of nodes that are read through their tokens. -/
def Yield.IsLexical (d : Dialect) (kind : NodeKind) (y : Yield) : Prop :=
  match kind with
  | .stringLiteral => ∃ t, y = .token t .nil ∧ (t.kind = .string ∨ t.kind = .badString)
  | .variableDeclaration =>
      d = .scss → ∃ t u rest, y = .node .variableName (.token t .nil) (.token u rest) ∧
      t.kind = .dollarName ∧ u.kind = .colon
  | .variableFlag => ∃ t u, y = .token t (.token u .nil) ∧ t.kind = .bang ∧ u.kind = .ident ∧
      (u.text.isWord "default" = true ∨ u.text.isWord "global" = true)
  | .useRule | .forwardRule => ∃ t rest, y = .token t rest ∧ t.text.head? = some (byte '@')
  | .keyframes =>
      ∃ name block, y.kids = [name, block] ∧ name ∈ [.identifier, .stringLiteral, .error] ∧
      block ∈ [.declarations, .error]
  | _ => True

lemma Yield.isLexical_of_not_mem {d : Dialect} {kind : NodeKind} (h : kind ∉ Grammar.lexicalKinds)
    (y : Yield) : y.IsLexical d kind := by
  cases kind <;> trivial

namespace Rule

/-! ## Larger rules -/

variable {d : Dialect} {C : Calls} {E : NodeKind → Yield → Prop} {Q : Nonterminal → Prop} {v : View}
  {a b : Rule} {c : View → Bool}

lemma shapes_choose (ha : c v = true → Shapes d C E Q a v) (hb : c v = false → Shapes d C E Q b v) :
    Shapes d C E Q (choose c a b) v := by
  change Shapes d C E Q (if c v = true then a else b) v
  split
  · rename_i h
    exact ha h
  · rename_i h
    exact hb (by simpa using h)

lemma shapes_when (ha : c v = true → Shapes d C E Q a v) : Shapes d C E Q (when c a) v :=
  shapes_choose ha fun _ => trivial

lemma shapes_then (ha : Shapes d C E Q a v) (hb : ∀ v, Shapes d C E Q b v) :
    Shapes d C E Q (a >> b) v :=
  ⟨ha, fun _ => hb⟩

lemma shapes_or (ha : Shapes d C E Q a v) (hb : ∀ v, Shapes d C E Q b v) :
    Shapes d C E Q (a ||| b) v := by
  refine ⟨ha, fun m v => ?_⟩
  cases m with
  | true => trivial
  | false => exact hb v

lemma shapes_and (ha : Shapes d C E Q a v) (hb : ∀ v, Shapes d C E Q b v) :
    Shapes d C E Q (a &&& b) v := by
  refine ⟨ha, fun m v => ?_⟩
  cases m with
  | true => exact hb v
  | false => trivial

lemma shapes_group {kind : NodeKind} (ha : Shapes d C E Q a v)
    (hkind : ∀ s m y s', s.view = v → Reads d C (.rule a) s m y s' → E kind y) :
    Shapes d C E Q (group kind a) v := by
  refine ⟨⟨ha, fun _ _ => trivial⟩, fun s y s' hview hread => ?_⟩
  obtain ⟨m, y₁, s₁, y₂, hbody, haccept, rfl⟩ := reads_then.1 hread
  obtain ⟨-, rfl, -⟩ := reads_done.1 haccept
  rw [Yield.append_nil]
  exact hkind s m y₁ s₁ hview hbody

end Rule

namespace Grammar

open Rule

variable {d : Dialect} {depth : Nat} {s s' : Spot} {m : Bool} {y : Yield} {v : View} {r : Rule}

/-! ## The rules that build lexical nodes -/

/-- Where `v` is seen, the rule builds lexical nodes from the right tokens. -/
def Lexes (d : Dialect) (depth : Nat) (r : Rule) (v : View) : Prop :=
  Shapes d (Yields d depth) (fun kind y => y.IsLexical d kind) (fun _ => True) r v

lemma lexes_of_mayUse {calls lexical : Bool} (h : r.Uses (MayUse calls lexical) fun _ => True)
    (hlexical : lexical = false) : Lexes d depth r v := by
  refine shapes_of_uses
    (h.mono (fun kind hkind => Yield.isLexical_of_not_mem fun hmem => ?_) fun _ h => h)
  simp [hkind.2.2 hmem] at hlexical

/-- A rule that builds no lexical nodes. -/
lemma lexes_of_uses (h : r.Uses (· ∉ lexicalKinds) fun _ => True) : Lexes d depth r v :=
  shapes_of_uses (h.mono (fun _ => Yield.isLexical_of_not_mem) fun _ h => h)

/-- The token that is taken is the one that is seen. -/
lemma exists_token_of_take {C : Calls} (h : Reads d C (.rule take) s m y s')
    (hkind : s.view.kind 0 ≠ .endOfInput) :
    ∃ t, y = .token t .nil ∧ t.kind = s.view.kind 0 ∧ t.text = s.view.text 0 := by
  obtain ⟨t, rest, hahead⟩ := List.exists_cons_of_ne_nil (Spot.ahead_ne_nil hkind)
  obtain ⟨-, rfl, -⟩ := reads_take.1 h
  exact ⟨t, Spot.taken_of_cons hahead,
    by simp [Spot.kind_view, hahead], by simp [Spot.text_view, hahead]⟩

/-- The two tokens that are seen are the first ones ahead. -/
lemma exists_two_ahead {k k' : TokenKind} (hend : s.view.kind 1 ≠ .endOfInput)
    (h : s.view.kind 0 = k) (h' : s.view.kind 1 = k') :
    ∃ t u rest, s.ahead = t :: u :: rest ∧ t.kind = k ∧ u.kind = k' := by
  rw [Spot.kind_view] at h h' hend
  cases hahead : s.ahead with
  | nil => simp [hahead] at hend
  | cons t rest =>
      cases rest with
      | nil => simp [hahead] at hend
      | cons u rest =>
          exact ⟨t, u, rest, rfl, by simpa [hahead] using h, by simpa [hahead] using h'⟩

lemma lexes_leaf (h : v.kind 0 = .string ∨ v.kind 0 = .badString) :
    Lexes d depth (leaf .stringLiteral) v := by
  refine ⟨trivial, ?_⟩
  rintro s y s' rfl hread
  have hend : s.view.kind 0 ≠ .endOfInput := by
    rcases h with h | h <;> simp [h]
  obtain ⟨t, rfl, hkind, -⟩ := exists_token_of_take hread hend
  exact ⟨t, rfl, by rwa [hkind]⟩

lemma lexes_stringLiteral : Lexes d depth stringLiteral v :=
  shapes_when fun h => lexes_leaf (by simpa [View.isAny] using h)

lemma lexes_variableFlags {allowed : List String} (hallowed : allowed ⊆ ["default", "global"]) :
    Lexes d depth (variableFlags allowed) v := by
  refine fun v => shapes_when fun h => ⟨⟨trivial, fun _ _ => trivial⟩, ?_⟩
  rintro s y s' rfl hread
  obtain ⟨hbang, hany⟩ := Bool.and_eq_true_iff.1 h
  obtain ⟨w, hw, hword⟩ := List.any_eq_true.1 hany
  have hident := kind_of_isWord hword
  obtain ⟨t, u, more, hahead, hbang, hident⟩ :=
    exists_two_ahead (by rw [hident]; decide) (is_eq_true.1 hbang) hident
  obtain ⟨_, y₁, s₁, y₂, hfirst, hsecond, rfl⟩ := reads_then.1 hread
  obtain ⟨-, rfl, rfl⟩ := reads_take.1 hfirst
  obtain ⟨-, rfl, -⟩ := reads_take.1 hsecond
  have hnext : s.next.ahead = u :: more := by rw [Spot.next_of_cons hahead]
  refine ⟨t, u, ?_, hbang, hident, ?_⟩
  · rw [Spot.taken_of_cons hahead, Spot.taken_of_cons hnext]
    rfl
  · have htext : u.text.isWord w = true := by
      simpa [Spot.text_view, hahead] using (Bool.and_eq_true_iff.1 hword).2
    rcases List.mem_cons.1 (hallowed hw) with rfl | hw
    · exact .inl htext
    · exact .inr (List.mem_singleton.1 hw ▸ htext)

lemma lexes_charset : Lexes d depth charset v :=
  shapes_group (shapes_then trivial fun _ => shapes_or lexes_stringLiteral fun _ => trivial)
    fun _ _ _ _ _ _ => trivial

lemma kids_of_stringLiteral (h : Reads d (Yields d depth) (.rule stringLiteral) s m y s') :
    (m = true ∧ y.kids = [.stringLiteral]) ∨ (m = false ∧ y = .nil) := by
  rw [stringLiteral, reads_when] at h
  split at h
  · obtain ⟨z, htake, rfl⟩ := reads_node.1 h
    obtain ⟨rfl, -, -⟩ := reads_take.1 htake
    exact .inl ⟨rfl, rfl⟩
  · exact .inr ⟨h.1, h.2.1⟩

/-- Keyframes are a name and a block, or errors where one is missing. -/
lemma lexes_keyframes (nested : Bool) : Lexes d depth (keyframes nested) v := by
  refine shapes_group
      (shapes_then trivial fun _ => shapes_then (shapes_or (shapes_or trivial fun _ =>
    lexes_stringLiteral) fun _ => trivial) fun _ => lexes_of_uses (by simp)) ?_
  intro s m y s' _ hread
  obtain ⟨_, y₁, s₁, y₂, htake, hrest, rfl⟩ := reads_then.1 hread
  obtain ⟨-, rfl, -⟩ := reads_take.1 htake
  obtain ⟨_, y₃, s₂, y₄, hname, hblock, rfl⟩ := reads_then.1 hrest
  have hname : ∃ name, y₃.kids = [name] ∧ name ∈ [.identifier, .stringLiteral, .error] := by
    obtain ⟨-, hfound⟩ | ⟨z₁, t₁, z₂, hfound, hreport, rfl⟩ := reads_or.1 hname
    · obtain ⟨-, hident⟩ | ⟨z₃, t₂, z₄, hident, hstring, rfl⟩ := reads_or.1 hfound
      · obtain ⟨-, z, rfl⟩ | ⟨⟨⟩, -⟩ := yields_node rfl (reads_call.1 hident)
        exact ⟨.identifier, rfl, by simp⟩
      · obtain ⟨⟨⟩, -⟩ | ⟨-, rfl⟩ := yields_node rfl (reads_call.1 hident)
        obtain ⟨-, hkids⟩ | ⟨⟨⟩, -⟩ := kids_of_stringLiteral hstring
        exact ⟨.stringLiteral, by rw [Yield.nil_append, hkids], by simp⟩
    · obtain ⟨⟨⟩, -⟩ | ⟨z₃, t₂, z₄, hident, hstring, rfl⟩ := reads_or.1 hfound
      obtain ⟨⟨⟩, -⟩ | ⟨-, rfl⟩ := yields_node rfl (reads_call.1 hident)
      obtain ⟨⟨⟩, -⟩ | ⟨-, rfl⟩ := kids_of_stringLiteral hstring
      obtain ⟨-, rfl, -⟩ := reads_report.1 hreport
      exact ⟨.error, rfl, by simp⟩
  have hblock : ∃ block, y₄.kids = [block] ∧ block ∈ [.declarations, .error] := by
    rcases kids_of_blockOf hblock with h | h
    · exact ⟨_, h, by simp⟩
    · exact ⟨_, h, by simp⟩
  obtain ⟨name, hkids, hname⟩ := hname
  obtain ⟨block, hkids', hblock⟩ := hblock
  exact ⟨name, block, by simp [hkids, hkids'], hname, hblock⟩

lemma lexes_moduleConfiguration : Lexes d depth moduleConfiguration v := by
  have hentry : ∀ v, Lexes d depth (group .listEntry (leaf .variableName >>
      (expect .colon .colonExpected &&&
        (call (.expression true) ||| report .variableValueExpected)) >>
      variableFlags ["default"])) v := by
    refine fun v =>
      shapes_group (shapes_then (lexes_of_uses ?_) fun _ => shapes_then (lexes_of_uses ?_)
      fun _ => lexes_variableFlags (by simp)) fun _ _ _ _ _ _ => trivial
    · simp [lexicalKinds]
    · simp
  refine shapes_group (shapes_then trivial fun _ => shapes_and (lexes_of_uses (by simp)) fun _ =>
    shapes_then (fun v => ?_) fun _ => lexes_of_uses (by simp)) fun _ _ _ _ _ _ => trivial
  exact shapes_choose (fun _ => trivial) fun _ => shapes_choose
    (fun _ => shapes_then (hentry v) fun _ => lexes_of_uses (by simp)) fun _ => trivial

/-- What a rule reads behind the keyword that it takes. -/
lemma exists_keyword {rest : Rule} (htext : (s.view.text 0).head? = some (byte '@'))
    (h : Reads d (Yields d depth) (.rule (take >> rest)) s m y s') :
    ∃ t z, y = .token t z ∧ t.text.head? = some (byte '@') := by
  obtain ⟨_, y₁, s₁, y₂, htake, -, rfl⟩ := reads_then.1 h
  obtain ⟨-, rfl, -⟩ := reads_take.1 htake
  cases hahead : s.ahead with
  | nil => simp [Spot.text_view, hahead] at htext
  | cons t rest =>
      refine ⟨t, y₂, by simp [Spot.taken_of_cons hahead, Yield.token_append], ?_⟩
      simpa [Spot.text_view, hahead] using htext

lemma lexes_useRule (htext : (v.text 0).head? = some (byte '@')) : Lexes d depth useRule v := by
  refine shapes_group
    (shapes_then trivial fun _ => shapes_then (shapes_or lexes_stringLiteral fun _ => trivial)
    fun _ => shapes_then (lexes_of_uses (by simp)) fun _ => shapes_when fun _ =>
    lexes_moduleConfiguration) ?_
  rintro s m y s' rfl hread
  exact exists_keyword htext hread

lemma lexes_forwardRule (htext : (v.text 0).head? = some (byte '@')) :
    Lexes d depth forwardRule v := by
  refine shapes_group
      (shapes_then trivial fun _ => shapes_then (lexes_of_uses (by simp [stringOrUri])) fun _ =>
    shapes_then (lexes_of_uses (by simp [requiredIdent])) fun _ =>
    shapes_then (lexes_of_uses (by simp [forwardVisibility, lexicalKinds])) fun _ =>
    shapes_when fun _ => lexes_moduleConfiguration) ?_
  rintro s m y s' rfl hread
  exact exists_keyword htext hread

/-! ## All rules -/

lemma head_of_lower {t : Text} (h : t.lower.head? = some (byte '@')) :
    t.head? = some (byte '@') := by
  have hlower : ∀ b : UInt8, Byte.lower b = byte '@' → b = byte '@' := by decide +kernel
  cases t with
  | nil => cases h
  | cons b rest => exact congrArg some (hlower b (Option.some.inj h))

lemma lexes_dialectAtRule (nested : Bool) : Lexes d depth (dialectAtRule d nested) v := by
  cases d with
  | css => trivial
  | scss =>
      have hnames : ∀ entry ∈ scssAtRules nested,
          (Text.ofString entry.1).head? = some (byte '@') := by
        simp only [scssAtRules, List.forall_mem_cons]
        decide
      refine of_ruleFor?_name (P := fun r => Lexes .scss depth r v)
        (fun entry hentry hname => ?_) trivial
      have htext : (v.text 0).head? = some (byte '@') := head_of_lower (hname ▸ hnames entry hentry)
      rcases uses_scssAtRules nested entry hentry with hmem | huses
      · simp only [List.mem_cons, List.not_mem_nil, or_false] at hmem
        rcases hmem with hentry | hentry
        · exact hentry ▸ lexes_useRule htext
        · exact hentry ▸ lexes_forwardRule htext
      · exact lexes_of_mayUse huses rfl
  | less =>
      refine shapes_choose (fun _ => shapes_group (lexes_of_uses ?_) ?_) fun _ => lexes_of_uses ?_
      · simp [statements, priority, lexicalKinds]
      · exact fun _ _ _ _ _ _ hscss => absurd hscss (by decide)
      · simp [plugin, stringOrUri, lexicalKinds]

lemma lexes_atRule (nested : Bool) : Lexes d depth (atRule d nested) v := by
  refine shapes_when fun _ => shapes_or trivial fun v => ?_
  refine of_ruleFor? (P := fun r => Lexes d depth r v)
    (List.forall_mem_append.2 ⟨fun entry hentry => ?_,
    fun entry hentry => lexes_of_mayUse (uses_marginBoxRules nested entry hentry) rfl⟩)
    (lexes_of_mayUse uses_unknownAtRule rfl) _
  rcases uses_cssAtRules d nested entry hentry with hmem | huses
  · simp only [List.mem_cons, List.not_mem_nil, or_false] at hmem
    rcases hmem with hentry | hentry | hentry
    · rw [hentry]
      exact lexes_of_uses
        (by simp [importRule, importOptions, importTargets, stringOrUri, importLayer, layerName,
        closeParen, importSupports, lexicalKinds])
    · exact hentry ▸ lexes_charset
    · exact hentry ▸ lexes_keyframes nested
  · exact lexes_of_mayUse huses rfl

lemma lexes_unsignedTerm : Lexes d depth (unsignedTerm d) v := by
  rw [Lexes, unsignedTerm, Shapes]
  split
  case h_4 hkind => exact lexes_leaf (.inl hkind)
  case h_5 hkind => exact lexes_leaf (.inr hkind)
  all_goals
    refine lexes_of_uses ?_
    simp [hexColor, bracketed, parenthesized, listEntry, named, uriLiteral, progid, identOrCall,
      lexicalKinds]

lemma lexes_variableDeclaration : Lexes d depth (variableDeclaration d) v := by
  rw [variableDeclaration]
  split
  · refine shapes_when fun hview =>
        shapes_group (shapes_then (lexes_of_uses ?_) fun _ => shapes_then trivial fun _ =>
      shapes_then (lexes_of_uses ?_) fun _ => shapes_then (lexes_of_uses ?_) fun _ =>
      lexes_variableFlags (List.Subset.refl _)) ?_
    · simp [lexicalKinds]
    · simp
    · simp [priority, lexicalKinds]
    · rintro s m y s' rfl hread -
      obtain ⟨hdollar, hcolon⟩ := Bool.and_eq_true_iff.1 hview
      obtain ⟨t, u, rest, hahead, hdollar, hcolon⟩ :=
        exists_two_ahead (by rw [is_eq_true.1 hcolon]; decide) (is_eq_true.1 hdollar)
          (is_eq_true.1 hcolon)
      obtain ⟨_, y₁, s₁, y₂, hname, hbehind, rfl⟩ := reads_then.1 hread
      obtain ⟨z, hleaf, rfl⟩ := reads_node.1 hname
      obtain ⟨rfl, rfl, rfl⟩ := reads_take.1 hleaf
      obtain ⟨_, y₃, s₂, y₄, htake, -, rfl⟩ := reads_then.1 hbehind
      obtain ⟨-, rfl, -⟩ := reads_take.1 htake
      have hnext : s.next.ahead = u :: rest := by rw [Spot.next_of_cons hahead]
      refine ⟨t, u, y₄, ?_, hdollar, hcolon⟩
      rw [Spot.taken_of_cons hahead, Spot.taken_of_cons hnext]
      rfl
  · trivial

lemma lexes_rule (name : Nonterminal) : Lexes d depth (rule d name) v := by
  cases name with
  | unsignedTerm => exact lexes_unsignedTerm
  | variableDeclaration => exact lexes_variableDeclaration
  | atRule nested => exact lexes_atRule nested
  | dialectAtRule nested => exact lexes_dialectAtRule nested
  | _ => exact lexes_of_mayUse (mayUse_rule d _) rfl

/-- All lexical nodes that the grammar builds are made of the right tokens. -/
theorem lexical_yields {name : Nonterminal} (h : Yields d depth name s m y s') :
    ∀ n ∈ y.nodes, n.2.IsLexical d n.1 := by
  induction depth generalizing name s m y s' with
  | zero => cases h
  | succ depth ih =>
      have h : Reads d (Yields d depth) (.rule (rule d name)) s m y s' := h
      exact h.nodes_shaped (E := fun kind y => y.IsLexical d kind) trivial
        (fun _ _ _ _ _ _ hcall => ih hcall) (lexes_rule name)

end Grammar

/-! ## Lexical nodes of a tree -/

/-- All lexical nodes of a tree are made of the right tokens. -/
lemma exists_lexical (d : Dialect) (entry : Entry) (source : Text) :
    ∀ s ∈ (parse d entry source).root.descendants,
      ∃ y : Yield, s.tree.bare = .node s.kind y.trees ∧ y.IsLexical d s.kind := by
  obtain ⟨kind, y, s₀, hreads, hbare, -⟩ := exists_yield_parse d entry source
  have hentry := hreads _ (le_refl _)
  have huses : entry.rule.Uses (· ∉ Grammar.lexicalKinds) fun _ => True := by
    cases entry <;> simp [Entry.rule, Grammar.lexicalKinds]
  have hnodes :=
    hentry.nodes_shaped (E := fun kind y => y.IsLexical d kind) (Q := fun _ => True) trivial
    (fun _ _ _ _ _ _ hcall => Grammar.lexical_yields hcall) (Grammar.lexes_of_uses huses)
  refine Site.forall_descendants (E := fun kind y => y.IsLexical d kind) hbare ?_ ?_
  · rw [Entry.kind_eq_rootKind hentry]
    cases entry <;> trivial
  · rw [Yield.nodes_append, Yield.nodes_row, List.append_nil]
    intro n hn
    exact hnodes n (by simp [Yield.nodes, hn])

namespace Tree

/-- A node with two tokens, and no white space or comment at its ends, has white space and comments
between them and nothing else. -/
lemma exists_gap_of_bareOf {cs : List Tree} {kind kind' : TokenKind} {text text' : Text}
    (h : bareOf cs = [leaf kind text, leaf kind' text'])
    (hfirst : ∀ t ∈ cs.head?, t.isTrivia = false) (hlast : ∀ t ∈ cs.getLast?, t.isTrivia = false) :
    ∃ gap, cs = leaf kind text :: (gap ++ [leaf kind' text']) ∧ ∀ t ∈ gap, t.isTrivia = true := by
  have hleaf : ∀ {t : Tree} {kind : TokenKind} {text : Text}, t.bare = leaf kind text →
      t = leaf kind text := by
    intro t kind text ht
    cases t with
    | leaf k u => exact ht
    | node k ds => cases ht
  cases cs with
  | nil => cases h
  | cons c cs =>
      rw [bareOf_cons (hfirst c rfl), List.cons.injEq] at h
      rcases List.eq_nil_or_concat cs with rfl | ⟨gap, t, rfl⟩
      · cases h.2
      · rw [List.concat_eq_append] at h hlast ⊢
        have ht : t.isTrivia = false := hlast t (by
          rw [← List.cons_append, List.getLast?_concat, Option.mem_some])
        have hbehind : (gap.filter (!·.isTrivia)).map bare ++ [t.bare] =
            [] ++ [leaf kind' text'] := by
          rw [List.nil_append, ← h.2, bareOf_eq, List.filter_append, List.map_append]
          simp [ht]
        obtain ⟨hgap, hend⟩ := List.append_inj' hbehind rfl
        refine ⟨gap, ?_, ?_⟩
        · rw [hleaf h.1, hleaf (List.cons.inj hend).1]
        · simpa using hgap

lemma isTrivia_leavesOf {cs : List Tree} (h : ∀ t ∈ cs, t.isTrivia = true) :
    ∀ l ∈ leavesOf cs, l.kind.isTrivia = true := by
  induction cs with
  | nil => exact List.forall_mem_nil _
  | cons c cs ih =>
      obtain ⟨hc, hcs⟩ := List.forall_mem_cons.1 h
      cases c with
      | leaf kind text => exact List.forall_mem_cons.2 ⟨hc, ih hcs⟩
      | node kind ds => cases hc

end Tree

section

variable {d : Dialect} {entry : Entry} {source : Text} {s : Site}

/-- A string literal is one string, which may be unfinished. -/
lemma leaves_of_stringLiteral (hs : s ∈ (parse d entry source).root.descendants)
    (hkind : s.kind = .stringLiteral) :
    ∃ l, s.tree.leaves = [l] ∧ (l.kind = .string ∨ l.kind = .badString) := by
  obtain ⟨y, hbare, hlexical⟩ := exists_lexical d entry source s hs
  rw [hkind] at hlexical
  obtain ⟨t, rfl, hstring⟩ := hlexical
  obtain ⟨hfirst, hlast⟩ :=
    isTrivia_ends hs (above_ne_nil hs (by rw [hkind]; cases entry <;> decide))
  have hchildren := Tree.eq_singleton_of_bareOf (Site.bareOf_children hbare) hfirst hlast
  refine ⟨t.leaf, ?_, hstring⟩
  rw [Site.tree, Place.tree, hchildren]
  rfl

/-- A flag is a bang and a word with white space and comments between them. -/
lemma leaves_of_variableFlag (hs : s ∈ (parse d entry source).root.descendants)
    (hkind : s.kind = .variableFlag) :
    ∃ bang gap word, s.tree.leaves = bang :: (gap ++ [word]) ∧ bang.kind = .bang ∧
      (∀ l ∈ gap, l.kind.isTrivia = true) ∧ word.kind = .ident ∧
      (word.text.isWord "default" = true ∨ word.text.isWord "global" = true) := by
  obtain ⟨y, hbare, hlexical⟩ := exists_lexical d entry source s hs
  rw [hkind] at hlexical
  obtain ⟨t, u, rfl, hbang, hident, hword⟩ := hlexical
  obtain ⟨hfirst, hlast⟩ :=
    isTrivia_ends hs (above_ne_nil hs (by rw [hkind]; cases entry <;> decide))
  obtain ⟨gap, hchildren, hgap⟩ :=
    Tree.exists_gap_of_bareOf (Site.bareOf_children hbare) hfirst hlast
  refine ⟨t.leaf, Tree.leavesOf gap, u.leaf, ?_, hbang, Tree.isTrivia_leavesOf hgap, hident, hword⟩
  rw [Site.tree, Place.tree, hchildren, Tree.leaves, Tree.leavesOf, Tree.leavesOf_append]
  rfl

end

end StyleSheet
