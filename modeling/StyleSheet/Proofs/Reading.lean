import Mathlib
import StyleSheet.Proofs.Behaviour
import StyleSheet.Tree

/-!
# What a rule reads

Carrying out a rule moves a parser with all its events and logs. Most questions about the grammar
are about less: which tokens a rule takes, which nodes it puts around them, and where it comes to a
stop. A `Spot` is what matters of a parser before a rule, and a `Yield` is what the rule adds to the
tree. `Rule.Reads` says directly what a rule yields, form by form, for any way in which nonterminals
are answered; `Grammar.Yields` is the way of the grammar itself, to a given depth.

A yield is determined by the rule and the spot (`yields_unique`).
-/

namespace StyleSheet

/-! ## Yields -/

/-- What a rule has read, in order: tokens, faults and nodes. -/
inductive Yield where
  /-- Nothing. -/
  | nil
  /-- A token, and what comes behind it. -/
  | token (t : Token) (rest : Yield)
  /-- A fault, and what comes behind it. -/
  | fault (f : Fault) (rest : Yield)
  /-- A node with what is inside of it, and what comes behind it. -/
  | node (kind : NodeKind) (inner rest : Yield)

namespace Yield

/-- One yield behind another. -/
def append : Yield → Yield → Yield
  | nil, z => z
  | token t rest, z => token t (rest.append z)
  | fault f rest, z => fault f (rest.append z)
  | node kind inner rest, z => node kind inner (rest.append z)

instance : Append Yield := ⟨append⟩

/-- The tokens in order. -/
def tokens : Yield → List Token
  | nil => []
  | token t rest => t :: rest.tokens
  | fault _ rest => rest.tokens
  | node _ inner rest => inner.tokens ++ rest.tokens

/-- The faults in order. -/
def faults : Yield → List Fault
  | nil => []
  | token _ rest => rest.faults
  | fault f rest => f :: rest.faults
  | node _ inner rest => inner.faults ++ rest.faults

/-- The steps that build the trees. -/
def steps : Yield → List Step
  | nil => []
  | token _ rest => .token :: rest.steps
  | fault f rest => .fault f :: rest.steps
  | node kind inner rest => .opening kind :: (inner.steps ++ .closing :: rest.steps)

/-- The trees, without white space and comments. -/
def trees : Yield → List Tree
  | nil => []
  | token t rest => .leaf t.kind t.text :: rest.trees
  | fault _ rest => .node .error [] :: rest.trees
  | node kind inner rest => .node kind inner.trees :: rest.trees

@[simp] lemma nil_append (y : Yield) : nil ++ y = y := rfl

@[simp] lemma token_append (t : Token) (y z : Yield) : token t y ++ z = token t (y ++ z) := rfl

@[simp] lemma fault_append (f : Fault) (y z : Yield) : fault f y ++ z = fault f (y ++ z) := rfl

@[simp] lemma node_append (kind : NodeKind) (inner y z : Yield) :
    node kind inner y ++ z = node kind inner (y ++ z) := rfl

@[simp] lemma append_nil (y : Yield) : y ++ nil = y := by
  induction y with
  | nil => rfl
  | token t rest ih => rw [token_append, ih]
  | fault f rest ih => rw [fault_append, ih]
  | node kind inner rest _ ih => rw [node_append, ih]

lemma append_assoc (x y z : Yield) : x ++ y ++ z = x ++ (y ++ z) := by
  induction x with
  | nil => rfl
  | token t rest ih => simp only [token_append, ih]
  | fault f rest ih => simp only [fault_append, ih]
  | node kind inner rest _ ih => simp only [node_append, ih]

@[simp] lemma tokens_nil : tokens nil = [] := rfl

@[simp] lemma tokens_append (y z : Yield) : (y ++ z).tokens = y.tokens ++ z.tokens := by
  induction y with
  | nil => rfl
  | token t rest ih => simp only [token_append, tokens, ih, List.cons_append]
  | fault f rest ih => simp only [fault_append, tokens, ih]
  | node kind inner rest _ ih => simp only [node_append, tokens, ih, List.append_assoc]

@[simp] lemma faults_nil : faults nil = [] := rfl

@[simp] lemma faults_append (y z : Yield) : (y ++ z).faults = y.faults ++ z.faults := by
  induction y with
  | nil => rfl
  | token t rest ih => simp only [token_append, faults, ih]
  | fault f rest ih => simp only [fault_append, faults, ih, List.cons_append]
  | node kind inner rest _ ih => simp only [node_append, faults, ih, List.append_assoc]

@[simp] lemma steps_append (y z : Yield) : (y ++ z).steps = y.steps ++ z.steps := by
  induction y with
  | nil => rfl
  | token t rest ih => simp only [token_append, steps, ih, List.cons_append]
  | fault f rest ih => simp only [fault_append, steps, ih, List.cons_append]
  | node kind inner rest _ ih =>
      simp only [node_append, steps, ih, List.cons_append, List.append_assoc]

@[simp] lemma trees_append (y z : Yield) : (y ++ z).trees = y.trees ++ z.trees := by
  induction y with
  | nil => rfl
  | token t rest ih => simp only [token_append, trees, ih, List.cons_append]
  | fault f rest ih => simp only [fault_append, trees, ih, List.cons_append]
  | node kind inner rest _ ih => simp only [node_append, trees, ih, List.cons_append]

end Yield

/-! ## Spots -/

/-- What is seen behind the next token. -/
def View.next (v : View) : View where
  kind n := v.kind (n + 1)
  text n := v.text (n + 1)
  gap n := v.gap (n + 1)
  last := some (v.kind 0)

@[simp] lemma View.kind_next (v : View) (n : Nat) : v.next.kind n = v.kind (n + 1) := rfl

/-- A place between two tokens of a source, as a rule sees it. -/
structure Spot where
  /-- The token taken last. -/
  last : Option Token
  /-- The significant tokens ahead. -/
  ahead : List Token
  /-- The number of bytes of the source. -/
  length : Nat

namespace Spot

/-- The token before the one `n` places ahead, if there is one. -/
def before? (s : Spot) : Nat → Option Token
  | 0 => s.last
  | n + 1 => s.ahead[n]?

/-- What is seen from a spot. -/
def view (s : Spot) : View where
  kind n := (s.ahead[n]?.map Token.kind).getD .endOfInput
  text n := (s.ahead[n]?.map Token.text).getD []
  gap n :=
    match s.before? n with
    | none => true
    | some b => b.stop < (s.ahead[n]?.map Token.start).getD s.length
  last := s.last.map Token.kind

/-- The spot behind the next token. -/
def next (s : Spot) : Spot :=
  match s.ahead with
  | [] => s
  | t :: rest => ⟨some t, rest, s.length⟩

/-- What taking the next token yields. -/
def taken (s : Spot) : Yield :=
  match s.ahead with
  | [] => .nil
  | t :: _ => .token t .nil

/-- What becomes of the tokens ahead if a range of code points at their front is cut. -/
def cutAhead (d : Dialect) : List Token → List Token
  | [] => []
  | range :: rest =>
    if range.kind = .unicodeRange then
      let glued := Parser.gluedTo range.stop rest
      Parser.rangePieces d range glued ++ rest.drop glued.length
    else range :: rest

/-- The spot after a range of code points ahead has been cut. -/
def cut (d : Dialect) (s : Spot) : Spot := { s with ahead := cutAhead d s.ahead }

lemma kind_view (s : Spot) (n : Nat) :
    s.view.kind n = (s.ahead[n]?.map Token.kind).getD .endOfInput := rfl

lemma text_view (s : Spot) (n : Nat) : s.view.text n = (s.ahead[n]?.map Token.text).getD [] := rfl

lemma gap_view (s : Spot) (n : Nat) :
    s.view.gap n =
      match s.before? n with
      | none => true
      | some b => b.stop < (s.ahead[n]?.map Token.start).getD s.length := rfl

lemma ahead_ne_nil {s : Spot} (h : s.view.kind 0 ≠ .endOfInput) : s.ahead ≠ [] := by
  intro hnil
  simp [kind_view, hnil] at h

lemma next_of_nil {s : Spot} (h : s.ahead = []) : s.next = s := by
  rw [next, h]

lemma next_of_cons {s : Spot} {t : Token} {rest : List Token} (h : s.ahead = t :: rest) :
    s.next = ⟨some t, rest, s.length⟩ := by
  rw [next, h]

lemma taken_of_nil {s : Spot} (h : s.ahead = []) : s.taken = .nil := by
  rw [taken, h]

lemma taken_of_cons {s : Spot} {t : Token} {rest : List Token} (h : s.ahead = t :: rest) :
    s.taken = .token t .nil := by
  rw [taken, h]

lemma view_next {s : Spot} (h : s.ahead ≠ []) : s.next.view = s.view.next := by
  obtain ⟨t, rest, hahead⟩ := List.exists_cons_of_ne_nil h
  rw [next_of_cons hahead]
  simp only [view, View.next, hahead, View.mk.injEq, List.getElem?_cons_succ]
  refine ⟨trivial, trivial, ?_, rfl⟩
  funext n
  cases n <;> simp [before?, hahead]

end Spot

/-! ## Rules -/

/-- How nonterminals are answered: whether they match at a spot, what they yield and where they
end. -/
abbrev Calls := Nonterminal → Spot → Bool → Yield → Spot → Prop

/-- What is carried out: a rule, or the rest of a `wrap` when `inner` has been read and `count`
nodes have been put around it. -/
inductive Phase where
  | rule (r : Rule)
  | layers (kind : NodeKind) (more : Nat → View → Bool) (body : Rule) (count : Nat) (inner : Yield)

namespace Rule

/-- What rules yield if nonterminals are answered by `C`. -/
inductive Reads (d : Dialect) (C : Calls) : Phase → Spot → Bool → Yield → Spot → Prop
  | done (matched : Bool) (s : Spot) : Reads d C (.rule (done matched)) s matched .nil s
  | look {next : View → Rule} {s s' : Spot} {matched : Bool} {y : Yield} :
      Reads d C (.rule (next s.view)) s matched y s' → Reads d C (.rule (look next)) s matched y s'
  | take (s : Spot) : Reads d C (.rule take) s true s.taken s.next
  | report (f : Fault) (s : Spot) : Reads d C (.rule (report f)) s false (.fault f .nil) s
  | cutRange (s : Spot) : Reads d C (.rule cutRange) s true .nil (s.cut d)
  | seq {first : Rule} {next : Bool → Rule} {s s' s'' : Spot} {m m' : Bool} {y z : Yield} :
      Reads d C (.rule first) s m y s' → Reads d C (.rule (next m)) s' m' z s'' →
        Reads d C (.rule (seq first next)) s m' (y ++ z) s''
  | again {body : Rule} {s s' s'' : Spot} {y z : Yield} :
      Reads d C (.rule body) s true y s' → Reads d C (.rule (many body)) s' true z s'' →
        Reads d C (.rule (many body)) s true (y ++ z) s''
  | stop {body : Rule} {s s' : Spot} {y : Yield} :
      Reads d C (.rule body) s false y s' → Reads d C (.rule (many body)) s true y s'
  | node {kind : NodeKind} {body : Rule} {s s' : Spot} {y : Yield} :
      Reads d C (.rule body) s true y s' →
        Reads d C (.rule (node kind body)) s true (.node kind y .nil) s'
  | drop {kind : NodeKind} {body : Rule} {s s' : Spot} {y : Yield} :
      Reads d C (.rule body) s false y s' → Reads d C (.rule (node kind body)) s false y s'
  | wrap {kind : NodeKind} {first : Rule} {more : Nat → View → Bool} {body : Rule} {s s' s'' : Spot}
      {y z : Yield} : Reads d C (.rule first) s true y s' →
        Reads d C (.layers kind more body 0 y) s' true z s'' →
        Reads d C (.rule (wrap kind first more body)) s true z s''
  | unwrapped {kind : NodeKind} {first : Rule} {more : Nat → View → Bool} {body : Rule}
      {s s' : Spot} {y : Yield} : Reads d C (.rule first) s false y s' →
        Reads d C (.rule (wrap kind first more body)) s false y s'
  | attempt {body : Rule} {s s' : Spot} {y : Yield} :
      Reads d C (.rule body) s true y s' → y.faults = [] →
        Reads d C (.rule (attempt body)) s true y s'
  | back {body : Rule} {s s' : Spot} {m : Bool} {y : Yield} :
      Reads d C (.rule body) s m y s' → (m = true → y.faults ≠ []) →
        Reads d C (.rule (attempt body)) s false .nil s
  | call {name : Nonterminal} {s s' : Spot} {matched : Bool} {y : Yield} :
      C name s matched y s' → Reads d C (.rule (call name)) s matched y s'
  | layer {kind : NodeKind} {more : Nat → View → Bool} {body : Rule} {count : Nat}
      {inner y z : Yield}
      {s s' s'' : Spot} {m : Bool} : more count s.view = true → Reads d C (.rule body) s m y s' →
        Reads d C
          (.layers kind more body (count + 1) (.node kind (inner ++ y) .nil)) s' true z s'' →
        Reads d C (.layers kind more body count inner) s true z s''
  | enough {kind : NodeKind} {more : Nat → View → Bool} {body : Rule} {count : Nat} {inner : Yield}
      {s : Spot} : more count s.view = false →
        Reads d C (.layers kind more body count inner) s true inner s

section

variable {d : Dialect} {C : Calls} {s s' : Spot} {m : Bool} {y : Yield} {a b : Rule}

lemma reads_done {matched : Bool} :
    Reads d C (.rule (done matched)) s m y s' ↔ m = matched ∧ y = .nil ∧ s' = s := by
  constructor
  · intro h
    cases h
    exact ⟨rfl, rfl, rfl⟩
  · rintro ⟨rfl, rfl, rfl⟩
    exact .done m s'

lemma reads_look {next : View → Rule} :
    Reads d C (.rule (look next)) s m y s' ↔ Reads d C (.rule (next s.view)) s m y s' :=
  ⟨fun h => by cases h; assumption, .look⟩

lemma reads_take : Reads d C (.rule take) s m y s' ↔ m = true ∧ y = s.taken ∧ s' = s.next := by
  constructor
  · intro h
    cases h
    exact ⟨rfl, rfl, rfl⟩
  · rintro ⟨rfl, rfl, rfl⟩
    exact .take s

lemma reads_report {f : Fault} :
    Reads d C (.rule (report f)) s m y s' ↔ m = false ∧ y = .fault f .nil ∧ s' = s := by
  constructor
  · intro h
    cases h
    exact ⟨rfl, rfl, rfl⟩
  · rintro ⟨rfl, rfl, rfl⟩
    exact .report f s'

lemma reads_cutRange :
    Reads d C (.rule cutRange) s m y s' ↔ m = true ∧ y = .nil ∧ s' = s.cut d := by
  constructor
  · intro h
    cases h
    exact ⟨rfl, rfl, rfl⟩
  · rintro ⟨rfl, rfl, rfl⟩
    exact .cutRange s

lemma reads_call {name : Nonterminal} :
    Reads d C (.rule (call name)) s m y s' ↔ C name s m y s' :=
  ⟨fun h => by cases h; assumption, .call⟩

lemma reads_seq {next : Bool → Rule} :
    Reads d C (.rule (seq a next)) s m y s' ↔
      ∃ m₁ y₁ s₁ y₂, Reads d C (.rule a) s m₁ y₁ s₁ ∧ Reads d C (.rule (next m₁)) s₁ m y₂ s' ∧
        y = y₁ ++ y₂ := by
  constructor
  · intro h
    cases h with
    | seq h h' => exact ⟨_, _, _, _, h, h', rfl⟩
  · rintro ⟨m₁, y₁, s₁, y₂, h, h', rfl⟩
    exact .seq h h'

lemma reads_then :
    Reads d C (.rule (a >> b)) s m y s' ↔
      ∃ m₁ y₁ s₁ y₂, Reads d C (.rule a) s m₁ y₁ s₁ ∧ Reads d C (.rule b) s₁ m y₂ s' ∧
        y = y₁ ++ y₂ :=
  reads_seq

lemma reads_or :
    Reads d C (.rule (a ||| b)) s m y s' ↔
      (m = true ∧ Reads d C (.rule a) s true y s') ∨
        ∃ y₁ s₁ y₂, Reads d C (.rule a) s false y₁ s₁ ∧ Reads d C (.rule b) s₁ m y₂ s' ∧
          y = y₁ ++ y₂ := by
  constructor
  · intro h
    obtain ⟨m₁, y₁, s₁, y₂, h, h', rfl⟩ := reads_seq.1 h
    cases m₁ with
    | false => exact .inr ⟨y₁, s₁, y₂, h, h', rfl⟩
    | true =>
        obtain ⟨rfl, rfl, rfl⟩ := reads_done.1 h'
        exact .inl ⟨rfl, by simpa using h⟩
  · rintro (⟨rfl, h⟩ | ⟨y₁, s₁, y₂, h, h', rfl⟩)
    · exact reads_seq.2 ⟨true, y, s', .nil, h, .done true s', by simp⟩
    · exact reads_seq.2 ⟨false, y₁, s₁, y₂, h, h', rfl⟩

lemma reads_and :
    Reads d C (.rule (a &&& b)) s m y s' ↔
      (m = false ∧ Reads d C (.rule a) s false y s') ∨
        ∃ y₁ s₁ y₂, Reads d C (.rule a) s true y₁ s₁ ∧ Reads d C (.rule b) s₁ m y₂ s' ∧
          y = y₁ ++ y₂ := by
  constructor
  · intro h
    obtain ⟨m₁, y₁, s₁, y₂, h, h', rfl⟩ := reads_seq.1 h
    cases m₁ with
    | true => exact .inr ⟨y₁, s₁, y₂, h, h', rfl⟩
    | false =>
        obtain ⟨rfl, rfl, rfl⟩ := reads_done.1 h'
        exact .inl ⟨rfl, by simpa using h⟩
  · rintro (⟨rfl, h⟩ | ⟨y₁, s₁, y₂, h, h', rfl⟩)
    · exact reads_seq.2 ⟨false, y, s', .nil, h, .done false s', by simp⟩
    · exact reads_seq.2 ⟨true, y₁, s₁, y₂, h, h', rfl⟩

lemma reads_test {c : View → Bool} :
    Reads d C (.rule (test c)) s m y s' ↔ m = c s.view ∧ y = .nil ∧ s' = s :=
  reads_look.trans reads_done

lemma reads_choose {c : View → Bool} :
    Reads d C (.rule (choose c a b)) s m y s' ↔
      if c s.view then Reads d C (.rule a) s m y s' else Reads d C (.rule b) s m y s' := by
  rw [choose, reads_look]
  split <;> rfl

lemma reads_when {c : View → Bool} :
    Reads d C (.rule (when c a)) s m y s' ↔
      if c s.view then Reads d C (.rule a) s m y s' else m = false ∧ y = .nil ∧ s' = s := by
  rw [when, reads_choose, fail, reads_done]

lemma reads_token {kind : TokenKind} :
    Reads d C (.rule (token kind)) s m y s' ↔
      if s.view.kind 0 = kind then m = true ∧ y = s.taken ∧ s' = s.next
        else m = false ∧ y = .nil ∧ s' = s := by
  rw [token, reads_when, reads_take]
  simp [View.is]

lemma reads_expect {kind : TokenKind} {f : Fault} :
    Reads d C (.rule (expect kind f)) s m y s' ↔
      if s.view.kind 0 = kind then m = true ∧ y = s.taken ∧ s' = s.next
        else m = false ∧ y = .fault f .nil ∧ s' = s := by
  rw [expect, reads_or]
  simp only [reads_token, reads_report]
  split
  · simp
  · constructor
    · rintro (⟨-, ⟨⟩, -⟩ | ⟨_, _, _, ⟨-, rfl, rfl⟩, ⟨rfl, rfl, rfl⟩, rfl⟩)
      exact ⟨rfl, rfl, rfl⟩
    · rintro ⟨rfl, rfl, rfl⟩
      exact .inr ⟨.nil, s', _, ⟨trivial, rfl, rfl⟩, ⟨rfl, rfl, rfl⟩, rfl⟩

lemma reads_node {kind : NodeKind} :
    Reads d C (.rule (node kind a)) s m y s' ↔
      ∃ z, Reads d C (.rule a) s m z s' ∧ y = if m then .node kind z .nil else z := by
  constructor
  · intro h
    cases h with
    | node h => exact ⟨_, h, rfl⟩
    | drop h => exact ⟨_, h, rfl⟩
  · rintro ⟨z, h, rfl⟩
    cases m with
    | true => exact .node h
    | false => exact .drop h

lemma reads_group {kind : NodeKind} :
    Reads d C (.rule (group kind a)) s m y s' ↔
      m = true ∧ ∃ m₁ z, Reads d C (.rule a) s m₁ z s' ∧ y = .node kind z .nil := by
  rw [group, reads_node]
  constructor
  · rintro ⟨z, h, rfl⟩
    obtain ⟨m₁, y₁, s₁, y₂, h, h', rfl⟩ := reads_then.1 h
    obtain ⟨rfl, rfl, rfl⟩ := reads_done.1 h'
    exact ⟨rfl, m₁, y₁, h, by simp⟩
  · rintro ⟨rfl, m₁, z, h, rfl⟩
    exact ⟨z, reads_then.2 ⟨m₁, z, s', .nil, h, .done true s', by simp⟩, by simp⟩

/-- A repetition ends where its body does not match. -/
lemma reads_stop {body : Rule} (h : Reads d C (.rule (many body)) s m y s') :
    ∃ y₁ s₁, Reads d C (.rule body) s₁ false y₁ s' := by
  generalize hphase : Phase.rule (many body) = phase at h
  induction h with
  | again _ _ _ ih =>
      cases hphase
      exact ih rfl
  | stop h _ =>
      cases hphase
      exact ⟨_, _, h⟩
  | _ => cases hphase

/-- What an `attempt` yields its body has read without a fault, or it is nothing. -/
lemma reads_attempt (h : Reads d C (.rule (attempt a)) s m y s') :
    (m = true ∧ Reads d C (.rule a) s true y s' ∧ y.faults = []) ∨
      (m = false ∧ y = .nil ∧ s' = s) := by
  cases h with
  | attempt h hclean => exact .inl ⟨rfl, h, hclean⟩
  | back _ _ => exact .inr ⟨rfl, rfl, rfl⟩

/-- A rule that always matches. -/
lemma matched_of_accepts {r : Rule} (hr : Accepts r) (h : Reads d C (.rule r) s m y s') :
    m = true := by
  induction r generalizing s m y s' with
  | done matched => exact (reads_done.1 h).1.trans hr
  | look next ih => exact ih _ (hr _) (reads_look.1 h)
  | take => exact (reads_take.1 h).1
  | report fault => cases hr
  | cutRange => exact (reads_cutRange.1 h).1
  | seq first next _ ih =>
      obtain ⟨m₁, y₁, s₁, y₂, -, h', -⟩ := reads_seq.1 h
      exact ih m₁ (hr m₁) h'
  | many body => cases h <;> rfl
  | node kind body ih =>
      obtain ⟨z, h, -⟩ := reads_node.1 h
      exact ih hr h
  | wrap kind first more body ih =>
      cases h with
      | wrap h h' => rfl
      | unwrapped h => exact ih hr h
  | attempt body => cases hr
  | call name => cases hr

/-- A repetition whose rounds always match ends where it is told to. -/
lemma reads_until {c : View → Bool} {body : Rule} (hbody : Accepts body)
    (h : Reads d C (.rule (many (choose c fail body))) s m y s') : c s'.view = true := by
  obtain ⟨y₁, s₁, hstop⟩ := reads_stop h
  rw [reads_choose] at hstop
  split at hstop
  · rename_i hends
    rwa [(reads_done.1 hstop).2.2]
  · cases matched_of_accepts hbody hstop

end

/-- If calls have one answer at most, so have all rules. -/
theorem Reads.unique {d : Dialect} {C C' : Calls}
    (hcalls : ∀ name s m y s' m' y' s'', C name s m y s' → C' name s m' y' s'' →
      m = m' ∧ y = y' ∧ s' = s'')
    {phase : Phase} {s s' s'' : Spot} {m m' : Bool} {y y' : Yield} (h : Reads d C phase s m y s')
    (h' : Reads d C' phase s m' y' s'') : m = m' ∧ y = y' ∧ s' = s'' := by
  induction h generalizing m' y' s'' with
  | done matched s =>
      cases h'
      exact ⟨rfl, rfl, rfl⟩
  | look _ ih =>
      cases h' with
      | look h' => exact ih h'
  | take s =>
      cases h'
      exact ⟨rfl, rfl, rfl⟩
  | report f s =>
      cases h'
      exact ⟨rfl, rfl, rfl⟩
  | cutRange s =>
      cases h'
      exact ⟨rfl, rfl, rfl⟩
  | seq _ _ ihfirst ihnext =>
      cases h' with
      | seq hfirst hnext =>
          obtain ⟨rfl, rfl, rfl⟩ := ihfirst hfirst
          obtain ⟨rfl, rfl, rfl⟩ := ihnext hnext
          exact ⟨rfl, rfl, rfl⟩
  | again _ _ ihbody ihrest =>
      cases h' with
      | again hbody hrest =>
          obtain ⟨-, rfl, rfl⟩ := ihbody hbody
          obtain ⟨-, rfl, rfl⟩ := ihrest hrest
          exact ⟨rfl, rfl, rfl⟩
      | stop hbody => exact absurd (ihbody hbody).1 (by simp)
  | stop _ ih =>
      cases h' with
      | again hbody _ => exact absurd (ih hbody).1 (by simp)
      | stop hbody =>
          obtain ⟨-, rfl, rfl⟩ := ih hbody
          exact ⟨rfl, rfl, rfl⟩
  | node _ ih =>
      cases h' with
      | node hbody =>
          obtain ⟨-, rfl, rfl⟩ := ih hbody
          exact ⟨rfl, rfl, rfl⟩
      | drop hbody => exact absurd (ih hbody).1 (by simp)
  | drop _ ih =>
      cases h' with
      | node hbody => exact absurd (ih hbody).1 (by simp)
      | drop hbody => exact ih hbody
  | wrap _ _ ihfirst ihlayers =>
      cases h' with
      | wrap hfirst hlayers =>
          obtain ⟨-, rfl, rfl⟩ := ihfirst hfirst
          exact ihlayers hlayers
      | unwrapped hfirst => exact absurd (ihfirst hfirst).1 (by simp)
  | unwrapped _ ih =>
      cases h' with
      | wrap hfirst _ => exact absurd (ih hfirst).1 (by simp)
      | unwrapped hfirst => exact ih hfirst
  | attempt _ hclean ih =>
      cases h' with
      | attempt hbody _ => exact ih hbody
      | back hbody hback =>
          obtain ⟨rfl, rfl, -⟩ := ih hbody
          exact absurd hclean (hback rfl)
  | back _ hback ih =>
      cases h' with
      | attempt hbody hclean =>
          obtain ⟨rfl, rfl, -⟩ := ih hbody
          exact absurd hclean (hback rfl)
      | back _ _ => exact ⟨rfl, rfl, rfl⟩
  | call hcall =>
      cases h' with
      | call hcall' => exact hcalls _ _ _ _ _ _ _ _ hcall hcall'
  | layer hmore _ _ ihbody ihrest =>
      cases h' with
      | layer _ hbody hrest =>
          obtain ⟨-, rfl, rfl⟩ := ihbody hbody
          exact ihrest hrest
      | enough hnone => exact absurd (hmore.symm.trans hnone) (by simp)
  | enough hnone =>
      cases h' with
      | layer hmore _ _ => exact absurd (hmore.symm.trans hnone) (by simp)
      | enough _ => exact ⟨rfl, rfl, rfl⟩

/-! ### Relations between what is read and where -/

/-- A relation between spots and yields that is built up along a rule. -/
structure Tracks (d : Dialect) (R : Spot → Yield → Spot → Prop) : Prop where
  nil : ∀ s, R s .nil s
  append : ∀ s s' s'' y z, R s y s' → R s' z s'' → R s (y ++ z) s''
  take : ∀ s, R s s.taken s.next
  fault : ∀ s f, R s (.fault f .nil) s
  cut : ∀ s, R s .nil (s.cut d)
  node : ∀ s s' kind y, R s y s' → R s (.node kind y .nil) s'

/-- What a phase has read from `s` to `s'`; of the rest of a `wrap`, together with what was read
before. -/
def Reaches (R : Spot → Yield → Spot → Prop) : Phase → Spot → Yield → Spot → Prop
  | .rule _, s, y, s' => R s y s'
  | .layers _ _ _ _ inner, s, y, s' => ∀ s₀, R s₀ inner s → R s₀ y s'

/-- A relation that is built up along rules holds of all that rules read, if it holds of calls. -/
theorem Reads.reaches {d : Dialect} {C : Calls} {R : Spot → Yield → Spot → Prop} (hR : Tracks d R)
    (hcalls : ∀ name s m y s', C name s m y s' → R s y s') {phase : Phase} {s s' : Spot} {m : Bool}
    {y : Yield} (h : Reads d C phase s m y s') : Reaches R phase s y s' := by
  induction h with
  | done _ s => exact hR.nil s
  | look _ ih => exact ih
  | take s => exact hR.take s
  | report f s => exact hR.fault s f
  | cutRange s => exact hR.cut s
  | seq _ _ ih ih' => exact hR.append _ _ _ _ _ ih ih'
  | again _ _ ih ih' => exact hR.append _ _ _ _ _ ih ih'
  | stop _ ih => exact ih
  | node _ ih => exact hR.node _ _ _ _ ih
  | drop _ ih => exact ih
  | wrap _ _ ih ih' => exact ih' _ ih
  | unwrapped _ ih => exact ih
  | attempt _ _ ih => exact ih
  | back _ _ _ => exact hR.nil _
  | call h => exact hcalls _ _ _ _ _ h
  | layer _ _ _ ih ih' =>
      exact fun s₀ hinner => ih' s₀ (hR.node _ _ _ _ (hR.append _ _ _ _ _ hinner ih))
  | enough _ => exact fun _ hinner => hinner

end Rule

namespace Grammar

/-- How the grammar answers nonterminals, with rules nested at most `depth` deep. -/
def Yields (d : Dialect) : Nat → Calls
  | 0, _, _, _, _, _ => False
  | depth + 1, name, s, matched, y, s' =>
    Rule.Reads d (Yields d depth) (.rule (rule d name)) s matched y s'

lemma reads_of_yields {d : Dialect} {depth : Nat} {name : Nonterminal} {s s' : Spot} {m : Bool}
    {y : Yield} (h : Yields d depth name s m y s') :
    ∃ depth', Rule.Reads d (Yields d depth') (.rule (rule d name)) s m y s' := by
  cases depth with
  | zero => cases h
  | succ depth => exact ⟨depth, h⟩

/-- What holds of the rule of every nonterminal, given that it holds of the nonterminals in it,
holds of all answers. -/
lemma yields_induction {d : Dialect} {P : Calls}
    (step : ∀ C : Calls, (∀ name s m y s', C name s m y s' → P name s m y s') →
      ∀ name s m y s', Rule.Reads d C (.rule (rule d name)) s m y s' → P name s m y s')
    {depth : Nat} {name : Nonterminal} {s s' : Spot} {m : Bool} {y : Yield}
    (h : Yields d depth name s m y s') : P name s m y s' := by
  induction depth generalizing name s m y s' with
  | zero => cases h
  | succ depth ih => exact step (Yields d depth) (fun _ _ _ _ _ => ih) name s m y s' h

lemma yields_reaches {d : Dialect} {R : Spot → Yield → Spot → Prop} (hR : Rule.Tracks d R)
    {depth : Nat} {name : Nonterminal} {s s' : Spot} {m : Bool} {y : Yield}
    (h : Yields d depth name s m y s') : R s y s' :=
  yields_induction (P := fun _ s _ y s' => R s y s')
    (fun _ hcalls _ _ _ _ _ h => h.reaches hR hcalls) h

/-- The answers do not depend on the depth. -/
lemma yields_unique {d : Dialect} {depth depth' : Nat} {name : Nonterminal} {s s' s'' : Spot}
    {m m' : Bool} {y y' : Yield} (h : Yields d depth name s m y s')
    (h' : Yields d depth' name s m' y' s'') : m = m' ∧ y = y' ∧ s' = s'' := by
  induction depth generalizing depth' name s m y s' m' y' s'' with
  | zero => cases h
  | succ depth ih =>
      cases depth' with
      | zero => cases h'
      | succ depth' =>
          have hcalls : ∀ name s m y s' m' y' s'', Yields d depth name s m y s' →
              Yields d depth' name s m' y' s'' → m = m' ∧ y = y' ∧ s' = s'' :=
            fun _ _ _ _ _ _ _ _ h h' => ih h h'
          exact Rule.Reads.unique hcalls h h'

lemma reads_unique {d : Dialect} {depth depth' : Nat} {phase : Phase} {s s' s'' : Spot}
    {m m' : Bool} {y y' : Yield} (h : Rule.Reads d (Yields d depth) phase s m y s')
    (h' : Rule.Reads d (Yields d depth') phase s m' y' s'') : m = m' ∧ y = y' ∧ s' = s'' :=
  have hcalls : ∀ name s m y s' m' y' s'', Yields d depth name s m y s' →
      Yields d depth' name s m' y' s'' → m = m' ∧ y = y' ∧ s' = s'' :=
    fun _ _ _ _ _ _ _ _ h h' => yields_unique h h'
  h.unique hcalls h'

end Grammar

end StyleSheet
